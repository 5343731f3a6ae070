import Mathlib.Data.Nat.Notation

/-! Data model of the ownership core. Field and constant names follow `subown.h`;
machine integers keep their widths. Pointer arguments other than the emitter are
modelled as values, so the null checks on them have no counterpart here. -/
namespace Subown

/-- The only message version the core accepts. -/
abbrev msgVersion1 : UInt16 := 1

abbrev box0Id : UInt8 := 0x00
abbrev box1Id : UInt8 := 0x01
abbrev unownedState : UInt8 := 0xFF

inductive SubownState where
  | stateUnowned | stateLocal | stateRemote | stateMigrating
  deriving DecidableEq, Repr

inductive SubownDecision where
  | applyRemote | keepLocal | noop | emitLocalUpdate | processLocal | forwardRemote
  | triggerMigration
  deriving DecidableEq, Repr

inductive SubownReason where
  | winHigherGeneration | winTieBreakBoxId | dropStaleGeneration | dropDuplicate
  | keepLocalTieBreak | winNewerEpoch | dropStaleEpoch | invalidMessage | localClaim
  | localRefresh | localHit | remoteMisroute | remoteMigrationThreshold | unownedClaim
  deriving DecidableEq, Repr

inductive SubownStatus where
  | ok | errInvalidArgument | errCallbackFailed
  deriving DecidableEq, Repr

/-- The three reserved bytes both structures carry. -/
abbrev Reserved := UInt8 × UInt8 × UInt8

structure SubownRecord where
  subscriberId : UInt64
  generation : UInt32
  ownerBox : UInt8
  reserved : Reserved
  policyMask : UInt32
  activationTs : UInt64
  lastSeenTs : UInt64
  remotePacketCounter : UInt64
  ownerBoxId : UInt16
  timestamp : UInt64
  ownerEpoch : UInt32
  state : SubownState
  deriving DecidableEq, Repr

structure SubownUpdate where
  msgVersion : UInt16
  subscriberId : UInt64
  generation : UInt32
  ownerBox : UInt8
  reserved : Reserved
  activationTs : UInt64
  policyMask : UInt32
  ownerBoxId : UInt16
  timestamp : UInt64
  ownerEpoch : UInt32
  deriving DecidableEq, Repr

structure SubownResult where
  decision : SubownDecision
  reason : SubownReason
  deriving DecidableEq, Repr

/-- `subown_emit_update_fn`: a callback with its user context threaded through. -/
abbrev EmitUpdateFn (σ : Type*) := SubownUpdate → σ → SubownStatus × σ

/-- The owner bytes the protocol knows. -/
def KnownOwner (owner : UInt8) : Prop :=
  owner = box0Id ∨ owner = box1Id ∨ owner = unownedState

instance (owner : UInt8) : Decidable (KnownOwner owner) :=
  inferInstanceAs (Decidable (_ ∨ _ ∨ _))

@[simp] theorem toUInt8_toUInt16 (b : UInt8) : b.toUInt16.toUInt8 = b := by
  apply UInt8.toNat_inj.mp
  simp

/-- The two boxes of a deployment. -/
def BoxId (box : UInt8) : Prop := box = box0Id ∨ box = box1Id

instance (box : UInt8) : Decidable (BoxId box) := inferInstanceAs (Decidable (_ ∨ _))

/-- The other box, as the fast path computes it. -/
def peerOf (box : UInt8) : UInt8 := box ^^^ 0x01

theorem BoxId.cases {box : UInt8} (h : BoxId box) :
    (box = 0 ∧ peerOf box = 1) ∨ (box = 1 ∧ peerOf box = 0) := by
  rcases h with rfl | rfl
  · exact Or.inl ⟨rfl, rfl⟩
  · exact Or.inr ⟨rfl, rfl⟩

theorem BoxId.known {box : UInt8} (h : BoxId box) : KnownOwner box :=
  h.elim Or.inl fun h1 => Or.inr (Or.inl h1)

theorem BoxId.ne_unowned {b : UInt8} (hb : BoxId b) :
    b ≠ unownedState ∧ peerOf b ≠ unownedState := by
  obtain rfl | rfl := hb <;> decide

theorem BoxId.ne_peer {b : UInt8} (hb : BoxId b) : b ≠ peerOf b := by
  obtain rfl | rfl := hb <;> decide

theorem BoxId.peer_known {b : UInt8} (hb : BoxId b) : KnownOwner (peerOf b) := by
  obtain rfl | rfl := hb <;> decide

/-- The owners the fast path tells apart. -/
theorem BoxId.owner_cases {box : UInt8} (h : BoxId box) (owner : UInt8) :
    owner = box ∨ owner = peerOf box ∨ owner = unownedState ∨ ¬ KnownOwner owner := by
  by_cases hknown : KnownOwner owner
  · obtain rfl | rfl := h <;> rcases hknown with rfl | rfl | rfl <;> decide
  · exact Or.inr (Or.inr (Or.inr hknown))

/-- The two parties by name. -/
inductive Box where
  | box0 | box1
  deriving DecidableEq, Repr

namespace Box

def id : Box → UInt8
  | .box0 => box0Id
  | .box1 => box1Id

def other : Box → Box
  | .box0 => .box1
  | .box1 => .box0

variable (b : Box)

theorem isBoxId : BoxId b.id := by
  cases b
  · exact Or.inl rfl
  · exact Or.inr rfl

@[simp] theorem other_other : b.other.other = b := by cases b <;> rfl

theorem other_ne : b.other ≠ b := by cases b <;> exact nofun

theorem eq_or_eq_other (c : Box) : c = b ∨ c = b.other := by
  cases b <;> cases c <;> decide

theorem id_inj {b c : Box} (h : b.id = c.id) : b = c := by
  cases b <;> cases c <;> first | rfl | exact absurd h (by decide)

theorem id_ne_other : b.id ≠ b.other.id := fun h => b.other_ne (id_inj h).symm

end Box

end Subown
