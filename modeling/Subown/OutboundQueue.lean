import Subown.ClaimOverWire
import Subown.AdapterStep
import Subown.RingBuffer

/-! The outbound queue over whole runs: the pending frames are the claims made since the last
flush, in order, and a claim that finds no room disturbs none of them. -/
namespace Subown

open OwnershipAdapter RunRules

namespace OwnershipAdapter

/-- The frames waiting to be flushed with their recorded lengths, oldest first. -/
def pending (a : OwnershipAdapter) : List (Frame × UInt32) :=
  RingBuffer.contents (fun i => (a.outbound i, a.outboundLen i)) a.outHead a.outTail

/-- The subscriber has a slot, and its claim finds room in the queue. -/
def CanQueue (a : OwnershipAdapter) (s : UInt64) : Prop := a.Room s ∧ a.pending.length < 511

instance (a : OwnershipAdapter) (s : UInt64) : Decidable (a.CanQueue s) :=
  inferInstanceAs (Decidable (_ ∧ _))

/-- The claim a call makes, as the update that announces it. -/
def claimsBy (a : OwnershipAdapter) : AdapterCall → List SubownUpdate
  | .onPacket s now =>
      let reply := a.onPacket s now
      if reply.rc = 0 ∧ reply.out.reason = SubownReason.unownedClaim.code then
        [claimUpdate (reply.adapter.workingRecord s)]
      else []
  | _ => []

end OwnershipAdapter

/-- An adapter with the claims it made since the last flush. -/
structure ClaimLog where
  adapter : OwnershipAdapter
  claims : List SubownUpdate

namespace ClaimLog

def start (cfg : OwnAdapterCfg) : ClaimLog := ⟨OwnershipAdapter.create cfg, []⟩

def step (h : ClaimLog) (call : AdapterCall) : ClaimLog :=
  ⟨h.adapter.step call,
    if call = .flushOutbound then [] else h.claims ++ h.adapter.claimsBy call⟩

end ClaimLog

/-- The outbound queue as a bounded queue of valid claims. -/
structure OutboundLaw (h : ClaimLog) : Prop where
  indices : h.adapter.outHead.val < 512 ∧ h.adapter.outTail.val < 512
  bounded : h.adapter.pending.length ≤ 511
  fifo : h.adapter.pending.map (fun entry => some entry.1) =
    h.claims.map fun u => encodeUpdateV1 u wireV1FrameSize
  valid : ∀ entry ∈ h.adapter.pending, entry.2 = 40 ∧ ∃ u, decodeUpdateV1 entry.1 = some u ∧
    u.ownerBox = h.adapter.cfg.localBoxId ∧ u.ownerBoxId = h.adapter.cfg.localBoxId.toUInt16
  refused : ∀ s now, h.adapter.pending.length = 511 → h.adapter.cfg.mode ≠ .modeDisabled →
    (h.adapter.workingRecord s).ownerBox = unownedState →
      (h.adapter.onPacket s now).rc = -1 ∧ ∃ t, (h.adapter.onPacket s now).adapter.replica =
        { h.adapter.replica with table := t }
  flush : h.adapter.flushOutbound.1 = h.adapter.pending.length ∧
    h.adapter.flushOutbound.2.pending = []

variable {a c : OwnershipAdapter} {cfg : OwnAdapterCfg} {s now : UInt64} {call : AdapterCall}

/-! ### The queue of one adapter -/

theorem length_pending : a.pending.length ≤ 511 := Nat.le_of_lt_succ RingBuffer.length_lt

theorem emitStatus_full : a.emitStatus ≠ .ok ↔ a.pending.length = 511 := by
  have hfull : nextIdx a.outTail = a.outHead ↔ a.pending.length = 511 :=
    RingBuffer.next_eq_head.trans Nat.succ_inj
  rw [ne_eq, emitStatus_ok_iff, not_not, hfull]

theorem emitStatus_of_length (h : a.pending.length < 511) : a.emitStatus = .ok :=
  not_not.mp fun hfail => h.ne (emitStatus_full.mp hfail)

theorem pending_congr {t : Fin ownRecordCap → OwnSlot}
    (h : c.replica = { a.replica with table := t }) : c.pending = a.pending := by
  unfold pending
  rw [show c.outbound = a.outbound from congrArg Replica.outbound h,
    show c.outboundLen = a.outboundLen from congrArg Replica.outboundLen h,
    show c.outHead = a.outHead from congrArg Replica.outHead h,
    show c.outTail = a.outTail from congrArg Replica.outTail h]

theorem pending_enqueue (h : a.emitStatus = .ok) (u : SubownUpdate) :
    (a.enqueue u).pending = a.pending ++ [(frameBytes u, 40)] := by
  have hne : nextIdx a.outTail ≠ a.outHead := emitStatus_ok_iff.mp h
  have hlen : (frameBytes u).length.toUInt32 = 40 := rfl
  rw [pending, pending, ← RingBuffer.contents_push hne]
  congr 1
  funext i
  by_cases hi : i = a.outTail
  · subst hi
    simp [enqueue, hlen]
  · simp [enqueue, Function.update_of_ne hi]

theorem flushOutbound_rc (a : OwnershipAdapter) : a.flushOutbound.1 = a.pending.length := by
  unfold flushOutbound pending
  rw [flushFrom_eq, RingBuffer.length_contents, zero_add]

theorem flushOutbound_pending (a : OwnershipAdapter) : a.flushOutbound.2.pending = [] := by
  rw [flushOutbound_eq]
  exact RingBuffer.contents_self

/-! ### What a call emits -/

/-- What the core emits is a claim under the local id, and there was room for it. -/
theorem emittedBy_claim (hb : BoxId a.cfg.localBoxId) {u : SubownUpdate}
    (h : a.emittedBy call = some u) : a.emitStatus = .ok ∧
      ∃ r now, u = claimUpdate (claimedRecord r a.cfg.localBoxId now) := by
  unfold emittedBy at h
  cases heff : a.effect call with
  | quiet => simp [heff] at h
  | sweep p => simp [heff] at h
  | core s call' =>
      obtain ⟨now, rfl, _, _, rfl⟩ | ⟨m, v, rfl, _, _, rfl, rfl⟩ := effect_core heff
      · rw [heff] at h
        dsimp only at h
        obtain ⟨_, e⟩ | ⟨_, e⟩ | ⟨_, hok, e⟩ | ⟨_, _, e⟩ | ⟨_, e⟩ :=
          corePacket_cases hb (a.workingRecord s) now a.emitStatus <;> rw [e] at h <;> cases h
        exact ⟨hok, _, now, rfl⟩
      · simp [heff] at h

/-- The claims of the replies are the updates emitted. -/
theorem claimsBy_eq (h : a.Sound) (hb : BoxId a.cfg.localBoxId) (call : AdapterCall) :
    a.claimsBy call = (a.emittedBy call).toList := by
  cases call with
  | onPacket s now =>
      obtain hidle | ⟨hmode, hroom⟩ := idle_or_reaches a s
      · rw [emittedBy, effect_idle hidle, claimsBy, onPacket_idle_eq hidle]
        simp [SubownReason.code]
      have hspec := onPacket_spec h hmode hroom now
      have hrecord := congrFun hspec.records s
      rw [Function.update_self] at hrecord
      have hrc := hspec.rc
      have hout := hspec.out
      rw [emittedBy, effect_onPacket hmode hroom, claimsBy, workingRecord_of_some hrecord]
      dsimp only
      obtain ⟨_, e⟩ | ⟨_, e⟩ | ⟨_, _, e⟩ | ⟨_, _, e⟩ | ⟨_, e⟩ :=
        corePacket_cases hb (a.workingRecord s) now a.emitStatus
      · rw [e] at hout ⊢
        simp [(hout rfl).1, SubownReason.code]
      · rw [e] at hout ⊢
        have hreason := (hout rfl).1
        unfold misroute at hreason
        split_ifs at hreason <;> simp [hreason, SubownReason.code]
      · rw [e] at hout hrc ⊢
        simp [hrc, (hout rfl).1]
      · rw [e] at hrc ⊢
        simp [hrc]
      · rw [e] at hout ⊢
        simp [(hout rfl).1, SubownReason.code]
  | onRemoteMsg m =>
      rw [emittedBy_remote]
      rfl
  | flushOutbound => rfl
  | onPeerDown p => rfl
  | onAgingTick now => rfl
  | pushEvent evt => rfl
  | popEvent => rfl
  | getMetrics => rfl

theorem pending_step (h : a.Sound) (hb : BoxId a.cfg.localBoxId) (call : AdapterCall)
    (hflush : call ≠ .flushOutbound) :
    (a.step call).pending = a.pending ++ (a.claimsBy call).map fun u => (frameBytes u, 40) := by
  obtain ⟨t, hreplica⟩ := step_replica h call hflush
  rw [pending_congr hreplica, claimsBy_eq h hb]
  cases hu : a.emittedBy call with
  | none => simp [enqueueAll]
  | some u => exact pending_enqueue (emittedBy_claim hb hu).1 u

/-- A claim that finds the queue full is refused and leaves the queue as it is. -/
theorem onPacket_refused (h : a.Sound) (hb : BoxId a.cfg.localBoxId)
    (hfull : a.pending.length = 511) (hmode : a.cfg.mode ≠ .modeDisabled)
    (hun : (a.workingRecord s).ownerBox = unownedState) (now : UInt64) :
    (a.onPacket s now).rc = -1 ∧
      ∃ t, (a.onPacket s now).adapter.replica = { a.replica with table := t } := by
  by_cases hroom : a.Room s
  swap
  · rw [onPacket_full hmode hroom]
    exact ⟨rfl, a.table, rfl⟩
  have hspec := onPacket_spec h hmode hroom now
  obtain ⟨ho, _⟩ | ⟨ho, _⟩ | ⟨_, hok, _⟩ | ⟨_, _, e⟩ | ⟨ho, _⟩ :=
    corePacket_cases hb (a.workingRecord s) now a.emitStatus
  · exact absurd (ho.symm.trans hun) hb.ne_unowned.1
  · exact absurd (ho.symm.trans hun) hb.ne_unowned.2
  · exact absurd hok (emitStatus_full.mpr hfull)
  · rw [e] at hspec
    exact ⟨hspec.rc, hspec.queue⟩
  · exact absurd (Or.inr (Or.inr hun)) ho

/-- Nor does a claim that finds no slot. -/
theorem onPacket_unqueued (h : a.Sound) (hb : BoxId a.cfg.localBoxId) (hcan : ¬ a.CanQueue s)
    (hmode : a.cfg.mode ≠ .modeDisabled) (hun : (a.workingRecord s).ownerBox = unownedState)
    (now : UInt64) :
    (a.onPacket s now).rc = -1 ∧ a.queuedBy (.onPacket s now) = [] := by
  by_cases hroom : a.Room s
  · have hfull : a.pending.length = 511 :=
      le_antisymm length_pending (Nat.le_of_not_lt fun hlt => hcan ⟨hroom, hlt⟩)
    obtain ⟨hrc, hreplica⟩ := onPacket_refused h hb hfull hmode hun now
    exact ⟨hrc, @queuedBy_of_replica a (.onPacket s now) none hreplica⟩
  · rw [onPacket_full hmode hroom, queuedBy_eq h, effect_idle (Or.inr hroom)]
    exact ⟨rfl, rfl⟩

theorem canQueue_onPeerDown (a : OwnershipAdapter) (p : UInt8) (s : UInt64) :
    (a.onPeerDown p).2.CanQueue s ↔ a.CanQueue s := by
  have hpending : (a.onPeerDown p).2.pending = a.pending := by
    rw [onPeerDown_eq]
    rfl
  unfold CanQueue
  rw [room_congr (onPeerDown_keys a p), hpending]

/-! ### Runs -/

structure OutboundInv (cfg : OwnAdapterCfg) (h : ClaimLog) : Prop
    extends Grounded cfg h.adapter where
  pending : h.adapter.pending = h.claims.map fun u => (frameBytes u, 40)
  localClaims : ∀ u ∈ h.claims, ∃ r now, u = claimUpdate (claimedRecord r cfg.localBoxId now)

theorem OutboundInv.start (cfg : OwnAdapterCfg) : OutboundInv cfg (ClaimLog.start cfg) where
  toGrounded := .create cfg
  pending := RingBuffer.contents_eq_nil.mpr rfl
  localClaims u hu := by cases hu

theorem OutboundInv.step {h : ClaimLog} (hb : BoxId cfg.localBoxId) (hi : OutboundInv cfg h)
    (call : AdapterCall) : OutboundInv cfg (h.step call) := by
  have hba := hi.boxId hb
  refine ⟨hi.toGrounded.step call, ?_, ?_⟩
  · change (h.adapter.step call).pending = _
    by_cases hflush : call = .flushOutbound
    · subst hflush
      exact flushOutbound_pending h.adapter
    · rw [pending_step hi.sound hba call hflush, hi.pending, ClaimLog.step, if_neg hflush,
        List.map_append]
  · intro u hu
    change u ∈ ite _ _ _ at hu
    split_ifs at hu with hflush
    · cases hu
    · rcases List.mem_append.mp hu with hu | hu
      · exact hi.localClaims u hu
      · rw [claimsBy_eq hi.sound hba, Option.mem_toList] at hu
        rw [← hi.config]
        exact (emittedBy_claim hba hu).2

theorem OutboundInv.law {h : ClaimLog} (hb : BoxId cfg.localBoxId) (hi : OutboundInv cfg h) :
    OutboundLaw h where
  indices := ⟨h.adapter.outHead.isLt, h.adapter.outTail.isLt⟩
  bounded := length_pending
  fifo := by
    rw [hi.pending, List.map_map]
    simp [Function.comp_def]
  valid entry hentry := by
    rw [hi.pending] at hentry
    obtain ⟨u, hu, rfl⟩ := List.mem_map.mp hentry
    obtain ⟨r, now, rfl⟩ := hi.localClaims u hu
    rw [hi.config]
    exact ⟨rfl, _, decodeUpdateV1_claim hb.known r now, rfl, rfl⟩
  refused s now hfull hmode hun :=
    onPacket_refused hi.sound (hi.boxId hb) hfull hmode hun now
  flush := ⟨flushOutbound_rc h.adapter, flushOutbound_pending h.adapter⟩

/-- Over every run the outbound queue holds exactly the claims made since the last flush. -/
theorem outbound_queue_fifo (hb : BoxId cfg.localBoxId) (calls : List AdapterCall) :
    Always ClaimLog.step OutboundLaw (ClaimLog.start cfg) calls :=
  always_of_inv (P := fun _ _ => True) (fun _ hi => hi.law hb) (fun _ call hi _ => hi.step hb call)
    (OutboundInv.start cfg) (.of_forall fun _ _ => trivial)

theorem outbound_queue_fifo_flush :
    Always ClaimLog.step OutboundLaw (ClaimLog.start ⟨.modeEnforce, 1, 3⟩)
      [.onPacket 7 5, .onPacket 8 6, .flushOutbound, .onPacket 9 7] :=
  outbound_queue_fifo (Or.inr rfl) _

end Subown
