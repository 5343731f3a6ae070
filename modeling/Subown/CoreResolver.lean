import Subown.CoreTypes
import Subown.StrictBest
import Mathlib.Data.Prod.Lex

/-! The conflict resolver `subown_apply_remote_update`, and its reading as a cell that is
overwritten by strictly better keys. -/
namespace Subown

def normalizeOwner (ownerBoxId : UInt16) (ownerBox : UInt8) : UInt8 :=
  if ownerBoxId = box0Id.toUInt16 ∨ ownerBoxId = box1Id.toUInt16 ∨
      ownerBoxId = unownedState.toUInt16 then
    ownerBoxId.toUInt8
  else if KnownOwner ownerBox then
    ownerBox
  else unownedState

def normalizeTs (activationTs timestamp : UInt64) : UInt64 :=
  if activationTs ≠ 0 then activationTs else timestamp

def validate (record : SubownRecord) (incoming : SubownUpdate) : SubownStatus :=
  if incoming.msgVersion ≠ msgVersion1 then .errInvalidArgument
  else if incoming.subscriberId ≠ record.subscriberId then .errInvalidArgument
  else .ok

structure RemoteOutcome where
  status : SubownStatus
  record : SubownRecord
  out : SubownResult
  deriving DecidableEq, Repr

def applyRemoteUpdate (record : SubownRecord) (incoming : SubownUpdate) : RemoteOutcome :=
  if validate record incoming ≠ .ok then
    ⟨.errInvalidArgument, record, ⟨.noop, .invalidMessage⟩⟩
  else
    let incomingOwner := normalizeOwner incoming.ownerBoxId incoming.ownerBox
    let incomingTs := normalizeTs incoming.activationTs incoming.timestamp
    if incoming.ownerEpoch > record.ownerEpoch then
      ⟨.ok,
        { record with
          ownerEpoch := incoming.ownerEpoch
          ownerBox := incomingOwner
          ownerBoxId := incomingOwner.toUInt16
          generation := incoming.generation
          activationTs := incomingTs
          timestamp := incomingTs
          lastSeenTs := incomingTs
          policyMask := incoming.policyMask
          state := if incomingOwner = unownedState then .stateUnowned else .stateRemote },
        ⟨.applyRemote, .winNewerEpoch⟩⟩
    else if incoming.ownerEpoch < record.ownerEpoch then
      ⟨.ok, record, ⟨.keepLocal, .dropStaleEpoch⟩⟩
    else if incoming.generation > record.generation then
      ⟨.ok,
        { record with
          ownerBox := incomingOwner
          ownerBoxId := incomingOwner.toUInt16
          generation := incoming.generation
          activationTs := incomingTs
          timestamp := incomingTs
          lastSeenTs := incomingTs
          policyMask := incoming.policyMask
          state := if incomingOwner = unownedState then .stateUnowned else .stateRemote },
        ⟨.applyRemote, .winHigherGeneration⟩⟩
    else if incoming.generation < record.generation then
      ⟨.ok, record, ⟨.keepLocal, .dropStaleGeneration⟩⟩
    else if incomingOwner = record.ownerBox then
      ⟨.ok, record, ⟨.noop, .dropDuplicate⟩⟩
    else if incomingOwner < record.ownerBox then
      ⟨.ok,
        { record with
          ownerBox := incomingOwner
          ownerBoxId := incomingOwner.toUInt16
          activationTs := incomingTs
          timestamp := incomingTs
          lastSeenTs := incomingTs
          policyMask := incoming.policyMask
          state := if incomingOwner = unownedState then .stateUnowned else .stateRemote },
        ⟨.applyRemote, .winTieBreakBoxId⟩⟩
    else
      ⟨.ok, record, ⟨.keepLocal, .keepLocalTieBreak⟩⟩

/-! ### Keys -/

/-- Epoch, then generation, then the numerically lower owner. -/
abbrev ResolverKey := ℕ ×ₗ ℕ ×ₗ ℕᵒᵈ

abbrev Stamp := ℕ ×ₗ ℕ

def resolverKey (ownerEpoch generation : UInt32) (owner : UInt8) : ResolverKey :=
  toLex (ownerEpoch.toNat, toLex (generation.toNat, OrderDual.toDual owner.toNat))

def stampOf (ownerEpoch generation : UInt32) : Stamp :=
  toLex (ownerEpoch.toNat, generation.toNat)

def SubownRecord.key (r : SubownRecord) : ResolverKey :=
  resolverKey r.ownerEpoch r.generation r.ownerBox

def SubownRecord.stamp (r : SubownRecord) : Stamp := stampOf r.ownerEpoch r.generation

/-- The owner the resolver reads out of an update. -/
def SubownUpdate.owner (u : SubownUpdate) : UInt8 := normalizeOwner u.ownerBoxId u.ownerBox

/-- The activation time the resolver reads out of an update. -/
def SubownUpdate.ts (u : SubownUpdate) : UInt64 := normalizeTs u.activationTs u.timestamp

def SubownUpdate.key (u : SubownUpdate) : ResolverKey :=
  resolverKey u.ownerEpoch u.generation u.owner

def SubownUpdate.stamp (u : SubownUpdate) : Stamp := stampOf u.ownerEpoch u.generation

/-- The updates `validate` lets through. -/
def ValidFor (r : SubownRecord) (u : SubownUpdate) : Prop :=
  u.msgVersion = msgVersion1 ∧ u.subscriberId = r.subscriberId

instance (r : SubownRecord) (u : SubownUpdate) : Decidable (ValidFor r u) :=
  inferInstanceAs (Decidable (_ ∧ _))

/-- The record after an update has won. -/
def adopt (r : SubownRecord) (u : SubownUpdate) : SubownRecord :=
  { r with
    ownerEpoch := u.ownerEpoch
    ownerBox := u.owner
    ownerBoxId := u.owner.toUInt16
    generation := u.generation
    activationTs := u.ts
    timestamp := u.ts
    lastSeenTs := u.ts
    policyMask := u.policyMask
    state := if u.owner = unownedState then .stateUnowned else .stateRemote }

theorem resolverKey_lt {e e' g g' : UInt32} {o o' : UInt8} :
    resolverKey e g o < resolverKey e' g' o' ↔
      e < e' ∨ (e = e' ∧ (g < g' ∨ (g = g' ∧ o' < o))) := by
  simp only [resolverKey, Prod.Lex.toLex_lt_toLex, OrderDual.toDual_lt_toDual,
    UInt32.lt_iff_toNat_lt, UInt8.lt_iff_toNat_lt, UInt32.toNat_inj]

theorem resolverKey_inj {e e' g g' : UInt32} {o o' : UInt8} :
    resolverKey e g o = resolverKey e' g' o' ↔ e = e' ∧ g = g' ∧ o = o' := by
  simp only [resolverKey, EmbeddingLike.apply_eq_iff_eq, Prod.mk.injEq, UInt32.toNat_inj,
    UInt8.toNat_inj]

theorem stampOf_lt {e e' g g' : UInt32} :
    stampOf e g < stampOf e' g' ↔ e < e' ∨ (e = e' ∧ g < g') := by
  simp only [stampOf, Prod.Lex.toLex_lt_toLex, UInt32.lt_iff_toNat_lt, UInt32.toNat_inj]

theorem stampOf_inj {e e' g g' : UInt32} :
    stampOf e g = stampOf e' g' ↔ e = e' ∧ g = g' := by
  simp only [stampOf, EmbeddingLike.apply_eq_iff_eq, Prod.mk.injEq, UInt32.toNat_inj]

theorem validate_ok {r : SubownRecord} {u : SubownUpdate} :
    validate r u = .ok ↔ ValidFor r u := by
  unfold validate ValidFor
  split_ifs <;> simp_all

/-! ### What a call does -/

/-- Every outcome on a valid update, guarded by the order of the stamps and the owners. -/
theorem applyRemoteUpdate_cases {r : SubownRecord} {u : SubownUpdate} (h : ValidFor r u) :
    (u.stamp < r.stamp ∧ applyRemoteUpdate r u = ⟨.ok, r, ⟨.keepLocal,
      if u.ownerEpoch < r.ownerEpoch then .dropStaleEpoch else .dropStaleGeneration⟩⟩) ∨
    (r.stamp < u.stamp ∧ applyRemoteUpdate r u = ⟨.ok, adopt r u, ⟨.applyRemote,
      if r.ownerEpoch < u.ownerEpoch then .winNewerEpoch else .winHigherGeneration⟩⟩) ∨
    (u.stamp = r.stamp ∧ u.owner = r.ownerBox ∧
      applyRemoteUpdate r u = ⟨.ok, r, ⟨.noop, .dropDuplicate⟩⟩) ∨
    (u.stamp = r.stamp ∧ u.owner < r.ownerBox ∧
      applyRemoteUpdate r u = ⟨.ok, adopt r u, ⟨.applyRemote, .winTieBreakBoxId⟩⟩) ∨
    (u.stamp = r.stamp ∧ r.ownerBox < u.owner ∧
      applyRemoteUpdate r u = ⟨.ok, r, ⟨.keepLocal, .keepLocalTieBreak⟩⟩) := by
  have hv : ¬ validate r u ≠ .ok := not_not.mpr (validate_ok.mpr h)
  simp only [applyRemoteUpdate, if_neg hv, SubownUpdate.stamp, SubownRecord.stamp, stampOf_lt,
    stampOf_inj]
  by_cases hnewer : u.ownerEpoch > r.ownerEpoch
  · refine Or.inr (Or.inl ⟨Or.inl hnewer, ?_⟩)
    rw [if_pos hnewer, if_pos hnewer]
    rfl
  by_cases hstale : u.ownerEpoch < r.ownerEpoch
  · refine Or.inl ⟨Or.inl hstale, ?_⟩
    rw [if_neg hnewer, if_pos hstale, if_pos hstale]
  have hepoch : u.ownerEpoch = r.ownerEpoch := by grind
  by_cases hhigher : u.generation > r.generation
  · refine Or.inr (Or.inl ⟨Or.inr ⟨hepoch.symm, hhigher⟩, ?_⟩)
    rw [if_neg hnewer, if_neg hstale, if_pos hhigher, if_neg hnewer]
    simp only [adopt, hepoch]
    rfl
  by_cases hlower : u.generation < r.generation
  · refine Or.inl ⟨Or.inr ⟨hepoch, hlower⟩, ?_⟩
    rw [if_neg hnewer, if_neg hstale, if_neg hhigher, if_pos hlower, if_neg hstale]
  have hgen : u.generation = r.generation := by grind
  refine Or.inr (Or.inr ?_)
  rw [if_neg hnewer, if_neg hstale, if_neg hhigher, if_neg hlower]
  by_cases hsame : u.owner = r.ownerBox
  · exact Or.inl ⟨⟨hepoch, hgen⟩, hsame, if_pos hsame⟩
  by_cases hbeats : u.owner < r.ownerBox
  · refine Or.inr (Or.inl ⟨⟨hepoch, hgen⟩, hbeats, (if_neg hsame).trans ?_⟩)
    refine (if_pos hbeats).trans ?_
    simp only [adopt, hepoch, hgen]
    rfl
  · refine Or.inr (Or.inr ⟨⟨hepoch, hgen⟩, by grind, (if_neg hsame).trans ?_⟩)
    exact if_neg hbeats

theorem applyRemoteUpdate_stale {r : SubownRecord} {u : SubownUpdate} (h : ValidFor r u)
    (hs : u.stamp < r.stamp) : applyRemoteUpdate r u = ⟨.ok, r, ⟨.keepLocal,
      if u.ownerEpoch < r.ownerEpoch then .dropStaleEpoch else .dropStaleGeneration⟩⟩ := by
  rcases applyRemoteUpdate_cases h with ⟨_, e⟩ | ⟨hn, _⟩ | ⟨hn, _⟩ | ⟨hn, _⟩ | ⟨hn, _⟩
  · exact e
  · exact absurd hs (lt_asymm hn)
  all_goals exact absurd hn hs.ne

theorem applyRemoteUpdate_newer {r : SubownRecord} {u : SubownUpdate} (h : ValidFor r u)
    (hs : r.stamp < u.stamp) : applyRemoteUpdate r u = ⟨.ok, adopt r u, ⟨.applyRemote,
      if r.ownerEpoch < u.ownerEpoch then .winNewerEpoch else .winHigherGeneration⟩⟩ := by
  rcases applyRemoteUpdate_cases h with ⟨hn, _⟩ | ⟨_, e⟩ | ⟨hn, _⟩ | ⟨hn, _⟩ | ⟨hn, _⟩
  · exact absurd hs (lt_asymm hn)
  · exact e
  all_goals exact absurd hn hs.ne'

/-- At equal stamps the owners decide. -/
theorem applyRemoteUpdate_tie {r : SubownRecord} {u : SubownUpdate} (h : ValidFor r u)
    (hs : u.stamp = r.stamp) :
    (u.owner = r.ownerBox ∧ (applyRemoteUpdate r u).out = ⟨.noop, .dropDuplicate⟩) ∨
    (u.owner < r.ownerBox ∧
      applyRemoteUpdate r u = ⟨.ok, adopt r u, ⟨.applyRemote, .winTieBreakBoxId⟩⟩) ∨
    (r.ownerBox < u.owner ∧
      applyRemoteUpdate r u = ⟨.ok, r, ⟨.keepLocal, .keepLocalTieBreak⟩⟩) := by
  rcases applyRemoteUpdate_cases h with ⟨hn, _⟩ | ⟨hn, _⟩ | ⟨_, ho, e⟩ | ⟨_, ho, e⟩ | ⟨_, ho, e⟩
  · exact absurd hs hn.ne
  · exact absurd hs hn.ne'
  · exact Or.inl ⟨ho, by rw [e]⟩
  · exact Or.inr (Or.inl ⟨ho, e⟩)
  · exact Or.inr (Or.inr ⟨ho, e⟩)

/-- The key order refines the stamp order by the owners. -/
theorem key_lt_iff {r : SubownRecord} {u : SubownUpdate} :
    r.key < u.key ↔ r.stamp < u.stamp ∨ (u.stamp = r.stamp ∧ u.owner < r.ownerBox) := by
  simp only [SubownRecord.key, SubownUpdate.key, SubownRecord.stamp, SubownUpdate.stamp,
    resolverKey_lt, stampOf_lt, stampOf_inj]
  grind

theorem resolverKey_lt_of_stamp {e e' g g' : UInt32} (o o' : UInt8)
    (h : stampOf e g < stampOf e' g') : resolverKey e g o < resolverKey e' g' o' := by
  apply resolverKey_lt.mpr
  obtain he | ⟨he, hg⟩ := stampOf_lt.mp h
  · exact Or.inl he
  · exact Or.inr ⟨he, Or.inl hg⟩

/-- On valid updates the resolver is a cell overwritten by strictly better keys. -/
theorem applyRemoteUpdate_record {r : SubownRecord} {u : SubownUpdate} (h : ValidFor r u) :
    (applyRemoteUpdate r u).record =
      StrictBest.take SubownRecord.key SubownUpdate.key adopt r u := by
  rcases applyRemoteUpdate_cases h with ⟨hs, e⟩ | ⟨hs, e⟩ | ⟨hs, ho, e⟩ | ⟨hs, ho, e⟩ | ⟨hs, ho, e⟩
  · rw [e, StrictBest.take_of_le (not_lt.mp fun hlt => ?_)]
    rcases key_lt_iff.mp hlt with hlt | ⟨heq, -⟩
    · exact lt_asymm hs hlt
    · exact hs.ne heq
  · rw [e, StrictBest.take_of_lt (key_lt_iff.mpr (Or.inl hs))]
  · rw [e, StrictBest.take_of_le (not_lt.mp fun hlt => ?_)]
    rcases key_lt_iff.mp hlt with hlt | ⟨-, hlt⟩
    · exact hlt.ne hs.symm
    · exact UInt8.lt_irrefl _ (ho ▸ hlt)
  · rw [e, StrictBest.take_of_lt (key_lt_iff.mpr (Or.inr ⟨hs, ho⟩))]
  · rw [e, StrictBest.take_of_le (not_lt.mp fun hlt => ?_)]
    rcases key_lt_iff.mp hlt with hlt | ⟨-, hlt⟩
    · exact hlt.ne hs.symm
    · exact UInt8.lt_asymm ho hlt

/-- An update for the wrong version or subscriber is refused. -/
theorem applyRemoteUpdate_invalid {r : SubownRecord} {u : SubownUpdate} (h : ¬ ValidFor r u) :
    applyRemoteUpdate r u = ⟨.errInvalidArgument, r, ⟨.noop, .invalidMessage⟩⟩ := by
  have hbad : validate r u ≠ .ok := fun e => h (validate_ok.mp e)
  exact if_pos hbad

theorem applyRemoteUpdate_subscriberId (r : SubownRecord) (u : SubownUpdate) :
    (applyRemoteUpdate r u).record.subscriberId = r.subscriberId := by
  by_cases hv : ValidFor r u
  · rw [applyRemoteUpdate_record hv]
    unfold StrictBest.take
    split_ifs <;> rfl
  · rw [applyRemoteUpdate_invalid hv]

theorem applyRemoteUpdate_status {r : SubownRecord} {u : SubownUpdate} (h : ValidFor r u) :
    (applyRemoteUpdate r u).status = .ok := by
  rcases applyRemoteUpdate_cases h with ⟨_, e⟩ | ⟨_, e⟩ | ⟨_, _, e⟩ | ⟨_, _, e⟩ | ⟨_, _, e⟩ <;>
    rw [e]

@[simp] theorem key_adopt (r : SubownRecord) (u : SubownUpdate) : (adopt r u).key = u.key := rfl

theorem adopt_adopt (r : SubownRecord) (u v : SubownUpdate) :
    adopt (adopt r u) v = adopt r v := rfl

/-! ### Records and updates of the unit tests -/

def mkRecord (sid : UInt64) (owner : UInt8) (gen : UInt32) : SubownRecord where
  subscriberId := sid
  generation := gen
  ownerBox := owner
  reserved := (0, 0, 0)
  policyMask := 0
  activationTs := 0
  lastSeenTs := 0
  remotePacketCounter := 0
  ownerBoxId := owner.toUInt16
  timestamp := 0
  ownerEpoch := 1
  state := if owner = unownedState then .stateUnowned else .stateLocal

def mkUpdate (sid : UInt64) (owner : UInt16) (gen : UInt32) (ts : UInt64) (epoch : UInt32) :
    SubownUpdate where
  msgVersion := msgVersion1
  subscriberId := sid
  generation := gen
  ownerBox := owner.toUInt8
  reserved := (0, 0, 0)
  activationTs := ts
  policyMask := 0
  ownerBoxId := owner
  timestamp := ts
  ownerEpoch := epoch

end Subown
