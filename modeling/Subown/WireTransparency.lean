import Subown.WireCodec

/-! Transport transparency. The encoder and the resolver read the owner out of the two
redundant owner fields in opposite order, so the wire is transparent exactly where the two
readings agree or cannot matter. -/
namespace Subown

/-- Sending `u` over the wire acts on the record as applying `u` itself. -/
def Transparent (u : SubownUpdate) (r : SubownRecord) : Prop :=
  ∀ cap f, encodeUpdateV1 u cap = some f →
    ∃ v, decodeUpdateV1 f = some v ∧ applyRemoteUpdate r v = applyRemoteUpdate r u

/-- The compatibility owner field holds an owner the core knows. -/
def KnownOwnerId (ownerBoxId : UInt16) : Prop :=
  ownerBoxId = box0Id.toUInt16 ∨ ownerBoxId = box1Id.toUInt16 ∨
    ownerBoxId = unownedState.toUInt16

instance (ownerBoxId : UInt16) : Decidable (KnownOwnerId ownerBoxId) :=
  inferInstanceAs (Decidable (_ ∨ _ ∨ _))

/-- The two owner fields do not contradict each other: when the native field is known the
compatibility field repeats it or is unknown; when it is not, the compatibility field is
known or its low byte means unowned. -/
def AgreeingOwners (u : SubownUpdate) : Prop :=
  if KnownOwner u.ownerBox then
    KnownOwnerId u.ownerBoxId → u.ownerBoxId = u.ownerBox.toUInt16
  else KnownOwnerId u.ownerBoxId ∨ u.ownerBoxId.toUInt8 = unownedState

/-- One of the two owner fields fits the wire. -/
def CarriesOwner (u : SubownUpdate) : Prop :=
  KnownOwner u.ownerBox ∨ KnownOwner u.ownerBoxId.toUInt8

/-- The record outranks the update whichever owner field is read. -/
def OutrankedEitherWay (u : SubownUpdate) (r : SubownRecord) : Prop :=
  u.stamp < r.stamp ∨
    (u.stamp = r.stamp ∧ r.ownerBox = box0Id ∧ u.ownerBox ≠ box0Id ∧
      u.ownerBoxId.toUInt8 ≠ box0Id)

instance (u : SubownUpdate) : Decidable (AgreeingOwners u) := by
  unfold AgreeingOwners
  infer_instance

instance (u : SubownUpdate) : Decidable (CarriesOwner u) :=
  inferInstanceAs (Decidable (_ ∨ _))

/-! ### The two readings of the owner -/

theorem KnownOwnerId.toUInt8 {o : UInt16} (h : KnownOwnerId o) : KnownOwner o.toUInt8 := by
  rcases h with rfl | rfl | rfl <;> decide

theorem KnownOwnerId.eq {o : UInt16} (h : KnownOwnerId o) : o.toUInt8.toUInt16 = o := by
  rcases h with rfl | rfl | rfl <;> rfl

theorem owner_of_id {u : SubownUpdate} (h : KnownOwnerId u.ownerBoxId) :
    u.owner = u.ownerBoxId.toUInt8 := if_pos h

theorem owner_of_box {u : SubownUpdate} (hid : ¬ KnownOwnerId u.ownerBoxId)
    (h : KnownOwner u.ownerBox) : u.owner = u.ownerBox := (if_neg hid).trans (if_pos h)

theorem owner_of_none {u : SubownUpdate} (hid : ¬ KnownOwnerId u.ownerBoxId)
    (h : ¬ KnownOwner u.ownerBox) : u.owner = unownedState := (if_neg hid).trans (if_neg h)

theorem wireOwner_of_box {u : SubownUpdate} (h : KnownOwner u.ownerBox) :
    wireOwner u = u.ownerBox := if_neg (not_not.mpr h)

theorem wireOwner_of_id {u : SubownUpdate} (h : ¬ KnownOwner u.ownerBox) :
    wireOwner u = u.ownerBoxId.toUInt8 := if_pos h

theorem known_wireOwner_iff (u : SubownUpdate) :
    KnownOwner (wireOwner u) ↔ CarriesOwner u := by
  unfold CarriesOwner
  by_cases h : KnownOwner u.ownerBox
  · rw [wireOwner_of_box h]
    exact ⟨fun _ => Or.inl h, fun _ => h⟩
  · rw [wireOwner_of_id h]
    exact ⟨Or.inr, fun hc => hc.resolve_left h⟩

theorem AgreeingOwners.carries {u : SubownUpdate} (h : AgreeingOwners u) : CarriesOwner u := by
  by_cases hbox : KnownOwner u.ownerBox
  · exact Or.inl hbox
  · unfold AgreeingOwners at h
    rw [if_neg hbox] at h
    rcases h with hid | hlow
    · exact Or.inr hid.toUInt8
    · exact Or.inr (Or.inr (Or.inr hlow))

/-- The two readings agree exactly when the fields do. -/
theorem wireOwner_eq_owner_iff (u : SubownUpdate) :
    wireOwner u = u.owner ↔ AgreeingOwners u := by
  unfold AgreeingOwners
  by_cases hbox : KnownOwner u.ownerBox
  · rw [if_pos hbox, wireOwner_of_box hbox]
    by_cases hid : KnownOwnerId u.ownerBoxId
    · rw [owner_of_id hid]
      constructor
      · intro e _
        rw [e, hid.eq]
      · intro e
        rw [e hid, toUInt8_toUInt16]
    · rw [owner_of_box hid hbox]
      exact ⟨fun _ h => (hid h).elim, fun _ => rfl⟩
  · rw [if_neg hbox, wireOwner_of_id hbox]
    by_cases hid : KnownOwnerId u.ownerBoxId
    · rw [owner_of_id hid]
      exact ⟨fun _ => Or.inl hid, fun _ => rfl⟩
    · rw [owner_of_none hid hbox]
      exact ⟨Or.inr, fun h => h.resolve_left hid⟩

/-- Two different known owners are both weaker than the record's owner only against box 0. -/
theorem lt_both_iff {o p q : UInt8} (hp : KnownOwner p) (hq : KnownOwner q) (hne : p ≠ q) :
    (o < p ∧ o < q) ↔ o = box0Id ∧ p ≠ box0Id ∧ q ≠ box0Id := by
  have hone : o < 1 ↔ o = 0 := by
    rw [UInt8.lt_iff_toNat_lt, ← UInt8.toNat_inj]
    exact Nat.lt_one_iff
  rcases hp with rfl | rfl | rfl <;> rcases hq with rfl | rfl | rfl
  case inl.inl | inr.inl.inr.inl | inr.inr.inr.inr => exact absurd rfl hne
  case inr.inl.inr.inr =>
    rw [hone]
    refine ⟨fun h => ⟨h.1, by decide, by decide⟩, fun h => ⟨h.1, ?_⟩⟩
    rw [h.1]
    decide
  case inr.inr.inr.inl =>
    rw [hone]
    refine ⟨fun h => ⟨h.2, by decide, by decide⟩, fun h => ⟨?_, h.1⟩⟩
    rw [h.1]
    decide
  case inl.inr.inl | inl.inr.inr =>
    exact ⟨fun h => absurd h.1 UInt8.not_lt_zero, fun h => absurd rfl h.2.1⟩
  case inr.inl.inl | inr.inr.inl =>
    exact ⟨fun h => absurd h.2 UInt8.not_lt_zero, fun h => absurd rfl h.2.2⟩

/-! ### What the resolver makes of two readings -/

/-- The resolver sees an update only through its version, id, key, time and policy. -/
theorem applyRemoteUpdate_congr (r : SubownRecord) {u v : SubownUpdate}
    (hversion : v.msgVersion = u.msgVersion) (hsid : v.subscriberId = u.subscriberId)
    (hgen : v.generation = u.generation) (hepoch : v.ownerEpoch = u.ownerEpoch)
    (hpolicy : v.policyMask = u.policyMask) (howner : v.owner = u.owner) (hts : v.ts = u.ts) :
    applyRemoteUpdate r v = applyRemoteUpdate r u := by
  unfold SubownUpdate.owner at howner
  unfold SubownUpdate.ts at hts
  unfold applyRemoteUpdate validate
  rw [hversion, hsid, hgen, hepoch, hpolicy, howner, hts]

/-- Two updates of one stamp with different owners have one effect exactly on records that
outrank both. -/
theorem applyRemoteUpdate_eq_iff {r : SubownRecord} {u v : SubownUpdate} (hu : ValidFor r u)
    (hv : ValidFor r v) (hgen : v.generation = u.generation)
    (hepoch : v.ownerEpoch = u.ownerEpoch) (hne : v.owner ≠ u.owner) :
    applyRemoteUpdate r v = applyRemoteUpdate r u ↔
      u.stamp < r.stamp ∨ (u.stamp = r.stamp ∧ r.ownerBox < v.owner ∧ r.ownerBox < u.owner) := by
  have hstamp : v.stamp = u.stamp := by
    unfold SubownUpdate.stamp
    rw [hgen, hepoch]
  have hadopt : adopt r v ≠ adopt r u := fun e => hne (congrArg SubownRecord.ownerBox e)
  rcases lt_trichotomy u.stamp r.stamp with hs | hs | hs
  · rw [applyRemoteUpdate_stale hu hs, applyRemoteUpdate_stale hv (hstamp ▸ hs), hepoch]
    exact ⟨fun _ => Or.inl hs, fun _ => rfl⟩
  · have hside : (u.stamp < r.stamp ∨
        (u.stamp = r.stamp ∧ r.ownerBox < v.owner ∧ r.ownerBox < u.owner)) ↔
        r.ownerBox < v.owner ∧ r.ownerBox < u.owner := by
      simp [hs]
    rw [hside]
    rcases applyRemoteUpdate_tie hu hs with ⟨ho, e⟩ | ⟨ho, e⟩ | ⟨ho, e⟩ <;>
      rcases applyRemoteUpdate_tie hv (hstamp.trans hs) with ⟨ho', e'⟩ | ⟨ho', e'⟩ | ⟨ho', e'⟩
    -- Equal outcomes have equal owners, unless both updates lose the tie.
    all_goals grind
  · rw [applyRemoteUpdate_newer hu hs, applyRemoteUpdate_newer hv (hstamp ▸ hs)]
    constructor
    · intro heq
      exact absurd (congrArg RemoteOutcome.record heq) hadopt
    · rintro (h | ⟨h, _⟩)
      · exact absurd hs (lt_asymm h)
      · exact absurd h hs.ne'

theorem owner_carried {u : SubownUpdate} (h : CarriesOwner u) :
    (carried u).owner = wireOwner u :=
  normalizeOwner_self ((known_wireOwner_iff u).mpr h)

theorem ts_carried (u : SubownUpdate) : (carried u).ts = u.ts := normalizeTs_self u.ts

theorem outrankedEitherWay_iff {u : SubownUpdate} {r : SubownRecord} (hc : CarriesOwner u)
    (ha : ¬ AgreeingOwners u) :
    OutrankedEitherWay u r ↔ u.stamp < r.stamp ∨
      (u.stamp = r.stamp ∧ r.ownerBox < wireOwner u ∧ r.ownerBox < u.owner) := by
  have hwire : KnownOwner (wireOwner u) := (known_wireOwner_iff u).mpr hc
  have hne : wireOwner u ≠ u.owner := fun e => ha ((wireOwner_eq_owner_iff u).mp e)
  unfold OutrankedEitherWay
  by_cases hbox : KnownOwner u.ownerBox
  · unfold AgreeingOwners at ha
    rw [if_pos hbox, Classical.not_imp] at ha
    have howner : u.owner = u.ownerBoxId.toUInt8 := owner_of_id ha.1
    rw [lt_both_iff hwire (howner ▸ ha.1.toUInt8) hne, howner, wireOwner_of_box hbox]
  · unfold AgreeingOwners at ha
    rw [if_neg hbox, not_or] at ha
    have howner : u.owner = unownedState := owner_of_none ha.1 hbox
    have hbox0 : u.ownerBox ≠ box0Id := fun e => hbox (Or.inl e)
    rw [lt_both_iff hwire (howner ▸ Or.inr (Or.inr rfl)) hne, howner, wireOwner_of_id hbox]
    have hunowned : unownedState ≠ box0Id := by decide
    simp only [ne_eq, hbox0, hunowned, not_false_eq_true, true_and, and_true]

/-- The exact condition for the wire to be transparent for an update and a record of its
subscriber. -/
theorem transparent_iff (u : SubownUpdate) (r : SubownRecord)
    (hversion : u.msgVersion = msgVersion1) (hsid : u.subscriberId = r.subscriberId) :
    Transparent u r ↔ AgreeingOwners u ∨ (CarriesOwner u ∧ OutrankedEitherWay u r) := by
  have hframe : Transparent u r ↔ ∃ v, decodeUpdateV1 (frameBytes u) = some v ∧
      applyRemoteUpdate r v = applyRemoteUpdate r u := by
    constructor
    · intro h
      exact h wireV1FrameSize (frameBytes u) (encodeUpdateV1_frameSize u)
    · intro h cap f hf
      rw [← (encodeUpdateV1_eq_some.mp hf).2]
      exact h
  rw [hframe, decodeUpdateV1_frameBytes]
  by_cases hc : CarriesOwner u
  · rw [if_pos ((known_wireOwner_iff u).mpr hc)]
    simp only [Option.some.injEq, exists_eq_left']
    by_cases ha : AgreeingOwners u
    · have howner : (carried u).owner = u.owner :=
        (owner_carried hc).trans ((wireOwner_eq_owner_iff u).mpr ha)
      exact ⟨fun _ => Or.inl ha, fun _ =>
        applyRemoteUpdate_congr r hversion.symm rfl rfl rfl rfl howner (ts_carried u)⟩
    · have hne : (carried u).owner ≠ u.owner := by
        rw [owner_carried hc]
        exact fun e => ha ((wireOwner_eq_owner_iff u).mp e)
      have hu : ValidFor r u := ⟨hversion, hsid⟩
      have hv : ValidFor r (carried u) := ⟨rfl, hsid⟩
      rw [applyRemoteUpdate_eq_iff hu hv rfl rfl hne, owner_carried hc,
        ← outrankedEitherWay_iff hc ha]
      exact ⟨fun h => Or.inr ⟨hc, h⟩, fun h => (h.resolve_left ha).2⟩
  · rw [if_neg (fun h => hc ((known_wireOwner_iff u).mp h))]
    constructor
    · rintro ⟨v, hv, _⟩
      cases hv
    · rintro (ha | h)
      · exact absurd ha.carries hc
      · exact absurd h.1 hc

/-- The fields agree: both say box 1. -/
theorem transparent_iff_agreeing :
    Transparent (mkUpdate 100 1 1 10 1) (mkRecord 100 unownedState 0) :=
  (transparent_iff (mkUpdate 100 1 1 10 1) (mkRecord 100 unownedState 0) rfl rfl).mpr
    (Or.inl (by decide))

/-- The native field says box 0 and the compatibility field box 1: the frame carries box 0,
the core reads box 1. -/
theorem mixed_owner_not_transparent :
    ¬ ∀ u r, u.msgVersion = msgVersion1 → u.subscriberId = r.subscriberId → Transparent u r := by
  intro h
  let mixed : SubownUpdate := { mkUpdate 100 1 1 10 1 with ownerBox := box0Id }
  obtain ⟨v, hv, he⟩ := h mixed (mkRecord 100 unownedState 0) rfl rfl wireV1FrameSize _ rfl
  have hdecoded : v = carried mixed := by
    rw [decodeUpdateV1_frameBytes, if_pos (by decide)] at hv
    exact (Option.some.inj hv).symm
  rw [hdecoded] at he
  exact absurd he (by decide)

end Subown
