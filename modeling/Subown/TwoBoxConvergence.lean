import Subown.AdapterHistory

/-! Two boxes with one record each, over a network that loses, duplicates and reorders
frames. `on_peer_down` weakens the owner of a record, but the key the record held before
still bounds everything its box has claimed or heard of. -/
namespace Subown

open RunRules

/-- A box with the frames it emitted and the frames of the other box it took. -/
structure BoxState where
  record : SubownRecord
  emitted : List Frame
  taken : List Frame

inductive BoxInput where
  | packet (now migrationThreshold : UInt64)
  | claim (now : UInt64)
  | deliver (frame : Frame)
  | peerDown
  deriving DecidableEq

namespace BoxState

def step (b : Box) (x : BoxState) : BoxInput → BoxState
  | .packet now threshold =>
      let called := processPacketEvent x.record b.id now threshold (some wireEmitter) x.emitted
        unsetResult
      ⟨called.record, called.userCtx, x.taken⟩
  | .claim now =>
      let called := claimLocal x.record b.id.toUInt16 now (some wireEmitter) x.emitted unsetResult
      ⟨called.record, called.userCtx, x.taken⟩
  | .deliver frame =>
      match decodeUpdateV1 frame with
      | none => { x with taken := x.taken ++ [frame] }
      | some update =>
          ⟨(applyRemoteUpdate x.record update).record, x.emitted, x.taken ++ [frame]⟩
  | .peerDown => { x with record := peerDownRecord b.other.id x.record }

/-- No claim wraps the generation. -/
def CanClaim (b : Box) (x : BoxState) : BoxInput → Prop
  | .packet _ _ => x.record.ownerBox = unownedState → x.record.generation ≠ 0xFFFFFFFF
  | .claim _ => ¬ (x.record.ownerBox = b.id ∧ x.record.state = .stateLocal) →
      x.record.generation ≠ 0xFFFFFFFF
  | _ => True

end BoxState

abbrev PairState := Box → BoxState

namespace PairState

def step (p : PairState) (input : Box × BoxInput) : PairState :=
  Function.update p input.1 ((p input.1).step input.1 input.2)

/-- The network delivers only what the other box emitted, in any order and any number of
times. -/
def Allowed (p : PairState) (input : Box × BoxInput) : Prop :=
  (p input.1).CanClaim input.1 input.2 ∧
    ∀ frame, input.2 = .deliver frame → frame ∈ (p input.1.other).emitted

structure Start (p : PairState) : Prop where
  subscriber : (p .box0).record.subscriberId = (p .box1).record.subscriberId
  unowned : ∀ b, (p b).record.ownerBox = unownedState ∧
    (p b).record.ownerBoxId = unownedState.toUInt16 ∧ (p b).record.state = .stateUnowned ∧
    (p b).record.remotePacketCounter = 0
  silent : ∀ b, (p b).emitted = [] ∧ (p b).taken = []

/-- Everything emitted so far has reached the other box. -/
def AllDelivered (p : PairState) : Prop :=
  ∀ b, ∀ frame ∈ (p b.other).emitted, frame ∈ (p b).taken

end PairState

/-- What the boxes have to agree on. -/
structure Ownership where
  ownerEpoch : UInt32
  generation : UInt32
  ownerBox : UInt8
  activationTs : UInt64
  policyMask : UInt32
  deriving DecidableEq

def SubownRecord.ownership (r : SubownRecord) : Ownership :=
  ⟨r.ownerEpoch, r.generation, r.ownerBox, r.activationTs, r.policyMask⟩

def SubownUpdate.ownership (u : SubownUpdate) : Ownership :=
  ⟨u.ownerEpoch, u.generation, u.owner, u.ts, u.policyMask⟩

/-- One record is unowned or the two agree. -/
def PairState.Settled (p : PairState) : Prop :=
  (∃ b, (p b).record.ownerBox = unownedState) ∨
    (p .box0).record.ownership = (p .box1).record.ownership

variable {b : Box} {r r' : SubownRecord} {u v : SubownUpdate} {x y : BoxState} {p : PairState}
  {sid : UInt64}

/-! ### The key a record holds -/

/-- The key of a record that remembers a released peer. -/
def heldKey (b : Box) (r : SubownRecord) : ResolverKey :=
  resolverKey r.ownerEpoch r.generation
    (if r.ownerBox = unownedState then b.other.id else r.ownerBox)

theorem heldKey_congr (h : r.ownership = r'.ownership) : heldKey b r = heldKey b r' := by
  obtain ⟨he, hg, ho, _⟩ := Ownership.mk.inj h
  rw [heldKey, heldKey, he, hg, ho]

theorem heldKey_owned (h : r.ownerBox ≠ unownedState) : heldKey b r = r.key := by
  rw [heldKey, if_neg h]
  rfl

theorem box_lt_unowned (b : Box) : b.id < unownedState := by cases b <;> decide

theorem box_ne_unowned (b : Box) : b.id ≠ unownedState := b.isBoxId.ne_unowned.1

theorem key_le_heldKey (b : Box) (r : SubownRecord) : r.key ≤ heldKey b r := by
  by_cases h : r.ownerBox = unownedState
  · apply le_of_lt
    apply resolverKey_lt.mpr
    rw [if_pos h, h]
    exact Or.inr ⟨rfl, Or.inr ⟨rfl, box_lt_unowned b.other⟩⟩
  · exact (heldKey_owned h).ge

/-- Releasing the peer keeps the held key. -/
theorem heldKey_release (howner : r.ownerBox = b.other.id) :
    heldKey b (releaseRecord r) = heldKey b r := by
  have hne : r.ownerBox ≠ unownedState := by
    rw [howner]
    exact box_ne_unowned _
  rw [heldKey, heldKey, if_neg hne, howner]
  rfl

theorem heldKey_lt_of_stamp (h : r.stamp < r'.stamp) : heldKey b r < heldKey b r' :=
  resolverKey_lt_of_stamp _ _ h

theorem stamp_le_of_key_le (h : u.key ≤ heldKey b r) : u.stamp ≤ r.stamp :=
  not_lt.mp fun hlt => not_lt.mpr h (resolverKey_lt_of_stamp _ _ hlt)

/-- An update of the peer that wins beats all the record holds. -/
theorem heldKey_le_of_win (howner : u.owner = b.other.id) (hlt : r.key < u.key) :
    heldKey b r ≤ u.key := by
  by_cases hr : r.ownerBox = unownedState
  · rw [heldKey, if_pos hr, ← howner]
    obtain hs | ⟨hs, _⟩ := key_lt_iff.mp hlt
    · exact (resolverKey_lt_of_stamp _ _ hs).le
    · obtain ⟨he, hg⟩ := stampOf_inj.mp hs
      rw [← he, ← hg]
      exact le_rfl
  · rw [heldKey_owned hr]
    exact hlt.le

theorem claimUpdate_ownership (b : Box) (r : SubownRecord) (now : UInt64) :
    (claimUpdate (claimedRecord r b.id now)).ownership = (claimedRecord r b.id now).ownership := by
  rw [SubownUpdate.ownership, claimUpdate_owner b.isBoxId.known]
  change Ownership.mk _ _ _ (normalizeTs now now) _ = _
  rw [normalizeTs_self]
  rfl

theorem ownership_key (h : u.ownership = r.ownership) : u.key = r.key := by
  obtain ⟨he, hg, ho, _⟩ := Ownership.mk.inj h
  rw [SubownUpdate.key, SubownRecord.key, he, hg, ho]

/-! ### What a step does to a box -/

namespace BoxState

def claims (x : BoxState) : List SubownUpdate := x.emitted.filterMap decodeUpdateV1

def heard (x : BoxState) : List SubownUpdate := x.taken.filterMap decodeUpdateV1

/-- The update was claimed here or came from the network. -/
def Knows (x : BoxState) (u : SubownUpdate) : Prop := u ∈ x.claims ∨ u ∈ x.heard

end BoxState

inductive BoxMove (b : Box) (x : BoxState) : BoxState → Prop
  | keep (r : SubownRecord) (hsid : r.subscriberId = x.record.subscriberId)
      (hsame : r.ownership = x.record.ownership) : BoxMove b x { x with record := r }
  | claim (now : UInt64) (hgen : x.record.generation ≠ 0xFFFFFFFF) :
      BoxMove b x ⟨claimedRecord x.record b.id now,
        x.emitted ++ [frameBytes (claimUpdate (claimedRecord x.record b.id now))], x.taken⟩
  | deliver (frame : Frame) (u : SubownUpdate) (hdec : decodeUpdateV1 frame = some u)
      (howner : u.owner = b.other.id) (hsid : u.subscriberId = x.record.subscriberId) :
      BoxMove b x ⟨(applyRemoteUpdate x.record u).record, x.emitted, x.taken ++ [frame]⟩
  | release (howner : x.record.ownerBox = b.other.id) :
      BoxMove b x { x with record := releaseRecord x.record }

theorem packet_move (now threshold : UInt64) (hcan : x.CanClaim b (.packet now threshold)) :
    BoxMove b x (x.step b (.packet now threshold)) := by
  unfold BoxState.step
  dsimp only
  rcases b.isBoxId.owner_cases x.record.ownerBox with hlocal | hremote | hunowned | hother
  · rw [processPacketEvent_local b.isBoxId hlocal]
    exact .keep _ rfl rfl
  · rw [processPacketEvent_remote b.isBoxId hremote]
    obtain ⟨c, hc⟩ := misroute_frame x.record threshold
    rw [hc]
    exact .keep _ rfl rfl
  · rw [processPacketEvent_unowned b.isBoxId hunowned]
    dsimp only
    rw [wireEmitter_eq, if_pos rfl]
    exact .claim now (hcan hunowned)
  · rw [processPacketEvent_other b.isBoxId hother]
    exact .keep _ rfl rfl

theorem claim_move (now : UInt64) (hcan : x.CanClaim b (.claim now)) :
    BoxMove b x (x.step b (.claim now)) := by
  have hid : b.id.toUInt16.toUInt8 = b.id := toUInt8_toUInt16 b.id
  unfold BoxState.step
  dsimp only
  by_cases hlocal : x.record.ownerBox = b.id ∧ x.record.state = .stateLocal
  · rw [claimLocal_refresh (hlocal.1.trans hid.symm) hlocal.2]
    exact .keep _ rfl rfl
  · rw [claimLocal_claim (by rwa [hid]), hid]
    dsimp only
    rw [wireEmitter_eq, if_pos rfl]
    exact .claim now (hcan hlocal)

theorem peerDown_move (b : Box) (x : BoxState) : BoxMove b x (x.step b .peerDown) := by
  by_cases howner : x.record.ownerBox = b.other.id
  · have hstep : x.step b .peerDown = { x with record := releaseRecord x.record } := by
      rw [BoxState.step, peerDownRecord, if_pos howner]
    rw [hstep]
    exact .release howner
  · have hstep : x.step b .peerDown = { x with record := x.record } := by
      rw [BoxState.step, peerDownRecord, if_neg howner]
    rw [hstep]
    exact .keep _ rfl rfl

/-! ### The invariant -/

structure BoxInv (sid : UInt64) (b : Box) (x : BoxState) : Prop where
  subscriber : x.record.subscriberId = sid
  sender : ∀ f ∈ x.emitted, ∃ u, decodeUpdateV1 f = some u ∧ u.owner = b.id ∧ u.subscriberId = sid
  unique : ∀ u ∈ x.claims, ∀ v ∈ x.claims, u.stamp = v.stamp → u = v
  covers : ∀ u, x.Knows u → u.key ≤ heldKey b x.record
  source : x.record.ownerBox ≠ unownedState → ∃ u, x.Knows u ∧ u.ownership = x.record.ownership

theorem claims_append (x : BoxState) (r : SubownRecord) (taken : List Frame) {f : Frame}
    (hdec : decodeUpdateV1 f = some u) :
    (BoxState.mk r (x.emitted ++ [f]) taken).claims = x.claims ++ [u] := by
  simp [BoxState.claims, hdec]

theorem heard_append (x : BoxState) (r : SubownRecord) (emitted : List Frame) {f : Frame}
    (hdec : decodeUpdateV1 f = some u) :
    (BoxState.mk r emitted (x.taken ++ [f])).heard = x.heard ++ [u] := by
  simp [BoxState.heard, hdec]

/-- A claim is above all the box knows, its own claims included. -/
theorem BoxInv.claim (hi : BoxInv sid b x) (now : UInt64)
    (hgen : x.record.generation ≠ 0xFFFFFFFF) :
    BoxInv sid b ⟨claimedRecord x.record b.id now,
      x.emitted ++ [frameBytes (claimUpdate (claimedRecord x.record b.id now))], x.taken⟩ := by
  have hdec := decodeUpdateV1_claim b.isBoxId.known x.record now
  have hlt := claimedRecord_stamp b.id now hgen
  have howner := claimUpdate_owner b.isBoxId.known x.record now
  have hown := claimUpdate_ownership b x.record now
  have hclaims := claims_append x (claimedRecord x.record b.id now) x.taken hdec
  have hbelow : ∀ u, x.Knows u → u.stamp < (claimedRecord x.record b.id now).stamp :=
    fun u hu => (stamp_le_of_key_le (hi.covers u hu)).trans_lt hlt
  constructor
  · exact hi.subscriber
  · intro f hf
    rcases List.mem_append.mp hf with hf | hf
    · exact hi.sender f hf
    · obtain rfl := List.mem_singleton.mp hf
      exact ⟨_, hdec, howner, hi.subscriber⟩
  · rw [hclaims]
    intro u hu v hv huv
    rcases List.mem_append.mp hu with hu | hu <;> rcases List.mem_append.mp hv with hv | hv
    · exact hi.unique u hu v hv huv
    · obtain rfl := List.mem_singleton.mp hv
      exact absurd huv (hbelow u (Or.inl hu)).ne
    · obtain rfl := List.mem_singleton.mp hu
      exact absurd huv (hbelow v (Or.inl hv)).ne'
    · exact (List.mem_singleton.mp hu).trans (List.mem_singleton.mp hv).symm
  · intro u hu
    have hheld : heldKey b (claimedRecord x.record b.id now) =
        (claimedRecord x.record b.id now).key := heldKey_owned (box_ne_unowned b)
    rw [BoxState.Knows, hclaims] at hu
    rcases hu with hu | hu
    · rcases List.mem_append.mp hu with hu | hu
      · exact (hi.covers u (Or.inl hu)).trans (heldKey_lt_of_stamp hlt).le
      · obtain rfl := List.mem_singleton.mp hu
        rw [hheld, ownership_key hown]
    · exact (hi.covers u (Or.inr hu)).trans (heldKey_lt_of_stamp hlt).le
  · intro _
    refine ⟨_, Or.inl ?_, hown⟩
    rw [hclaims]
    exact List.mem_append_right _ (List.mem_singleton.mpr rfl)

/-- A frame of the peer is outranked or becomes the content of the record. -/
theorem BoxInv.deliver (hi : BoxInv sid b x) {f : Frame} (hdec : decodeUpdateV1 f = some u)
    (howner : u.owner = b.other.id) (hsid : u.subscriberId = x.record.subscriberId) :
    BoxInv sid b ⟨(applyRemoteUpdate x.record u).record, x.emitted, x.taken ++ [f]⟩ := by
  have hknows : ∀ r v, (BoxState.mk r x.emitted (x.taken ++ [f])).Knows v ↔ x.Knows v ∨ v = u := by
    intro r v
    rw [BoxState.Knows, heard_append x r x.emitted hdec, List.mem_append, List.mem_singleton,
      ← or_assoc]
    rfl
  rw [applyRemoteUpdate_record (decoded_validFor hdec hsid.symm)]
  by_cases hlt : x.record.key < u.key
  · rw [StrictBest.take_of_lt hlt]
    have hne : (adopt x.record u).ownerBox ≠ unownedState := by
      change u.owner ≠ unownedState
      rw [howner]
      exact box_ne_unowned _
    refine ⟨hi.subscriber, hi.sender, hi.unique, ?_, ?_⟩
    swap
    · intro _
      exact ⟨u, (hknows _ u).mpr (Or.inr rfl), rfl⟩
    intro v hv
    have hheld : heldKey b (adopt x.record u) = u.key := heldKey_owned hne
    rw [hheld]
    rcases (hknows _ v).mp hv with hv | rfl
    · exact (hi.covers v hv).trans (heldKey_le_of_win howner hlt)
    · exact le_rfl
  · rw [StrictBest.take_of_le (not_lt.mp hlt)]
    refine ⟨hi.subscriber, hi.sender, hi.unique, ?_, ?_⟩
    · intro v hv
      rcases (hknows _ v).mp hv with hv | rfl
      · exact hi.covers v hv
      · exact (not_lt.mp hlt).trans (key_le_heldKey b x.record)
    · intro hne
      obtain ⟨v, hv, hsame⟩ := hi.source hne
      exact ⟨v, (hknows _ v).mpr (Or.inl hv), hsame⟩

theorem BoxInv.move (hi : BoxInv sid b x) (h : BoxMove b x y) : BoxInv sid b y := by
  cases h with
  | keep r hsid hsame =>
      refine ⟨hsid.trans hi.subscriber, hi.sender, hi.unique, ?_, ?_⟩
      · intro u hu
        exact (hi.covers u hu).trans_eq (heldKey_congr hsame).symm
      · intro hne
        have howner : r.ownerBox = x.record.ownerBox := congrArg Ownership.ownerBox hsame
        obtain ⟨u, hu, hown⟩ := hi.source (howner ▸ hne)
        exact ⟨u, hu, hown.trans hsame.symm⟩
  | claim now hgen => exact hi.claim now hgen
  | deliver f u hdec howner hsid => exact hi.deliver hdec howner hsid
  | release howner =>
      refine ⟨hi.subscriber, hi.sender, hi.unique, ?_, fun hne => absurd rfl hne⟩
      intro u hu
      exact (hi.covers u hu).trans_eq (heldKey_release howner).symm

theorem BoxMove.emitted (h : BoxMove b x y) : ∀ f ∈ x.emitted, f ∈ y.emitted := by
  intro f hf
  cases h with
  | claim now hgen => exact List.mem_append_left _ hf
  | keep r hsid hsame => exact hf
  | deliver g u hdec howner hsid => exact hf
  | release howner => exact hf

structure PairInv (sid : UInt64) (p : PairState) : Prop where
  box : ∀ b, BoxInv sid b (p b)
  taken : ∀ b, ∀ f ∈ (p b).taken, f ∈ (p b.other).emitted

namespace PairInv

theorem start (h : p.Start) : PairInv (p .box0).record.subscriberId p where
  box b := by
    obtain ⟨hemitted, htaken⟩ := h.silent b
    have hknows : ∀ u, ¬ (p b).Knows u := by
      intro u hu
      simp [BoxState.Knows, BoxState.claims, BoxState.heard, hemitted, htaken] at hu
    constructor
    · cases b with
      | box0 => rfl
      | box1 => exact h.subscriber.symm
    · rw [hemitted]
      exact nofun
    · intro u hu
      exact (hknows u (Or.inl hu)).elim
    · intro u hu
      exact (hknows u hu).elim
    · intro hne
      exact absurd (h.unowned b).1 hne
  taken b f hf := by
    rw [(h.silent b).2] at hf
    cases hf

/-- Every allowed input moves one box; what it takes from the network the other emitted. -/
theorem moves (hi : PairInv sid p) {input : BoxInput} (hallowed : p.Allowed (b, input)) :
    BoxMove b (p b) ((p b).step b input) ∧
      ∀ f ∈ ((p b).step b input).taken, f ∈ (p b.other).emitted := by
  cases input with
  | packet now threshold => exact ⟨packet_move now threshold hallowed.1, hi.taken b⟩
  | claim now => exact ⟨claim_move now hallowed.1, hi.taken b⟩
  | peerDown => exact ⟨peerDown_move b (p b), hi.taken b⟩
  | deliver frame =>
      have hmem : frame ∈ (p b.other).emitted := hallowed.2 frame rfl
      obtain ⟨u, hdec, howner, hsid⟩ := (hi.box b.other).sender frame hmem
      have hstep : (p b).step b (.deliver frame) =
          ⟨(applyRemoteUpdate (p b).record u).record, (p b).emitted, (p b).taken ++ [frame]⟩ := by
        simp only [BoxState.step, hdec]
      rw [hstep]
      refine ⟨.deliver frame u hdec howner (hsid.trans (hi.box b).subscriber.symm), ?_⟩
      intro f hf
      rcases List.mem_append.mp hf with hf | hf
      · exact hi.taken b f hf
      · obtain rfl := List.mem_singleton.mp hf
        exact hmem

theorem step (hi : PairInv sid p) (input : Box × BoxInput) (hallowed : p.Allowed input) :
    PairInv sid (p.step input) := by
  obtain ⟨b, input⟩ := input
  obtain ⟨hmove, htaken⟩ := hi.moves hallowed
  have hself : p.step (b, input) b = (p b).step b input := Function.update_self ..
  have hother : p.step (b, input) b.other = p b.other := Function.update_of_ne b.other_ne _ _
  constructor
  · intro c
    obtain rfl | rfl := b.eq_or_eq_other c
    · rw [hself]
      exact (hi.box c).move hmove
    · rw [hother]
      exact hi.box b.other
  · intro c f hf
    obtain rfl | rfl := b.eq_or_eq_other c
    · rw [hself] at hf
      rw [hother]
      exact htaken f hf
    · rw [hother] at hf
      have hf := hi.taken b.other f hf
      rw [Box.other_other] at hf ⊢
      rw [hself]
      exact hmove.emitted f hf

/-- When everything has arrived, each box knows what the other knows. -/
theorem knows_other (hi : PairInv sid p) (hall : p.AllDelivered) (hu : (p b).Knows u) :
    (p b.other).Knows u := by
  rcases hu with hu | hu
  · obtain ⟨f, hf, hdec⟩ := List.mem_filterMap.mp hu
    refine Or.inr (List.mem_filterMap.mpr ⟨f, hall b.other f ?_, hdec⟩)
    rw [Box.other_other]
    exact hf
  · obtain ⟨f, hf, hdec⟩ := List.mem_filterMap.mp hu
    exact Or.inl (List.mem_filterMap.mpr ⟨f, hi.taken b f hf, hdec⟩)

theorem sender_claims (hi : PairInv sid p) (hu : u ∈ (p b).claims) : u.owner = b.id := by
  obtain ⟨f, hf, hdec⟩ := List.mem_filterMap.mp hu
  obtain ⟨v, hv, howner, _⟩ := (hi.box b).sender f hf
  obtain rfl := Option.some.inj (hdec.symm.trans hv)
  exact howner

/-- Claims of one key are one claim, whoever knows them. -/
theorem claim_unique (hi : PairInv sid p) (hu : (p b).Knows u) (hv : (p b).Knows v)
    (hkey : u.key = v.key) : u = v := by
  have hclaims : ∀ u, (p b).Knows u → u ∈ (p b).claims ∨ u ∈ (p b.other).claims := by
    rintro u (hu | hu)
    · exact Or.inl hu
    · obtain ⟨f, hf, hdec⟩ := List.mem_filterMap.mp hu
      exact Or.inr (List.mem_filterMap.mpr ⟨f, hi.taken b f hf, hdec⟩)
  obtain ⟨he, hg, howner⟩ := resolverKey_inj.mp hkey
  have hstamp : u.stamp = v.stamp := stampOf_inj.mpr ⟨he, hg⟩
  rcases hclaims u hu with hu | hu <;> rcases hclaims v hv with hv | hv
  · exact (hi.box b).unique u hu v hv hstamp
  · rw [hi.sender_claims hu, hi.sender_claims hv] at howner
    exact absurd howner b.id_ne_other
  · rw [hi.sender_claims hu, hi.sender_claims hv] at howner
    exact absurd howner.symm b.id_ne_other
  · exact (hi.box b.other).unique u hu v hv hstamp

theorem settled (hi : PairInv sid p) (hall : p.AllDelivered) : p.Settled := by
  by_cases h0 : (p .box0).record.ownerBox = unownedState
  · exact Or.inl ⟨.box0, h0⟩
  by_cases h1 : (p .box1).record.ownerBox = unownedState
  · exact Or.inl ⟨.box1, h1⟩
  obtain ⟨u, hu, huown⟩ := (hi.box .box0).source h0
  obtain ⟨v, hv, hvown⟩ := (hi.box .box1).source h1
  have hv0 : (p .box0).Knows v := hi.knows_other hall hv
  -- Each source is known to the other box and so bounded by what it holds.
  have huv : u.key ≤ v.key := by
    have hle := (hi.box .box1).covers u (hi.knows_other hall hu)
    rwa [heldKey_owned h1, ← ownership_key hvown] at hle
  have hvu : v.key ≤ u.key := by
    have hle := (hi.box .box0).covers v hv0
    rwa [heldKey_owned h0, ← ownership_key huown] at hle
  obtain rfl := hi.claim_unique hu hv0 (le_antisymm huv hvu)
  exact Or.inr (huown.symm.trans hvown)

end PairInv

/-- Whatever claims, failures, losses, duplicates and orders of delivery a run has: in every
state in which all emitted frames have arrived, a record is unowned or both agree. -/
theorem boxes_converge (hstart : p.Start) (inputs : List (Box × BoxInput))
    (hallowed : Each PairState.step PairState.Allowed p inputs) :
    Always PairState.step (fun p => p.AllDelivered → p.Settled) p inputs :=
  always_of_inv (fun _ hi hall => hi.settled hall) (fun _ _ hi hi' => hi.step _ hi')
    (PairInv.start hstart) hallowed

/-- Both boxes claim at once, then hear of each other. -/
theorem boxes_converge_race :
    let r := mkRecord 7 unownedState 0
    Always PairState.step (fun p => p.AllDelivered → p.Settled) (fun _ => ⟨r, [], []⟩)
      [(.box0, .packet 5 3), (.box1, .claim 6),
        (.box1, .deliver (frameBytes (claimUpdate (claimedRecord r 0 5)))),
        (.box0, .deliver (frameBytes (claimUpdate (claimedRecord r 1 6))))] := by
  refine boxes_converge ⟨rfl, fun _ => ⟨rfl, rfl, rfl, rfl⟩, fun _ => ⟨rfl, rfl⟩⟩ _ ?_
  refine ⟨⟨fun _ => by decide, nofun⟩, ⟨fun _ => by decide, nofun⟩, ⟨trivial, ?_⟩, ⟨trivial, ?_⟩,
    trivial⟩
  · rintro f e
    cases e
    decide
  · rintro f e
    cases e
    decide

end Subown
