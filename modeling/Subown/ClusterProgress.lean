import Subown.ClusterSafety
import Subown.OutboundQueue

/-! What the two adapters reach: deliveries that miss nothing settle every subscriber, and a
box that survives the other takes a subscriber over exactly when it can queue the claim. -/
namespace Subown

open OwnershipAdapter RunRules

/-- The arrival of a frame at a box. -/
def arrival (delivery : Box × Frame) : Box × AdapterCall := (delivery.1, .onRemoteMsg delivery.2)

namespace Cluster

def Accepts (c : Cluster) (input : Box × AdapterCall) : Prop :=
  (c input.1).adapter.returnCode input.2 = 0

instance (c : Cluster) (input : Box × AdapterCall) : Decidable (c.Accepts input) :=
  inferInstanceAs (Decidable (_ = _))

/-- Deliveries of queued frames that leave none out, when no claim was refused. -/
structure Drains (c : Cluster) (deliveries : List (Box × Frame)) : Prop where
  announced : ∀ b, ∀ f ∈ (c b).claimed, f ∈ (c b).queued
  complete : ∀ b, ∀ f ∈ (c b).queued, f ∈ (c b.other).taken ∨ (b.other, f) ∈ deliveries
  genuine : ∀ d ∈ deliveries, d.2 ∈ (c d.1.other).queued
  accepted : Each Cluster.step Cluster.Accepts c (deliveries.map arrival)

end Cluster

variable {b : Box} {s now : UInt64} {u : SubownUpdate} {c : Cluster} {f : Frame} {x : Node}
  {cfg : Box → OwnAdapterCfg} {p : PairState} {sid : UInt64}

/-! ### Deliveries -/

/-- A message adds to what was taken only. -/
theorem step_message (h : x.adapter.Sound) (f : Frame) :
    (x.step (.onRemoteMsg f)).claimed = x.claimed ∧ (x.step (.onRemoteMsg f)).queued = x.queued ∧
      ((x.adapter.returnCode (.onRemoteMsg f) = 0) → f ∈ (x.step (.onRemoteMsg f)).taken) := by
  have hclaimed : x.adapter.claimedBy (.onRemoteMsg f) = [] := by
    obtain hdec | ⟨u, hdec, hroom⟩ | ⟨u, hdec, hroom⟩ := message_cases x.adapter f
    · exact claimedBy_of_effect (effect_undecodable hdec) fun _ _ _ e => by cases e
    · exact claimedBy_of_effect (effect_full hdec hroom) fun _ _ _ e => by cases e
    · exact claimedBy_of_effect (effect_remote hdec hroom) fun _ _ _ e => by cases e
  have hqueued : x.adapter.queuedBy (.onRemoteMsg f) = [] := by
    have hreplica := step_replica h (.onRemoteMsg f) (by simp)
    rw [emittedBy_remote] at hreplica
    exact queuedBy_of_replica hreplica
  refine ⟨?_, ?_, fun hrc => ?_⟩
  · rw [Node.step, hclaimed, List.append_nil]
  · rw [Node.step, hqueued, List.append_nil]
  · have haccepted : x.adapter.acceptedBy (.onRemoteMsg f) = [f] := if_pos hrc
    rw [Node.step, haccepted]
    exact List.mem_append_right _ (List.mem_singleton.mpr rfl)

/-- What deliveries leave of a cluster. -/
structure Delivered (c c' : Cluster) (deliveries : List (Box × Frame)) : Prop where
  claimed : ∀ b, (c' b).claimed = (c b).claimed
  queued : ∀ b, (c' b).queued = (c b).queued
  taken : ∀ b f, f ∈ (c b).taken ∨ (b, f) ∈ deliveries → f ∈ (c' b).taken

section Deliveries

variable (hbox : ∀ b, (cfg b).localBoxId = b.id)
include hbox

omit hbox in
theorem delivered_one (hi : Reached cfg c) {d : Box × Frame} (haccept : c.Accepts (arrival d)) :
    Delivered c (c.step (arrival d)) [d] := by
  obtain ⟨b, f⟩ := d
  obtain ⟨hclaimed, hqueued, htaken⟩ := step_message (hi.grounded b).sound f
  constructor
  · intro e
    obtain rfl | rfl := b.eq_or_eq_other e
    · rw [arrival, Cluster.step_self, hclaimed]
    · rw [arrival, Cluster.step_other]
  · intro e
    obtain rfl | rfl := b.eq_or_eq_other e
    · rw [arrival, Cluster.step_self, hqueued]
    · rw [arrival, Cluster.step_other]
  · intro e g hg
    obtain rfl | rfl := b.eq_or_eq_other e
    · rw [arrival, Cluster.step_self]
      rcases hg with hg | hg
      · exact List.mem_append_left _ hg
      · cases List.mem_singleton.mp hg
        exact htaken haccept
    · rw [arrival, Cluster.step_other]
      rcases hg with hg | hg
      · exact hg
      · exact absurd (congrArg Prod.fst (List.mem_singleton.mp hg)) b.other_ne

theorem delivered_all (deliveries : List (Box × Frame)) (hi : Reached cfg c)
    (hgenuine : ∀ d ∈ deliveries, d.2 ∈ (c d.1.other).queued)
    (haccepted : Each Cluster.step Cluster.Accepts c (deliveries.map arrival)) :
    Reached cfg (exec Cluster.step c (deliveries.map arrival)) ∧
      Delivered c (exec Cluster.step c (deliveries.map arrival)) deliveries := by
  induction deliveries generalizing c with
  | nil => exact ⟨hi, fun _ => rfl, fun _ => rfl, fun _ _ hf => hf.resolve_right List.not_mem_nil⟩
  | cons d ds ih =>
      have hnet : c.Allowed (arrival d) := ⟨Or.inl (hgenuine d List.mem_cons_self), id⟩
      have hone := delivered_one hi haccepted.1
      obtain ⟨hreached, hrest⟩ := ih (hi.step hbox hnet)
        (fun e he => hone.queued e.1.other ▸ hgenuine e (List.mem_cons_of_mem d he)) haccepted.2
      refine ⟨hreached, ?_, ?_, ?_⟩
      · intro b
        exact (hrest.claimed b).trans (hone.claimed b)
      · intro b
        exact (hrest.queued b).trans (hone.queued b)
      · intro b f hf
        apply hrest.taken b f
        rcases hf with hf | hf
        · exact Or.inl (hone.taken b f (Or.inl hf))
        · rcases List.mem_cons.mp hf with rfl | hf
          · exact Or.inl (hone.taken b f (Or.inr List.mem_cons_self))
          · exact Or.inr hf

theorem Cluster.Reachable.reached (h : c.Reachable cfg) : Reached cfg c := by
  obtain ⟨inputs, hallowed, rfl⟩ := h
  exact (Reached.start cfg).run hbox hallowed

/-- From any state reached, deliveries of all that is outstanding, in any order and with any
duplicates, leave each subscriber with the best claim in both tables and one box that
processes its packets, unless a box released its owner. -/
theorem drained_single_processor (henforce : ∀ b, (cfg b).mode = .modeEnforce)
    (hreachable : c.Reachable cfg) {deliveries : List (Box × Frame)}
    (hdrains : c.Drains deliveries) (s : UInt64) :
    let c' := exec Cluster.step c (deliveries.map arrival)
    (∃ b, (c'.record b s).ownerBox = unownedState) ∨
      ∃ u b, c'.AgreedClaim s u ∧ u.owner = b.id ∧ c'.ProcessedAt s b := by
  obtain ⟨hreached, hdelivered⟩ := delivered_all hbox deliveries
    (hreachable.reached hbox) hdrains.genuine hdrains.accepted
  refine hreached.agreed hbox henforce (fun b f hf => ?_) s
  rw [hdelivered.claimed] at hf
  exact hdelivered.taken _ _ (hdrains.complete b f (hdrains.announced b f hf))

end Deliveries

/-- The claims of a race reach the other boxes. -/
theorem drained_single_processor_race :
    let c := exec Cluster.step (Cluster.start pairCfg) (raceInputs.take 2)
    let c' := exec Cluster.step c
      ([(Box.box0, firstClaim .box1 6), (Box.box1, firstClaim .box0 5)].map arrival)
    (∃ b, (c'.record b 7).ownerBox = unownedState) ∨
      ∃ u b, c'.AgreedClaim 7 u ∧ u.owner = b.id ∧ c'.ProcessedAt 7 b := by
  refine drained_single_processor (fun _ => rfl) (fun _ => rfl)
    ⟨raceInputs.take 2, (each_append.mp race_allowed).1, rfl⟩ ⟨?_, ?_, ?_, ?_⟩ 7
  · intro b
    cases b <;> decide +kernel
  · intro b
    cases b <;> decide +kernel
  · decide +kernel
  · decide +kernel

/-! ### Takeover -/

/-- A packet that finds nobody in its record claims it, and queues the claim, when there is
room for both. -/
theorem packet_claims {a : OwnershipAdapter} (h : a.Sound) (hb : BoxId a.cfg.localBoxId)
    (hmode : a.cfg.mode ≠ .modeDisabled) (hun : (a.workingRecord s).ownerBox = unownedState)
    (hcan : a.CanQueue s) (now : UInt64) :
    a.returnCode (.onPacket s now) = 0 ∧
      (a.step (.onPacket s now)).workingRecord s =
        claimedRecord (a.workingRecord s) a.cfg.localBoxId now ∧
      a.queuedBy (.onPacket s now) =
        [frameBytes (claimUpdate (claimedRecord (a.workingRecord s) a.cfg.localBoxId now))] := by
  obtain ⟨hroom, hlength⟩ := hcan
  have heff := effect_onPacket hmode hroom now
  have houtcome := (corePacket_unowned hb hun now _).2 (emitStatus_of_length hlength)
  refine ⟨?_, workingRecord_of_some (step_claims h hb heff hun), ?_⟩
  · refine (onPacket_spec h hmode hroom now).rc.trans ?_
    rw [houtcome]
    rfl
  · rw [queuedBy_eq h, heff]
    dsimp only
    rw [houtcome]
    rfl

theorem peerDownRecord_released {r : SubownRecord} {peer : UInt8}
    (h : r.ownerBox = unownedState ∨ r.ownerBox = peer) :
    (peerDownRecord peer r).ownerBox = unownedState := by
  unfold peerDownRecord
  split_ifs with howner
  · rfl
  · exact h.resolve_right howner

/-- An update above the record is what the table holds once its frame is accepted. -/
theorem adopted_ownership {a : OwnershipAdapter} (h : a.Sound) (hdec : decodeUpdateV1 f = some u)
    (hlt : (a.workingRecord u.subscriberId).stamp < u.stamp)
    (hrc : a.returnCode (.onRemoteMsg f) = 0) :
    ((a.step (.onRemoteMsg f)).workingRecord u.subscriberId).ownership = u.ownership := by
  have hvalid := decoded_validFor hdec (workingRecord_subscriberId (s := u.subscriberId) h)
  rw [(remote_cases h hdec hrc).1, Function.update_self, applyRemoteUpdate_newer hvalid hlt]
  rfl

/-- The frame of a claim is queued; once the other box accepts it, both tables hold the
claim. -/
structure HandsOver (c c' : Cluster) (b : Box) (s : UInt64) (f : Frame) : Prop where
  queued : (c' b).queued = (c b).queued ++ [f]
  owner : (c'.record b s).ownerBox = b.id
  announces : ∃ u, decodeUpdateV1 f = some u ∧ u.subscriberId = s ∧
    u.ownership = (c'.record b s).ownership
  agreed : c'.Accepts (b.other, .onRemoteMsg f) → ∀ d,
    ((c'.step (b.other, .onRemoteMsg f)).record d s).ownership = (c'.record b s).ownership

/-- A claim by a box that is not behind the other. -/
theorem claim_hands_over (hbox : ∀ b, (cfg b).localBoxId = b.id) (hi : ClusterInv cfg c)
    (hmode : (cfg b).mode ≠ .modeDisabled) (hun : (c.record b s).ownerBox = unownedState)
    (hstamp : (c.record b.other s).stamp ≤ (c.record b s).stamp)
    (hgen : (c.record b s).generation ≠ 0xFFFFFFFF) (hcan : (c b).adapter.CanQueue s) :
    c.Accepts (b, .onPacket s now) ∧ ∃ f, HandsOver c (c.step (b, .onPacket s now)) b s f := by
  have hsound := (hi.grounded b).sound
  obtain ⟨haccepted, hclaimed, hqueued⟩ :=
    packet_claims hsound (hi.boxId hbox b) ((hi.grounded b).mode hmode) hun hcan now
  rw [hi.localBoxId hbox b] at hclaimed hqueued
  refine ⟨haccepted, frameBytes (claimUpdate (claimedRecord (c.record b s) b.id now)), ?_⟩
  set c' := c.step (b, .onPacket s now)
  have hself : c' b = (c b).step (.onPacket s now) := Cluster.step_self c b _
  have hother : c' b.other = c b.other := Cluster.step_other c b _
  have hrecord : c'.record b s = claimedRecord (c.record b s) b.id now := by
    rw [Cluster.record, hself]
    exact hclaimed
  have hdec := decodeUpdateV1_claim b.isBoxId.known (c.record b s) now
  have hsid : (claimUpdate (claimedRecord (c.record b s) b.id now)).subscriberId = s :=
    workingRecord_subscriberId hsound
  have hownership : (claimUpdate (claimedRecord (c.record b s) b.id now)).ownership =
      (c'.record b s).ownership := by
    rw [hrecord]
    exact claimUpdate_ownership b _ now
  refine ⟨?_, ?_, ⟨_, hdec, hsid, hownership⟩, ?_⟩
  · rw [hself, Node.step, hqueued]
    rfl
  · rw [hrecord]
    rfl
  intro hrc d
  have hlt : (c.record b.other s).stamp <
      (claimUpdate (claimedRecord (c.record b s) b.id now)).stamp :=
    hstamp.trans_lt (claimedRecord_stamp b.id now hgen)
  obtain rfl | rfl := b.eq_or_eq_other d
  · have hkeep := Cluster.step_other c' d.other
      (.onRemoteMsg (frameBytes (claimUpdate (claimedRecord (c.record d s) d.id now))))
    rw [Box.other_other] at hkeep
    rw [Cluster.record, hkeep]
    rfl
  · rw [Cluster.record, Cluster.step_self, ← hownership]
    rw [Cluster.Accepts, hother] at hrc
    have hadopted := adopted_ownership (hi.grounded b.other).sound hdec (by rwa [hsid]) hrc
    rw [hsid] at hadopted
    rw [hother]
    exact hadopted

/-- What the report that the peer is down leaves to a box that accepted every claim of the
peer: nobody owns the subscriber here, and nothing newer stands over there. -/
structure Survives (c down : Cluster) (b : Box) (s : UInt64) : Prop where
  unowned : (down.record b s).ownerBox = unownedState
  generation : (down.record b s).generation = (c.record b s).generation
  stamp : (down.record b.other s).stamp ≤ (down.record b s).stamp
  queued : (down b).queued = (c b).queued
  canQueue : (down b).adapter.CanQueue s ↔ (c b).adapter.CanQueue s

theorem Reached.survives (hi : Reached cfg c)
    (htold : ∀ f ∈ (c b.other).claimed, about s f = true → f ∈ (c b).taken)
    (howner : (c.record b s).ownerBox ≠ b.id) :
    Survives c (c.step (b, .onPeerDown b.other.id)) b s := by
  have hstamp : (c.record b.other s).stamp ≤ (c.record b s).stamp := by
    refine (hi.pair s).stamp_le (hi.origin s) b fun u hu => ?_
    obtain ⟨f, hf, hdec, hsid⟩ := Reached.mem_claims.mp hu
    have habout := (about_of_decodes hdec).mpr hsid
    exact List.mem_filterMap.mpr ⟨f, List.mem_filter.mpr ⟨htold f hf habout, habout⟩, hdec⟩
  have hspec : StepSpec (c b).adapter ((c b).adapter.step (.onPeerDown b.other.id))
      (.sweep b.other.id) := step_spec (hi.grounded b).sound (.onPeerDown b.other.id)
  have hrecord : (c.step (b, .onPeerDown b.other.id)).record b s =
      peerDownRecord b.other.id (c.record b s) := by
    rw [Cluster.record, Cluster.step_self]
    exact hspec.working_sweep s
  refine ⟨?_, ?_, ?_, ?_, ?_⟩
  · rw [hrecord]
    exact peerDownRecord_released (((hi.pair s).owner_cases b).imp id fun h =>
      h.resolve_left howner)
  · rw [hrecord]
    exact (stampOf_inj.mp (peerDownRecord_stamp _ _)).2
  · rw [hrecord, peerDownRecord_stamp, Cluster.record, Cluster.step_other]
    exact hstamp
  · rw [Cluster.step_self, Node.step, queuedBy_eq (hi.grounded b).sound]
    exact List.append_nil _
  · rw [Cluster.step_self]
    exact canQueue_onPeerDown _ _ s

/-- Box 1 hears that box 0 owns subscriber 7. -/
def heardInputs : List (Box × AdapterCall) :=
  [(.box0, .onPacket 7 5), (.box1, .onRemoteMsg (firstClaim .box0 5))]

end Subown
