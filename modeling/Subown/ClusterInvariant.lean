import Subown.Cluster

/-! Invariants of the two adapters, derived for each subscriber from its pair: whose claims
the records hold, where their stamps come from and what packets are answered. -/
namespace Subown

open OwnershipAdapter RunRules

/-- The actions that send a packet to the other box. -/
def Redirects (action : OwnAction) : Prop :=
  action = .actForwardRemote ∨ action = .actTriggerMigration

instance (action : OwnAction) : Decidable (Redirects action) :=
  inferInstanceAs (Decidable (_ ∨ _))

namespace Cluster

/-- The states allowed runs reach. -/
def Reachable (cfg : Box → OwnAdapterCfg) (c : Cluster) : Prop :=
  ∃ inputs, Each Cluster.step Cluster.Allowed (Cluster.start cfg) inputs ∧
    exec Cluster.step (Cluster.start cfg) inputs = c

/-- The record box `b` works with. -/
def record (c : Cluster) (b : Box) (s : UInt64) : SubownRecord := (c b).adapter.workingRecord s

def reply (c : Cluster) (b : Box) (s now : UInt64) : PacketReply := (c b).adapter.onPacket s now

/-- Every claim was queued, and every queued frame accepted by the other box. -/
def Quiescent (c : Cluster) : Prop := ∀ b, ∀ f ∈ (c b).claimed, f ∈ (c b.other).taken

/-- Box `b` processes the packets of the subscriber, and the other box sends them there. -/
structure ProcessedAt (c : Cluster) (s : UInt64) (b : Box) : Prop where
  here : ∀ now, (c.reply b s now).rc = 0 ∧ (c.reply b s now).out.action = .actProcessLocal
  there : ∀ now, (c.reply b.other s now).rc = 0 ∧ Redirects (c.reply b.other s now).out.action ∧
    (c.reply b.other s now).out.peerOwner = b.id

/-- Both tables hold the claim `u`, and it outranks every claim made for the subscriber. -/
structure AgreedClaim (c : Cluster) (s : UInt64) (u : SubownUpdate) : Prop where
  made : ∃ b, ∃ f ∈ (c b).claimed, decodeUpdateV1 f = some u
  held : ∀ b, (c.record b s).ownership = u.ownership
  best : ∀ b, ∀ f ∈ (c b).claimed, ∀ v, decodeUpdateV1 f = some v → v.subscriberId = s →
    v.key ≤ u.key

end Cluster

variable {b d : Box} {a : OwnershipAdapter} {s now : UInt64} {u v : SubownUpdate} {c : Cluster}
  {p : PairState} {sid : UInt64} {f : Frame} {cfg : Box → OwnAdapterCfg}

/-! ### Owners in the pair -/

namespace PairInv

theorem heard_claims (hi : PairInv sid p) (hu : u ∈ (p b).heard) : u ∈ (p b.other).claims := by
  obtain ⟨f, hf, hdec⟩ := List.mem_filterMap.mp hu
  exact List.mem_filterMap.mpr ⟨f, hi.taken b f hf, hdec⟩

/-- An owned record is a claim of its owner, heard of if that is the other box. -/
theorem owner_source (hi : PairInv sid p) (howned : (p b).record.ownerBox ≠ unownedState) :
    ∃ d u, (p b).record.ownerBox = d.id ∧ u ∈ (p d).claims ∧ (d ≠ b → u ∈ (p b).heard) ∧
      u.ownership = (p b).record.ownership := by
  obtain ⟨u, hu, hown⟩ := (hi.box b).source howned
  have howner : u.owner = (p b).record.ownerBox := congrArg Ownership.ownerBox hown
  rcases hu with hu | hu
  · exact ⟨b, u, howner.symm.trans (hi.sender_claims hu), hu, fun hne => absurd rfl hne, hown⟩
  · have hclaim := hi.heard_claims hu
    exact ⟨b.other, u, howner.symm.trans (hi.sender_claims hclaim), hclaim, fun _ => hu, hown⟩

theorem owner_cases (hi : PairInv sid p) (b : Box) :
    (p b).record.ownerBox = unownedState ∨ (p b).record.ownerBox = b.id ∨
      (p b).record.ownerBox = b.other.id := by
  by_cases howned : (p b).record.ownerBox = unownedState
  · exact Or.inl howned
  · obtain ⟨d, u, howner, _⟩ := hi.owner_source howned
    obtain rfl | rfl := b.eq_or_eq_other d
    · exact Or.inr (Or.inl howner)
    · exact Or.inr (Or.inr howner)

/-- A record that names the other box holds no more than the other box does. -/
theorem key_le_of_peer (hi : PairInv sid p) (b : Box)
    (howner : (p b).record.ownerBox = b.other.id)
    (hother : (p b.other).record.ownerBox ≠ unownedState) :
    (p b).record.key ≤ (p b.other).record.key := by
  have howned : (p b).record.ownerBox ≠ unownedState := by
    rw [howner]
    exact box_ne_unowned b.other
  obtain ⟨d, u, hd, hu, _, hown⟩ := hi.owner_source howned
  obtain rfl := Box.id_inj (hd.symm.trans howner)
  have hle := (hi.box b.other).covers u (Or.inl hu)
  rwa [heldKey_owned hother, ownership_key hown] at hle

/-- The two records never name each other's box. -/
theorem no_cross (hi : PairInv sid p) : ¬ ∀ b, (p b).record.ownerBox = b.other.id := by
  intro hcross
  have howned : ∀ b, (p b).record.ownerBox ≠ unownedState := by
    intro b
    rw [hcross b]
    exact box_ne_unowned b.other
  have h01 := hi.key_le_of_peer .box0 (hcross .box0) (howned .box1)
  have h10 := hi.key_le_of_peer .box1 (hcross .box1) (howned .box0)
  have howner := (resolverKey_inj.mp (le_antisymm h01 h10)).2.2
  exact absurd ((hcross .box0).symm.trans (howner.trans (hcross .box1))) (by decide)

/-- Boxes that heard everything hold the best of all claims, unless one of them released
its owner. -/
theorem settled_best (hi : PairInv sid p) (hall : p.AllDelivered)
    (howned : ∀ b, (p b).record.ownerBox ≠ unownedState) :
    ∃ d u, u ∈ (p d).claims ∧ (∀ b, (p b).record.ownership = u.ownership) ∧
      ∀ b, ∀ v ∈ (p b).claims, v.key ≤ u.key := by
  have hsame : (p .box0).record.ownership = (p .box1).record.ownership := by
    rcases hi.settled hall with ⟨b, hun⟩ | hsame
    · exact absurd hun (howned b)
    · exact hsame
  obtain ⟨d, u, _, hu, _, hown⟩ := hi.owner_source (howned .box0)
  have hheld : ∀ b, (p b).record.ownership = u.ownership := by
    intro b
    cases b with
    | box0 => exact hown.symm
    | box1 => exact (hown.trans hsame).symm
  refine ⟨d, u, hu, hheld, ?_⟩
  intro b v hv
  have hle := (hi.box b).covers v (Or.inl hv)
  rwa [heldKey_owned (howned b), ← ownership_key (hheld b).symm] at hle

end PairInv

/-! ### Where stamps come from -/

/-- The stamp of a record is the first one or that of an update its box knows. -/
structure Origin (x : BoxState) : Prop where
  floor : stampOf 1 0 ≤ x.record.stamp
  source : x.record.stamp = stampOf 1 0 ∨ ∃ u, x.Knows u ∧ u.stamp = x.record.stamp

theorem BoxMove.knows {x y : BoxState} (h : BoxMove b x y) (hu : x.Knows u) : y.Knows u := by
  cases h with
  | keep r hsid hsame => exact hu
  | release howner => exact hu
  | claim now hgen =>
      rw [BoxState.Knows, claims_append x _ _ (decodeUpdateV1_claim b.isBoxId.known _ _)]
      exact hu.imp (List.mem_append_left _) id
  | deliver f v hdec howner hsid =>
      rw [BoxState.Knows, heard_append x _ _ hdec]
      exact hu.imp id (List.mem_append_left _)

theorem Origin.move {x y : BoxState} (ho : Origin x) (h : BoxMove b x y) : Origin y := by
  have hkeep : y.record.stamp = x.record.stamp → Origin y := by
    intro e
    refine ⟨ho.floor.trans_eq e.symm, ho.source.imp e.trans ?_⟩
    rintro ⟨u, hu, hstamp⟩
    exact ⟨u, h.knows hu, hstamp.trans e.symm⟩
  cases h with
  | keep r hsid hsame =>
      obtain ⟨he, hg, _⟩ := Ownership.mk.inj hsame
      exact hkeep (stampOf_inj.mpr ⟨he, hg⟩)
  | release howner => exact hkeep rfl
  | claim now hgen =>
      refine ⟨ho.floor.trans (claimedRecord_stamp b.id now hgen).le,
        Or.inr ⟨claimUpdate (claimedRecord x.record b.id now), Or.inl ?_, rfl⟩⟩
      rw [claims_append x _ _ (decodeUpdateV1_claim b.isBoxId.known _ _)]
      exact List.mem_append_right _ (List.mem_singleton.mpr rfl)
  | deliver f v hdec howner hsid =>
      rw [applyRemoteUpdate_record (decoded_validFor hdec hsid.symm)] at hkeep ⊢
      by_cases hlt : x.record.key < v.key
      · rw [StrictBest.take_of_lt hlt]
        refine ⟨?_, Or.inr ⟨v, Or.inr ?_, rfl⟩⟩
        · exact ho.floor.trans (not_lt.mp fun hs => hlt.not_gt (resolverKey_lt_of_stamp _ _ hs))
        · rw [heard_append x _ _ hdec]
          exact List.mem_append_right _ (List.mem_singleton.mpr rfl)
      · rw [StrictBest.take_of_le (not_lt.mp hlt)] at hkeep ⊢
        exact hkeep rfl

theorem origin_step (hi : PairInv sid p) (ho : ∀ b, Origin (p b)) {input : Box × BoxInput}
    (hallowed : p.Allowed input) (b : Box) : Origin (p.step input b) := by
  obtain ⟨d, input⟩ := input
  obtain rfl | rfl := d.eq_or_eq_other b
  · rw [PairState.step, Function.update_self]
    exact (ho b).move (hi.moves hallowed).1
  · rw [PairState.step, Function.update_of_ne d.other_ne]
    exact ho d.other

/-- A box that heard every claim of the other is not behind it. -/
theorem PairInv.stamp_le (hi : PairInv sid p) (ho : ∀ b, Origin (p b)) (b : Box)
    (htold : ∀ u ∈ (p b.other).claims, u ∈ (p b).heard) :
    (p b.other).record.stamp ≤ (p b).record.stamp := by
  rcases (ho b.other).source with hfirst | ⟨u, hu, hstamp⟩
  · rw [hfirst]
    exact (ho b).floor
  · rw [← hstamp]
    refine stamp_le_of_key_le ((hi.box b).covers u ?_)
    rcases hu with hu | hu
    · exact Or.inr (htold u hu)
    · have hclaim := hi.heard_claims hu
      rw [Box.other_other] at hclaim
      exact Or.inl hclaim

/-- An owner that heard a claim above all its own has given up. -/
theorem PairInv.yields (hi : PairInv sid p) (b : Box) (hu : u ∈ (p b).heard)
    (habove : ∀ v ∈ (p b).claims, v.stamp < u.stamp) : (p b).record.ownerBox ≠ b.id := by
  intro howner
  have howned : (p b).record.ownerBox ≠ unownedState := by
    rw [howner]
    exact box_ne_unowned b
  obtain ⟨d, v, hd, hv, _, hown⟩ := hi.owner_source howned
  obtain rfl := Box.id_inj (hd.symm.trans howner)
  have hle := (hi.box d).covers u (Or.inr hu)
  rw [heldKey_owned howned, ← ownership_key hown] at hle
  exact hle.not_gt (resolverKey_lt_of_stamp _ _ (habove v hv))

/-! ### Replies -/

theorem peerOf_id (b : Box) : peerOf b.id = b.other.id := by cases b <;> rfl

/-- The action the switch picks for a decision. -/
def switchAction (mode : OwnMode) : SubownDecision → OwnAction
  | .processLocal => .actProcessLocal
  | .forwardRemote => if mode = .modeEnforce then .actForwardRemote else .actProcessLocal
  | .triggerMigration => if mode = .modeEnforce then .actTriggerMigration else .actProcessLocal
  | .emitLocalUpdate => if mode = .modeEnforce then .actClaimEmitted else .actProcessLocal
  | _ => .actNoop

theorem actOn_action (a : OwnershipAdapter) (s now : UInt64) (out : OwnResult)
    (decision : SubownDecision) :
    (a.actOn s now out decision).out.action = switchAction a.cfg.mode decision := by
  have hpush : ∀ e, (countEvent (Subown.pushEvent a s e now)).cfg.mode = a.cfg.mode :=
    fun e => congrArg OwnAdapterCfg.mode (countPush_frame a s now e).2
  cases decision with
  | forwardRemote =>
      unfold actOn switchAction
      dsimp only
      split_ifs <;> rfl
  | triggerMigration =>
      unfold actOn switchAction countMigration
      dsimp only
      rw [hpush]
      split_ifs <;> rfl
  | emitLocalUpdate =>
      unfold actOn switchAction
      dsimp only
      rw [hpush]
      split_ifs <;> rfl
  | processLocal => rfl
  | applyRemote => rfl
  | keepLocal => rfl
  | noop => rfl

theorem onPacket_action (h : a.Sound) (hmode : a.cfg.mode ≠ .modeDisabled) (hroom : a.Room s)
    (now : UInt64) :
    (a.onPacket s now).out.action =
      let outcome := corePacket a.cfg (a.workingRecord s) now a.emitStatus
      if outcome.status = .ok then switchAction a.cfg.mode outcome.out.decision
      else .actNoop := by
  obtain ⟨t, _, hreply⟩ := onPacket_eq h hmode hroom now
  generalize corePacket a.cfg (a.workingRecord s) now a.emitStatus = outcome at hreply ⊢
  have hcfg : ((a.afterEmit outcome).withTable t).cfg = a.cfg := by
    unfold afterEmit
    cases outcome.userCtx <;> split_ifs <;> rfl
  rw [hreply]
  unfold outcomeReply
  by_cases hok : outcome.status = .ok
  · simp only [hok, ne_eq, not_true_eq_false, if_false, if_true]
    rw [actOn_action, hcfg]
  · simp only [hok, ne_eq, not_false_eq_true, if_false, if_true]

/-- A redirected packet found neither the local box nor nobody in its record. -/
theorem redirects_owner (h : a.Sound) (hb : BoxId a.cfg.localBoxId)
    (hredirects : Redirects (a.onPacket s now).out.action) :
    (a.workingRecord s).ownerBox ≠ a.cfg.localBoxId ∧
      (a.workingRecord s).ownerBox ≠ unownedState := by
  obtain hidle | ⟨hmode, hroom⟩ := idle_or_reaches a s
  · rw [onPacket_idle_eq hidle] at hredirects
    simp [Redirects] at hredirects
  rw [onPacket_action h hmode hroom] at hredirects
  obtain ⟨_, e⟩ | ⟨howner, _⟩ | ⟨_, _, e⟩ | ⟨_, _, e⟩ | ⟨howner, _⟩ :=
    corePacket_cases hb (a.workingRecord s) now a.emitStatus
  · rw [e] at hredirects
    simp [Redirects, switchAction] at hredirects
  · rw [howner]
    exact ⟨hb.ne_peer.symm, hb.ne_unowned.2⟩
  · rw [e] at hredirects
    simp only [Redirects, switchAction] at hredirects
    split_ifs at hredirects <;> simp at hredirects
  · rw [e] at hredirects
    simp [Redirects] at hredirects
  · exact ⟨fun heq => howner (heq ▸ hb.known), fun heq => howner (Or.inr (Or.inr heq))⟩

/-- A packet of a subscriber the local box owns is processed here. -/
theorem onPacket_local (h : a.Sound) (hb : BoxId a.cfg.localBoxId)
    (hmode : a.cfg.mode ≠ .modeDisabled) (hroom : a.Room s)
    (howner : (a.workingRecord s).ownerBox = a.cfg.localBoxId) (now : UInt64) :
    (a.onPacket s now).rc = 0 ∧ (a.onPacket s now).out.action = .actProcessLocal := by
  have houtcome : corePacket a.cfg (a.workingRecord s) now a.emitStatus =
      ⟨.ok, { a.workingRecord s with lastSeenTs := now }, none, ⟨.processLocal, .localHit⟩⟩ :=
    processPacketEvent_local hb howner
  have hrc := (onPacket_spec h hmode hroom now).rc
  have haction := onPacket_action h hmode hroom now
  rw [houtcome] at hrc haction
  exact ⟨hrc, haction⟩

/-- In ENFORCE a packet of a subscriber the peer owns is sent there. -/
theorem onPacket_redirected (h : a.Sound) (hb : BoxId a.cfg.localBoxId)
    (hmode : a.cfg.mode = .modeEnforce) (hroom : a.Room s)
    (howner : (a.workingRecord s).ownerBox = peerOf a.cfg.localBoxId) (now : UInt64) :
    (a.onPacket s now).rc = 0 ∧ Redirects (a.onPacket s now).out.action ∧
      (a.onPacket s now).out.peerOwner = peerOf a.cfg.localBoxId := by
  have henabled : a.cfg.mode ≠ .modeDisabled := by
    rw [hmode]
    exact nofun
  have houtcome : corePacket a.cfg (a.workingRecord s) now a.emitStatus =
      ⟨.ok, (misroute (a.workingRecord s) a.cfg.migrationThreshold).1, none,
        (misroute (a.workingRecord s) a.cfg.migrationThreshold).2⟩ :=
    processPacketEvent_remote hb howner
  have hspec := onPacket_spec h henabled hroom now
  have haction := onPacket_action h henabled hroom now
  rw [houtcome] at hspec haction
  obtain ⟨counter, hframe⟩ := misroute_frame (a.workingRecord s) a.cfg.migrationThreshold
  obtain ⟨_, hpeer⟩ := hspec.out rfl
  refine ⟨hspec.rc, ?_, ?_⟩
  · rw [haction, hmode]
    unfold misroute
    split_ifs
    · exact Or.inr rfl
    · exact Or.inl rfl
  · rw [hpeer, hframe]
    exact howner

/-! ### Reachable states -/

/-- What every allowed run keeps. -/
structure Reached (cfg : Box → OwnAdapterCfg) (c : Cluster) : Prop extends ClusterInv cfg c where
  pair : ∀ s, PairInv s (c.view s)
  origin : ∀ s b, Origin ((c.view s) b)

theorem fresh_start (s : UInt64) : PairState.Start fun _ => ⟨freshRecord s, [], []⟩ :=
  ⟨rfl, fun _ => ⟨rfl, rfl, rfl, rfl⟩, fun _ => ⟨rfl, rfl⟩⟩

namespace Reached

theorem start (cfg : Box → OwnAdapterCfg) : Reached cfg (Cluster.start cfg) where
  toClusterInv := .start cfg
  pair s := by
    rw [start_view]
    exact PairInv.start (fresh_start s)
  origin s b := by
    rw [start_view]
    exact ⟨le_rfl, Or.inl rfl⟩

variable (hbox : ∀ b, (cfg b).localBoxId = b.id) (hi : Reached cfg c)
include hbox hi

theorem step {input : Box × AdapterCall} (hallowed : c.Allowed input) :
    Reached cfg (c.step input) := by
  have hview : ∀ s, PairInv s ((c.step input).view s) ∧ ∀ b, Origin ((c.step input).view s b) :=
    fun s => (cluster_simulates hbox s).inv_view
      (J := fun p => PairInv s p ∧ ∀ b, Origin (p b))
      (fun _ input h hallowed => ⟨h.1.step input hallowed, origin_step h.1 h.2 hallowed⟩)
      hi.toClusterInv hallowed ⟨hi.pair s, hi.origin s⟩
  exact ⟨hi.toClusterInv.step hbox hallowed.1, fun s => (hview s).1, fun s => (hview s).2⟩

theorem run {inputs : List (Box × AdapterCall)}
    (hallowed : Each Cluster.step Cluster.Allowed c inputs) :
    Reached cfg (exec Cluster.step c inputs) :=
  exec_inv (fun _ _ hi h => hi.step hbox h) hi hallowed

/-- Only the other box's record redirects. -/
theorem redirects (hredirects : Redirects (c.reply b s now).out.action) :
    (c.record b s).ownerBox = b.other.id := by
  obtain ⟨hlocal, hunowned⟩ :=
    redirects_owner (hi.grounded b).sound (hi.boxId hbox b) hredirects
  rw [hi.localBoxId hbox b] at hlocal
  exact (((hi.pair s).owner_cases b).resolve_left hunowned).resolve_left hlocal

omit hbox in
/-- A subscriber with an owner is in the table. -/
theorem room (howned : (c.record b s).ownerBox ≠ unownedState) : (c b).adapter.Room s := by
  cases hr : (c b).adapter.recordOf s with
  | some r => exact room_of_some (hi.grounded b).sound hr
  | none =>
      rw [Cluster.record, workingRecord, hr] at howned
      exact absurd rfl howned

theorem processedAt (henforce : ∀ b, (cfg b).mode = .modeEnforce)
    (howner : ∀ d, (c.record d s).ownerBox = b.id) : c.ProcessedAt s b := by
  have howned : ∀ d, (c.record d s).ownerBox ≠ unownedState := by
    intro d
    rw [howner d]
    exact box_ne_unowned b
  have hmode : ∀ d, (c d).adapter.cfg.mode = .modeEnforce := by
    intro d
    rw [(hi.grounded d).config]
    exact henforce d
  constructor
  · intro now
    refine onPacket_local (hi.grounded b).sound (hi.boxId hbox b) ?_ (hi.room (howned b)) ?_ now
    · rw [hmode b]
      exact nofun
    · rw [hi.localBoxId hbox b]
      exact howner b
  · intro now
    have hpeer : peerOf (c b.other).adapter.cfg.localBoxId = b.id := by
      rw [hi.localBoxId hbox b.other, peerOf_id, Box.other_other]
    have hreply := onPacket_redirected (hi.grounded b.other).sound (hi.boxId hbox b.other)
      (hmode b.other) (hi.room (howned b.other)) ((howner b.other).trans hpeer.symm) now
    rw [hpeer] at hreply
    exact hreply

omit hbox hi in
theorem allDelivered (hq : c.Quiescent) (s : UInt64) : (c.view s).AllDelivered := by
  intro b f hf
  obtain ⟨hf, habout⟩ := List.mem_filter.mp hf
  have htaken := hq b.other f hf
  rw [Box.other_other] at htaken
  exact List.mem_filter.mpr ⟨htaken, habout⟩

omit hbox hi in
theorem mem_claims : u ∈ ((c.view s) b).claims ↔
    ∃ f ∈ (c b).claimed, decodeUpdateV1 f = some u ∧ u.subscriberId = s := by
  rw [BoxState.claims, List.mem_filterMap]
  constructor
  · rintro ⟨f, hf, hdec⟩
    obtain ⟨hf, habout⟩ := List.mem_filter.mp hf
    exact ⟨f, hf, hdec, (about_of_decodes hdec).mp habout⟩
  · rintro ⟨f, hf, hdec, hsid⟩
    exact ⟨f, List.mem_filter.mpr ⟨hf, (about_of_decodes hdec).mpr hsid⟩, hdec⟩

theorem agreed (henforce : ∀ b, (cfg b).mode = .modeEnforce) (hq : c.Quiescent) (s : UInt64) :
    (∃ b, (c.record b s).ownerBox = unownedState) ∨
      ∃ u b, c.AgreedClaim s u ∧ u.owner = b.id ∧ c.ProcessedAt s b := by
  by_cases hun : ∃ b, (c.record b s).ownerBox = unownedState
  · exact Or.inl hun
  have hpair := hi.pair s
  obtain ⟨d, u, hu, hheld, hbest⟩ :=
    hpair.settled_best (allDelivered hq s) fun b h => hun ⟨b, h⟩
  have howner : ∀ b, (c.record b s).ownerBox = d.id := fun b =>
    (congrArg Ownership.ownerBox (hheld b)).trans (hpair.sender_claims hu)
  obtain ⟨f, hf, hdec, _⟩ := mem_claims.mp hu
  refine Or.inr ⟨u, d, ⟨⟨d, f, hf, hdec⟩, hheld, ?_⟩, hpair.sender_claims hu,
    hi.processedAt hbox henforce howner⟩
  intro b g hg v hv hsid
  exact hbest b v (mem_claims.mpr ⟨g, hg, hv, hsid⟩)

end Reached

/-! ### Generations -/

/-- After `n` inputs nothing carries a generation above `n`. -/
structure Bounded (n : ℕ) (p : PairState) : Prop where
  records : ∀ b, (p b).record.ownerEpoch = 1 ∧ (p b).record.generation.toNat ≤ n
  claims : ∀ b, ∀ u ∈ (p b).claims, u.ownerEpoch = 1 ∧ u.generation.toNat ≤ n

theorem Bounded.mono {n m : ℕ} (h : Bounded n p) (hle : n ≤ m) : Bounded m p :=
  ⟨fun b => ⟨(h.records b).1, (h.records b).2.trans hle⟩,
    fun b u hu => ⟨(h.claims b u hu).1, (h.claims b u hu).2.trans hle⟩⟩

theorem generation_succ {r : SubownRecord} (hgen : r.generation ≠ 0xFFFFFFFF) (b : UInt8)
    (now : UInt64) : (claimedRecord r b now).generation.toNat = r.generation.toNat + 1 := by
  change (r.generation + 1).toNat = _
  have hmax : r.generation.toNat ≠ 4294967295 := fun e => hgen (UInt32.toNat_inj.mp e)
  have hlt := r.generation.toNat_lt
  rw [UInt32.toNat_add, UInt32.toNat_one]
  omega

/-- One move of a box adds at most one to the generations, those it is sent included. -/
theorem Bounded.step {n : ℕ} (h : Bounded n p) (hi : PairInv sid p) {input : Box × BoxInput}
    (hallowed : p.Allowed input) : Bounded (n + 1) (p.step input) := by
  obtain ⟨b, input⟩ := input
  obtain ⟨hmove, htaken⟩ := hi.moves hallowed
  have hself : p.step (b, input) b = (p b).step b input := Function.update_self ..
  have hother : p.step (b, input) b.other = p b.other := Function.update_of_ne b.other_ne _ _
  have hnext := h.mono (Nat.le_succ n)
  generalize (p b).step b input = y at hmove htaken hself
  have hmoved : (y.record.ownerEpoch = 1 ∧ y.record.generation.toNat ≤ n + 1) ∧
      ∀ u ∈ y.claims, u.ownerEpoch = 1 ∧ u.generation.toNat ≤ n + 1 := by
    cases hmove with
    | keep r hsid hsame =>
        obtain ⟨he, hg, _⟩ := Ownership.mk.inj hsame
        refine ⟨?_, hnext.claims b⟩
        dsimp only
        rw [he, hg]
        exact hnext.records b
    | release howner => exact ⟨hnext.records b, hnext.claims b⟩
    | claim now hgen =>
        have hclaim : (claimedRecord (p b).record b.id now).ownerEpoch = 1 ∧
            (claimedRecord (p b).record b.id now).generation.toNat ≤ n + 1 := by
          refine ⟨(h.records b).1, ?_⟩
          rw [generation_succ hgen]
          exact Nat.succ_le_succ (h.records b).2
        refine ⟨hclaim, ?_⟩
        rw [claims_append (p b) _ _ (decodeUpdateV1_claim b.isBoxId.known _ _)]
        intro u hu
        rcases List.mem_append.mp hu with hu | hu
        · exact hnext.claims b u hu
        · obtain rfl := List.mem_singleton.mp hu
          exact hclaim
    | deliver f u hdec howner hsid =>
        refine ⟨?_, hnext.claims b⟩
        dsimp only
        rw [applyRemoteUpdate_record (decoded_validFor hdec hsid.symm)]
        by_cases hlt : (p b).record.key < u.key
        · rw [StrictBest.take_of_lt hlt]
          refine hnext.claims b.other u (List.mem_filterMap.mpr ⟨f, htaken f ?_, hdec⟩)
          exact List.mem_append_right _ (List.mem_singleton.mpr rfl)
        · rw [StrictBest.take_of_le (not_lt.mp hlt)]
          exact hnext.records b
  constructor
  · intro d
    obtain rfl | rfl := b.eq_or_eq_other d
    · rw [hself]
      exact hmoved.1
    · rw [hother]
      exact hnext.records b.other
  · intro d
    obtain rfl | rfl := b.eq_or_eq_other d
    · rw [hself]
      exact hmoved.2
    · rw [hother]
      exact hnext.claims b.other

/-- A call is at most one input of a subscriber's pair. -/
theorem inputs_cases (c : Cluster) (input : Box × AdapterCall) (s : UInt64) :
    c.inputs s input = [] ∨ ∃ i, c.inputs s input = [i] := by
  obtain ⟨b, call⟩ := input
  unfold Cluster.inputs
  cases call with
  | onPacket t now =>
      dsimp only [Node.inputs]
      split_ifs
      · exact Or.inr ⟨_, rfl⟩
      · exact Or.inl rfl
  | onRemoteMsg m =>
      dsimp only [Node.inputs]
      split_ifs
      · exact Or.inr ⟨_, rfl⟩
      · exact Or.inl rfl
  | onPeerDown p => exact Or.inr ⟨_, rfl⟩
  | flushOutbound => exact Or.inl rfl
  | onAgingTick now => exact Or.inl rfl
  | pushEvent evt => exact Or.inl rfl
  | popEvent => exact Or.inl rfl
  | getMetrics => exact Or.inl rfl

structure ShortInv (cfg : Box → OwnAdapterCfg) (n : ℕ) (c : Cluster) : Prop
    extends Reached cfg c where
  bounded : ∀ s, Bounded n (c.view s)

namespace ShortInv

variable {n : ℕ} {input : Box × AdapterCall}

theorem start (cfg : Box → OwnAdapterCfg) : ShortInv cfg 0 (Cluster.start cfg) where
  toReached := .start cfg
  bounded s := by
    rw [start_view]
    exact ⟨fun _ => ⟨rfl, le_rfl⟩, fun _ u hu => by cases hu⟩

/-- No record is at the last generation yet. -/
theorem allowed (hi : ShortInv cfg n c) (hn : n < 0xFFFFFFFF) (hnet : c.Network input) :
    c.Allowed input := by
  refine ⟨hnet, fun hwrap => ?_⟩
  obtain ⟨b, call⟩ := input
  cases call with
  | onPacket s now =>
      obtain ⟨_, r, hr, _, hgen⟩ := hwrap
      have hle := ((hi.bounded s).records b).2
      change ((c b).adapter.workingRecord s).generation.toNat ≤ n at hle
      rw [workingRecord_of_some hr, hgen] at hle
      exact absurd hle (not_le.mpr hn)
  | onRemoteMsg m => exact hwrap
  | flushOutbound => exact hwrap
  | onPeerDown p => exact hwrap
  | onAgingTick now => exact hwrap
  | pushEvent evt => exact hwrap
  | popEvent => exact hwrap
  | getMetrics => exact hwrap

theorem step (hbox : ∀ b, (cfg b).localBoxId = b.id) (hi : ShortInv cfg n c) (hn : n < 0xFFFFFFFF)
    (hnet : c.Network input) : ShortInv cfg (n + 1) (c.step input) := by
  have hallowed := hi.allowed hn hnet
  refine ⟨hi.toReached.step hbox hallowed, fun s => ?_⟩
  have hsim := cluster_simulates hbox s
  have heach := hsim.allowed c input hi.toClusterInv hallowed
  rw [hsim.commutes c input hi.toClusterInv hallowed]
  obtain he | ⟨i, he⟩ := inputs_cases c input s
  · rw [he]
    exact (hi.bounded s).mono (Nat.le_succ n)
  · rw [he] at heach ⊢
    exact (hi.bounded s).step (hi.pair s) heach.1

/-- The network's conditions are all a short run needs. -/
theorem run (hbox : ∀ b, (cfg b).localBoxId = b.id) {inputs : List (Box × AdapterCall)}
    (hlength : inputs.length ≤ 0xFFFFFFFF)
    (hnet : Each Cluster.step Cluster.Network (Cluster.start cfg) inputs) :
    Each Cluster.step Cluster.Allowed (Cluster.start cfg) inputs ∧
      ShortInv cfg inputs.length (exec Cluster.step (Cluster.start cfg) inputs) := by
  have hallow : ∀ n c input, n < 0xFFFFFFFF → ShortInv cfg n c → c.Network input →
      c.Allowed input := fun _ _ _ hn hi h => hi.allowed hn h
  have hstep : ∀ n c input, n < 0xFFFFFFFF → ShortInv cfg n c → c.Network input →
      ShortInv cfg (n + 1) (c.step input) := fun _ _ _ hn hi h => hi.step hbox hn h
  have hrun := each_of_budget hallow hstep (ShortInv.start cfg) (by rwa [Nat.zero_add]) hnet
  rwa [Nat.zero_add] at hrun

end ShortInv

end Subown
