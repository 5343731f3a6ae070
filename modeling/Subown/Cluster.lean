import Subown.StampHistory
import Subown.TwoBoxConvergence

/-! Two adapters over a network that loses, duplicates and reorders what they queue. For every
subscriber a run of them is a run of two boxes with one record each: the tables, the
queues and the calls that fail disappear, except that a claim the full queue refuses
counts as emitted and lost. -/
namespace Subown

open OwnershipAdapter RunRules

/-- An adapter with the frames it queued, the claims it made whether queued or not, and the
messages of the other box it accepted. -/
structure Node where
  adapter : OwnershipAdapter
  queued : List Frame
  claimed : List Frame
  taken : List Frame

/-- The frame of the claim the core makes in a call. -/
def OwnershipAdapter.claimedBy (a : OwnershipAdapter) (call : AdapterCall) : List Frame :=
  match a.effect call with
  | .core s (.packet now _) =>
      (corePacket a.cfg (a.workingRecord s) now .ok).userCtx.toList.map frameBytes
  | _ => []

/-- The message decodes to an update of the subscriber. -/
def about (s : UInt64) (m : List UInt8) : Bool :=
  (decodeUpdateV1 m).any fun u => u.subscriberId = s

namespace Node

def start (cfg : OwnAdapterCfg) : Node := ⟨OwnershipAdapter.create cfg, [], [], []⟩

def step (x : Node) (call : AdapterCall) : Node :=
  ⟨x.adapter.step call, x.queued ++ x.adapter.queuedBy call,
    x.claimed ++ x.adapter.claimedBy call, x.taken ++ x.adapter.acceptedBy call⟩

/-- The record of one subscriber with the frames about it. -/
def view (s : UInt64) (x : Node) : BoxState :=
  ⟨x.adapter.workingRecord s, x.claimed.filter (about s), x.taken.filter (about s)⟩

/-- What a call is to the record of one subscriber. -/
def inputs (s : UInt64) (x : Node) : AdapterCall → List BoxInput
  | .onPacket t now =>
      if t = s ∧ x.adapter.cfg.mode ≠ .modeDisabled ∧ x.adapter.Room s then
        [.packet now x.adapter.cfg.migrationThreshold]
      else []
  | .onRemoteMsg m => if about s m = true ∧ x.adapter.Room s then [.deliver m] else []
  | .onPeerDown _ => [.peerDown]
  | _ => []

end Node

abbrev Cluster := Box → Node

namespace Cluster

def start (cfg : Box → OwnAdapterCfg) : Cluster := fun b => .start (cfg b)

def step (c : Cluster) (input : Box × AdapterCall) : Cluster :=
  Function.update c input.1 ((c input.1).step input.2)

/-- Only frames the other box queued arrive, and bytes that do not decode; the peer that is
reported down is the other box. -/
def Network (c : Cluster) (input : Box × AdapterCall) : Prop :=
  match input.2 with
  | .onRemoteMsg m => m ∈ (c input.1.other).queued ∨ decodeUpdateV1 m = none
  | .onPeerDown p => p = input.1.other.id
  | _ => True

instance (c : Cluster) : ∀ input, Decidable (c.Network input)
  | (b, .onRemoteMsg m) =>
      inferInstanceAs (Decidable (m ∈ (c b.other).queued ∨ decodeUpdateV1 m = none))
  | (b, .onPeerDown p) => inferInstanceAs (Decidable (p = b.other.id))
  | (_, .onPacket _ _) => .isTrue trivial
  | (_, .flushOutbound) => .isTrue trivial
  | (_, .onAgingTick _) => .isTrue trivial
  | (_, .pushEvent _) => .isTrue trivial
  | (_, .popEvent) => .isTrue trivial
  | (_, .getMetrics) => .isTrue trivial

def Allowed (c : Cluster) (input : Box × AdapterCall) : Prop :=
  c.Network input ∧ ¬ WrappingClaim (c input.1).adapter input.2

def view (s : UInt64) (c : Cluster) : PairState := fun b => (c b).view s

def inputs (s : UInt64) (c : Cluster) (input : Box × AdapterCall) : List (Box × BoxInput) :=
  ((c input.1).inputs s input.2).map (Prod.mk input.1)

end Cluster

variable {b : Box} {a : OwnershipAdapter} {cfg : OwnAdapterCfg} {r : SubownRecord}
  {s t now : UInt64}
  {f m : Frame} {u : SubownUpdate} {x : Node} {c : Cluster} {call : AdapterCall}

/-! ### Claims -/

theorem about_iff : about s m = true ↔ ∃ u, decodeUpdateV1 m = some u ∧ u.subscriberId = s := by
  simp [about, Option.any_eq_true]

theorem about_of_decodes (hdec : decodeUpdateV1 m = some u) :
    about s m = true ↔ u.subscriberId = s := by
  simp [about, hdec]

theorem about_undecodable (hdec : decodeUpdateV1 m = none) : ¬ about s m = true := by
  simp [about, hdec]

/-- The core claims alike whatever the emitter answers; the wire emitter takes every claim. -/
theorem corePacket_wire (hb : BoxId cfg.localBoxId) (r : SubownRecord) (now : UInt64)
    (emitted : SubownStatus) (inFlight : List Frame) :
    let called := processPacketEvent r cfg.localBoxId now cfg.migrationThreshold
      (some wireEmitter) inFlight unsetResult
    called.record = (corePacket cfg r now emitted).record ∧
      called.userCtx =
        inFlight ++ (corePacket cfg r now .ok).userCtx.toList.map frameBytes := by
  rcases hb.owner_cases r.ownerBox with hlocal | hremote | hunowned | hother
  · simp [corePacket, processPacketEvent_local hb hlocal]
  · simp [corePacket, processPacketEvent_remote hb hremote]
  · obtain ⟨hrecord, _⟩ := corePacket_unowned hb hunowned now emitted
    obtain ⟨_, hok⟩ := corePacket_unowned hb hunowned now .ok
    rw [hrecord, hok rfl, processPacketEvent_unowned hb hunowned]
    simp [wireEmitter_eq]
  · simp [corePacket, processPacketEvent_other hb hother]

/-- A claim is made on an unowned record and names the local box. -/
theorem corePacket_claims (hb : BoxId cfg.localBoxId) {emitted : SubownStatus}
    (hu : u ∈ (corePacket cfg r now emitted).userCtx) :
    r.ownerBox = unownedState ∧ u = claimUpdate (claimedRecord r cfg.localBoxId now) := by
  obtain ⟨_, e⟩ | ⟨_, e⟩ | ⟨hun, _, e⟩ | ⟨_, _, e⟩ | ⟨_, e⟩ := corePacket_cases hb r now emitted
  all_goals rw [e] at hu
  · cases hu
  · cases hu
  · exact ⟨hun, (Option.some.inj hu).symm⟩
  · cases hu
  · cases hu

/-- Only a packet that reaches the core claims or queues. -/
theorem claimedBy_of_effect {e : Effect} (he : a.effect call = e)
    (hne : ∀ s now emitted, e ≠ .core s (.packet now emitted)) : a.claimedBy call = [] := by
  rw [claimedBy, he]
  cases e with
  | quiet => rfl
  | sweep p => rfl
  | core s c =>
      cases c with
      | packet now emitted => exact absurd rfl (hne s now emitted)
      | remote u => rfl
      | release p => rfl

theorem mem_claimedBy (h : a.Sound) (hb : BoxId a.cfg.localBoxId) (hf : f ∈ a.claimedBy call) :
    ∃ s now emitted, a.effect call = .core s (.packet now emitted) ∧
      (a.workingRecord s).ownerBox = unownedState ∧
      f = frameBytes (claimUpdate (claimedRecord (a.workingRecord s) a.cfg.localBoxId now)) ∧
      about s f = true := by
  by_cases heff : ∃ s now emitted, a.effect call = .core s (.packet now emitted)
  · obtain ⟨s, now, emitted, heff⟩ := heff
    rw [claimedBy, heff] at hf
    obtain ⟨u, hu, rfl⟩ := List.mem_map.mp hf
    obtain ⟨hun, rfl⟩ := corePacket_claims hb (Option.mem_toList.mp hu)
    refine ⟨s, now, emitted, heff, hun, rfl, ?_⟩
    rw [about_of_decodes (decodeUpdateV1_claim hb.known _ _)]
    exact workingRecord_subscriberId h
  · rw [claimedBy_of_effect rfl fun s now emitted e => heff ⟨s, now, emitted, e⟩] at hf
    cases hf

/-- Every queued frame is the frame of a claim. -/
theorem queuedBy_claimed (h : a.Sound) (hb : BoxId a.cfg.localBoxId) (hf : f ∈ a.queuedBy call) :
    f ∈ a.claimedBy call := by
  obtain ⟨s, now, hann⟩ := queuedBy_announces h hb hf
  rw [queuedBy_eq h, hann.effect] at hf
  rw [claimedBy, hann.effect]
  exact hf

/-! ### One box -/

theorem exec_singleton {σ ι : Type*} (step : σ → ι → σ) (s : σ) (i : ι) :
    exec step s [i] = step s i := rfl

section View

variable (h : x.adapter.Sound)
include h

/-- A call that leaves the records alone is nothing to any view. -/
theorem view_quiet (hquiet : x.adapter.effect call = .quiet)
    (haccepted : x.adapter.acceptedBy call = []) (s : UInt64) :
    (x.step call).view s = x.view s := by
  have hspec := step_spec h call
  rw [hquiet] at hspec
  have hworking : (x.adapter.step call).workingRecord s = x.adapter.workingRecord s := by
    rw [workingRecord, hspec.records]
    rfl
  have hclaimed : x.adapter.claimedBy call = [] := by
    rw [claimedBy, hquiet]
  rw [Node.view, Node.step, hworking, hclaimed, haccepted, List.append_nil, List.append_nil]
  rfl

variable (hb : x.adapter.cfg.localBoxId = b.id)
include hb

theorem view_packet (s t now : UInt64) :
    (x.step (.onPacket t now)).view s =
      exec (BoxState.step b) (x.view s) (x.inputs s (.onPacket t now)) := by
  have hbox : BoxId x.adapter.cfg.localBoxId := hb ▸ b.isBoxId
  obtain hidle | ⟨hmode, hroom⟩ := idle_or_reaches x.adapter t
  · have hinputs : x.inputs s (.onPacket t now) = [] := by
      refine if_neg fun hreach => ?_
      obtain ⟨rfl, hmode, hroom⟩ := hreach
      exact hidle.elim hmode fun hfull => hfull hroom
    rw [hinputs, view_quiet h (effect_idle hidle now) rfl]
    rfl
  have heff := effect_onPacket hmode hroom now
  have hspec := step_spec h (.onPacket t now)
  rw [heff] at hspec
  have hclaims : ∀ f ∈ x.adapter.claimedBy (.onPacket t now), about t f = true := by
    intro f hf
    obtain ⟨t', _, _, heff', _, _, habout⟩ := mem_claimedBy h hbox hf
    obtain ⟨rfl, _⟩ := Effect.core.inj (heff.symm.trans heff')
    exact habout
  by_cases hts : t = s
  · subst hts
    have hinputs : x.inputs t (.onPacket t now) =
        [.packet now x.adapter.cfg.migrationThreshold] := if_pos ⟨rfl, hmode, hroom⟩
    obtain ⟨hrecord, hctx⟩ := corePacket_wire hbox (x.adapter.workingRecord t) now
      x.adapter.emitStatus (x.claimed.filter (about t))
    rw [hb] at hrecord hctx
    rw [hinputs, exec_singleton, BoxState.step]
    dsimp only [Node.view, Node.step]
    rw [hrecord, hctx, workingRecord_of_some hspec.core_same, List.filter_append,
      List.filter_eq_self.mpr hclaims, claimedBy, heff]
    simp [acceptedBy, CoreCall.apply]
  · have hinputs : x.inputs s (.onPacket t now) = [] := if_neg fun hreach => hts hreach.1
    have hother : ∀ f ∈ x.adapter.claimedBy (.onPacket t now), ¬ about s f = true := by
      intro f hf
      obtain ⟨u, hdec, hsid⟩ := about_iff.mp (hclaims f hf)
      rw [about_of_decodes hdec, hsid]
      exact hts
    have hworking : (x.adapter.step (.onPacket t now)).workingRecord s =
        x.adapter.workingRecord s := by
      rw [hspec.working_core, Function.update_of_ne (Ne.symm hts)]
    rw [hinputs, exec_nil]
    dsimp only [Node.view, Node.step]
    rw [hworking, List.filter_append, List.filter_eq_nil_iff.mpr hother]
    simp [acceptedBy]

omit hb in
theorem view_message (b : Box) (s : UInt64) (m : Frame) :
    (x.step (.onRemoteMsg m)).view s =
      exec (BoxState.step b) (x.view s) (x.inputs s (.onRemoteMsg m)) := by
  obtain hdec | ⟨u, hdec, hroom⟩ | ⟨u, hdec, hroom⟩ := message_cases x.adapter m
  · have hinputs : x.inputs s (.onRemoteMsg m) = [] :=
      if_neg fun hm => about_undecodable hdec hm.1
    have haccepted : x.adapter.acceptedBy (.onRemoteMsg m) = [] := by
      simp [acceptedBy, onRemoteMsg_undecodable hdec]
    rw [hinputs, view_quiet h (effect_undecodable hdec) haccepted]
    rfl
  · have hinputs : x.inputs s (.onRemoteMsg m) = [] := by
      refine if_neg fun hm => ?_
      obtain rfl := (about_of_decodes hdec).mp hm.1
      exact hroom hm.2
    have haccepted : x.adapter.acceptedBy (.onRemoteMsg m) = [] := by
      simp [acceptedBy, onRemoteMsg_full hdec hroom]
    rw [hinputs, view_quiet h (effect_full hdec hroom) haccepted]
    rfl
  · have haccepted : x.adapter.acceptedBy (.onRemoteMsg m) = [m] :=
      if_pos (onRemoteMsg_spec h hdec hroom).rc
    have hspec := step_spec h (.onRemoteMsg m)
    have hclaimed : x.adapter.claimedBy (.onRemoteMsg m) = [] := by
      rw [claimedBy, effect_remote hdec hroom]
    rw [effect_remote hdec hroom] at hspec
    by_cases hsid : u.subscriberId = s
    · have habout := (about_of_decodes hdec).mpr hsid
      subst hsid
      have hinputs : x.inputs u.subscriberId (.onRemoteMsg m) = [.deliver m] :=
        if_pos ⟨habout, hroom⟩
      rw [hinputs, exec_singleton]
      simp only [BoxState.step, hdec]
      dsimp only [Node.view, Node.step]
      rw [workingRecord_of_some hspec.core_same, hclaimed, haccepted, List.append_nil,
        List.filter_append, List.filter_eq_self (l := [m]).mpr (by simpa using habout)]
      rfl
    · have hother := mt (about_of_decodes hdec).mp hsid
      have hinputs : x.inputs s (.onRemoteMsg m) = [] := if_neg fun hm => hother hm.1
      have hworking : (x.adapter.step (.onRemoteMsg m)).workingRecord s =
          x.adapter.workingRecord s := by
        rw [hspec.working_core, Function.update_of_ne (Ne.symm hsid)]
      rw [hinputs, exec_nil]
      dsimp only [Node.view, Node.step]
      rw [hworking, hclaimed, haccepted, List.append_nil, List.filter_append,
        List.filter_eq_nil_iff (l := [m]).mpr (by simpa using hother), List.append_nil]

omit hb in
theorem view_peerDown (b : Box) (s : UInt64) :
    (x.step (.onPeerDown b.other.id)).view s =
      exec (BoxState.step b) (x.view s) (x.inputs s (.onPeerDown b.other.id)) := by
  have hspec : StepSpec x.adapter (x.adapter.step (.onPeerDown b.other.id)) (.sweep b.other.id) :=
    step_spec h (.onPeerDown b.other.id)
  change _ = (x.view s).step b .peerDown
  dsimp only [Node.view, Node.step, BoxState.step]
  rw [hspec.working_sweep]
  simp [claimedBy, acceptedBy, effect]

/-- For every subscriber a call is what it is to that one record. -/
theorem view_step (hdown : ∀ p, call = .onPeerDown p → p = b.other.id) (s : UInt64) :
    (x.step call).view s = exec (BoxState.step b) (x.view s) (x.inputs s call) := by
  cases call with
  | onPacket t now => exact view_packet h hb s t now
  | onRemoteMsg m => exact view_message h b s m
  | onPeerDown p =>
      obtain rfl := hdown p rfl
      exact view_peerDown h b s
  | flushOutbound => exact view_quiet h rfl rfl s
  | onAgingTick now => exact view_quiet h rfl rfl s
  | pushEvent evt => exact view_quiet h rfl rfl s
  | popEvent => exact view_quiet h rfl rfl s
  | getMetrics => exact view_quiet h rfl rfl s

end View

/-! ### Both boxes -/

@[simp] theorem Cluster.step_self (c : Cluster) (b : Box) (call : AdapterCall) :
    c.step (b, call) b = (c b).step call := Function.update_self ..

@[simp] theorem Cluster.step_other (c : Cluster) (b : Box) (call : AdapterCall) :
    c.step (b, call) b.other = c b.other := Function.update_of_ne b.other_ne ..

/-- What holds of all records together; the rest is said of each subscriber's view. -/
structure ClusterInv (cfg : Box → OwnAdapterCfg) (c : Cluster) : Prop where
  grounded : ∀ b, Grounded (cfg b) (c b).adapter
  queued : ∀ b, ∀ f ∈ (c b).queued, f ∈ (c b).claimed
  taken : ∀ b, ∀ f ∈ (c b).taken, f ∈ (c b.other).queued

namespace ClusterInv

variable {cfg : Box → OwnAdapterCfg} {input : Box × AdapterCall}

theorem start (cfg : Box → OwnAdapterCfg) : ClusterInv cfg (Cluster.start cfg) where
  grounded b := .create (cfg b)
  queued b f hf := by cases hf
  taken b f hf := by cases hf

variable (hbox : ∀ b, (cfg b).localBoxId = b.id) (hi : ClusterInv cfg c)
include hbox hi

theorem localBoxId (b : Box) : (c b).adapter.cfg.localBoxId = b.id :=
  (congrArg OwnAdapterCfg.localBoxId (hi.grounded b).config).trans (hbox b)

theorem boxId (b : Box) : BoxId (c b).adapter.cfg.localBoxId :=
  hi.localBoxId hbox b ▸ b.isBoxId

omit hbox in
/-- An accepted message is a frame of the other box. -/
theorem accepted (hnet : c.Network (b, call)) (hf : f ∈ (c b).adapter.acceptedBy call) :
    f ∈ (c b.other).queued := by
  obtain ⟨u, rfl, hdec, _⟩ := acceptedBy_core (hi.grounded b).sound hf
  rcases hnet with hf | hnone
  · exact hf
  · cases hnone.symm.trans hdec

theorem step (hnet : c.Network input) : ClusterInv cfg (c.step input) := by
  obtain ⟨b, call⟩ := input
  constructor
  · intro d
    obtain rfl | rfl := b.eq_or_eq_other d
    · rw [Cluster.step_self]
      exact (hi.grounded d).step call
    · rw [Cluster.step_other]
      exact hi.grounded b.other
  · intro d f hf
    obtain rfl | rfl := b.eq_or_eq_other d
    · rw [Cluster.step_self] at hf ⊢
      rcases List.mem_append.mp hf with hf | hf
      · exact List.mem_append_left _ (hi.queued d f hf)
      · exact List.mem_append_right _
          (queuedBy_claimed (hi.grounded d).sound (hi.boxId hbox d) hf)
    · rw [Cluster.step_other] at hf ⊢
      exact hi.queued b.other f hf
  · intro d f hf
    obtain rfl | rfl := b.eq_or_eq_other d
    · rw [Cluster.step_self] at hf
      rw [Cluster.step_other]
      rcases List.mem_append.mp hf with hf | hf
      · exact hi.taken d f hf
      · exact hi.accepted hnet hf
    · rw [Cluster.step_other] at hf
      rw [Box.other_other, Cluster.step_self]
      have hf := hi.taken b.other f hf
      rw [Box.other_other] at hf
      exact List.mem_append_left _ hf

end ClusterInv

/-- Inputs of one box leave the other as it is. -/
theorem exec_one_box (p : PairState) (b : Box) (inputs : List BoxInput) :
    exec PairState.step p (inputs.map (Prod.mk b)) =
      Function.update p b (exec (BoxState.step b) (p b) inputs) := by
  induction inputs generalizing p with
  | nil => exact (Function.update_eq_self b p).symm
  | cons input inputs ih =>
      rw [List.map_cons, exec_cons, ih, PairState.step, Function.update_self,
        Function.update_idem, exec_cons]

theorem Cluster.view_update (c : Cluster) (b : Box) (y : Node) (s : UInt64) :
    Cluster.view s (Function.update c b y) = Function.update (c.view s) b (y.view s) := by
  funext d
  by_cases hd : d = b
  · subst hd
    rw [Cluster.view, Function.update_self, Function.update_self]
  · rw [Cluster.view, Function.update_of_ne hd, Function.update_of_ne hd]
    rfl

section Refinement

variable {cfg : Box → OwnAdapterCfg} (hbox : ∀ b, (cfg b).localBoxId = b.id)
include hbox

omit hbox in
/-- The inputs a call stands for are ones the pair allows. -/
theorem inputs_allowed (hi : ClusterInv cfg c) (hallowed : c.Allowed (b, call)) (s : UInt64) :
    Each PairState.step PairState.Allowed (c.view s) (c.inputs s (b, call)) := by
  obtain ⟨hnet, hwrap⟩ := hallowed
  unfold Cluster.inputs
  cases call with
  | onPacket t now =>
      dsimp only [Node.inputs]
      split_ifs with hreach
      · obtain ⟨rfl, hmode, _⟩ := hreach
        exact ⟨⟨working_generation hwrap hmode, nofun⟩, trivial⟩
      · trivial
  | onRemoteMsg m =>
      dsimp only [Node.inputs]
      split_ifs with hm
      · refine ⟨⟨trivial, ?_⟩, trivial⟩
        rintro f hf
        cases hf
        rcases hnet with hqueued | hnone
        · exact List.mem_filter.mpr ⟨hi.queued b.other m hqueued, hm.1⟩
        · exact absurd hm.1 (about_undecodable hnone)
      · trivial
  | onPeerDown p => exact ⟨⟨trivial, nofun⟩, trivial⟩
  | flushOutbound => trivial
  | onAgingTick now => trivial
  | pushEvent evt => trivial
  | popEvent => trivial
  | getMetrics => trivial

/-- For every subscriber the two adapters are simulated by two boxes with one record each. -/
theorem cluster_simulates (s : UInt64) :
    Simulates Cluster.step Cluster.Allowed (ClusterInv cfg) PairState.step PairState.Allowed
      (Cluster.view s) (Cluster.inputs s) where
  inv c input hi hallowed := hi.step hbox hallowed.1
  commutes c input hi hallowed := by
    obtain ⟨b, call⟩ := input
    have hdown : ∀ p, call = .onPeerDown p → p = b.other.id := by
      rintro p rfl
      exact hallowed.1
    rw [Cluster.inputs, exec_one_box, Cluster.step, Cluster.view_update]
    dsimp only
    rw [view_step (hi.grounded b).sound (hi.localBoxId hbox b) hdown s]
    rfl
  allowed c input hi hallowed := by
    obtain ⟨b, call⟩ := input
    exact inputs_allowed hi hallowed s

omit hbox in
theorem start_view (cfg : Box → OwnAdapterCfg) (s : UInt64) :
    (Cluster.start cfg).view s = fun _ => ⟨freshRecord s, [], []⟩ := by
  funext b
  exact congrArg (BoxState.mk · [] []) (create_workingRecord (cfg b) s)

end Refinement

end Subown
