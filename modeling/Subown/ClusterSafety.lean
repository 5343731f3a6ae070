import Subown.ClusterInvariant
import Subown.RestartFencing

/-! What no run of the two adapters ever does, whatever the network loses, duplicates and
reorders. -/
namespace Subown

open OwnershipAdapter RunRules

variable {cfg : Box → OwnAdapterCfg}

/-- Two enforcing boxes. -/
def pairCfg : Box → OwnAdapterCfg := fun b => ⟨.modeEnforce, b.id, 3⟩

/-- Both boxes claim subscriber 7 before they hear of each other. -/
def raceInputs : List (Box × AdapterCall) :=
  [(.box0, .onPacket 7 5), (.box1, .onPacket 7 6), (.box1, .onRemoteMsg (firstClaim .box0 5)),
    (.box0, .onRemoteMsg (firstClaim .box1 6))]

theorem race_allowed : Each Cluster.step Cluster.Allowed (Cluster.start pairCfg) raceInputs :=
  (ShortInv.run (fun _ => rfl) (by decide) (by decide +kernel)).1

/-- For every subscriber, a run of the two adapters is a run of two boxes with one record
each, over the calls that concern it. -/
theorem cluster_refines_pair (hbox : ∀ b, (cfg b).localBoxId = b.id)
    {inputs : List (Box × AdapterCall)}
    (hallowed : Each Cluster.step Cluster.Allowed (Cluster.start cfg) inputs) (s : UInt64) :
    let matched := observed Cluster.step (Cluster.inputs s) (Cluster.start cfg) inputs
    let alone : PairState := fun _ => ⟨freshRecord s, [], []⟩
    Each PairState.step PairState.Allowed alone matched ∧
      (exec Cluster.step (Cluster.start cfg) inputs).view s =
        exec PairState.step alone matched := by
  obtain ⟨hview, heach⟩ := (cluster_simulates hbox s).run (ClusterInv.start cfg) hallowed
  rw [start_view] at hview heach
  exact ⟨heach, hview⟩

theorem cluster_refines_pair_race :
    let matched := observed Cluster.step (Cluster.inputs 7) (Cluster.start pairCfg) raceInputs
    let alone : PairState := fun _ => ⟨freshRecord 7, [], []⟩
    Each PairState.step PairState.Allowed alone matched ∧
      (exec Cluster.step (Cluster.start pairCfg) raceInputs).view 7 =
        exec PairState.step alone matched :=
  cluster_refines_pair (fun _ => rfl) race_allowed 7

/-- No packet bounces: in no state reached do both boxes redirect one subscriber. -/
theorem no_forwarding_loop (hbox : ∀ b, (cfg b).localBoxId = b.id)
    {inputs : List (Box × AdapterCall)}
    (hallowed : Each Cluster.step Cluster.Allowed (Cluster.start cfg) inputs) :
    Always Cluster.step
      (fun c => ∀ s (now : Box → UInt64), ¬ ∀ b, Redirects (c.reply b s (now b)).out.action)
      (Cluster.start cfg) inputs := by
  refine always_of_inv (fun c hi s now hboth => ?_) (fun _ _ hi h => hi.step hbox h)
    (Reached.start cfg) hallowed
  exact (hi.pair s).no_cross fun b => hi.redirects hbox (hboth b)

theorem no_forwarding_loop_race :
    Always Cluster.step
      (fun c => ∀ s (now : Box → UInt64), ¬ ∀ b, Redirects (c.reply b s (now b)).out.action)
      (Cluster.start pairCfg) raceInputs :=
  no_forwarding_loop (fun _ => rfl) race_allowed

/-- A box that accepted a claim above all its own does not own the subscriber. -/
theorem superseded_owner_yields (hbox : ∀ b, (cfg b).localBoxId = b.id)
    {inputs : List (Box × AdapterCall)}
    (hallowed : Each Cluster.step Cluster.Allowed (Cluster.start cfg) inputs) :
    Always Cluster.step
      (fun c => ∀ b, ∀ f ∈ (c b).taken, ∀ u, decodeUpdateV1 f = some u →
        (∀ g ∈ (c b).claimed, ∀ v, decodeUpdateV1 g = some v →
          v.subscriberId = u.subscriberId → v.stamp < u.stamp) →
        (c.record b u.subscriberId).ownerBox ≠ b.id)
      (Cluster.start cfg) inputs := by
  refine always_of_inv (fun c hi b f hf u hdec habove => ?_) (fun _ _ hi h => hi.step hbox h)
    (Reached.start cfg) hallowed
  have hheard : u ∈ ((c.view u.subscriberId) b).heard :=
    List.mem_filterMap.mpr ⟨f, List.mem_filter.mpr ⟨hf, (about_of_decodes hdec).mpr rfl⟩, hdec⟩
  refine (hi.pair u.subscriberId).yields b hheard fun v hv => ?_
  obtain ⟨g, hg, hv, hsid⟩ := Reached.mem_claims.mp hv
  exact habove g hg v hv hsid

theorem superseded_owner_yields_race :
    Always Cluster.step
      (fun c => ∀ b, ∀ f ∈ (c b).taken, ∀ u, decodeUpdateV1 f = some u →
        (∀ g ∈ (c b).claimed, ∀ v, decodeUpdateV1 g = some v →
          v.subscriberId = u.subscriberId → v.stamp < u.stamp) →
        (c.record b u.subscriberId).ownerBox ≠ b.id)
      (Cluster.start pairCfg) raceInputs :=
  superseded_owner_yields (fun _ => rfl) race_allowed

/-- A record that names the other box was announced by it and accepted here. -/
theorem remote_owner_announced (hbox : ∀ b, (cfg b).localBoxId = b.id)
    {inputs : List (Box × AdapterCall)}
    (hallowed : Each Cluster.step Cluster.Allowed (Cluster.start cfg) inputs) :
    Always Cluster.step
      (fun c => ∀ b s, (c.record b s).ownerBox = b.other.id →
        ∃ f u, f ∈ (c b.other).queued ∧ f ∈ (c b).taken ∧ decodeUpdateV1 f = some u ∧
          u.subscriberId = s ∧ u.ownership = (c.record b s).ownership)
      (Cluster.start cfg) inputs := by
  refine always_of_inv (fun c hi b s howner => ?_) (fun _ _ hi h => hi.step hbox h)
    (Reached.start cfg) hallowed
  have howned : (c.record b s).ownerBox ≠ unownedState := by
    rw [howner]
    exact box_ne_unowned b.other
  obtain ⟨d, u, hd, _, hheard, hown⟩ := (hi.pair s).owner_source (b := b) howned
  obtain rfl := Box.id_inj (hd.symm.trans howner)
  obtain ⟨f, hf, hdec⟩ := List.mem_filterMap.mp (hheard b.other_ne)
  obtain ⟨hf, habout⟩ := List.mem_filter.mp hf
  exact ⟨f, u, hi.taken b f hf, hf, hdec, (about_of_decodes hdec).mp habout, hown⟩

theorem remote_owner_announced_race :
    Always Cluster.step
      (fun c => ∀ b s, (c.record b s).ownerBox = b.other.id →
        ∃ f u, f ∈ (c b.other).queued ∧ f ∈ (c b).taken ∧ decodeUpdateV1 f = some u ∧
          u.subscriberId = s ∧ u.ownership = (c.record b s).ownership)
      (Cluster.start pairCfg) raceInputs :=
  remote_owner_announced (fun _ => rfl) race_allowed

/-- Runs of fewer than `2 ^ 32` inputs never wrap a generation, so the network's conditions
are all they need; and no record has a generation above the number of inputs. -/
theorem short_runs_never_wrap (hbox : ∀ b, (cfg b).localBoxId = b.id)
    {inputs : List (Box × AdapterCall)} (hlength : inputs.length ≤ 0xFFFFFFFF)
    (hnet : Each Cluster.step Cluster.Network (Cluster.start cfg) inputs) :
    Each Cluster.step Cluster.Allowed (Cluster.start cfg) inputs ∧
      ∀ b s, ((exec Cluster.step (Cluster.start cfg) inputs).record b s).ownerEpoch = 1 ∧
        ((exec Cluster.step (Cluster.start cfg) inputs).record b s).generation.toNat ≤
          inputs.length := by
  obtain ⟨hallowed, hend⟩ := ShortInv.run hbox hlength hnet
  exact ⟨hallowed, fun b s => (hend.bounded s).records b⟩

theorem short_runs_never_wrap_race :
    Each Cluster.step Cluster.Allowed (Cluster.start pairCfg) raceInputs ∧
      ∀ b s, ((exec Cluster.step (Cluster.start pairCfg) raceInputs).record b s).ownerEpoch = 1 ∧
        ((exec Cluster.step (Cluster.start pairCfg) raceInputs).record b s).generation.toNat ≤
          raceInputs.length :=
  short_runs_never_wrap (fun _ => rfl) (by decide) (by decide +kernel)

end Subown
