import Subown.AdapterStep
import Subown.ClaimOverWire

/-! Runs of one adapter with their history: the frames queued and the messages accepted so
far. What a step adds to the history is read off its effect. -/
namespace Subown

open OwnershipAdapter

structure History where
  adapter : OwnershipAdapter
  queued : List Frame
  accepted : List (List UInt8)

/-- The messages a call accepts: those `on_remote_msg` answers with zero. -/
def OwnershipAdapter.acceptedBy (a : OwnershipAdapter) : AdapterCall → List (List UInt8)
  | .onRemoteMsg msg => if (a.onRemoteMsg msg).1 = 0 then [msg] else []
  | _ => []

namespace History

def start (cfg : OwnAdapterCfg) : History := ⟨OwnershipAdapter.create cfg, [], []⟩

def step (h : History) (call : AdapterCall) : History :=
  ⟨h.adapter.step call, h.queued ++ h.adapter.queuedBy call,
    h.accepted ++ h.adapter.acceptedBy call⟩

/-- The updates accepted or queued so far. -/
def updates (h : History) : List SubownUpdate := (h.accepted ++ h.queued).filterMap decodeUpdateV1

end History

variable {a : OwnershipAdapter} {b : UInt8} {r : SubownRecord} {now : UInt64} {s : UInt64}
  {call : AdapterCall}

/-! ### What a step adds -/

/-- A queued frame announces the claim that the same step made. -/
structure Announces (a : OwnershipAdapter) (call : AdapterCall) (f : Frame) (s now : UInt64) :
    Prop where
  effect : a.effect call = .core s (.packet now .ok)
  unowned : (a.workingRecord s).ownerBox = unownedState
  decodes : decodeUpdateV1 f =
    some (claimUpdate (claimedRecord (a.workingRecord s) a.cfg.localBoxId now))

/-- A packet that finds its record unowned claims it, whether or not the claim is queued. -/
theorem step_claims (h : a.Sound) (hb : BoxId a.cfg.localBoxId) {emitted : SubownStatus}
    (heff : a.effect call = .core s (.packet now emitted))
    (hun : (a.workingRecord s).ownerBox = unownedState) :
    (a.step call).recordOf s = some (claimedRecord (a.workingRecord s) a.cfg.localBoxId now) := by
  have hspec := step_spec h call
  rw [heff] at hspec
  rw [hspec.core_same, CoreCall.apply, (corePacket_unowned hb hun now emitted).1]

theorem queuedBy_announces (h : a.Sound) (hb : BoxId a.cfg.localBoxId) {f : Frame}
    (hf : f ∈ a.queuedBy call) : ∃ s now, Announces a call f s now := by
  rw [queuedBy_eq h] at hf
  cases heff : a.effect call with
  | quiet =>
      rw [heff] at hf
      cases hf
  | sweep p =>
      rw [heff] at hf
      cases hf
  | core s c =>
      rw [heff] at hf
      cases c with
      | remote u => cases hf
      | release p => cases hf
      | packet now emitted =>
          dsimp only at hf
          obtain ⟨_, e⟩ | ⟨_, e⟩ | ⟨howner, hok, e⟩ | ⟨_, _, e⟩ | ⟨_, e⟩ :=
            corePacket_cases hb (a.workingRecord s) now emitted
          · rw [e] at hf
            cases hf
          · rw [e] at hf
            cases hf
          · rw [e] at hf
            subst hok
            obtain rfl := List.mem_singleton.mp hf
            exact ⟨s, now, heff, howner, decodeUpdateV1_claim hb.known _ _⟩
          · rw [e] at hf
            cases hf
          · rw [e] at hf
            cases hf

theorem acceptedBy_core (h : a.Sound) {m : List UInt8} (hm : m ∈ a.acceptedBy call) :
    ∃ u, call = .onRemoteMsg m ∧ decodeUpdateV1 m = some u ∧
      a.effect call = .core u.subscriberId (.remote u) := by
  unfold acceptedBy at hm
  split at hm
  next m' =>
    by_cases hrc : (a.onRemoteMsg m').1 = 0
    · rw [if_pos hrc] at hm
      obtain rfl := List.mem_singleton.mp hm
      obtain ⟨u, hdec, hroom⟩ := (onRemoteMsg_accepts h).mp hrc
      exact ⟨u, rfl, hdec, effect_remote hdec hroom⟩
    · rw [if_neg hrc] at hm
      cases hm
  · cases hm

theorem mem_updates {h : History} {u : SubownUpdate} :
    u ∈ h.updates ↔
      (∃ m ∈ h.accepted, decodeUpdateV1 m = some u) ∨
        ∃ f ∈ h.queued, decodeUpdateV1 f = some u := by
  simp only [History.updates, List.mem_filterMap, List.mem_append, or_and_right, exists_or]

/-- An update new to the history was accepted or claimed in this step, and the record of
its subscriber is the outcome. -/
theorem mem_updates_step {h : History} (hs : h.adapter.Sound)
    (hb : BoxId h.adapter.cfg.localBoxId) {u : SubownUpdate} (hu : u ∈ (h.step call).updates) :
    u ∈ h.updates ∨
      (∃ m, call = .onRemoteMsg m ∧ decodeUpdateV1 m = some u ∧
        h.adapter.effect call = .core u.subscriberId (.remote u)) ∨
      ∃ s now, h.adapter.effect call = .core s (.packet now .ok) ∧
        (h.adapter.workingRecord s).ownerBox = unownedState ∧
        u = claimUpdate
          (claimedRecord (h.adapter.workingRecord s) h.adapter.cfg.localBoxId now) := by
  rcases mem_updates.mp hu with ⟨m, hm, hdec⟩ | ⟨f, hf, hdec⟩
  · rcases List.mem_append.mp hm with hm | hm
    · exact Or.inl (mem_updates.mpr (Or.inl ⟨m, hm, hdec⟩))
    · obtain ⟨v, hcall, hv, heff⟩ := acceptedBy_core hs hm
      obtain rfl : v = u := Option.some.inj (hv.symm.trans hdec)
      exact Or.inr (Or.inl ⟨m, hcall, hdec, heff⟩)
  · rcases List.mem_append.mp hf with hf | hf
    · exact Or.inl (mem_updates.mpr (Or.inr ⟨f, hf, hdec⟩))
    · obtain ⟨s, now, hann⟩ := queuedBy_announces hs hb hf
      exact Or.inr (Or.inr ⟨s, now, hann.effect, hann.unowned,
        (Option.some.inj (hann.decodes.symm.trans hdec)).symm⟩)

end Subown
