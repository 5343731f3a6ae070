import Subown.AdapterStep

/-! The adapter as a family of independent machines, one for each subscriber: as long as
the table has a slot for everyone, hashing and probing are invisible. -/
namespace Subown

open OwnershipAdapter RunRules

/-- The subscribers a call names; an undecodable frame names nobody. -/
def AdapterCall.mentions : AdapterCall → List UInt64
  | .onPacket s _ => [s]
  | .onRemoteMsg m => (decodeUpdateV1 m).toList.map SubownUpdate.subscriberId
  | _ => []

/-- The core calls an adapter call makes about `s`. -/
def OwnershipAdapter.coreCalls (s : UInt64) (a : OwnershipAdapter) : AdapterCall → List CoreCall
  | .onPacket t now => if t = s then [.packet now a.emitStatus] else []
  | .onRemoteMsg m =>
      ((decodeUpdateV1 m).toList.filter fun u => u.subscriberId = s).map .remote
  | .onPeerDown p => [.release p]
  | _ => []

/-- The machine of one subscriber. -/
def machine (cfg : OwnAdapterCfg) (record : SubownRecord) (calls : List CoreCall) : SubownRecord :=
  calls.foldl (CoreCall.apply cfg) record

variable {a a' : OwnershipAdapter} {s t : UInt64} {cfg : OwnAdapterCfg}

/-! ### One step -/

/-- What a step does to the record of one subscriber, present or not. -/
structure Advances (cfg : OwnAdapterCfg) (s : UInt64) (a a' : OwnershipAdapter)
    (calls : List CoreCall) (mentions : List UInt64) : Prop where
  working : a'.workingRecord s = machine cfg (a.workingRecord s) calls
  appears : a'.recordOf s = none ↔ a.recordOf s = none ∧ s ∉ mentions

theorem Advances.same (h : a'.recordOf = a.recordOf) : Advances cfg s a a' [] [] := by
  constructor
  · simp only [workingRecord, h]
    rfl
  · simp [h]

theorem step_advances (h : a.Sound) (hmode : a.cfg.mode ≠ .modeDisabled) (call : AdapterCall)
    (hroom : ∀ t ∈ call.mentions, a.Room t) (s : UInt64) :
    Advances a.cfg s a (a.step call) (a.coreCalls s call) call.mentions := by
  have hspec := step_spec h call
  cases call with
  | onPacket t now =>
      rw [effect_onPacket hmode (hroom t List.mem_cons_self)] at hspec
      by_cases hst : s = t
      · subst hst
        have hrec := hspec.core_same
        constructor
        · rw [workingRecord_of_some hrec, coreCalls, if_pos rfl]
          rfl
        · simp [hrec, AdapterCall.mentions]
      · have hrec := hspec.core_other hst
        constructor
        · rw [coreCalls, if_neg (Ne.symm hst)]
          simp only [workingRecord, hrec]
          rfl
        · simp [hrec, AdapterCall.mentions, hst]
  | onRemoteMsg m =>
      cases hdec : decodeUpdateV1 m with
      | none =>
          rw [effect_undecodable hdec] at hspec
          simp only [coreCalls, AdapterCall.mentions, hdec]
          exact Advances.same hspec.records
      | some u =>
          have hu : a.Room u.subscriberId := hroom _ (by simp [AdapterCall.mentions, hdec])
          rw [effect_remote hdec hu] at hspec
          simp only [coreCalls, AdapterCall.mentions, hdec, Option.toList_some, List.map_cons,
            List.map_nil]
          by_cases hst : s = u.subscriberId
          · subst hst
            have hrec := hspec.core_same
            constructor
            · rw [workingRecord_of_some hrec]
              simp [machine]
            · simp [hrec]
          · have hrec := hspec.core_other hst
            constructor
            · simp [workingRecord, hrec, machine, Ne.symm hst]
            · simp [hrec, hst]
  | flushOutbound => exact Advances.same hspec.records
  | onPeerDown p =>
      constructor
      · simp only [workingRecord, hspec.records, effect, Effect.on, coreCalls]
        cases a.recordOf s with
        | none => exact (peerDownRecord_fresh p s).symm
        | some r => rfl
      · rw [hspec.records]
        simp [effect, Effect.on, AdapterCall.mentions]
  | onAgingTick now => exact Advances.same hspec.records
  | pushEvent evt => exact Advances.same hspec.records
  | popEvent => exact Advances.same hspec.records
  | getMetrics => exact Advances.same hspec.records

/-! ### Runs -/

/-- The states of runs that mention few enough subscribers. -/
structure Uncrowded (ids : Finset UInt64) (cfg : OwnAdapterCfg) (a : OwnershipAdapter) : Prop
    extends Grounded cfg a where
  among : ∀ s r, a.recordOf s = some r → s ∈ ids

variable {ids : Finset UInt64}

theorem Uncrowded.create (ids : Finset UInt64) (cfg : OwnAdapterCfg) :
    Uncrowded ids cfg (OwnershipAdapter.create cfg) where
  toGrounded := .create cfg
  among s r hr := by
    rw [create_recordOf] at hr
    cases hr

theorem Uncrowded.room (h : Uncrowded ids cfg a) (hcard : ids.card ≤ ownRecordCap)
    {call : AdapterCall} (hcall : ∀ t ∈ call.mentions, t ∈ ids) :
    ∀ t ∈ call.mentions, a.Room t :=
  fun t ht => room_of_card h.sound hcard h.among (hcall t ht)

theorem Uncrowded.step (h : Uncrowded ids cfg a) (hmode : cfg.mode ≠ .modeDisabled)
    (hcard : ids.card ≤ ownRecordCap) {call : AdapterCall} (hcall : ∀ t ∈ call.mentions, t ∈ ids) :
    Uncrowded ids cfg (a.step call) := by
  refine ⟨h.toGrounded.step call, ?_⟩
  intro s r hr
  have hadv := step_advances h.sound (h.mode hmode) call (h.room hcard hcall) s
  by_cases hs : s ∈ call.mentions
  · exact hcall s hs
  · cases hold : a.recordOf s with
    | none =>
        rw [hadv.appears.mpr ⟨hold, hs⟩] at hr
        cases hr
    | some r' => exact h.among s r' hold

/-- A run advances every machine by the core calls about its subscriber, in order. -/
theorem run_advances (hmode : cfg.mode ≠ .modeDisabled) (hcard : ids.card ≤ ownRecordCap)
    (h : Uncrowded ids cfg a) (calls : List AdapterCall)
    (hids : ∀ call ∈ calls, ∀ t ∈ call.mentions, t ∈ ids) (s : UInt64) :
    Advances cfg s a (a.run calls) (observed OwnershipAdapter.step (coreCalls s) a calls)
      (calls.flatMap AdapterCall.mentions) := by
  induction calls generalizing a with
  | nil => exact Advances.same rfl
  | cons call calls ih =>
      have hcall := hids call List.mem_cons_self
      have hfirst := step_advances h.sound (h.mode hmode) call (h.room hcard hcall) s
      have hrest := ih (h.step hmode hcard hcall)
        fun c hc => hids c (List.mem_cons_of_mem call hc)
      rw [h.config] at hfirst
      constructor
      · change ((a.step call).run calls).workingRecord s = _
        rw [hrest.working, hfirst.working]
        simp only [machine, observed, List.foldl_append]
      · change ((a.step call).run calls).recordOf s = none ↔ _
        rw [hrest.appears, hfirst.appears, and_assoc, List.flatMap_cons, List.mem_append, not_or]

/-- Subscribers stay where they were stored. -/
theorem run_keeps (h : Grounded cfg a) (calls : List AdapterCall) :
    (a.run calls).Keeps a := by
  induction calls generalizing a with
  | nil => exact fun _ _ => id
  | cons call calls ih =>
      have hfirst := (step_spec h.sound call).keeps
      intro i t hi
      exact ih (h.step call) i t (hfirst i t hi)

/-- The adapter refines a map of independent machines: the record found for a subscriber
that appeared is its own machine's, a subscriber that did not appear has none, no
subscriber has two slots and none ever moves. The box id plays no part: a rejected packet still
creates the record of its subscriber. -/
theorem adapter_refines_machines (hmode : cfg.mode ≠ .modeDisabled) (calls : List AdapterCall)
    (hcard : (calls.flatMap AdapterCall.mentions).toFinset.card ≤ ownRecordCap) (s : UInt64) :
    (s ∈ calls.flatMap AdapterCall.mentions →
      ((create cfg).run calls).recordOf s = some (machine cfg (freshRecord s)
        (observed OwnershipAdapter.step (coreCalls s) (create cfg) calls))) ∧
    (s ∉ calls.flatMap AdapterCall.mentions → ((create cfg).run calls).recordOf s = none) ∧
    (∀ i j, ((create cfg).run calls).keys i = some s → ((create cfg).run calls).keys j = some s →
      i = j) ∧
    (∀ past future i, calls = past ++ future → ((create cfg).run past).slotOf s = some i →
      ((create cfg).run calls).slotOf s = some i) := by
  have hadv := run_advances hmode hcard (Uncrowded.create _ cfg) calls
    (fun c hc t ht => List.mem_toFinset.mpr (List.mem_flatMap.mpr ⟨c, hc, ht⟩)) s
  have hfresh := create_workingRecord cfg s
  have hrun := fun calls => (Grounded.create cfg).run calls
  refine ⟨?_, ?_, ?_, ?_⟩
  · intro hs
    cases hr : ((create cfg).run calls).recordOf s with
    | none => exact absurd hs (hadv.appears.mp hr).2
    | some r => rw [← workingRecord_of_some hr, hadv.working, hfresh]
  · intro hs
    exact hadv.appears.mpr ⟨create_recordOf cfg s, hs⟩
  · intro i j hi hj
    exact (hrun calls).sound.unique hi hj
  · rintro past future i rfl hi
    have hkey := run_keeps (hrun past) future i s
      (keys_eq_some.mpr ((slotOf_eq_some (hrun past).sound).mp hi))
    have happend : (create cfg).run (past ++ future) = ((create cfg).run past).run future :=
      exec_append _ _ _ _
    rw [happend]
    exact (slotOf_eq_some ((hrun past).run future).sound).mpr (keys_eq_some.mp hkey)

/-- Subscribers 7 and 4103 collide; 4103 sees its own packet and the release. -/
theorem adapter_refines_machines_collision :
    ((create ⟨.modeObserve, 0, 3⟩).run
      [.onPacket 7 5, .onPacket 4103 6, .onPeerDown 0, .onPacket 7 7]).recordOf 4103 =
    some (machine ⟨.modeObserve, 0, 3⟩ (freshRecord 4103) [.packet 6 .ok, .release 0]) :=
  (adapter_refines_machines (by decide)
    [.onPacket 7 5, .onPacket 4103 6, .onPeerDown 0, .onPacket 7 7] (by decide) 4103).1 (by decide)

end Subown
