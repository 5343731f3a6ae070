import Subown.MapRefinement
import Subown.ResolverJoin

/-! Replicas that got the same frames agree, whatever the order, the repetitions and the
boxes they run on: a table rebuilt from a log of frames is the table that was lost. -/
namespace Subown

open OwnershipAdapter RunRules

variable {a : OwnershipAdapter} {cfg : OwnAdapterCfg} {s : UInt64} {u : SubownUpdate}
  {ids : Finset UInt64} {ms ns : List (List UInt8)}

/-- The updates about `s` among received byte strings. -/
def updatesAbout (s : UInt64) (ms : List (List UInt8)) : List SubownUpdate :=
  ms.flatMap fun m => (decodeUpdateV1 m).toList.filter fun u => u.subscriberId = s

theorem mem_updatesAbout :
    u ∈ updatesAbout s ms ↔ ∃ m ∈ ms, decodeUpdateV1 m = some u ∧ u.subscriberId = s := by
  simp [updatesAbout]

theorem updatesAbout_congr (h : ∀ m, m ∈ ms ↔ m ∈ ns) :
    ∀ u, u ∈ updatesAbout s ms ↔ u ∈ updatesAbout s ns := fun u => by
  simp only [mem_updatesAbout, h]

/-- The machine of `s` sees exactly the updates about `s`. -/
theorem observed_messages (a : OwnershipAdapter) (s : UInt64) (ms : List (List UInt8)) :
    observed OwnershipAdapter.step (coreCalls s) a (ms.map .onRemoteMsg) =
      (updatesAbout s ms).map .remote := by
  induction ms generalizing a with
  | nil => rfl
  | cons m ms ih =>
      have hcons : updatesAbout s ([m] ++ ms) = updatesAbout s [m] ++ updatesAbout s ms :=
        List.flatMap_append
      rw [List.singleton_append] at hcons
      rw [List.map_cons, observed, ih, hcons, List.map_append]
      simp [coreCalls, updatesAbout]

theorem machine_remote (cfg : OwnAdapterCfg) (r : SubownRecord) (us : List SubownUpdate) :
    machine cfg r (us.map .remote) = applyAll r us := List.foldl_map ..

theorem Uncrowded.run (h : Uncrowded ids cfg a) (hmode : cfg.mode ≠ .modeDisabled)
    (hcard : ids.card ≤ ownRecordCap) {calls : List AdapterCall}
    (hids : ∀ call ∈ calls, ∀ t ∈ call.mentions, t ∈ ids) : Uncrowded ids cfg (a.run calls) :=
  exec_inv (P := fun _ call => ∀ t ∈ call.mentions, t ∈ ids)
    (fun _ _ h hcall => h.step hmode hcard hcall) h (.of_mem fun _ => hids)

/-- A batch of frames folds the resolver over the updates about each subscriber. -/
theorem run_messages (hmode : cfg.mode ≠ .modeDisabled) (hcard : ids.card ≤ ownRecordCap)
    (h : Uncrowded ids cfg a)
    (hids : ∀ m ∈ ms, ∀ t ∈ (AdapterCall.onRemoteMsg m).mentions, t ∈ ids) (s : UInt64) :
    (a.run (ms.map .onRemoteMsg)).workingRecord s =
      applyAll (a.workingRecord s) (updatesAbout s ms) ∧
    ((a.run (ms.map .onRemoteMsg)).recordOf s = none ↔
      a.recordOf s = none ∧ updatesAbout s ms = []) := by
  have hadv := run_advances hmode hcard h (ms.map .onRemoteMsg)
    (List.forall_mem_map.mpr hids) s
  refine ⟨?_, ?_⟩
  · rw [hadv.working, observed_messages, machine_remote]
  · rw [hadv.appears]
    refine and_congr_right fun _ => ?_
    rw [List.eq_nil_iff_forall_not_mem]
    simp only [AdapterCall.mentions, mem_updatesAbout, List.mem_flatMap, List.mem_map]
    simp
    tauto

theorem recordOf_eq_of_working {b : OwnershipAdapter}
    (hnone : a.recordOf s = none ↔ b.recordOf s = none)
    (hw : a.workingRecord s = b.workingRecord s) : a.recordOf s = b.recordOf s := by
  cases ha : a.recordOf s with
  | none => exact (hnone.mp ha).symm
  | some r =>
      cases hb : b.recordOf s with
      | none => exact absurd (hnone.mpr hb) (by simp [ha])
      | some r' => rw [← workingRecord_of_some ha, hw, workingRecord_of_some hb]

/-- Two adapters that hold the same records, whatever they went through, and then get the
same frames, in any order and any number of times: they store the same subscribers, the
best claim for each wins at both, and unless two frames carry one claim with different
payloads their records are equal. -/
theorem replicas_agree (c₁ c₂ : OwnAdapterCfg) (h₁ : c₁.mode ≠ .modeDisabled)
    (h₂ : c₂.mode ≠ .modeDisabled) (past₁ past₂ : List AdapterCall)
    (hsame : ((create c₁).run past₁).recordOf = ((create c₂).run past₂).recordOf)
    (ms ns : List (List UInt8)) (hms : ∀ m, m ∈ ms ↔ m ∈ ns)
    (hcard : ((past₁ ++ ms.map AdapterCall.onRemoteMsg).flatMap
      AdapterCall.mentions).toFinset.card ≤ 4096)
    (s : UInt64) :
    let a := (create c₁).run (past₁ ++ ms.map AdapterCall.onRemoteMsg)
    let b := (create c₂).run (past₂ ++ ns.map AdapterCall.onRemoteMsg)
    (a.recordOf s = none ↔ b.recordOf s = none) ∧
    IsGreatest (contenders (((create c₁).run past₁).workingRecord s) (updatesAbout s ms))
      (a.workingRecord s).key ∧
    (b.workingRecord s).key = (a.workingRecord s).key ∧
    ((∀ u ∈ updatesAbout s ms, ∀ v ∈ updatesAbout s ms, u.key = v.key →
      u.ts = v.ts ∧ u.policyMask = v.policyMask) → a.recordOf s = b.recordOf s) := by
  intro a b
  let ids := ((past₁ ++ ms.map AdapterCall.onRemoteMsg).flatMap AdapterCall.mentions).toFinset
  have hpast : ∀ call ∈ past₁, ∀ t ∈ call.mentions, t ∈ ids := fun call hcall t ht =>
    List.mem_toFinset.mpr (List.mem_flatMap.mpr ⟨call, List.mem_append_left _ hcall, ht⟩)
  have hmsg : ∀ m ∈ ms, ∀ t ∈ (AdapterCall.onRemoteMsg m).mentions, t ∈ ids := fun m hm t ht =>
    List.mem_toFinset.mpr (List.mem_flatMap.mpr
      ⟨_, List.mem_append_right _ (List.mem_map_of_mem hm), ht⟩)
  have hfirst : Uncrowded ids c₁ ((create c₁).run past₁) :=
    (Uncrowded.create ids c₁).run h₁ hcard hpast
  have hsecond : Uncrowded ids c₂ ((create c₂).run past₂) :=
    ⟨(Grounded.create c₂).run past₂, fun s r hr => hfirst.among s r (hsame ▸ hr)⟩
  have hworking : ((create c₂).run past₂).workingRecord s =
      ((create c₁).run past₁).workingRecord s := by
    rw [workingRecord, workingRecord, hsame]
  have ha : a = ((create c₁).run past₁).run (ms.map .onRemoteMsg) := exec_append ..
  have hb : b = ((create c₂).run past₂).run (ns.map .onRemoteMsg) := exec_append ..
  obtain ⟨hwa, hna⟩ := run_messages h₁ hcard hfirst hmsg s
  obtain ⟨hwb, hnb⟩ := run_messages h₂ hcard hsecond (fun m hm => hmsg m ((hms m).mpr hm)) s
  rw [← ha] at hwa hna
  rw [← hb] at hwb hnb
  have hvalid : ∀ u ∈ updatesAbout s ms, ValidFor (((create c₁).run past₁).workingRecord s) u := by
    intro u hu
    obtain ⟨m, -, hdec, hsid⟩ := mem_updatesAbout.mp hu
    exact decoded_validFor hdec ((workingRecord_subscriberId hfirst.sound).trans hsid.symm)
  have hsent := updatesAbout_congr (s := s) hms
  have hnil : updatesAbout s ms = [] ↔ updatesAbout s ns = [] := by
    simp only [List.eq_nil_iff_forall_not_mem, hsent]
  have hnone : a.recordOf s = none ↔ b.recordOf s = none := by
    rw [hna, hnb, hsame, hnil]
  rw [hworking] at hwb
  obtain ⟨hbest, hkey, -, hrecord⟩ := applyAll_join _ _ hvalid
  refine ⟨hnone, ?_, ?_, fun hpayload => recordOf_eq_of_working hnone ?_⟩
  · rw [hwa]
    exact hbest
  · rw [hwa, hwb]
    exact (hkey _ hsent).symm
  · rw [hwa, hwb]
    exact hrecord hpayload _ hsent

/-- A restarted box that gets two frames in the other order, one of them twice. -/
theorem replicas_agree_restarted :
    ((create ⟨.modeEnforce, 0, 3⟩).run [.onRemoteMsg (frameBytes (mkUpdate 100 1 9 10 1)),
      .onRemoteMsg (frameBytes (mkUpdate 100 0 9 11 1))]).recordOf 100 =
    ((create ⟨.modeObserve, 1, 8⟩).run [.onRemoteMsg (frameBytes (mkUpdate 100 0 9 11 1)),
      .onRemoteMsg (frameBytes (mkUpdate 100 1 9 10 1)),
      .onRemoteMsg (frameBytes (mkUpdate 100 0 9 11 1))]).recordOf 100 := by
  refine (replicas_agree ⟨.modeEnforce, 0, 3⟩ ⟨.modeObserve, 1, 8⟩ (by decide) (by decide) [] [] ?_
    [frameBytes (mkUpdate 100 1 9 10 1), frameBytes (mkUpdate 100 0 9 11 1)]
    [frameBytes (mkUpdate 100 0 9 11 1), frameBytes (mkUpdate 100 1 9 10 1),
      frameBytes (mkUpdate 100 0 9 11 1)] ?_ ?_ 100).2.2.2 ?_
  · funext s
    exact (create_recordOf _ s).trans (create_recordOf _ s).symm
  · intro m
    simp only [List.mem_cons, List.not_mem_nil, or_false]
    tauto
  · decide
  · decide

end Subown
