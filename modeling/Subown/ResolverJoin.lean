import Subown.CoreResolver
import Mathlib.Tactic.Tauto

/-! Order and duplication independence of the resolver: over any list of valid updates
it computes a join of keys, and the record follows the winning key. -/
namespace Subown

/-- Apply a list of updates in order. -/
def applyAll (r : SubownRecord) (us : List SubownUpdate) : SubownRecord :=
  us.foldl (fun r u => (applyRemoteUpdate r u).record) r

/-- The keys in play: the record's own and those of the updates. -/
def contenders (r : SubownRecord) (us : List SubownUpdate) : Set ResolverKey :=
  {k | k = r.key ∨ ∃ u ∈ us, k = u.key}

theorem applyAll_eq_takeAll {r : SubownRecord} {us : List SubownUpdate}
    (h : ∀ u ∈ us, ValidFor r u) :
    applyAll r us = StrictBest.takeAll SubownRecord.key SubownUpdate.key adopt r us := by
  induction us generalizing r with
  | nil => rfl
  | cons u us ih =>
      have hu : ValidFor r u := h u List.mem_cons_self
      have hsid : (applyRemoteUpdate r u).record.subscriberId = r.subscriberId := by
        rw [applyRemoteUpdate_record hu]
        unfold StrictBest.take
        split_ifs <;> rfl
      have hus : ∀ v ∈ us, ValidFor (applyRemoteUpdate r u).record v := fun v hv =>
        ⟨(h v (List.mem_cons_of_mem u hv)).1,
          (h v (List.mem_cons_of_mem u hv)).2.trans hsid.symm⟩
      change applyAll (applyRemoteUpdate r u).record us = _
      rw [ih hus, applyRemoteUpdate_record hu]
      rfl

theorem applyAll_subscriberId {r : SubownRecord} {us : List SubownUpdate}
    (h : ∀ u ∈ us, ValidFor r u) : (applyAll r us).subscriberId = r.subscriberId := by
  rw [applyAll_eq_takeAll h]
  rcases StrictBest.takeAll_cases key_adopt adopt_adopt r us with e | ⟨u, _, e, _⟩ <;> rw [e]
  rfl

/-- Updates of equal key, time and policy write the same record. -/
theorem adopt_congr (r : SubownRecord) {u v : SubownUpdate} (hkey : u.key = v.key)
    (hts : u.ts = v.ts) (hpolicy : u.policyMask = v.policyMask) : adopt r u = adopt r v := by
  obtain ⟨he, hg, ho⟩ := resolverKey_inj.mp hkey
  simp only [adopt, he, hg, ho, hts, hpolicy]

/-- The final key is the best contender; it does not depend on the order or the number of
deliveries; a second pass changes nothing; and when equal keys carry equal payloads the
whole record does not depend on the order either. -/
theorem applyAll_join (r : SubownRecord) (us : List SubownUpdate)
    (h : ∀ u ∈ us, ValidFor r u) :
    IsGreatest (contenders r us) (applyAll r us).key ∧
    (∀ vs, (∀ u, u ∈ us ↔ u ∈ vs) → (applyAll r us).key = (applyAll r vs).key) ∧
    applyAll (applyAll r us) us = applyAll r us ∧
    ((∀ u ∈ us, ∀ v ∈ us, u.key = v.key → u.ts = v.ts ∧ u.policyMask = v.policyMask) →
      ∀ vs, (∀ u, u ∈ us ↔ u ∈ vs) → applyAll r us = applyAll r vs) := by
  have hvalid : ∀ {vs : List SubownUpdate}, (∀ u, u ∈ us ↔ u ∈ vs) → ∀ u ∈ vs, ValidFor r u :=
    fun hvs u hu => h u ((hvs u).mpr hu)
  refine ⟨?_, ?_, ?_, ?_⟩
  · rw [applyAll_eq_takeAll h]
    exact StrictBest.isGreatest_takeAll key_adopt r us
  · intro vs hvs
    rw [applyAll_eq_takeAll h, applyAll_eq_takeAll (hvalid hvs)]
    exact StrictBest.rank_takeAll_congr key_adopt r hvs
  · have hagain : ∀ u ∈ us, ValidFor (applyAll r us) u := fun u hu =>
      ⟨(h u hu).1, (h u hu).2.trans (applyAll_subscriberId h).symm⟩
    rw [applyAll_eq_takeAll hagain, applyAll_eq_takeAll h]
    exact StrictBest.takeAll_again key_adopt r us
  · intro hsame vs hvs
    rw [applyAll_eq_takeAll h, applyAll_eq_takeAll (hvalid hvs)]
    refine StrictBest.takeAll_congr key_adopt adopt_adopt r hvs fun u hu v hv hkey => ?_
    exact adopt_congr r hkey (hsame u hu v hv hkey).1 (hsame u hu v hv hkey).2

/-- Three competing updates in two orders, one of them delivered twice. -/
theorem applyAll_join_reordered :
    applyAll (mkRecord 100 1 8) [mkUpdate 100 1 9 10 1, mkUpdate 100 0 9 11 1,
        mkUpdate 100 1 9 10 1, mkUpdate 100 0 7 12 1] =
      applyAll (mkRecord 100 1 8) [mkUpdate 100 0 7 12 1, mkUpdate 100 0 9 11 1,
        mkUpdate 100 1 9 10 1] := by
  refine (applyAll_join (mkRecord 100 1 8) [mkUpdate 100 1 9 10 1, mkUpdate 100 0 9 11 1,
    mkUpdate 100 1 9 10 1, mkUpdate 100 0 7 12 1] (by decide)).2.2.2 (by decide) _ ?_
  intro u
  simp only [List.mem_cons, List.not_mem_nil, or_false]
  tauto

end Subown
