import Mathlib.Data.Finset.Card
import Mathlib.Data.List.TakeWhile

/-! Admission in order of arrival: of a stream of keys the first `n` distinct ones are held,
and no key is ever given up. -/
namespace FirstDistinct

variable {κ : Type*} [DecidableEq κ]

/-- A key that arrives while `held` are held. -/
def arrive (n : ℕ) (held : List κ) (k : κ) : List κ :=
  if k ∈ held ∨ held.length = n then held else held ++ [k]

def admitted (n : ℕ) (ks : List κ) : List κ := ks.foldl (arrive n) []

variable {n : ℕ} {ks : List κ} {k : κ}

theorem admitted_snoc (n : ℕ) (ks : List κ) (k : κ) :
    admitted n (ks ++ [k]) = arrive n (admitted n ks) k := by
  rw [admitted, List.foldl_append]
  rfl

/-- What is held arrived, each key is held once, and all are while there is room. -/
structure Held (n : ℕ) (ks held : List κ) : Prop where
  arrived : held ⊆ ks
  nodup : held.Nodup
  bound : held.length ≤ n
  room : held.length < n → ks ⊆ held

theorem Held.arrive {held : List κ} (h : Held n ks held) (k : κ) :
    Held n (ks ++ [k]) (arrive n held k) := by
  unfold FirstDistinct.arrive
  split_ifs with hkeep
  · refine ⟨List.subset_append_of_subset_left _ h.arrived, h.nodup, h.bound, fun hlt => ?_⟩
    refine List.append_subset.mpr ⟨h.room hlt, List.cons_subset.mpr ⟨?_, List.nil_subset held⟩⟩
    exact hkeep.resolve_right hlt.ne
  · obtain ⟨hnew, hroom⟩ := not_or.mp hkeep
    have hlt : held.length < n := lt_of_le_of_ne h.bound hroom
    refine ⟨?_, ?_, ?_, fun _ => ?_⟩
    · exact List.append_subset.mpr ⟨List.subset_append_of_subset_left _ h.arrived,
        List.subset_append_right _ _⟩
    · exact List.nodup_append.mpr ⟨h.nodup, List.nodup_singleton k, by
        rintro a ha b hb rfl
        exact hnew (List.mem_singleton.mp hb ▸ ha)⟩
    · rw [List.length_append]
      exact hlt
    · exact List.append_subset.mpr ⟨List.subset_append_of_subset_left _ (h.room hlt),
        List.subset_append_right _ _⟩

theorem held_admitted (n : ℕ) (ks : List κ) : Held n ks (admitted n ks) := by
  induction ks using List.reverseRecOn with
  | nil => exact ⟨List.Subset.refl _, List.nodup_nil, Nat.zero_le _, fun _ => List.Subset.refl _⟩
  | append_singleton ks k ih =>
      rw [admitted_snoc]
      exact ih.arrive k

/-- There is room left exactly while fewer than `n` distinct keys have arrived. -/
theorem length_lt_iff : (admitted n ks).length < n ↔ ks.toFinset.card < n := by
  have h := held_admitted n ks
  have hle : (admitted n ks).toFinset ⊆ ks.toFinset := fun a ha =>
    List.mem_toFinset.mpr (h.arrived (List.mem_toFinset.mp ha))
  have hcard := List.toFinset_card_of_nodup h.nodup
  constructor
  · intro hlt
    have hge : ks.toFinset ⊆ (admitted n ks).toFinset := fun a ha =>
      List.mem_toFinset.mpr (h.room hlt (List.mem_toFinset.mp ha))
    rwa [hge.antisymm hle, hcard]
  · intro hlt
    rw [← hcard]
    exact (Finset.card_le_card hle).trans_lt hlt

theorem mem_arrive_iff {held : List κ} {k' : κ} :
    k ∈ arrive n held k' ↔ k ∈ held ∨ k = k' ∧ held.length ≠ n := by
  unfold arrive
  split_ifs with hkeep
  · refine ⟨Or.inl, fun h => h.elim id ?_⟩
    rintro ⟨rfl, hne⟩
    exact hkeep.resolve_right hne
  · rw [List.mem_append, List.mem_singleton]
    exact or_congr_right (iff_self_and.mpr fun _ => (not_or.mp hkeep).2)

/-- A key is held exactly when it arrived and fewer than `n` others came before it. -/
theorem mem_admitted_iff :
    k ∈ admitted n ks ↔ k ∈ ks ∧ (ks.takeWhile (· ≠ k)).toFinset.card < n := by
  induction ks using List.reverseRecOn with
  | nil => simp [admitted]
  | append_singleton ks k' ih =>
      have h := held_admitted n ks
      rw [admitted_snoc, mem_arrive_iff]
      by_cases hk : k ∈ ks
      · -- A key that came before is held by now or never: there was no room left for it.
        have hsame : (ks ++ [k']).takeWhile (· ≠ k) = ks.takeWhile (· ≠ k) := by
          rw [List.takeWhile_append, if_neg]
          intro hall
          have := List.mem_takeWhile_imp ((List.takeWhile_prefix _).eq_of_length hall ▸ hk)
          simp at this
        have hnone : (admitted n ks).length ≠ n → k ∈ admitted n ks := fun hne =>
          h.room (lt_of_le_of_ne h.bound hne) hk
        rw [hsame, List.mem_append, or_iff_left_of_imp fun hlate => hnone hlate.2, ih]
        exact and_congr_left' (or_iff_left_of_imp fun _ => hk).symm
      · have hall : ks.takeWhile (· ≠ k) = ks := List.takeWhile_eq_self_iff.mpr fun a ha =>
          decide_eq_true fun e => hk (e ▸ ha)
        have hgrow : (ks ++ [k']).takeWhile (· ≠ k) = ks ++ [k'].takeWhile (· ≠ k) := by
          rw [List.takeWhile_append, if_pos (congrArg List.length hall)]
        have hroom : (admitted n ks).length ≠ n ↔ ks.toFinset.card < n := by
          rw [← length_lt_iff]
          exact h.bound.lt_iff_ne.symm
        have hnew : k ∉ admitted n ks := fun ha => hk (h.arrived ha)
        rw [hgrow, List.mem_append, List.mem_singleton, or_iff_right hnew, or_iff_right hk]
        refine and_congr_right fun e => ?_
        rw [hroom, e]
        simp

end FirstDistinct
