import Mathlib.Order.Bounds.Basic
import Mathlib.Order.MinMax

/-! Cells that a message overwrites exactly when its rank is strictly greater. The rank
of the cell is then a join, and the cell after any list of messages depends only on which
messages occurred. -/
namespace StrictBest

variable {α υ κ : Type*} [LinearOrder κ] (rank : α → κ) (bid : υ → κ) (write : α → υ → α)

/-- Overwrite the cell when the message ranks strictly higher. -/
def take (a : α) (u : υ) : α := if rank a < bid u then write a u else a

def takeAll (a : α) (us : List υ) : α := us.foldl (take rank bid write) a

/-- The ranks in play: that of the cell and those of the messages. -/
def ranks (a : α) (us : List υ) : Set κ := {k | k = rank a ∨ ∃ u ∈ us, k = bid u}

variable {rank bid write}

theorem take_of_lt {a : α} {u : υ} (h : rank a < bid u) :
    take rank bid write a u = write a u := if_pos h

theorem take_of_le {a : α} {u : υ} (h : bid u ≤ rank a) :
    take rank bid write a u = a := if_neg (not_lt.mpr h)

/-- Messages that do not beat the cell leave it alone. -/
theorem takeAll_absorb {a : α} {us : List υ} (h : ∀ u ∈ us, bid u ≤ rank a) :
    takeAll rank bid write a us = a := by
  induction us with
  | nil => rfl
  | cons u us ih =>
      have hu : take rank bid write a u = a := take_of_le (h u List.mem_cons_self)
      change takeAll rank bid write (take rank bid write a u) us = a
      rw [hu]
      exact ih fun v hv => h v (List.mem_cons_of_mem u hv)

section Ranked

variable (hrank : ∀ a u, rank (write a u) = bid u)
include hrank

theorem rank_take (a : α) (u : υ) :
    rank (take rank bid write a u) = max (rank a) (bid u) := by
  by_cases h : rank a < bid u
  · rw [take_of_lt h, hrank, max_eq_right h.le]
  · rw [take_of_le (not_lt.mp h), max_eq_left (not_lt.mp h)]

theorem rank_le_takeAll (a : α) (us : List υ) :
    rank a ≤ rank (takeAll rank bid write a us) := by
  induction us generalizing a with
  | nil => exact le_rfl
  | cons u us ih =>
      have hu : rank a ≤ rank (take rank bid write a u) := by
        rw [rank_take hrank]
        exact le_max_left _ _
      exact hu.trans (ih _)

theorem bid_le_takeAll (a : α) {us : List υ} {u : υ} (h : u ∈ us) :
    bid u ≤ rank (takeAll rank bid write a us) := by
  induction us generalizing a with
  | nil => cases h
  | cons v us ih =>
      rcases List.mem_cons.mp h with rfl | h
      · have hu : bid u ≤ rank (take rank bid write a u) := by
          rw [rank_take hrank]
          exact le_max_right _ _
        exact hu.trans (rank_le_takeAll hrank _ us)
      · exact ih _ h

theorem rank_takeAll_mem (a : α) (us : List υ) :
    rank (takeAll rank bid write a us) ∈ ranks rank bid a us := by
  induction us generalizing a with
  | nil => exact Or.inl rfl
  | cons u us ih =>
      rcases ih (take rank bid write a u) with h | ⟨v, hv, h⟩
      · rw [rank_take hrank] at h
        rcases max_choice (rank a) (bid u) with hm | hm
        · exact Or.inl (h.trans hm)
        · exact Or.inr ⟨u, List.mem_cons_self, h.trans hm⟩
      · exact Or.inr ⟨v, List.mem_cons_of_mem u hv, h⟩

/-- The final rank is the best one in play. -/
theorem isGreatest_takeAll (a : α) (us : List υ) :
    IsGreatest (ranks rank bid a us) (rank (takeAll rank bid write a us)) := by
  refine ⟨rank_takeAll_mem hrank a us, ?_⟩
  rintro k (rfl | ⟨u, hu, rfl⟩)
  · exact rank_le_takeAll hrank a us
  · exact bid_le_takeAll hrank a hu

omit hrank [LinearOrder κ] in
theorem ranks_congr (a : α) {us vs : List υ} (h : ∀ u, u ∈ us ↔ u ∈ vs) :
    ranks rank bid a us = ranks rank bid a vs := by
  ext k
  simp only [ranks, Set.mem_ofPred_eq, h]

/-- Order and repetition of the messages do not matter for the rank. -/
theorem rank_takeAll_congr (a : α) {us vs : List υ} (h : ∀ u, u ∈ us ↔ u ∈ vs) :
    rank (takeAll rank bid write a us) = rank (takeAll rank bid write a vs) := by
  have hs := isGreatest_takeAll hrank a us
  rw [ranks_congr a h] at hs
  exact hs.unique (isGreatest_takeAll hrank a vs)

/-- A second pass over messages already taken changes nothing. -/
theorem takeAll_again (a : α) (us : List υ) :
    takeAll rank bid write (takeAll rank bid write a us) us = takeAll rank bid write a us :=
  takeAll_absorb fun _ hu => bid_le_takeAll hrank a hu

variable (hover : ∀ a u v, write (write a u) v = write a v)
include hover

/-- The cell is untouched or holds exactly one message, one of the final rank. -/
theorem takeAll_cases (a : α) (us : List υ) :
    takeAll rank bid write a us = a ∨
      ∃ u ∈ us, takeAll rank bid write a us = write a u ∧ rank a < bid u := by
  induction us generalizing a with
  | nil => exact Or.inl rfl
  | cons u us ih =>
      by_cases hlt : rank a < bid u
      · have htake : take rank bid write a u = write a u := take_of_lt hlt
        rcases ih (write a u) with h | ⟨v, hv, h, hv_lt⟩
        · refine Or.inr ⟨u, List.mem_cons_self, ?_, hlt⟩
          simpa only [takeAll, List.foldl_cons, htake] using h
        · refine Or.inr ⟨v, List.mem_cons_of_mem u hv, ?_, ?_⟩
          · simpa only [takeAll, List.foldl_cons, htake, hover] using h
          · rw [hrank] at hv_lt
            exact hlt.trans hv_lt
      · have htake : take rank bid write a u = a := take_of_le (not_lt.mp hlt)
        rcases ih a with h | ⟨v, hv, h, hv_lt⟩
        · refine Or.inl ?_
          simpa only [takeAll, List.foldl_cons, htake] using h
        · refine Or.inr ⟨v, List.mem_cons_of_mem u hv, ?_, hv_lt⟩
          simpa only [takeAll, List.foldl_cons, htake] using h

/-- When messages of equal rank write the same content, the whole cell depends only on
which messages occurred. -/
theorem takeAll_congr (a : α) {us vs : List υ} (h : ∀ u, u ∈ us ↔ u ∈ vs)
    (hsame : ∀ u ∈ us, ∀ v ∈ us, bid u = bid v → write a u = write a v) :
    takeAll rank bid write a us = takeAll rank bid write a vs := by
  have hr := rank_takeAll_congr hrank a h
  rcases takeAll_cases hrank hover a us with hu | ⟨u, hmu, hu, hlu⟩ <;>
    rcases takeAll_cases hrank hover a vs with hv | ⟨v, hmv, hv, hlv⟩
  · rw [hu, hv]
  · rw [hu, hv, hrank] at hr
    exact absurd hr hlv.ne
  · rw [hu, hv, hrank] at hr
    exact absurd hr.symm hlu.ne
  · rw [hu, hv, hrank, hrank] at hr
    rw [hu, hv]
    exact hsame u hmu v ((h v).mpr hmv) hr

end Ranked

end StrictBest
