import Mathlib.Data.Fin.Basic
import Mathlib.Tactic.Ring

/-! Indices that wrap at a fixed capacity, and the cyclic distance between two of them. -/
namespace CyclicIndex

variable {n : ℕ}

theorem pos (i : Fin n) : 0 < n := Nat.lt_of_le_of_lt (Nat.zero_le _) i.isLt

/-- The following index. -/
def next (i : Fin n) : Fin n := ⟨(i.val + 1) % n, Nat.mod_lt _ (pos i)⟩

/-- How many times `next` leads from `i` to `j`. -/
def dist (i j : Fin n) : ℕ := (j.val + n - i.val) % n

theorem dist_lt (i j : Fin n) : dist i j < n := Nat.mod_lt _ (pos i)

theorem dist_of_le {i j : Fin n} (h : i.val ≤ j.val) : dist i j = j.val - i.val := by
  have hj := j.isLt
  have e : j.val + n - i.val = j.val - i.val + n := by omega
  rw [dist, e, Nat.add_mod_right, Nat.mod_eq_of_lt (by omega)]

theorem dist_of_lt {i j : Fin n} (h : j.val < i.val) : dist i j = j.val + n - i.val := by
  have hi := i.isLt
  exact Nat.mod_eq_of_lt (by omega)

theorem next_val (i : Fin n) : (next i).val = if i.val + 1 = n then 0 else i.val + 1 := by
  have hi := i.isLt
  change (i.val + 1) % n = _
  split_ifs with h
  · rw [h, Nat.mod_self]
  · exact Nat.mod_eq_of_lt (by omega)

theorem next_ne (h : 1 < n) (i : Fin n) : next i ≠ i := by
  intro e
  have hi := i.isLt
  have hv := next_val i
  rw [e] at hv
  split_ifs at hv <;> omega

/-- Stepping towards a different index brings it one closer. -/
theorem dist_next {i j : Fin n} (h : i ≠ j) : dist (next i) j + 1 = dist i j := by
  have hne : i.val ≠ j.val := fun e => h (Fin.ext e)
  have hi := i.isLt
  have hj := j.isLt
  have hv := next_val i
  split_ifs at hv with hw
  · have hle : (next i).val ≤ j.val := by omega
    rw [dist_of_le hle, dist_of_lt (by omega)]
    omega
  · by_cases hlt : i.val < j.val
    · rw [dist_of_le (by omega), dist_of_le hlt.le]
      omega
    · by_cases hnext : (next i).val ≤ j.val
      · omega
      · rw [dist_of_lt (by omega), dist_of_lt (by omega)]
        omega

/-- The index `k` steps after `i`. -/
def shift (i : Fin n) (k : ℕ) : Fin n := ⟨(i.val + k) % n, Nat.mod_lt _ (pos i)⟩

theorem shift_dist (i j : Fin n) : shift i (dist i j) = j := by
  have hi := i.isLt
  have hj := j.isLt
  apply Fin.ext
  change (i.val + dist i j) % n = j.val
  by_cases h : i.val ≤ j.val
  · rw [dist_of_le h, Nat.add_sub_cancel' h, Nat.mod_eq_of_lt hj]
  · have e : i.val + (j.val + n - i.val) = j.val + n := by omega
    rw [dist_of_lt (by omega), e, Nat.add_mod_right, Nat.mod_eq_of_lt hj]

theorem dist_shift (i : Fin n) {k : ℕ} (hk : k < n) : dist i (shift i k) = k := by
  have hi := i.isLt
  by_cases h : i.val + k < n
  · have hv : (shift i k).val = i.val + k := Nat.mod_eq_of_lt h
    rw [dist_of_le (by omega), hv]
    omega
  · have hv : (shift i k).val = i.val + k - n := by
      change (i.val + k) % n = _
      rw [Nat.mod_eq_sub_mod (by omega), Nat.mod_eq_of_lt (by omega)]
    rw [dist_of_lt (by omega), hv]
    omega

@[simp] theorem shift_zero (i : Fin n) : shift i 0 = i :=
  Fin.ext (Nat.mod_eq_of_lt i.isLt)

theorem shift_next (i : Fin n) (k : ℕ) : shift (next i) k = shift i (k + 1) := by
  apply Fin.ext
  change ((i.val + 1) % n + k) % n = (i.val + (k + 1)) % n
  rw [Nat.mod_add_mod, Nat.add_assoc, Nat.add_comm 1 k]

theorem dist_eq_zero {i j : Fin n} : dist i j = 0 ↔ i = j := by
  constructor
  · intro h
    rw [← shift_dist i j, h, shift_zero]
  · rintro rfl
    rw [dist_of_le le_rfl, Nat.sub_self]

/-- Moving the far index away puts it one further off, unless it wraps onto the near one. -/
theorem dist_next_right {i j : Fin n} (h : next j ≠ i) : dist i (next j) = dist i j + 1 := by
  have hne : (next j).val ≠ i.val := fun e => h (Fin.ext e)
  have hi := i.isLt
  have hj := j.isLt
  have hv := next_val j
  split_ifs at hv with hw
  · rw [dist_of_lt (by omega), dist_of_le (by omega)]
    omega
  · by_cases hle : i.val ≤ j.val
    · rw [dist_of_le (by omega), dist_of_le hle]
      omega
    · rw [dist_of_lt (by omega), dist_of_lt (by omega)]
      omega

/-- The farthest index is the one whose successor is the near one. -/
theorem next_eq_iff {i j : Fin n} : next j = i ↔ dist i j + 1 = n := by
  constructor
  · rintro rfl
    have hj := j.isLt
    have hv := next_val j
    split_ifs at hv with hw
    · rw [dist_of_le (by omega)]
      omega
    · rw [dist_of_lt (by omega)]
      omega
  · intro h
    by_contra hne
    have hlt := dist_lt i (next j)
    rw [dist_next_right hne] at hlt
    omega

theorem shift_ne {i j : Fin n} {k : ℕ} (h : k < dist i j) : shift i k ≠ j := by
  rintro rfl
  rw [dist_shift i (h.trans (dist_lt _ _))] at h
  exact lt_irrefl k h

end CyclicIndex
