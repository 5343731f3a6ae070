import Mathlib.Data.List.Basic
import Mathlib.Logic.Function.Basic
import Subown.CyclicIndex

/-! Bounded queues in a cyclic array. The elements lie from the head up to the tail; one slot
stays free, so that equal indices mean empty. -/
namespace RingBuffer

open CyclicIndex

variable {n : ℕ} {α : Type*}

/-- The elements from `head` up to `tail`, oldest first. -/
def contents (buf : Fin n → α) (head tail : Fin n) : List α :=
  (List.range (dist head tail)).map fun k => buf (shift head k)

variable {buf : Fin n → α} {head tail : Fin n}

@[simp] theorem length_contents : (contents buf head tail).length = dist head tail := by
  simp [contents]

theorem length_lt : (contents buf head tail).length < n := by
  rw [length_contents]
  exact dist_lt head tail

theorem contents_eq_nil : contents buf head tail = [] ↔ head = tail := by
  rw [← List.length_eq_zero_iff, length_contents, dist_eq_zero]

@[simp] theorem contents_self : contents buf tail tail = [] := contents_eq_nil.mpr rfl

/-- The queue is full when the tail stands right behind the head. -/
theorem next_eq_head : next tail = head ↔ (contents buf head tail).length + 1 = n := by
  rw [length_contents]
  exact next_eq_iff

/-- Writing at the tail appends; the slots in use keep their elements. -/
theorem contents_push (h : next tail ≠ head) (x : α) :
    contents (Function.update buf tail x) head (next tail) = contents buf head tail ++ [x] := by
  have hold : ∀ k ∈ List.range (dist head tail),
      Function.update buf tail x (shift head k) = buf (shift head k) := by
    intro k hk
    exact Function.update_of_ne (shift_ne (List.mem_range.mp hk)) ..
  simp only [contents, dist_next_right h, List.range_succ, List.map_append, List.map_singleton,
    shift_dist, Function.update_self, List.map_congr_left hold]

/-- Moving the head on removes the oldest element. -/
theorem contents_pop (h : head ≠ tail) :
    contents buf head tail = buf head :: contents buf (next head) tail := by
  simp only [contents, ← dist_next h, List.range_succ_eq_map, List.map_cons, List.map_map,
    shift_zero]
  simp [Function.comp_def, shift_next]

/-! ### The queue itself -/

/-- A first-in first-out queue of bounded length. -/
structure Fifo (α : Type*) (cap : ℕ) where
  items : List α
  bound : items.length ≤ cap

namespace Fifo

variable {cap : ℕ}

def empty : Fifo α cap := ⟨[], Nat.zero_le cap⟩

def Full (q : Fifo α cap) : Prop := q.items.length = cap

instance (q : Fifo α cap) : Decidable q.Full := inferInstanceAs (Decidable (_ = _))

def push (q : Fifo α cap) (h : ¬ q.Full) (x : α) : Fifo α cap where
  items := q.items ++ [x]
  bound := by
    rw [List.length_append]
    exact lt_of_le_of_ne q.bound h

def pop (q : Fifo α cap) : Fifo α cap where
  items := q.items.tail
  bound := by
    rw [List.length_tail]
    exact (Nat.sub_le _ _).trans q.bound

end Fifo

end RingBuffer
