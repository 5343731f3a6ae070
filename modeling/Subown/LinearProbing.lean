import Subown.CyclicIndex
import Mathlib.Data.Finset.Card
import Mathlib.Data.Fintype.Card

/-! Open addressing with linear probing over a fixed, wrapping array of optional keys.
Keys are inserted and never deleted, so the first free slot of a chain ends it. -/
namespace LinearProbing

open CyclicIndex

variable {n : ℕ} {κ : Type*} [DecidableEq κ]

inductive Probe (n : ℕ) where
  | hit (i : Fin n)
  | free (i : Fin n)
  | full
  deriving DecidableEq

/-- Visit `fuel` slots from the `i`-th after `start`, up to the key or a free slot. -/
def scan (keys : Fin n → Option κ) (k : κ) (start : Fin n) : ℕ → ℕ → Probe n
  | 0, _ => .full
  | fuel + 1, i =>
      match keys (shift start i) with
      | none => .free (shift start i)
      | some k' => if k' = k then .hit (shift start i) else scan keys k start fuel (i + 1)

def find (keys : Fin n → Option κ) (k : κ) (start : Fin n) : Probe n := scan keys k start n 0

/-- The slot holds another key. -/
def Foreign (keys : Fin n → Option κ) (k : κ) (i : Fin n) : Prop :=
  keys i ≠ none ∧ keys i ≠ some k

variable {keys : Fin n → Option κ} {k : κ} {start : Fin n}

theorem scan_cases (keys : Fin n → Option κ) (k : κ) (start : Fin n) (fuel i : ℕ)
    (h : ∀ d < i, Foreign keys k (shift start d)) :
    (∃ d < i + fuel, (∀ e < d, Foreign keys k (shift start e)) ∧
      keys (shift start d) = some k ∧ scan keys k start fuel i = .hit (shift start d)) ∨
    (∃ d < i + fuel, (∀ e < d, Foreign keys k (shift start e)) ∧
      keys (shift start d) = none ∧ scan keys k start fuel i = .free (shift start d)) ∨
    ((∀ d < i + fuel, Foreign keys k (shift start d)) ∧ scan keys k start fuel i = .full) := by
  induction fuel generalizing i with
  | zero => exact Or.inr (Or.inr ⟨h, rfl⟩)
  | succ fuel ih =>
      cases hslot : keys (shift start i) with
      | none =>
          refine Or.inr (Or.inl ⟨i, by omega, h, hslot, ?_⟩)
          simp only [scan, hslot]
      | some k' =>
          by_cases hk : k' = k
          · subst hk
            refine Or.inl ⟨i, by omega, h, hslot, ?_⟩
            simp only [scan, hslot, if_true]
          · have hforeign : Foreign keys k (shift start i) := by
              constructor <;> simp [hslot, hk]
            have hnext : ∀ d < i + 1, Foreign keys k (shift start d) := by
              intro d hd
              rcases Nat.lt_succ_iff_lt_or_eq.mp hd with hd | rfl
              · exact h d hd
              · exact hforeign
            have hscan : scan keys k start (fuel + 1) i = scan keys k start fuel (i + 1) := by
              simp only [scan, hslot, if_neg hk]
            rw [hscan, show i + (fuel + 1) = i + 1 + fuel by omega]
            exact ih (i + 1) hnext

/-- The three answers of a search, with what the visited slots held. -/
theorem find_cases (keys : Fin n → Option κ) (k : κ) (start : Fin n) :
    (∃ i, keys i = some k ∧ (∀ j, dist start j < dist start i → Foreign keys k j) ∧
      find keys k start = .hit i) ∨
    (∃ i, keys i = none ∧ (∀ j, dist start j < dist start i → Foreign keys k j) ∧
      find keys k start = .free i) ∨
    ((∀ j, Foreign keys k j) ∧ find keys k start = .full) := by
  have hback : ∀ d < n, (∀ e < d, Foreign keys k (shift start e)) →
      ∀ j, dist start j < dist start (shift start d) → Foreign keys k j := by
    intro d hd he j hj
    rw [dist_shift start hd] at hj
    have := he _ hj
    rwa [shift_dist] at this
  rcases scan_cases keys k start n 0 (by omega) with
    ⟨d, hd, he, hk, e⟩ | ⟨d, hd, he, hk, e⟩ | ⟨hall, e⟩
  · exact Or.inl ⟨_, hk, hback d (by omega) he, e⟩
  · exact Or.inr (Or.inl ⟨_, hk, hback d (by omega) he, e⟩)
  · refine Or.inr (Or.inr ⟨fun j => ?_, e⟩)
    have := hall (dist start j) (by have := dist_lt start j; omega)
    rwa [shift_dist] at this

/-- Each key occurs once, and every slot between its home and its place is taken. -/
structure Chained (home : κ → Fin n) (keys : Fin n → Option κ) : Prop where
  unique : ∀ {i j k}, keys i = some k → keys j = some k → i = j
  noGap : ∀ {i k}, keys i = some k → ∀ j, dist (home k) j < dist (home k) i → keys j ≠ none

variable {home : κ → Fin n}

omit [DecidableEq κ] in
theorem Chained.empty : Chained home (fun _ => none) where
  unique h := nomatch h
  noGap h := nomatch h

/-- A stored key is found where it is stored. -/
theorem Chained.find_hit_iff (h : Chained home keys) {i : Fin n} :
    find keys k (home k) = .hit i ↔ keys i = some k := by
  rcases find_cases keys k (home k) with ⟨j, hj, -, e⟩ | ⟨j, hj, hbefore, e⟩ | ⟨hall, e⟩
  · rw [e]
    constructor
    · intro eq
      cases eq
      exact hj
    · intro hi
      rw [h.unique hi hj]
  · rw [e]
    constructor
    · intro eq
      cases eq
    · intro hi
      by_cases hlt : dist (home k) i < dist (home k) j
      · exact ((hbefore i hlt).2 hi).elim
      · rcases Nat.eq_or_lt_of_le (not_lt.mp hlt) with heq | hlt
        · have hij : i = j := by rw [← shift_dist (home k) i, ← heq, shift_dist]
          rw [hij, hj] at hi
          cases hi
        · exact (h.noGap hi j hlt hj).elim
  · rw [e]
    constructor
    · intro eq
      cases eq
    · intro hi
      exact ((hall i).2 hi).elim

theorem Chained.find_hit (h : Chained home keys) {i : Fin n} (hi : keys i = some k) :
    find keys k (home k) = .hit i := h.find_hit_iff.mpr hi

theorem find_free {i : Fin n} (h : find keys k start = .free i) :
    keys i = none ∧ ∀ j, dist start j < dist start i → Foreign keys k j := by
  rcases find_cases keys k start with ⟨j, _, _, e⟩ | ⟨j, hj, hbefore, e⟩ | ⟨_, e⟩ <;> rw [e] at h
  · cases h
  · cases h
    exact ⟨hj, hbefore⟩
  · cases h

theorem find_full (h : find keys k start = .full) (j : Fin n) : Foreign keys k j := by
  rcases find_cases keys k start with ⟨_, _, _, e⟩ | ⟨_, _, _, e⟩ | ⟨hall, _⟩
  · rw [e] at h
    cases h
  · rw [e] at h
    cases h
  · exact hall j

theorem find_full_iff : find keys k start = .full ↔ ∀ j, Foreign keys k j := by
  constructor
  · exact find_full
  · intro hall
    rcases find_cases keys k start with ⟨i, hi, -, -⟩ | ⟨i, hi, -, -⟩ | ⟨-, hfull⟩
    · exact absurd hi (hall i).2
    · exact absurd hi (hall i).1
    · exact hfull

/-- While some slot is free, the search for a key that is stored nowhere ends at a free one. -/
theorem find_free_of_absent (habsent : ∀ i, keys i ≠ some k) (hroom : ∃ i, keys i = none) :
    ∃ i, find keys k start = .free i := by
  obtain ⟨i, hi⟩ := hroom
  rcases find_cases keys k start with ⟨j, hj, -, -⟩ | ⟨j, -, -, hfree⟩ | ⟨hall, -⟩
  · exact absurd hj (habsent j)
  · exact ⟨j, hfree⟩
  · exact absurd hi (hall i).1

omit [DecidableEq κ] in
/-- The slots from the home of a stored key up to its own are all taken. -/
theorem Chained.taken (h : Chained home keys) {i : Fin n} (hi : keys i = some k) {d : ℕ}
    (hd : d ≤ dist (home k) i) : keys (shift (home k) d) ≠ none := by
  rcases Nat.lt_or_eq_of_le hd with hd | rfl
  · refine h.noGap hi _ ?_
    rw [dist_shift (home k) (hd.trans (dist_lt (home k) i))]
    exact hd
  · rw [shift_dist, hi]
    exact Option.some_ne_none k

/-- A key that is stored nowhere, from a search that does not hit it. -/
theorem Chained.absent (h : Chained home keys) (hmiss : ∀ i, find keys k (home k) ≠ .hit i)
    (i : Fin n) : keys i ≠ some k := fun hi => hmiss i (h.find_hit hi)

/-- Storing a key in the free slot its search ended at. -/
theorem Chained.insert (h : Chained home keys) {i : Fin n}
    (hfree : find keys k (home k) = .free i) :
    Chained home (Function.update keys i (some k)) := by
  obtain ⟨hi, hbefore⟩ := find_free hfree
  have habsent := h.absent (k := k) (fun j e => by rw [hfree] at e; cases e)
  constructor
  · intro a b k' ha hb
    by_cases hai : a = i
    · by_cases hbi : b = i
      · rw [hai, hbi]
      · subst hai
        rw [Function.update_self, Option.some.injEq] at ha
        rw [Function.update_of_ne hbi, ← ha] at hb
        exact (habsent b hb).elim
    · rw [Function.update_of_ne hai] at ha
      by_cases hbi : b = i
      · subst hbi
        rw [Function.update_self, Option.some.injEq] at hb
        rw [← hb] at ha
        exact (habsent a ha).elim
      · rw [Function.update_of_ne hbi] at hb
        exact h.unique ha hb
  · intro a k' ha j hj
    by_cases hji : j = i
    · rw [hji, Function.update_self]
      exact Option.some_ne_none k
    · rw [Function.update_of_ne hji]
      by_cases hai : a = i
      · subst hai
        rw [Function.update_self, Option.some.injEq] at ha
        subst ha
        exact (hbefore j hj).1
      · rw [Function.update_of_ne hai] at ha
        exact h.noGap ha j hj

/-- A full array stores `n` distinct keys, none of which was searched for. -/
theorem Chained.card_lt_of_full (h : Chained home keys) (hfull : find keys k start = .full)
    {ids : Finset κ} (hids : ∀ i k', keys i = some k' → k' ∈ ids) (hk : k ∈ ids) :
    n < ids.card := by
  have hkey : ∀ i, ∃ k', keys i = some k' ∧ k' ∈ ids.erase k := by
    intro i
    obtain ⟨hne, hnk⟩ := find_full hfull i
    obtain ⟨k', hk'⟩ := Option.ne_none_iff_exists'.mp hne
    refine ⟨k', hk', Finset.mem_erase.mpr ⟨fun e => hnk (e ▸ hk'), hids i k' hk'⟩⟩
  choose key hsome hmem using hkey
  have hinj : Function.Injective key := by
    intro i j e
    refine h.unique (hsome i) ?_
    rw [e]
    exact hsome j
  have hle : n ≤ (ids.erase k).card := by
    have := Finset.card_le_card_of_injOn key (s := Finset.univ) (fun i _ => hmem i) hinj.injOn
    rwa [Finset.card_univ, Fintype.card_fin] at this
  have := Finset.card_erase_lt_of_mem hk
  omega

omit [DecidableEq κ] in
/-- With a free slot, fewer keys than slots are stored. -/
theorem card_lt_of_free {i : Fin n} (hi : keys i = none) {ids : Finset κ}
    (hids : ∀ k ∈ ids, ∃ j, keys j = some k) : ids.card < n := by
  have : Nonempty (Fin n) := ⟨i⟩
  choose! slot hslot using hids
  have hmem : ∀ k ∈ ids, slot k ∈ Finset.univ.erase i := fun k hk =>
    Finset.mem_erase.mpr ⟨fun e => by simpa [e, hi] using hslot k hk, Finset.mem_univ _⟩
  have hinj : Set.InjOn slot ids := by
    intro k hk k' hk' e
    exact Option.some.inj ((hslot k hk).symm.trans (e ▸ hslot k' hk'))
  have hle := Finset.card_le_card_of_injOn slot hmem hinj
  have hlt := Finset.card_erase_lt_of_mem (Finset.mem_univ i)
  rw [Finset.card_univ, Fintype.card_fin] at hlt
  exact hle.trans_lt hlt

end LinearProbing
