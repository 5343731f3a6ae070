import Mathlib.Data.List.TakeWhile
import Mathlib.Data.Nat.Notation

/-! C's `strtoul` in base ten, for a 64-bit `unsigned long` and the C locale, and `strtok_r`
with one delimiter. A pointer into a string is the suffix it points to. -/
namespace CStrings

/-- The bytes before the terminating zero. -/
abbrev CString := List Char

def isSpace (c : Char) : Bool := c.toNat = 32 || (9 ≤ c.toNat && c.toNat ≤ 13)

/-- `ULONG_MAX`. -/
abbrev ulongMax : ℕ := 0xFFFFFFFFFFFFFFFF

/-- A counter below its limit does not wrap. -/
theorem toNat_succ {x : UInt64} (h : x.toNat < ulongMax) : (x + 1).toNat = x.toNat + 1 := by
  rw [UInt64.toNat_add]
  exact Nat.mod_eq_of_lt (Nat.succ_lt_succ h)

/-- The value returned, what the end pointer points to and whether `errno` is `ERANGE`. -/
structure Outcome where
  value : UInt64
  rest : List Char
  range : Bool
  deriving DecidableEq

/-- Whether a minus sign stands in front, and what follows the sign. -/
def sign : List Char → Bool × List Char
  | '-' :: cs => (true, cs)
  | '+' :: cs => (false, cs)
  | cs => (false, cs)

/-- A minus sign negates in the unsigned type. -/
def signed (negative : Bool) (n : ℕ) : UInt64 :=
  if negative then 0 - UInt64.ofNat n else UInt64.ofNat n

def strtoul (s : List Char) : Outcome :=
  let (negative, body) := sign (s.dropWhile isSpace)
  let digits := body.takeWhile Char.isDigit
  let rest := body.dropWhile Char.isDigit
  if digits = [] then ⟨0, s, false⟩
  else if Nat.ofDigitChars 10 digits 0 ≤ ulongMax then
    ⟨signed negative (Nat.ofDigitChars 10 digits 0), rest, false⟩
  else ⟨0xFFFFFFFFFFFFFFFF, rest, true⟩

/-- White space, a sign and digits, and nothing else. -/
structure Numeral (s : List Char) (negative : Bool) (digits : List Char) : Prop where
  shape : ∃ spaces signs, s = spaces ++ (signs ++ digits) ∧ (∀ c ∈ spaces, isSpace c = true) ∧
    (signs = ['-'] ∧ negative = true ∨ (signs = ['+'] ∨ signs = []) ∧ negative = false)
  nonempty : digits ≠ []
  digits : ∀ c ∈ digits, c.isDigit = true

variable {s digits : List Char} {negative : Bool} {c : Char} {n : ℕ}

theorem isDigit_not_isSpace (h : c.isDigit = true) : isSpace c = false := by
  simp only [Char.isDigit, Bool.and_eq_true, decide_eq_true_eq] at h
  have hlo : 48 ≤ c.toNat := h.1
  simp only [isSpace, Bool.or_eq_false_iff, Bool.and_eq_false_iff, decide_eq_false_iff_not]
  omega

theorem sign_of_digits (hne : digits ≠ []) (hd : ∀ c ∈ digits, c.isDigit = true) :
    sign digits = (false, digits) := by
  cases digits with
  | nil => exact absurd rfl hne
  | cons c cs =>
      have hc := hd c List.mem_cons_self
      unfold sign
      split
      next e =>
        cases e
        exact absurd hc (by decide)
      next e =>
        cases e
        exact absurd hc (by decide)
      · rfl

theorem takeWhile_all (hd : ∀ c ∈ digits, c.isDigit = true) :
    digits.takeWhile Char.isDigit = digits ∧ digits.dropWhile Char.isDigit = [] :=
  ⟨List.takeWhile_eq_self_iff.mpr hd, List.dropWhile_eq_nil_iff.mpr hd⟩

/-- Leading white space is skipped. -/
theorem dropWhile_spaces {spaces body : List Char} (hspaces : ∀ c ∈ spaces, isSpace c = true)
    (hbody : ∀ c ∈ body.head?, isSpace c = false) :
    (spaces ++ body).dropWhile isSpace = body := by
  rw [List.dropWhile_append_of_pos hspaces]
  cases body with
  | nil => rfl
  | cons c cs => exact List.dropWhile_cons_of_neg (by simpa using hbody c rfl)

/-- A numeral is converted whole; a magnitude beyond the type is out of range. -/
theorem Numeral.strtoul_eq (h : Numeral s negative digits) :
    strtoul s =
      if Nat.ofDigitChars 10 digits 0 ≤ ulongMax then
        ⟨signed negative (Nat.ofDigitChars 10 digits 0), [], false⟩
      else ⟨0xFFFFFFFFFFFFFFFF, [], true⟩ := by
  obtain ⟨spaces, signs, rfl, hspaces, hsigns⟩ := h.shape
  obtain ⟨htake, hdrop⟩ := takeWhile_all h.digits
  have hhead : ∀ c ∈ digits.head?, isSpace c = false := by
    intro c hc
    exact isDigit_not_isSpace (h.digits c (List.mem_of_mem_head? hc))
  have hbody : ∀ c ∈ (signs ++ digits).head?, isSpace c = false := by
    rcases hsigns with ⟨rfl, _⟩ | ⟨rfl | rfl, _⟩
    · rintro c hc
      obtain rfl := Option.some.inj hc
      decide
    · rintro c hc
      obtain rfl := Option.some.inj hc
      decide
    · exact hhead
  have hsign : sign (signs ++ digits) = (negative, digits) := by
    rcases hsigns with ⟨rfl, rfl⟩ | ⟨rfl | rfl, rfl⟩
    · rfl
    · rfl
    · exact sign_of_digits h.nonempty h.digits
  unfold strtoul
  rw [dropWhile_spaces hspaces hbody, hsign]
  dsimp only
  rw [htake, hdrop, if_neg h.nonempty]

theorem sign_cases (s : List Char) :
    ∃ signs, s = signs ++ (sign s).2 ∧
      (signs = ['-'] ∧ (sign s).1 = true ∨ (signs = ['+'] ∨ signs = []) ∧ (sign s).1 = false) := by
  unfold sign
  split
  · exact ⟨['-'], rfl, Or.inl ⟨rfl, rfl⟩⟩
  · exact ⟨['+'], rfl, Or.inr ⟨Or.inl rfl, rfl⟩⟩
  · exact ⟨[], rfl, Or.inr ⟨Or.inr rfl, rfl⟩⟩

/-- What is converted whole is a numeral. -/
theorem numeral_of_strtoul (hrest : (strtoul s).rest = []) (hne : (strtoul s).rest ≠ s) :
    ∃ negative digits, Numeral s negative digits := by
  obtain ⟨signs, hbody, hsigns⟩ := sign_cases (s.dropWhile isSpace)
  unfold strtoul at hrest hne
  dsimp only at hrest hne
  generalize sign (s.dropWhile isSpace) = signed at hbody hsigns hrest hne
  by_cases hdigits : signed.2.takeWhile Char.isDigit = []
  · rw [if_pos hdigits] at hne
    exact absurd rfl hne
  have hdrop : signed.2.dropWhile Char.isDigit = [] := by
    rw [if_neg hdigits] at hrest
    split_ifs at hrest <;> exact hrest
  have hall : ∀ c ∈ signed.2, c.isDigit = true := List.dropWhile_eq_nil_iff.mp hdrop
  refine ⟨signed.1, signed.2, ⟨s.takeWhile isSpace, signs, ?_, ?_, hsigns⟩, ?_, hall⟩
  · rw [← hbody, List.takeWhile_append_dropWhile]
  · exact fun c hc => List.mem_takeWhile_imp hc
  · rintro e
    rw [e] at hdigits
    exact hdigits rfl

theorem Numeral.ne_nil (h : Numeral s negative digits) : s ≠ [] := by
  obtain ⟨spaces, signs, rfl, _⟩ := h.shape
  simp [h.nonempty]

theorem numeral_toDigits (n : ℕ) : Numeral (Nat.toDigits 10 n) false (Nat.toDigits 10 n) where
  shape := ⟨[], [], rfl, nofun, Or.inr ⟨Or.inr rfl, rfl⟩⟩
  nonempty := Nat.toDigits_ne_nil
  digits c hc := Nat.isDigit_of_mem_toDigits (by decide) (by decide) hc

/-! ### Tokens -/

/-- One call of `strtok_r`: the next token and where the following call resumes. -/
def strtok (delim : Char) (s : List Char) : Option (List Char × List Char) :=
  match s.dropWhile (· == delim) with
  | [] => none
  | c :: cs =>
      some ((c :: cs).takeWhile (· != delim), ((c :: cs).dropWhile (· != delim)).drop 1)

/-- The nonempty pieces between delimiters. -/
def tokens (delim : Char) (s : List Char) : List (List Char) :=
  (s.splitOn delim).filter (· ≠ [])

variable {delim : Char}

theorem tokens_cons_delim (delim : Char) (s : List Char) :
    tokens delim (delim :: s) = tokens delim s := by
  have h := List.splitOn_append_cons_self (a := delim) [] s
  rw [List.nil_append] at h
  rw [tokens, h]
  simp [tokens]

theorem tokens_skip (delim : Char) (s : List Char) :
    tokens delim s = tokens delim (s.dropWhile (· == delim)) := by
  induction s with
  | nil => rfl
  | cons c s ih =>
      by_cases hc : c = delim
      · subst hc
        rw [tokens_cons_delim, ih, List.dropWhile_cons_of_pos (by simp)]
      · rw [List.dropWhile_cons_of_neg (by simpa using hc)]

theorem tokens_append {token : List Char} (hne : token ≠ []) (hmem : delim ∉ token)
    (s : List Char) : tokens delim (token ++ delim :: s) = token :: tokens delim s := by
  rw [tokens, List.splitOn_append_cons_self_of_not_mem hmem]
  simp [tokens, hne]

theorem tokens_single {token : List Char} (hne : token ≠ []) (hmem : delim ∉ token) :
    tokens delim token = [token] := by
  rw [tokens, List.splitOn_eq_singleton hmem]
  simp [hne]

/-- A call returns the first token, and the calls after it return the others. -/
theorem strtok_cases (delim : Char) (s : List Char) :
    (strtok delim s = none ∧ tokens delim s = []) ∨
      ∃ token rest, strtok delim s = some (token, rest) ∧ rest.length < s.length ∧
        tokens delim s = token :: tokens delim rest := by
  rw [tokens_skip]
  have hlength := (List.dropWhile_sublist (· == delim) (l := s)).length_le
  unfold strtok
  cases hs : s.dropWhile (· == delim) with
  | nil => exact Or.inl ⟨rfl, rfl⟩
  | cons c cs =>
      rw [hs] at hlength
      have hc : c ≠ delim := by
        have hhead := List.head_dropWhile_not (· == delim) (l := s) (by simp [hs])
        simpa [hs] using hhead
      have hne : (c :: cs).takeWhile (· != delim) ≠ [] := by
        rw [List.takeWhile_cons_of_pos (by simpa using hc)]
        exact List.cons_ne_nil _ _
      have hmem : delim ∉ (c :: cs).takeWhile (· != delim) := fun h => by
        simpa using List.mem_takeWhile_imp h
      have hsplit := List.takeWhile_append_dropWhile (p := (· != delim)) (l := c :: cs)
      refine Or.inr ⟨_, _, rfl, ?_, ?_⟩
      · rw [List.length_drop]
        have hle := (List.dropWhile_sublist (· != delim) (l := c :: cs)).length_le
        rw [List.length_cons] at hlength hle
        omega
      cases hd : (c :: cs).dropWhile (· != delim) with
      | nil =>
          rw [hd, List.append_nil] at hsplit
          rw [hsplit] at hne hmem ⊢
          exact tokens_single hne hmem
      | cons e rest =>
          have he : e = delim := by
            have hhead := List.head_dropWhile_not (· != delim) (l := c :: cs) (by simp [hd])
            simpa [hd] using hhead
          subst he
          rw [hd] at hsplit
          rw [← tokens_append hne hmem, List.drop_one, List.tail_cons, hsplit]

theorem strtok_length {token rest : List Char} (h : strtok delim s = some (token, rest)) :
    rest.length < s.length := by
  obtain ⟨hnone, _⟩ | ⟨_, _, hsome, hlt, _⟩ := strtok_cases delim s
  · cases hnone.symm.trans h
  · obtain ⟨_, rfl⟩ := Prod.mk.inj (Option.some.inj (hsome.symm.trans h))
    exact hlt

/-- The strings a list of tokens is read back from. -/
theorem tokens_intercalate {ls : List (List Char)} (hne : ∀ l ∈ ls, l ≠ [])
    (hmem : ∀ l ∈ ls, delim ∉ l) : tokens delim ([delim].intercalate ls) = ls := by
  by_cases hls : ls = []
  · subst hls
    rfl
  · rw [tokens, List.splitOn_intercalate delim hmem hls, List.filter_eq_self]
    exact fun l hl => by simpa using hne l hl

end CStrings
