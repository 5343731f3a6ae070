import Mathlib.Data.Nat.Bitwise
import Mathlib.Tactic.Ring

/-! Big-endian naturals: `bytes w n` are the `w` low bytes of `n`, most significant first,
and `value` reads a byte string back. The shift-and-or forms that byte-oriented programs
write are reduced to these two maps. -/
namespace BigEndian

def value : List UInt8 → ℕ
  | [] => 0
  | b :: bs => b.toNat * 256 ^ bs.length + value bs

def bytes : ℕ → ℕ → List UInt8
  | 0, _ => []
  | w + 1, n => UInt8.ofNat (n / 256 ^ w % 256) :: bytes w n

@[simp] theorem length_bytes (w n : ℕ) : (bytes w n).length = w := by
  induction w with
  | zero => rfl
  | succ w ih => rw [bytes, List.length_cons, ih]

theorem value_lt (bs : List UInt8) : value bs < 256 ^ bs.length := by
  induction bs with
  | nil => exact Nat.one_pos
  | cons b bs ih =>
      have hb : b.toNat + 1 ≤ 256 := b.toNat_lt
      calc value (b :: bs) < (b.toNat + 1) * 256 ^ bs.length := by
            rw [value, Nat.add_mul, Nat.one_mul]
            exact Nat.add_lt_add_left ih _
        _ ≤ 256 * 256 ^ bs.length := Nat.mul_le_mul_right _ hb
        _ = 256 ^ (b :: bs).length := by rw [List.length_cons, pow_succ, Nat.mul_comm]

theorem toNat_ofNat_mod (n : ℕ) : (UInt8.ofNat (n % 256)).toNat = n % 256 := by
  rw [UInt8.toNat_ofNat', Nat.mod_mod]

/-- Writing then reading keeps the bytes that fit. -/
theorem value_bytes (w n : ℕ) : value (bytes w n) = n % 256 ^ w := by
  induction w with
  | zero => simp only [bytes, value, pow_zero, Nat.mod_one]
  | succ w ih =>
      rw [bytes, value, length_bytes, ih, toNat_ofNat_mod, pow_succ, Nat.mod_mul]
      ring

/-- Only the bits that fit matter. -/
theorem bytes_congr {w n m : ℕ} (h : n % 256 ^ w = m % 256 ^ w) : bytes w n = bytes w m := by
  induction w with
  | zero => rfl
  | succ w ih =>
      have hhead : n / 256 ^ w % 256 = m / 256 ^ w % 256 := by
        rw [← Nat.mod_mul_right_div_self, ← Nat.mod_mul_right_div_self, ← pow_succ, h]
      have hdvd : 256 ^ w ∣ 256 ^ (w + 1) := pow_dvd_pow 256 (Nat.le_succ w)
      have htail : n % 256 ^ w = m % 256 ^ w := by
        rw [← Nat.mod_mod_of_dvd n hdvd, h, Nat.mod_mod_of_dvd m hdvd]
      rw [bytes, bytes, hhead, ih htail]

/-- Reading then writing restores the byte string. -/
theorem bytes_value (bs : List UInt8) : bytes bs.length (value bs) = bs := by
  induction bs with
  | nil => rfl
  | cons b bs ih =>
      have hpos : 0 < 256 ^ bs.length := Nat.pow_pos (by decide)
      have hdiv : (b.toNat * 256 ^ bs.length + value bs) / 256 ^ bs.length = b.toNat := by
        rw [Nat.add_comm, Nat.add_mul_div_right _ _ hpos, Nat.div_eq_of_lt (value_lt bs),
          Nat.zero_add]
      have htail : bytes bs.length (b.toNat * 256 ^ bs.length + value bs) = bs := by
        rw [bytes_congr (Nat.mul_add_mod_self_right b.toNat _ _), ih]
      rw [List.length_cons, value, bytes, htail, hdiv, Nat.mod_eq_of_lt b.toNat_lt,
        UInt8.ofNat_toNat]

/-- Taking a byte by a shift and a mask. -/
theorem ofNat_byte (n k : ℕ) :
    UInt8.ofNat (n / 256 ^ k % 256) = UInt8.ofNat (n >>> (8 * k) &&& 255) := by
  have hmask : (255 : ℕ) = 2 ^ 8 - 1 := rfl
  rw [hmask, Nat.and_two_pow_sub_one_eq_mod, Nat.shiftRight_eq_div_pow, pow_mul]
  rfl

/-- A byte shifted inside its word keeps all its bits. -/
theorem shiftLeft_mod (b : UInt8) {k w : ℕ} (h : k + 8 ≤ w) :
    b.toNat <<< k % 2 ^ w = b.toNat <<< k := by
  apply Nat.mod_eq_of_lt
  calc b.toNat <<< k = b.toNat * 2 ^ k := Nat.shiftLeft_eq _ _
    _ < 2 ^ 8 * 2 ^ k := Nat.mul_lt_mul_of_pos_right b.toNat_lt (Nat.two_pow_pos k)
    _ = 2 ^ (k + 8) := by rw [← pow_add, Nat.add_comm]
    _ ≤ 2 ^ w := Nat.pow_le_pow_right (by decide) h

/-- Joining one more byte by a shift and an or. -/
theorem shift_or_shift (x k : ℕ) (b : UInt8) :
    x <<< (k + 8) ||| b.toNat <<< k = (x * 256 + b.toNat) <<< k := by
  have hb : x <<< 8 ||| b.toNat = x * 256 + b.toNat := by
    rw [← Nat.shiftLeft_add_eq_or_of_lt b.toNat_lt, Nat.shiftLeft_eq]
  rw [Nat.add_comm k 8, Nat.shiftLeft_add, ← Nat.shiftLeft_or_distrib, hb]

end BigEndian
