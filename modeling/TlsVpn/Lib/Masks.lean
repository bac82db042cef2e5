import Mathlib.Data.Nat.ModEq
import Mathlib.Tactic.Ring
import TlsVpn.Lib.Bytes

/-!
# Byte strings as numbers

Counting through the byte strings of one length, with the carry going from the last byte to the
first, and masks that keep the first bits of a byte string. `uint_increment` and
`uint_and_prefixMask` say what both do to the number that the bytes stand for.
-/

namespace TlsVpn.Lib

open Function List

theorem uint_append_bytes (a b : Bytes) : uint (a ++ b) = uint a * 256 ^ b.length + uint b := by
  induction b using List.reverseRecOn with
  | nil => simp [uint]
  | append_singleton b x ih =>
    rw [← append_assoc, uint_append, uint_append, ih, length_append,
      length_singleton, pow_succ]
    ring

theorem uint_cons (b : UInt8) (bytes : Bytes) :
    uint (b :: bytes) = b.toNat * 256 ^ bytes.length + uint bytes := by
  simpa [uint] using uint_append_bytes [b] bytes

theorem uint_lt (bytes : Bytes) : uint bytes < 256 ^ bytes.length := by
  induction bytes using List.reverseRecOn with
  | nil => simp [uint]
  | append_singleton bytes b ih =>
    have hbyte : b.toNat < 256 := b.toNat_lt
    rw [uint_append, length_append, length_singleton, pow_succ]
    omega

/-- Strings of one length that stand for the same number are equal. -/
theorem uint_injective {a b : Bytes} (hlength : a.length = b.length) (hequal : uint a = uint b) :
    a = b := by
  induction a generalizing b with
  | nil => exact (length_eq_zero_iff.mp hlength.symm).symm
  | cons x a ih =>
    cases b with
    | nil => cases hlength
    | cons y b =>
      replace hlength : a.length = b.length := Nat.succ.inj hlength
      rw [uint_cons, uint_cons, hlength] at hequal
      have hlow := uint_lt a
      have hlow' := uint_lt b
      rw [hlength] at hlow
      have hhead : x.toNat = y.toNat := by
        have hpositive : 0 < 256 ^ b.length := Nat.pow_pos (by decide)
        have hquotient := congrArg (· / 256 ^ b.length) hequal
        simpa only [Nat.mul_comm _ (256 ^ b.length),
          Nat.mul_add_div hpositive, Nat.div_eq_of_lt hlow, Nat.div_eq_of_lt hlow',
          Nat.add_zero] using hquotient
      have htail : uint a = uint b := by
        rw [hhead] at hequal
        exact Nat.add_left_cancel hequal
      rw [UInt8.toNat_inj.mp hhead, ih hlength htail]

/-! ## Counting -/

/-- Adds one to a string whose first byte is the least significant one. -/
def incrementLow : Bytes → Bytes
  | [] => []
  | b :: rest => (b + 1) :: if b + 1 > 0 then rest else incrementLow rest

/-- Adds one to a string, from the last byte on as far as the carry goes. -/
def increment (bytes : Bytes) : Bytes := (incrementLow bytes.reverse).reverse

theorem length_incrementLow (bytes : Bytes) : (incrementLow bytes).length = bytes.length := by
  induction bytes with
  | nil => rfl
  | cons b rest ih =>
    rw [incrementLow]
    split
    · rfl
    · simp [ih]

@[simp] theorem length_increment (bytes : Bytes) : (increment bytes).length = bytes.length := by
  simp [increment, length_incrementLow]

theorem uint_incrementLow (bytes : Bytes) :
    uint (incrementLow bytes).reverse = (uint bytes.reverse + 1) % 256 ^ bytes.length := by
  induction bytes with
  | nil => rfl
  | cons b rest ih =>
    have hhigh := uint_lt rest.reverse
    rw [length_reverse] at hhigh
    have hbyte : b.toNat < 256 := b.toNat_lt
    have hsum : (b + 1).toNat = (b.toNat + 1) % 256 := by simp [UInt8.toNat_add]
    rw [incrementLow, reverse_cons, reverse_cons, uint_append, uint_append,
      length_cons, pow_succ']
    split
    · rename_i hpositive
      have hnonzero : 0 < (b + 1).toNat := UInt8.lt_iff_toNat_lt.mp hpositive
      have hsmall : b.toNat + 1 < 256 := by omega
      rw [hsum, Nat.mod_eq_of_lt hsmall, Nat.mod_eq_of_lt (by omega), Nat.add_assoc]
    · rename_i hzero
      -- the byte was 255, so its carry is added to the rest
      have hcarried : b.toNat = 255 := by
        have hnone : (b + 1).toNat = 0 := Nat.le_zero.mp (Nat.not_lt.mp
          (fun hpositive => hzero (UInt8.lt_iff_toNat_lt.mpr hpositive)))
        omega
      rw [ih, hsum, hcarried, show 256 * uint rest.reverse + 255 + 1 =
        256 * (uint rest.reverse + 1) by ring, Nat.mul_mod_mul_left]
      rfl

theorem uint_increment (bytes : Bytes) :
    uint (increment bytes) = (uint bytes + 1) % 256 ^ bytes.length := by
  simpa [increment] using uint_incrementLow bytes.reverse

theorem length_iterate_increment (bytes : Bytes) (j : Nat) :
    (increment^[j] bytes).length = bytes.length := by
  induction j with
  | zero => rfl
  | succ j ih => rw [iterate_succ_apply', length_increment, ih]

theorem uint_iterate_increment (bytes : Bytes) (j : Nat) :
    uint (increment^[j] bytes) = (uint bytes + j) % 256 ^ bytes.length := by
  induction j with
  | zero => exact (Nat.mod_eq_of_lt (uint_lt bytes)).symm
  | succ j ih =>
    rw [iterate_succ_apply', uint_increment, ih, length_iterate_increment,
      Nat.mod_add_mod, Nat.add_assoc]

/-! ## Masks -/

/-- The mask of `width` bytes that keeps the first `ones` bits. -/
def prefixMask : Nat → Nat → Bytes
  | 0, _ => []
  | width + 1, ones =>
    if 8 ≤ ones then 255 :: prefixMask width (ones - 8)
    else ~~~((255 : UInt8) >>> UInt8.ofNat ones) :: prefixMask width 0

@[simp] theorem length_prefixMask (width ones : Nat) : (prefixMask width ones).length = width := by
  induction width generalizing ones with
  | zero => rfl
  | succ width ih =>
    rw [prefixMask]
    split <;> simp [ih]

variable {ones : Nat}

/-- The bits of a byte that a mask of `ones` bits drops. -/
theorem toNat_dropped (h : ones < 8) :
    ((255 : UInt8) >>> UInt8.ofNat ones).toNat = 2 ^ (8 - ones) - 1 := by
  have hall : ∀ n < 8, ((255 : UInt8) >>> UInt8.ofNat n).toNat = 2 ^ (8 - n) - 1 := by decide
  exact hall ones h

/-- Which bits of a byte a mask of `ones` bits keeps. -/
theorem testBit_mask (h : ones < 8) (i : Nat) :
    (~~~((255 : UInt8) >>> UInt8.ofNat ones)).toNat.testBit i =
      (decide (i < 8) && !decide (i < 8 - ones)) := by
  have hlow : 2 ^ (8 - ones) - 1 < 2 ^ 8 := by
    have hpow := Nat.pow_le_pow_right (show 0 < 2 by decide) (Nat.sub_le 8 ones)
    have hpos := Nat.two_pow_pos (8 - ones)
    omega
  have hmask : (~~~((255 : UInt8) >>> UInt8.ofNat ones)).toNat =
      2 ^ 8 - (2 ^ (8 - ones) - 1 + 1) := by
    rw [UInt8.toNat_not, toNat_dropped h]
    exact Nat.sub_right_comm ..
  rw [hmask, Nat.testBit_two_pow_sub_succ hlow, Nat.testBit_two_pow_sub_one]

/-- The first bits of a byte. -/
theorem toNat_and_mask (b : UInt8) (h : ones < 8) :
    (b &&& ~~~((255 : UInt8) >>> UInt8.ofNat ones)).toNat =
      b.toNat / 2 ^ (8 - ones) * 2 ^ (8 - ones) := by
  refine Nat.eq_of_testBit_eq fun i => ?_
  rw [UInt8.toNat_and, Nat.testBit_and, testBit_mask h, Nat.testBit_mul_two_pow,
    Nat.testBit_div_two_pow]
  by_cases hi : 8 - ones ≤ i
  · rw [Nat.sub_add_cancel hi]
    by_cases hbyte : i < 8
    · simp [hi, hbyte]
    · -- A byte has no bit past its eighth.
      have hlt : b.toNat < 2 ^ i :=
        Nat.lt_of_lt_of_le b.toNat_lt (Nat.pow_le_pow_right (by decide) (Nat.not_lt.mp hbyte))
      simp [Nat.testBit_lt_two_pow hlt]
  · simp [hi, Nat.lt_of_not_le hi]

/-- Clearing the last bits of a number whose first byte is kept. -/
theorem keep_byte (b : Nat) {u width h : Nat} (hfits : h ≤ 8 * width) :
    b * 256 ^ width + u / 2 ^ h * 2 ^ h = (b * 256 ^ width + u) / 2 ^ h * 2 ^ h := by
  have hpower : 256 ^ width = 2 ^ h * 2 ^ (8 * width - h) := by
    rw [← pow_add, Nat.add_sub_cancel' hfits, pow_mul]
    rfl
  have hquotient : (b * 256 ^ width + u) / 2 ^ h = b * 2 ^ (8 * width - h) + u / 2 ^ h := by
    rw [hpower, show b * (2 ^ h * 2 ^ (8 * width - h)) = 2 ^ h * (b * 2 ^ (8 * width - h)) by ring,
      Nat.mul_add_div (Nat.two_pow_pos h)]
  rw [hquotient, hpower]
  ring

/-- The last bits behind `ones` bits of the first byte. -/
theorem two_pow_width (width : Nat) (h : ones < 8) :
    2 ^ (8 * (width + 1) - ones) = 256 ^ width * 2 ^ (8 - ones) := by
  rw [show (256 : Nat) = 2 ^ 8 from rfl, ← pow_mul, ← pow_add]
  congr 1
  omega

/-- Clearing the last bits of a number that reach into its first byte. -/
theorem cut_byte (b : Nat) {u width : Nat} (hlow : u < 256 ^ width) (h : ones < 8) :
    (b * 256 ^ width + u) / 2 ^ (8 * (width + 1) - ones) * 2 ^ (8 * (width + 1) - ones) =
      b / 2 ^ (8 - ones) * 2 ^ (8 - ones) * 256 ^ width := by
  have hpositive : 0 < 256 ^ width := Nat.pow_pos (by decide)
  rw [two_pow_width width h, ← Nat.div_div_eq_div_mul, Nat.mul_comm b, Nat.mul_add_div hpositive,
    Nat.div_eq_of_lt hlow, Nat.add_zero]
  ring

theorem uint_div_width (bytes : Bytes) : uint bytes / 2 ^ (8 * bytes.length - 0) = 0 := by
  refine Nat.div_eq_of_lt ?_
  rw [Nat.sub_zero, pow_mul]
  exact uint_lt bytes

/-- The number of the first `ones` bits, with zeros behind them. -/
theorem uint_and_prefixMask (bytes : Bytes) (h : ones ≤ 8 * bytes.length) :
    uint (bytes.zipWith (· &&& ·) (prefixMask bytes.length ones)) =
      uint bytes / 2 ^ (8 * bytes.length - ones) * 2 ^ (8 * bytes.length - ones) := by
  induction bytes generalizing ones with
  | nil => simp [uint]
  | cons b bytes ih =>
    rw [length_cons, prefixMask]
    split
    · rename_i hwhole
      rw [length_cons] at h
      rw [zipWith_cons_cons, uint_cons, uint_cons, length_zipWith, length_prefixMask,
        Nat.min_self, ih (by omega), show 8 * (bytes.length + 1) - ones =
          8 * bytes.length - (ones - 8) by omega]
      have hkept : (b &&& 255).toNat = b.toNat := by
        simp [Nat.and_two_pow_sub_one_eq_mod _ 8, Nat.mod_eq_of_lt b.toNat_lt]
      rw [hkept]
      exact keep_byte b.toNat (by omega)
    · rename_i hpart
      rw [zipWith_cons_cons, uint_cons, uint_cons, length_zipWith, length_prefixMask,
        Nat.min_self, ih (by omega), toNat_and_mask b (by omega), cut_byte _ (uint_lt bytes)
          (by omega)]
      rw [uint_div_width]
      ring

end TlsVpn.Lib
