import Mathlib.Data.Finset.Fold
import Mathlib.Data.Finset.Range
import Mathlib.Data.List.GetD
import Mathlib.Data.Nat.Bitwise

/-!
# Bytes, words and texts

Machine words, the white space of a text, and two ingredients of a wire format: the exclusive or of
byte strings of different lengths, where the shorter one counts as followed by zeros, and the
big-endian encoding of numbers.

Every operation on accumulators is described by `byteAt`, which reads a byte and gives `0` past the
end. `byteAt_xorAll_range` turns the accumulated string into the exclusive or over a set of
indices, and `xor_erase` solves that equation for one missing member. `uint_put_uint` is the round
trip of the number encoding.

A `uint32` is a natural number below `2 ^ 32`; the operations that can leave that range reduce
their result. `sub32_of_le` is the difference that does not wrap, `and_mask_eq_mod` turns the masked
index of a ring of power-of-two size into a remainder, and `wrap64` reduces a sum to an `int64`.
-/

namespace TlsVpn.Lib

open List

/-- A byte string. -/
abbrev Bytes := List UInt8

/-- The byte at an index, `0` past the end. -/
def byteAt (data : Bytes) (i : Nat) : UInt8 := data.getD i 0

variable {data : Bytes} {i : Nat}

theorem byteAt_of_length_le (h : data.length ≤ i) : byteAt data i = 0 :=
  getD_eq_default data 0 h

/-- Strings of one length with the same bytes are equal. -/
theorem bytes_ext {a b : Bytes} (hlen : a.length = b.length)
    (hbyte : ∀ i < a.length, byteAt a i = byteAt b i) : a = b := by
  refine ext_getElem hlen fun i ha hb => ?_
  have h := hbyte i ha
  rwa [byteAt, byteAt, getD_eq_getElem a 0 ha, getD_eq_getElem b 0 hb] at h

theorem byteAt_take {n : Nat} (h : i < n) : byteAt (data.take n) i = byteAt data i := by
  simp [byteAt, getD_eq_getElem?_getD, h]

/-! ## Exclusive or -/

/-- The accumulator lengthened with zeros to at least `n` bytes. -/
def zeroExtend (acc : Bytes) (n : Nat) : Bytes := acc ++ List.replicate (n - acc.length) 0

/-- The accumulator with its first `n` bytes overwritten by zeros. -/
def clearFront (acc : Bytes) (n : Nat) : Bytes :=
  List.replicate (min n acc.length) 0 ++ acc.drop n

/-- The exclusive or of `data` into the front of `acc`. -/
def xorInto : Bytes → Bytes → Bytes
  | acc, [] => acc
  | [], _ :: _ => []
  | x :: acc, y :: data => (x ^^^ y) :: xorInto acc data

/-- The exclusive or of two strings, the shorter one continued with zeros. -/
def xorExtend (acc data : Bytes) : Bytes := xorInto (zeroExtend acc data.length) data

/-- The exclusive or of a list of strings. -/
def xorAll (frames : List Bytes) : Bytes := frames.foldl xorExtend []

@[simp] theorem length_zeroExtend (acc : Bytes) (n : Nat) :
    (zeroExtend acc n).length = max acc.length n := by
  simp only [zeroExtend, length_append, length_replicate]
  omega

@[simp] theorem byteAt_zeroExtend (acc : Bytes) (n i : Nat) :
    byteAt (zeroExtend acc n) i = byteAt acc i := by
  simp only [byteAt, zeroExtend, getD_eq_getElem?_getD, getElem?_append,
    getElem?_replicate]
  split
  · rfl
  · rename_i h
    rw [getElem?_eq_none (not_lt.mp h)]
    split <;> rfl

theorem byteAt_clearFront (acc : Bytes) (n i : Nat) :
    byteAt (clearFront acc n) i = if i < n then 0 else byteAt acc i := by
  simp only [byteAt, clearFront, getD_eq_getElem?_getD, getElem?_append,
    length_replicate, getElem?_replicate, getElem?_drop]
  by_cases hn : i < n
  · by_cases hlen : i < acc.length
    · simp [hn, hlen]
    · have hnone : acc[n + (i - min n acc.length)]? = none :=
        getElem?_eq_none (by omega)
      simp [hn, hlen, hnone]
  · by_cases hlen : n ≤ acc.length
    · have hidx : n + (i - n) = i := by omega
      simp [hn, hlen, hidx]
    · have hnone : acc[n + (i - acc.length)]? = none := getElem?_eq_none (by omega)
      have hmin : min n acc.length = acc.length := by omega
      have hge : ¬ i < acc.length := by omega
      simp [hn, hmin, hge, hnone]

theorem length_xorInto {acc : Bytes} (h : data.length ≤ acc.length) :
    (xorInto acc data).length = acc.length := by
  induction data generalizing acc with
  | nil => cases acc <;> rfl
  | cons y data ih =>
    cases acc with
    | nil => cases h
    | cons x acc =>
      simp only [xorInto, length_cons, ih (Nat.le_of_succ_le_succ h)]

theorem byteAt_xorInto {acc : Bytes} (h : data.length ≤ acc.length) (i : Nat) :
    byteAt (xorInto acc data) i = byteAt acc i ^^^ byteAt data i := by
  induction data generalizing acc i with
  | nil => cases acc <;> simp [xorInto, byteAt]
  | cons y data ih =>
    cases acc with
    | nil => cases h
    | cons x acc =>
      cases i with
      | zero => rfl
      | succ i => exact ih (Nat.le_of_succ_le_succ h) i

@[simp] theorem length_xorExtend (acc data : Bytes) :
    (xorExtend acc data).length = max acc.length data.length := by
  rw [xorExtend, length_xorInto (by simp), length_zeroExtend]

@[simp] theorem byteAt_xorExtend (acc data : Bytes) (i : Nat) :
    byteAt (xorExtend acc data) i = byteAt acc i ^^^ byteAt data i := by
  rw [xorExtend, byteAt_xorInto (by simp), byteAt_zeroExtend]

theorem xorAll_append (frames : List Bytes) (data : Bytes) :
    xorAll (frames ++ [data]) = xorExtend (xorAll frames) data := by
  simp [xorAll]

/-- The exclusive or is as long as the longest member. -/
theorem length_xorAll (frames : List Bytes) :
    (xorAll frames).length = (frames.map List.length).foldl max 0 := by
  induction frames using List.reverseRecOn with
  | nil => rfl
  | append_singleton frames last ih =>
    rw [xorAll_append, length_xorExtend, ih, map_append, map_singleton,
      foldl_append]
    rfl

/-- No member of the list is longer than the exclusive or. -/
theorem length_le_xorAll {frames : List Bytes} (h : data ∈ frames) :
    data.length ≤ (xorAll frames).length := by
  induction frames using List.reverseRecOn with
  | nil => cases h
  | append_singleton frames last ih =>
    rw [xorAll_append, length_xorExtend]
    rcases mem_append.mp h with hmem | hlast
    · exact le_trans (ih hmem) (le_max_left _ _)
    · rw [mem_singleton.mp hlast]
      exact le_max_right _ _

/-! ## Exclusive or over a set of indices -/

instance xor_commutative : Std.Commutative (· ^^^ · : UInt8 → UInt8 → UInt8) := ⟨UInt8.xor_comm⟩

instance xor_associative : Std.Associative (· ^^^ · : UInt8 → UInt8 → UInt8) := ⟨UInt8.xor_assoc⟩

/-- The exclusive or of `f` over a finite set of indices. -/
def xorOver (s : Finset Nat) (f : Nat → UInt8) : UInt8 := s.fold (· ^^^ ·) 0 f

@[simp] theorem xorOver_empty (f : Nat → UInt8) : xorOver ∅ f = 0 := Finset.fold_empty

theorem xorOver_insert {s : Finset Nat} (h : i ∉ s) (f : Nat → UInt8) :
    xorOver (insert i s) f = f i ^^^ xorOver s f :=
  Finset.fold_insert h

/-- The exclusive or over the whole set and over all members but one gives that member. -/
theorem xor_erase {s : Finset Nat} (h : i ∈ s) (f : Nat → UInt8) :
    xorOver s f ^^^ xorOver (s.erase i) f = f i := by
  have hsplit : xorOver s f = f i ^^^ xorOver (s.erase i) f := by
    rw [← xorOver_insert (Finset.notMem_erase i s), Finset.insert_erase h]
  rw [hsplit, UInt8.xor_assoc, UInt8.xor_self, UInt8.xor_zero]

theorem byteAt_xorAll_range (k : Nat) (frame : Nat → Bytes) (j : Nat) :
    byteAt (xorAll ((List.range k).map frame)) j
      = xorOver (Finset.range k) (fun i => byteAt (frame i) j) := by
  induction k with
  | zero => rfl
  | succ k ih =>
    rw [range_succ, map_append, map_singleton, xorAll_append, byteAt_xorExtend,
      ih, Finset.range_add_one, xorOver_insert Finset.notMem_range_self, UInt8.xor_comm]

/-! ## Big-endian numbers -/

/-- The `width` big-endian bytes of a number; higher bits are dropped. -/
def putUint : Nat → Nat → Bytes
  | 0, _ => []
  | width + 1, n => putUint width (n / 256) ++ [UInt8.ofNat n]

/-- The number with the given big-endian bytes. -/
def uint (bytes : Bytes) : Nat := bytes.foldl (fun n b => 256 * n + b.toNat) 0

@[simp] theorem length_putUint (width n : Nat) : (putUint width n).length = width := by
  induction width generalizing n with
  | zero => rfl
  | succ width ih => simp [putUint, ih]

theorem uint_append (bytes : Bytes) (b : UInt8) :
    uint (bytes ++ [b]) = 256 * uint bytes + b.toNat := by
  simp [uint]

theorem uint_put_uint (width n : Nat) : uint (putUint width n) = n % 256 ^ width := by
  induction width generalizing n with
  | zero => simp [putUint, uint, Nat.mod_one]
  | succ width ih =>
    have hlow : (UInt8.ofNat n).toNat = n % 256 := UInt8.toNat_ofNat'
    rw [putUint, uint_append, ih, hlow, pow_succ', Nat.mod_mul]
    omega

theorem uint_put_uint_of_lt {width n : Nat} (h : n < 256 ^ width) :
    uint (putUint width n) = n := by
  rw [uint_put_uint, Nat.mod_eq_of_lt h]

/-- A number read from a sequence of encodings of one width. -/
theorem uint_flatMap_putUint {width : Nat} (numbers : List Nat) (rest : Bytes)
    (hlt : ∀ n ∈ numbers, n < 256 ^ width) (i : Nat) (hi : i < numbers.length) :
    uint (((numbers.flatMap (putUint width) ++ rest).drop (width * i)).take width)
      = numbers.get ⟨i, hi⟩ := by
  induction numbers generalizing i with
  | nil => cases hi
  | cons n numbers ih =>
    have happ : (n :: numbers).flatMap (putUint width) ++ rest
        = putUint width n ++ (numbers.flatMap (putUint width) ++ rest) := by
      rw [flatMap_cons, append_assoc]
    rw [happ]
    cases i with
    | zero =>
      rw [Nat.mul_zero, drop_zero, take_left' (length_putUint width n)]
      exact uint_put_uint_of_lt (hlt n mem_cons_self)
    | succ i =>
      have hdrop : (putUint width n ++ (numbers.flatMap (putUint width) ++ rest)).drop
          (width * (i + 1)) = (numbers.flatMap (putUint width) ++ rest).drop (width * i) := by
        rw [Nat.mul_succ, Nat.add_comm, ← drop_drop,
          drop_left' (length_putUint width n)]
      rw [hdrop]
      exact ih (fun m hm => hlt m (mem_cons_of_mem _ hm)) i (Nat.lt_of_succ_lt_succ hi)

/-! ## Machine words -/

/-- The largest `uint32`. -/
abbrev maxUint32 : Nat := 4294967295

/-- The number of values of a `uint64`. -/
abbrev uint64Size : Nat := 18446744073709551616

/-- The wrapping sum of two 32-bit words. -/
def add32 (a b : Nat) : Nat := (a + b) % 4294967296

/-- The wrapping difference of two 32-bit words. The modulus stands first so that the sum does not
unfold into successors. -/
def sub32 (a b : Nat) : Nat := (4294967296 + a - b) % 4294967296

/-- The difference read as a signed 32-bit number is negative. -/
def negative32 (word : Nat) : Prop := 2147483648 ≤ word

instance (word : Nat) : Decidable (negative32 word) :=
  inferInstanceAs (Decidable (_ ≤ _))

theorem sub32_of_le {a b : Nat} (h : b ≤ a) (ha : a < 2 ^ 32) : sub32 a b = a - b := by
  unfold sub32
  omega

/-- A number reduced to a signed 64-bit word. -/
def wrap64 (n : Int) : Int :=
  (9223372036854775808 + n) % 18446744073709551616 - 9223372036854775808

theorem wrap64_of_bounds {n : Int} (low : -9223372036854775808 ≤ n)
    (high : n < 9223372036854775808) : wrap64 n = n := by
  unfold wrap64
  omega

/-- Masking with a power of two minus one is the remainder by that power. -/
theorem and_mask_eq_mod {size : Nat} (h : ∃ n, size = 2 ^ n) (index : Nat) :
    index &&& (size - 1) = index % size := by
  obtain ⟨n, rfl⟩ := h
  exact Nat.and_two_pow_sub_one_eq_mod index n

/-! ## Texts -/

/-- The characters of the class `White_Space`. -/
def isSpace (c : Char) : Bool :=
  let n := c.toNat
  (9 ≤ n && n ≤ 13) || n = 32 || n = 133 || n = 160 || n = 5760 || (8192 ≤ n && n ≤ 8202) ||
    n = 8232 || n = 8233 || n = 8239 || n = 8287 || n = 12288

/-- `strings.Fields`: the pieces between white space. -/
def fields (s : String) : List String :=
  ((s.toList.splitOnP isSpace).filter (· ≠ [])).map String.ofList

end TlsVpn.Lib
