import TlsVpn.Lib.Masks

/-!
# Addresses and networks

Translation of the operations of the package `net` that the allocation of addresses rests on, over
the bytes of the addresses. `Network.contains_iff` turns the comparison of masked bytes into an
interval of numbers. The IPv4-mapped addresses are an exception: `Contains` compares them in their
short form, so an IPv6 network around that block does not contain it.
-/

namespace TlsVpn.Server

open Lib List

/-- The first 12 bytes of an IPv4-mapped address. -/
def v4InV6 : Bytes := [0, 0, 0, 0, 0, 0, 0, 0, 0, 0, 255, 255]

/-- The address is IPv4-mapped. -/
def Mapped (ip : Bytes) : Prop := ip.take 12 = v4InV6

instance (ip : Bytes) : Decidable (Mapped ip) := inferInstanceAs (Decidable (_ = _))

/-- The short form, if there is one. -/
def to4 (ip : Bytes) : Option Bytes :=
  if ip.length = 4 then some ip
  else if ip.length = 16 ∧ Mapped ip then some (ip.drop 12)
  else none

/-- The long form. -/
def to16 (ip : Bytes) : Bytes := if ip.length = 4 then v4InV6 ++ ip else ip

/-- An address and a mask. -/
structure IPNet where
  ip : Bytes
  mask : Bytes
  deriving DecidableEq

namespace IPNet

/-- The address and the mask, both in the short form if the address has one. -/
def networkNumberAndMask (n : IPNet) : Bytes × Bytes :=
  let ip := (to4 n.ip).getD n.ip
  if ip.length ≠ 4 ∧ ip.length ≠ 16 then ([], [])
  else if n.mask.length = 4 then if ip.length = 4 then (ip, n.mask) else ([], [])
  else if n.mask.length = 16 then
    if ip.length = 4 then (ip, n.mask.drop 12) else (ip, n.mask)
  else ([], [])

/-- The address agrees with the network where the mask is set. -/
def contains (n : IPNet) (ip : Bytes) : Bool :=
  let (number, mask) := n.networkNumberAndMask
  let ip := (to4 ip).getD ip
  ip.length = number.length && number.zipWith (· &&& ·) mask = ip.zipWith (· &&& ·) mask

end IPNet

/-- A network as `ParseCIDR` returns it, with addresses of `width` bytes. -/
structure Network (width : Nat) where
  ip : Bytes
  ones : Nat
  length_ip : ip.length = width
  ones_le : ones ≤ 8 * width
  masked : ip.zipWith (· &&& ·) (prefixMask width ones) = ip

/-- The network as Go has it. -/
def Network.ipNet {width : Nat} (n : Network width) : IPNet := ⟨n.ip, prefixMask width n.ones⟩

/-- The address with all bits of the host part set. -/
def Network.broadcast {width : Nat} (n : Network width) : Bytes :=
  n.ip.zipWith (fun b m => b ||| ~~~m) (prefixMask width n.ones)

/-- The byte that the search looks at. -/
def lastByte (ip : Bytes) : UInt8 := ip.getLastD 0

/-! ## Addresses as numbers -/

theorem to16_of_length {a : Bytes} (h : a.length = 16) : to16 a = a := by
  simp [to16, h]

variable {ip : Bytes}

theorem length_to16 (h : ip.length = 4 ∨ ip.length = 16) : (to16 ip).length = 16 := by
  rcases h with hshort | hlong
  · simp [to16, hshort, v4InV6]
  · rw [to16_of_length hlong, hlong]

theorem mapped_to16 (h : ip.length = 4) : Mapped (to16 ip) := by
  simp [to16, h, Mapped, v4InV6]

/-- The block of the IPv4-mapped addresses. -/
theorem mapped_iff {a : Bytes} (h : a.length = 16) :
    Mapped a ↔ 281470681743360 ≤ uint a ∧ uint a < 281474976710656 := by
  have hparts : uint a = uint (a.take 12) * 4294967296 + uint (a.drop 12) := by
    conv_lhs => rw [← take_append_drop 12 a, uint_append_bytes]
    simp [h]
  have hlow : uint (a.drop 12) < 4294967296 := by simpa [h] using uint_lt (a.drop 12)
  have hnumber : uint v4InV6 = 65535 := by decide
  have hfirst : Mapped a ↔ uint (a.take 12) = 65535 := by
    constructor
    · intro hmapped
      rw [show a.take 12 = v4InV6 from hmapped, hnumber]
    · intro hequal
      exact uint_injective (by simp [h, v4InV6]) (hequal.trans hnumber.symm)
  rw [hfirst]
  omega

theorem uint_to16 (h : ip.length = 4) : uint (to16 ip) = 281470681743360 + uint ip := by
  have hnumber : uint v4InV6 = 65535 := by decide
  rw [to16, if_pos h, uint_append_bytes, h, hnumber]
  rfl

namespace Network

variable {width : Nat} (n : Network width)

/-- The number of the first address. -/
def low : Nat := uint (to16 n.ip)

/-- The number of addresses. -/
def size : Nat := 2 ^ (8 * width - n.ones)

theorem size_pos : 0 < n.size := Nat.two_pow_pos _

variable {ip : Bytes}

theorem uint_masked (h : ip.length = width) :
    uint (ip.zipWith (· &&& ·) (prefixMask width n.ones)) = uint ip / n.size * n.size := by
  have hfits : n.ones ≤ 8 * ip.length := by
    rw [h]
    exact n.ones_le
  have hcleared := uint_and_prefixMask ip hfits
  rwa [h] at hcleared

theorem uint_ip_div : uint n.ip / n.size * n.size = uint n.ip := by
  rw [← n.uint_masked n.length_ip, n.masked]

/-- The addresses with the bits of the network are those of an interval. -/
theorem masked_eq_iff (h : ip.length = width) :
    n.ip.zipWith (· &&& ·) (prefixMask width n.ones) =
        ip.zipWith (· &&& ·) (prefixMask width n.ones) ↔
      uint n.ip ≤ uint ip ∧ uint ip < uint n.ip + n.size := by
  have hcleared := n.uint_masked h
  have hbase := n.uint_ip_div
  have hnumbers : n.ip.zipWith (· &&& ·) (prefixMask width n.ones) =
      ip.zipWith (· &&& ·) (prefixMask width n.ones) ↔ uint n.ip = uint ip / n.size * n.size := by
    rw [n.masked]
    constructor
    · intro hequal
      rw [hequal]
      exact hcleared
    · intro hequal
      refine uint_injective ?_ (hequal.trans hcleared.symm)
      rw [length_zipWith, length_prefixMask, h, n.length_ip, Nat.min_self]
  rw [hnumbers]
  constructor
  · intro hequal
    rw [hequal]
    exact ⟨Nat.div_mul_le_self _ _, Nat.lt_div_mul_add n.size_pos⟩
  · rintro ⟨hatLeast, hbelow⟩
    have hquotient : uint ip / n.size = uint n.ip / n.size := by
      refine Nat.div_eq_of_lt_le ?_ ?_
      · rw [hbase]
        exact hatLeast
      · rw [Nat.succ_mul, hbase]
        exact hbelow
    rw [hquotient, hbase]

theorem uint_add_size_le : uint n.ip + n.size ≤ 256 ^ width := by
  have htotal : n.size * 2 ^ n.ones = 256 ^ width := by
    rw [size, ← pow_add, Nat.sub_add_cancel n.ones_le, pow_mul]
    rfl
  have hbelow := uint_lt n.ip
  rw [n.length_ip, ← htotal, ← n.uint_ip_div, Nat.mul_comm n.size] at hbelow
  have hquotient : uint n.ip / n.size < 2 ^ n.ones := Nat.lt_of_mul_lt_mul_right hbelow
  rw [← n.uint_ip_div, ← htotal, ← Nat.succ_mul, Nat.mul_comm n.size]
  exact Nat.mul_le_mul_right _ hquotient

variable {a : Bytes}

/-- An IPv4 network has the addresses of an interval. -/
theorem contains_iff_short (n : Network 4) (h : a.length = 16) :
    n.ipNet.contains a = true ↔
      (n.low ≤ uint a ∧ uint a < n.low + n.size) ∧ (Mapped a ↔ Mapped (to16 n.ip)) := by
  have hlength_ip := n.length_ip
  have hnumber : n.ipNet.networkNumberAndMask = (n.ip, prefixMask 4 n.ones) := by
    simp [IPNet.networkNumberAndMask, ipNet, to4, hlength_ip]
  have hfirst := mapped_to16 hlength_ip
  by_cases hmapped : Mapped a
  · have hshort : to4 a = some (a.drop 12) := by simp [to4, h, hmapped]
    have hparts : uint a = 281470681743360 + uint (a.drop 12) := by
      have hwhole : to16 (a.drop 12) = a := by
        rw [to16, if_pos (by simp [h]), ← show a.take 12 = v4InV6 from hmapped,
          take_append_drop]
      rw [← uint_to16 (by simp [h]), hwhole]
    have hequal := n.masked_eq_iff (show (a.drop 12).length = 4 by simp [h])
    rw [IPNet.contains, hnumber, hshort]
    simp only [Option.getD_some, length_drop, h, hlength_ip, decide_true, Bool.true_and,
      decide_eq_true_eq, hequal, hmapped, hfirst, iff_self, and_true, low, uint_to16 hlength_ip]
    omega
  · have hlong : to4 a = none := by simp [to4, h, hmapped]
    simp [IPNet.contains, hnumber, hlong, h, hlength_ip, hmapped, hfirst]

/-- An IPv6 network has the addresses of an interval, without the IPv4-mapped ones unless it is a
part of that block. -/
theorem contains_iff_long (n : Network 16) (h : a.length = 16) :
    n.ipNet.contains a = true ↔
      (n.low ≤ uint a ∧ uint a < n.low + n.size) ∧ (Mapped a ↔ Mapped (to16 n.ip)) := by
  have hlength_ip := n.length_ip
  have hequal := n.masked_eq_iff h
  rw [low, to16_of_length hlength_ip, ← hequal]
  by_cases hbase : Mapped n.ip
  · have hnumber : n.ipNet.networkNumberAndMask =
        (n.ip.drop 12, (prefixMask 16 n.ones).drop 12) := by
      simp [IPNet.networkNumberAndMask, ipNet, to4, hlength_ip, hbase]
    by_cases hmapped : Mapped a
    · have hshort : to4 a = some (a.drop 12) := by simp [to4, h, hmapped]
      have hfirst : ∀ x : Bytes, Mapped x → x.zipWith (· &&& ·) (prefixMask 16 n.ones) =
          v4InV6.zipWith (· &&& ·) ((prefixMask 16 n.ones).take 12) ++
            (x.drop 12).zipWith (· &&& ·) ((prefixMask 16 n.ones).drop 12) := by
        intro x hmappedX
        rw [← show x.take 12 = v4InV6 from hmappedX, ← take_zipWith, ← drop_zipWith,
          take_append_drop]
      rw [IPNet.contains, hnumber, hshort, hfirst n.ip hbase, hfirst a hmapped]
      simp [h, hlength_ip, hbase, hmapped]
    · have hlong : to4 a = none := by simp [to4, h, hmapped]
      simp [IPNet.contains, hnumber, hlong, h, hlength_ip, hmapped, hbase]
  · have hnumber : n.ipNet.networkNumberAndMask = (n.ip, prefixMask 16 n.ones) := by
      simp [IPNet.networkNumberAndMask, ipNet, to4, hlength_ip, hbase]
    by_cases hmapped : Mapped a
    · have hshort : to4 a = some (a.drop 12) := by simp [to4, h, hmapped]
      simp [IPNet.contains, hnumber, hshort, h, hlength_ip, hmapped, hbase]
    · have hlong : to4 a = none := by simp [to4, h, hmapped]
      simp [IPNet.contains, hnumber, hlong, h, hlength_ip, hmapped, hbase]

theorem contains_iff (n : Network width) (hwidths : width = 4 ∨ width = 16) (h : a.length = 16) :
    n.ipNet.contains a = true ↔
      (n.low ≤ uint a ∧ uint a < n.low + n.size) ∧ (Mapped a ↔ Mapped (to16 n.ip)) := by
  rcases hwidths with rfl | rfl
  · exact n.contains_iff_short h
  · exact n.contains_iff_long h

/-- The two forms of an IPv4 address are the same to a network. -/
theorem contains_to16 (netw : IPNet) (h : ip.length = 4 ∨ ip.length = 16) :
    netw.contains (to16 ip) = netw.contains ip := by
  rcases h with hshort | hlong
  · have hsame : to4 (to16 ip) = to4 ip := by
      rw [to4, if_neg (by simp [length_to16 (.inl hshort)]),
        if_pos ⟨length_to16 (.inl hshort), mapped_to16 hshort⟩, to4, if_pos hshort]
      simp [to16, hshort, v4InV6]
    have hknown : to4 ip = some ip := by simp [to4, hshort]
    simp [IPNet.contains, hsame, hknown]
  · rw [to16_of_length hlong]

/-- The addresses in the order of the search. -/
def addr (j : Nat) : Bytes := to16 (increment^[j] n.ip)

theorem length_iterate (j : Nat) : (increment^[j] n.ip).length = width := by
  rw [length_iterate_increment, n.length_ip]

theorem length_addr (hwidths : width = 4 ∨ width = 16) (j : Nat) : (n.addr j).length = 16 :=
  length_to16 (by rwa [n.length_iterate])

theorem uint_addr (hwidths : width = 4 ∨ width = 16) {j : Nat} (h : j < n.size) :
    uint (n.addr j) = n.low + j := by
  have hroom := n.uint_add_size_le
  have hnumber : uint (increment^[j] n.ip) = uint n.ip + j := by
    rw [uint_iterate_increment, n.length_ip, Nat.mod_eq_of_lt (by omega)]
  rcases hwidths with rfl | rfl
  · rw [addr, uint_to16 (n.length_iterate j), hnumber, low, uint_to16 n.length_ip, Nat.add_assoc]
  · rw [addr, to16_of_length (n.length_iterate j), hnumber, low, to16_of_length n.length_ip]

/-- Every address of the network comes up in the order of the search. -/
theorem exists_addr (hwidths : width = 4 ∨ width = 16) (h : a.length = 16)
    (hcontained : n.ipNet.contains a = true) : ∃ j < n.size, n.addr j = a := by
  obtain ⟨⟨hatLeast, hbelow⟩, -⟩ := (n.contains_iff hwidths h).mp hcontained
  refine ⟨uint a - n.low, by omega, ?_⟩
  refine uint_injective (by rw [n.length_addr hwidths, h]) ?_
  rw [n.uint_addr hwidths (by omega)]
  omega

/-- A network that begins in the IPv4-mapped block lies in it. -/
theorem low_add_size_le_of_mapped (n : Network 16) (hmapped : Mapped n.ip) :
    n.low + n.size ≤ 281474976710656 := by
  obtain ⟨hatLeast, hbelow⟩ := (mapped_iff n.length_ip).mp hmapped
  have hbase := n.uint_ip_div
  rw [low, to16_of_length n.length_ip]
  -- the block is 65535 times 2^32, so a network in it has at most 32 bits for hosts
  have hbits : 8 * 16 - n.ones ≤ 32 := by
    by_contra hmany
    obtain ⟨k, hpower⟩ : ∃ k, n.size = 8589934592 * k := by
      refine ⟨2 ^ (8 * 16 - n.ones - 33), ?_⟩
      rw [size, show (8589934592 : Nat) = 2 ^ 33 from rfl, ← pow_add]
      congr 1
      omega
    rw [hpower, ← Nat.mul_assoc, Nat.mul_right_comm, Nat.mul_comm] at hbase
    omega
  obtain ⟨c, hpower⟩ : ∃ c, 4294967296 = c * n.size := by
    refine ⟨2 ^ (32 - (8 * 16 - n.ones)), ?_⟩
    rw [size, ← pow_add, Nat.sub_add_cancel hbits]
    rfl
  have hquotient : uint n.ip / n.size < 65536 * c := by
    refine Nat.lt_of_mul_lt_mul_right (a := n.size) ?_
    rw [hbase, Nat.mul_assoc, ← hpower]
    exact hbelow
  have htotal := Nat.mul_le_mul_right n.size hquotient
  rw [Nat.succ_mul, hbase, Nat.mul_assoc, ← hpower] at htotal
  exact htotal

/-- The addresses of the network up to the IPv4-mapped block, or all of them. -/
theorem mapped_addr_iff (n : Network 16) {j : Nat} (h : j < n.size) :
    (Mapped (n.addr j) ↔ Mapped (to16 n.ip)) ↔
      281470681743360 ≤ n.low ∨ n.low + j < 281470681743360 ∨ 281474976710656 ≤ n.low + j := by
  have hnumber := n.uint_addr (.inr rfl) h
  have hlength := n.length_addr (.inr rfl) j
  have hfirst := to16_of_length n.length_ip
  rw [mapped_iff hlength, hnumber]
  by_cases hbase : Mapped n.ip
  · have hroom := n.low_add_size_le_of_mapped hbase
    have hstart := (mapped_iff n.length_ip).mp hbase
    rw [hfirst]
    simp only [hbase, iff_true]
    rw [low, hfirst] at hroom ⊢
    omega
  · have hstart := mt (mapped_iff n.length_ip).mpr hbase
    rw [hfirst]
    simp only [hbase, iff_false]
    rw [low, hfirst]
    omega

/-- The search leaves an IPv4 network that is not the whole address space behind its last
address. -/
theorem exists_outside_short (n : Network 4) (h : n.ones ≠ 0) :
    ∃ i, n.ipNet.contains (n.addr i) = false := by
  refine ⟨n.size, ?_⟩
  rw [Bool.eq_false_iff]
  intro hcontained
  obtain ⟨⟨hatLeast, hbelow⟩, -⟩ := (n.contains_iff (.inl rfl) (n.length_addr (.inl rfl) _)).mp
    hcontained
  have hroom := n.uint_add_size_le
  rw [addr, uint_to16 (n.length_iterate _), uint_iterate_increment, n.length_ip, low,
    uint_to16 n.length_ip] at hatLeast hbelow
  have hsmall : n.size < 4294967296 := by
    rw [size, show (4294967296 : Nat) = 2 ^ 32 from rfl]
    exact Nat.pow_lt_pow_right (by decide) (by omega)
  have hpositive := n.size_pos
  rcases Nat.lt_or_eq_of_le hroom with hfits | hlast
  · rw [Nat.mod_eq_of_lt hfits] at hbelow
    omega
  · rw [hlast, Nat.mod_self] at hatLeast
    omega

/-- The search leaves an IPv6 network at the IPv4-mapped block or behind its last address. -/
theorem exists_outside_long (n : Network 16) : ∃ i, n.ipNet.contains (n.addr i) = false := by
  have hpositive := n.size_pos
  have hroom := n.uint_add_size_le
  have hfirst : n.low = uint n.ip := by rw [low, to16_of_length n.length_ip]
  by_cases hblock : n.low < 281470681743360 ∧ 281470681743360 < n.low + n.size
  · refine ⟨281470681743360 - n.low, Bool.eq_false_iff.mpr fun hcontained => ?_⟩
    have hsame := ((n.contains_iff (.inr rfl) (n.length_addr (.inr rfl) _)).mp hcontained).2
    rw [n.mapped_addr_iff (by omega)] at hsame
    omega
  · refine ⟨n.size, Bool.eq_false_iff.mpr fun hcontained => ?_⟩
    obtain ⟨⟨hatLeast, hbelow⟩, -⟩ := (n.contains_iff (.inr rfl) (n.length_addr (.inr rfl) _)).mp
      hcontained
    rw [addr, to16_of_length (n.length_iterate _), uint_iterate_increment, n.length_ip] at hatLeast
    rw [addr, to16_of_length (n.length_iterate _), uint_iterate_increment, n.length_ip] at hbelow
    rcases Nat.lt_or_eq_of_le hroom with hfits | hlast
    · rw [Nat.mod_eq_of_lt hfits] at hbelow
      omega
    · rw [hlast, Nat.mod_self] at hatLeast
      omega

/-- The whole IPv4 address space is never left. -/
theorem contains_of_ones_zero (n : Network 4) (h : n.ones = 0) (j : Nat) :
    n.ipNet.contains (n.addr j) = true := by
  have hroom := n.uint_add_size_le
  have hwhole : n.size = 4294967296 := by rw [size, h]; rfl
  rw [n.contains_iff (.inl rfl) (n.length_addr (.inl rfl) j)]
  have hmapped := mapped_to16 (n.length_iterate j)
  refine ⟨?_, iff_of_true hmapped (mapped_to16 n.length_ip)⟩
  obtain ⟨hatLeast, hbelow⟩ := (mapped_iff (n.length_addr (.inl rfl) j)).mp hmapped
  rw [low, uint_to16 n.length_ip]
  omega

end Network

end TlsVpn.Server
