import TlsVpn.Lib.Search
import TlsVpn.Server.Networks
import TlsVpn.Server.Registry

/-!
# Address allocation

Translation of `assignIPsLocked` over the bytes of the addresses. `ParseIP` is a function that the
model is given. A text and the address it was printed from are the same here: `String` gives one
text for an IPv4 address and its IPv4-mapped form and different texts otherwise, so an entry of a
used set is an address in its form of 16 bytes.

`allocation_correct_iff` says when the result is what the allocation is for. A client that asks for
the broadcast address gets it, and in a network of fewer than 256 addresses the search gives out the
address of the network (`reserved_address_assigned`).
-/

namespace TlsVpn.Server

open Lib

/-! ## The allocation -/

/-- The address that a request asks for, without the length of a mask behind it. -/
def requested (parseIP : String → Option Bytes) (req : String) : Option Bytes :=
  parseIP (String.ofList (req.toList.takeWhile (· ≠ '/')))

/-- The request is honoured if its address is in the network and not used. -/
def honoured (parseIP : String → Option Bytes) (req : String) (netw : IPNet)
    (used : Finset Bytes) : Option Bytes :=
  ((requested parseIP req).filter fun ip => netw.contains ip ∧ to16 ip ∉ used).map to16

/-- The address may be assigned by the search. -/
def candidate (used : Finset Bytes) (ip : Bytes) : Bool :=
  to16 ip ∉ used ∧ lastByte ip ≠ 0 ∧ lastByte ip ≠ 255

/-- The address that is found, if the call returns. -/
def allocate (parseIP : String → Option Bytes) (fuel : Nat) (req : String) (netw : IPNet)
    (used : Finset Bytes) : Option (Option Bytes) :=
  match honoured parseIP req netw used with
  | some ip => some (some ip)
  | none =>
    (search netw.contains (candidate used) increment fuel netw.ip).map fun ip => ip.map to16

/-- What a call returns, with the used sets that it leaves. -/
structure Assignment where
  ips : Option (Bytes × Bytes)
  usedV4 : Finset Bytes
  usedV6 : Finset Bytes

/-- The first address is given back if there is no second one. -/
def assignIPsLocked (parseIP : String → Option Bytes) (fuel : Nat) (v4Net v6Net : IPNet)
    (usedV4 usedV6 : Finset Bytes) (reqV4 reqV6 : String) : Option Assignment :=
  match allocate parseIP fuel reqV4 v4Net usedV4 with
  | none => none
  | some none => some ⟨none, usedV4, usedV6⟩
  | some (some v4) =>
    let usedV4 := insert v4 usedV4
    match allocate parseIP fuel reqV6 v6Net usedV6 with
    | none => none
    | some none => some ⟨none, usedV4.erase v4, usedV6⟩
    | some (some v6) => some ⟨some (v4, v6), usedV4, insert v6 usedV6⟩

/-! ## What the allocation is for -/

/-- A network with the addresses that are used, among them its gateway. -/
structure AddressPool (width : Nat) where
  net : Network width
  used : Finset Bytes
  gateway : to16 (increment net.ip) ∈ used

namespace AddressPool

variable {width : Nat}

/-- The address can still be assigned. -/
structure Free (p : AddressPool width) (a : Bytes) : Prop where
  length : a.length = 16
  contains : p.net.ipNet.contains a = true
  candidate : candidate p.used a = true

/-- The address of a request, if it is honoured. -/
def honours (p : AddressPool width) (parseIP : String → Option Bytes) (req : String) :
    Option Bytes :=
  honoured parseIP req p.net.ipNet p.used

/-- An address for a session is in the network, was not used, and is not the gateway or one of the
reserved addresses. -/
structure Assigned (p : AddressPool width) (reserved : List Bytes) (a : Bytes)
    (used : Finset Bytes) : Prop where
  contains : p.net.ipNet.contains a = true
  unused : a ∉ p.used
  not_gateway : a ≠ to16 (increment p.net.ip)
  not_reserved : a ∉ reserved
  used_eq : used = insert a p.used

/-- The request is honoured, or an address is free. -/
def Allocatable (p : AddressPool width) (parseIP : String → Option Bytes) (req : String) : Prop :=
  p.honours parseIP req ≠ none ∨ ∃ a, p.Free a

/-- The request is honoured with a reserved address, or it is not honoured and the first free
address is a reserved one. -/
def TakesReserved (p : AddressPool width) (parseIP : String → Option Bytes) (req : String)
    (reserved : List Bytes) : Prop :=
  match p.honours parseIP req with
  | some a => a ∈ reserved
  | none => ∃ a ∈ reserved, p.Free a ∧ ∀ a', p.Free a' → uint a ≤ uint a'

/-- The request is not honoured, and the free addresses are all behind the IPv4-mapped block, which
the network does not contain although it goes around it. -/
def Overlooked (p : AddressPool width) (parseIP : String → Option Bytes) (req : String) : Prop :=
  p.honours parseIP req = none ∧ (∃ a, p.Free a) ∧ uint (to16 p.net.ip) < 281470681743360 ∧
    ∀ a, p.Free a → 281470681743360 ≤ uint a

/-- Nothing can be assigned. -/
def Exhausted (p : AddressPool width) (parseIP : String → Option Bytes) (req : String) : Prop :=
  (∀ a, ¬ p.Free a) ∧ p.honours parseIP req = none

end AddressPool

/-- The addresses of the IPv4 network that no session may have. -/
def reservedV4 (p : AddressPool 4) : List Bytes := [to16 p.net.ip, to16 p.net.broadcast]

/-- The address of the network. -/
def reservedV6 (p : AddressPool 16) : List Bytes := [p.net.ip]

section Specification

variable (parseIP : String → Option Bytes) (v4 : AddressPool 4) (v6 : AddressPool 16)
  (reqV4 reqV6 : String)

/-- The result is safe, and a failure is justified. -/
structure Correct (r : Assignment) : Prop where
  success : ∀ a4 a6, r.ips = some (a4, a6) →
    v4.Assigned (reservedV4 v4) a4 r.usedV4 ∧ v6.Assigned (reservedV6 v6) a6 r.usedV6
  failure : r.ips = none → r.usedV4 = v4.used ∧ r.usedV6 = v6.used ∧
    (v4.Exhausted parseIP reqV4 ∨ v6.Exhausted parseIP reqV6)

/-- When every result is correct. -/
structure Regular : Prop where
  placed : v4.Allocatable parseIP reqV4 → v6.Allocatable parseIP reqV6 →
    ¬ v4.TakesReserved parseIP reqV4 (reservedV4 v4) ∧
      ¬ v6.TakesReserved parseIP reqV6 (reservedV6 v6)
  reached : v4.Allocatable parseIP reqV4 → ¬ v6.Overlooked parseIP reqV6

/-- The results of the call, with any fuel. -/
def Returns (r : Assignment) : Prop :=
  ∃ fuel, assignIPsLocked parseIP fuel v4.net.ipNet v6.net.ipNet v4.used v6.used reqV4 reqV6 =
    some r

end Specification

/-! ## The search -/

theorem lastByte_to16 {ip : Bytes} (h : ip.length = 4 ∨ ip.length = 16) :
    lastByte (to16 ip) = lastByte ip := by
  rcases h with hshort | hlong
  · have hnonempty : ip ≠ [] := by
      rintro rfl
      cases hshort
    simp [lastByte, to16, hshort, List.getLastD_eq_getLast?,
      List.getLast?_append_of_ne_nil _ hnonempty]
  · rw [to16_of_length hlong]

theorem candidate_to16 (used : Finset Bytes) {ip : Bytes} (h : ip.length = 4 ∨ ip.length = 16) :
    candidate used (to16 ip) = candidate used ip := by
  rw [candidate, candidate, to16_of_length (length_to16 h), lastByte_to16 h]

namespace AddressPool

variable {width : Nat} {p : AddressPool width}

/-- What the loop of the source sees at a position. -/
theorem free_addr (hwidths : width = 4 ∨ width = 16) (j : Nat) :
    p.Free (p.net.addr j) ↔
      p.net.ipNet.contains (increment^[j] p.net.ip) = true ∧
        candidate p.used (increment^[j] p.net.ip) = true := by
  have hlength : (increment^[j] p.net.ip).length = 4 ∨ (increment^[j] p.net.ip).length = 16 := by
    rwa [p.net.length_iterate]
  have hcontains := Network.contains_to16 p.net.ipNet hlength
  have hcandidates := candidate_to16 p.used hlength
  constructor
  · intro hfree
    exact ⟨hcontains ▸ hfree.contains, hcandidates ▸ hfree.candidate⟩
  · rintro ⟨hinside, hfound⟩
    exact ⟨length_to16 hlength, hcontains.trans hinside, hcandidates.trans hfound⟩

/-- The loop of the source, from the address of the network on. -/
def scan (p : AddressPool width) (fuel : Nat) : Option (Option Bytes) :=
  (search p.net.ipNet.contains (candidate p.used) increment fuel p.net.ip).map (·.map to16)

variable {fuel : Nat} {a : Bytes}

/-- What the search finds is the first free address. -/
theorem scan_found (hwidths : width = 4 ∨ width = 16) (h : p.scan fuel = some (some a)) :
    p.Free a ∧ ∀ a', p.Free a' → uint a ≤ uint a' := by
  obtain ⟨r, hsearched, hmapped⟩ := Option.map_eq_some_iff.mp h
  obtain ⟨ip, rfl, rfl⟩ := Option.map_eq_some_iff.mp hmapped
  obtain ⟨i, rfl, hfound, hpassed, hmissed⟩ := search_found hsearched
  refine ⟨(free_addr hwidths i).mpr ⟨hpassed i (Nat.le_refl i), hfound⟩, fun a' hfree => ?_⟩
  obtain ⟨j, hinside, rfl⟩ := p.net.exists_addr hwidths hfree.length hfree.contains
  have hnotBefore : i ≤ j := by
    by_contra hbefore
    have hcandidate := ((free_addr hwidths j).mp hfree).2
    rw [hmissed j (by omega)] at hcandidate
    cases hcandidate
  show uint (p.net.addr i) ≤ uint (p.net.addr j)
  rw [p.net.uint_addr hwidths hinside, p.net.uint_addr hwidths (by omega)]
  omega

/-- The search does not get past the beginning of the IPv4-mapped block. -/
theorem scan_before_block {p : AddressPool 16} (h : p.scan fuel = some (some a))
    (hstart : p.net.low < 281470681743360) : uint a < 281470681743360 := by
  have hfree := (scan_found (.inr rfl) h).1
  obtain ⟨r, hsearched, hmapped⟩ := Option.map_eq_some_iff.mp h
  obtain ⟨ip, rfl, rfl⟩ := Option.map_eq_some_iff.mp hmapped
  obtain ⟨i, rfl, -, hpassed, -⟩ := search_found hsearched
  by_contra hbehind
  obtain ⟨⟨-, hbelow⟩, -⟩ := (p.net.contains_iff (.inr rfl) hfree.length).mp hfree.contains
  have hnotBefore : 281470681743360 - p.net.low ≤ i := by
    by_contra hbefore
    have hnumber : uint (p.net.addr i) = p.net.low + i := p.net.uint_addr (.inr rfl) (by omega)
    rw [Network.addr] at hnumber
    omega
  have hcontained := hpassed _ hnotBefore
  rw [← Network.contains_to16 _ (by rw [p.net.length_iterate]; exact .inr rfl)] at hcontained
  have hsame := ((p.net.contains_iff (.inr rfl) (p.net.length_addr (.inr rfl) _)).mp hcontained).2
  rw [p.net.mapped_addr_iff (by omega)] at hsame
  omega

/-- The search goes past no free address, but it may end where the IPv4-mapped block begins. -/
theorem scan_stopped (hwidths : width = 4 ∨ width = 16) (h : p.scan fuel = some none)
    (hfree : p.Free a) : width = 16 ∧ p.net.low < 281470681743360 ∧ 281470681743360 ≤ uint a := by
  obtain ⟨r, hsearched, hmapped⟩ := Option.map_eq_some_iff.mp h
  cases Option.map_eq_none_iff.mp hmapped
  obtain ⟨i, houtside, hmissed⟩ := search_stopped hsearched
  obtain ⟨j, hinside, rfl⟩ := p.net.exists_addr hwidths hfree.length hfree.contains
  have hseen := (free_addr hwidths j).mp hfree
  have hlater : i < j := by
    rcases Nat.lt_trichotomy i j with hbefore | hsame | hafter
    · exact hbefore
    · rw [hsame, hseen.1] at houtside
      cases houtside
    · rw [hmissed j hafter] at hseen
      cases hseen.2
  have hleft : ¬ p.net.ipNet.contains (p.net.addr i) = true := by
    rw [Network.addr, Network.contains_to16 _ (by rwa [p.net.length_iterate]), houtside]
    exact Bool.false_ne_true
  have hnumber := p.net.uint_addr hwidths (Nat.lt_trans hlater hinside)
  rw [p.net.contains_iff hwidths (p.net.length_addr hwidths i), hnumber] at hleft
  have hnotMapped : ¬ (Mapped (p.net.addr i) ↔ Mapped (to16 p.net.ip)) :=
    fun hsame => hleft ⟨by omega, hsame⟩
  rcases hwidths with rfl | rfl
  · -- every address of an IPv4 network is in the block
    exact absurd (iff_of_true (mapped_to16 (p.net.length_iterate i))
      (mapped_to16 p.net.length_ip)) hnotMapped
  · rw [p.net.mapped_addr_iff (Nat.lt_trans hlater hinside)] at hnotMapped
    rw [p.net.uint_addr (.inr rfl) hinside]
    omega

theorem scan_mono {fuel' : Nat} (hle : fuel ≤ fuel') {r : Option Bytes} (h : p.scan fuel = some r) :
    p.scan fuel' = some r := by
  obtain ⟨found, hsearched, rfl⟩ := Option.map_eq_some_iff.mp h
  rw [scan, search_mono hle hsearched]
  rfl

/-- The search returns where it leaves the network or meets a free address. -/
theorem scan_returns (hwidths : width = 4 ∨ width = 16)
    (h : (∃ i, p.net.ipNet.contains (p.net.addr i) = false) ∨ ∃ a, p.Free a) :
    ∃ fuel r, p.scan fuel = some r := by
  obtain ⟨i, hends⟩ : ∃ i, p.net.ipNet.contains (increment^[i] p.net.ip) = false ∨
      candidate p.used (increment^[i] p.net.ip) = true := by
    rcases h with ⟨i, houtside⟩ | ⟨a, hfree⟩
    · refine ⟨i, .inl ?_⟩
      rwa [Network.addr, Network.contains_to16 _ (by rwa [p.net.length_iterate])] at houtside
    · obtain ⟨j, -, rfl⟩ := p.net.exists_addr hwidths hfree.length hfree.contains
      exact ⟨j, .inr ((free_addr hwidths j).mp hfree).2⟩
  obtain ⟨r, hsearched⟩ := search_returns hends
  exact ⟨i + 1, r.map to16, by rw [scan, hsearched]; rfl⟩

/-- In the whole IPv4 address space the search goes on for ever if nothing is free. -/
theorem scan_endless {p : AddressPool 4} (h : p.net.ones = 0) (hnone : ∀ a, ¬ p.Free a)
    (fuel : Nat) : p.scan fuel = Option.none := by
  cases hresult : p.scan fuel with
  | none => rfl
  | some r =>
    cases r with
    | some a => exact absurd (scan_found (.inl rfl) hresult).1 (hnone a)
    | none =>
      obtain ⟨r, hsearched, hmapped⟩ := Option.map_eq_some_iff.mp hresult
      cases Option.map_eq_none_iff.mp hmapped
      obtain ⟨i, houtside, -⟩ := search_stopped hsearched
      have hinside := p.net.contains_of_ones_zero h i
      rw [Network.addr, Network.contains_to16 _ (by rw [p.net.length_iterate]; exact .inl rfl),
        houtside] at hinside
      cases hinside

/-! ## One family -/

section Allocate

variable {parseIP : String → Option Bytes} {req : String}

/-- An address is given out with some fuel, or it is said that there is none. -/
def Gives (p : AddressPool width) (parseIP : String → Option Bytes) (req : String) (fuel : Nat)
    (r : Option Bytes) : Prop :=
  allocate parseIP fuel req p.net.ipNet p.used = some r

variable {fuel : Nat}

theorem gives_iff {r : Option Bytes} :
    p.Gives parseIP req fuel r ↔
      (p.honours parseIP req).isSome ∧ r = p.honours parseIP req ∨
        p.honours parseIP req = none ∧ p.scan fuel = some r := by
  rw [Gives, allocate, ← honours]
  cases p.honours parseIP req with
  | none => simp [scan, Network.ipNet]
  | some a => simp [eq_comm]

theorem Gives.mono {fuel' : Nat} {r : Option Bytes} (h : p.Gives parseIP req fuel r)
    (hle : fuel ≤ fuel') : p.Gives parseIP req fuel' r := by
  rw [gives_iff] at h ⊢
  exact h.imp_right fun ⟨hrefused, hscanned⟩ => ⟨hrefused, scan_mono hle hscanned⟩

/-- An address that a network contains has one of the two lengths. -/
theorem length_of_contains (hwidths : width = 4 ∨ width = 16) {ip : Bytes}
    (h : p.net.ipNet.contains ip = true) : ip.length = 4 ∨ ip.length = 16 := by
  have hnumber : p.net.ipNet.networkNumberAndMask.1.length = 4 ∨
      p.net.ipNet.networkNumberAndMask.1.length = 16 := by
    have hlength_ip := p.net.length_ip
    rcases hwidths with rfl | rfl
    · simp [IPNet.networkNumberAndMask, Network.ipNet, to4, hlength_ip]
    · by_cases hmapped : Mapped p.net.ip
      · simp [IPNet.networkNumberAndMask, Network.ipNet, to4, hlength_ip, hmapped]
      · simp [IPNet.networkNumberAndMask, Network.ipNet, to4, hlength_ip, hmapped]
  have hcompared : ((to4 ip).getD ip).length = p.net.ipNet.networkNumberAndMask.1.length :=
    of_decide_eq_true (Bool.and_eq_true_iff.mp h).1
  by_cases hshort : ip.length = 4
  · exact .inl hshort
  · by_cases hlong : ip.length = 16
    · exact .inr hlong
    · have hsame : to4 ip = none := by simp [to4, hshort, hlong]
      rw [hsame] at hcompared
      exact hcompared ▸ hnumber

variable {a : Bytes}

theorem honours_spec (hwidths : width = 4 ∨ width = 16) (h : p.honours parseIP req = some a) :
    p.net.ipNet.contains a = true ∧ a ∉ p.used := by
  obtain ⟨ip, hfound, rfl⟩ := Option.map_eq_some_iff.mp h
  obtain ⟨hcontained, hunused⟩ := of_decide_eq_true (Option.filter_eq_some_iff.mp hfound).2
  exact ⟨(Network.contains_to16 _ (length_of_contains hwidths hcontained)).trans hcontained,
    hunused⟩

/-- What is given out is the address of the request or the first free one. -/
theorem Gives.some_cases (hwidths : width = 4 ∨ width = 16)
    (h : p.Gives parseIP req fuel (some a)) :
    p.honours parseIP req = some a ∨
      p.honours parseIP req = none ∧ p.Free a ∧ ∀ a', p.Free a' → uint a ≤ uint a' := by
  rcases gives_iff.mp h with ⟨-, hgranted⟩ | ⟨hrefused, hscanned⟩
  · exact .inl hgranted.symm
  · exact .inr ⟨hrefused, scan_found hwidths hscanned⟩

theorem Gives.none_cases (hwidths : width = 4 ∨ width = 16) (h : p.Gives parseIP req fuel none) :
    p.honours parseIP req = none ∧ ∀ a, p.Free a →
      width = 16 ∧ p.net.low < 281470681743360 ∧ 281470681743360 ≤ uint a := by
  rcases gives_iff.mp h with ⟨hgranted, hsame⟩ | ⟨hrefused, hscanned⟩
  · rw [← hsame] at hgranted
    cases hgranted
  · exact ⟨hrefused, fun a hfree => scan_stopped hwidths hscanned hfree⟩

theorem Gives.allocatable (hwidths : width = 4 ∨ width = 16)
    (h : p.Gives parseIP req fuel (some a)) : p.Allocatable parseIP req := by
  rcases h.some_cases hwidths with hgranted | ⟨-, hfree, -⟩
  · exact .inl (by simp [hgranted])
  · exact .inr ⟨a, hfree⟩

/-- Whether a reserved address is taken depends only on the pool and the request. -/
theorem Gives.takesReserved_iff (hwidths : width = 4 ∨ width = 16)
    (h : p.Gives parseIP req fuel (some a)) (reserved : List Bytes) :
    p.TakesReserved parseIP req reserved ↔ a ∈ reserved := by
  rcases h.some_cases hwidths with hgranted | ⟨hrefused, hfree, hleast⟩
  · simp [TakesReserved, hgranted]
  · rw [TakesReserved, hrefused]
    constructor
    · rintro ⟨a', hlisted, hfree', hleast'⟩
      have hsame : a' = a := uint_injective (by rw [hfree'.length, hfree.length])
        (Nat.le_antisymm (hleast' a hfree) (hleast a' hfree'))
      rwa [hsame] at hlisted
    · exact fun hlisted => ⟨a, hlisted, hfree, hleast⟩

/-- Everything but the reserved addresses. -/
theorem Gives.assigned (hwidths : width = 4 ∨ width = 16) (h : p.Gives parseIP req fuel (some a))
    {reserved : List Bytes} (hplaced : a ∉ reserved) : p.Assigned reserved a (insert a p.used) := by
  have hspec : p.net.ipNet.contains a = true ∧ a ∉ p.used := by
    rcases h.some_cases hwidths with hgranted | ⟨-, hfree, -⟩
    · exact honours_spec hwidths hgranted
    · have hunused := (of_decide_eq_true hfree.candidate).1
      rw [to16_of_length hfree.length] at hunused
      exact ⟨hfree.contains, hunused⟩
  exact ⟨hspec.1, hspec.2, fun hgateway => hspec.2 (hgateway ▸ p.gateway), hplaced, rfl⟩

/-- The call for one family returns if the search does. -/
theorem exists_gives (h : p.honours parseIP req ≠ none ∨ ∃ fuel r, p.scan fuel = some r) :
    ∃ fuel r, p.Gives parseIP req fuel r := by
  cases hgranted : p.honours parseIP req with
  | some a => exact ⟨0, some a, gives_iff.mpr (.inl ⟨by simp [hgranted], hgranted.symm⟩)⟩
  | none =>
    obtain ⟨fuel, r, hscanned⟩ := h.resolve_left fun hsome => hsome hgranted
    exact ⟨fuel, r, gives_iff.mpr (.inr ⟨hgranted, hscanned⟩)⟩

end Allocate

end AddressPool

/-! ## Both families -/

section Assign

variable {parseIP : String → Option Bytes} {v4 : AddressPool 4} {v6 : AddressPool 16}
  {reqV4 reqV6 : String}

open AddressPool

/-- The results of the call from those for the two families. -/
theorem returns_iff {r : Assignment} :
    Returns parseIP v4 v6 reqV4 reqV6 r ↔
      (∃ fuel, v4.Gives parseIP reqV4 fuel none) ∧ r = ⟨none, v4.used, v6.used⟩ ∨
        ∃ fuel a4, v4.Gives parseIP reqV4 fuel (some a4) ∧
          (v6.Gives parseIP reqV6 fuel none ∧
              r = ⟨none, (insert a4 v4.used).erase a4, v6.used⟩ ∨
            ∃ a6, v6.Gives parseIP reqV6 fuel (some a6) ∧
              r = ⟨some (a4, a6), insert a4 v4.used, insert a6 v6.used⟩) := by
  constructor
  · rintro ⟨fuel, hreturned⟩
    rw [assignIPsLocked] at hreturned
    split at hreturned
    · cases hreturned
    · rename_i hfailed
      cases hreturned
      exact .inl ⟨⟨fuel, hfailed⟩, rfl⟩
    · rename_i a4 hgives4
      refine .inr ⟨fuel, a4, hgives4, ?_⟩
      split at hreturned
      · cases hreturned
      · rename_i hfailed
        cases hreturned
        exact .inl ⟨hfailed, rfl⟩
      · rename_i a6 hgives6
        cases hreturned
        exact .inr ⟨a6, hgives6, rfl⟩
  · rintro (⟨⟨fuel, hfailed⟩, rfl⟩ | ⟨fuel, a4, hgives4, ⟨hfailed, rfl⟩ | ⟨a6, hgives6, rfl⟩⟩)
    · rw [Gives] at hfailed
      exact ⟨fuel, by simp [assignIPsLocked, hfailed]⟩
    · rw [Gives] at hgives4 hfailed
      exact ⟨fuel, by simp [assignIPsLocked, hgives4, hfailed]⟩
    · rw [Gives] at hgives4 hgives6
      exact ⟨fuel, by simp [assignIPsLocked, hgives4, hgives6]⟩

/-- The search in the IPv4 network never ends. -/
def Endless (parseIP : String → Option Bytes) (v4 : AddressPool 4) (reqV4 : String) : Prop :=
  v4.net.ones = 0 ∧ v4.Exhausted parseIP reqV4

theorem gives_v4 (h : ¬ Endless parseIP v4 reqV4) :
    ∃ fuel r, v4.Gives parseIP reqV4 fuel r := by
  refine exists_gives ?_
  by_cases hgranted : v4.honours parseIP reqV4 = none
  · refine .inr (scan_returns (.inl rfl) ?_)
    by_cases hwhole : v4.net.ones = 0
    · right
      by_contra hnone
      exact h ⟨hwhole, not_exists.mp hnone, hgranted⟩
    · exact .inl (v4.net.exists_outside_short hwhole)
  · exact .inl hgranted

theorem gives_v6 (parseIP : String → Option Bytes) (v6 : AddressPool 16) (reqV6 : String) :
    ∃ fuel r, v6.Gives parseIP reqV6 fuel r :=
  exists_gives (.inr (scan_returns (.inr rfl) (.inl v6.net.exists_outside_long)))

/-- An allocatable IPv4 pool gives an address. -/
theorem gives_some_v4 (h : v4.Allocatable parseIP reqV4) :
    ∃ fuel a, v4.Gives parseIP reqV4 fuel (some a) := by
  have hends : ¬ Endless parseIP v4 reqV4 := by
    rintro ⟨-, hnone, hrefused⟩
    rcases h with hgranted | ⟨a, hfree⟩
    · exact hgranted hrefused
    · exact hnone a hfree
  obtain ⟨fuel, r, hgives⟩ := gives_v4 hends
  cases r with
  | some a => exact ⟨fuel, a, hgives⟩
  | none =>
    obtain ⟨hrefused, hstopped⟩ := hgives.none_cases (.inl rfl)
    rcases h with hgranted | ⟨a, hfree⟩
    · exact absurd hrefused hgranted
    · cases (hstopped a hfree).1

/-- An allocatable IPv6 pool gives an address, unless it overlooks the free ones. -/
theorem gives_some_v6 (h : v6.Allocatable parseIP reqV6)
    (hreached : ¬ v6.Overlooked parseIP reqV6) :
    ∃ fuel a, v6.Gives parseIP reqV6 fuel (some a) := by
  obtain ⟨fuel, r, hgives⟩ := gives_v6 parseIP v6 reqV6
  cases r with
  | some a => exact ⟨fuel, a, hgives⟩
  | none =>
    obtain ⟨hrefused, hstopped⟩ := hgives.none_cases (.inr rfl)
    obtain ⟨a, hfree⟩ := h.resolve_left fun hgranted => hgranted hrefused
    exact absurd ⟨hrefused, ⟨a, hfree⟩, (hstopped a hfree).2.1,
      fun a hfree => (hstopped a hfree).2.2⟩ hreached

/-- A pool that overlooks its free addresses gives none. -/
theorem gives_none_v6 (h : v6.Overlooked parseIP reqV6) :
    ∃ fuel, v6.Gives parseIP reqV6 fuel none := by
  obtain ⟨hrefused, -, hstart, hbehind⟩ := h
  obtain ⟨fuel, r, hgives⟩ := gives_v6 parseIP v6 reqV6
  cases r with
  | none => exact ⟨fuel, hgives⟩
  | some a =>
    rcases gives_iff.mp hgives with ⟨hgranted, -⟩ | ⟨-, hscanned⟩
    · rw [hrefused] at hgranted
      cases hgranted
    · have hfree := (scan_found (.inr rfl) hscanned).1
      have hbefore := scan_before_block hscanned hstart
      have hafter := hbehind a hfree
      omega

/-- Two families that give an address give it with the same fuel. -/
theorem returns_some {fuel4 fuel6 : Nat} {a4 a6 : Bytes}
    (hgives4 : v4.Gives parseIP reqV4 fuel4 (some a4))
    (hgives6 : v6.Gives parseIP reqV6 fuel6 (some a6)) :
    Returns parseIP v4 v6 reqV4 reqV6
      ⟨some (a4, a6), insert a4 v4.used, insert a6 v6.used⟩ :=
  returns_iff.mpr (.inr ⟨max fuel4 fuel6, a4, hgives4.mono (Nat.le_max_left _ _),
    .inr ⟨a6, hgives6.mono (Nat.le_max_right _ _), rfl⟩⟩)

theorem returns_none {fuel4 fuel6 : Nat} {a4 : Bytes}
    (hgives4 : v4.Gives parseIP reqV4 fuel4 (some a4))
    (hgives6 : v6.Gives parseIP reqV6 fuel6 none) :
    Returns parseIP v4 v6 reqV4 reqV6 ⟨none, (insert a4 v4.used).erase a4, v6.used⟩ :=
  returns_iff.mpr (.inr ⟨max fuel4 fuel6, a4, hgives4.mono (Nat.le_max_left _ _),
    .inl ⟨hgives6.mono (Nat.le_max_right _ _), rfl⟩⟩)

theorem exists_returns_iff :
    (∃ r, Returns parseIP v4 v6 reqV4 reqV6 r) ↔ ¬ Endless parseIP v4 reqV4 := by
  constructor
  · rintro ⟨r, hreturned⟩ ⟨hwhole, hnone, hrefused⟩
    have hgives : ∃ fuel r, v4.Gives parseIP reqV4 fuel r := by
      rcases returns_iff.mp hreturned with ⟨⟨fuel, hfailed⟩, -⟩ | ⟨fuel, a4, hgives4, -⟩
      · exact ⟨fuel, _, hfailed⟩
      · exact ⟨fuel, _, hgives4⟩
    obtain ⟨fuel, r, hgives⟩ := hgives
    rcases gives_iff.mp hgives with ⟨hgranted, -⟩ | ⟨-, hscanned⟩
    · rw [hrefused] at hgranted
      cases hgranted
    · rw [scan_endless hwhole hnone] at hscanned
      cases hscanned
  · intro hends
    obtain ⟨fuel4, r4, hgives4⟩ := gives_v4 hends
    obtain ⟨fuel6, r6, hgives6⟩ := gives_v6 parseIP v6 reqV6
    cases r4 with
    | none => exact ⟨_, returns_iff.mpr (.inl ⟨⟨fuel4, hgives4⟩, rfl⟩)⟩
    | some a4 =>
      cases r6 with
      | none => exact ⟨_, returns_none hgives4 hgives6⟩
      | some a6 => exact ⟨_, returns_some hgives4 hgives6⟩

theorem regular_of_correct
    (hcorrect : ∀ r, Returns parseIP v4 v6 reqV4 reqV6 r →
      Correct parseIP v4 v6 reqV4 reqV6 r) : Regular parseIP v4 v6 reqV4 reqV6 := by
  have hreached : v4.Allocatable parseIP reqV4 → ¬ v6.Overlooked parseIP reqV6 := by
    intro hallocatable hoverlooked
    obtain ⟨fuel4, a4, hgives4⟩ := gives_some_v4 hallocatable
    obtain ⟨fuel6, hgives6⟩ := gives_none_v6 hoverlooked
    obtain ⟨-, -, hexhausted⟩ := (hcorrect _ (returns_none hgives4 hgives6)).failure rfl
    rcases hexhausted with ⟨hnone, hrefused⟩ | ⟨hnone, -⟩
    · rcases hallocatable with hgranted | ⟨a, hfree⟩
      · exact hgranted hrefused
      · exact hnone a hfree
    · obtain ⟨a, hfree⟩ := hoverlooked.2.1
      exact hnone a hfree
  refine ⟨fun hallocatable4 hallocatable6 => ?_, hreached⟩
  obtain ⟨fuel4, a4, hgives4⟩ := gives_some_v4 hallocatable4
  obtain ⟨fuel6, a6, hgives6⟩ := gives_some_v6 hallocatable6 (hreached hallocatable4)
  obtain ⟨hassigned4, hassigned6⟩ := (hcorrect _ (returns_some hgives4 hgives6)).success a4 a6 rfl
  rw [hgives4.takesReserved_iff (.inl rfl), hgives6.takesReserved_iff (.inr rfl)]
  exact ⟨hassigned4.not_reserved, hassigned6.not_reserved⟩

theorem correct_of_regular (hregular : Regular parseIP v4 v6 reqV4 reqV6) {r : Assignment}
    (hreturned : Returns parseIP v4 v6 reqV4 reqV6 r) : Correct parseIP v4 v6 reqV4 reqV6 r := by
  rcases returns_iff.mp hreturned with
    ⟨⟨fuel, hfailed⟩, rfl⟩ | ⟨fuel, a4, hgives4, ⟨hfailed, rfl⟩ | ⟨a6, hgives6, rfl⟩⟩
  · obtain ⟨hrefused, hstopped⟩ := hfailed.none_cases (.inl rfl)
    have hnone : ∀ a, ¬ v4.Free a := by
      intro a hfree
      cases (hstopped a hfree).1
    exact ⟨nofun, fun _ => ⟨rfl, rfl, .inl ⟨hnone, hrefused⟩⟩⟩
  · obtain ⟨hrefused, hstopped⟩ := hfailed.none_cases (.inr rfl)
    have hnone : ∀ a, ¬ v6.Free a := fun a hfree =>
      hregular.reached (hgives4.allocatable (.inl rfl))
        ⟨hrefused, ⟨a, hfree⟩, (hstopped a hfree).2.1, fun a hfree => (hstopped a hfree).2.2⟩
    have hunused : a4 ∉ v4.used := (hgives4.assigned (.inl rfl) (List.not_mem_nil)).unused
    exact ⟨nofun, fun _ => ⟨Finset.erase_insert hunused, rfl, .inr ⟨hnone, hrefused⟩⟩⟩
  · obtain ⟨hplaced4, hplaced6⟩ := hregular.placed (hgives4.allocatable (.inl rfl))
      (hgives6.allocatable (.inr rfl))
    rw [hgives4.takesReserved_iff (.inl rfl)] at hplaced4
    rw [hgives6.takesReserved_iff (.inr rfl)] at hplaced6
    refine ⟨?_, nofun⟩
    rintro _ _ ⟨⟩
    exact ⟨hgives4.assigned (.inl rfl) hplaced4, hgives6.assigned (.inr rfl) hplaced6⟩

end Assign

/-- The call returns unless the whole IPv4 address space is used up. What it returns is correct if
and only if no reserved address is asked for or comes first in the search, and no free address lies
behind the IPv4-mapped block. -/
theorem allocation_correct_iff (parseIP : String → Option Bytes) (v4 : AddressPool 4)
    (v6 : AddressPool 16) (reqV4 reqV6 : String) :
    ((∃ r, Returns parseIP v4 v6 reqV4 reqV6 r) ↔ ¬ Endless parseIP v4 reqV4) ∧
      ((∀ r, Returns parseIP v4 v6 reqV4 reqV6 r → Correct parseIP v4 v6 reqV4 reqV6 r) ↔
        Regular parseIP v4 v6 reqV4 reqV6) :=
  ⟨exists_returns_iff, regular_of_correct, fun hregular _ => correct_of_regular hregular⟩

/-- The network `10.0.0.0/24` with its gateway used. -/
def wideV4 : AddressPool 4 where
  net :=
    { ip := [10, 0, 0, 0]
      ones := 24
      length_ip := rfl
      ones_le := by decide
      masked := by decide }
  used := {to16 [10, 0, 0, 1]}
  gateway := Finset.mem_singleton_self _

/-- The network `10.0.0.16/28` with its gateway used. -/
def narrowV4 : AddressPool 4 where
  net :=
    { ip := [10, 0, 0, 16]
      ones := 28
      length_ip := rfl
      ones_le := by decide
      masked := by decide }
  used := {to16 [10, 0, 0, 17]}
  gateway := Finset.mem_singleton_self _

/-- The network `fd00::/64` with its gateway used. -/
def sampleV6 : AddressPool 16 where
  net :=
    { ip := [253, 0, 0, 0, 0, 0, 0, 0, 0, 0, 0, 0, 0, 0, 0, 0]
      ones := 64
      length_ip := rfl
      ones_le := by decide
      masked := by decide }
  used := {[253, 0, 0, 0, 0, 0, 0, 0, 0, 0, 0, 0, 0, 0, 0, 1]}
  gateway := Finset.mem_singleton_self _

/-- Parses one address. -/
def sampleParse (s : String) : Option Bytes :=
  if s = "10.0.0.255" then some (to16 [10, 0, 0, 255]) else none

/-- The broadcast address is given to a client that asks for it, and the address of a network that
is smaller than 256 addresses to one that asks for nothing. -/
theorem reserved_address_assigned :
    (∃ r, Returns sampleParse wideV4 sampleV6 "10.0.0.255/24" "" r ∧
        r.ips.map Prod.fst = some (to16 [10, 0, 0, 255]) ∧
        ¬ Correct sampleParse wideV4 sampleV6 "10.0.0.255/24" "" r) ∧
      ∃ r, Returns sampleParse narrowV4 sampleV6 "" "" r ∧
        r.ips.map Prod.fst = some (to16 [10, 0, 0, 16]) ∧
        ¬ Correct sampleParse narrowV4 sampleV6 "" "" r := by
  constructor
  · refine ⟨_, ⟨3, rfl⟩, rfl, fun hcorrect => ?_⟩
    exact (hcorrect.success _ _ rfl).1.not_reserved (by decide +kernel)
  · refine ⟨_, ⟨3, rfl⟩, rfl, fun hcorrect => ?_⟩
    exact (hcorrect.success _ _ rfl).1.not_reserved (by decide +kernel)

/-! ## The pools of the registry -/

namespace Pool

variable {used : Finset Nat} {n first ip : Nat}

/-- The number may be assigned by the search. -/
def Candidate (used : Finset Nat) (ip : Nat) : Prop := ip ∉ used ∧ ip % 256 ≠ 0 ∧ ip % 256 ≠ 255

theorem scan_eq_some (hatLeast : first ≤ ip) (hbelow : ip < first + n) (hfound : Candidate used ip)
    (hleast : ∀ other, first ≤ other → other < ip → ¬ Candidate used other) :
    scan used n first = some ip := by
  induction n generalizing first with
  | zero => omega
  | succ n ih =>
    rw [scan]
    split
    · rename_i hhere
      by_cases hsame : first = ip
      · rw [hsame]
      · exact absurd hhere (hleast first (Nat.le_refl first) (by omega))
    · rename_i hmissed
      have hlater : first ≠ ip := fun hsame => hmissed (hsame ▸ hfound)
      exact ih (by omega) (by omega) fun other hafter => hleast other (by omega)

theorem scan_eq_none (hnone : ∀ other, first ≤ other → other < first + n → ¬ Candidate used other) :
    scan used n first = Option.none := by
  induction n generalizing first with
  | zero => rfl
  | succ n ih =>
    have hmissed : ¬ (first ∉ used ∧ first % 256 ≠ 0 ∧ first % 256 ≠ 255) :=
      hnone first (Nat.le_refl first) (by omega)
    rw [scan, if_neg hmissed]
    exact ih fun other hafter hbefore => hnone other (by omega) (by omega)

end Pool

namespace AddressPool

variable {width : Nat} {p : AddressPool width} {pool : Pool}

/-- The pool of the registry has the addresses as numbers. -/
structure Represents (pool : Pool) (p : AddressPool width) : Prop where
  first : pool.first = p.net.low
  size : pool.size = p.net.size
  used : ∀ a, a.length = 16 → p.net.ipNet.contains a = true → (uint a ∈ pool.used ↔ a ∈ p.used)

/-- The network does not go around the IPv4-mapped block. -/
def Plain (p : AddressPool width) : Prop :=
  width = 4 ∨ 281470681743360 ≤ p.net.low ∨ p.net.low + p.net.size ≤ 281470681743360

variable {a : Bytes}

theorem lastByte_toNat (h : a ≠ []) : (lastByte a).toNat = uint a % 256 := by
  rw [← List.dropLast_append_getLast h, uint_append, Nat.mul_add_mod,
    Nat.mod_eq_of_lt (UInt8.toNat_lt _)]
  simp [lastByte]

/-- In a plain network the addresses are those of the interval. -/
theorem Plain.contains_iff (hplain : p.Plain) (hwidths : width = 4 ∨ width = 16)
    (h : a.length = 16) :
    p.net.ipNet.contains a = true ↔ p.net.low ≤ uint a ∧ uint a < p.net.low + p.net.size := by
  rw [p.net.contains_iff hwidths h]
  refine and_iff_left_of_imp fun ⟨hatLeast, hbelow⟩ => ?_
  rcases hwidths with rfl | rfl
  · have hroom := p.net.uint_add_size_le
    have hfirst := uint_to16 p.net.length_ip
    refine iff_of_true ((mapped_iff h).mpr ?_) (mapped_to16 p.net.length_ip)
    rw [Network.low, hfirst] at hatLeast hbelow
    omega
  · have hinside : uint a - p.net.low < p.net.size := by omega
    have hsame : p.net.addr (uint a - p.net.low) = a := by
      refine uint_injective (by rw [p.net.length_addr (.inr rfl), h]) ?_
      rw [p.net.uint_addr (.inr rfl) hinside]
      omega
    rw [← hsame, p.net.mapped_addr_iff hinside]
    rcases hplain with hshort | hbehind | hbefore
    · cases hshort
    · exact .inl hbehind
    · exact .inr (.inl (by omega))

/-- Free addresses are the candidates of the pool. -/
theorem Represents.candidate_iff (hrep : Represents pool p) (h : a.length = 16)
    (hcontained : p.net.ipNet.contains a = true) :
    Pool.Candidate pool.used (uint a) ↔ p.Free a := by
  have hnonempty : a ≠ [] := by
    rintro rfl
    cases h
  have hbytes : candidate p.used a = true ↔ Pool.Candidate pool.used (uint a) := by
    rw [candidate, decide_eq_true_eq, to16_of_length h, Pool.Candidate, hrep.used a h hcontained,
      ← lastByte_toNat hnonempty]
    simp [← UInt8.toNat_inj]
  rw [← hbytes]
  exact ⟨fun hfound => ⟨h, hcontained, hfound⟩, fun hfree => hfree.candidate⟩

/-- Every number of the pool is the one of an address. -/
theorem Represents.exists_address (hrep : Represents pool p) (hplain : p.Plain)
    (hwidths : width = 4 ∨ width = 16) {ip : Nat} (hatLeast : pool.first ≤ ip)
    (hbelow : ip < pool.first + pool.size) :
    ∃ a, a.length = 16 ∧ p.net.ipNet.contains a = true ∧ uint a = ip := by
  rw [hrep.first] at hatLeast hbelow
  rw [hrep.size] at hbelow
  have hnumber := p.net.uint_addr hwidths (show ip - p.net.low < p.net.size by omega)
  have hlength := p.net.length_addr hwidths (ip - p.net.low)
  exact ⟨_, hlength, (hplain.contains_iff hwidths hlength).mpr (by omega), by omega⟩

/-- The pool honours a request if the source does. -/
theorem Represents.request_eq (hrep : Represents pool p) (hplain : p.Plain)
    (hwidths : width = 4 ∨ width = 16) {parseIP : String → Option Bytes}
    (hparses : ∀ s ip, parseIP s = some ip → ip.length = 16) (req : String) :
    ((requested parseIP req).map uint).filter (fun ip => pool.Contains ip ∧ ip ∉ pool.used) =
      (p.honours parseIP req).map uint := by
  rw [honours, honoured]
  cases hasked : requested parseIP req with
  | none => rfl
  | some ip =>
    have hlength := hparses _ ip hasked
    have hcontains : pool.Contains (uint ip) ↔ p.net.ipNet.contains ip = true := by
      rw [hplain.contains_iff hwidths hlength, Pool.Contains, hrep.first, hrep.size]
    by_cases hcontained : p.net.ipNet.contains ip = true
    · have hused := hrep.used ip hlength hcontained
      by_cases htaken : ip ∈ p.used
      · simp [Option.filter_some, to16_of_length hlength, hused, htaken]
      · simp [Option.filter_some, to16_of_length hlength, hused, htaken, hcontains, hcontained]
    · simp [Option.filter_some, hcontains, hcontained]

/-- The allocation of the registry is the one of the source, for a plain network. -/
theorem Represents.alloc_eq (hrep : Represents pool p) (hplain : p.Plain)
    (hwidths : width = 4 ∨ width = 16) {parseIP : String → Option Bytes}
    (hparses : ∀ s ip, parseIP s = some ip → ip.length = 16) {req : String} {fuel : Nat}
    {r : Option Bytes} (hgives : p.Gives parseIP req fuel r) :
    pool.alloc ((requested parseIP req).map uint) =
      r.map fun a => (uint a, pool.take (uint a)) := by
  rw [Pool.alloc, hrep.request_eq hplain hwidths hparses]
  rcases gives_iff.mp hgives with ⟨hgranted, rfl⟩ | ⟨hrefused, hscanned⟩
  · obtain ⟨a, hsame⟩ := Option.isSome_iff_exists.mp hgranted
    rw [hsame]
    rfl
  · rw [hrefused]
    show (Pool.scan pool.used pool.size pool.first).map _ = _
    cases r with
    | some a =>
      obtain ⟨hfree, hleast⟩ := scan_found hwidths hscanned
      obtain ⟨hatLeast, hbelow⟩ := (hplain.contains_iff hwidths hfree.length).mp hfree.contains
      have hfound : Pool.scan pool.used pool.size pool.first = some (uint a) := by
        refine Pool.scan_eq_some (by rwa [hrep.first]) (by rwa [hrep.first, hrep.size])
          ((hrep.candidate_iff hfree.length hfree.contains).mpr hfree)
          fun ip hafter hbefore hhere => ?_
        obtain ⟨a', hlength, hcontained, rfl⟩ :=
          hrep.exists_address hplain hwidths hafter (by rw [hrep.first, hrep.size]; omega)
        have hfirst := hleast a' ((hrep.candidate_iff hlength hcontained).mp hhere)
        omega
      rw [hfound]
      rfl
    | none =>
      have hmissed : Pool.scan pool.used pool.size pool.first = none := by
        refine Pool.scan_eq_none fun ip hafter hbefore hhere => ?_
        obtain ⟨a, hlength, hcontained, rfl⟩ := hrep.exists_address hplain hwidths hafter hbefore
        have hfree := (hrep.candidate_iff hlength hcontained).mp hhere
        obtain ⟨hlong, hstart, hbehind⟩ := scan_stopped hwidths hscanned hfree
        rcases hplain with hshort | hlate | hearly
        · omega
        · omega
        · have hbelow := ((p.net.contains_iff hwidths hlength).mp hcontained).1.2
          omega
      rw [hmissed]
      rfl

end AddressPool

end TlsVpn.Server
