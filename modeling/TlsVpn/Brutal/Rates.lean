import TlsVpn.Lib.Bytes
import TlsVpn.Lib.Sums

/-!
# The rates of TCP Brutal

Translation of the arithmetic in `brutal.go`: units, the parameter block of the kernel module in
both of its versions, and the split of a total rate over the connections of a session. `assignRates`
is the part of `handleConnection` that gives a connection its share.

The split is computed for every connection by itself. `legacy_shares_exact` says that the shares
nevertheless add up to the total, and `assigned_shares_exact` that the server's assignments do.
-/

namespace TlsVpn.Brutal

open Lib List

/-! ## Units -/

/-- The first version with groups. -/
def brutalV2Version : UInt32 := 0x020000

/-- The gain that is asked for. -/
def brutalDefaultCwndGain : UInt32 := 20

/-- The kernel module takes at most 125 GB/s. -/
def maxBrutalRateMbps : UInt64 := 1000000

/-- In bytes per second. -/
def brutalMbpsToBps (rateMbps : UInt64) : Except String UInt64 :=
  if rateMbps = 0 then .error "TCP Brutal rate cannot be 0"
  else if rateMbps > maxBrutalRateMbps then
    .error s!"TCP Brutal rate {rateMbps} Mbps exceeds maximum {maxBrutalRateMbps} Mbps"
  else .ok (rateMbps * 1000000 / 8)

/-- Rounded down. -/
def brutalBpsToMbps (rateBps : UInt64) : UInt64 := rateBps * 8 / 1000000

theorem brutalMbpsToBps_eq {totalRate rateBps : UInt64}
    (h : brutalMbpsToBps totalRate = .ok rateBps) : rateBps = totalRate * 1000000 / 8 := by
  unfold brutalMbpsToBps at h
  split at h
  · cases h
  · split at h
    · cases h
    · cases h
      rfl

/-! ## The parameter block -/

/-- The little-endian bytes of a number. -/
def putLittle (width n : Nat) : Bytes := (putUint width n).reverse

/-- The number with the given little-endian bytes. -/
def little (bytes : Bytes) : Nat := uint bytes.reverse

@[simp] theorem length_putLittle (width n : Nat) : (putLittle width n).length = width := by
  simp [putLittle]

theorem little_putLittle {width n : Nat} (h : n < 256 ^ width) :
    little (putLittle width n) = n := by
  rw [little, putLittle, reverse_reverse, uint_put_uint_of_lt h]

/-- The group is left out for an old module. -/
def encodeBrutalParamsBps (rateBps : UInt64) (gain : UInt32) (groupID : UInt64)
    (withGroup : Bool) : Except String Bytes :=
  if rateBps = 0 ∨ rateBps > maxBrutalRateMbps * 1000000 / 8 then
    .error s!"TCP Brutal byte rate {rateBps} is outside the supported range"
  else
    .ok (putLittle 8 rateBps.toNat ++ putLittle 4 gain.toNat ++
      if withGroup then putLittle 8 groupID.toNat else [])

/-- A block without a group reads as group 0. -/
def decodeBrutalParamsBps (b : Bytes) : Except String (UInt64 × UInt32 × UInt64) :=
  let size := b.length
  if size ≠ 12 ∧ size ≠ 20 then .error s!"invalid TCP_BRUTAL_PARAMS length {size}"
  else
    .ok (UInt64.ofNat (little (b.take 8)), UInt32.ofNat (little ((b.drop 8).take 4)),
      if size = 20 then UInt64.ofNat (little ((b.drop 12).take 8)) else 0)

/-- What is written is what is read, except that a block without a group reads as group 0. -/
theorem decode_encode {rateBps groupID : UInt64} {gain : UInt32} {withGroup : Bool} {b : Bytes}
    (h : encodeBrutalParamsBps rateBps gain groupID withGroup = .ok b) :
    decodeBrutalParamsBps b = .ok (rateBps, gain, if withGroup then groupID else 0) := by
  unfold encodeBrutalParamsBps at h
  split at h
  · cases h
  · cases h
    generalize hrest : (if withGroup then putLittle 8 groupID.toNat else []) = rest
    have hrate : (putLittle 8 rateBps.toNat ++ putLittle 4 gain.toNat ++ rest).take 8 =
        putLittle 8 rateBps.toNat := by
      rw [append_assoc]
      exact take_left' (length_putLittle ..)
    have hgain : ((putLittle 8 rateBps.toNat ++ putLittle 4 gain.toNat ++ rest).drop 8).take 4 =
        putLittle 4 gain.toNat := by
      rw [append_assoc, drop_left' (length_putLittle ..)]
      exact take_left' (length_putLittle ..)
    have hgroup : (putLittle 8 rateBps.toNat ++ putLittle 4 gain.toNat ++ rest).drop 12 = rest :=
      drop_left' (by simp)
    unfold decodeBrutalParamsBps
    rw [hrate, hgain, hgroup, little_putLittle rateBps.toNat_lt, little_putLittle gain.toNat_lt,
      UInt64.ofNat_toNat, UInt32.ofNat_toNat]
    subst hrest
    cases withGroup with
    | false => simp
    | true =>
      have hword : little (putLittle 8 groupID.toNat) = groupID.toNat :=
        little_putLittle groupID.toNat_lt
      simp [take_of_length_le, hword]

/-! ## The split -/

/-- The share of one connection; the first ones take the remainder. -/
def splitRate (total : UInt64) (conns index : Int) : UInt64 :=
  let base := total / UInt64.ofInt conns
  if UInt64.ofInt index < total % UInt64.ofInt conns then base + 1 else base

/-- In whole Mbps, for display. -/
def splitLegacyBrutalRate (total : UInt64) (conns index : Int) : UInt64 :=
  if total = 0 ∨ conns ≤ 0 ∨ index < 0 ∨ index ≥ conns then 0 else splitRate total conns index

/-- In bytes per second. -/
def splitLegacyBrutalRateBps (totalMbps : UInt64) (conns index : Int) : UInt64 :=
  if totalMbps = 0 ∨ conns ≤ 0 ∨ index < 0 ∨ index ≥ conns then 0
  else splitRate (totalMbps * 1000000 / 8) conns index

theorem toNat_ofInt {n : Nat} (h : n < 2 ^ 64) : (UInt64.ofInt n).toNat = n := by
  have hmod : ((n : Int) % 2 ^ 64).toNat = n := by omega
  rw [UInt64.ofInt, hmod]
  exact UInt64.toNat_ofNat_of_lt' h

variable {conns i : Nat}

/-- The words of a split do not wrap. -/
theorem toNat_splitRate (total : UInt64) (hconns : conns < 2 ^ 64) (hi : i < conns) :
    (splitRate total conns i).toNat = share total.toNat conns i := by
  have hindex : i < 2 ^ 64 := hi.trans hconns
  unfold splitRate share
  simp only [UInt64.lt_iff_toNat_lt, UInt64.toNat_mod, toNat_ofInt hconns, toNat_ofInt hindex]
  split
  · rename_i hlt
    have hle := succ_quotient_le (Nat.zero_lt_of_lt hlt)
    rw [UInt64.toNat_add, UInt64.toNat_div, toNat_ofInt hconns]
    exact Nat.mod_eq_of_lt (Nat.lt_of_le_of_lt hle total.toNat_lt)
  · rw [UInt64.toNat_div, toNat_ofInt hconns, Nat.add_zero]

theorem toNat_splitLegacyBrutalRate (total : UInt64) (hconns : conns < 2 ^ 64) (hi : i < conns) :
    (splitLegacyBrutalRate total conns i).toNat = share total.toNat conns i := by
  unfold splitLegacyBrutalRate
  split
  · rename_i hguard
    rcases hguard with rfl | hguard
    · simp [share]
    · omega
  · exact toNat_splitRate total hconns hi

/-- The two splits differ by the unit only. -/
theorem splitLegacyBrutalRateBps_eq (totalMbps : UInt64) (conns index : Int) :
    splitLegacyBrutalRateBps totalMbps conns index =
      splitLegacyBrutalRate (totalMbps * 1000000 / 8) conns index := by
  unfold splitLegacyBrutalRateBps splitLegacyBrutalRate
  by_cases hzero : totalMbps = 0
  · subst hzero
    rw [if_pos (.inl rfl), if_pos (.inl rfl)]
  · by_cases hbps : totalMbps * 1000000 / 8 = 0
    · simp [hzero, hbps, splitRate]
    · simp [hzero, hbps]

/-- Up to the maximum the conversion to bytes does not wrap. -/
theorem toNat_totalBps {totalMbps : UInt64} (h : totalMbps ≤ maxBrutalRateMbps) :
    totalMbps.toNat * 1000000 < 2 ^ 64 ∧
      (totalMbps * 1000000 / 8).toNat = totalMbps.toNat * 125000 := by
  have hmax : totalMbps.toNat ≤ 1000000 := UInt64.le_iff_toNat_le.mp h
  have hfits : totalMbps.toNat * 1000000 < 2 ^ 64 := by omega
  have hproduct : (totalMbps * 1000000).toNat = totalMbps.toNat * 1000000 := by
    rw [UInt64.toNat_mul]
    exact Nat.mod_eq_of_lt hfits
  refine ⟨hfits, ?_⟩
  rw [UInt64.toNat_div, hproduct]
  show totalMbps.toNat * 1000000 / 8 = totalMbps.toNat * 125000
  omega

theorem toNat_splitLegacyBrutalRateBps {totalMbps : UInt64} (h : totalMbps ≤ maxBrutalRateMbps)
    (hconns : conns < 2 ^ 64) (hi : i < conns) :
    (splitLegacyBrutalRateBps totalMbps conns i).toNat =
      share (totalMbps.toNat * 125000) conns i := by
  rw [splitLegacyBrutalRateBps_eq, toNat_splitLegacyBrutalRate _ hconns hi, (toNat_totalBps h).2]

/-- The shares of the connections, in unbounded arithmetic or in 64 bits, add up to the total, any
two differ by at most one, and a later connection never gets more. -/
theorem legacy_shares_exact {totalMbps : UInt64} {conns : Nat}
    (hmax : totalMbps ≤ maxBrutalRateMbps) (hone : 1 ≤ conns) (hmany : conns ≤ 65536) :
    totalMbps.toNat * 1000000 < 2 ^ 64 ∧
      (∀ i < conns, (splitLegacyBrutalRateBps totalMbps conns i).toNat =
        share (totalMbps.toNat * 1000000 / 8) conns i) ∧
      ∑ i ∈ Finset.range conns, (splitLegacyBrutalRateBps totalMbps conns i).toNat =
        totalMbps.toNat * 125000 ∧
      (∀ i < conns, ∀ j < conns, (splitLegacyBrutalRateBps totalMbps conns i).toNat ≤
        (splitLegacyBrutalRateBps totalMbps conns j).toNat + 1) ∧
      ∀ i j, i ≤ j → j < conns → splitLegacyBrutalRateBps totalMbps conns j ≤
        splitLegacyBrutalRateBps totalMbps conns i := by
  have hshare : ∀ i < conns, (splitLegacyBrutalRateBps totalMbps conns i).toNat =
      share (totalMbps.toNat * 125000) conns i := fun i hi =>
    toNat_splitLegacyBrutalRateBps hmax (by omega) hi
  refine ⟨(toNat_totalBps hmax).1, fun i hi => ?_, ?_, fun i hi j hj => ?_, fun i j hle hj => ?_⟩
  · rw [hshare i hi]
    congr 1
    omega
  · rw [Finset.sum_congr rfl fun i hi => hshare i (Finset.mem_range.mp hi)]
    exact sum_share _ hone
  · rw [hshare i hi, hshare j hj]
    exact share_le_succ _ _ i j
  · rw [UInt64.le_iff_toNat_le, hshare i (Nat.lt_of_le_of_lt hle hj), hshare j hj]
    exact share_antitone _ _ hle

/-- Two Mbps over seven connections. -/
theorem two_over_seven_exact :
    ∑ i ∈ Finset.range 7, (splitLegacyBrutalRateBps 2 7 i).toNat = 250000 ∧
      splitLegacyBrutalRateBps 2 7 1 = 35715 ∧ splitLegacyBrutalRateBps 2 7 6 = 35714 :=
  ⟨(legacy_shares_exact (by decide) (by decide) (by decide)).2.2.1, by decide,
    by decide⟩

/-! ## The server's assignment -/

/-- The budget that both sides allow, where 0 stands for no limit. -/
def negotiated (own peer : UInt64) : UInt64 :=
  if peer > 0 ∧ (own = 0 ∨ peer < own) then peer else own

/-- The rates of the server and of the client. -/
def negotiateBrutalRates (serverUp serverDown cliTx cliRx : UInt64) : UInt64 × UInt64 :=
  (negotiated serverDown cliRx, negotiated serverUp cliTx)

/-- What a handshake request says about shaping. -/
structure BrutalOffer where
  brutalGroups : Bool
  brutalTotalTx : UInt64
  brutalTotalRx : UInt64
  brutalConns : Int
  brutalConnIndex : Int

/-- The request can be shaped as one connection of a group. -/
def BrutalOffer.groupOffer (req : BrutalOffer) : Bool :=
  req.brutalGroups && 0 < req.brutalConns && req.brutalConns ≤ 65536 &&
    0 ≤ req.brutalConnIndex && req.brutalConnIndex < req.brutalConns &&
    req.brutalTotalTx ≤ maxBrutalRateMbps && req.brutalTotalRx ≤ maxBrutalRateMbps

/-- What the server assigns to a connection. -/
structure AssignedRates where
  serverTxRate : UInt64
  clientTxRate : UInt64
  serverLegacyRateBps : UInt64
  deriving DecidableEq, Repr

/-- The rates of a connection. Outside a group there is no budget of the peer to respect. -/
def assignRates (brutalUp brutalDown : UInt64) (req : BrutalOffer) : AssignedRates :=
  if req.groupOffer then
    let (serverTxRate, clientTxRate) :=
      negotiateBrutalRates brutalUp brutalDown req.brutalTotalTx req.brutalTotalRx
    ⟨serverTxRate, clientTxRate,
      splitLegacyBrutalRateBps serverTxRate req.brutalConns req.brutalConnIndex⟩
  else
    let (serverTxRate, clientTxRate) := negotiateBrutalRates brutalUp brutalDown 0 0
    ⟨serverTxRate, clientTxRate, (brutalMbpsToBps serverTxRate).toOption.getD 0⟩

theorem negotiated_le {own peer most : UInt64} (hown : own ≤ most) (hpeer : peer ≤ most) :
    negotiated own peer ≤ most := by
  unfold negotiated
  split
  · exact hpeer
  · exact hown

/-- If the connections of a session make the same offer, each with its own index, the server's
shares add up to the rate that was negotiated for the session. -/
theorem assigned_shares_exact {brutalUp brutalDown : UInt64}
    (hconfig : brutalDown ≤ maxBrutalRateMbps) (req : BrutalOffer)
    (hoffer : { req with brutalConns := conns, brutalConnIndex := 0 }.groupOffer) :
    ∑ i ∈ Finset.range conns, (assignRates brutalUp brutalDown
        { req with brutalConns := conns, brutalConnIndex := i }).serverLegacyRateBps.toNat =
      (negotiated brutalDown req.brutalTotalRx).toNat * 125000 := by
  simp only [BrutalOffer.groupOffer, Bool.and_eq_true, decide_eq_true_eq] at hoffer
  obtain ⟨⟨⟨⟨⟨⟨hgroups, hpos⟩, hmany⟩, -⟩, -⟩, htx⟩, hrx⟩ := hoffer
  have hmax := negotiated_le hconfig hrx
  have hassigned : ∀ i < conns, (assignRates brutalUp brutalDown
      { req with brutalConns := conns, brutalConnIndex := i }).serverLegacyRateBps.toNat =
        share ((negotiated brutalDown req.brutalTotalRx).toNat * 125000) conns i := by
    intro i hi
    have hindexed : { req with brutalConns := conns, brutalConnIndex := i }.groupOffer := by
      simp [BrutalOffer.groupOffer, hgroups, hi, htx, hrx]
      omega
    rw [assignRates, if_pos hindexed]
    exact toNat_splitLegacyBrutalRateBps hmax (by omega) hi
  rw [Finset.sum_congr rfl fun i hi => hassigned i (Finset.mem_range.mp hi)]
  exact sum_share _ (by omega)

end TlsVpn.Brutal
