import TlsVpn.Fec.Decoder
import TlsVpn.Fec.Encoder

/-!
# A stream sent with parity

A `Stream` numbers its payloads from `1` and feeds them to one encoder. `parities_eq` computes the
records the encoder emits over the whole stream, however the group lengths vary, and `record_eq`
splits a record into its header, the lengths of the members and the sealed body.

For a decoder to which no control has been applied, `Unfenced.on_data` and `Unfenced.on_parity` say
what a data frame and a record of the stream do to it.
-/

namespace TlsVpn.Fec

open Lib Crypto List

/-- A numbered stream of non-empty payloads, sent with parity. -/
structure Stream where
  k : Nat
  k_low : 2 ≤ k
  k_high : k ≤ 64
  ic : Option InnerCipher
  count : Nat
  count_lt : count < 2 ^ 32
  payload : Nat → Bytes
  payload_ne : ∀ seq, 0 < seq → seq ≤ count → payload seq ≠ []
  payload_lt : ∀ seq, 0 < seq → seq ≤ count → (payload seq).length < 2 ^ 32

namespace Stream

/-- The sequence number of a member of a group, both counted from zero. -/
def member (s : Stream) (group offset : Nat) : Nat := s.k * group + 1 + offset

/-- The data frames from one sequence number on. -/
def frames (s : Stream) (seq length : Nat) : List VPNFrame :=
  (List.range length).map (fun i => ⟨seq + i, s.payload (seq + i)⟩)

/-- The records one encoder emits over the whole stream. -/
def parities (s : Stream) : List Bytes :=
  ((FecEncoder.new s.k s.ic).addAll (s.frames 1 s.count)).2

/-- The record of a group. -/
def record (s : Stream) (group : Nat) : Bytes :=
  parityRecord s.ic (s.frames (s.member group 0) s.k)

variable {s : Stream}

theorem k_pos (s : Stream) : 0 < s.k := by
  have := s.k_low
  omega

theorem member_pos (s : Stream) (group offset : Nat) : 0 < s.member group offset := by
  unfold member
  omega

variable {group i : Nat}

/-- A sequence number belongs to one group at one offset. -/
theorem member_inj {group' i' : Nat} (hi : i < s.k) (hi' : i' < s.k)
    (h : s.member group i = s.member group' i') : group = group' ∧ i = i' := by
  have hsum : s.k * group + i = s.k * group' + i' := by
    unfold member at h
    omega
  have hdiv := congrArg (· / s.k) hsum
  simp only [Nat.mul_add_div s.k_pos, Nat.div_eq_of_lt hi, Nat.div_eq_of_lt hi',
    Nat.add_zero] at hdiv
  subst hdiv
  exact ⟨rfl, by omega⟩

theorem member_div_mod (s : Stream) {seq : Nat} (hseq : 0 < seq) :
    s.member ((seq - 1) / s.k) ((seq - 1) % s.k) = seq := by
  have := Nat.div_add_mod (seq - 1) s.k
  unfold member
  omega

/-- A group has more than one member. -/
theorem exists_other_member (s : Stream) (i : Nat) : ∃ j < s.k, j ≠ i := by
  have := s.k_low
  by_cases hzero : i = 0
  · exact ⟨1, by omega, by omega⟩
  · exact ⟨0, by omega, Ne.symm hzero⟩

theorem frames_succ (s : Stream) (seq length : Nat) :
    s.frames seq (length + 1) =
      s.frames seq length ++ [⟨seq + length, s.payload (seq + length)⟩] := by
  rw [frames, frames, range_succ, map_append, map_singleton]

@[simp] theorem length_frames (s : Stream) (seq length : Nat) :
    (s.frames seq length).length = length := by
  rw [frames, length_map, length_range]

/-! ## The records of the stream -/

/-- The encoder after the first frames of a stream: the records of the complete groups are out and
the rest of the frames is the open group. -/
structure Encoded (s : Stream) (sent : Nat) (e : FecEncoder) (out : List Bytes) : Prop where
  k_eq : e.k = s.k
  ic_eq : e.ic = s.ic
  multipath : e.multipath = true
  armed : e.armed = true
  holds : e.Holds (s.frames (s.member (sent / s.k) 0) (sent % s.k))
  out_eq : out = (List.range (sent / s.k)).map s.record

/-- One more frame goes through the encoder. -/
theorem encoded_succ {sent : Nat} {e : FecEncoder} {out : List Bytes}
    (h : Encoded s sent e out) (hsent : sent < s.count) :
    ∃ e' parity, e.add ⟨1 + sent, s.payload (1 + sent)⟩ = (e', parity) ∧
      Encoded s (sent + 1) e' (out ++ parity.toList) := by
  have hdata : s.payload (1 + sent) ≠ [] := s.payload_ne _ (by omega) (by omega)
  have hseq : 1 + sent ≠ 0 := by omega
  have hmod : sent % s.k < s.k := Nat.mod_lt _ s.k_pos
  have hnext : 1 + sent = s.member (sent / s.k) 0 + sent % s.k := by
    have := Nat.div_add_mod sent s.k
    unfold member
    omega
  have hopen : s.frames (s.member (sent / s.k) 0) (sent % s.k) ++
      [⟨1 + sent, s.payload (1 + sent)⟩]
        = s.frames (s.member (sent / s.k) 0) (sent % s.k + 1) := by
    rw [frames_succ, ← hnext]
  obtain ⟨hk, hic, hmulti, -, -⟩ := e.add_settings ⟨1 + sent, s.payload (1 + sent)⟩
  by_cases hfull : sent % s.k + 1 < s.k
  · -- the group stays open
    obtain ⟨e', hadd, hholds, harmed, -⟩ := h.holds.add_open
      ⟨1 + sent, s.payload (1 + sent)⟩ hdata hseq h.multipath (.inl h.armed)
        (by rw [length_frames, h.k_eq]; exact hfull)
    rw [hadd] at hk hic hmulti
    have hdiv : (sent + 1) / s.k = sent / s.k := by
      rw [Nat.add_div s.k_pos, Nat.div_eq_of_lt s.k_low, if_neg]
      · rfl
      · rw [Nat.mod_eq_of_lt s.k_low]
        omega
    have hmod' : (sent + 1) % s.k = sent % s.k + 1 := by
      rw [Nat.add_mod, Nat.mod_eq_of_lt s.k_low, Nat.mod_eq_of_lt hfull]
    refine ⟨e', none, hadd, hk.trans h.k_eq, hic.trans h.ic_eq, hmulti.trans h.multipath, harmed,
      ?_, ?_⟩
    · rw [hdiv, hmod', ← hopen]
      exact hholds
    · rw [hdiv, h.out_eq, Option.toList_none, append_nil]
  · -- the group is complete
    obtain ⟨e', hadd, hholds, harmed, -⟩ := h.holds.add_complete
      ⟨1 + sent, s.payload (1 + sent)⟩ hdata hseq h.multipath (.inl h.armed)
        (by rw [length_frames, h.k_eq]; omega)
    rw [hadd] at hk hic hmulti
    have hlast : sent % s.k + 1 = s.k := by omega
    have hdiv : (sent + 1) / s.k = sent / s.k + 1 := by
      rw [Nat.add_div s.k_pos, Nat.div_eq_of_lt s.k_low, if_pos]
      rw [Nat.mod_eq_of_lt s.k_low]
      omega
    have hmod' : (sent + 1) % s.k = 0 := by
      rw [Nat.add_mod, Nat.mod_eq_of_lt s.k_low, hlast, Nat.mod_self]
    refine ⟨e', _, hadd, hk.trans h.k_eq, hic.trans h.ic_eq, hmulti.trans h.multipath, harmed,
      ?_, ?_⟩
    · rw [hmod']
      exact hholds
    · rw [hdiv, h.out_eq, hopen, hlast, h.ic_eq, range_succ, map_append]
      rfl

theorem encoded_addAll (s : Stream) (sent : Nat) (hsent : sent ≤ s.count) :
    Encoded s sent ((FecEncoder.new s.k s.ic).addAll (s.frames 1 sent)).1
      ((FecEncoder.new s.k s.ic).addAll (s.frames 1 sent)).2 := by
  induction sent with
  | zero =>
    refine ⟨clamp_fec_group_of_range s.k_low s.k_high, rfl, rfl, rfl, ?_, ?_⟩
    · rw [Nat.zero_mod]
      exact FecEncoder.holds_new s.k s.ic
    · rw [Nat.zero_div]
      rfl
  | succ sent ih =>
    obtain ⟨e', parity, hadd, hencoded⟩ := encoded_succ (ih (by omega)) (by omega)
    rw [frames_succ, FecEncoder.addAll_append]
    simp only [FecEncoder.addAll, hadd, append_nil]
    exact hencoded

/-- The encoder emits the record of every complete group, in order. -/
theorem parities_eq (s : Stream) : s.parities = (List.range (s.count / s.k)).map s.record :=
  (encoded_addAll s s.count le_rfl).out_eq

/-! ## The record read back -/

/-- The lengths of the members of a group. -/
def lens (s : Stream) (group : Nat) : List Nat :=
  (s.frames (s.member group 0) s.k).map (·.data.length)

/-- The exclusive or of the members of a group. -/
def body (s : Stream) (group : Nat) : Bytes :=
  xorAll ((s.frames (s.member group 0) s.k).map (·.data))

/-- All members of the group belong to the stream. -/
def Complete (s : Stream) (group : Nat) : Prop := s.member group s.k ≤ s.count + 1

theorem complete_iff (s : Stream) (group : Nat) : s.Complete group ↔ group < s.count / s.k := by
  rw [Complete, member, ← Nat.succ_le_iff, Nat.le_div_iff_mul_le s.k_pos, Nat.succ_mul,
    Nat.mul_comm s.k group]
  omega

theorem Complete.member_le (h : s.Complete group) (hi : i < s.k) : s.member group i ≤ s.count := by
  unfold Complete member at h
  unfold member
  omega

theorem mem_group {data : Bytes} (hmem : data ∈ (s.frames (s.member group 0) s.k).map (·.data)) :
    ∃ i < s.k, data = s.payload (s.member group i) := by
  rw [frames, map_map, mem_map] at hmem
  obtain ⟨i, hi, hdata⟩ := hmem
  exact ⟨i, mem_range.mp hi, hdata.symm⟩

theorem length_lens (s : Stream) (group : Nat) : (s.lens group).length = s.k := by
  rw [lens, length_map, length_frames]

theorem lens_get (hi : i < s.k) :
    (s.lens group).getD i 0 = (s.payload (s.member group i)).length := by
  rw [getD_eq_getElem _ 0 (by rwa [length_lens])]
  simp [lens, frames, member]

/-- No member is longer than the body. -/
theorem length_le_body (hi : i < s.k) :
    (s.payload (s.member group i)).length ≤ (s.body group).length := by
  refine length_le_xorAll (mem_map.mpr ⟨⟨s.member group i, s.payload (s.member group i)⟩, ?_,
    rfl⟩)
  exact mem_map.mpr ⟨i, mem_range.mpr hi, rfl⟩

theorem body_ne_nil (h : s.Complete group) : s.body group ≠ [] := by
  intro hnil
  have hlong : (s.payload (s.member group 0)).length ≤ (s.body group).length :=
    length_le_body s.k_pos
  rw [hnil, length_nil, Nat.le_zero, length_eq_zero_iff] at hlong
  exact s.payload_ne _ (s.member_pos group 0) (h.member_le s.k_pos) hlong

theorem foldl_max_lens (s : Stream) (group : Nat) :
    (s.lens group).foldl max 0 = (s.body group).length := by
  rw [body, length_xorAll, map_map]
  rfl

/-- The record of a group, split at the end of its header and of its descriptor. -/
theorem record_eq (s : Stream) (group : Nat) :
    s.record group =
      ([controlKindFECParity] ++ putUint 4 (s.member group 0) ++ [UInt8.ofNat s.k]) ++
        ((s.lens group).flatMap (putUint 4) ++
          sealInPlace s.ic (s.body group) (s.member group 0)
            (((s.body group).length + tagLen s.ic) % 4294967296)) := by
  have hstart : ((s.frames (s.member group 0) s.k).map (·.seq)).headD 0 = s.member group 0 := by
    obtain ⟨k, hk⟩ := Nat.exists_eq_succ_of_ne_zero s.k_pos.ne'
    rw [hk, frames, range_succ_eq_map]
    rfl
  simp only [record, parityRecord, hstart, length_frames, ← append_assoc, body, lens,
    flatMap_map]

section Wire

variable {group : Nat} (hcomplete : s.Complete group)

include hcomplete

theorem start_lt : s.member group 0 < 2 ^ 32 :=
  lt_of_le_of_lt (hcomplete.member_le s.k_pos) s.count_lt

theorem lens_lt {l : Nat} (hl : l ∈ s.lens group) : l < 256 ^ 4 := by
  obtain ⟨vf, hvf, rfl⟩ := mem_map.mp hl
  obtain ⟨i, hi, hdata⟩ := mem_group (mem_map.mpr ⟨vf, hvf, rfl⟩)
  rw [hdata]
  exact s.payload_lt _ (s.member_pos group i) (hcomplete.member_le hi)

theorem record_start : uint (((s.record group).drop 1).take 4) = s.member group 0 := by
  have hdrop : ((s.record group).drop 1).take 4 = putUint 4 (s.member group 0) := by
    rw [record_eq, append_assoc, append_assoc, singleton_append, drop_succ_cons,
      drop_zero, take_left' (length_putUint 4 _)]
  rw [hdrop]
  exact uint_put_uint_of_lt (start_lt hcomplete)

omit hcomplete in
theorem record_kind : byteAt (s.record group) 0 = controlKindFECParity := by
  rw [record_eq]
  rfl

omit hcomplete in
theorem record_size : (byteAt (s.record group) 5).toNat = s.k := by
  have hbyte : byteAt (s.record group) 5 = UInt8.ofNat s.k := by
    rw [record_eq]
    rfl
  have := s.k_high
  rw [hbyte, UInt8.toNat_ofNat', Nat.mod_eq_of_lt (by omega)]

omit hcomplete in
theorem record_drop_header : (s.record group).drop 6 = (s.lens group).flatMap (putUint 4) ++
    sealInPlace s.ic (s.body group) (s.member group 0)
      (((s.body group).length + tagLen s.ic) % 4294967296) := by
  rw [record_eq, drop_left' (by simp)]

omit hcomplete in
theorem length_descriptor : ((s.lens group).flatMap (putUint 4)).length = 4 * s.k := by
  rw [length_flatMap]
  simp [length_lens, Nat.mul_comm]

theorem record_lens : FecDecoder.descriptorLens (s.record group) s.k = s.lens group := by
  have hlen := length_lens s group
  refine ext_getElem (by simp [FecDecoder.descriptorLens, hlen]) fun i hi hi' => ?_
  simp only [FecDecoder.descriptorLens, getElem_map, getElem_range]
  rw [← drop_drop, record_drop_header]
  exact uint_flatMap_putUint _ _ (fun l hl => lens_lt hcomplete hl) i hi'

theorem length_record {rx : Option InnerCipher} (hpair : CipherPair s.ic rx) :
    (s.record group).length = 6 + 4 * s.k + ((s.body group).length + tagLen s.ic) := by
  simp only [record_eq, length_append, length_descriptor, length_singleton,
    length_putUint, hpair.length_seal _ _ _ (body_ne_nil hcomplete)]
  omega

omit hcomplete in
theorem record_sealed : (s.record group).drop (6 + 4 * s.k) =
    sealInPlace s.ic (s.body group) (s.member group 0)
      (((s.body group).length + tagLen s.ic) % 4294967296) := by
  rw [← drop_drop, record_drop_header, drop_left' length_descriptor]

end Wire

/-! ## The decoder without controls -/

/-- The settings of a decoder of the stream to which no control has been applied. -/
structure Unfenced (s : Stream) (rx : Option InnerCipher) (d : FecDecoder) : Prop where
  k_eq : d.k = s.k
  fullMask_eq : d.fullMask = 2 ^ s.k - 1
  staticSingle_eq : d.staticSingle = false
  fence_eq : d.fence = .new
  cleanupBefore_eq : d.cleanupBefore = 0
  retiredBefore_eq : d.retiredBefore = 0
  ic_eq : d.ic = rx

variable {rx : Option InnerCipher} {d d' : FecDecoder}

theorem unfenced_new (s : Stream) (rx : Option InnerCipher) :
    Unfenced s rx (FecDecoder.new s.k rx) := by
  have hk := clamp_fec_group_of_range s.k_low s.k_high
  exact ⟨hk, by rw [FecDecoder.new, hk], rfl, rfl, rfl, rfl, rfl⟩

theorem Unfenced.of_same (h : Unfenced s rx d) (hsame : d.SameSettings d') :
    Unfenced s rx d' :=
  ⟨hsame.k_eq.trans h.k_eq, hsame.fullMask_eq.trans h.fullMask_eq,
    hsame.staticSingle_eq.trans h.staticSingle_eq, hsame.fence_eq.trans h.fence_eq,
    hsame.cleanupBefore_eq.trans h.cleanupBefore_eq,
    hsame.retiredBefore_eq.trans h.retiredBefore_eq, hsame.ic_eq.trans h.ic_eq⟩

/-- Without a control the probe is never consulted. -/
theorem Unfenced.maybe_retire (h : Unfenced s rx d) (progress : Option Nat) :
    d.maybeRetireOldGroups progress = d := by
  unfold FecDecoder.maybeRetireOldGroups
  rw [if_pos (.inl h.cleanupBefore_eq)]

theorem Unfenced.group_start_of (h : Unfenced s rx d) (hi : i < s.k) :
    d.groupStartOf (s.member group i) = s.member group 0 := by
  have hmod : (s.member group i - 1) % s.k = i := by
    rw [member, show s.k * group + 1 + i - 1 = s.k * group + i by omega, Nat.mul_add_mod,
      Nat.mod_eq_of_lt hi]
  rw [FecDecoder.groupStartOf, h.k_eq, hmod]
  unfold member
  omega

/-- What a data frame of the stream does to the decoder. -/
theorem Unfenced.on_data (h : Unfenced s rx d) (hi : i < s.k) (hle : s.member group i ≤ s.count)
    (progress : Option Nat) :
    d.onData progress (s.member group i) (s.payload (s.member group i)) =
      if d.IsDone (s.member group 0) then (d, none)
      else (d.openGroup (s.member group 0)).1.onMember (d.openGroup (s.member group 0)).2 i
        (s.payload (s.member group i)) := by
  have hpos := s.member_pos group i
  have hne : ¬ (s.payload (s.member group i) = [] ∨ s.member group i = 0) := by
    rintro (hnil | hzero)
    · exact s.payload_ne _ hpos hle hnil
    · exact absurd hzero hpos.ne'
  have hbypass : d.fence.bypassData (s.member group i) = false := by
    rw [h.fence_eq]
    exact decide_eq_false (fun hcovers => hcovers.2.1 rfl)
  have hoffset : s.member group i - s.member group 0 = i := by
    unfold member
    omega
  rw [FecDecoder.onData, if_neg hne, h.staticSingle_eq, if_neg Bool.false_ne_true, hbypass,
    if_neg Bool.false_ne_true, if_neg (fun hretired => hretired.1 h.retiredBefore_eq)]
  simp only [h.group_start_of hi, hoffset]

/-- A live group with the parity of the stream's group. -/
def held (s : Stream) (group : Nat) (g : FecGroupState) : FecGroupState :=
  { g with k := s.k, lens := s.lens group, parity := some (s.body group) }

/-- What a record of the stream does to the decoder. -/
theorem Unfenced.on_parity (h : Unfenced s rx d) (hpair : CipherPair s.ic rx)
    (hcomplete : s.Complete group) (before after : Option Nat) :
    d.onParity before after (s.record group) =
      if d.IsDone (s.member group 0) then (d, none)
      else if ((d.lookupGroup (s.member group 0)).bind (·.parity)).isSome then (d, none)
      else
        let held := s.held group (d.openGroup (s.member group 0)).2
        let (recovered, out) := ((d.openGroup (s.member group 0)).1.setGroup held).tryRecover held
        (recovered.maybeRetireOldGroups after, out) := by
  have hlen := length_record hcomplete hpair
  have hlow := s.k_low
  have hmod : (s.member group 0 - 1) % s.k = 0 := by
    rw [member, show s.k * group + 1 + 0 - 1 = s.k * group by omega, Nat.mul_mod_right]
  have hfits : ¬ ∃ l ∈ s.lens group,
      l + tagLen s.ic > (s.record group).length - (6 + 4 * s.k) := by
    rintro ⟨l, hl, hlong⟩
    obtain ⟨vf, hvf, rfl⟩ := mem_map.mp hl
    have hle : vf.data.length ≤ (s.body group).length :=
      length_le_xorAll (mem_map.mpr ⟨vf, hvf, rfl⟩)
    omega
  have hopen : openTo rx
      (((s.record group).drop (6 + 4 * s.k)).take ((s.body group).length + tagLen s.ic))
      (s.member group 0) (((s.body group).length + tagLen s.ic) % 4294967296)
        = some (s.body group) := by
    rw [record_sealed, take_of_length_le
      (hpair.length_seal _ _ _ (body_ne_nil hcomplete)).le]
    exact hpair.open_seal _ _ _ (body_ne_nil hcomplete)
  have hrecord : ¬ (d.staticSingle = true ∨ (s.record group).length < 7 ∨
      byteAt (s.record group) 0 ≠ controlKindFECParity) := by
    rw [h.staticSingle_eq, record_kind]
    simp
    omega
  have hheader : ¬ (s.member group 0 = 0 ∨ (byteAt (s.record group) 5).toNat ≠ d.k ∨
      (s.member group 0 - 1) % d.k ≠ 0) := by
    rw [record_size, h.k_eq, hmod]
    simp
    exact (s.member_pos group 0).ne'
  rw [FecDecoder.onParity, if_neg hrecord]
  simp only [record_start hcomplete]
  rw [if_neg hheader]
  simp only [h.maybe_retire]
  rw [if_neg (fun hretired => hretired.1 h.retiredBefore_eq), h.ic_eq, hpair.tagLen_eq, h.k_eq,
    if_neg (by omega), record_lens hcomplete, if_neg hfits]
  simp only [FecDecoder.acceptParity, foldl_max_lens, h.ic_eq, hpair.tagLen_eq, h.k_eq, hopen, held]

end Stream

end TlsVpn.Fec
