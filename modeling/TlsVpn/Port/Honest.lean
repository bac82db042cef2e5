import TlsVpn.Fec.Exact
import TlsVpn.Port.FenceOrder
import TlsVpn.Port.Parity

/-!
# What the sending end puts on its connections

In one epoch every numbered frame on a connection is one that the port has numbered, and every
parity record describes a group of them. `Honest` states it of a port, `Honest.step` keeps it, as
long as no batch is dropped for want of a backend while a group is being encoded: the encoder does
not see such a batch, and the record of the group would describe the wrong members. `streamOf` is
the log of a port as a stream, and the records of the port are records of that stream
(`Logged.record_eq`).
-/

namespace TlsVpn.Port

open Lib Crypto Fec List

/-! ## A log as a stream -/

/-- The log of an epoch: consecutive numbers from `1`, and payloads whose lengths fit the
descriptors of parity records. -/
structure Logged (log : List VPNFrame) : Prop where
  length_lt : log.length < 2 ^ 32
  seqs_eq : log.map (·.seq) = List.range' 1 log.length
  data_ne : ∀ vf ∈ log, vf.data ≠ []
  data_lt : ∀ vf ∈ log, vf.data.length < 2 ^ 32

/-- The payload that the log has under a number. -/
def payloadOf (log : List VPNFrame) (seq : Nat) : Bytes := (log[seq - 1]?).elim [] (·.data)

theorem payload_mem {log : List VPNFrame} {seq : Nat} (hpos : 0 < seq) (hle : seq ≤ log.length) :
    ∃ vf ∈ log, payloadOf log seq = vf.data ∧ log[seq - 1]? = some vf := by
  have hlt : seq - 1 < log.length := by omega
  refine ⟨log[seq - 1], getElem_mem hlt, ?_, getElem?_eq_getElem hlt⟩
  rw [payloadOf, getElem?_eq_getElem hlt]
  rfl

/-- The log of an epoch as the stream that a receiver follows. -/
def streamOf (k : Nat) (ic : Option InnerCipher) (log : List VPNFrame) (hlog : Logged log) :
    Stream where
  k := clampFecGroup k
  k_low := (clamp_fec_group_range k).1
  k_high := (clamp_fec_group_range k).2
  ic
  count := log.length
  count_lt := hlog.length_lt
  payload := payloadOf log
  payload_ne := fun seq hpos hle => by
    obtain ⟨vf, hvf, heq, -⟩ := payload_mem hpos hle
    rw [heq]
    exact hlog.data_ne vf hvf
  payload_lt := fun seq hpos hle => by
    obtain ⟨vf, hvf, heq, -⟩ := payload_mem hpos hle
    rw [heq]
    exact hlog.data_lt vf hvf

namespace Logged

variable {log : List VPNFrame} {k : Nat} {ic : Option InnerCipher} {vf : VPNFrame}

theorem seq_eq (h : Logged log) {i : Nat} (hi : log[i]? = some vf) : vf.seq = i + 1 := by
  have hlt : i < log.length := (List.getElem?_eq_some_iff.mp hi).1
  have hget : (log.map (·.seq))[i]? = some vf.seq := by
    rw [getElem?_map, hi]
    rfl
  rw [h.seqs_eq, getElem?_range' hlt, Option.some.injEq] at hget
  omega

/-- A frame of the log stands under its number. -/
theorem get_seq (h : Logged log) (hvf : vf ∈ log) :
    0 < vf.seq ∧ vf.seq ≤ log.length ∧ log[vf.seq - 1]? = some vf := by
  obtain ⟨i, hlt, hget⟩ := mem_iff_getElem.mp hvf
  have hsome : log[i]? = some vf := by
    rw [getElem?_eq_getElem hlt, hget]
  have hseq := h.seq_eq hsome
  refine ⟨by omega, by omega, ?_⟩
  rw [hseq, Nat.add_sub_cancel]
  exact hsome

theorem carries_iff (h : Logged log) :
    (streamOf k ic log h).Carries (vf.seq, vf.data) ↔ vf ∈ log := by
  constructor
  · rintro ⟨hpos, hle, hdata⟩
    obtain ⟨other, hmem, hpayload, hget⟩ := payload_mem hpos hle
    have hseq := h.seq_eq hget
    have hsame : vf = other := by
      obtain ⟨seq, data⟩ := vf
      obtain ⟨seq', data'⟩ := other
      simp only at hpos hseq hdata hpayload
      rw [VPNFrame.mk.injEq]
      exact ⟨by omega, hdata.trans hpayload⟩
    rw [hsame]
    exact hmem
  · intro hvf
    obtain ⟨hpos, hle, hget⟩ := h.get_seq hvf
    refine ⟨hpos, hle, ?_⟩
    show vf.data = payloadOf log vf.seq
    rw [payloadOf, hget]
    rfl

/-- A part of the log is the frames of the stream. -/
theorem frames_eq (h : Logged log) {g n : Nat} (hle : g + n ≤ log.length) :
    (streamOf k ic log h).frames (g + 1) n = (log.drop g).take n := by
  refine ext_getElem? fun i => ?_
  unfold Stream.frames
  rw [getElem?_map]
  by_cases hi : i < n
  · have hin : g + 1 + i ≤ log.length := by omega
    obtain ⟨vf, -, hpayload, hget⟩ := payload_mem (show 0 < g + 1 + i by omega) hin
    have hseq := h.seq_eq hget
    rw [getElem?_range hi, getElem?_take_of_lt hi, getElem?_drop,
      show g + i = g + 1 + i - 1 by omega, hget]
    show some (⟨g + 1 + i, payloadOf log (g + 1 + i)⟩ : VPNFrame) = some vf
    rw [hpayload, show g + 1 + i = vf.seq by omega]
  · rw [getElem?_eq_none (by simpa using hi), getElem?_eq_none]
    · rfl
    · rw [length_take, length_drop]
      omega

/-- The record of a group of the log is a record of the stream. -/
theorem record_eq (h : Logged log) {g : Nat} (hmod : g % clampFecGroup k = 0)
    (hle : g + clampFecGroup k ≤ log.length) :
    (streamOf k ic log h).Complete (g / clampFecGroup k) ∧
      groupRecord (clampFecGroup k) ic log g =
        (streamOf k ic log h).record (g / clampFecGroup k) := by
  have hquot := Nat.div_add_mod g (clampFecGroup k)
  have hstart : (streamOf k ic log h).member (g / clampFecGroup k) 0 = g + 1 := by
    show clampFecGroup k * (g / clampFecGroup k) + 1 + 0 = g + 1
    omega
  refine ⟨?_, ?_⟩
  · show clampFecGroup k * (g / clampFecGroup k) + 1 + clampFecGroup k ≤ log.length + 1
    omega
  · unfold Stream.record groupRecord
    rw [hstart]
    show parityRecord ic ((log.drop g).take (clampFecGroup k)) =
      parityRecord ic ((streamOf k ic log h).frames (g + 1) (clampFecGroup k))
    rw [h.frames_eq hle]

end Logged

/-! ## An honest port -/

namespace AsyncPort

/-- The group size and the cipher of the encoder are those of the epoch, the records it has emitted
describe groups of the log, and what stands in the streams comes from the log and these records. -/
structure Honest (k : Nat) (ic : Option InnerCipher) (p : AsyncPort) : Prop where
  aligned : p.Aligned
  settings : ∀ e ∈ p.encoder, e.k = clampFecGroup k ∧ e.ic = ic
  numbered : ∀ b, ∀ vf ∈ (p.stream b).flatten, vf.seq ≠ 0 → vf ∈ p.assigned
  records : ∀ b, ∀ vf ∈ (p.stream b).flatten, vf.seq = 0 →
    vf.data.head? = some controlKindFECParity → vf.data ∈ p.parities

variable {p p' : AsyncPort} {k : Nat} {ic : Option InnerCipher}

theorem encode_settings {e e' : FecEncoder} (he : p.encoder = some e)
    (he' : p.encode.1.encoder = some e') : e'.k = e.k ∧ e'.ic = e.ic := by
  have haddAll : ∀ (batch : List VPNFrame) (e : FecEncoder), (e.addAll batch).1.ic = e.ic := by
    intro batch
    induction batch with
    | nil => exact fun _ => rfl
    | cons vf rest ih => exact fun e => (ih (e.add vf).1).trans (e.add_settings vf).2.1
  have hpaths : ∀ paths, (e.setPhysicalPathCount paths).ic = e.ic := by
    intro paths
    unfold FecEncoder.setPhysicalPathCount FecEncoder.suspendPaths FecEncoder.resumePaths
      FecEncoder.publishModeControl FecEncoder.reset
    simp only [apply_ite FecEncoder.ic, ite_self]
  unfold encode at he'
  simp only [he, Option.some.injEq] at he'
  rw [← he']
  refine ⟨?_, ?_⟩
  · rw [FecEncoder.add_all_k, FecEncoder.set_physical_path_count_k]
  · rw [haddAll, hpaths]

/-- What a dispatch adds to a stream is the batch, behind a control of the encoder, and records of
the encoder. -/
theorem mem_dispatched {choice : Choice} (h : p.Numbered) (hd : Dispatched p p' choice) {b : Nat}
    {vf : VPNFrame} (hvf : vf ∈ (p'.stream b).flatten) :
    vf ∈ (p.stream b).flatten ∨ (vf ∈ p.batch ∧ vf.seq ≠ 0) ∨
      (∃ c, vf = ⟨0, appendFECModeControl [] c⟩) ∨ vf.seq = 0 ∧ vf.data ∈ p.encode.2 := by
  obtain ⟨target, -, records, hrecords, hstream, -, -⟩ := hd.sent
  rw [hstream b, flatten_append, flatten_append] at hvf
  rcases mem_append.mp hvf with hold | hnew
  · exact .inl hold
  · rcases mem_append.mp hnew with hbatch | hrecord
    · by_cases htarget : target = some b
      · rw [if_pos htarget, flatten_singleton] at hbatch
        have hdata : ∀ {other : VPNFrame}, other ∈ p.batch → other ∈ p.batch ∧ other.seq ≠ 0 :=
          fun hother => ⟨hother, h.batch_seq_ne _ hother⟩
        unfold fencedBatch at hbatch
        split at hbatch
        · exact .inr (.inl (hdata hbatch))
        · rcases mem_cons.mp hbatch with hcontrol | hother
          · exact .inr (.inr (.inl ⟨_, hcontrol⟩))
          · exact .inr (.inl (hdata hother))
      · rw [if_neg htarget] at hbatch
        cases hbatch
    · obtain ⟨l, hl, hmem⟩ := mem_flatten.mp hrecord
      obtain ⟨par, hpar, rfl⟩ := mem_map.mp hl
      rw [mem_singleton] at hmem
      rw [hmem]
      exact .inr (.inr (.inr ⟨rfl, (hrecords b).1 hpar⟩))

namespace Honest

theorem start (k : Nat) (ic : Option InnerCipher) : (new.resetEpoch k ic).Honest k ic := by
  have hreset : new.step (.reset k ic) = some (new.resetEpoch k ic) := rfl
  have hgap : new.NoGap (.reset k ic) := trivial
  have hempty : ∀ b (vf : VPNFrame), vf ∉ ((new.resetEpoch k ic).stream b).flatten :=
    fun b vf hvf => by cases hvf
  refine ⟨Aligned.new.step hgap hreset, ?_, fun b vf hvf => absurd hvf (hempty b vf),
    fun b vf hvf => absurd hvf (hempty b vf)⟩
  intro e he
  obtain ⟨_, rfl⟩ := of_guarded he
  exact ⟨rfl, rfl⟩

/-- A step that changes neither the encoder nor the streams. -/
theorem still (h : p.Honest k ic) (haligned : p'.Aligned) (hencoder : p'.encoder = p.encoder)
    (hparities : p'.parities = p.parities) (hstream : ∀ b, p'.stream b = p.stream b)
    (hassigned : p.assigned <+: p'.assigned) : p'.Honest k ic := by
  refine ⟨haligned, hencoder ▸ h.settings, fun b vf hvf hseq => ?_, fun b vf hvf => ?_⟩
  · rw [hstream b] at hvf
    exact hassigned.subset (h.numbered b vf hvf hseq)
  · rw [hstream b] at hvf
    rw [hparities]
    exact h.records b vf hvf

theorem dispatched {choice : Choice} (h : p.Honest k ic) (haligned : p'.Aligned)
    (hd : Dispatched p p' choice) : p'.Honest k ic := by
  have hnumbered := h.aligned.numbered
  obtain ⟨fed, hsuffix⟩ := hnumbered.suffix
  refine ⟨haligned, ?_, fun b vf hvf hseq => ?_, fun b vf hvf hseq hkind => ?_⟩
  · intro e' he'
    rw [hd.encoder_eq] at he'
    cases he : p.encoder with
    | none =>
      unfold encode at he'
      rw [he] at he'
      rw [he] at he'
      cases he'
    | some e =>
      obtain ⟨hk, hic⟩ := encode_settings he he'
      obtain ⟨hk', hic'⟩ := h.settings e he
      exact ⟨hk.trans hk', hic.trans hic'⟩
  · rw [hd.assigned_eq]
    rcases mem_dispatched hnumbered hd hvf with hold | ⟨hbatch, -⟩ | ⟨c, rfl⟩ | ⟨hzero, -⟩
    · exact h.numbered b vf hold hseq
    · rw [hsuffix]
      exact mem_append_right _ hbatch
    · exact absurd rfl hseq
    · exact absurd hzero hseq
  · rw [hd.parities_eq]
    rcases mem_dispatched hnumbered hd hvf with hold | ⟨-, hne⟩ | ⟨c, rfl⟩ | ⟨-, hrecord⟩
    · exact mem_append_left _ (h.records b vf hold hseq hkind)
    · exact absurd hseq hne
    · -- the kind of a mode control is another one
      cases hkind
    · exact mem_append_right _ hrecord

/-- Within an epoch the log and the records only grow. -/
theorem step {action : Action} (h : p.Honest k ic) (hgap : p.NoGap action)
    (hreset : ∀ k ic, action ≠ .reset k ic) (hstep : p.step action = some p') :
    p'.Honest k ic := by
  have haligned := h.aligned.step hgap hstep
  obtain ⟨-, hquiet | ⟨choice, -, hskipped⟩ | ⟨choice, -, hd⟩ | ⟨k', ic', heq, -⟩⟩ :=
    step_cases h.aligned.numbered hstep
  · obtain ⟨new, hassigned, -⟩ := hquiet.numbers
    exact h.still haligned hquiet.encoder_eq hquiet.parities_eq hquiet.stream_eq
      ⟨new, hassigned.symm⟩
  · refine h.still haligned hskipped.encoder_eq hskipped.parities_eq hskipped.stream_eq ?_
    rw [hskipped.assigned_eq]
  · exact h.dispatched haligned hd
  · exact absurd heq (hreset k' ic')

end Honest

end AsyncPort

end TlsVpn.Port
