import TlsVpn.Fec.History
import TlsVpn.Lib.Lists
import TlsVpn.Port.Steps

/-!
# The order of controls, data and parity on the streams

Every backend is a FIFO stream, and the port puts the newest FEC_MODE control in front of the first
batch that a backend takes after it. `Fencing` says what this gives for the streams: a data frame
comes behind every resume at or below its number. Parity records are queued without a control;
`Timely` is the condition under which they too come behind the suspend that their group was resumed
from. `Fencing.step` keeps this over every step of an epoch.
-/

namespace TlsVpn.Port

open Lib Crypto Fec List

/-- The generation of the last suspend. -/
def lastSuspend (e : FecEncoder) : Nat :=
  if e.multipath then e.controlGeneration - 1 else e.controlGeneration

/-- The frames contain a control of the generation or a newer one. -/
def Announces (history : List FecModeControl) (frames : List VPNFrame) (generation : Nat) : Prop :=
  generation = 0 ∨ ∃ c ∈ history, generation ≤ c.generation ∧
    ⟨0, appendFECModeControl [] c⟩ ∈ frames

/-- What is in front of a frame of a stream. -/
inductive Behind (history : List FecModeControl) (lastSeq : Nat) (parities : List Bytes)
    (front : List VPNFrame) : VPNFrame → Prop
  | data (vf : VPNFrame) (hseq : vf.seq ≠ 0) (hle : vf.seq ≤ lastSeq)
      (hbehind : ∀ c ∈ history, c.op = .resume → c.boundary ≤ vf.seq →
        Announces history front c.generation) :
      Behind history lastSeq parities front vf
  | control (c : FecModeControl) (hc : c ∈ history) :
      Behind history lastSeq parities front ⟨0, appendFECModeControl [] c⟩
  | parity (par : Bytes) (hpar : par ∈ parities)
      (hbehind : ∀ c ∈ history, c.op = .resume → c.boundary ≤ recordStart par →
        Announces history front (c.generation - 1)) :
      Behind history lastSeq parities front ⟨0, par⟩

section Announces

variable {history more : List FecModeControl} {frames frames' : List VPNFrame}
  {generation generation' : Nat}

theorem Announces.mono (h : Announces history frames generation)
    (hhistory : history ⊆ more) (hframes : frames ⊆ frames') (hle : generation' ≤ generation) :
    Announces more frames' generation' := by
  rcases h with hzero | ⟨c, hc, hgen, hmem⟩
  · exact .inl (by omega)
  · exact .inr ⟨c, hhistory hc, hle.trans hgen, hframes hmem⟩

/-- Later controls do not concern the frames already sent. -/
theorem Behind.extend {lastSeq lastSeq' : Nat} {parities parities' : List Bytes}
    {front : List VPNFrame} {vf : VPNFrame} (h : Behind history lastSeq parities front vf)
    (hresume : ∀ c ∈ more, c.op = .resume → lastSeq < c.boundary) (hlast : lastSeq ≤ lastSeq')
    (hparities : parities ⊆ parities') (hstart : ∀ par ∈ parities, recordStart par ≤ lastSeq) :
    Behind (history ++ more) lastSeq' parities' front vf := by
  cases h with
  | data vf hseq hle hbehind =>
    refine .data vf hseq (hle.trans hlast) fun c hc hop hboundary => ?_
    rcases mem_append.mp hc with hold | hnew
    · exact (hbehind c hold hop hboundary).mono (subset_append_left _ _)
        (List.Subset.refl _) le_rfl
    · have := hresume c hnew hop
      omega
  | control c hc => exact .control c (mem_append_left _ hc)
  | parity par hpar hbehind =>
    refine .parity par (hparities hpar) fun c hc hop hboundary => ?_
    rcases mem_append.mp hc with hold | hnew
    · exact (hbehind c hold hop hboundary).mono (subset_append_left _ _)
        (List.Subset.refl _) le_rfl
    · have := hresume c hnew hop
      have := hstart par hpar
      omega

end Announces

namespace AsyncPort

/-- The port in an epoch with an encoder, and the controls announced so far. -/
structure Announcing (p : AsyncPort) (e : FecEncoder) (history : List FecModeControl) : Prop where
  numbered : p.Numbered
  encoder_eq : p.encoder = some e
  announced : e.Announced history (p.parities.map recordStart)
  count : history.length ≤ e.lastSeq
  unfed : e.lastSeq + p.batch.length ≤ p.assigned.length

/-- The port in an epoch with an encoder: the controls announced so far, and what the streams of the
backends look like. -/
structure Fencing (p : AsyncPort) (e : FecEncoder) (history : List FecModeControl) : Prop where
  numbered : p.Numbered
  encoder_eq : p.encoder = some e
  announced : e.Announced history (p.parities.map recordStart)
  count : history.length ≤ e.lastSeq
  unfed : e.lastSeq + p.batch.length ≤ p.assigned.length
  kinds : ∀ par ∈ p.parities, par.head? = some controlKindFECParity
  streams : ∀ b, EachAfter (Behind history e.lastSeq p.parities) [] (p.stream b).flatten
  fenced : ∀ b, Announces history (p.stream b).flatten (p.backend b).fecFenceGen

/-- What a step of the epoch adds to the history, the records and the streams. -/
structure Advances (p p' : AsyncPort) (e e' : FecEncoder) (more : List FecModeControl) : Prop where
  k_eq : e'.k = e.k
  lastSeq_le : e.lastSeq ≤ e'.lastSeq
  resume_gt : ∀ c ∈ more, c.op = .resume → e.lastSeq < c.boundary
  starts : ∀ start ∈ e'.starts (p'.parities.map recordStart),
    start ∈ e.starts (p.parities.map recordStart) ∨ e.lastSeq < start
  stream : ∀ b, ∃ added, p'.stream b = p.stream b ++ added

/-- A dispatch that may complete a group picks for the records only backends that the last suspend,
or a newer control, has been queued on. -/
def Timely (p : AsyncPort) (choice : Choice) : Prop :=
  ∀ e ∈ p.encoder, e.seqs.length + p.batch.length < e.k ∨ p.backends.length < 2 ∨
    ∀ entry ∈ choice.parity, lastSuspend e ≤ (p.backend entry.2).fecFenceGen

instance (p : AsyncPort) (choice : Choice) : Decidable (p.Timely choice) :=
  inferInstanceAs (Decidable (∀ e ∈ p.encoder, _))

namespace Announcing

variable {p p' : AsyncPort} {e : FecEncoder} {history : List FecModeControl}

/-- The controls of the history survive the wire. -/
theorem parse_control (h : p.Announcing e history) {c : FecModeControl} (hc : c ∈ history) :
    parseFECModeControl (appendFECModeControl [] c) = some c := by
  have hvalid := h.announced.valid
  have hgen := hvalid.generation_le hc
  have hcount := h.count
  have hlast := h.announced.lastSeq_le
  have hbound := hvalid.boundary_le c hc
  unfold maxUint32 at hlast hbound
  exact parse_append_mode_control (hvalid.generation_pos hc) (by omega) (hvalid.boundary_pos c hc)
    (by omega)

/-- What the encoder does with the batch of a dispatch. -/
structure Encodes (p : AsyncPort) (e e' : FecEncoder) (history more : List FecModeControl) :
    Prop where
  encoder_eq : p.encode.1.encoder = some e'
  announced : e'.Announced (history ++ more) ((p.parities ++ p.encode.2).map recordStart)
  count : (history ++ more).length ≤ e'.lastSeq
  lastSeq_le : e'.lastSeq ≤ p.assigned.length
  batch_le : ∀ vf ∈ p.batch, vf.seq ≠ 0 ∧ vf.seq ≤ e'.lastSeq
  k_eq : e'.k = e.k
  lastSeq_mono : e.lastSeq ≤ e'.lastSeq
  resume_gt : ∀ c ∈ more, c.op = .resume → e.lastSeq < c.boundary
  starts : ∀ start ∈ e'.starts ((p.parities ++ p.encode.2).map recordStart),
    start ∈ e.starts (p.parities.map recordStart) ∨ e.lastSeq < start
  kinds : ∀ par ∈ p.encode.2, par.head? = some controlKindFECParity
  records : p.encode.2 ≠ [] → 2 ≤ p.backends.length ∧ e.k ≤ e.seqs.length + p.batch.length ∧
    (history ++ more).length ≤ lastSuspend e + 1

/-- Encoding a batch announces at most a change of the paths. -/
theorem encodes (h : p.Announcing e history) (hne : p.batch ≠ []) :
    ∃ e' more, Encodes p e e' history more := by
  obtain ⟨fed, hassigned⟩ := h.numbered.suffix
  have hlen : p.assigned.length = fed.length + p.batch.length := by
    rw [hassigned, length_append]
  have hunfed := h.unfed
  have htx := h.numbered.txSeq_le
  rw [h.numbered.txSeq_eq] at htx
  have hbatch : 0 < p.batch.length := length_pos_iff.mpr hne
  obtain ⟨more, hext, hmore⟩ :=
    h.announced.set_physical_path_count h.count p.backends.length
  have hlast := hext.lastSeq_eq
  have hseqs := h.numbered.batch_seqs hassigned
  obtain ⟨hall, hlow, hhigh, hle, hstarts⟩ := hext.announced.add_all hseqs (by omega) (by omega)
    (fun vf hvf => h.numbered.batch_data_ne hvf)
  have hencode : p.encode.1.encoder =
      some ((e.setPhysicalPathCount p.backends.length).addAll p.batch).1 ∧
      p.encode.2 = ((e.setPhysicalPathCount p.backends.length).addAll p.batch).2 := by
    rw [encode, h.encoder_eq]
    exact ⟨rfl, rfl⟩
  have hrecordsmap : (p.parities ++ p.encode.2).map recordStart =
      p.parities.map recordStart ++
        ((e.setPhysicalPathCount p.backends.length).addAll p.batch).2.map recordStart := by
    rw [hencode.2, map_append]
  have hcount := h.count
  have hmorelen := hext.length_le
  have hlength : (history ++ more).length = history.length + more.length := length_append
  refine ⟨_, more, hencode.1, by rw [hrecordsmap]; exact hall, by omega, by omega,
    fun vf hvf => ⟨?_, hle vf hvf⟩, (FecEncoder.add_all_k _ _).trans hext.k_eq, by omega,
    hext.resume_gt, ?_, ?_, fun hrecords => ?_⟩
  · have hmem : vf.seq ∈ p.batch.map (·.seq) := mem_map_of_mem hvf
    rw [hseqs, mem_range'_1] at hmem
    omega
  · rw [hrecordsmap]
    intro start hstart
    rcases hstarts start hstart with hold | hnew
    · exact .inl (hext.starts_subset start hold)
    · exact .inr (by omega)
  · rw [hencode.2]
    exact fun par => FecEncoder.add_all_kind
  · rw [hencode.2] at hrecords
    obtain ⟨hmulti, hfull⟩ := FecEncoder.add_all_emits hrecords
    rw [FecEncoder.set_physical_path_count_multipath, decide_eq_true_iff] at hmulti
    have hk := hext.k_eq
    have hopen := hext.seqs_length_le
    refine ⟨hmulti, by omega, ?_⟩
    have hgen := h.announced.generation_eq
    unfold lastSuspend
    cases hwas : e.multipath with
    | true =>
      have hnone : more.length = 0 := by
        rw [hmore hwas hmulti]
        rfl
      rw [if_pos rfl]
      omega
    | false =>
      rw [if_neg Bool.false_ne_true]
      omega

/-- The newest control has the number of controls as its generation. -/
theorem last_generation {emitted : List Nat} (h : e.Announced history emitted) {c : FecModeControl}
    (hc : history.getLast? = some c) : c.generation = history.length := by
  rw [getLast?_eq_getElem?] at hc
  obtain ⟨hlt, -⟩ := List.getElem?_eq_some_iff.mp hc
  rw [h.valid.generation_eq _ c hc]
  omega

/-- The control pending for a backend is the newest one, unless the backend has it already. -/
theorem fence_sending {e' : FecEncoder} {more : List FecModeControl}
    (henc : Encodes p e e' history more) (b : Nat) :
    p.sending.fence b = (history ++ more).getLast?.filter
      (fun c => (p.backend b).fecFenceGen < c.generation) := by
  have hbackend : p.sending.backend = p.backend := by
    obtain ⟨encoder, hencode⟩ := p.encode_eq
    rw [sending, hencode]
  have hencoder : p.sending.encoder = some e' := henc.encoder_eq
  rw [fence, hencoder, Option.bind_some, henc.announced.current_mode_control, hbackend]

/-- A step that queues nothing. -/
theorem quiet (h : p.Announcing e history) (hnumbered : p'.Numbered) (hquiet : Quiet p p') :
    p'.Announcing e history := by
  obtain ⟨new, hassigned, hbatch⟩ := hquiet.numbers
  refine ⟨hnumbered, hquiet.encoder_eq.trans h.encoder_eq, ?_, h.count, ?_⟩
  · rw [hquiet.parities_eq]
    exact h.announced
  · have hunfed := h.unfed
    rw [hassigned, hbatch, length_append, length_append]
    omega

theorem skipped (h : p.Announcing e history) (hnumbered : p'.Numbered) (hskipped : Skipped p p') :
    p'.Announcing e history := by
  refine ⟨hnumbered, hskipped.encoder_eq.trans h.encoder_eq, ?_, h.count, ?_⟩
  · rw [hskipped.parities_eq]
    exact h.announced
  · have hunfed := h.unfed
    rw [hskipped.assigned_eq, hskipped.batch_eq, length_nil]
    omega

theorem dispatched {choice : Choice} {e' : FecEncoder} {more : List FecModeControl}
    (henc : Encodes p e e' history more) (hnumbered : p'.Numbered) (hd : Dispatched p p' choice) :
    p'.Announcing e' (history ++ more) := by
  refine ⟨hnumbered, hd.encoder_eq.trans henc.encoder_eq, ?_, henc.count, ?_⟩
  · rw [hd.parities_eq]
    exact henc.announced
  · rw [hd.batch_eq, hd.assigned_eq]
    exact henc.lastSeq_le

end Announcing

namespace Fencing

open Announcing (Encodes fence_sending)

variable {p p' : AsyncPort} {e : FecEncoder} {history : List FecModeControl}

theorem announcing (h : p.Fencing e history) : p.Announcing e history :=
  ⟨h.numbered, h.encoder_eq, h.announced, h.count, h.unfed⟩

theorem record_start_le (h : p.Fencing e history) {par : Bytes} (hpar : par ∈ p.parities) :
    recordStart par ≤ e.lastSeq :=
  h.announced.starts_le (mem_append_left _ (mem_map_of_mem hpar))

/-- A step that queues nothing. -/
theorem quiet (h : p.Fencing e history) (hnumbered : p'.Numbered) (hquiet : Quiet p p') :
    p'.Fencing e history ∧ Advances p p' e e [] := by
  have hann := h.announcing.quiet hnumbered hquiet
  refine ⟨⟨hnumbered, hann.encoder_eq, hann.announced, hann.count, hann.unfed, ?_, fun b => ?_,
    fun b => ?_⟩, rfl, le_rfl, nofun, ?_, fun b => ⟨[], ?_⟩⟩
  · rw [hquiet.parities_eq]
    exact h.kinds
  · rw [hquiet.stream_eq, hquiet.parities_eq]
    exact h.streams b
  · rw [hquiet.stream_eq, hquiet.fenceGen_eq]
    exact h.fenced b
  · rw [hquiet.parities_eq]
    exact fun start hstart => .inl hstart
  · rw [hquiet.stream_eq, append_nil]

theorem skipped (h : p.Fencing e history) (hnumbered : p'.Numbered) (hskipped : Skipped p p') :
    p'.Fencing e history ∧ Advances p p' e e [] := by
  have hann := h.announcing.skipped hnumbered hskipped
  refine ⟨⟨hnumbered, hann.encoder_eq, hann.announced, hann.count, hann.unfed, ?_, fun b => ?_,
    fun b => ?_⟩, rfl, le_rfl, nofun, ?_, fun b => ⟨[], ?_⟩⟩
  · rw [hskipped.parities_eq]
    exact h.kinds
  · rw [hskipped.stream_eq, hskipped.parities_eq]
    exact h.streams b
  · rw [hskipped.stream_eq, hskipped.fenceGen_eq]
    exact h.fenced b
  · rw [hskipped.parities_eq]
    exact fun start hstart => .inl hstart
  · rw [hskipped.stream_eq, append_nil]

/-- Behind the pending control the stream announces everything. -/
theorem fenced_batch {e' : FecEncoder} {more : List FecModeControl} (h : p.Fencing e history)
    (henc : Encodes p e e' history more) (b : Nat) :
    ∃ control : List VPNFrame, p.sending.fencedBatch b p.batch = control ++ p.batch ∧
      (∀ vf ∈ control, ∃ c ∈ history ++ more, vf = ⟨0, appendFECModeControl [] c⟩) ∧
      Announces (history ++ more) ((p.stream b).flatten ++ control) (history ++ more).length ∧
      Announces (history ++ more) ((p.stream b).flatten ++ control) (p.sending.fencedGen b) := by
  have hbefore : Announces (history ++ more) (p.stream b).flatten (p.backend b).fecFenceGen :=
    (h.fenced b).mono (subset_append_left _ _) (List.Subset.refl _) le_rfl
  have hfence := fence_sending henc b
  have hbackend : p.sending.backend = p.backend := by
    obtain ⟨encoder, hencode⟩ := p.encode_eq
    rw [sending, hencode]
  unfold fencedBatch fencedGen
  cases hlast : (history ++ more).getLast? with
  | none =>
    have hnil : history ++ more = [] := getLast?_eq_none_iff.mp hlast
    rw [hlast, Option.filter_none] at hfence
    rw [hfence]
    refine ⟨[], rfl, forall_mem_nil _, ?_, ?_⟩
    · rw [hnil]
      exact .inl rfl
    · rw [append_nil, hbackend]
      exact hbefore
  | some c =>
    rw [hlast] at hfence
    have hc : c ∈ history ++ more := mem_of_getLast? hlast
    have hgen := Announcing.last_generation henc.announced hlast
    by_cases hpending : (p.backend b).fecFenceGen < c.generation
    · rw [Option.filter_some, if_pos (decide_eq_true hpending)] at hfence
      rw [hfence]
      have hannounced : Announces (history ++ more)
          ((p.stream b).flatten ++ [⟨0, appendFECModeControl [] c⟩]) c.generation :=
        .inr ⟨c, hc, le_rfl, mem_append_right _ (mem_singleton_self _)⟩
      refine ⟨[⟨0, appendFECModeControl [] c⟩], rfl, ?_, ?_, hannounced⟩
      · intro vf hvf
        exact ⟨c, hc, mem_singleton.mp hvf⟩
      · rw [← hgen]
        exact hannounced
    · rw [Option.filter_some, if_neg (by simpa using hpending)] at hfence
      rw [hfence]
      refine ⟨[], rfl, forall_mem_nil _, ?_, ?_⟩
      · rw [append_nil]
        exact hbefore.mono (List.Subset.refl _) (List.Subset.refl _) (by omega)
      · rw [append_nil, hbackend]
        exact hbefore

/-- A dispatched batch with its records. -/
theorem dispatched {choice : Choice} (h : p.Fencing e history) (hnumbered : p'.Numbered)
    (hd : Dispatched p p' choice) (htimely : p.Timely choice) :
    ∃ e' more, p'.Fencing e' (history ++ more) ∧ Advances p p' e e' more := by
  obtain ⟨e', more, henc⟩ := h.announcing.encodes hd.batch_ne
  obtain ⟨target, -, records, hrecords, hstream, hgen, -⟩ := hd.sent
  have hflat : ∀ b, ((records b).map (fun par => [(⟨0, par⟩ : VPNFrame)])).flatten =
      (records b).map (fun par => ⟨0, par⟩) := by
    intro b
    induction records b with
    | nil => rfl
    | cons par rest ih => rw [map_cons, flatten_cons, ih, map_cons,
        singleton_append]
  -- what is on the stream of a backend after the batch, with the control if one was pending
  have hbatch : ∀ b, ∃ sent, (p'.stream b).flatten =
      (p.stream b).flatten ++ sent ++ (records b).map (fun par => ⟨0, par⟩) ∧
      EachAfter (Behind (history ++ more) e'.lastSeq (p.parities ++ p.encode.2))
        (p.stream b).flatten sent ∧
      Announces (history ++ more) ((p.stream b).flatten ++ sent) (p'.backend b).fecFenceGen := by
    intro b
    rw [hstream, hgen, flatten_append, flatten_append, hflat]
    by_cases htarget : target = some b
    · obtain ⟨control, hcontrol, hctrl, hall, hfence⟩ := h.fenced_batch henc b
      refine ⟨control ++ p.batch, ?_, EachAfter.append.mpr ⟨?_, ?_⟩, ?_⟩
      · rw [if_pos htarget, flatten_singleton, hcontrol]
        simp only [append_assoc]
      · refine EachAfter.of_forall fun front _ vf hvf => ?_
        obtain ⟨c, hc, rfl⟩ := hctrl vf hvf
        exact .control c hc
      · refine EachAfter.of_forall fun front hfront vf hvf => ?_
        obtain ⟨hseq, hle⟩ := henc.batch_le vf hvf
        refine .data vf hseq hle fun c hc _ _ => ?_
        exact hall.mono (List.Subset.refl _) hfront.subset (henc.announced.valid.generation_le hc)
      · rw [if_pos htarget, ← append_assoc]
        exact hfence.mono (List.Subset.refl _) (subset_append_left _ _) le_rfl
    · refine ⟨[], ?_, trivial, ?_⟩
      · rw [if_neg htarget]
        simp
      · rw [if_neg htarget, append_nil]
        exact (h.fenced b).mono (subset_append_left _ _) (List.Subset.refl _) le_rfl
  -- the records come behind the suspend that their groups were resumed from
  have hbehind : ∀ b front, (p.stream b).flatten <+: front → ∀ par ∈ records b,
      Behind (history ++ more) e'.lastSeq (p.parities ++ p.encode.2) front ⟨0, par⟩ := by
    intro b front hfront par hpar
    have hmem := (hrecords b).1 hpar
    obtain ⟨hmany, hfull, hlength⟩ := henc.records (ne_nil_of_mem hmem)
    obtain ⟨entry, hentry, rfl⟩ := mem_map.mp ((hrecords b).2 (ne_nil_of_mem hpar))
    have hsuspend : lastSuspend e ≤ (p.backend entry.2).fecFenceGen := by
      rcases htimely e h.encoder_eq with hshort | hfew | hall
      · omega
      · omega
      · exact hall entry hentry
    refine .parity par (mem_append_right _ hmem) fun c hc _ _ => ?_
    have hcgen := henc.announced.valid.generation_le hc
    exact (h.fenced entry.2).mono (subset_append_left _ _) hfront.subset (by omega)
  have hann := Announcing.dispatched henc hnumbered hd
  refine ⟨e', more, ⟨hnumbered, hann.encoder_eq, hann.announced, hann.count, hann.unfed, ?_,
    fun b => ?_, fun b => ?_⟩, henc.k_eq, henc.lastSeq_mono, henc.resume_gt, ?_,
    fun b => ⟨_, hstream b⟩⟩
  · rw [hd.parities_eq]
    intro par hpar
    rcases mem_append.mp hpar with hold | hnew
    · exact h.kinds par hold
    · exact henc.kinds par hnew
  · obtain ⟨sent, hsent, hafter, -⟩ := hbatch b
    rw [hsent, hd.parities_eq, EachAfter.append, EachAfter.append]
    refine ⟨⟨(h.streams b).mono fun front vf _ hvf => ?_, ?_⟩, ?_⟩
    · exact hvf.extend henc.resume_gt henc.lastSeq_mono (subset_append_left _ _)
        (fun par hpar => h.record_start_le hpar)
    · rw [nil_append]
      exact hafter
    · refine EachAfter.of_forall fun front hfront vf hvf => ?_
      obtain ⟨par, hpar, rfl⟩ := mem_map.mp hvf
      rw [nil_append] at hfront
      exact hbehind b front ((prefix_append _ _).trans hfront) par hpar
  · obtain ⟨sent, hsent, -, hannounces⟩ := hbatch b
    rw [hsent]
    exact hannounces.mono (List.Subset.refl _) (subset_append_left _ _) le_rfl
  · rw [hd.parities_eq]
    exact henc.starts

/-- Every step of the epoch, if its records are timely. -/
theorem step {action : Action} (h : p.Fencing e history) (hstep : p.step action = some p')
    (hepoch : ∀ k ic, action ≠ .reset k ic)
    (htimely : ∀ choice, action = .dispatch choice → p.Timely choice) :
    ∃ e' more, p'.Fencing e' (history ++ more) ∧ Advances p p' e e' more := by
  obtain ⟨hnumbered, hquiet | ⟨choice, rfl, hskipped⟩ | ⟨choice, rfl, hd⟩ | ⟨k, ic, rfl, -⟩⟩ :=
    step_cases h.numbered hstep
  · obtain ⟨hfencing, hadvances⟩ := h.quiet hnumbered hquiet
    exact ⟨e, [], by rw [append_nil]; exact hfencing, hadvances⟩
  · obtain ⟨hfencing, hadvances⟩ := h.skipped hnumbered hskipped
    exact ⟨e, [], by rw [append_nil]; exact hfencing, hadvances⟩
  · exact h.dispatched hnumbered hd (htimely choice rfl)
  · exact absurd rfl (hepoch k ic)

/-- The port at the start of an epoch with an encoder. -/
theorem start {k : Nat} (hk : 2 ≤ k) (ic : Option InnerCipher) :
    (AsyncPort.new.resetEpoch k ic).Fencing (FecEncoder.new k ic) [] := by
  obtain ⟨hnumbered, hreset⟩ := reset_spec numbered_new rfl k ic
  refine ⟨hnumbered, if_pos hk, FecEncoder.announced_new k ic, le_rfl, le_rfl, nofun,
    fun b => trivial, fun b => .inl ?_⟩
  rw [hreset.fenceGen_eq]
  exact ite_self 0

end Fencing

end AsyncPort

end TlsVpn.Port
