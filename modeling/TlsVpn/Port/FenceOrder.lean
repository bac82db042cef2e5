import TlsVpn.Port.Conservation

/-!
# Controls in front of the data

The port announces a change of its FEC mode by a control, which it puts in front of the next batch
on every backend. `Fenced` says which controls a backend has been handed since the last reset, in
terms of the generation that the port remembers for it.

`sender_conserves` collects what holds of a sender in every run, between any two resets.
-/

namespace TlsVpn.Port

open Lib Crypto Fec List

/-! ## Controls among frames -/

/-- The frame of a control. -/
def controlFrame (c : FecModeControl) : VPNFrame := ⟨0, appendFECModeControl [] c⟩

/-- The FEC_MODE control that a frame carries. -/
def frameControl (vf : VPNFrame) : Option FecModeControl :=
  if vf.seq = 0 then parseFECModeControl vf.data else none

/-- The FEC_MODE controls among frames. -/
def controls (frames : List VPNFrame) : List FecModeControl := frames.filterMap frameControl

theorem controls_append (frames frames' : List VPNFrame) :
    controls (frames ++ frames') = controls frames ++ controls frames' :=
  filterMap_append

theorem controls_data {frames : List VPNFrame} (h : ∀ vf ∈ frames, vf.seq ≠ 0) :
    controls frames = [] := by
  rw [controls, filterMap_eq_nil_iff]
  intro vf hvf
  exact if_neg (h vf hvf)

theorem controls_records {records : List Bytes}
    (h : ∀ par ∈ records, par.head? = some controlKindFECParity) :
    controls (records.map fun par => [(⟨0, par⟩ : VPNFrame)]).flatten = [] := by
  rw [controls, filterMap_eq_nil_iff]
  intro vf hvf
  obtain ⟨batch, hbatch, hmem⟩ := mem_flatten.mp hvf
  obtain ⟨par, hpar, rfl⟩ := mem_map.mp hbatch
  rw [mem_singleton.mp hmem, frameControl, if_pos rfl, parseFECModeControl, if_pos]
  rw [h par hpar]
  exact .inr (by decide)

namespace AsyncPort

variable {p p' : AsyncPort} {history : List FecModeControl}

/-- The controls announced since the last reset, none without an encoder. -/
def Current (p : AsyncPort) (history : List FecModeControl) : Prop :=
  p.encoder = none ∧ history = [] ∨ ∃ e, p.Announcing e history

namespace Current

theorem mode_control (h : p.Current history) :
    p.encoder.bind (·.currentModeControl) = history.getLast? := by
  rcases h with ⟨hnone, rfl⟩ | ⟨e, hann⟩
  · rw [hnone]
    rfl
  · rw [hann.encoder_eq]
    exact hann.announced.current_mode_control

variable {c : FecModeControl}

theorem last_generation (h : p.Current history) (hc : history.getLast? = some c) :
    c.generation = history.length := by
  rcases h with ⟨-, rfl⟩ | ⟨e, hann⟩
  · cases hc
  · exact Announcing.last_generation hann.announced hc

theorem generation_pos (h : p.Current history) (hc : c ∈ history) : 0 < c.generation := by
  rcases h with ⟨-, rfl⟩ | ⟨e, hann⟩
  · cases hc
  · exact hann.announced.valid.generation_pos hc

/-- The controls are told apart by their generations. -/
theorem eq_of_generation (h : p.Current history) {c' : FecModeControl} (hc : c ∈ history)
    (hc' : c' ∈ history) (heq : c.generation = c'.generation) : c = c' := by
  rcases h with ⟨-, rfl⟩ | ⟨e, hann⟩
  · cases hc
  · obtain ⟨i, hi⟩ := getElem?_of_mem hc
    obtain ⟨j, hj⟩ := getElem?_of_mem hc'
    rw [hann.announced.valid.generation_eq i c hi,
      hann.announced.valid.generation_eq j c' hj] at heq
    obtain rfl : i = j := by omega
    rw [hi] at hj
    exact Option.some.inj hj

/-- A control of an old generation is an old one. -/
theorem mem_of_generation_le {more : List FecModeControl} (h : p.Current (history ++ more))
    (hc : c ∈ history ++ more) (hle : c.generation ≤ history.length) : c ∈ history := by
  rcases h with ⟨-, hnil⟩ | ⟨e, hann⟩
  · rw [hnil] at hc
    cases hc
  · obtain ⟨i, hi⟩ := getElem?_of_mem hc
    have hgen := hann.announced.valid.generation_eq i c hi
    rw [getElem?_append_left (by omega)] at hi
    exact mem_of_getElem? hi

theorem frame_control (h : p.Current history) (hc : c ∈ history) :
    frameControl (controlFrame c) = some c := by
  rcases h with ⟨-, rfl⟩ | ⟨e, hann⟩
  · cases hc
  · have hseq : (controlFrame c).seq = 0 := rfl
    rw [frameControl, if_pos hseq]
    exact hann.parse_control hc

theorem quiet (h : p.Current history) (hnumbered : p'.Numbered) (hquiet : Quiet p p') :
    p'.Current history := by
  rcases h with ⟨hnone, hnil⟩ | ⟨e, hann⟩
  · exact .inl ⟨hquiet.encoder_eq.trans hnone, hnil⟩
  · exact .inr ⟨e, hann.quiet hnumbered hquiet⟩

theorem skipped (h : p.Current history) (hnumbered : p'.Numbered) (hskipped : Skipped p p') :
    p'.Current history := by
  rcases h with ⟨hnone, hnil⟩ | ⟨e, hann⟩
  · exact .inl ⟨hskipped.encoder_eq.trans hnone, hnil⟩
  · exact .inr ⟨e, hann.skipped hnumbered hskipped⟩

/-- A dispatch adds the control of a mode change. It is the one pending for every backend that has
not been handed it. -/
theorem dispatched (h : p.Current history) (hnumbered : p'.Numbered) {choice : Choice}
    (hd : Dispatched p p' choice) :
    ∃ more, p'.Current (history ++ more) ∧
      (∀ b, p.sending.fence b = (history ++ more).getLast?.filter
        (fun c => (p.backend b).fecFenceGen < c.generation)) ∧
      ∀ par ∈ p.encode.2, par.head? = some controlKindFECParity := by
  rcases h with ⟨hnone, rfl⟩ | ⟨e, hann⟩
  · have hencode : p.encode = (p, []) := by rw [encode, hnone]
    refine ⟨[], .inl ⟨?_, rfl⟩, fun b => ?_, ?_⟩
    · rw [hd.encoder_eq, hencode]
      exact hnone
    · rw [fence, sending, hencode, hnone]
      rfl
    · rw [hencode]
      exact forall_mem_nil _
  · obtain ⟨e', more, henc⟩ := hann.encodes hd.batch_ne
    exact ⟨more, .inr ⟨e', Announcing.dispatched henc hnumbered hd⟩,
      Announcing.fence_sending henc, henc.kinds⟩

theorem reset (h : p.Numbered) (hidle : p.phase = .idle) (k : Nat) (ic : Option InnerCipher) :
    (p.resetEpoch k ic).Current [] := by
  obtain ⟨hnumbered, hreset⟩ := reset_spec h hidle k ic
  by_cases hk : fecMinGroup ≤ k
  · refine .inr ⟨FecEncoder.new k ic, hnumbered, hreset.encoder_eq.trans (if_pos hk), ?_, le_rfl,
      ?_⟩
    · rw [hreset.parities_eq]
      exact FecEncoder.announced_new k ic
    · rw [hreset.batch_eq, hreset.assigned_eq]
      exact le_rfl
  · exact .inl ⟨hreset.encoder_eq.trans (if_neg hk), rfl⟩

end Current

end AsyncPort

/-! ## Controls on the backends -/

namespace Ledger

variable {l l' : Ledger} {history : List FecModeControl}

/-- What the port remembers of a backend since the reset: the generation is that of the last control
it was handed, and it has been handed no control twice. -/
structure Fenced (l : Ledger) (history : List FecModeControl) : Prop where
  current : l.port.Current history
  gen_le : ∀ b ∈ l.port.backends, (l.port.backend b).fecFenceGen ≤ history.length
  carried : ∀ b ∈ l.port.backends, ∀ c ∈ history,
    c.generation = (l.port.backend b).fecFenceGen → controlFrame c ∈ (l.since b).flatten
  ordered : ∀ b, ((controls (l.since b).flatten).map (·.generation)).Pairwise (· < ·)
  bounded : ∀ b, ∀ c ∈ controls (l.since b).flatten,
    c.generation ≤ (l.port.backend b).fecFenceGen

/-- Data handed to a backend by a step comes behind the control that is current at that moment. -/
def FencedBefore (l l' : Ledger) : Prop :=
  ∀ b c, l'.port.encoder.bind (·.currentModeControl) = some c →
    ∀ front vf back, (l'.since b).flatten = front ++ vf :: back → vf.seq ≠ 0 →
      vf ∉ (l.since b).flatten → controlFrame c ∈ front

/-- A step that hands nothing to a backend. -/
theorem fenced_before_of_since (hsince : ∀ b, (l'.since b).flatten ⊆ (l.since b).flatten) :
    FencedBefore l l' := by
  intro b c _ front vf back hsplit _ hnew
  refine absurd (hsince b ?_) hnew
  rw [hsplit]
  exact mem_append_right _ (mem_cons_self)

theorem Fenced.still (h : l.Fenced history) (hcurrent : l'.port.Current history)
    (hsince : ∀ b, l'.since b = l.since b)
    (hgen : ∀ b, (l'.port.backend b).fecFenceGen = (l.port.backend b).fecFenceGen)
    (hbackends : ∀ b ∈ l'.port.backends, b ∈ l.port.backends ∨ (l.port.backend b).fecFenceGen = 0) :
    l'.Fenced history := by
  refine ⟨hcurrent, ?_, ?_, fun b => ?_, fun b => ?_⟩
  · intro b hb
    rw [hgen]
    rcases hbackends b hb with hold | hzero
    · exact h.gen_le b hold
    · rw [hzero]
      exact Nat.zero_le _
  · intro b hb c hc heq
    rw [hsince]
    rw [hgen] at heq
    rcases hbackends b hb with hold | hzero
    · exact h.carried b hold c hc heq
    · have hpos := hcurrent.generation_pos hc
      omega
  · rw [hsince]
    exact h.ordered b
  · rw [hsince, hgen]
    exact h.bounded b

/-- What a dispatch hands to a backend: its batch behind the pending control, or nothing, and then
records. -/
theorem Fenced.handed (h : l.Fenced history) {more : List FecModeControl}
    (hcurrent : l'.port.Current (history ++ more)) {b : Nat} (hb : b ∈ l.port.backends)
    (hfence : l.port.sending.fence b = (history ++ more).getLast?.filter
      (fun c => (l.port.backend b).fecFenceGen < c.generation))
    (hbackend : l.port.sending.backend b = l.port.backend b) :
    ∃ control : List FecModeControl,
      l.port.sending.fencedBatch b l.port.batch = control.map controlFrame ++ l.port.batch ∧
      (∀ c ∈ control, c ∈ history ++ more ∧ c.generation = l.port.sending.fencedGen b ∧
        (l.port.backend b).fecFenceGen < c.generation) ∧
      control.length ≤ 1 ∧ l.port.sending.fencedGen b = (history ++ more).length ∧
      ∀ c ∈ history ++ more, c.generation = (history ++ more).length →
        controlFrame c ∈ (l.since b).flatten ++ control.map controlFrame := by
  have hle := h.gen_le b hb
  have hlength : history.length ≤ (history ++ more).length := by
    rw [length_append]
    exact Nat.le_add_right _ _
  unfold AsyncPort.fencedBatch AsyncPort.fencedGen
  rw [hfence, hbackend]
  cases hlast : (history ++ more).getLast? with
  | none =>
    have hnil : history ++ more = [] := getLast?_eq_none_iff.mp hlast
    rw [Option.filter_none]
    refine ⟨[], rfl, nofun, Nat.zero_le _, ?_, ?_⟩
    · rw [hnil] at hlength ⊢
      exact Nat.le_antisymm (hle.trans hlength) (Nat.zero_le _)
    · rw [hnil]
      exact nofun
  | some c =>
    have hc : c ∈ history ++ more := mem_of_getLast? hlast
    have hgen := hcurrent.last_generation hlast
    by_cases hpending : (l.port.backend b).fecFenceGen < c.generation
    · rw [Option.filter_some, if_pos (decide_eq_true hpending)]
      refine ⟨[c], rfl, ?_, le_rfl, hgen, ?_⟩
      · intro c' hc'
        rw [mem_singleton.mp hc']
        exact ⟨hc, rfl, hpending⟩
      · intro c' hc' heq
        rw [hcurrent.eq_of_generation hc' hc (heq.trans hgen.symm)]
        exact mem_append_right _ (mem_singleton_self _)
    · rw [Option.filter_some, if_neg (by simpa using hpending)]
      have hsame : (l.port.backend b).fecFenceGen = (history ++ more).length := by omega
      refine ⟨[], rfl, nofun, Nat.zero_le _, hsame, ?_⟩
      intro c' hc' heq
      rw [map_nil, append_nil]
      -- the backend was handed the newest control before, so the batch announced nothing new
      have hnone : more = [] := by
        by_contra hne
        have hpos := length_pos_iff.mpr hne
        rw [length_append] at hsame
        omega
      rw [hnone, append_nil] at hc' hsame heq
      exact h.carried b hb c' hc' (heq.trans hsame.symm)

/-- What is in the first part of a list is in front of an element that is not. -/
theorem mem_front_of_mem {α : Type} {ahead rest front back : List α} {x y : α}
    (hsplit : ahead ++ rest = front ++ x :: back) (hy : y ∈ ahead) (hx : x ∉ ahead) :
    y ∈ front := by
  rcases append_eq_append_iff.mp hsplit with ⟨more, hfront, -⟩ | ⟨more, hahead, hrest⟩
  · rw [hfront]
    exact mem_append_left _ hy
  · cases more with
    | nil =>
      rw [append_nil] at hahead
      rw [← hahead]
      exact hy
    | cons z more =>
      rw [cons_append, List.cons.injEq] at hrest
      refine absurd ?_ hx
      rw [hahead, hrest.1]
      exact mem_append_right _ mem_cons_self

variable {p : AsyncPort}

/-- The controls among the frames of a batch. -/
theorem controls_handed (hcurrent : p.Current history) {batch frames : List VPNFrame}
    {control : List FecModeControl} (hframes : frames = control.map controlFrame ++ batch)
    (hmem : ∀ c ∈ control, c ∈ history) : controls frames = control ++ controls batch := by
  have hself : controls (control.map controlFrame) = control := by
    rw [controls, filterMap_map]
    refine (filterMap_congr fun c hc => ?_).trans filterMap_some
    exact hcurrent.frame_control (hmem c hc)
  rw [hframes, controls_append, hself]

/-- What a dispatch hands to a backend: the batch behind the pending control, if it is the one that
is handed the batch, and then records. The list of controls includes the one of the dispatch. -/
structure Receives (l l' : Ledger) (history : List FecModeControl) (b : Nat)
    (control : List FecModeControl) (rest : List VPNFrame) : Prop where
  since_eq : (l'.since b).flatten = (l.since b).flatten ++ (control.map controlFrame ++ rest)
  plain : controls rest = []
  announced : ∀ c ∈ control, c ∈ history ∧ c.generation = (l'.port.backend b).fecFenceGen ∧
    (l.port.backend b).fecFenceGen < c.generation
  single : control.length ≤ 1
  gen_le : (l.port.backend b).fecFenceGen ≤ (l'.port.backend b).fecFenceGen
  batch : (l'.port.backend b).fecFenceGen = (l.port.backend b).fecFenceGen ∧ control = [] ∧
      (∀ vf ∈ rest, vf.seq = 0) ∨
    (l'.port.backend b).fecFenceGen = history.length ∧
      ∀ c ∈ history, c.generation = history.length →
        controlFrame c ∈ (l.since b).flatten ++ control.map controlFrame

section Receives

variable {more : List FecModeControl} {b : Nat} {control : List FecModeControl}
  {rest : List VPNFrame}

theorem Receives.controls_eq (h : Receives l l' history b control rest)
    (hcurrent : l'.port.Current history) :
    controls (l'.since b).flatten = controls (l.since b).flatten ++ control := by
  rw [h.since_eq, controls_append, controls_handed hcurrent rfl fun c hc => (h.announced c hc).1,
    h.plain, append_nil]

/-- The control that is handed is newer than those before. -/
theorem Receives.ordered (h : Receives l l' history b control rest)
    (hcurrent : l'.port.Current history)
    (hordered : ((controls (l.since b).flatten).map (·.generation)).Pairwise (· < ·))
    (hbounded : ∀ c ∈ controls (l.since b).flatten,
      c.generation ≤ (l.port.backend b).fecFenceGen) :
    ((controls (l'.since b).flatten).map (·.generation)).Pairwise (· < ·) := by
  rw [h.controls_eq hcurrent, map_append, pairwise_append]
  refine ⟨hordered, ?_, ?_⟩
  · match control, h.single with
    | [], _ => exact List.Pairwise.nil
    | [c], _ => exact pairwise_singleton _ _
  · intro g hg g' hg'
    obtain ⟨c, hc, rfl⟩ := mem_map.mp hg
    obtain ⟨c', hc', rfl⟩ := mem_map.mp hg'
    exact lt_of_le_of_lt (hbounded c hc) (h.announced c' hc').2.2

theorem Receives.bounded (h : Receives l l' history b control rest)
    (hcurrent : l'.port.Current history)
    (hbounded : ∀ c ∈ controls (l.since b).flatten,
      c.generation ≤ (l.port.backend b).fecFenceGen) :
    ∀ c ∈ controls (l'.since b).flatten, c.generation ≤ (l'.port.backend b).fecFenceGen := by
  intro c hc
  rw [h.controls_eq hcurrent] at hc
  rcases mem_append.mp hc with hold | hpending
  · exact (hbounded c hold).trans h.gen_le
  · exact (h.announced c hpending).2.1.le

/-- The control of the remembered generation is among the frames handed to the backend. -/
theorem Receives.carried (h : Receives l l' (history ++ more) b control rest)
    (hfenced : l.Fenced history) (hb : b ∈ l.port.backends)
    (hcurrent : l'.port.Current (history ++ more)) {c : FecModeControl} (hc : c ∈ history ++ more)
    (hgen : c.generation = (l'.port.backend b).fecFenceGen) :
    controlFrame c ∈ (l'.since b).flatten := by
  rw [h.since_eq, ← append_assoc]
  refine mem_append_left _ ?_
  rcases h.batch with ⟨hsame, -, -⟩ | ⟨hnew, hall⟩
  · -- the generation is the old one, and so is its control
    have hle := hfenced.gen_le b hb
    have hold := hcurrent.mem_of_generation_le hc (by omega)
    exact mem_append_left _ (hfenced.carried b hb c hold (hgen.trans hsame))
  · exact hall c hc (hgen.trans hnew)

/-- The data of the batch comes behind the current control. -/
theorem Receives.fenced_before (h : Receives l l' history b control rest)
    (hcurrent : l'.port.Current history) {c : FecModeControl}
    (hc : l'.port.encoder.bind (·.currentModeControl) = some c) {front back : List VPNFrame}
    {vf : VPNFrame} (hsplit : (l'.since b).flatten = front ++ vf :: back) (hseq : vf.seq ≠ 0)
    (hnew : vf ∉ (l.since b).flatten) : controlFrame c ∈ front := by
  have hpending : vf ∉ control.map controlFrame := by
    intro hmem
    obtain ⟨c', -, rfl⟩ := mem_map.mp hmem
    exact hseq rfl
  have hahead : vf ∉ (l.since b).flatten ++ control.map controlFrame :=
    not_or.mpr ⟨hnew, hpending⟩ ∘ mem_append.mp
  rw [h.since_eq, ← append_assoc] at hsplit
  rcases h.batch with ⟨-, -, hrecords⟩ | ⟨-, hall⟩
  · -- only records were handed to the backend, and they are not numbered
    have hvf : vf ∈ front ++ vf :: back := mem_append_right _ mem_cons_self
    rw [← hsplit] at hvf
    exact absurd (hrecords vf ((mem_append.mp hvf).resolve_left hahead)) hseq
  · rw [hcurrent.mode_control] at hc
    have hcarried := hall c (mem_of_getLast? hc) (hcurrent.last_generation hc)
    exact mem_front_of_mem hsplit hcarried hahead

end Receives

/-- A dispatch hands something to every backend, to all but one of them only records. -/
theorem Fenced.receives (h : l.Fenced history) (hnumbered : l.port.Numbered) {choice : Choice}
    (hd : l.port.Dispatched l'.port choice) (hbase : l'.base = l.base)
    (hbase_le : ∀ b, l.base b ≤ (l.port.stream b).length) {more : List FecModeControl}
    (hcurrent : l'.port.Current (history ++ more))
    (hfence : ∀ b, l.port.sending.fence b = (history ++ more).getLast?.filter
      (fun c => (l.port.backend b).fecFenceGen < c.generation))
    (hkinds : ∀ par ∈ l.port.encode.2, par.head? = some controlKindFECParity) (b : Nat) :
    ∃ control rest, Receives l l' (history ++ more) b control rest := by
  obtain ⟨target, htarget, records, hrecords, hstream, hgen, -⟩ := hd.sent
  have hbackend : l.port.sending.backend b = l.port.backend b := by
    obtain ⟨encoder, hencode⟩ := l.port.encode_eq
    rw [AsyncPort.sending, hencode]
  have hflat : (l'.since b).flatten = (l.since b).flatten ++
      ((if target = some b then l.port.sending.fencedBatch b l.port.batch else []) ++
        ((records b).map fun par => [(⟨0, par⟩ : VPNFrame)]).flatten) := by
    rw [since, hbase, hstream, drop_append_of_le_length (hbase_le b), flatten_append,
      flatten_append, since]
    split
    · rw [flatten_singleton]
    · rfl
  have hnorecord : controls ((records b).map fun par => [(⟨0, par⟩ : VPNFrame)]).flatten = [] :=
    controls_records fun par hpar => hkinds par ((hrecords b).1 hpar)
  by_cases hthis : target = some b
  · -- the batch, behind the control that the backend has not been handed yet
    have hb := htarget b hthis
    obtain ⟨control, hbatch, hctrl, hone, hnew, hall⟩ := h.handed hcurrent hb (hfence b) hbackend
    have hgen' : (l'.port.backend b).fecFenceGen = l.port.sending.fencedGen b := by
      rw [hgen, if_pos hthis]
    rw [if_pos hthis, hbatch, append_assoc] at hflat
    refine ⟨control, _, hflat, ?_, fun c hc => ?_, hone, ?_, .inr ⟨hgen'.trans hnew, hall⟩⟩
    · rw [controls_append, controls_data hnumbered.batch_seq_ne, hnorecord, append_nil]
    · rw [hgen']
      exact hctrl c hc
    · have hle := h.gen_le b hb
      rw [hgen', hnew, length_append]
      omega
  · have hgen' : (l'.port.backend b).fecFenceGen = (l.port.backend b).fecFenceGen := by
      rw [hgen, if_neg hthis]
    rw [if_neg hthis] at hflat
    refine ⟨[], _, hflat, hnorecord, forall_mem_nil _, Nat.zero_le _, hgen'.ge,
      .inl ⟨hgen', rfl, fun vf hvf => ?_⟩⟩
    obtain ⟨batch, hbatch, hmem⟩ := mem_flatten.mp hvf
    obtain ⟨par, -, rfl⟩ := mem_map.mp hbatch
    rw [mem_singleton.mp hmem]

/-- A dispatch that hands a backend its batch and its records. -/
theorem Fenced.dispatched (h : l.Fenced history) (hnumbered : l.port.Numbered)
    (hnext : l'.port.Numbered) {choice : Choice} (hd : l.port.Dispatched l'.port choice)
    (hbackends : l'.port.backends = l.port.backends) (hbase : l'.base = l.base)
    (hbase_le : ∀ b, l.base b ≤ (l.port.stream b).length) :
    ∃ history', l'.Fenced history' ∧ FencedBefore l l' := by
  obtain ⟨more, hcurrent, hfence, hkinds⟩ := h.current.dispatched hnext hd
  have hreceives := h.receives hnumbered hd hbase hbase_le hcurrent hfence hkinds
  refine ⟨history ++ more, ⟨hcurrent, fun b hb => ?_, fun b hb c hc hgen => ?_, fun b => ?_,
    fun b => ?_⟩, fun b c hc front vf back hsplit hseq hnew => ?_⟩ <;>
    obtain ⟨control, rest, hb'⟩ := hreceives b
  · rw [hbackends] at hb
    rcases hb'.batch with ⟨hsame, -, -⟩ | ⟨hlast, -⟩
    · rw [hsame, length_append]
      exact (h.gen_le b hb).trans (Nat.le_add_right _ _)
    · exact hlast.le
  · exact hb'.carried h (hbackends ▸ hb) hcurrent hc hgen
  · exact hb'.ordered hcurrent (h.ordered b) (h.bounded b)
  · exact hb'.bounded hcurrent (h.bounded b)
  · exact hb'.fenced_before hcurrent hc hsplit hseq hnew

/-- After a reset nothing has been handed to a backend, and no backend in the list is remembered to
have a control. -/
theorem fenced_reset (hnumbered : l.port.Numbered) {k : Nat}
    {ic : Option InnerCipher} {port : AsyncPort} (hport : l.port.step (.reset k ic) = some port) :
    ∃ history', (l.note (.reset k ic) port).Fenced history' ∧
      FencedBefore l (l.note (.reset k ic) port) := by
  obtain ⟨hidle, rfl⟩ := of_guarded hport
  have hspec := (AsyncPort.reset_spec hnumbered hidle k ic).2
  have hcurrent := AsyncPort.Current.reset hnumbered hidle k ic
  have hsince : ∀ b, (l.note (.reset k ic) (l.port.resetEpoch k ic)).since b = [] := by
    intro b
    exact drop_length
  refine ⟨[], ⟨hcurrent, ?_, fun _ _ => forall_mem_nil _, fun b => ?_, fun b => ?_⟩,
    fenced_before_of_since fun b => ?_⟩
  · intro b hb
    refine ((hspec.fenceGen_eq b).trans (if_pos ?_)).le
    exact hb
  · rw [hsince]
    exact List.Pairwise.nil
  · rw [hsince]
    exact forall_mem_nil _
  · rw [hsince]
    exact nil_subset _

variable {action : AsyncPort.Action}

theorem note_base {port : AsyncPort} (hreset : ∀ k ic, action ≠ .reset k ic) :
    (l.note action port).base = l.base := by
  cases action with
  | write | dispatch =>
    unfold note
    dsimp only
    split
    · rfl
    · rfl
  | reset k ic => exact absurd rfl (hreset k ic)
  | _ => rfl

theorem note_port (l : Ledger) (action : AsyncPort.Action) (port : AsyncPort) :
    (l.note action port).port = port := by
  cases action with
  | write | dispatch =>
    unfold note
    dsimp only
    split
    · rfl
    · rfl
  | _ => rfl

/-- A backend in the list was there before or has never been used. -/
theorem step_backends {p' : AsyncPort} (hstep : p.step action = some p') :
    ∀ b ∈ p'.backends, b ∈ p.backends ∨ (p.backend b).created = false := by
  intro x hx
  cases action with
  | register b capacity =>
    obtain ⟨hnew, rfl⟩ := of_blocked hstep
    rcases mem_append.mp hx with hold | hthis
    · exact .inl hold
    · rw [mem_singleton.mp hthis]
      exact .inr (Bool.eq_false_iff.mpr hnew)
  | unregister b =>
    cases hstep
    exact .inl (mem_of_mem_erase hx)
  | _ =>
    rw [(AsyncPort.step_keeps_backends (by simp) (by simp) hstep).1] at hx
    exact .inl hx

/-- Every step keeps the controls in order and in front of the data. -/
theorem Fenced.step (h : l.Fenced history) (hnumbered : l.port.Numbered)
    (hbase : ∀ b, l.base b ≤ (l.port.stream b).length) (hstep : l.step action = some l') :
    ∃ history', l'.Fenced history' ∧ FencedBefore l l' := by
  obtain ⟨port, hport, rfl⟩ := Option.map_eq_some_iff.mp hstep
  have hbackends := step_backends hport
  have hsame : (∀ k ic, action ≠ .reset k ic) → (∀ b, port.stream b = l.port.stream b) →
      ∀ b, (l.note action port).since b = l.since b := by
    intro hreset hstream b
    rw [since, since, note_base hreset, note_port, hstream]
  have hstill : (∀ k ic, action ≠ .reset k ic) → port.Current history →
      (∀ b, port.stream b = l.port.stream b) →
      (∀ b, (port.backend b).fecFenceGen = (l.port.backend b).fecFenceGen) →
      ∃ history', (l.note action port).Fenced history' ∧ FencedBefore l (l.note action port) := by
    intro hreset hcurrent hstream hgen
    have hsince := hsame hreset hstream
    rw [← note_port l action port] at hcurrent hgen hbackends
    refine ⟨history, h.still hcurrent hsince hgen fun b hb => ?_,
      fenced_before_of_since fun b => ?_⟩
    · exact (hbackends b hb).imp_right fun hnew => (hnumbered.absent b hnew).2
    · rw [hsince]
      exact List.Subset.refl _
  obtain ⟨hnext, hquiet | ⟨choice, rfl, hskipped⟩ | ⟨choice, rfl, hd⟩ | ⟨k, ic, rfl, hreset⟩⟩ :=
    AsyncPort.step_cases hnumbered hport
  · by_cases hreset : ∃ k ic, action = .reset k ic
    · obtain ⟨k, ic, rfl⟩ := hreset
      exact fenced_reset hnumbered hport
    · refine hstill ?_ (h.current.quiet hnext hquiet) hquiet.stream_eq hquiet.fenceGen_eq
      exact fun k ic heq => hreset ⟨k, ic, heq⟩
  · exact hstill (by simp) (h.current.skipped hnext hskipped) hskipped.stream_eq
      hskipped.fenceGen_eq
  · have hkept := (AsyncPort.step_keeps_backends (by simp) (by simp) hport).1
    rw [← note_port l (.dispatch choice) port] at hnext hd hkept
    exact h.dispatched hnumbered hnext hd hkept (note_base (by simp)) hbase
  · exact fenced_reset hnumbered hport

/-! ## The sender -/

/-- What every step of the port keeps. -/
structure Sound (l : Ledger) : Prop where
  numbered : l.port.Numbered
  booked : l.Booked
  bytes : l.port.BytesCounted
  fenced : ∃ history, l.Fenced history

theorem sound_new : new.Sound := by
  refine ⟨AsyncPort.numbered_new, ⟨[], [], rfl, rfl, fun _ => rfl, nofun, nofun, nofun,
    fun hne => absurd rfl hne, rfl, fun _ => le_rfl⟩, fun _ => ⟨le_rfl, rfl⟩, [], ?_⟩
  exact ⟨.inl ⟨rfl, rfl⟩, nofun, nofun, fun _ => List.Pairwise.nil, nofun⟩

/-- The count follows the batches handed over and completed. -/
theorem bytes_step {p' : AsyncPort} (h : p.BytesCounted) (hstep : p.step action = some p') :
    p'.BytesCounted := by
  have hnumber : ∀ (q : AsyncPort) (frame : Bytes), q.BytesCounted →
      (q.number frame).BytesCounted := by
    intro q frame hq b
    rw [(q.number_backends frame).2]
    exact hq b
  cases action with
  | write frame =>
    cases hstep
    unfold AsyncPort.writeOwnedFrame
    split
    · exact h
    · exact h
  | register b capacity =>
    obtain ⟨_, rfl⟩ := of_blocked hstep
    exact h.set_backend ⟨le_rfl, rfl⟩
  | unregister b =>
    cases hstep
    exact h
  | drain b =>
    cases hstep
    exact h.drain b
  | complete b =>
    cases hstep
    exact h.set_backend (h b).complete
  | takeFrame =>
    simp only [AsyncPort.step, AsyncPort.takeFrame] at hstep
    split at hstep
    · split at hstep
      · cases hstep
        exact h
      · cases hstep
        exact h
    · cases hstep
  | gotSlot =>
    simp only [AsyncPort.step, AsyncPort.gotSlot] at hstep
    split at hstep
    · split at hstep
      · cases hstep
      · cases hstep
        exact h
      · cases hstep
        exact hnumber { p with phase := .idle } _ h
    · cases hstep
  | fill =>
    simp only [AsyncPort.step, AsyncPort.fill] at hstep
    split at hstep
    · rename_i frame rest hphase hch
      split at hstep
      · split at hstep
        · cases hstep
          exact h
        · cases hstep
          exact hnumber { p with ch := rest } frame h
      · cases hstep
    · cases hstep
  | dispatch choice =>
    obtain ⟨_, rfl⟩ := of_guarded hstep
    exact h.dispatch choice
  | reset k ic =>
    obtain ⟨_, rfl⟩ := of_guarded hstep
    exact h.reset k ic

/-- A dispatch sends the control first. -/
theorem Sound.step (h : l.Sound) (hstep : l.step action = some l') :
    l'.Sound ∧ FencedBefore l l' := by
  obtain ⟨settled, refused, hbooks⟩ := h.booked
  obtain ⟨history, hfenced⟩ := h.fenced
  obtain ⟨history', hnext, hbefore⟩ := hfenced.step h.numbered hbooks.base_le hstep
  have hbooked := h.booked.step h.numbered hstep
  obtain ⟨port, hport, rfl⟩ := Option.map_eq_some_iff.mp hstep
  refine ⟨⟨?_, hbooked, ?_, history', hnext⟩, hbefore⟩
  · rw [note_port]
    exact (AsyncPort.step_cases h.numbered hport).1
  · rw [note_port]
    exact bytes_step h.bytes hport

/-- Numbers are given out one after the other until a reset. -/
theorem assigned_grows (h : l.Sound) (hstep : l.step action = some l')
    (hreset : ∀ k ic, action ≠ .reset k ic) : l.port.assigned <+: l'.port.assigned := by
  obtain ⟨port, hport, rfl⟩ := Option.map_eq_some_iff.mp hstep
  rw [note_port]
  obtain ⟨-, hquiet | ⟨choice, -, hskipped⟩ | ⟨choice, -, hd⟩ | ⟨k, ic, heq, -⟩⟩ :=
    AsyncPort.step_cases h.numbered hport
  · obtain ⟨new, hassigned, -⟩ := hquiet.numbers
    exact ⟨new, hassigned.symm⟩
  · rw [hskipped.assigned_eq]
  · rw [hd.assigned_eq]
  · exact absurd heq (hreset k ic)

/-- The data of one backend in the order of the numbers. -/
theorem Conserved.data_increasing {taken : List Taken} (h : l.Conserved taken)
    (hnumbered : l.port.Numbered) (b : Nat) : ((l.data b).map (·.seq)).Pairwise (· < ·) := by
  have hsub : (l.data b).Sublist l.port.assigned := by
    rw [h.queued_eq, ← h.numbered_eq]
    exact filter_sublist.filterMap _
  have hseqs := hsub.map (·.seq)
  rw [hnumbered.seqs_eq] at hseqs
  exact List.Pairwise.sublist hseqs (pairwise_lt_range' 1)

/-- In every run, since the last reset: the frames numbered have the numbers from 1 on without a
gap, at most up to the last number; every frame taken from the input queue has one fate; the numbers
on each backend increase; the byte counter of a backend is what its writer has not completed; and
each FEC_MODE control is handed to a backend at most once. In every step from there, numbers already
given out stay, and new data on a backend comes behind the control that is current. -/
theorem sender_conserves {actions : List AsyncPort.Action} {l : Ledger}
    (hrun : run step new actions = some l) :
    (l.port.assigned.map (·.seq) = List.range' 1 l.port.txSeq ∧ l.port.txSeq ≤ 4294967295) ∧
      (∃ taken, l.Conserved taken) ∧
      (∀ b, ((l.data b).map (·.seq)).Pairwise (· < ·)) ∧
      (∀ b, (l.port.backend b).queuedBytes = (l.port.backend b).uncompleted) ∧
      (∀ b, ((controls (l.since b).flatten).map (·.generation)).Pairwise (· < ·)) ∧
      ∀ action l', l.step action = some l' →
        ((∀ k ic, action ≠ .reset k ic) → l.port.assigned <+: l'.port.assigned) ∧
          FencedBefore l l' := by
  have hsound : l.Sound :=
    run_preserves (fun _ _ _ hinv hstep => (Sound.step hinv hstep).1) sound_new hrun
  obtain ⟨settled, refused, hbooks⟩ := hsound.booked
  obtain ⟨history, hfenced⟩ := hsound.fenced
  refine ⟨⟨?_, hsound.numbered.txSeq_le⟩, ⟨_, hbooks.conserved⟩,
    hbooks.conserved.data_increasing hsound.numbered, fun b => (hsound.bytes b).2, hfenced.ordered,
    fun action l' hstep => ⟨assigned_grows hsound hstep, (hsound.step hstep).2⟩⟩
  rw [hsound.numbered.seqs_eq, hsound.numbered.txSeq_eq]

/-- Send one frame over a backend. -/
def sendOver (frame : Bytes) (b : Nat) : List AsyncPort.Action :=
  [.write frame, .takeFrame, .gotSlot, .dispatch ⟨b, [], [([], 1)]⟩]

/-- Two backends with FEC, of which one is lost after the first frame. -/
def failover : List AsyncPort.Action :=
  [.reset 2 none, .register 0 4, .register 1 4] ++ sendOver [1] 0 ++ [.unregister 0] ++
    sendOver [2] 1 ++ [.drain 0, .complete 0, .drain 1]

/-- The second frame goes to the other backend behind a suspend control, whose bytes its writer has
not completed. -/
theorem failover_conserved :
    ∃ l, run step new failover = some l ∧ (l.data 0).map (·.seq) = [1] ∧
      (l.data 1).map (·.seq) = [2] ∧ (l.port.backend 0).queuedBytes = 0 ∧
      (l.port.backend 1).queuedBytes = 17 ∧
      (controls (l.since 1).flatten).map (·.generation) = [1] ∧ ∃ taken, l.Conserved taken := by
  obtain ⟨l, hrun, hdata, hdata', hbytes, hbytes', hcontrols⟩ :
      ∃ l, run step new failover = some l ∧ (l.data 0).map (·.seq) = [1] ∧
        (l.data 1).map (·.seq) = [2] ∧ (l.port.backend 0).queuedBytes = 0 ∧
        (l.port.backend 1).queuedBytes = 17 ∧
        (controls (l.since 1).flatten).map (·.generation) = [1] :=
    exists_run_of_decide (by decide +kernel)
  exact ⟨l, hrun, hdata, hdata', hbytes, hbytes', hcontrols, (sender_conserves hrun).2.1⟩

end Ledger

end TlsVpn.Port
