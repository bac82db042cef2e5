import TlsVpn.Port.Steps

/-!
# Parity describes the frames it is numbered for

The encoder trusts that it sees every numbered frame: the start of a record is the number of the
first frame of the open group, and the decoder recomputes the members from it. `FedBy` says that an
encoder has been fed a numbered log of frames without a gap since its group started, and
`FedBy.add_all` that the records of a batch then describe aligned groups of the log.

`records_describe_groups` carries this over whole runs of the port, under the condition that no
batch is dropped for want of a backend while the encoder is active. Such a batch has been numbered
but never reaches the encoder, and the next record mixes groups (`skipped_batch_misaligns`).
-/

namespace TlsVpn.Port

open Lib Crypto Fec List

/-- The encoder takes frames into a group. -/
def Active (e : FecEncoder) : Prop := e.multipath = true ∧ e.armed = true

instance (e : FecEncoder) : Decidable (Active e) := inferInstanceAs (Decidable (_ ∧ _))

/-- The encoder's open group consists of the frames of the log from an aligned number on. -/
structure FedBy (e : FecEncoder) (fed : List VPNFrame) : Prop where
  k_low : 2 ≤ e.k
  active : Active e → ∃ g, g % e.k = 0 ∧ g ≤ fed.length ∧ fed.length < g + e.k ∧
    e.Holds (fed.drop g)
  inactive : ¬ Active e → e.Holds []

/-- The record of the group of a log that starts after `g` frames. -/
def groupRecord (k : Nat) (ic : Option InnerCipher) (log : List VPNFrame) (g : Nat) : Bytes :=
  parityRecord ic ((log.drop g).take k)

theorem group_record_append {k g : Nat} {ic : Option InnerCipher} {log : List VPNFrame}
    (h : g + k ≤ log.length) (more : List VPNFrame) :
    groupRecord k ic (log ++ more) g = groupRecord k ic log g := by
  have hlen : k ≤ (log.drop g).length := by
    rw [length_drop]
    omega
  rw [groupRecord, groupRecord, drop_append_of_le_length (by omega),
    take_append_of_le_length hlen]

namespace FedBy

variable {e : FecEncoder} {fed : List VPNFrame} {vf : VPNFrame}

theorem new {k : Nat} (ic : Option InnerCipher) : FedBy (FecEncoder.new k ic) [] :=
  ⟨(clamp_fec_group_range k).1,
    fun _ => ⟨0, Nat.zero_mod _, le_rfl, by
      have := (clamp_fec_group_range k).1
      show 0 < 0 + clampFecGroup k
      omega, FecEncoder.holds_new k ic⟩,
    fun _ => FecEncoder.holds_new k ic⟩

/-- An inactive encoder does not mind a gap. -/
theorem skip (h : FedBy e fed) (hinactive : ¬ Active e) (more : List VPNFrame) :
    FedBy e (fed ++ more) :=
  ⟨h.k_low, fun hactive => absurd hactive hinactive, h.inactive⟩

/-- Changing the number of paths drops the open group or waits for the next boundary. -/
theorem set_physical_path_count (h : FedBy e fed) (paths : Nat) :
    FedBy (e.setPhysicalPathCount paths) fed ∧ (e.setPhysicalPathCount paths).k = e.k ∧
      (e.setPhysicalPathCount paths).ic = e.ic := by
  have hheld : ∃ frames, e.Holds frames := by
    by_cases hactive : Active e
    · obtain ⟨g, -, -, -, hholds⟩ := h.active hactive
      exact ⟨_, hholds⟩
    · exact ⟨[], h.inactive hactive⟩
  rcases e.set_physical_path_count_cases paths with hsame | ⟨-, -, hset⟩ | ⟨hsingle, -, hset⟩
  · rw [hsame]
    exact ⟨h, rfl, rfl⟩
  · obtain ⟨frames, hholds⟩ := hheld
    obtain ⟨hempty, hk, hic, hmulti, -⟩ := hholds.suspend_paths
    rw [hset]
    refine ⟨⟨by rw [hk]; exact h.k_low, fun hactive => ?_, fun _ => hempty⟩, hk, hic⟩
    rw [Active, hmulti] at hactive
    exact absurd hactive.1 Bool.false_ne_true
  · have hempty : e.Holds [] := h.inactive (fun hactive => by
      rw [Active, hsingle] at hactive
      exact absurd hactive.1 Bool.false_ne_true)
    obtain ⟨generation, control, hresume⟩ := e.resume_paths_eq
    rw [hset, hresume]
    refine ⟨⟨h.k_low, fun hactive => absurd hactive.2 Bool.false_ne_true, fun _ => ?_⟩, rfl, rfl⟩
    exact hempty.of_same_group _ rfl rfl rfl rfl

/-- Feeding the next frame of the log. A record describes the group that ends with it. -/
theorem add (h : FedBy e fed) (hseq : vf.seq = fed.length + 1) (hdata : vf.data ≠ []) :
    FedBy (e.add vf).1 (fed ++ [vf]) ∧ ∀ par, (e.add vf).2 = some par →
      ∃ g, g % e.k = 0 ∧ g + e.k ≤ (fed ++ [vf]).length ∧
        par = groupRecord e.k e.ic (fed ++ [vf]) g := by
  obtain ⟨hk, hic, hmulti, -, -⟩ := e.add_settings vf
  have hne : vf.seq ≠ 0 := by omega
  have hlow := h.k_low
  rcases e.idle_or_active vf.seq with hidle | ⟨hm, harmed⟩
  · -- the frame is only noted
    have hinactive : ¬ Active e := by
      rintro ⟨hm, ha⟩
      rcases hidle with hoff | ⟨hoff, -⟩
      · rw [hm] at hoff
        cases hoff
      · rw [ha] at hoff
        cases hoff
    rw [FecEncoder.add_idle hdata hne hidle]
    refine ⟨⟨hlow, fun hactive => absurd hactive hinactive, fun _ => ?_⟩, nofun⟩
    exact (h.inactive hinactive).of_same_group { e with lastSeq := vf.seq } rfl rfl rfl rfl
  · -- the frame joins the group that starts at `g`
    have hgroup : ∃ g, g % e.k = 0 ∧ g ≤ fed.length ∧ fed.length < g + e.k ∧
        e.Holds (fed.drop g) := by
      by_cases harm : e.armed = true
      · exact h.active ⟨hm, harm⟩
      · refine ⟨fed.length, ?_, le_rfl, by omega, ?_⟩
        · have hmod := harmed.resolve_left harm
          rwa [hseq, Nat.add_sub_cancel] at hmod
        · rw [drop_length]
          exact h.inactive (fun hactive => harm hactive.2)
    obtain ⟨g, hmod, hle, hlt, hholds⟩ := hgroup
    have hdrop : (fed ++ [vf]).drop g = fed.drop g ++ [vf] := drop_append_of_le_length hle
    have hlen : (fed.drop g).length = fed.length - g := length_drop
    by_cases hopen : (fed.drop g).length + 1 < e.k
    · obtain ⟨e', hadd, hholds', harmed', -⟩ := hholds.add_open vf hdata hne hm harmed hopen
      rw [hadd] at hk hmulti ⊢
      refine ⟨⟨by rw [hk]; exact hlow, fun _ => ⟨g, ?_, ?_, ?_, ?_⟩, ?_⟩, nofun⟩
      · rw [hk]
        exact hmod
      · rw [length_append]
        omega
      · rw [hk, length_append, length_singleton]
        omega
      · rw [hdrop]
        exact hholds'
      · intro hinactive
        exact absurd ⟨hmulti.trans hm, harmed'⟩ hinactive
    · obtain ⟨e', hadd, hholds', harmed', -⟩ := hholds.add_complete vf hdata hne hm harmed
        (Nat.not_lt.mp hopen)
      have hfull : fed.length + 1 = g + e.k := by omega
      have hend : (fed ++ [vf]).drop (fed.length + 1) = [] := drop_of_length_le (by simp)
      rw [hadd] at hk hmulti ⊢
      refine ⟨⟨by rw [hk]; exact hlow, fun _ => ⟨fed.length + 1, ?_, ?_, ?_, ?_⟩, ?_⟩, ?_⟩
      · rw [hk, hfull, Nat.add_mod, hmod, Nat.mod_self, Nat.zero_mod]
      · rw [length_append, length_singleton]
      · rw [hk, length_append, length_singleton]
        omega
      · rw [hend]
        exact hholds'
      · intro hinactive
        exact absurd ⟨hmulti.trans hm, harmed'⟩ hinactive
      · rintro par ⟨⟩
        refine ⟨g, hmod, by rw [length_append, length_singleton]; omega, ?_⟩
        rw [groupRecord, hdrop, take_of_length_le (by simp; omega)]

/-- Feeding the next frames of the log. -/
theorem add_all {batch : List VPNFrame} (h : FedBy e fed)
    (hseq : batch.map (·.seq) = List.range' (fed.length + 1) batch.length)
    (hdata : ∀ vf ∈ batch, vf.data ≠ []) :
    FedBy (e.addAll batch).1 (fed ++ batch) ∧ (e.addAll batch).1.k = e.k ∧
      (e.addAll batch).1.ic = e.ic ∧ ∀ par ∈ (e.addAll batch).2,
        ∃ g, g % e.k = 0 ∧ g + e.k ≤ (fed ++ batch).length ∧
          par = groupRecord e.k e.ic (fed ++ batch) g := by
  induction batch generalizing e fed with
  | nil =>
    rw [append_nil]
    exact ⟨h, rfl, rfl, nofun⟩
  | cons vf rest ih =>
    rw [map_cons, length_cons, range'_succ, List.cons.injEq] at hseq
    obtain ⟨hstep, hrecord⟩ := h.add hseq.1 (hdata vf mem_cons_self)
    obtain ⟨hk, hic, -⟩ := e.add_settings vf
    obtain ⟨hfed, hk', hic', hrecords⟩ := ih hstep (by simpa using hseq.2)
      (fun x hx => hdata x (mem_cons_of_mem _ hx))
    rw [append_assoc, singleton_append] at hfed hrecords
    refine ⟨hfed, hk'.trans hk, hic'.trans hic, fun par hpar => ?_⟩
    rcases mem_append.mp hpar with hnow | hlater
    · obtain ⟨g, hmod, hle, heq⟩ := hrecord par (Option.mem_toList.mp hnow)
      refine ⟨g, hmod, ?_, ?_⟩
      · simp only [length_append, length_cons, length_nil] at hle ⊢
        omega
      · rw [heq, ← group_record_append hle rest, append_assoc, singleton_append]
    · rw [hk, hic] at hrecords
      exact hrecords par hlater

end FedBy

namespace AsyncPort

/-- The record describes a group of the frames numbered since the last reset: it starts at a group
boundary and is the record of exactly the `k` frames numbered from there on. -/
def DescribesGroup (p : AsyncPort) (par : Bytes) : Prop :=
  ∃ e, p.encoder = some e ∧ ∃ start, GroupBoundary e.k start ∧
    ((p.assigned.drop (start - 1)).take e.k).map (·.seq) = List.range' start e.k ∧
    par = parityRecord e.ic ((p.assigned.drop (start - 1)).take e.k)

/-- If the step dispatches a batch without a backend, the encoder is not active. -/
def NoGap (p : AsyncPort) : Action → Prop
  | .dispatch _ => p.backends = [] → ∀ e ∈ p.encoder, ¬ Active e
  | _ => True

instance (p : AsyncPort) : ∀ action, Decidable (p.NoGap action)
  | .dispatch _ => inferInstanceAs (Decidable (_ = _ → ∀ e ∈ p.encoder, ¬ Active e))
  | .write _ | .register _ _ | .unregister _ | .drain _ | .complete _ | .takeFrame
  | .gotSlot | .fill
  | .reset _ _ => isTrue trivial

/-- The encoder has been fed the numbered frames up to the batch under construction, and the
records describe groups of them. -/
structure Aligned (p : AsyncPort) : Prop where
  numbered : p.Numbered
  fed : ∃ fed, p.assigned = fed ++ p.batch ∧ ∀ e, p.encoder = some e → FedBy e fed
  records : ∀ par ∈ p.parities, ∃ e, p.encoder = some e ∧
    ∃ g, g % e.k = 0 ∧ g + e.k ≤ p.assigned.length ∧ par = groupRecord e.k e.ic p.assigned g

namespace Aligned

variable {p p' : AsyncPort}

theorem new : Aligned AsyncPort.new := ⟨numbered_new, ⟨[], rfl, nofun⟩, nofun⟩

/-- The record of an aligned group is numbered from a group boundary on. -/
theorem describes (h : p.Aligned) {par : Bytes} (hpar : par ∈ p.parities) :
    p.DescribesGroup par := by
  obtain ⟨e, he, g, hmod, hle, heq⟩ := h.records par hpar
  refine ⟨e, he, g + 1, ⟨by omega, by rwa [Nat.add_sub_cancel]⟩, ?_, heq⟩
  have hsplit : p.assigned.length - g = e.k + (p.assigned.length - g - e.k) := by omega
  rw [Nat.add_sub_cancel, map_take, map_drop, h.numbered.seqs_eq, drop_range',
    hsplit, ← range'_append_1, take_left' length_range', Nat.mul_one, Nat.add_comm]

/-- A quiet step extends the log behind the frames that were fed. -/
theorem quiet (h : p.Aligned) (hnumbered : p'.Numbered) (hquiet : Quiet p p') : p'.Aligned := by
  obtain ⟨fed, hassigned, hencoder⟩ := h.fed
  obtain ⟨more, hassigned', hbatch'⟩ := hquiet.numbers
  refine ⟨hnumbered, ⟨fed, ?_, ?_⟩, ?_⟩
  · rw [hassigned', hbatch', hassigned, append_assoc]
  · rw [hquiet.encoder_eq]
    exact hencoder
  · rw [hquiet.parities_eq, hquiet.encoder_eq, hassigned']
    intro par hpar
    obtain ⟨e, he, g, hmod, hle, heq⟩ := h.records par hpar
    refine ⟨e, he, g, hmod, ?_, ?_⟩
    · rw [length_append]
      omega
    · rw [heq, group_record_append hle]

/-- A skipped batch is a gap that an inactive encoder does not mind. -/
theorem skipped (h : p.Aligned) (hnumbered : p'.Numbered) (hskipped : Skipped p p')
    (hgap : ∀ e ∈ p.encoder, ¬ Active e) : p'.Aligned := by
  obtain ⟨fed, hassigned, hencoder⟩ := h.fed
  refine ⟨hnumbered, ⟨p.assigned, ?_, ?_⟩, ?_⟩
  · rw [hskipped.assigned_eq, hskipped.batch_eq, append_nil]
  · intro e he
    rw [hskipped.encoder_eq] at he
    rw [hassigned]
    exact (hencoder e he).skip (hgap e he) p.batch
  · rw [hskipped.parities_eq, hskipped.encoder_eq, hskipped.assigned_eq]
    exact h.records

/-- A dispatched batch is fed to the encoder as the next frames of the log. -/
theorem dispatched {choice : Choice} (h : p.Aligned) (hnumbered : p'.Numbered)
    (hdispatched : Dispatched p p' choice) : p'.Aligned := by
  obtain ⟨fed, hassigned, hencoder⟩ := h.fed
  have hfed' : p'.assigned = p.assigned ++ p'.batch := by
    rw [hdispatched.assigned_eq, hdispatched.batch_eq, append_nil]
  cases he : p.encoder with
  | none =>
    have hencode : p.encode = (p, []) := by
      unfold encode
      rw [he]
    refine ⟨hnumbered, ⟨p.assigned, hfed', ?_⟩, ?_⟩
    · rw [hdispatched.encoder_eq, hencode, show p.encoder = none from he]
      nofun
    · rw [hdispatched.parities_eq, hdispatched.encoder_eq, hdispatched.assigned_eq, hencode,
        append_nil]
      exact h.records
  | some e =>
    obtain ⟨hpaths, hk, hic⟩ := (hencoder e he).set_physical_path_count p.backends.length
    obtain ⟨hfed, hk', hic', hrecords⟩ := hpaths.add_all (h.numbered.batch_seqs hassigned)
      (fun _ hvf => h.numbered.batch_data_ne hvf)
    rw [hk, hic, ← hassigned] at hrecords
    have hencoder' : p'.encoder =
        some ((e.setPhysicalPathCount p.backends.length).addAll p.batch).1 := by
      rw [hdispatched.encoder_eq, encode, he]
    have hparities' : p'.parities = p.parities ++
        ((e.setPhysicalPathCount p.backends.length).addAll p.batch).2 := by
      rw [hdispatched.parities_eq, encode, he]
    refine ⟨hnumbered, ⟨p.assigned, hfed', ?_⟩, ?_⟩
    · rw [hencoder', hassigned]
      rintro e' ⟨⟩
      exact hfed
    · rw [hencoder', hparities', hdispatched.assigned_eq]
      intro par hpar
      refine ⟨_, rfl, ?_⟩
      rw [hk'.trans hk, hic'.trans hic]
      rcases mem_append.mp hpar with hold | hnow
      · obtain ⟨e', he', hgroup⟩ := h.records par hold
        rw [he] at he'
        cases he'
        exact hgroup
      · exact hrecords par hnow

theorem reset {k : Nat} {ic : Option InnerCipher} (hnumbered : p'.Numbered)
    (hreset : ResetTo p p' k ic) : p'.Aligned := by
  refine ⟨hnumbered, ⟨[], by rw [hreset.assigned_eq, hreset.batch_eq]; rfl, ?_⟩, ?_⟩
  · intro e he
    rw [hreset.encoder_eq] at he
    obtain ⟨_, rfl⟩ := of_guarded he
    exact FedBy.new ic
  · rw [hreset.parities_eq]
    nofun

/-- Every step without a gap keeps the alignment. -/
theorem step {action : Action} (h : p.Aligned) (hgap : p.NoGap action)
    (hstep : p.step action = some p') : p'.Aligned := by
  obtain ⟨hnumbered, hquiet | ⟨choice, rfl, hskipped⟩ | ⟨choice, rfl, hdispatched⟩ |
    ⟨k, ic, rfl, hreset⟩⟩ := step_cases h.numbered hstep
  · exact h.quiet hnumbered hquiet
  · exact h.skipped hnumbered hskipped (hgap hskipped.no_backend)
  · exact h.dispatched hnumbered hdispatched
  · exact .reset hnumbered hreset

end Aligned

/-- In every run in which no batch is dropped for want of a backend while the encoder is active,
every record the encoder emits describes an aligned group of the frames numbered in the epoch. -/
theorem records_describe_groups (actions : List Action) (p : AsyncPort)
    (hgap : Along step NoGap new actions) (hrun : run step new actions = some p) :
    ∀ par ∈ p.parities, p.DescribesGroup par := by
  have haligned : p.Aligned :=
    run_invariant (fun _ _ _ h hallowed hstep => h.step hallowed hstep) Aligned.new hgap hrun
  exact fun par hpar => haligned.describes hpar

/-- Two frames over two backends: the group of two is complete with the second. -/
def twoFrames : List Action :=
  [.reset 2 none, .register 0 32, .register 1 32,
    .write [1], .write [2, 2], .takeFrame, .gotSlot, .fill, .dispatch ⟨0, [], [([], 1)]⟩]

/-- The record describes both frames. -/
theorem two_frames_described :
    ∃ p, run step new twoFrames = some p ∧ p.parities.length = 1 ∧
      ∀ par ∈ p.parities, p.DescribesGroup par :=
  ⟨_, rfl, by decide, records_describe_groups twoFrames _ (by decide) rfl⟩

/-- The second frame is numbered, both connections leave, and its batch is dropped; the third frame
finds two new connections. -/
def skippedBatch : List Action :=
  [.reset 2 none, .register 0 32, .register 1 32,
    .write [1], .takeFrame, .gotSlot, .dispatch ⟨0, [], []⟩,
    .write [2], .takeFrame, .gotSlot, .unregister 0, .unregister 1, .dispatch ⟨0, [], []⟩,
    .register 2 32, .register 3 32,
    .write [4], .takeFrame, .gotSlot, .dispatch ⟨2, [], [([], 3)]⟩]

/-- The record then numbered `1` is built from the first and the third frame. -/
theorem skipped_batch_misaligns :
    ∃ p, run step new skippedBatch = some p ∧
      p.parities = [parityRecord none [⟨1, [1]⟩, ⟨3, [4]⟩]] ∧
      ¬ ∀ par ∈ p.parities, p.DescribesGroup par := by
  have hfinal : ∃ p, run step new skippedBatch = some p ∧
      p.parities = [parityRecord none [⟨1, [1]⟩, ⟨3, [4]⟩]] ∧
      p.assigned = [⟨1, [1]⟩, ⟨2, [2]⟩, ⟨3, [4]⟩] ∧
      p.encoder.all (fun e => e.k = 2 ∧ e.ic.isNone) :=
    ⟨_, rfl, by decide, by decide, by decide⟩
  obtain ⟨p, hrun, hparities, hassigned, hencoder⟩ := hfinal
  refine ⟨p, hrun, hparities, fun hall => ?_⟩
  obtain ⟨e, he, start, ⟨hpos, hmod⟩, hseq, heq⟩ := hall _ (by
    rw [hparities]
    exact mem_singleton_self _)
  rw [he, Option.all_some, decide_eq_true_iff, Option.isNone_iff_eq_none] at hencoder
  rw [hencoder.1] at hmod hseq heq
  rw [hencoder.2] at heq
  -- only the first two frames are a group of the log
  have hlen := congrArg List.length hseq
  simp only [hassigned, length_map, length_take, length_drop, length_cons,
    length_nil, length_range'] at hlen
  have hstart : start = 1 := by omega
  rw [hstart, hassigned] at heq
  revert heq
  decide

end AsyncPort

end TlsVpn.Port
