import TlsVpn.Crypto.InnerCipher
import TlsVpn.Fec.Control

/-!
# The parity encoder

Translation of `fecEncoder`. The encoder accumulates the exclusive or of the frames it is fed and
emits a parity record for every `k` of them; the accumulator keeps its buffer between groups and
only the part touched by the last group is cleared.

`parityRecord` is the record of a list of frames without any reuse of buffers, and `Holds` relates
the encoder to the frames of its open group. `Holds.add` says that feeding a frame extends the open
group or emits exactly the record of the completed one.
-/

namespace TlsVpn.Fec

open Lib Crypto List

/-- A frame with its number. -/
structure VPNFrame where
  seq : Nat
  data : Bytes
  deriving DecidableEq, Repr

/-- The state of `fecEncoder`. -/
structure FecEncoder where
  k : Nat
  seqs : List Nat
  lens : List Nat
  acc : Bytes
  activeLen : Nat
  ic : Option InnerCipher
  paritySent : Nat
  multipath : Bool
  armed : Bool
  lastSeq : Nat
  controlGeneration : Nat
  /-- The newest control, `none` before the first one. -/
  control : Option FecModeControl

namespace FecEncoder

/-- An encoder without an open group. -/
def new (k : Nat) (ic : Option InnerCipher) : FecEncoder :=
  { k := clampFecGroup k
    seqs := []
    lens := []
    acc := []
    activeLen := 0
    ic
    paritySent := 0
    multipath := true
    armed := true
    lastSeq := 0
    controlGeneration := 0
    control := none }

/-- The next generation number; the counter skips zero when it wraps. -/
def nextGeneration (generation : Nat) : Nat :=
  if (1 + generation) % uint64Size = 0 then 1
  else (1 + generation) % uint64Size

/-- A control of the next generation. -/
def publishModeControl (e : FecEncoder) (op : FecControlOp) (boundary : Nat) : FecEncoder :=
  if boundary = 0 then e
  else
    let generation := nextGeneration e.controlGeneration
    { e with controlGeneration := generation, control := some ⟨generation, op, boundary⟩ }

/-- The control that is to be announced. -/
def currentModeControl (e : FecEncoder) : Option FecModeControl :=
  e.control.filter (fun c => c.generation ≠ 0 ∧ c.boundary ≠ 0)

/-- Drop the open group. Only the active part of the accumulator is cleared. -/
def reset (e : FecEncoder) : FecEncoder :=
  { e with seqs := [], lens := [], acc := clearFront e.acc e.activeLen, activeLen := 0 }

/-- The first sequence number after the last one fed, `0` at the end of the sequence space. -/
def firstSeq (e : FecEncoder) : Nat :=
  if e.lastSeq ≠ maxUint32 then e.lastSeq + 1 else 0

/-- The number from which on no parity will come: the start of the open group, or of the group of
the next frame. -/
def suspendBoundary (e : FecEncoder) : Nat :=
  match e.seqs with
  | [] => fecGroupStart e.firstSeq e.k
  | start :: _ => start

/-- The change to a single physical path. A suspend is announced unless nothing was sent yet. -/
def suspendPaths (e : FecEncoder) : FecEncoder :=
  let hadTraffic := e.lastSeq ≠ 0 ∨ e.seqs ≠ []
  let cleared := if e.seqs ≠ [] ∨ e.activeLen ≠ 0 then e.reset else e
  let suspended := { cleared with multipath := false, armed := false }
  if hadTraffic then suspended.publishModeControl .suspend e.suspendBoundary else suspended

/-- The change back to several paths. A resume is announced only after a suspend. -/
def resumePaths (e : FecEncoder) : FecEncoder :=
  let resumed := { e with multipath := true, armed := false }
  if e.controlGeneration = 0 then resumed
  else if fecNextGroupStart e.firstSeq e.k ≠ 0 then
    resumed.publishModeControl .resume (fecNextGroupStart e.firstSeq e.k)
  else resumed

/-- Only the change between one path and several matters. -/
def setPhysicalPathCount (e : FecEncoder) (paths : Nat) : FecEncoder :=
  if decide (paths ≥ 2) = e.multipath then e
  else if paths < 2 then e.suspendPaths
  else e.resumePaths

/-- The parity record of the open group. -/
def buildParity (e : FecEncoder) : Bytes :=
  let start := e.seqs.headD 0
  let wireLen := (e.activeLen + tagLen e.ic) % 4294967296
  [controlKindFECParity] ++ putUint 4 start ++ [UInt8.ofNat e.lens.length] ++
    e.lens.flatMap (putUint 4) ++ sealInPlace e.ic (e.acc.take e.activeLen) start wireLen

/-- Count the frame into the open group. -/
def accumulate (e : FecEncoder) (vf : VPNFrame) : FecEncoder :=
  { e with
    seqs := e.seqs ++ [vf.seq]
    lens := e.lens ++ [vf.data.length]
    acc := xorExtend e.acc vf.data
    activeLen := max e.activeLen vf.data.length }

/-- Emit the record of the open group and start the next one. -/
def flush (e : FecEncoder) : FecEncoder × Bytes :=
  ({ e with paritySent := e.paritySent + 1 }.reset, e.buildParity)

/-- Feed one data frame and return the parity record it completes, if any. -/
def add (e : FecEncoder) (vf : VPNFrame) : FecEncoder × Option Bytes :=
  if vf.data = [] then (e, none)
  else
    let e := if vf.seq ≠ 0 then { e with lastSeq := vf.seq } else e
    if e.multipath = false then (e, none)
    else if e.armed = false ∧ (vf.seq = 0 ∨ (vf.seq - 1) % e.k ≠ 0) then (e, none)
    else
      let e := { e with armed := true }.accumulate vf
      if e.seqs.length < e.k then (e, none)
      else
        let (e, parity) := e.flush
        (e, some parity)

/-- Feed the frames of a batch and collect the parity records. -/
def addAll (e : FecEncoder) : List VPNFrame → FecEncoder × List Bytes
  | [] => (e, [])
  | vf :: rest =>
    let (next, parity) := e.add vf
    let (final, parities) := next.addAll rest
    (final, parity.toList ++ parities)

theorem addAll_append (e : FecEncoder) (front back : List VPNFrame) :
    e.addAll (front ++ back) =
      (((e.addAll front).1.addAll back).1,
        (e.addAll front).2 ++ ((e.addAll front).1.addAll back).2) := by
  induction front generalizing e with
  | nil => rfl
  | cons vf front ih => simp only [cons_append, addAll, ih, append_assoc]

end FecEncoder

/-! ## The record of a group -/

/-- The parity record of a list of frames. -/
def parityRecord (ic : Option InnerCipher) (frames : List VPNFrame) : Bytes :=
  let start := (frames.map (·.seq)).headD 0
  let body := xorAll (frames.map (·.data))
  [controlKindFECParity] ++ putUint 4 start ++ [UInt8.ofNat frames.length] ++
    frames.flatMap (fun vf => putUint 4 vf.data.length) ++
    sealInPlace ic body start ((body.length + tagLen ic) % 4294967296)

/-- The encoder holds exactly the given frames as its open group. -/
structure FecEncoder.Holds (e : FecEncoder) (frames : List VPNFrame) : Prop where
  seqs_eq : e.seqs = frames.map (·.seq)
  lens_eq : e.lens = frames.map (·.data.length)
  activeLen_eq : e.activeLen = (xorAll (frames.map (·.data))).length
  activeLen_le : e.activeLen ≤ e.acc.length
  acc_eq : ∀ i, byteAt e.acc i = byteAt (xorAll (frames.map (·.data))) i

namespace FecEncoder

variable {e : FecEncoder} {frames : List VPNFrame} {vf : VPNFrame}

theorem holds_new (k : Nat) (ic : Option InnerCipher) : (new k ic).Holds [] :=
  ⟨rfl, rfl, rfl, le_rfl, fun _ => rfl⟩

namespace Holds

theorem build_parity (h : e.Holds frames) : e.buildParity = parityRecord e.ic frames := by
  have hacc : e.acc.take e.activeLen = xorAll (frames.map (·.data)) := by
    have hlen : (e.acc.take e.activeLen).length = (xorAll (frames.map (·.data))).length := by
      rw [length_take, Nat.min_eq_left h.activeLen_le, h.activeLen_eq]
    refine bytes_ext hlen fun i hi => ?_
    rw [byteAt_take (by rwa [hlen, ← h.activeLen_eq] at hi), h.acc_eq]
  rw [h.activeLen_eq] at hacc
  simp only [buildParity, parityRecord, hacc, h.seqs_eq, h.lens_eq, h.activeLen_eq,
    length_map, flatMap_map]

/-- Clearing the active part leaves an accumulator of zeros. -/
theorem reset (h : e.Holds frames) : e.reset.Holds [] := by
  refine ⟨rfl, rfl, rfl, Nat.zero_le _, ?_⟩
  intro i
  show byteAt (clearFront e.acc e.activeLen) i = byteAt [] i
  rw [byteAt_clearFront]
  split
  · rfl
  · rename_i hi
    rw [h.acc_eq, byteAt_of_length_le (by rw [← h.activeLen_eq]; omega)]
    rfl

theorem accumulate (h : e.Holds frames) (vf : VPNFrame) :
    (e.accumulate vf).Holds (frames ++ [vf]) := by
  have hall : xorAll ((frames ++ [vf]).map (·.data))
      = xorExtend (xorAll (frames.map (·.data))) vf.data := by
    rw [map_append, map_singleton, xorAll_append]
  have hlen := h.activeLen_le
  refine ⟨by simp [FecEncoder.accumulate, h.seqs_eq], by simp [FecEncoder.accumulate, h.lens_eq],
    ?_, ?_, ?_⟩
  · rw [hall, length_xorExtend, ← h.activeLen_eq]
    rfl
  · show max e.activeLen vf.data.length ≤ (xorExtend e.acc vf.data).length
    rw [length_xorExtend]
    omega
  · intro i
    show byteAt (xorExtend e.acc vf.data) i = _
    rw [hall, byteAt_xorExtend, byteAt_xorExtend, h.acc_eq]

/-- The fields outside the open group do not matter. -/
theorem of_same_group (h : e.Holds frames) (e' : FecEncoder) (hseqs : e'.seqs = e.seqs)
    (hlens : e'.lens = e.lens) (hacc : e'.acc = e.acc) (hactive : e'.activeLen = e.activeLen) :
    e'.Holds frames :=
  ⟨hseqs.trans h.seqs_eq, hlens.trans h.lens_eq, hactive.trans h.activeLen_eq,
    by rw [hacc, hactive]; exact h.activeLen_le, by rw [hacc]; exact h.acc_eq⟩

theorem feed (h : e.Holds frames) (vf : VPNFrame) :
    ({ e with lastSeq := vf.seq, armed := true }.accumulate vf).Holds (frames ++ [vf]) :=
  accumulate (h.of_same_group { e with lastSeq := vf.seq, armed := true } rfl rfl rfl rfl) vf

theorem flush (h : e.Holds frames) : e.flush.1.Holds [] :=
  reset (h.of_same_group { e with paritySent := e.paritySent + 1 } rfl rfl rfl rfl)

end Holds

/-! ## Feeding frames -/

/-- Feeding a frame changes neither the group size, the cipher, the path mode nor the control. -/
theorem add_settings (e : FecEncoder) (vf : VPNFrame) :
    (e.add vf).1.k = e.k ∧ (e.add vf).1.ic = e.ic ∧ (e.add vf).1.multipath = e.multipath ∧
      (e.add vf).1.controlGeneration = e.controlGeneration ∧
      (e.add vf).1.control = e.control := by
  unfold add
  dsimp only
  repeat' split
  all_goals exact ⟨rfl, rfl, rfl, rfl, rfl⟩

/-- A frame is either only noted or taken into a group. -/
theorem idle_or_active (e : FecEncoder) (seq : Nat) :
    (e.multipath = false ∨ (e.armed = false ∧ (seq - 1) % e.k ≠ 0)) ∨
      (e.multipath = true ∧ (e.armed = true ∨ (seq - 1) % e.k = 0)) := by
  cases e.multipath with
  | false => exact .inl (.inl rfl)
  | true =>
    cases e.armed with
    | true => exact .inr ⟨rfl, .inl rfl⟩
    | false =>
      by_cases hmod : (seq - 1) % e.k = 0
      · exact .inr ⟨rfl, .inr hmod⟩
      · exact .inl (.inr ⟨rfl, hmod⟩)

theorem add_all_k (e : FecEncoder) (batch : List VPNFrame) : (e.addAll batch).1.k = e.k := by
  induction batch generalizing e with
  | nil => rfl
  | cons vf rest ih => exact (ih (e.add vf).1).trans (e.add_settings vf).1

/-- Without several paths, or while waiting for a group boundary, a frame is only noted. -/
theorem add_idle (hdata : vf.data ≠ []) (hseq : vf.seq ≠ 0)
    (hidle : e.multipath = false ∨ (e.armed = false ∧ (vf.seq - 1) % e.k ≠ 0)) :
    e.add vf = ({ e with lastSeq := vf.seq }, none) := by
  rw [add, if_neg hdata]
  simp only [if_pos hseq]
  rcases hidle with hsingle | ⟨harmed, hmod⟩
  · rw [if_pos hsingle]
  · by_cases hmulti : e.multipath = false
    · rw [if_pos hmulti]
    · rw [if_neg hmulti, if_pos ⟨harmed, .inr hmod⟩]

/-- An active encoder accumulates the frame. -/
theorem add_active (hdata : vf.data ≠ []) (hseq : vf.seq ≠ 0) (hmulti : e.multipath = true)
    (harmed : e.armed = true ∨ (vf.seq - 1) % e.k = 0) :
    e.add vf =
      let fed := { e with lastSeq := vf.seq, armed := true }.accumulate vf
      if fed.seqs.length < e.k then (fed, none) else (fed.flush.1, some fed.flush.2) := by
  have hactive : ¬ (e.armed = false ∧ (vf.seq = 0 ∨ (vf.seq - 1) % e.k ≠ 0)) := by
    rintro ⟨hoff, hzero | hmod⟩
    · exact hseq hzero
    · rcases harmed with hon | haligned
      · rw [hon] at hoff
        cases hoff
      · exact hmod haligned
  rw [add, if_neg hdata]
  simp only [if_pos hseq]
  rw [if_neg (by rw [hmulti]; decide), if_neg hactive]
  rfl

/-- A frame that does not complete the group joins it. -/
theorem Holds.add_open (h : e.Holds frames) (vf : VPNFrame) (hdata : vf.data ≠ [])
    (hseq : vf.seq ≠ 0) (hmulti : e.multipath = true)
    (harmed : e.armed = true ∨ (vf.seq - 1) % e.k = 0) (hopen : frames.length + 1 < e.k) :
    ∃ e', e.add vf = (e', none) ∧ e'.Holds (frames ++ [vf]) ∧ e'.armed = true ∧
      e'.lastSeq = vf.seq := by
  have hlen : (e.seqs ++ [vf.seq]).length = frames.length + 1 := by
    simp [h.seqs_eq]
  refine ⟨_, ?_, h.feed vf, rfl, rfl⟩
  rw [add_active hdata hseq hmulti harmed]
  exact if_pos (by rw [← hlen] at hopen; exact hopen)

/-- The frame that completes the group makes the encoder emit the record of the group. -/
theorem Holds.add_complete (h : e.Holds frames) (vf : VPNFrame) (hdata : vf.data ≠ [])
    (hseq : vf.seq ≠ 0) (hmulti : e.multipath = true)
    (harmed : e.armed = true ∨ (vf.seq - 1) % e.k = 0) (hfull : e.k ≤ frames.length + 1) :
    ∃ e', e.add vf = (e', some (parityRecord e.ic (frames ++ [vf]))) ∧ e'.Holds [] ∧
      e'.armed = true ∧ e'.lastSeq = vf.seq := by
  have hlen : (e.seqs ++ [vf.seq]).length = frames.length + 1 := by
    simp [h.seqs_eq]
  have hfed := h.feed vf
  refine ⟨({ e with lastSeq := vf.seq, armed := true }.accumulate vf).flush.1, ?_, hfed.flush,
    rfl, rfl⟩
  rw [add_active hdata hseq hmulti harmed]
  refine (if_neg (by rw [← hlen] at hfull; exact Nat.not_lt.mpr hfull)).trans ?_
  rw [← show _ = parityRecord e.ic (frames ++ [vf]) from hfed.build_parity]
  rfl

/-- A frame adds at most itself to the open group, and a record needs several paths and a full
group. -/
theorem add_grows (e : FecEncoder) (vf : VPNFrame) :
    (e.add vf).1.seqs.length ≤ e.seqs.length + 1 ∧
      ((e.add vf).2 ≠ none → e.multipath = true ∧ e.k ≤ e.seqs.length + 1) := by
  by_cases hdata : vf.data = []
  · rw [add, if_pos hdata]
    exact ⟨Nat.le_succ _, fun hne => absurd rfl hne⟩
  · unfold add
    rw [if_neg hdata]
    generalize hnoted : (if vf.seq ≠ 0 then { e with lastSeq := vf.seq } else e) = noted
    have hsame : noted.seqs = e.seqs ∧ noted.k = e.k ∧ noted.multipath = e.multipath := by
      rw [← hnoted]
      split
      · exact ⟨rfl, rfl, rfl⟩
      · exact ⟨rfl, rfl, rfl⟩
    obtain ⟨hseqs, hk, hmulti⟩ := hsame
    dsimp only
    have hlen : ({ noted with armed := true }.accumulate vf).seqs.length = e.seqs.length + 1 := by
      show (noted.seqs ++ [vf.seq]).length = _
      rw [hseqs, length_append, length_singleton]
    split
    · exact ⟨by rw [hseqs]; exact Nat.le_succ _, fun hne => absurd rfl hne⟩
    · rename_i hseveral
      split
      · exact ⟨by rw [hseqs]; exact Nat.le_succ _, fun hne => absurd rfl hne⟩
      · split
        · exact ⟨hlen.le, fun hne => absurd rfl hne⟩
        · rename_i hfull
          refine ⟨Nat.zero_le _, fun _ => ⟨?_, ?_⟩⟩
          · rw [← hmulti]
            exact Bool.not_eq_false _ ▸ hseveral
          · rw [hlen] at hfull
            rw [← hk]
            exact Nat.not_lt.mp hfull

/-- A batch completes a group only over several paths and with enough frames. -/
theorem add_all_emits {batch : List VPNFrame} (h : (e.addAll batch).2 ≠ []) :
    e.multipath = true ∧ e.k ≤ e.seqs.length + batch.length := by
  induction batch generalizing e with
  | nil => exact absurd rfl h
  | cons vf rest ih =>
    obtain ⟨hlen, hemits⟩ := e.add_grows vf
    obtain ⟨hk, -, hmulti, -, -⟩ := e.add_settings vf
    rw [length_cons]
    cases hrecord : (e.add vf).2 with
    | some par =>
      obtain ⟨hm, hfull⟩ := hemits (by rw [hrecord]; exact Option.some_ne_none par)
      exact ⟨hm, by omega⟩
    | none =>
      have hrest : ((e.add vf).1.addAll rest).2 ≠ [] := by
        simpa [addAll, hrecord] using h
      obtain ⟨hm, hfull⟩ := ih hrest
      rw [hmulti] at hm
      rw [hk] at hfull
      exact ⟨hm, by omega⟩

/-- Every record says that it is one. -/
theorem add_all_kind {batch : List VPNFrame} {par : Bytes} (h : par ∈ (e.addAll batch).2) :
    par.head? = some controlKindFECParity := by
  induction batch generalizing e with
  | nil => cases h
  | cons vf rest ih =>
    rcases mem_append.mp h with hfirst | hrest
    · have hrecord : (e.add vf).2 = some par := Option.mem_toList.mp hfirst
      revert hrecord
      unfold add
      dsimp only
      repeat' split
      all_goals rintro ⟨⟩
      all_goals rfl
    · exact ih hrest

/-! ## Changing the number of paths -/

theorem set_physical_path_count_cases (e : FecEncoder) (paths : Nat) :
    e.setPhysicalPathCount paths = e ∨
      (e.multipath = true ∧ paths < 2 ∧ e.setPhysicalPathCount paths = e.suspendPaths) ∨
      (e.multipath = false ∧ 2 ≤ paths ∧ e.setPhysicalPathCount paths = e.resumePaths) := by
  unfold setPhysicalPathCount
  by_cases hpaths : paths < 2
  · have hfew : decide (paths ≥ 2) = false := decide_eq_false (by omega)
    rw [hfew, if_pos hpaths]
    cases hmulti : e.multipath with
    | false => exact .inl (if_pos rfl)
    | true => exact .inr (.inl ⟨rfl, hpaths, if_neg Bool.false_ne_true⟩)
  · have hmany : decide (paths ≥ 2) = true := decide_eq_true (by omega)
    rw [hmany, if_neg hpaths]
    cases hmulti : e.multipath with
    | false => exact .inr (.inr ⟨rfl, by omega, if_neg (Ne.symm Bool.false_ne_true)⟩)
    | true => exact .inl (if_pos rfl)

theorem set_physical_path_count_k (e : FecEncoder) (paths : Nat) :
    (e.setPhysicalPathCount paths).k = e.k := by
  unfold setPhysicalPathCount suspendPaths resumePaths publishModeControl reset
  simp only [apply_ite FecEncoder.k, ite_self]

/-- The encoder follows the number of paths. -/
theorem set_physical_path_count_multipath (e : FecEncoder) (paths : Nat) :
    (e.setPhysicalPathCount paths).multipath = decide (paths ≥ 2) := by
  unfold setPhysicalPathCount
  split
  · rename_i hsame
    exact hsame.symm
  · split
    · rename_i hfew
      rw [decide_eq_false (by omega)]
      unfold suspendPaths publishModeControl
      dsimp only
      repeat' split
      all_goals rfl
    · rename_i hmany
      rw [decide_eq_true (by omega)]
      unfold resumePaths publishModeControl
      dsimp only
      repeat' split
      all_goals rfl

/-- Announcing a control only changes the control and its generation. -/
theorem publish_eq (e : FecEncoder) (op : FecControlOp) (boundary : Nat) :
    ∃ generation control, e.publishModeControl op boundary =
      { e with controlGeneration := generation, control } := by
  unfold publishModeControl
  split
  · exact ⟨e.controlGeneration, e.control, rfl⟩
  · exact ⟨_, _, rfl⟩

/-- A suspended encoder has dropped its open group. -/
theorem Holds.suspend_paths (h : e.Holds frames) :
    e.suspendPaths.Holds [] ∧ e.suspendPaths.k = e.k ∧ e.suspendPaths.ic = e.ic ∧
      e.suspendPaths.multipath = false ∧ e.suspendPaths.lastSeq = e.lastSeq := by
  have hcleared : (if e.seqs ≠ [] ∨ e.activeLen ≠ 0 then e.reset else e).Holds [] := by
    split
    · exact h.reset
    · rename_i hnone
      have hseqs : e.seqs = [] := not_not.mp (not_or.mp hnone).1
      have hframes : frames = [] := by
        rw [h.seqs_eq] at hseqs
        exact map_eq_nil_iff.mp hseqs
      rw [hframes] at h
      exact h
  have hsettings : (if e.seqs ≠ [] ∨ e.activeLen ≠ 0 then e.reset else e).k = e.k ∧
      (if e.seqs ≠ [] ∨ e.activeLen ≠ 0 then e.reset else e).ic = e.ic ∧
      (if e.seqs ≠ [] ∨ e.activeLen ≠ 0 then e.reset else e).lastSeq = e.lastSeq := by
    split
    · exact ⟨rfl, rfl, rfl⟩
    · exact ⟨rfl, rfl, rfl⟩
  unfold suspendPaths
  dsimp only
  generalize (if e.seqs ≠ [] ∨ e.activeLen ≠ 0 then e.reset else e) = cleared at hcleared hsettings
  split
  · obtain ⟨generation, control, hpublish⟩ := publish_eq
      { cleared with multipath := false, armed := false } .suspend e.suspendBoundary
    rw [hpublish]
    exact ⟨hcleared.of_same_group _ rfl rfl rfl rfl, hsettings.1, hsettings.2.1, rfl,
      hsettings.2.2⟩
  · exact ⟨hcleared.of_same_group _ rfl rfl rfl rfl, hsettings.1, hsettings.2.1, rfl,
      hsettings.2.2⟩

/-- A resumed encoder waits for a group boundary and keeps its open group. -/
theorem resume_paths_eq (e : FecEncoder) :
    ∃ generation control, e.resumePaths =
      { e with multipath := true, armed := false, controlGeneration := generation, control } := by
  unfold resumePaths
  dsimp only
  split
  · exact ⟨e.controlGeneration, e.control, rfl⟩
  · split
    · obtain ⟨generation, control, hpublish⟩ := publish_eq
        { e with multipath := true, armed := false } .resume (fecNextGroupStart e.firstSeq e.k)
      exact ⟨generation, control, hpublish⟩
    · exact ⟨e.controlGeneration, e.control, rfl⟩

end FecEncoder

end TlsVpn.Fec
