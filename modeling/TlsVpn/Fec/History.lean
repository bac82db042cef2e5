import TlsVpn.Fec.Encoder

/-!
# The announcements of a sender and what a receiver may infer from them

The sender's FEC_MODE controls form a history, numbered from `1` on (`ControlHistory`). A group is
`Spared` by the history when every suspend either came after all its frames or was followed by a
resume at or before its start, and `Announced` says of an encoder that every group it emitted a
record for, or has open, is spared.

A receiver sees only some of the controls. `Reflects` relates its fence to the history, and
`covered_resumed` is the bridge between the two ends: a spared group in the window was resumed by a
control that the receiver has not seen yet.
-/

namespace TlsVpn.Fec

open Lib Crypto List

/-- The controls announced in an epoch. Their generations count from `1`, and a resume answers the
suspend before it. -/
structure ControlHistory (history : List FecModeControl) : Prop where
  generation_eq : ∀ i c, history[i]? = some c → c.generation = i + 1
  boundary_pos : ∀ c ∈ history, 0 < c.boundary
  boundary_le : ∀ c ∈ history, c.boundary ≤ maxUint32
  resume_after : ∀ i c, history[i]? = some c → c.op = .resume →
    ∃ j c', i = j + 1 ∧ history[j]? = some c' ∧ c'.op = .suspend

/-- Every suspend was followed by a resume at or before the number. -/
def Resumed (history : List FecModeControl) (seq : Nat) : Prop :=
  ∀ i c, history[i]? = some c → c.op = .suspend →
    ∃ c', history[i + 1]? = some c' ∧ c'.op = .resume ∧ c'.boundary ≤ seq

/-- Every suspend came after the frames of the group or was followed by a resume at or before its
start. -/
def Spared (k : Nat) (history : List FecModeControl) (start : Nat) : Prop :=
  ∀ i c, history[i]? = some c → c.op = .suspend →
    (∀ seq, c.boundary ≤ seq → fecGroupStart seq k ≠ start) ∨
      ∃ c', history[i + 1]? = some c' ∧ c'.op = .resume ∧ c'.boundary ≤ start

section History

variable {history : List FecModeControl} {c : FecModeControl} {k seq start : Nat}

theorem control_history_nil : ControlHistory [] := ⟨nofun, nofun, nofun, nofun⟩

/-- The entries of an extended history. -/
theorem snoc_getElem {i : Nat} {c' : FecModeControl} (h : (history ++ [c])[i]? = some c') :
    history[i]? = some c' ∨ (i = history.length ∧ c' = c) := by
  rcases Nat.lt_trichotomy i history.length with hlt | heq | hgt
  · rw [List.getElem?_append_left hlt] at h
    exact .inl h
  · rw [heq, getElem?_append_right le_rfl, Nat.sub_self] at h
    cases h
    exact .inr ⟨heq, rfl⟩
  · rw [getElem?_eq_none (by simp; omega)] at h
    cases h

theorem getElem_append {i : Nat} {c' : FecModeControl} (h : history[i]? = some c')
    (more : List FecModeControl) : (history ++ more)[i]? = some c' := by
  obtain ⟨hlt, -⟩ := List.getElem?_eq_some_iff.mp h
  rw [List.getElem?_append_left hlt, h]

/-- The control behind the last one. -/
theorem getElem_last (history : List FecModeControl) (c : FecModeControl) :
    (history ++ [c])[history.length]? = some c := by
  rw [getElem?_append_right le_rfl, Nat.sub_self]
  rfl

theorem ControlHistory.generation_le (h : ControlHistory history) (hc : c ∈ history) :
    c.generation ≤ history.length := by
  obtain ⟨i, hi⟩ := getElem?_of_mem hc
  obtain ⟨hlt, -⟩ := List.getElem?_eq_some_iff.mp hi
  rw [h.generation_eq i c hi]
  exact hlt

theorem ControlHistory.generation_pos (h : ControlHistory history) (hc : c ∈ history) :
    0 < c.generation := by
  obtain ⟨i, hi⟩ := getElem?_of_mem hc
  rw [h.generation_eq i c hi]
  exact Nat.succ_pos i

theorem ControlHistory.snoc (h : ControlHistory history)
    (hgen : c.generation = history.length + 1) (hpos : 0 < c.boundary)
    (hle : c.boundary ≤ maxUint32)
    (hresume : c.op = .resume → ∃ c', history.getLast? = some c' ∧ c'.op = .suspend) :
    ControlHistory (history ++ [c]) := by
  refine ⟨?_, ?_, ?_, ?_⟩
  · intro i c' hc'
    rcases snoc_getElem hc' with hold | ⟨rfl, rfl⟩
    · exact h.generation_eq i c' hold
    · exact hgen
  · intro c' hc'
    rcases mem_append.mp hc' with hold | hnew
    · exact h.boundary_pos c' hold
    · rw [mem_singleton.mp hnew]
      exact hpos
  · intro c' hc'
    rcases mem_append.mp hc' with hold | hnew
    · exact h.boundary_le c' hold
    · rw [mem_singleton.mp hnew]
      exact hle
  · intro i c' hc' hop
    rcases snoc_getElem hc' with hold | ⟨rfl, rfl⟩
    · obtain ⟨j, s, hj, hs, hsop⟩ := h.resume_after i c' hold hop
      exact ⟨j, s, hj, getElem_append hs _, hsop⟩
    · obtain ⟨s, hs, hsop⟩ := hresume hop
      rw [getLast?_eq_getElem?] at hs
      obtain ⟨hlt, -⟩ := List.getElem?_eq_some_iff.mp hs
      exact ⟨history.length - 1, s, by omega, getElem_append hs _, hsop⟩

theorem Resumed.mono {seq' : Nat} (h : Resumed history seq) (hle : seq ≤ seq') :
    Resumed history seq' := by
  intro i c hc hop
  obtain ⟨c', hc', hop', hle'⟩ := h i c hc hop
  exact ⟨c', hc', hop', hle'.trans hle⟩

theorem Resumed.spared (h : Resumed history start) : Spared k history start :=
  fun i c hc hop => .inr (h i c hc hop)

/-- A further control does not touch a group that it comes after, or that it resumes. -/
theorem Spared.snoc (h : Spared k history start)
    (hlast : c.op = .suspend → ∀ seq, c.boundary ≤ seq → fecGroupStart seq k ≠ start) :
    Spared k (history ++ [c]) start := by
  intro i s hs hop
  rcases snoc_getElem hs with hold | ⟨-, rfl⟩
  · rcases h i s hold hop with hbefore | ⟨c', hc', hop', hle⟩
    · exact .inl hbefore
    · exact .inr ⟨c', getElem_append hc' _, hop', hle⟩
  · exact .inl (hlast hop)

/-- A resume that answers the last suspend. -/
theorem Resumed.answer {s : FecModeControl} (h : Resumed history seq)
    (hc : c.op = .resume) (hle : c.boundary ≤ seq) : Resumed (history ++ [s] ++ [c]) seq := by
  intro i x hx hop
  rcases snoc_getElem hx with hold | ⟨-, rfl⟩
  · rcases snoc_getElem hold with hold | ⟨rfl, rfl⟩
    · obtain ⟨c', hc', hop', hle'⟩ := h i x hold hop
      exact ⟨c', getElem_append (getElem_append hc' _) _, hop', hle'⟩
    · refine ⟨c, ?_, hc, hle⟩
      have hlen : history.length + 1 = (history ++ [x]).length := by simp
      rw [hlen]
      exact getElem_last _ _
  · rw [hc] at hop
    cases hop

end History

/-! ## The receiver's fence -/

/-- The fence is the work of controls of the history: an open window was set by the suspend applied
last, a closed one by that suspend and the resume that answers it. -/
structure FecRXFenceState.Reflects (s : FecRXFenceState) (history : List FecModeControl) :
    Prop where
  window : s.fromSeq ≠ 0 → ∃ i c, history[i]? = some c ∧ c.op = .suspend ∧
    c.boundary = s.fromSeq ∧
      ((s.untilSeq = 0 ∧ s.generation = i + 1) ∨
        ∃ c', history[i + 1]? = some c' ∧ c'.op = .resume ∧ c'.boundary = s.untilSeq ∧
          s.generation = i + 2)

/-- The control does not skip a generation when it resumes a receiver with an active window. -/
def FecRXFenceState.Consecutive (s : FecRXFenceState) (c : FecModeControl) : Prop :=
  c.op = .resume → s.fromSeq ≠ 0 → s.generation < c.generation → c.generation = s.generation + 1

instance (s : FecRXFenceState) (c : FecModeControl) : Decidable (s.Consecutive c) :=
  inferInstanceAs (Decidable (_ → _ → _ → _))

namespace FecRXFenceState

variable {s : FecRXFenceState} {history : List FecModeControl} {c : FecModeControl} {k seq : Nat}

theorem reflects_new (history : List FecModeControl) : new.Reflects history :=
  ⟨fun h => absurd rfl h⟩

theorem Reflects.append (h : s.Reflects history) (more : List FecModeControl) :
    s.Reflects (history ++ more) := by
  refine ⟨fun hactive => ?_⟩
  obtain ⟨i, s', hs', hop, hboundary, hopen | ⟨c', hc', hrest⟩⟩ := h.window hactive
  · exact ⟨i, s', getElem_append hs' _, hop, hboundary, .inl hopen⟩
  · exact ⟨i, s', getElem_append hs' _, hop, hboundary, .inr ⟨c', getElem_append hc' _, hrest⟩⟩

/-- The generation never goes back, and it reaches that of every control received. -/
theorem apply_generation (s : FecRXFenceState) (hgen : 0 < c.generation) (hpos : 0 < c.boundary) :
    s.generation ≤ (s.apply c).1.generation ∧ c.generation ≤ (s.apply c).1.generation ∧
      ((s.apply c).2 = true → s.generation < (s.apply c).1.generation) := by
  unfold apply
  rw [if_neg (by omega)]
  split
  · exact ⟨le_rfl, by assumption, nofun⟩
  · rename_i hnew
    have hlt : s.generation < c.generation := Nat.not_le.mp hnew
    repeat' split
    all_goals exact ⟨hlt.le, le_rfl, fun _ => hlt⟩

/-- Applying a control of the history that does not skip a generation. -/
theorem Reflects.apply (h : s.Reflects history) (hvalid : ControlHistory history)
    (hc : c ∈ history) (hconsecutive : s.Consecutive c) : (s.apply c).1.Reflects history := by
  obtain ⟨i, hi⟩ := getElem?_of_mem hc
  have hgen := hvalid.generation_eq i c hi
  unfold FecRXFenceState.apply
  rw [if_neg (by have := hvalid.boundary_pos c hc; omega)]
  split
  · exact h
  · rename_i hnew
    split
    · rename_i hop
      exact ⟨fun _ => ⟨i, c, hi, hop, rfl, .inl ⟨rfl, hgen⟩⟩⟩
    · rename_i hop
      split
      · exact ⟨fun hactive => absurd rfl hactive⟩
      · -- the suspend before this resume is the one that set the window
        rename_i hactive
        obtain ⟨hfrom, hlt⟩ := not_or.mp hactive
        have hnext := hconsecutive hop hfrom (Nat.not_le.mp hnew)
        obtain ⟨j, c₀, hj, hc₀, hop₀⟩ := hvalid.resume_after i c hi hop
        obtain ⟨i', s', hs', hsop, hboundary, hrest⟩ := h.window hfrom
        have hsame : i' = j := by
          rcases hrest with ⟨-, hopen⟩ | ⟨c', hc', hop', -, hclosed⟩
          · omega
          · -- a closed window was set by a resume, and this one answers a suspend
            have hji : j = i' + 1 := by omega
            rw [hji, hc'] at hc₀
            cases hc₀
            rw [hop'] at hop₀
            cases hop₀
        subst hsame
        refine ⟨fun _ => ⟨i', s', hs', hsop, hboundary, .inr ⟨c, ?_, hop, rfl, ?_⟩⟩⟩
        · rw [← hj]
          exact hi
        · show c.generation = i' + 2
          omega

/-- A spared group with a frame in the window was resumed by a control newer than the fence. -/
theorem Reflects.covered_resumed (h : s.Reflects history) (hvalid : ControlHistory history)
    (hcovers : s.Covers seq) (hle : fecGroupStart seq k ≤ seq)
    (hspared : Spared k history (fecGroupStart seq k)) :
    ∃ c ∈ history, c.op = .resume ∧ c.boundary ≤ fecGroupStart seq k ∧
      s.generation < c.generation := by
  obtain ⟨-, hfrom, hlow, hhigh⟩ := hcovers
  obtain ⟨i, c, hc, hop, hboundary, hrest⟩ := h.window hfrom
  rcases hspared i c hc hop with hbefore | ⟨c', hc', hop', hle'⟩
  · exact absurd rfl (hbefore seq (by omega))
  · refine ⟨c', mem_of_getElem? hc', hop', hle', ?_⟩
    rw [hvalid.generation_eq _ _ hc']
    rcases hrest with ⟨-, hgen⟩ | ⟨c'', hc'', hop'', hboundary'', hgen⟩
    · omega
    · rw [hc'] at hc''
      cases hc''
      have hpos := hvalid.boundary_pos c' (mem_of_getElem? hc')
      omega

end FecRXFenceState

/-! ## The encoder -/

/-- The number that a parity record starts at. -/
def recordStart (payload : Bytes) : Nat := uint ((payload.drop 1).take 4)

namespace FecEncoder

/-- The starts of the groups with a record and of the open group. -/
def starts (e : FecEncoder) (emitted : List Nat) : List Nat := emitted ++ e.seqs.head?.toList

/-- The encoder has announced the history and emitted the records with the given starts. -/
structure Announced (e : FecEncoder) (history : List FecModeControl) (emitted : List Nat) :
    Prop where
  k_low : 2 ≤ e.k
  k_high : e.k ≤ 64
  lastSeq_le : e.lastSeq ≤ maxUint32
  valid : ControlHistory history
  generation_eq : e.controlGeneration = history.length
  control_eq : e.control = history.getLast?
  traffic : history ≠ [] → e.lastSeq ≠ 0
  open_le : ∀ start, e.seqs.head? = some start →
    0 < start ∧ start + e.seqs.length ≤ e.lastSeq + 1
  emitted_le : ∀ start ∈ emitted, start + e.k ≤ e.seqs.head?.getD (e.lastSeq + 1)
  spared : ∀ start ∈ e.starts emitted, Spared e.k history start
  /-- A number that can open a group is resumed, but for the suspend in force. -/
  ready : ∀ seq, e.lastSeq < seq → seq ≤ maxUint32 → (e.armed = true ∨ (seq - 1) % e.k = 0) →
    Resumed (if e.multipath then history else history.dropLast) seq
  suspended : e.multipath = false →
    history = [] ∨ (∃ c, history.getLast? = some c ∧ c.op = .suspend) ∨ e.lastSeq = maxUint32

variable {e : FecEncoder} {history : List FecModeControl} {emitted : List Nat} {vf : VPNFrame}

theorem record_start_build (hlt : e.seqs.headD 0 < 2 ^ 32) :
    recordStart e.buildParity = e.seqs.headD 0 := by
  have hpayload : ∃ rest, e.buildParity =
      [controlKindFECParity] ++ (putUint 4 (e.seqs.headD 0) ++ rest) := by
    simp only [buildParity, append_assoc]
    exact ⟨_, rfl⟩
  obtain ⟨rest, hpayload⟩ := hpayload
  rw [recordStart, hpayload, show [controlKindFECParity] ++ (putUint 4 (e.seqs.headD 0) ++ rest) =
    controlKindFECParity :: (putUint 4 (e.seqs.headD 0) ++ rest) from rfl, drop_one,
    tail_cons, take_left' (length_putUint 4 _)]
  exact uint_put_uint_of_lt hlt

theorem announced_new (k : Nat) (ic : Option InnerCipher) : (new k ic).Announced [] [] :=
  { k_low := (clamp_fec_group_range k).1
    k_high := (clamp_fec_group_range k).2
    lastSeq_le := Nat.zero_le _
    valid := control_history_nil
    generation_eq := rfl
    control_eq := rfl
    traffic := fun hne => absurd rfl hne
    open_le := nofun
    emitted_le := nofun
    spared := nofun
    ready := fun _ _ _ _ => nofun
    suspended := fun _ => .inl rfl }

namespace Announced

/-- The newest control is the last one of the history. -/
theorem current_mode_control (h : e.Announced history emitted) :
    e.currentModeControl = history.getLast? := by
  rw [currentModeControl, h.control_eq]
  cases hlast : history.getLast? with
  | none => rfl
  | some c =>
    have hc : c ∈ history := mem_of_getLast? hlast
    have hgen := h.valid.generation_pos hc
    have hpos := h.valid.boundary_pos c hc
    rw [Option.filter_some, if_pos (by simp; omega)]

/-- Every record belongs to frames already fed. -/
theorem starts_le (h : e.Announced history emitted) {start : Nat}
    (hstart : start ∈ e.starts emitted) : start ≤ e.lastSeq := by
  have hk := h.k_low
  cases hseqs : e.seqs with
  | nil =>
    rw [starts, hseqs] at hstart
    have hle := h.emitted_le start (by simpa using hstart)
    rw [hseqs] at hle
    change start + e.k ≤ e.lastSeq + 1 at hle
    omega
  | cons first rest =>
    have hopen := (h.open_le first (by rw [hseqs]; rfl)).2
    rw [hseqs, length_cons] at hopen
    rw [starts, hseqs] at hstart
    rcases mem_append.mp hstart with hold | hnew
    · have hle := h.emitted_le start hold
      rw [hseqs] at hle
      change start + e.k ≤ first at hle
      omega
    · rw [show start = first by simpa using hnew]
      omega

/-- A frame that is only noted. -/
theorem note (h : e.Announced history emitted) {seq : Nat} (hlt : e.lastSeq < seq)
    (hle : seq ≤ maxUint32) : { e with lastSeq := seq }.Announced history emitted where
  k_low := h.k_low
  k_high := h.k_high
  lastSeq_le := hle
  valid := h.valid
  generation_eq := h.generation_eq
  control_eq := h.control_eq
  traffic := fun _ => by
    show seq ≠ 0
    omega
  open_le := fun start hstart => by
    obtain ⟨hpos, hopen⟩ := h.open_le start hstart
    exact ⟨hpos, by show start + e.seqs.length ≤ seq + 1; omega⟩
  emitted_le := fun start hstart => by
    have hbound := h.emitted_le start hstart
    show start + e.k ≤ e.seqs.head?.getD (seq + 1)
    cases hhead : e.seqs.head? with
    | none =>
      rw [hhead, Option.getD_none] at hbound
      rw [Option.getD_none]
      omega
    | some first =>
      rw [hhead] at hbound
      exact hbound
  spared := h.spared
  ready := fun next hnext hmax hcan => h.ready next (hlt.trans hnext) hmax hcan
  suspended := fun hsingle => by
    rcases h.suspended hsingle with hnone | hlast | hend
    · exact .inl hnone
    · exact .inr (.inl hlast)
    · omega

/-- The starts after a frame joined a group. -/
theorem starts_accumulate {start : Nat}
    (hstart : start ∈ ({ e with lastSeq := vf.seq, armed := true }.accumulate vf).starts emitted) :
    start ∈ e.starts emitted ∨ (e.seqs = [] ∧ start = vf.seq) := by
  change start ∈ emitted ++ (e.seqs ++ [vf.seq]).head?.toList at hstart
  cases hseqs : e.seqs with
  | nil =>
    rw [hseqs] at hstart
    rcases mem_append.mp hstart with hold | hnew
    · exact .inl (mem_append_left _ hold)
    · exact .inr ⟨rfl, by simpa using hnew⟩
  | cons first rest =>
    rw [hseqs] at hstart
    rw [starts, hseqs]
    exact .inl hstart

/-- A frame that joins the open group, or opens one. -/
theorem accumulate (h : e.Announced history emitted) (hlt : e.lastSeq < vf.seq)
    (hle : vf.seq ≤ maxUint32) (hmulti : e.multipath = true)
    (harmed : e.armed = true ∨ (vf.seq - 1) % e.k = 0) :
    ({ e with lastSeq := vf.seq, armed := true }.accumulate vf).Announced history emitted := by
  have hresumed : Resumed history vf.seq := by
    have hready := h.ready vf.seq hlt hle harmed
    rwa [if_pos hmulti] at hready
  refine ⟨h.k_low, h.k_high, hle, h.valid, h.generation_eq, h.control_eq, ?_, ?_, ?_, ?_, ?_, ?_⟩
  · intro _
    show vf.seq ≠ 0
    omega
  · intro start hstart
    change (e.seqs ++ [vf.seq]).head? = some start at hstart
    show 0 < start ∧ start + (e.seqs ++ [vf.seq]).length ≤ vf.seq + 1
    rw [length_append, length_singleton]
    cases hseqs : e.seqs with
    | nil =>
      rw [hseqs] at hstart
      cases hstart
      exact ⟨by omega, by rw [length_nil]⟩
    | cons first rest =>
      rw [hseqs] at hstart
      obtain ⟨hpos, hopen⟩ := h.open_le start (by rw [hseqs]; exact hstart)
      rw [hseqs] at hopen
      exact ⟨hpos, by omega⟩
  · intro start hstart
    have hbound := h.emitted_le start hstart
    show start + e.k ≤ (e.seqs ++ [vf.seq]).head?.getD (vf.seq + 1)
    cases hseqs : e.seqs with
    | nil =>
      rw [hseqs] at hbound
      change start + e.k ≤ e.lastSeq + 1 at hbound
      show start + e.k ≤ vf.seq
      omega
    | cons first rest =>
      rw [hseqs] at hbound
      exact hbound
  · intro start hstart
    rcases starts_accumulate hstart with hold | ⟨-, rfl⟩
    · exact h.spared start hold
    · exact hresumed.spared
  · intro seq hseq _ _
    show Resumed (if e.multipath then history else history.dropLast) seq
    rw [if_pos hmulti]
    exact hresumed.mono hseq.le
  · intro hsingle
    exact absurd (hmulti.symm.trans hsingle) Bool.noConfusion

/-- The record of the completed group is added to the records. -/
theorem flush (h : e.Announced history emitted) (hne : e.seqs ≠ [])
    (hfull : e.k ≤ e.seqs.length) :
    e.flush.1.Announced history (emitted ++ [recordStart e.flush.2]) ∧
      e.flush.1.starts (emitted ++ [recordStart e.flush.2]) = e.starts emitted := by
  obtain ⟨first, rest, hseqs⟩ := exists_cons_of_ne_nil hne
  obtain ⟨hpos, hopen⟩ := h.open_le first (by rw [hseqs]; rfl)
  have hlast := h.lastSeq_le
  have hlen : 0 < e.seqs.length := length_pos_iff.mpr hne
  have hstart : recordStart e.flush.2 = first := by
    have hhead : e.seqs.headD 0 = first := by
      rw [hseqs]
      rfl
    rw [← hhead]
    rw [maxUint32] at hlast
    exact record_start_build (by rw [hhead]; omega)
  have hstarts : e.flush.1.starts (emitted ++ [recordStart e.flush.2]) = e.starts emitted := by
    rw [hstart, starts, starts, hseqs]
    exact append_nil _
  refine ⟨⟨h.k_low, h.k_high, hlast, h.valid, h.generation_eq, h.control_eq, h.traffic, nofun, ?_,
    ?_, h.ready, h.suspended⟩, hstarts⟩
  · intro start hmem
    show start + e.k ≤ e.lastSeq + 1
    rw [hstart] at hmem
    rcases mem_append.mp hmem with hold | hnew
    · have hbound := h.emitted_le start hold
      rw [hseqs] at hbound
      change start + e.k ≤ first at hbound
      omega
    · rw [mem_singleton.mp hnew]
      omega
  · intro start hmem
    rw [hstarts] at hmem
    exact h.spared start hmem

/-- Feeding a frame with a new number. -/
theorem add (h : e.Announced history emitted) (hlt : e.lastSeq < vf.seq)
    (hle : vf.seq ≤ maxUint32) (hdata : vf.data ≠ []) :
    (e.add vf).1.Announced history (emitted ++ (e.add vf).2.toList.map recordStart) ∧
      (e.add vf).1.lastSeq = vf.seq ∧
      ∀ start ∈ (e.add vf).1.starts (emitted ++ (e.add vf).2.toList.map recordStart),
        start ∈ e.starts emitted ∨ start = vf.seq := by
  have hne : vf.seq ≠ 0 := by omega
  rcases e.idle_or_active vf.seq with hidle | ⟨hmulti, harmed⟩
  · rw [add_idle hdata hne hidle]
    simp only [Option.toList_none, map_nil, append_nil]
    exact ⟨h.note hlt hle, trivial, fun start hstart => .inl hstart⟩
  · have hfed := h.accumulate hlt hle hmulti harmed
    rw [add_active hdata hne hmulti harmed]
    dsimp only
    split
    · simp only [Option.toList_none, map_nil, append_nil]
      exact ⟨hfed, rfl, fun start hstart => (starts_accumulate hstart).imp_right And.right⟩
    · rename_i hfull
      have hnonempty : ({ e with lastSeq := vf.seq, armed := true }.accumulate vf).seqs ≠ [] :=
        append_ne_nil_of_right_ne_nil _ (cons_ne_nil _ _)
      obtain ⟨hflushed, hstarts⟩ := hfed.flush hnonempty (Nat.not_lt.mp hfull)
      refine ⟨hflushed, rfl, fun start hstart => ?_⟩
      simp only [Option.toList_some, map_singleton] at hstart
      rw [hstarts] at hstart
      exact (starts_accumulate hstart).imp_right And.right

/-- Feeding a batch of consecutive new numbers. -/
theorem add_all {batch : List VPNFrame} {first : Nat} (h : e.Announced history emitted)
    (hseq : batch.map (·.seq) = List.range' first batch.length) (hfirst : e.lastSeq < first)
    (hmax : first + batch.length ≤ maxUint32 + 1) (hdata : ∀ vf ∈ batch, vf.data ≠ []) :
    (e.addAll batch).1.Announced history (emitted ++ (e.addAll batch).2.map recordStart) ∧
      e.lastSeq + batch.length ≤ (e.addAll batch).1.lastSeq ∧
      (e.addAll batch).1.lastSeq < first + batch.length ∧
      (∀ vf ∈ batch, vf.seq ≤ (e.addAll batch).1.lastSeq) ∧
      ∀ start ∈ (e.addAll batch).1.starts (emitted ++ (e.addAll batch).2.map recordStart),
        start ∈ e.starts emitted ∨ e.lastSeq < start := by
  induction batch generalizing e emitted first with
  | nil =>
    simp only [addAll, map_nil, append_nil]
    exact ⟨h, le_rfl, hfirst, forall_mem_nil _, fun start hstart => .inl hstart⟩
  | cons vf rest ih =>
    rw [map_cons, length_cons, range'_succ, List.cons.injEq] at hseq
    obtain ⟨hvf, hrest⟩ := hseq
    rw [length_cons] at hmax
    obtain ⟨hadd, hlast, hstarts⟩ := h.add (by omega) (by omega) (hdata vf mem_cons_self)
    obtain ⟨hall, hlow, hhigh, hseqs, hstarts'⟩ := ih hadd hrest (by omega) (by omega)
      (fun x hx => hdata x (mem_cons_of_mem vf hx))
    have hrecords : emitted ++ (e.addAll (vf :: rest)).2.map recordStart =
        emitted ++ (e.add vf).2.toList.map recordStart ++
          ((e.add vf).1.addAll rest).2.map recordStart := by
      rw [addAll, map_append, append_assoc]
    rw [hrecords]
    refine ⟨hall, ?_, ?_, ?_, ?_⟩
    · show e.lastSeq + (rest.length + 1) ≤ ((e.add vf).1.addAll rest).1.lastSeq
      omega
    · show ((e.add vf).1.addAll rest).1.lastSeq < first + (rest.length + 1)
      omega
    · intro x hx
      show x.seq ≤ ((e.add vf).1.addAll rest).1.lastSeq
      rcases mem_cons.mp hx with heq | hmem
      · rw [heq]
        omega
      · exact hseqs x hmem
    · intro start hstart
      rcases hstarts' start hstart with hold | hnew
      · exact (hstarts start hold).imp_right (fun heq => by omega)
      · exact .inr (by omega)

/-- The boundary of a suspend comes after every record. -/
theorem suspend_boundary (h : e.Announced history emitted) :
    (e.suspendBoundary = 0 → e.lastSeq = maxUint32) ∧ e.suspendBoundary ≤ maxUint32 ∧
      ∀ start ∈ emitted, ∀ seq, 0 < e.suspendBoundary → e.suspendBoundary ≤ seq →
        fecGroupStart seq e.k ≠ start := by
  have hlast := h.lastSeq_le
  cases hseqs : e.seqs with
  | cons first rest =>
    have hboundary : e.suspendBoundary = first := by rw [suspendBoundary, hseqs]
    obtain ⟨hpos, hopen⟩ := h.open_le first (by rw [hseqs]; rfl)
    rw [hseqs, length_cons] at hopen
    rw [hboundary]
    refine ⟨fun hzero => by omega, by omega, ?_⟩
    intro start hstart seq _ hle heq
    have hbound := h.emitted_le start hstart
    rw [hseqs] at hbound
    change start + e.k ≤ first at hbound
    obtain ⟨-, -, hlt⟩ := group_start_spec h.k_low h.k_high (show 0 < seq by omega)
    omega
  | nil =>
    have hboundary : e.suspendBoundary = fecGroupStart e.firstSeq e.k := by
      rw [suspendBoundary, hseqs]
    rw [hboundary, firstSeq]
    by_cases hend : e.lastSeq = maxUint32
    · rw [if_neg (not_not.mpr hend)]
      refine ⟨fun _ => hend, Nat.zero_le _, ?_⟩
      intro start _ seq hpos
      exact absurd hpos (Nat.lt_irrefl 0)
    · rw [if_pos hend]
      obtain ⟨hgroup, hle, hlt⟩ := group_start_spec h.k_low h.k_high
        (show 0 < e.lastSeq + 1 from Nat.succ_pos _)
      refine ⟨fun hzero => ?_, by omega, ?_⟩
      · have := hgroup.1
        omega
      · intro start hstart seq _ hafter heq
        have hbound := h.emitted_le start hstart
        rw [hseqs] at hbound
        change start + e.k ≤ e.lastSeq + 1 at hbound
        have := group_start_mono h.k_low h.k_high hgroup hafter
        omega

/-- What a change of the number of paths announces: at most one control, and a resume only for
numbers not used yet. -/
structure Extends (e e' : FecEncoder) (history : List FecModeControl) (emitted : List Nat)
    (more : List FecModeControl) : Prop where
  announced : e'.Announced (history ++ more) emitted
  length_le : more.length ≤ 1
  resume_gt : ∀ c ∈ more, c.op = .resume → e.lastSeq < c.boundary
  lastSeq_eq : e'.lastSeq = e.lastSeq
  k_eq : e'.k = e.k
  seqs_length_le : e'.seqs.length ≤ e.seqs.length
  starts_subset : ∀ start ∈ e'.starts emitted, start ∈ e.starts emitted

/-- The encoder after a suspend, announced or not. -/
theorem suspend_fields (e : FecEncoder) :
    e.suspendPaths.k = e.k ∧ e.suspendPaths.seqs = [] ∧ e.suspendPaths.lastSeq = e.lastSeq ∧
      e.suspendPaths.multipath = false ∧ e.suspendPaths.armed = false ∧
      ((e.lastSeq ≠ 0 ∨ e.seqs ≠ []) ∧ e.suspendBoundary ≠ 0 →
        e.suspendPaths.controlGeneration = nextGeneration e.controlGeneration ∧
        e.suspendPaths.control =
          some ⟨nextGeneration e.controlGeneration, .suspend, e.suspendBoundary⟩) ∧
      (¬ ((e.lastSeq ≠ 0 ∨ e.seqs ≠ []) ∧ e.suspendBoundary ≠ 0) →
        e.suspendPaths.controlGeneration = e.controlGeneration ∧
        e.suspendPaths.control = e.control) := by
  unfold suspendPaths
  generalize hcleared : (if e.seqs ≠ [] ∨ e.activeLen ≠ 0 then e.reset else e) = cleared
  have hsame : cleared.k = e.k ∧ cleared.seqs = [] ∧ cleared.lastSeq = e.lastSeq ∧
      cleared.controlGeneration = e.controlGeneration ∧ cleared.control = e.control := by
    rw [← hcleared]
    split
    · exact ⟨rfl, rfl, rfl, rfl, rfl⟩
    · rename_i hnone
      exact ⟨rfl, not_not.mp (not_or.mp hnone).1, rfl, rfl, rfl⟩
  obtain ⟨hk, hseqs, hlast, hgen, hcontrol⟩ := hsame
  dsimp only
  by_cases htraffic : e.lastSeq ≠ 0 ∨ e.seqs ≠ []
  · rw [if_pos htraffic, publishModeControl]
    by_cases hzero : e.suspendBoundary = 0
    · rw [if_pos hzero]
      exact ⟨hk, hseqs, hlast, rfl, rfl, fun hpub => absurd hzero hpub.2, fun _ => ⟨hgen, hcontrol⟩⟩
    · rw [if_neg hzero]
      refine ⟨hk, hseqs, hlast, rfl, rfl, fun _ => ?_, fun hnot => absurd ⟨htraffic, hzero⟩ hnot⟩
      rw [← hgen]
      exact ⟨rfl, rfl⟩
  · rw [if_neg htraffic]
    exact ⟨hk, hseqs, hlast, rfl, rfl, fun hpub => absurd hpub.1 htraffic,
      fun _ => ⟨hgen, hcontrol⟩⟩

theorem next_generation_eq {n : Nat} (h : n ≤ maxUint32) : nextGeneration n = n + 1 := by
  have hmod : (1 + n) % uint64Size = n + 1 := by
    rw [uint64Size]
    rw [maxUint32] at h
    omega
  rw [nextGeneration, hmod, if_neg (Nat.succ_ne_zero n)]

/-- A group with a record is over. -/
theorem emitted_closed (h : e.Announced history emitted) {start : Nat} (hstart : start ∈ emitted) :
    start + e.k ≤ e.lastSeq + 1 := by
  have hbound := h.emitted_le start hstart
  cases hhead : e.seqs.head? with
  | none =>
    rw [hhead] at hbound
    exact hbound
  | some first =>
    rw [hhead] at hbound
    change start + e.k ≤ first at hbound
    obtain ⟨-, hopen⟩ := h.open_le first hhead
    omega

/-- An open group has a frame. -/
theorem traffic_of_group (h : e.Announced history emitted)
    (htraffic : e.lastSeq ≠ 0 ∨ e.seqs ≠ []) : e.lastSeq ≠ 0 := by
  rcases htraffic with hsent | hgroup
  · exact hsent
  · obtain ⟨first, rest, hcons⟩ := exists_cons_of_ne_nil hgroup
    obtain ⟨hfirst, hbound⟩ := h.open_le first (by rw [hcons]; rfl)
    rw [hcons, length_cons] at hbound
    omega

/-- A change to a single path. -/
theorem suspend_paths (h : e.Announced history emitted) (hmulti : e.multipath = true)
    (hcount : history.length ≤ e.lastSeq) :
    ∃ more, Extends e e.suspendPaths history emitted more := by
  obtain ⟨hk, hseqs, hlast, hsingle, harmed, hpublished, hsilent⟩ := suspend_fields e
  obtain ⟨hzero, hmax, hafter⟩ := h.suspend_boundary
  have hlastle := h.lastSeq_le
  have hgen : nextGeneration e.controlGeneration = history.length + 1 := by
    rw [h.generation_eq]
    exact next_generation_eq (by omega)
  have hemitted : ∀ start ∈ emitted, start + e.suspendPaths.k ≤
      e.suspendPaths.seqs.head?.getD (e.suspendPaths.lastSeq + 1) := by
    intro start hstart
    rw [hk, hseqs, hlast]
    exact h.emitted_closed hstart
  have hstarts : ∀ start ∈ e.suspendPaths.starts emitted, start ∈ emitted := by
    intro start hstart
    rw [starts, hseqs] at hstart
    simpa using hstart
  have hready : ∀ seq, e.lastSeq < seq → seq ≤ maxUint32 →
      (e.suspendPaths.armed = true ∨ (seq - 1) % e.suspendPaths.k = 0) → Resumed history seq := by
    intro seq hlt hle hcan
    rw [harmed, hk] at hcan
    have hresumed := h.ready seq hlt hle (hcan.imp_left (fun hf => absurd hf Bool.noConfusion))
    rwa [if_pos hmulti] at hresumed
  have hopen : ∀ start, e.suspendPaths.seqs.head? = some start →
      0 < start ∧ start + e.suspendPaths.seqs.length ≤ e.suspendPaths.lastSeq + 1 := by
    rw [hseqs]
    exact nofun
  by_cases hpub : (e.lastSeq ≠ 0 ∨ e.seqs ≠ []) ∧ e.suspendBoundary ≠ 0
  · obtain ⟨hgen', hcontrol⟩ := hpublished hpub
    rw [hgen] at hgen' hcontrol
    have hpos : 0 < e.suspendBoundary := Nat.pos_of_ne_zero hpub.2
    have hwas := h.traffic_of_group hpub.1
    refine ⟨[⟨history.length + 1, .suspend, e.suspendBoundary⟩],
      ⟨by rw [hk]; exact h.k_low, by rw [hk]; exact h.k_high, by rw [hlast]; exact hlastle,
        h.valid.snoc rfl hpos hmax nofun, by rw [hgen', length_append]; rfl,
        by rw [hcontrol, getLast?_concat], fun _ => by rw [hlast]; exact hwas, hopen, hemitted,
        fun start hstart => ?_, ?_, fun _ => .inr (.inl ⟨_, getLast?_concat, rfl⟩)⟩,
      le_rfl, ?_, hlast, hk, by rw [hseqs]; exact Nat.zero_le _,
      fun start hstart => mem_append_left _ (hstarts start hstart)⟩
    · rw [hk]
      have hmem := hstarts start hstart
      exact (h.spared start (mem_append_left _ hmem)).snoc
        (fun _ seq hle => hafter start hmem seq hpos hle)
    · rw [hlast, hsingle]
      intro seq hlt hle hcan
      rw [if_neg Bool.false_ne_true, dropLast_concat]
      exact hready seq hlt hle hcan
    · intro c hc hop
      rw [mem_singleton.mp hc] at hop
      cases hop
  · obtain ⟨hgen', hcontrol⟩ := hsilent hpub
    -- nothing to announce: no frame was sent yet, or no number is left
    have hquiet : history = [] ∨ e.lastSeq = maxUint32 := by
      by_cases htraffic : e.lastSeq ≠ 0 ∨ e.seqs ≠ []
      · refine .inr (hzero ?_)
        by_contra hne
        exact hpub ⟨htraffic, hne⟩
      · refine .inl ?_
        by_contra hne
        exact htraffic (.inl (h.traffic hne))
    refine ⟨[], ?_, Nat.zero_le _, nofun, hlast, hk, by rw [hseqs]; exact Nat.zero_le _,
      fun start hstart => mem_append_left _ (hstarts start hstart)⟩
    rw [append_nil]
    refine ⟨by rw [hk]; exact h.k_low, by rw [hk]; exact h.k_high, by rw [hlast]; exact hlastle,
      h.valid, hgen'.trans h.generation_eq, hcontrol.trans h.control_eq,
      by rw [hlast]; exact h.traffic, hopen, hemitted, fun start hstart => ?_, ?_, fun _ => ?_⟩
    · rw [hk]
      exact h.spared start (mem_append_left _ (hstarts start hstart))
    · rw [hlast, hsingle]
      intro seq hlt hle _
      rcases hquiet with hnone | hend
      · rw [hnone]
        exact nofun
      · omega
    · rw [hlast]
      exact hquiet.imp_right .inr

/-- A resumed encoder is ready for every group boundary that is left. -/
theorem resume_silent (h : e.Announced history emitted)
    (hready : ∀ seq, e.lastSeq < seq → seq ≤ maxUint32 → (seq - 1) % e.k = 0 →
      Resumed history seq) :
    { e with multipath := true, armed := false }.Announced history emitted :=
  { h with
    ready := fun seq hlt hle hcan =>
      hready seq hlt hle (hcan.resolve_left Bool.false_ne_true)
    suspended := fun hsingle => absurd hsingle Bool.noConfusion }

/-- A change back to several paths. -/
theorem resume_paths (h : e.Announced history emitted) (hsingle : e.multipath = false)
    (hcount : history.length ≤ e.lastSeq) :
    ∃ more, Extends e e.resumePaths history emitted more := by
  have hlastle := h.lastSeq_le
  have hsilent : ∀ resumed, resumed = { e with multipath := true, armed := false } →
      (∀ seq, e.lastSeq < seq → seq ≤ maxUint32 → (seq - 1) % e.k = 0 → Resumed history seq) →
      ∃ more, Extends e resumed history emitted more := by
    rintro resumed rfl hready
    refine ⟨[], ?_, Nat.zero_le _, nofun, rfl, rfl, le_rfl, fun start hstart => hstart⟩
    rw [append_nil]
    exact h.resume_silent hready
  unfold resumePaths
  dsimp only
  by_cases hgen : e.controlGeneration = 0
  · -- nothing was suspended
    rw [if_pos hgen]
    have hnone : history = [] := length_eq_zero_iff.mp (h.generation_eq.symm.trans hgen)
    refine hsilent _ rfl ?_
    rw [hnone]
    exact fun _ _ _ _ => nofun
  · rw [if_neg hgen]
    by_cases hnext : fecNextGroupStart e.firstSeq e.k ≠ 0
    · -- the resume answers the suspend in force
      rw [if_pos hnext]
      have hend : e.lastSeq ≠ maxUint32 := by
        intro heq
        rw [firstSeq, if_neg (not_not.mpr heq)] at hnext
        exact hnext rfl
      have hfirst : e.firstSeq = e.lastSeq + 1 := by rw [firstSeq, if_pos hend]
      rw [hfirst] at hnext ⊢
      obtain ⟨-, hge, -, hmax⟩ := next_group_start_spec h.k_low h.k_high (Nat.succ_pos _)
        (by omega) hnext
      have hne : history ≠ [] := fun hnil => hgen (by rw [h.generation_eq, hnil]; rfl)
      obtain ⟨s, hs, hop⟩ : ∃ c, history.getLast? = some c ∧ c.op = .suspend := by
        rcases h.suspended hsingle with hnil | hlast | heq
        · exact absurd hnil hne
        · exact hlast
        · exact absurd heq hend
      obtain ⟨front, hfront⟩ : ∃ front, history = front ++ [s] :=
        getLast?_eq_some_iff.mp hs
      have hpublish : { e with multipath := true, armed := false }.publishModeControl .resume
          (fecNextGroupStart (e.lastSeq + 1) e.k) =
          { e with
            multipath := true
            armed := false
            controlGeneration := history.length + 1
            control := some ⟨history.length + 1, .resume,
              fecNextGroupStart (e.lastSeq + 1) e.k⟩ } := by
        rw [publishModeControl, if_neg hnext, h.generation_eq, next_generation_eq (by omega)]
      rw [hpublish]
      refine ⟨[⟨history.length + 1, .resume, fecNextGroupStart (e.lastSeq + 1) e.k⟩],
        ⟨h.k_low, h.k_high, hlastle,
          h.valid.snoc rfl (Nat.pos_of_ne_zero hnext) hmax (fun _ => ⟨s, hs, hop⟩),
          by rw [length_append]; rfl, by rw [getLast?_concat],
          fun _ => h.traffic hne, h.open_le, h.emitted_le,
          fun start hstart => (h.spared start hstart).snoc nofun, ?_,
          fun hf => absurd hf Bool.noConfusion⟩,
        le_rfl, ?_, rfl, rfl, le_rfl, fun start hstart => hstart⟩
      · intro seq hlt hle hcan
        have hmod : (seq - 1) % e.k = 0 := hcan.resolve_left Bool.false_ne_true
        have hresumed := h.ready seq hlt hle (.inr hmod)
        rw [hsingle, if_neg Bool.false_ne_true, hfront, dropLast_concat] at hresumed
        obtain ⟨-, hmin⟩ := next_group_start_min h.k_low h.k_high (Nat.succ_pos e.lastSeq)
          ⟨by omega, hmod⟩ hlt hle
        show Resumed (history ++ [_]) seq
        rw [hfront]
        exact hresumed.answer rfl hmin
      · intro c hc _
        rw [mem_singleton.mp hc]
        exact hge
    · -- no group boundary is left
      rw [if_neg hnext]
      refine hsilent _ rfl ?_
      intro seq hlt hle hmod
      have hfirst : e.firstSeq = e.lastSeq + 1 := by rw [firstSeq, if_pos (by omega)]
      rw [hfirst] at hnext
      exact absurd (next_group_start_min h.k_low h.k_high (Nat.succ_pos _) ⟨by omega, hmod⟩ hlt
        hle).1 hnext

/-- A change of the number of paths. -/
theorem set_physical_path_count (h : e.Announced history emitted)
    (hcount : history.length ≤ e.lastSeq) (paths : Nat) :
    ∃ more, Extends e (e.setPhysicalPathCount paths) history emitted more ∧
      (e.multipath = true → 2 ≤ paths → more = []) := by
  rcases e.set_physical_path_count_cases paths with
    hsame | ⟨hmulti, hfew, hset⟩ | ⟨hsingle, -, hset⟩
  · rw [hsame]
    refine ⟨[], ⟨?_, Nat.zero_le _, nofun, rfl, rfl, le_rfl, fun start hstart => hstart⟩,
      fun _ _ => rfl⟩
    rw [append_nil]
    exact h
  · rw [hset]
    obtain ⟨more, hextends⟩ := h.suspend_paths hmulti hcount
    exact ⟨more, hextends, fun _ hmany => by omega⟩
  · rw [hset]
    obtain ⟨more, hextends⟩ := h.resume_paths hsingle hcount
    exact ⟨more, hextends, fun hmulti => absurd (hsingle.symm.trans hmulti) Bool.false_ne_true⟩

end Announced

end FecEncoder

end TlsVpn.Fec
