import TlsVpn.Port.Ledger

/-!
# Conservation of frames

Every step of the port keeps the books of the ledger: a frame moves from the input queue into the
hands of the loop, and from there to one backend or to the drop counter.

`Booked.step` is the step lemma, and `Books.conserved` reads the fate of every frame off the books.
-/

namespace TlsVpn.Port

open Lib Crypto Fec List

/-! ## Lists of taken frames -/

section Taken

variable {fate : Fate} {frames : List VPNFrame}

theorem numbered_of (fate : Fate) (frames : List VPNFrame) :
    (frames.map (Taken.of fate)).filterMap Taken.numbered = frames := by
  induction frames with
  | nil => rfl
  | cons vf rest ih =>
    have hhead : (Taken.of fate vf).numbered = some vf := rfl
    rw [map_cons, filterMap_cons_some hhead, ih]

theorem numbered_held (phase : RunPhase) : phase.held.filterMap Taken.numbered = [] := by
  cases phase <;> rfl

variable {l : List Taken}

theorem numbered_of_none (h : ∀ t ∈ l, t.seq = none) : l.filterMap Taken.numbered = [] := by
  rw [filterMap_eq_nil_iff]
  intro t ht
  rw [Taken.numbered, h t ht, Option.map_none]

/-- All entries of a list have one fate. -/
def AllFated (fate : Fate) (l : List Taken) : Prop := ∀ t ∈ l, t.fate = fate

theorem AllFated.filter_self (h : AllFated fate l) : (l.filter fun t => t.fate = fate) = l :=
  filter_eq_self.mpr fun t ht => decide_eq_true (h t ht)

theorem AllFated.filter_other {other : Fate} (h : AllFated fate l) (hne : fate ≠ other) :
    (l.filter fun t => t.fate = other) = [] := by
  rw [filter_eq_nil_iff]
  intro t ht
  rw [h t ht, decide_eq_true_eq]
  exact hne

theorem all_fated_of (fate : Fate) (frames : List VPNFrame) :
    AllFated fate (frames.map (Taken.of fate)) := by
  intro t ht
  obtain ⟨vf, -, rfl⟩ := mem_map.mp ht
  rfl

theorem AsyncPort.in_hand_pending (p : AsyncPort) : AllFated .pending p.inHand := by
  intro t ht
  rcases mem_append.mp ht with hheld | hbatch
  · cases hphase : p.phase with
    | waiting frame =>
      rw [hphase] at hheld
      rw [mem_singleton.mp hheld]
    | idle | filling =>
      rw [hphase] at hheld
      cases hheld
  · exact all_fated_of .pending _ t hbatch

theorem AsyncPort.in_hand_numbered (p : AsyncPort) :
    p.inHand.filterMap Taken.numbered = p.batch := by
  rw [inHand, filterMap_append, numbered_held, numbered_of, nil_append]

end Taken

namespace Ledger

variable {l l' : Ledger} {settled refused : List Taken}

/-- The books give every frame its fate. -/
theorem Books.conserved (h : l.Books settled refused) :
    l.Conserved (settled ++ l.port.inHand ++ refused) := by
  have hhand := l.port.in_hand_pending
  have hrefused : AllFated .released refused := fun t ht => (h.refused_eq t ht).2
  have hsettled : (settled.filter fun t => t.fate = .pending) = [] := by
    rw [filter_eq_nil_iff]
    intro t ht
    rw [decide_eq_true_eq]
    exact h.settled_ne t ht
  refine ⟨h.frames_eq, ?_, fun b => ?_, ?_, ?_, ?_⟩
  · rw [filterMap_append, filterMap_append, l.port.in_hand_numbered,
      numbered_of_none (fun t ht => (h.refused_eq t ht).1), append_nil]
    exact h.numbered_eq
  · rw [filter_append, filter_append, hhand.filter_other (by simp),
      hrefused.filter_other (by simp), append_nil, append_nil]
    exact h.queued_eq b
  · intro t ht b hfate
    rcases mem_append.mp ht with hfront | hlast
    · rcases mem_append.mp hfront with hdone | hpending
      · exact h.queued_numbered t hdone b hfate
      · rw [hhand t hpending] at hfate
        cases hfate
    · rw [hrefused t hlast] at hfate
      cases hfate
  · rw [filter_append, filter_append, hsettled, hhand.filter_self,
      hrefused.filter_other (by simp), append_nil, nil_append]
  · rw [filter_append, filter_append, hhand.filter_other (by simp), hrefused.filter_self,
      append_nil, length_append, ← Nat.add_assoc]
    exact h.dropped_eq

/-! ## Steps -/

variable {port : AsyncPort}

/-- A step of a writer or a registration. -/
theorem Books.quiet (h : l.Books settled refused) (hch : port.ch = l.port.ch)
    (hphase : port.phase = l.port.phase) (hbatch : port.batch = l.port.batch)
    (hassigned : port.assigned = l.port.assigned) (htx : port.txSeq = l.port.txSeq)
    (hdropped : port.dropped = l.port.dropped) (hstream : ∀ b, port.stream b = l.port.stream b) :
    { l with port }.Books settled refused := by
  have hhand : port.inHand = l.port.inHand := by rw [AsyncPort.inHand, hphase, hbatch]; rfl
  have hinput : port.input = l.port.input := by rw [AsyncPort.input, hch]; rfl
  refine ⟨?_, ?_, fun b => ?_, h.settled_ne, h.queued_numbered, h.refused_eq, ?_, ?_, fun b => ?_⟩
  · show l.accepted.filter _ = (settled ++ port.inHand ++ refused).map _ ++ port.input
    rw [hhand, hinput]
    exact h.frames_eq
  · show _ ++ port.batch = port.assigned
    rw [hbatch, hassigned]
    exact h.numbered_eq
  · rw [← h.queued_eq, data, data, since, since, hstream]
  · show _ → port.txSeq = _
    rw [htx]
    exact h.refused_last
  · show port.dropped = _
    rw [hdropped]
    exact h.dropped_eq
  · rw [hstream]
    exact h.base_le b

theorem Books.write (h : l.Books settled refused) (frame : Bytes)
    (hstep : l.step (.write frame) = some l') : l'.Books settled refused := by
  simp only [Ledger.step, note, AsyncPort.step, Option.map_some, Option.some.injEq,
    AsyncPort.writeOwnedFrame] at hstep
  subst hstep
  by_cases hroom : l.port.ch.length < inputCapacity
  · rw [if_pos hroom, if_pos hroom]
    refine ⟨?_, h.numbered_eq, h.queued_eq, h.settled_ne, h.queued_numbered, h.refused_eq,
      h.refused_last, h.dropped_eq, h.base_le⟩
    show (l.accepted ++ [frame]).filter _ = (settled ++ l.port.inHand ++ refused).map _ ++
      (l.port.ch ++ [frame]).filter _
    rw [filter_append, filter_append, h.frames_eq, append_assoc]
    rfl
  · rw [if_neg hroom, if_neg hroom]
    refine ⟨h.frames_eq, h.numbered_eq, h.queued_eq, h.settled_ne, h.queued_numbered, h.refused_eq,
      h.refused_last, ?_, h.base_le⟩
    show l.port.dropped + 1 = l.droppedBefore + (l.overflow + 1) + l.lostRecords + _ + _
    have hdropped := h.dropped_eq
    omega

variable {p : AsyncPort} {rest : List Bytes}

theorem input_skip_empty (hch : p.ch = [] :: rest) : { p with ch := rest }.input = p.input := by
  unfold AsyncPort.input
  rw [hch]
  rfl

variable {frame : Bytes}

theorem input_take (hch : p.ch = frame :: rest) (hne : frame ≠ []) :
    p.input = frame :: { p with ch := rest }.input := by
  unfold AsyncPort.input
  rw [hch]
  exact filter_cons_of_pos (decide_eq_true hne)

/-- An empty frame leaves the input queue without a trace. -/
theorem Books.skip_empty (h : l.Books settled refused) (hch : l.port.ch = [] :: rest) :
    { l with port := { l.port with ch := rest } }.Books settled refused := by
  refine ⟨?_, h.numbered_eq, h.queued_eq, h.settled_ne, h.queued_numbered, h.refused_eq,
    h.refused_last, h.dropped_eq, h.base_le⟩
  show l.accepted.filter _ = (settled ++ l.port.inHand ++ refused).map _ ++
    { l.port with ch := rest }.input
  rw [input_skip_empty hch]
  exact h.frames_eq

/-- Frames that are done with, in front of frames that were refused, all join the settled ones. -/
theorem Books.settle (h : l.Books settled refused) (port : AsyncPort) (done : List Taken)
    (hfate : ∀ t ∈ done, t.fate ≠ .pending)
    (hqueued : ∀ t ∈ done, ∀ b, t.fate = .queued b → t.seq ≠ none)
    (hframes : done.map (·.frame) = l.port.inHand.map (·.frame))
    (hnumbered : done.filterMap Taken.numbered = l.port.batch)
    (hch : port.ch = l.port.ch) (hhand : port.inHand = []) (hbatch : port.batch = [])
    (hassigned : port.assigned = l.port.assigned) (lostRecords : Nat)
    (hdata : ∀ b, { l with port, lostRecords }.data b =
      l.data b ++ (done.filter fun t => t.fate = .queued b).filterMap Taken.numbered)
    (hdropped : port.dropped + l.lostRecords =
      l.port.dropped + lostRecords + (done.filter fun t => t.fate = .released).length)
    (hbase : ∀ b, l.base b ≤ (port.stream b).length) :
    { l with port, lostRecords }.Books (settled ++ done ++ refused) [] := by
  have hrefused : AllFated .released refused := fun t ht => (h.refused_eq t ht).2
  have hinput : port.input = l.port.input := by rw [AsyncPort.input, hch]; rfl
  refine ⟨?_, ?_, fun b => ?_, ?_, ?_, nofun, fun hne => absurd rfl hne, ?_, hbase⟩
  · show l.accepted.filter _ = (settled ++ done ++ refused ++ port.inHand ++ []).map _ ++ port.input
    rw [hhand, hinput, append_nil, append_nil, h.frames_eq]
    simp only [map_append, hframes]
  · show _ ++ port.batch = port.assigned
    rw [hbatch, hassigned, append_nil, filterMap_append, filterMap_append, hnumbered,
      numbered_of_none (fun t ht => (h.refused_eq t ht).1), append_nil]
    exact h.numbered_eq
  · rw [hdata, h.queued_eq, filter_append, filter_append,
      hrefused.filter_other (by simp), append_nil, filterMap_append]
  · intro t ht
    rcases mem_append.mp ht with hfront | hlast
    · rcases mem_append.mp hfront with hold | hnew
      · exact h.settled_ne t hold
      · exact hfate t hnew
    · rw [hrefused t hlast]
      simp
  · intro t ht b hb
    rcases mem_append.mp ht with hfront | hlast
    · rcases mem_append.mp hfront with hold | hnew
      · exact h.queued_numbered t hold b hb
      · exact hqueued t hnew b hb
    · rw [hrefused t hlast] at hb
      cases hb
  · show port.dropped = l.droppedBefore + l.overflow + lostRecords + _ + 0
    have hold := h.dropped_eq
    rw [filter_append, filter_append, hrefused.filter_self, length_append,
      length_append]
    omega

theorem data_of_stream (lostRecords : Nat) (hstream : ∀ b, port.stream b = l.port.stream b)
    (b : Nat) : { l with port, lostRecords }.data b = l.data b := by
  rw [data, data, since, since, hstream]

/-- The frame that waited for a slot is released. -/
theorem Books.release (h : l.Books settled refused) (hnumbered : l.port.Numbered)
    (hphase : l.port.phase = .waiting frame) (hch : port.ch = l.port.ch)
    (hidle : port.phase = .idle) (hbatch : port.batch = l.port.batch)
    (hassigned : port.assigned = l.port.assigned) (hdropped : port.dropped = l.port.dropped + 1)
    (hstream : ∀ b, port.stream b = l.port.stream b) :
    { l with port }.Books (settled ++ [Taken.unnumbered frame] ++ refused) [] := by
  have hnone : l.port.batch = [] := hnumbered.batch_eq (by rw [hphase]; simp)
  have hhand : port.inHand = [] := by
    rw [AsyncPort.inHand, hidle, hbatch, hnone]
    rfl
  refine h.settle port [Taken.unnumbered frame] ?_ ?_ ?_ hnone.symm hch hhand
    (hbatch.trans hnone) hassigned l.lostRecords
    (fun b => ?_) ?_ (fun b => by rw [hstream]; exact h.base_le b)
  · intro t ht
    rw [mem_singleton.mp ht]
    simp [Taken.unnumbered]
  · intro t ht b hb
    rw [mem_singleton.mp ht] at hb
    cases hb
  · rw [AsyncPort.inHand, hphase, hnone]
    rfl
  · exact (data_of_stream l.lostRecords hstream b).trans (append_nil _).symm
  · rw [hdropped]
    show l.port.dropped + 1 + l.lostRecords = l.port.dropped + l.lostRecords + 1
    omega

/-- A frame gets the next number and joins the batch. -/
theorem Books.number (h : l.Books settled refused) (hlast : l.port.txSeq ≠ maxUint32)
    {vf : VPNFrame} (hbatch : port.batch = l.port.batch ++ [vf])
    (hassigned : port.assigned = l.port.assigned ++ [vf]) (hdropped : port.dropped = l.port.dropped)
    (hstream : ∀ b, port.stream b = l.port.stream b)
    (hframes : l.port.inHand.map (·.frame) ++ l.port.input =
      port.inHand.map (·.frame) ++ port.input) : { l with port }.Books settled [] := by
  have hnone : refused = [] := by
    by_contra hne
    exact hlast (h.refused_last hne)
  subst hnone
  refine ⟨?_, ?_, fun b => ?_, h.settled_ne, h.queued_numbered, h.refused_eq,
    fun hne => absurd rfl hne, ?_, fun b => by rw [hstream]; exact h.base_le b⟩
  · show l.accepted.filter _ = (settled ++ port.inHand ++ []).map _ ++ port.input
    rw [h.frames_eq, append_nil, append_nil, map_append, map_append,
      append_assoc, append_assoc, hframes]
  · show _ ++ port.batch = port.assigned
    rw [hbatch, hassigned, ← h.numbered_eq, append_assoc]
  · exact (data_of_stream l.lostRecords hstream b).trans (h.queued_eq b)
  · show port.dropped = _
    rw [hdropped]
    exact h.dropped_eq

/-- The next frame is taken into the batch after the last number has been given out. -/
theorem Books.refuse (h : l.Books settled refused) (hlast : l.port.txSeq = maxUint32)
    (hch : l.port.ch = frame :: rest) (hne : frame ≠ []) (hrest : port.ch = rest)
    (hhand : port.inHand = l.port.inHand) (hbatch : port.batch = l.port.batch)
    (hassigned : port.assigned = l.port.assigned) (htx : port.txSeq = l.port.txSeq)
    (hdropped : port.dropped = l.port.dropped + 1)
    (hstream : ∀ b, port.stream b = l.port.stream b) :
    { l with port }.Books settled (refused ++ [Taken.unnumbered frame]) := by
  have hinput : l.port.input = frame :: port.input := by
    rw [input_take hch hne, AsyncPort.input, AsyncPort.input, hrest]
  refine ⟨?_, ?_, fun b => ?_, h.settled_ne, h.queued_numbered, ?_, fun _ => htx.trans hlast, ?_,
    fun b => by rw [hstream]; exact h.base_le b⟩
  · show l.accepted.filter _ = (settled ++ port.inHand ++ (refused ++ [_])).map _ ++ port.input
    rw [h.frames_eq, hhand, hinput]
    simp only [map_append, append_assoc, map_cons, map_nil,
      singleton_append, Taken.unnumbered]
  · show _ ++ port.batch = port.assigned
    rw [hbatch, hassigned]
    exact h.numbered_eq
  · exact (data_of_stream l.lostRecords hstream b).trans (h.queued_eq b)
  · intro t ht
    rcases mem_append.mp ht with hold | hnew
    · exact h.refused_eq t hold
    · rw [mem_singleton.mp hnew]
      exact ⟨rfl, rfl⟩
  · show port.dropped = _ + (refused ++ [_]).length
    rw [hdropped, length_append, h.dropped_eq]
    rfl

theorem number_exhausted (hlast : p.txSeq = maxUint32) (frame : Bytes) :
    p.number frame = { p with exhausted := true }.dropN 1 := by
  unfold AsyncPort.number AsyncPort.nextSeq
  rw [if_pos hlast]

theorem number_next (hlast : p.txSeq ≠ maxUint32) (frame : Bytes) :
    p.number frame =
      { p with
        txSeq := p.txSeq + 1
        batch := p.batch ++ [⟨p.txSeq + 1, frame⟩]
        assigned := p.assigned ++ [⟨p.txSeq + 1, frame⟩]
        phase := .filling } := by
  unfold AsyncPort.number AsyncPort.nextSeq
  rw [if_neg hlast]

/-- Some frames are settled and some refused. -/
def Booked (l : Ledger) : Prop := ∃ settled refused, l.Books settled refused

theorem Books.take_frame (h : l.Books settled refused) (hnumbered : l.port.Numbered)
    (hstep : l.port.takeFrame = some port) : { l with port }.Booked := by
  unfold AsyncPort.takeFrame at hstep
  split at hstep
  · rename_i frame rest hphase hch
    have hbatch : l.port.batch = [] := hnumbered.batch_eq (by rw [hphase]; simp)
    have hhand : l.port.inHand = [] := by
      rw [AsyncPort.inHand, hphase, hbatch]
      rfl
    split at hstep
    · rename_i hempty
      cases hstep
      rw [hempty] at hch
      exact ⟨settled, refused, h.skip_empty hch⟩
    · rename_i hne
      cases hstep
      have hidle := h.settle l.port [] nofun nofun (by rw [hhand]) hbatch.symm rfl hhand hbatch rfl
        l.lostRecords (fun b => (append_nil _).symm) rfl h.base_le
      refine ⟨_, [], ?_, hidle.numbered_eq, hidle.queued_eq, hidle.settled_ne,
        hidle.queued_numbered, hidle.refused_eq, hidle.refused_last, hidle.dropped_eq,
        hidle.base_le⟩
      have hframes := hidle.frames_eq
      simp only [hhand, input_take hch hne, append_nil] at hframes
      show l.accepted.filter _ = (_ ++ (_ ++ l.port.batch.map _) ++ []).map _ ++ _
      rw [hbatch, hframes]
      simp only [RunPhase.held, map_append, append_assoc, map_cons, map_nil,
        append_nil, singleton_append]
      rfl
  · cases hstep

theorem Books.got_slot (h : l.Books settled refused) (hnumbered : l.port.Numbered)
    (hstep : l.port.gotSlot = some port) : { l with port }.Booked := by
  unfold AsyncPort.gotSlot at hstep
  split at hstep
  · rename_i frame hphase
    have hbatch : l.port.batch = [] := hnumbered.batch_eq (by rw [hphase]; simp)
    split at hstep
    · cases hstep
    · cases hstep
      exact ⟨_, _, h.release hnumbered hphase rfl rfl rfl rfl rfl fun _ => rfl⟩
    · by_cases hlast : l.port.txSeq = maxUint32
      · rw [number_exhausted (p := { l.port with phase := .idle }) hlast] at hstep
        cases hstep
        exact ⟨_, _, h.release hnumbered hphase rfl rfl rfl rfl rfl fun _ => rfl⟩
      · rw [number_next (p := { l.port with phase := .idle }) hlast] at hstep
        cases hstep
        refine ⟨_, _, h.number hlast rfl rfl rfl (fun _ => rfl) ?_⟩
        simp only [AsyncPort.inHand, hphase, hbatch, RunPhase.held, map_nil, append_nil,
          nil_append]
        rfl
  · cases hstep

theorem Books.fill (h : l.Books settled refused) (hstep : l.port.fill = some port) :
    { l with port }.Booked := by
  unfold AsyncPort.fill at hstep
  split at hstep
  · rename_i frame rest hphase hch
    split at hstep
    · split at hstep
      · rename_i hempty
        cases hstep
        rw [hempty] at hch
        exact ⟨settled, refused, h.skip_empty hch⟩
      · rename_i hne
        by_cases hlast : l.port.txSeq = maxUint32
        · rw [number_exhausted (p := { l.port with ch := rest }) hlast] at hstep
          cases hstep
          exact ⟨_, _, h.refuse hlast hch hne rfl rfl rfl rfl rfl rfl fun _ => rfl⟩
        · rw [number_next (p := { l.port with ch := rest }) hlast] at hstep
          cases hstep
          refine ⟨_, _, h.number hlast rfl rfl rfl (fun _ => rfl) ?_⟩
          rw [input_take hch hne]
          simp only [AsyncPort.inHand, hphase, RunPhase.held, nil_append, map_append,
            append_assoc, map_cons, map_nil, singleton_append]
          rfl
    · cases hstep
  · cases hstep

end Ledger

/-! ## Dispatch -/

namespace AsyncPort

variable {p p' : AsyncPort}

theorem send_parities_dropped (p : AsyncPort) (records : List (Bytes × List Nat × Nat)) :
    p.dropped ≤ (p.sendParities records).dropped := by
  induction records generalizing p with
  | nil => exact le_rfl
  | cons entry rest ih =>
    obtain ⟨par, drains, target⟩ := entry
    unfold sendParities
    refine le_trans ?_ (ih _)
    split
    · exact le_rfl
    · unfold sendOwnedFrameTo
      dsimp only
      split
      · exact (p.drain_all_dropped drains).ge
      · refine le_trans (p.drain_all_dropped drains).ge ?_
        exact Nat.le_add_right _ _

theorem Numbered.batch_seq_ne (h : p.Numbered) : ∀ vf ∈ p.batch, vf.seq ≠ 0 := by
  intro vf hvf
  obtain ⟨fed, hassigned⟩ := h.suffix
  have hseq : vf.seq ∈ p.batch.map (·.seq) := mem_map_of_mem hvf
  rw [h.batch_seqs hassigned, mem_range'_1] at hseq
  omega

/-- The data of a batch behind its control is the batch. -/
theorem fenced_batch_data (p : AsyncPort) (b : Nat) {batch : List VPNFrame}
    (hseq : ∀ vf ∈ batch, vf.seq ≠ 0) :
    (p.fencedBatch b batch).filter (fun vf => vf.seq ≠ 0) = batch := by
  have hself : batch.filter (fun vf => vf.seq ≠ 0) = batch :=
    filter_eq_self.mpr fun vf hvf => decide_eq_true (hseq vf hvf)
  unfold fencedBatch
  split
  · exact hself
  · rw [filter_cons_of_neg (by simp)]
    exact hself

theorem records_data (records : List Bytes) :
    (records.map fun par => [(⟨0, par⟩ : VPNFrame)]).flatten.filter (fun vf => vf.seq ≠ 0) =
      [] := by
  rw [filter_eq_nil_iff]
  intro vf hvf
  obtain ⟨batch, hbatch, hmem⟩ := mem_flatten.mp hvf
  obtain ⟨par, -, rfl⟩ := mem_map.mp hbatch
  rw [mem_singleton.mp hmem]
  simp

end AsyncPort

namespace Ledger

variable {l l' : Ledger} {settled refused : List Taken}

variable {port : AsyncPort}

/-- A stream that grows since the reset. -/
theorem since_append {b : Nat} {added : List (List VPNFrame)} (lostRecords : Nat)
    (hbase : l.base b ≤ (l.port.stream b).length)
    (hstream : port.stream b = l.port.stream b ++ added) :
    { l with port, lostRecords }.since b = l.since b ++ added := by
  rw [since, since, hstream]
  exact drop_append_of_le_length hbase

variable {choice : Choice}

/-- The frames of a dispatched batch are queued on one backend or released. -/
theorem Books.dispatched (h : l.Books settled refused) (hnumbered : l.port.Numbered)
    (hd : l.port.Dispatched port choice) (hkept : port.ch = l.port.ch ∧ port.phase = .idle)
    (hle : (l.port.sentBatch choice).dropped ≤ port.dropped) (hphase : l.port.phase = .filling) :
    { l with
      port
      lostRecords := l.lostRecords +
        (port.dropped - (l.port.sentBatch choice).dropped) }.Booked := by
  obtain ⟨target, -, records, -, hstream, -, hdropped⟩ := hd.sent
  have hseq := hnumbered.batch_seq_ne
  have hhand : l.port.inHand = l.port.batch.map (Taken.of .pending) := by
    rw [AsyncPort.inHand, hphase]
    rfl
  have hempty : port.inHand = [] := by
    rw [AsyncPort.inHand, hkept.2, hd.batch_eq]
    rfl
  have hdata : ∀ b lost, { l with port, lostRecords := lost }.data b =
      l.data b ++ if target = some b then l.port.batch else [] := by
    intro b lost
    rw [data, since_append lost (h.base_le b) (hstream b), flatten_append, flatten_append,
      filter_append, filter_append, AsyncPort.records_data, append_nil]
    congr 1
    split
    · rw [flatten_singleton]
      exact l.port.sending.fenced_batch_data b hseq
    · rfl
  -- the fate of the whole batch
  obtain ⟨fate, hfate, hqueued, hreleased⟩ : ∃ fate : Fate, fate ≠ .pending ∧
      (∀ b, (if target = some b then l.port.batch else []) =
        ((l.port.batch.map (Taken.of fate)).filter
          fun t => t.fate = .queued b).filterMap Taken.numbered) ∧
      (if target = none then l.port.batch.length else 0) =
        ((l.port.batch.map (Taken.of fate)).filter fun t => t.fate = .released).length := by
    cases htarget : target with
    | none =>
      refine ⟨.released, by simp, fun b => ?_, ?_⟩
      · rw [(all_fated_of _ _).filter_other (by simp)]
        simp
      · rw [(all_fated_of _ _).filter_self, length_map, if_pos rfl]
    | some b =>
      refine ⟨.queued b, by simp, fun x => ?_, ?_⟩
      · by_cases heq : b = x
        · rw [heq, (all_fated_of _ _).filter_self, numbered_of, if_pos rfl]
        · rw [(all_fated_of _ _).filter_other (by simpa using heq),
            if_neg (fun hs => heq (Option.some.inj hs))]
          rfl
      · rw [(all_fated_of _ _).filter_other (by simp)]
        simp
  refine ⟨_, _, h.settle port (l.port.batch.map (Taken.of fate)) ?_ ?_ ?_ ?_ hkept.1 hempty
    hd.batch_eq hd.assigned_eq _ (fun b => ?_) ?_ (fun b => ?_)⟩
  · intro t ht
    rw [all_fated_of fate _ t ht]
    exact hfate
  · intro t ht b _
    obtain ⟨vf, -, rfl⟩ := mem_map.mp ht
    exact Option.some_ne_none _
  · rw [hhand, map_map, map_map]
    rfl
  · exact numbered_of fate _
  · rw [hdata, hqueued]
  · rw [← hreleased]
    omega
  · rw [hstream, length_append]
    exact Nat.le_add_right_of_le (h.base_le b)

/-- Without a backend the frames of the batch are released. -/
theorem Books.skipped (h : l.Books settled refused) (hphase : l.port.phase = .filling)
    (hnone : l.port.backends = []) :
    { l with port := l.port.dispatchOwnedBatch choice }.Booked := by
  have hport : l.port.dispatchOwnedBatch choice =
      { l.port with batch := [], phase := .idle }.dropN l.port.batch.length := by
    unfold AsyncPort.dispatchOwnedBatch
    rw [if_pos hnone]
  have hhand : l.port.inHand = l.port.batch.map (Taken.of .pending) := by
    rw [AsyncPort.inHand, hphase]
    rfl
  have hfated := all_fated_of .released l.port.batch
  rw [hport]
  refine ⟨_, _, h.settle ({ l.port with batch := [], phase := .idle }.dropN l.port.batch.length)
    (l.port.batch.map (Taken.of .released)) ?_ ?_ ?_ (numbered_of _ _) rfl rfl rfl rfl l.lostRecords
    (fun b => ?_) ?_ h.base_le⟩
  · intro t ht
    rw [hfated t ht]
    simp
  · intro t ht b hb
    rw [hfated t ht] at hb
    cases hb
  · rw [hhand, map_map, map_map]
    rfl
  · rw [hfated.filter_other (by simp)]
    exact (data_of_stream l.lostRecords (fun _ => rfl) b).trans (append_nil _).symm
  · rw [hfated.filter_self, length_map]
    show l.port.dropped + l.port.batch.length + l.lostRecords = _
    omega

/-- The books start empty after a reset. -/
theorem books_reset (hidle : port.phase = .idle) (hbatch : port.batch = [])
    (hassigned : port.assigned = []) :
    Books
      { port
        accepted := port.ch
        overflow := 0
        lostRecords := 0
        base := fun b => (port.stream b).length
        droppedBefore := port.dropped } [] [] := by
  refine ⟨?_, ?_, fun b => ?_, nofun, nofun, nofun, fun hne => absurd rfl hne, rfl,
    fun b => le_rfl⟩
  · show port.ch.filter _ = ([] ++ port.inHand ++ []).map _ ++ port.ch.filter _
    rw [AsyncPort.inHand, hidle, hbatch]
    rfl
  · show [] ++ port.batch = port.assigned
    rw [hbatch, hassigned]
    rfl
  · rw [data, since, drop_length]
    rfl

theorem dispatch_kept {p : AsyncPort} (hne : p.backends ≠ []) (hpicks : p.Picks choice) :
    ((p.dispatchOwnedBatch choice).ch = p.ch ∧ (p.dispatchOwnedBatch choice).phase = .idle) ∧
      (p.sentBatch choice).dropped ≤ (p.dispatchOwnedBatch choice).dropped := by
  obtain ⟨target, -, records, -, hsends, -⟩ := AsyncPort.dispatch_sends (hpicks hne).1
  obtain ⟨encoder, hencode⟩ := p.encode_eq
  have hsending : p.sending =
      { p with encoder, parities := p.parities ++ p.encode.2, batch := [], phase := .idle } := by
    rw [AsyncPort.sending, hencode]
  refine ⟨⟨?_, ?_⟩, ?_⟩
  · rw [hsends.keeps.ch_eq, hsending]
  · rw [hsends.keeps.phase_eq, hsending]
  · rw [AsyncPort.dispatch_eq choice hne]
    exact AsyncPort.send_parities_dropped _ _

/-- Every step keeps the books. -/
theorem Booked.step {action : AsyncPort.Action} (h : l.Booked) (hnumbered : l.port.Numbered)
    (hstep : l.step action = some l') : l'.Booked := by
  obtain ⟨settled, refused, hbooks⟩ := h
  obtain ⟨port, hport, hnoted⟩ := Option.map_eq_some_iff.mp hstep
  cases action with
  | write frame => exact ⟨settled, refused, hbooks.write frame hstep⟩
  | register b capacity =>
    cases hnoted
    obtain ⟨hnew, rfl⟩ := of_blocked hport
    have hstream := (AsyncPort.register_quiet hnumbered (Bool.eq_false_iff.mpr hnew)
      capacity).2.stream_eq
    exact ⟨settled, refused, hbooks.quiet rfl rfl rfl rfl rfl rfl hstream⟩
  | unregister b =>
    cases hport
    cases hnoted
    exact ⟨settled, refused, hbooks.quiet rfl rfl rfl rfl rfl rfl fun _ => rfl⟩
  | drain b =>
    cases hport
    cases hnoted
    have hnothing := AsyncPort.drain_sends_nothing l.port b
    have hkeeps := hnothing.keeps
    exact ⟨settled, refused, hbooks.quiet hkeeps.ch_eq hkeeps.phase_eq hkeeps.batch_eq
      hkeeps.assigned_eq hkeeps.txSeq_eq (AsyncPort.drain_all_dropped l.port [b])
      fun x => (hnothing.stream_eq x).trans (append_nil _)⟩
  | complete b =>
    cases hport
    cases hnoted
    have hnothing := AsyncPort.complete_sends_nothing l.port b
    exact ⟨settled, refused, hbooks.quiet rfl rfl rfl rfl rfl rfl
      fun x => (hnothing.stream_eq x).trans (append_nil _)⟩
  | takeFrame =>
    cases hnoted
    exact hbooks.take_frame hnumbered hport
  | gotSlot =>
    cases hnoted
    exact hbooks.got_slot hnumbered hport
  | fill =>
    cases hnoted
    exact hbooks.fill hport
  | dispatch choice =>
    obtain ⟨hguard, rfl⟩ := of_guarded hport
    dsimp only [note] at hnoted
    by_cases hnone : l.port.backends = []
    · rw [if_pos hnone] at hnoted
      cases hnoted
      exact hbooks.skipped hguard.1 hnone
    · rw [if_neg hnone] at hnoted
      cases hnoted
      obtain ⟨hnext, hd⟩ := AsyncPort.dispatch_spec hnumbered hguard.1 hnone hguard.2
      obtain ⟨hkept, hle⟩ := dispatch_kept hnone hguard.2
      exact hbooks.dispatched hnumbered hd hkept hle hguard.1
  | reset k ic =>
    obtain ⟨hidle, rfl⟩ := of_guarded hport
    cases hnoted
    have hreset := (AsyncPort.reset_spec hnumbered hidle k ic).2
    exact ⟨[], [], books_reset hidle hreset.batch_eq hreset.assigned_eq⟩

end Ledger

end TlsVpn.Port
