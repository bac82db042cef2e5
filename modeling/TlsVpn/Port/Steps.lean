import TlsVpn.Lib.Run
import TlsVpn.Port.Sending

/-!
# The steps of the port

What a step of the port can do to the numbered frames, the encoder and the streams, said once.
`Numbered` is the invariant of the run loop: the frames numbered since the last reset are numbered
without a gap from `1` on, and the batch under construction is the end of them. `step_cases` keeps
it and puts every step into one of four kinds: a quiet one, which at most numbers a frame; a batch
dropped for want of a backend; a dispatched batch; and a reset.
-/

namespace TlsVpn.Port

open Lib Crypto Fec List

namespace AsyncPort

/-- The state of the run loop and its numbered frames. -/
structure Numbered (p : AsyncPort) : Prop where
  txSeq_eq : p.txSeq = p.assigned.length
  txSeq_le : p.txSeq ≤ maxUint32
  seqs_eq : p.assigned.map (·.seq) = List.range' 1 p.assigned.length
  data_ne : ∀ vf ∈ p.assigned, vf.data ≠ []
  waiting_ne : ∀ frame, p.phase = .waiting frame → frame ≠ []
  batch_eq : p.phase ≠ .filling → p.batch = []
  batch_ne : p.phase = .filling → p.batch ≠ []
  suffix : ∃ fed, p.assigned = fed ++ p.batch
  registered : ∀ b ∈ p.backends, (p.backend b).created = true
  absent : ∀ b, (p.backend b).created = false → p.stream b = [] ∧ (p.backend b).fecFenceGen = 0

/-- At most new frames are numbered. -/
structure Quiet (p p' : AsyncPort) : Prop where
  encoder_eq : p'.encoder = p.encoder
  parities_eq : p'.parities = p.parities
  stream_eq : ∀ b, p'.stream b = p.stream b
  fenceGen_eq : ∀ b, (p'.backend b).fecFenceGen = (p.backend b).fecFenceGen
  numbers : ∃ new, p'.assigned = p.assigned ++ new ∧ p'.batch = p.batch ++ new

/-- The batch is dropped because no backend is registered. -/
structure Skipped (p p' : AsyncPort) : Prop where
  no_backend : p.backends = []
  encoder_eq : p'.encoder = p.encoder
  parities_eq : p'.parities = p.parities
  stream_eq : ∀ b, p'.stream b = p.stream b
  fenceGen_eq : ∀ b, (p'.backend b).fecFenceGen = (p.backend b).fecFenceGen
  assigned_eq : p'.assigned = p.assigned
  batch_eq : p'.batch = []

/-- The port while it sends: the encoder has been fed the batch. -/
def sending (p : AsyncPort) : AsyncPort := { p.encode.1 with batch := [], phase := .idle }

/-- The port after the batch has been sent or dropped, before the records. -/
def sentBatch (p : AsyncPort) (choice : Choice) : AsyncPort :=
  p.sending.sendOwnedBatchToAnyFenced choice.best p.batch choice.rounds

/-- The batch is dispatched: it goes, behind the pending control, to at most one backend, and the
records it completed go to the backends picked for them. -/
structure Dispatched (p p' : AsyncPort) (choice : Choice) : Prop where
  batch_ne : p.batch ≠ []
  picks : choice.best ∈ p.backends ∧ ∀ entry ∈ choice.parity, entry.2 ∈ p.backends
  encoder_eq : p'.encoder = p.encode.1.encoder
  parities_eq : p'.parities = p.parities ++ p.encode.2
  assigned_eq : p'.assigned = p.assigned
  batch_eq : p'.batch = []
  sent : ∃ target, (∀ b, target = some b → b ∈ p.backends) ∧ ∃ records : Nat → List Bytes,
    (∀ b, records b ⊆ p.encode.2 ∧
      (records b ≠ [] → b ∈ choice.parity.map Prod.snd)) ∧
    (∀ b, p'.stream b = p.stream b ++
      ((if target = some b then [p.sending.fencedBatch b p.batch] else []) ++
        (records b).map (fun par => [⟨0, par⟩]))) ∧
    (∀ b, (p'.backend b).fecFenceGen =
      if target = some b then p.sending.fencedGen b else (p.backend b).fecFenceGen) ∧
    (p.sentBatch choice).dropped = p.dropped + if target = none then p.batch.length else 0

/-- A new sequence epoch starts. -/
structure ResetTo (p p' : AsyncPort) (k : Nat) (ic : Option InnerCipher) : Prop where
  encoder_eq : p'.encoder = if fecMinGroup ≤ k then some (FecEncoder.new k ic) else none
  parities_eq : p'.parities = []
  stream_eq : ∀ b, p'.stream b = p.stream b
  fenceGen_eq : ∀ b, (p'.backend b).fecFenceGen =
    if b ∈ p.backends then 0 else (p.backend b).fecFenceGen
  assigned_eq : p'.assigned = []
  batch_eq : p'.batch = []
  txSeq_eq : p'.txSeq = 0
  exhausted_eq : p'.exhausted = false

variable {p p' : AsyncPort}

theorem numbered_new : Numbered AsyncPort.new :=
  ⟨rfl, Nat.zero_le _, rfl, nofun, nofun, fun _ => rfl, nofun, ⟨[], rfl⟩, nofun,
    fun _ _ => ⟨rfl, rfl⟩⟩

namespace Quiet

/-- A step that leaves queues, encoder and numbers alone. -/
theorem of_same (hencoder : p'.encoder = p.encoder) (hparities : p'.parities = p.parities)
    (hbackend : p'.backend = p.backend) (hassigned : p'.assigned = p.assigned)
    (hbatch : p'.batch = p.batch) : Quiet p p' := by
  refine ⟨hencoder, hparities, fun b => ?_, fun b => by rw [hbackend], ⟨[], ?_, ?_⟩⟩
  · rw [stream, stream, hbackend]
  · rw [hassigned, append_nil]
  · rw [hbatch, append_nil]

end Quiet

/-- What the invariant says of the backends. -/
def BackendsOk (p : AsyncPort) : Prop :=
  (∀ b ∈ p.backends, (p.backend b).created = true) ∧
    ∀ b, (p.backend b).created = false → p.stream b = [] ∧ (p.backend b).fecFenceGen = 0

namespace Numbered

theorem backends_ok (h : p.Numbered) : p.BackendsOk := ⟨h.registered, h.absent⟩

/-- The batch continues the numbers of the frames before it. -/
theorem batch_seqs (h : p.Numbered) {fed : List VPNFrame}
    (hassigned : p.assigned = fed ++ p.batch) :
    p.batch.map (·.seq) = List.range' (fed.length + 1) p.batch.length := by
  have hall := h.seqs_eq
  rw [hassigned, map_append, length_append, ← range'_append_1] at hall
  rw [(append_inj hall (by simp)).2, Nat.add_comm 1]

theorem batch_data_ne (h : p.Numbered) {vf : VPNFrame} (hvf : vf ∈ p.batch) : vf.data ≠ [] := by
  obtain ⟨fed, hassigned⟩ := h.suffix
  exact h.data_ne vf (by rw [hassigned]; exact mem_append_right _ hvf)

/-- The numbers are kept by a step that does not touch them. -/
theorem of_same (h : p.Numbered) (htx : p'.txSeq = p.txSeq) (hassigned : p'.assigned = p.assigned)
    (hbatch : p'.batch = p.batch) (hphase : p'.phase = p.phase) (hbackends : p'.BackendsOk) :
    p'.Numbered := by
  refine ⟨?_, ?_, ?_, ?_, ?_, ?_, ?_, ?_, hbackends.1, hbackends.2⟩
  · rw [htx, hassigned]
    exact h.txSeq_eq
  · rw [htx]
    exact h.txSeq_le
  · rw [hassigned]
    exact h.seqs_eq
  · rw [hassigned]
    exact h.data_ne
  · rw [hphase]
    exact h.waiting_ne
  · rw [hphase, hbatch]
    exact h.batch_eq
  · rw [hphase, hbatch]
    exact h.batch_ne
  · rw [hassigned, hbatch]
    exact h.suffix

/-- The loop is back at its start with an empty batch. -/
theorem idle (h : p.Numbered) (htx : p'.txSeq = p.txSeq) (hassigned : p'.assigned = p.assigned)
    (hbatch : p'.batch = []) (hphase : p'.phase = .idle) (hbackends : p'.BackendsOk) :
    p'.Numbered := by
  refine ⟨by rw [htx, hassigned]; exact h.txSeq_eq, by rw [htx]; exact h.txSeq_le,
    by rw [hassigned]; exact h.seqs_eq, by rw [hassigned]; exact h.data_ne, ?_, fun _ => hbatch, ?_,
    ⟨p.assigned, by rw [hassigned, hbatch, append_nil]⟩, hbackends.1, hbackends.2⟩
  · intro frame hwaiting
    rw [hphase] at hwaiting
    cases hwaiting
  · intro hfilling
    rw [hphase] at hfilling
    cases hfilling

/-- Numbering a frame extends the log and the batch by it, unless the numbers are exhausted. -/
theorem number {frame : Bytes} (h : p.Numbered) (hframe : frame ≠ []) :
    (p.number frame).Numbered ∧ Quiet p (p.number frame) := by
  unfold AsyncPort.number nextSeq
  by_cases hlast : p.txSeq = maxUint32
  · rw [if_pos hlast]
    exact ⟨h.of_same rfl rfl rfl rfl h.backends_ok, .of_same rfl rfl rfl rfl rfl⟩
  · rw [if_neg hlast]
    obtain ⟨fed, hassigned⟩ := h.suffix
    have hle := h.txSeq_le
    refine ⟨⟨?_, ?_, ?_, ?_, nofun, fun hne => absurd rfl hne, ?_, ⟨fed, ?_⟩, h.registered,
      h.absent⟩,
      rfl, rfl, fun _ => rfl, fun _ => rfl, ⟨_, rfl, rfl⟩⟩
    · show p.txSeq + 1 = (p.assigned ++ [_]).length
      rw [length_append, length_singleton, h.txSeq_eq]
    · show p.txSeq + 1 ≤ maxUint32
      omega
    · show (p.assigned ++ [_]).map VPNFrame.seq = List.range' 1 (p.assigned ++ [_]).length
      rw [map_append, length_append, length_singleton, h.seqs_eq, h.txSeq_eq,
        ← range'_append_1, Nat.add_comm 1]
      rfl
    · intro vf hvf
      rcases mem_append.mp hvf with hold | hnew
      · exact h.data_ne vf hold
      · rw [mem_singleton.mp hnew]
        exact hframe
    · intro _
      exact append_ne_nil_of_right_ne_nil _ (cons_ne_nil _ _)
    · show p.assigned ++ [_] = fed ++ (p.batch ++ [_])
      rw [hassigned, append_assoc]

end Numbered

/-! ## Each action -/

theorem write_quiet (h : p.Numbered) (frame : Bytes) :
    (p.writeOwnedFrame frame).Numbered ∧ Quiet p (p.writeOwnedFrame frame) := by
  unfold writeOwnedFrame
  split
  · exact ⟨h.of_same rfl rfl rfl rfl h.backends_ok, .of_same rfl rfl rfl rfl rfl⟩
  · exact ⟨h.of_same rfl rfl rfl rfl h.backends_ok, .of_same rfl rfl rfl rfl rfl⟩

/-- A new backend has been handed nothing. -/
theorem register_quiet (h : p.Numbered) {b : Nat} (hnew : (p.backend b).created = false)
    (capacity : Nat) :
    (p.registerOwnedBackend b capacity).Numbered ∧
      Quiet p (p.registerOwnedBackend b capacity) := by
  obtain ⟨hstream, hgen⟩ := h.absent b hnew
  have hbackend : ∀ x, (p.registerOwnedBackend b capacity).backend x =
      if x = b then .fresh capacity else p.backend x := fun x => Function.update_apply ..
  have hstream' : ∀ x, (p.registerOwnedBackend b capacity).stream x = p.stream x := by
    intro x
    rw [stream, hbackend]
    by_cases heq : x = b
    · rw [if_pos heq, heq, hstream]
      rfl
    · rw [if_neg heq]
      rfl
  have hgen' : ∀ x, ((p.registerOwnedBackend b capacity).backend x).fecFenceGen
      = (p.backend x).fecFenceGen := by
    intro x
    rw [hbackend]
    by_cases heq : x = b
    · rw [if_pos heq, heq, hgen]
      rfl
    · rw [if_neg heq]
  refine ⟨h.of_same rfl rfl rfl rfl ⟨?_, ?_⟩, rfl, rfl, hstream', hgen', ⟨[], ?_, ?_⟩⟩
  · intro x hx
    rw [hbackend]
    by_cases heq : x = b
    · rw [if_pos heq]
      rfl
    · rw [if_neg heq]
      rcases mem_append.mp hx with hold | hnow
      · exact h.registered x hold
      · exact absurd (mem_singleton.mp hnow) heq
  · intro x hx
    rw [hstream', hgen']
    refine h.absent x ?_
    rw [hbackend] at hx
    by_cases heq : x = b
    · rw [if_pos heq] at hx
      cases hx
    · rwa [if_neg heq] at hx
  · exact (append_nil _).symm
  · exact (append_nil _).symm

theorem unregister_quiet (h : p.Numbered) (b : Nat) :
    (p.unregisterOwnedBackend b).Numbered ∧ Quiet p (p.unregisterOwnedBackend b) := by
  refine ⟨h.of_same rfl rfl rfl rfl ⟨?_, h.absent⟩, .of_same rfl rfl rfl rfl rfl⟩
  intro x hx
  exact h.registered x (mem_of_mem_erase hx)

/-- A step of a writer. -/
theorem writer_quiet (h : p.Numbered) (hnothing : SendsNothing p p') :
    p'.Numbered ∧ Quiet p p' := by
  have hkeeps := hnothing.keeps
  have hstream : ∀ x, p'.stream x = p.stream x := fun x => by
    rw [hnothing.stream_eq, append_nil]
  refine ⟨h.of_same hkeeps.txSeq_eq hkeeps.assigned_eq hkeeps.batch_eq hkeeps.phase_eq ⟨?_, ?_⟩,
    hkeeps.encoder_eq, hkeeps.parities_eq, hstream, hnothing.fenceGen_eq,
    ⟨[], by rw [hkeeps.assigned_eq, append_nil], by rw [hkeeps.batch_eq, append_nil]⟩⟩
  · intro x hx
    rw [hkeeps.created_eq]
    rw [hkeeps.backends_eq] at hx
    exact h.registered x hx
  · intro x hx
    rw [hkeeps.created_eq] at hx
    rw [hstream, hnothing.fenceGen_eq]
    exact h.absent x hx

theorem take_frame_quiet (h : p.Numbered) (hstep : p.takeFrame = some p') :
    p'.Numbered ∧ Quiet p p' := by
  unfold takeFrame at hstep
  split at hstep
  · rename_i frame rest hphase hch
    have hbatch : p.batch = [] := h.batch_eq (by rw [hphase]; exact RunPhase.noConfusion)
    split at hstep
    · cases hstep
      exact ⟨h.of_same rfl rfl rfl rfl h.backends_ok, .of_same rfl rfl rfl rfl rfl⟩
    · rename_i hframe
      cases hstep
      refine ⟨⟨h.txSeq_eq, h.txSeq_le, h.seqs_eq, h.data_ne, ?_, fun _ => hbatch, nofun, h.suffix,
        h.registered, h.absent⟩, .of_same rfl rfl rfl rfl rfl⟩
      rintro f ⟨⟩
      exact hframe
  · cases hstep

theorem got_slot_quiet (h : p.Numbered) (hstep : p.gotSlot = some p') :
    p'.Numbered ∧ Quiet p p' := by
  unfold gotSlot at hstep
  split at hstep
  · rename_i frame hphase
    have hbatch : p.batch = [] := h.batch_eq (by rw [hphase]; exact RunPhase.noConfusion)
    split at hstep
    · cases hstep
    · cases hstep
      exact ⟨h.idle rfl rfl hbatch rfl h.backends_ok, .of_same rfl rfl rfl rfl rfl⟩
    · cases hstep
      have hidle : { p with phase := .idle }.Numbered := h.idle rfl rfl hbatch rfl h.backends_ok
      obtain ⟨hnumbered, hquiet⟩ := hidle.number (h.waiting_ne frame hphase)
      exact ⟨hnumbered, hquiet.encoder_eq, hquiet.parities_eq, hquiet.stream_eq,
        hquiet.fenceGen_eq, hquiet.numbers⟩
  · cases hstep

theorem fill_quiet (h : p.Numbered) (hstep : p.fill = some p') : p'.Numbered ∧ Quiet p p' := by
  unfold fill at hstep
  split at hstep
  · rename_i frame rest hphase hch
    have hrest : { p with ch := rest }.Numbered := h.of_same rfl rfl rfl rfl h.backends_ok
    split at hstep
    · split at hstep
      · cases hstep
        exact ⟨hrest, .of_same rfl rfl rfl rfl rfl⟩
      · rename_i hframe
        cases hstep
        obtain ⟨hnumbered, hquiet⟩ := hrest.number hframe
        exact ⟨hnumbered, hquiet.encoder_eq, hquiet.parities_eq, hquiet.stream_eq,
          hquiet.fenceGen_eq, hquiet.numbers⟩
    · cases hstep
  · cases hstep

/-- Feeding the encoder leaves everything but the encoder and its records alone. -/
theorem encode_eq (p : AsyncPort) :
    ∃ encoder, p.encode.1 = { p with encoder, parities := p.parities ++ p.encode.2 } := by
  unfold encode
  cases he : p.encoder with
  | none => exact ⟨p.encoder, by rw [append_nil]⟩
  | some e => exact ⟨_, rfl⟩

variable {choice : Choice}

theorem skip_dispatch (h : p.Numbered) (hnone : p.backends = []) :
    (p.dispatchOwnedBatch choice).Numbered ∧ Skipped p (p.dispatchOwnedBatch choice) := by
  unfold dispatchOwnedBatch
  rw [if_pos hnone]
  exact ⟨h.idle rfl rfl rfl rfl h.backends_ok,
    ⟨hnone, rfl, rfl, fun _ => rfl, fun _ => rfl, rfl, rfl⟩⟩

/-- A dispatch sends the batch and then the records. -/
theorem dispatch_eq (choice : Choice) (hne : p.backends ≠ []) :
    p.dispatchOwnedBatch choice =
      (p.sentBatch choice).sendParities (p.encode.2.zip choice.parity) := by
  unfold dispatchOwnedBatch
  rw [if_neg hne]
  rfl

/-- The batch and the records of a dispatch reach the streams. -/
theorem dispatch_sends (hbest : choice.best ∈ p.backends) :
    ∃ target, (∀ b, target = some b → b ∈ p.backends) ∧ ∃ records : Nat → List Bytes,
      (∀ b, records b ⊆ p.encode.2 ∧
        (records b ≠ [] → b ∈ choice.parity.map Prod.snd)) ∧
      Sends p.sending (p.dispatchOwnedBatch choice)
        (fun b => (if target = some b then [p.sending.fencedBatch b p.batch] else []) ++
          (records b).map (fun par => [⟨0, par⟩]))
        (fun b => if target = some b then p.sending.fencedGen b
          else (p.sending.backend b).fecFenceGen) ∧
      (p.sentBatch choice).dropped =
        p.sending.dropped + if target = none then p.batch.length else 0 := by
  have hne : p.backends ≠ [] := ne_nil_of_mem hbest
  have hbackends : p.sending.backends = p.backends := by
    obtain ⟨encoder, hencode⟩ := p.encode_eq
    rw [sending, hencode]
  have hdispatch := dispatch_eq choice hne
  rw [← hbackends] at hbest
  have hbatch : ∃ target, (∀ b, target = some b → b ∈ p.backends) ∧
      Sends p.sending (p.sentBatch choice)
        (fun b => if target = some b then [p.sending.fencedBatch b p.batch] else [])
        (fun b => if target = some b then p.sending.fencedGen b
          else (p.sending.backend b).fecFenceGen) ∧
      (p.sentBatch choice).dropped =
        p.sending.dropped + if target = none then p.batch.length else 0 := by
    have hspec := send_owned_batch_spec p.sending hbest p.batch choice.rounds
    rw [← sentBatch] at hspec
    rcases hspec with ⟨hnothing, hdropped⟩ | ⟨⟨b, hmem, hone⟩, hdropped⟩
    · exact ⟨none, nofun, hnothing, hdropped⟩
    · rw [hbackends] at hmem
      refine ⟨some b, ?_, ⟨hone.keeps, fun x => ?_, fun x => ?_⟩, hdropped⟩
      · rintro x ⟨⟩
        exact hmem
      · rw [hone.stream_eq]
        by_cases heq : x = b
        · rw [if_pos heq, if_pos (by rw [heq]), heq]
        · rw [if_neg heq, if_neg (fun hs => heq (Option.some.inj hs).symm)]
      · rw [hone.fenceGen_eq]
        by_cases heq : x = b
        · rw [if_pos heq, if_pos (by rw [heq]), heq]
        · rw [if_neg heq, if_neg (fun hs => heq (Option.some.inj hs).symm)]
  obtain ⟨target, htarget, hsends, hdropped⟩ := hbatch
  have hsub : (p.encode.2.zip choice.parity).map Prod.fst ⊆ p.encode.2 := by
    intro par hpar
    obtain ⟨entry, hentry, rfl⟩ := mem_map.mp hpar
    exact (of_mem_zip hentry).1
  have hpicks : (p.encode.2.zip choice.parity).map (fun entry => entry.2.2) ⊆
      choice.parity.map Prod.snd := by
    intro b hb
    obtain ⟨entry, hentry, rfl⟩ := mem_map.mp hb
    exact mem_map_of_mem (of_mem_zip hentry).2
  have hrecords := (send_parities_spec (p.sentBatch choice)
    (p.encode.2.zip choice.parity)).mono hsub hpicks
  choose records hsub hpicked hstream using hrecords.stream_eq
  rw [hdispatch]
  refine ⟨target, htarget, records, fun b => ⟨hsub b, hpicked b⟩,
    ⟨hsends.keeps.trans hrecords.keeps, fun b => ?_, fun b => ?_⟩, hdropped⟩
  · rw [hstream, hsends.stream_eq, append_assoc]
  · rw [hrecords.fenceGen_eq, hsends.fenceGen_eq]

/-- What a dispatch does to the port. -/
theorem dispatch_spec (h : p.Numbered) (hphase : p.phase = .filling) (hne : p.backends ≠ [])
    (hpicks : p.Picks choice) :
    (p.dispatchOwnedBatch choice).Numbered ∧ Dispatched p (p.dispatchOwnedBatch choice) choice := by
  obtain ⟨hbest, hparity, -⟩ := hpicks hne
  obtain ⟨target, htarget, records, hrecords, hsends, hdropped⟩ := dispatch_sends hbest
  obtain ⟨encoder, hencode⟩ := p.encode_eq
  have hkeeps := hsends.keeps
  have hsending : p.sending =
      { p with encoder, parities := p.parities ++ p.encode.2, batch := [], phase := .idle } := by
    rw [sending, hencode]
  have hstream : ∀ b, p.sending.stream b = p.stream b := fun b => by
    rw [hsending]
    rfl
  have hpicked : ∀ b ∈ choice.parity.map Prod.snd, b ∈ p.backends := by
    intro b hb
    obtain ⟨entry, hentry, rfl⟩ := mem_map.mp hb
    exact hparity entry hentry
  have hnumbered : (p.dispatchOwnedBatch choice).Numbered := by
    refine h.idle ?_ ?_ ?_ ?_ ⟨?_, ?_⟩
    · rw [hkeeps.txSeq_eq, hsending]
    · rw [hkeeps.assigned_eq, hsending]
    · rw [hkeeps.batch_eq, hsending]
    · rw [hkeeps.phase_eq, hsending]
    · intro b hb
      rw [hkeeps.backends_eq, hsending] at hb
      rw [hkeeps.created_eq, hsending]
      exact h.registered b hb
    · -- nothing is sent to a backend that was never registered
      intro b hb
      rw [hkeeps.created_eq, hsending] at hb
      have hnot : b ∉ p.backends := fun hmem => by
        rw [h.registered b hmem] at hb
        cases hb
      have htarget' : target ≠ some b := fun hsome => hnot (htarget b hsome)
      have hnone : records b = [] := by
        by_contra hsome
        exact hnot (hpicked b ((hrecords b).2 hsome))
      obtain ⟨hempty, hgen⟩ := h.absent b hb
      refine ⟨?_, ?_⟩
      · rw [hsends.stream_eq, hstream, hempty, if_neg htarget', hnone]
        rfl
      · rw [hsends.fenceGen_eq, if_neg htarget', hsending]
        exact hgen
  refine ⟨hnumbered, h.batch_ne hphase, ⟨hbest, hparity⟩, ?_, ?_, ?_, ?_, target, htarget, records,
    hrecords, fun b => ?_, fun b => ?_, ?_⟩
  · rw [hkeeps.encoder_eq]
    rfl
  · rw [hkeeps.parities_eq, hsending]
  · rw [hkeeps.assigned_eq, hsending]
  · rw [hkeeps.batch_eq, hsending]
  · rw [hsends.stream_eq, hstream]
  · rw [hsends.fenceGen_eq, hsending]
  · rw [hdropped, hsending]

/-- What a reset does to the port. -/
theorem reset_spec (h : p.Numbered) (hidle : p.phase = .idle) (k : Nat) (ic : Option InnerCipher) :
    (p.resetEpoch k ic).Numbered ∧ ResetTo p (p.resetEpoch k ic) k ic := by
  have hbatch : p.batch = [] := h.batch_eq (by rw [hidle]; exact RunPhase.noConfusion)
  have hbackend : ∀ b, (p.resetEpoch k ic).backend b =
      if b ∈ p.backends then { p.backend b with fecFenceGen := 0 } else p.backend b :=
    fun _ => rfl
  have hstream : ∀ b, (p.resetEpoch k ic).stream b = p.stream b := by
    intro b
    rw [stream, hbackend]
    by_cases hmem : b ∈ p.backends
    · rw [if_pos hmem]
      rfl
    · rw [if_neg hmem]
      rfl
  have hgen : ∀ b, ((p.resetEpoch k ic).backend b).fecFenceGen =
      if b ∈ p.backends then 0 else (p.backend b).fecFenceGen := by
    intro b
    rw [hbackend]
    split
    · rfl
    · rfl
  have hcreated : ∀ b, ((p.resetEpoch k ic).backend b).created = (p.backend b).created := by
    intro b
    rw [hbackend]
    split
    · rfl
    · rfl
  refine ⟨⟨rfl, Nat.zero_le _, rfl, forall_mem_nil _, ?_, fun _ => hbatch, ?_,
    ⟨[], hbatch.symm⟩, ?_, ?_⟩,
    rfl, rfl, hstream, hgen, rfl, hbatch, rfl, rfl⟩
  · intro frame hwaiting
    exact h.waiting_ne frame hwaiting
  · intro hfilling
    exact h.batch_ne hfilling
  · intro b hb
    rw [hcreated]
    exact h.registered b hb
  · intro b hb
    rw [hcreated] at hb
    obtain ⟨hempty, hzero⟩ := h.absent b hb
    refine ⟨by rw [hstream, hempty], ?_⟩
    rw [hgen, hzero, ite_self]

variable {action : Action}

/-- Every step keeps the numbering and is of one of four kinds. -/
theorem step_cases (h : p.Numbered) (hstep : p.step action = some p') :
    p'.Numbered ∧
      (Quiet p p' ∨ (∃ choice, action = .dispatch choice ∧ Skipped p p') ∨
        (∃ choice, action = .dispatch choice ∧ Dispatched p p' choice) ∨
        ∃ k ic, action = .reset k ic ∧ ResetTo p p' k ic) := by
  cases action with
  | write frame =>
    cases hstep
    exact (write_quiet h frame).imp_right .inl
  | register b capacity =>
    obtain ⟨hnew, rfl⟩ := of_blocked hstep
    exact (register_quiet h (Bool.eq_false_iff.mpr hnew) capacity).imp_right .inl
  | unregister b =>
    cases hstep
    exact (unregister_quiet h b).imp_right .inl
  | drain b =>
    cases hstep
    exact (writer_quiet h (drain_sends_nothing p b)).imp_right .inl
  | complete b =>
    cases hstep
    exact (writer_quiet h (complete_sends_nothing p b)).imp_right .inl
  | takeFrame => exact (take_frame_quiet h hstep).imp_right .inl
  | gotSlot => exact (got_slot_quiet h hstep).imp_right .inl
  | fill => exact (fill_quiet h hstep).imp_right .inl
  | dispatch choice =>
    obtain ⟨hguard, rfl⟩ := of_guarded hstep
    by_cases hnone : p.backends = []
    · exact (skip_dispatch h hnone).imp_right (fun hs => .inr (.inl ⟨choice, rfl, hs⟩))
    · exact (dispatch_spec h hguard.1 hnone hguard.2).imp_right
        (fun hd => .inr (.inr (.inl ⟨choice, rfl, hd⟩)))
  | reset k ic =>
    obtain ⟨hidle, rfl⟩ := of_guarded hstep
    exact (reset_spec h hidle k ic).imp_right
      (fun hr => .inr (.inr (.inr ⟨k, ic, rfl, hr⟩)))

/-- The group size of the encoder. -/
def groupSize (p : AsyncPort) : Option Nat := p.encoder.map (·.k)

theorem encode_group_size (p : AsyncPort) : p.encode.1.groupSize = p.groupSize := by
  unfold encode groupSize
  cases he : p.encoder with
  | none => exact congrArg _ he
  | some e =>
    show some ((e.setPhysicalPathCount p.backends.length).addAll p.batch).1.k = some e.k
    rw [FecEncoder.add_all_k, FecEncoder.set_physical_path_count_k]

/-- Only a reset changes the group size. -/
theorem step_group_size (h : p.Numbered) (hreset : ∀ k ic, action ≠ .reset k ic)
    (hstep : p.step action = some p') : p'.groupSize = p.groupSize := by
  rcases (step_cases h hstep).2 with
    hquiet | ⟨choice, -, hskipped⟩ | ⟨choice, -, hdispatched⟩ | ⟨k, ic, heq, -⟩
  · rw [groupSize, hquiet.encoder_eq, groupSize]
  · rw [groupSize, hskipped.encoder_eq, groupSize]
  · rw [groupSize, hdispatched.encoder_eq]
    exact p.encode_group_size
  · exact absurd heq (hreset k ic)

/-! ## Registration -/

theorem number_backends (p : AsyncPort) (frame : Bytes) :
    (p.number frame).backends = p.backends ∧ (p.number frame).backend = p.backend := by
  unfold number nextSeq
  by_cases hlast : p.txSeq = maxUint32
  · rw [if_pos hlast]
    exact ⟨rfl, rfl⟩
  · rw [if_neg hlast]
    exact ⟨rfl, rfl⟩

theorem dispatch_keeps_backends (hpicks : p.Picks choice) :
    (p.dispatchOwnedBatch choice).backends = p.backends ∧
      ∀ b, ((p.dispatchOwnedBatch choice).backend b).created = (p.backend b).created := by
  by_cases hnone : p.backends = []
  · unfold dispatchOwnedBatch
    rw [if_pos hnone]
    exact ⟨rfl, fun _ => rfl⟩
  · obtain ⟨target, -, records, -, hsends, -⟩ := dispatch_sends (hpicks hnone).1
    obtain ⟨encoder, hencode⟩ := p.encode_eq
    have hbackends : p.sending.backends = p.backends := by rw [sending, hencode]
    have hbackend : p.sending.backend = p.backend := by rw [sending, hencode]
    refine ⟨hsends.keeps.backends_eq.trans hbackends, fun b => ?_⟩
    rw [hsends.keeps.created_eq, hbackend]

/-- Only a registration makes a backend, and only it and an unregistration change the list. -/
theorem step_keeps_backends (hregister : ∀ b capacity, action ≠ .register b capacity)
    (hunregister : ∀ b, action ≠ .unregister b) (hstep : p.step action = some p') :
    p'.backends = p.backends ∧ ∀ b, (p'.backend b).created = (p.backend b).created := by
  cases action with
  | write frame =>
    cases hstep
    unfold writeOwnedFrame
    split
    · exact ⟨rfl, fun _ => rfl⟩
    · exact ⟨rfl, fun _ => rfl⟩
  | register b capacity => exact absurd rfl (hregister b capacity)
  | unregister b => exact absurd rfl (hunregister b)
  | drain b =>
    cases hstep
    have hkeeps := (drain_sends_nothing p b).keeps
    exact ⟨hkeeps.backends_eq, hkeeps.created_eq⟩
  | complete b =>
    cases hstep
    have hkeeps := (complete_sends_nothing p b).keeps
    exact ⟨hkeeps.backends_eq, hkeeps.created_eq⟩
  | takeFrame =>
    simp only [step, takeFrame] at hstep
    split at hstep
    · split at hstep
      · cases hstep
        exact ⟨rfl, fun _ => rfl⟩
      · cases hstep
        exact ⟨rfl, fun _ => rfl⟩
    · cases hstep
  | gotSlot =>
    simp only [step, gotSlot] at hstep
    split at hstep
    · rename_i frame hphase
      split at hstep
      · cases hstep
      · cases hstep
        exact ⟨rfl, fun _ => rfl⟩
      · cases hstep
        obtain ⟨hbackends, hbackend⟩ := number_backends { p with phase := .idle } frame
        exact ⟨hbackends, fun b => by rw [hbackend]⟩
    · cases hstep
  | fill =>
    simp only [step, fill] at hstep
    split at hstep
    · rename_i frame rest hphase hch
      split at hstep
      · split at hstep
        · cases hstep
          exact ⟨rfl, fun _ => rfl⟩
        · cases hstep
          obtain ⟨hbackends, hbackend⟩ := number_backends { p with ch := rest } frame
          exact ⟨hbackends, fun b => by rw [hbackend]⟩
      · cases hstep
    · cases hstep
  | dispatch choice =>
    obtain ⟨hguard, rfl⟩ := of_guarded hstep
    exact dispatch_keeps_backends hguard.2
  | reset k ic =>
    obtain ⟨_, rfl⟩ := of_guarded hstep
    refine ⟨rfl, fun b => ?_⟩
    show (if b ∈ p.backends then _ else _ : Backend).created = _
    split
    · rfl
    · rfl

end AsyncPort

end TlsVpn.Port
