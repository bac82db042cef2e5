import TlsVpn.Port.Fencing

/-!
# The ledger of the sending port

History variables of the port since the last epoch reset: the frames that entered the input queue,
the drops at its entrance and of records, and how long the streams were. With them `Conserved` says
what became of every frame that the run loop took: it is queued on one backend, or released and
counted as dropped, or still in the hands of the loop.

`BytesCounted` is the account of one backend. It holds at every point of a send, since
`try_queue_eq` shows that a failed attempt takes back exactly what it added.
-/

namespace TlsVpn.Port

open Lib Crypto Fec Function List

/-! ## Queued bytes -/

namespace Backend

/-- The bytes handed to the backend that its writer has not completed. -/
def uncompleted (b : Backend) : Nat := ((b.taken.drop b.completed ++ b.queue).map batchBytes).sum

/-- The counter of the backend is what its writer has not completed. -/
def BytesCounted (b : Backend) : Prop :=
  b.completed ≤ b.taken.length ∧ b.queuedBytes = b.uncompleted

/-- A batch enters the queue. -/
def addQueuedBytes (b : Backend) (n : Nat) : Backend := { b with queuedBytes := b.queuedBytes + n }

/-- A batch has been written. -/
def completeQueuedBytes (b : Backend) (n : Nat) : Backend :=
  { b with queuedBytes := b.queuedBytes - n }

variable {b : Backend}

theorem BytesCounted.enqueue (h : b.BytesCounted) (batch : List VPNFrame) (gen : Nat) :
    { b with
      queue := b.queue ++ [batch]
      queuedBytes := b.queuedBytes + batchBytes batch
      fecFenceGen := gen }.BytesCounted := by
  refine ⟨h.1, ?_⟩
  have hbytes := h.2
  simp only [uncompleted, map_append, sum_append, map_cons, map_nil,
    sum_cons, sum_nil] at hbytes ⊢
  omega

theorem BytesCounted.take {batch : List VPNFrame} {rest : List (List VPNFrame)} (h : b.BytesCounted)
    (hqueue : b.queue = batch :: rest) :
    { b with queue := rest, taken := b.taken ++ [batch] }.BytesCounted := by
  refine ⟨?_, ?_⟩
  · rw [length_append]
    exact Nat.le_add_right_of_le h.1
  · show b.queuedBytes = _
    rw [h.2, uncompleted, uncompleted, hqueue, drop_append_of_le_length h.1,
      append_assoc, singleton_append]

theorem BytesCounted.complete (h : b.BytesCounted) :
    { b with
      completed := b.taken.length
      queuedBytes :=
        b.queuedBytes - ((b.taken.drop b.completed).map batchBytes).sum }.BytesCounted := by
  refine ⟨le_rfl, ?_⟩
  have hbytes := h.2
  simp only [uncompleted, map_append, sum_append, drop_length,
    nil_append] at hbytes ⊢
  omega

end Backend

namespace AsyncPort

/-- Every backend's account is right. -/
def BytesCounted (p : AsyncPort) : Prop := ∀ b, (p.backend b).BytesCounted

/-- One attempt in the order of the source: the bytes are added before the queue is tried, and taken
back if it is full. -/
def tryQueue (p : AsyncPort) (b : Nat) (batch : List VPNFrame) : AsyncPort × Bool :=
  let sendBatch := p.fencedBatch b batch
  let added := (p.backend b).addQueuedBytes (batchBytes sendBatch)
  if added.QueueHasRoom then
    (p.setBackend b
      { added with queue := added.queue ++ [sendBatch], fecFenceGen := p.fencedGen b }, true)
  else (p.setBackend b (added.completeQueuedBytes (batchBytes sendBatch)), false)

/-- A failed attempt leaves no trace. -/
theorem try_queue_eq (p : AsyncPort) (b : Nat) (batch : List VPNFrame) :
    p.tryQueue b batch =
      match p.trySend b batch with
      | some sent => (sent, true)
      | none => (p, false) := by
  unfold tryQueue trySend
  dsimp only
  by_cases hroom : (p.backend b).QueueHasRoom
  · rw [if_pos (show ((p.backend b).addQueuedBytes _).QueueHasRoom from hroom),
      if_neg (not_not.mpr hroom)]
    unfold fencedBatch fencedGen
    cases p.fence b with
    | none | some => rfl
  · rw [if_neg (show ¬ ((p.backend b).addQueuedBytes _).QueueHasRoom from hroom), if_pos hroom]
    have hback :
      ((p.backend b).addQueuedBytes (batchBytes (p.fencedBatch b batch))).completeQueuedBytes
        (batchBytes (p.fencedBatch b batch)) = p.backend b := by
      unfold Backend.addQueuedBytes Backend.completeQueuedBytes
      rw [Nat.add_sub_cancel]
    rw [hback, setBackend, update_eq_self]

namespace BytesCounted

variable {p p' : AsyncPort}

theorem set_backend (h : p.BytesCounted) {b : Nat} {state : Backend} (hstate : state.BytesCounted) :
    (p.setBackend b state).BytesCounted := by
  intro x
  show (update p.backend b state x).BytesCounted
  rw [update_apply]
  split
  · exact hstate
  · exact h x

theorem drain (h : p.BytesCounted) (b : Nat) : (p.drain b).BytesCounted := by
  unfold AsyncPort.drain
  split
  · exact h
  · rename_i batch rest hqueue
    exact h.set_backend ((h b).take hqueue)

theorem drain_all (h : p.BytesCounted) (bs : List Nat) : (p.drainAll bs).BytesCounted := by
  induction bs generalizing p with
  | nil => exact h
  | cons b rest ih => exact ih (h.drain b)

theorem try_send (h : p.BytesCounted) {b : Nat} {batch : List VPNFrame}
    (hsend : p.trySend b batch = some p') : p'.BytesCounted := by
  unfold trySend at hsend
  dsimp only at hsend
  split at hsend
  · cases hsend
  · split at hsend
    · cases hsend
      exact h.set_backend ((h b).enqueue batch _)
    · cases hsend
      exact h.set_backend ((h b).enqueue _ _)

theorem send_owned_batch (h : p.BytesCounted) (best : Nat) (batch : List VPNFrame)
    (rounds : List (List Nat)) :
    (p.sendOwnedBatchToAnyFenced best batch rounds).BytesCounted := by
  have hall : ∀ {q q' : AsyncPort}, q.BytesCounted → q.tryAll best batch = some q' →
      q'.BytesCounted := by
    intro q q' hq hsome
    obtain ⟨b, _, hsend⟩ := exists_of_findSome?_eq_some hsome
    exact hq.try_send hsend
  induction rounds generalizing p with
  | nil =>
    unfold sendOwnedBatchToAnyFenced
    cases hsome : p.tryAll best batch with
    | none => exact h
    | some sent => exact hall h hsome
  | cons drains rest ih =>
    unfold sendOwnedBatchToAnyFenced
    cases hsome : p.tryAll best batch with
    | none => exact ih (h.drain_all drains)
    | some sent => exact hall h hsome

theorem send_parities (h : p.BytesCounted) (records : List (Bytes × List Nat × Nat)) :
    (p.sendParities records).BytesCounted := by
  induction records generalizing p with
  | nil => exact h
  | cons entry rest ih =>
    obtain ⟨par, drains, target⟩ := entry
    unfold sendParities
    refine ih ?_
    split
    · exact h
    · have hdrained := h.drain_all drains
      unfold sendOwnedFrameTo
      dsimp only
      split
      · refine hdrained.set_backend ?_
        have henqueued := (hdrained target).enqueue [⟨0, par⟩]
          ((p.drainAll drains).backend target).fecFenceGen
        exact henqueued
      · exact hdrained

theorem dispatch (h : p.BytesCounted) (choice : Choice) :
    (p.dispatchOwnedBatch choice).BytesCounted := by
  unfold dispatchOwnedBatch
  dsimp only
  split
  · exact h
  · have hencoded : p.encode.1.BytesCounted := by
      obtain ⟨encoder, hencode⟩ := p.encode_eq
      rw [hencode]
      exact h
    refine send_parities ?_ _
    exact send_owned_batch (p := { p.encode.1 with batch := [], phase := .idle }) hencoded _ _ _

theorem reset (h : p.BytesCounted) (k : Nat) (ic : Option InnerCipher) :
    (p.resetEpoch k ic).BytesCounted := by
  intro b
  show (if b ∈ p.backends then _ else _ : Backend).BytesCounted
  split
  · exact h b
  · exact h b

end BytesCounted

end AsyncPort

/-! ## The ledger -/

/-- What became of a frame that the run loop took. -/
inductive Fate where
  | pending
  | queued (b : Nat)
  | released
  deriving DecidableEq, Repr

/-- A frame that the run loop took, with its number if it got one. -/
structure Taken where
  frame : Bytes
  seq : Option Nat
  fate : Fate
  deriving DecidableEq, Repr

/-- The frame as it is sent. -/
def Taken.numbered (t : Taken) : Option VPNFrame := t.seq.map fun seq => ⟨seq, t.frame⟩

/-- A numbered frame with its fate. -/
def Taken.of (fate : Fate) (vf : VPNFrame) : Taken := ⟨vf.data, some vf.seq, fate⟩

/-- A frame released without a number. -/
def Taken.unnumbered (frame : Bytes) : Taken := ⟨frame, none, .released⟩

/-- The port with its history since the last reset. -/
structure Ledger where
  port : AsyncPort
  /-- The frames that entered the input queue, those that were in it at the reset first. -/
  accepted : List Bytes
  /-- The frames refused at the entrance of the input queue. -/
  overflow : Nat
  /-- The records dropped. -/
  lostRecords : Nat
  /-- The number of batches handed to each backend before the reset. -/
  base : Nat → Nat
  /-- The drop counter at the reset. -/
  droppedBefore : Nat

namespace Ledger

/-- Nothing has been written to the port. -/
def new : Ledger :=
  { port := .new
    accepted := []
    overflow := 0
    lostRecords := 0
    base := fun _ => 0
    droppedBefore := 0 }

/-- The ledger after a step of the port. -/
def note (l : Ledger) (action : AsyncPort.Action) (port : AsyncPort) : Ledger :=
  match action with
  | .write frame =>
    if l.port.ch.length < inputCapacity then { l with port, accepted := l.accepted ++ [frame] }
    else { l with port, overflow := l.overflow + 1 }
  | .dispatch choice =>
    if l.port.backends = [] then { l with port }
    else
      { l with
        port
        lostRecords := l.lostRecords + (port.dropped - (l.port.sentBatch choice).dropped) }
  | .reset _ _ =>
    { port
      accepted := port.ch
      overflow := 0
      lostRecords := 0
      base := fun b => (port.stream b).length
      droppedBefore := port.dropped }
  | _ => { l with port }

/-- A step of the port, noted in the ledger. -/
def step (l : Ledger) (action : AsyncPort.Action) : Option Ledger :=
  (l.port.step action).map (l.note action)

/-- The batches handed to a backend since the reset. -/
def since (l : Ledger) (b : Nat) : List (List VPNFrame) := (l.port.stream b).drop (l.base b)

/-- The data frames handed to a backend since the reset. -/
def data (l : Ledger) (b : Nat) : List VPNFrame :=
  (l.since b).flatten.filter fun vf => vf.seq ≠ 0

end Ledger

/-- The frames in the input queue that the loop will not just release. -/
def AsyncPort.input (p : AsyncPort) : List Bytes := p.ch.filter (· ≠ [])

/-- The frame that waits for a slot. -/
def RunPhase.held : RunPhase → List Taken
  | .waiting frame => [⟨frame, none, .pending⟩]
  | .idle | .filling => []

/-- The frames in the hands of the loop: one that waits for a slot, or those of the batch. -/
def AsyncPort.inHand (p : AsyncPort) : List Taken :=
  p.phase.held ++ p.batch.map (Taken.of .pending)

namespace Ledger

/-- Every frame that the loop took since the reset has one fate. The frames are those that entered
the input queue, in order; the numbered ones are the frames numbered; those queued on a backend are
its data; and the released ones are what the drop counter has counted apart from the entrance and
the records. -/
structure Conserved (l : Ledger) (taken : List Taken) : Prop where
  frames_eq : l.accepted.filter (· ≠ []) = taken.map (·.frame) ++ l.port.input
  numbered_eq : taken.filterMap Taken.numbered = l.port.assigned
  queued_eq : ∀ b,
    l.data b = (taken.filter fun t => t.fate = .queued b).filterMap Taken.numbered
  queued_numbered : ∀ t ∈ taken, ∀ b, t.fate = .queued b → t.seq ≠ none
  pending_eq : (taken.filter fun t => t.fate = .pending) = l.port.inHand
  dropped_eq : l.port.dropped = l.droppedBefore + l.overflow + l.lostRecords +
    (taken.filter fun t => t.fate = .released).length

/-- The same in the order of the loop: the frames it is done with, those in its hands, and those
that it refused a number while the batch was filled. -/
structure Books (l : Ledger) (settled refused : List Taken) : Prop where
  frames_eq : l.accepted.filter (· ≠ []) =
    (settled ++ l.port.inHand ++ refused).map (·.frame) ++ l.port.input
  numbered_eq : settled.filterMap Taken.numbered ++ l.port.batch = l.port.assigned
  queued_eq : ∀ b,
    l.data b = (settled.filter fun t => t.fate = .queued b).filterMap Taken.numbered
  settled_ne : ∀ t ∈ settled, t.fate ≠ .pending
  queued_numbered : ∀ t ∈ settled, ∀ b, t.fate = .queued b → t.seq ≠ none
  refused_eq : ∀ t ∈ refused, t.seq = none ∧ t.fate = .released
  refused_last : refused ≠ [] → l.port.txSeq = maxUint32
  dropped_eq : l.port.dropped = l.droppedBefore + l.overflow + l.lostRecords +
    (settled.filter fun t => t.fate = .released).length + refused.length
  base_le : ∀ b, l.base b ≤ (l.port.stream b).length

end Ledger

end TlsVpn.Port
