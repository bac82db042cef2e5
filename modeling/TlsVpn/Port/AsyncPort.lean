import Mathlib.Logic.Function.Basic
import TlsVpn.Fec.Encoder

/-!
# The sending port

Translation of `AsyncPort`. Frames are written to an input queue; the run loop takes them out,
numbers them and hands batches of them to one of the registered backends, the queues of the physical
connections. With FEC the loop also feeds the encoder, sends its parity records as single-frame
batches, and puts the newest FEC_MODE control in front of the first batch on each backend.

The run loop is cut at the points where other goroutines interleave: between taking a frame and
getting a slot, between numbering and dispatching, and between dispatches. A dispatch holds the lock
of the backend list, so nothing registers during it, but the writers of the connections go on
emptying queues; which ones do so between two passes of the send loop, and which backends the
scheduler picks, are arguments of the step. Statistics counters of the port are left out.

`assigned` and `parities` are history variables: the frames numbered and the records emitted since
the last reset. No function of the port reads them.
-/

namespace TlsVpn.Port

open Lib Crypto Fec

/-- The state of a backend and of the writer of its connection. -/
structure Backend where
  /-- The backend has been registered at some time. -/
  created : Bool
  queue : List (List VPNFrame)
  capacity : Nat
  /-- The batches the writer has taken out of the queue, in order. -/
  taken : List (List VPNFrame)
  /-- How many of the batches taken have been written to the connection. -/
  completed : Nat
  queuedBytes : Nat
  fecFenceGen : Nat

/-- A backend before its registration. -/
def Backend.absent : Backend :=
  { created := false
    queue := []
    capacity := 0
    taken := []
    completed := 0
    queuedBytes := 0
    fecFenceGen := 0 }

/-- A backend when it is registered. -/
def Backend.fresh (capacity : Nat) : Backend := { Backend.absent with created := true, capacity }

/-- Another batch fits. -/
def Backend.QueueHasRoom (b : Backend) : Prop := 0 < b.capacity ∧ b.queue.length < b.capacity

instance (b : Backend) : Decidable b.QueueHasRoom := inferInstanceAs (Decidable (_ ∧ _))

/-- Where the run loop stands. -/
inductive RunPhase where
  | idle
  | waiting (frame : Bytes)
  | filling
  deriving DecidableEq, Repr

/-- The port, with its run loop and its backends. -/
structure AsyncPort where
  ch : List Bytes
  backends : List Nat
  backend : Nat → Backend
  encoder : Option FecEncoder
  txSeq : Nat
  exhausted : Bool
  dropped : Nat
  phase : RunPhase
  batch : List VPNFrame
  assigned : List VPNFrame
  parities : List Bytes

/-- The capacity of the input queue. -/
def inputCapacity : Nat := 4096

/-- A batch of this size is not extended. -/
def maxBatchBytes : Nat := 12288

/-- The bytes of a batch. -/
def batchBytes (frames : List VPNFrame) : Nat := (frames.map (·.data.length)).sum

/-- The scheduler's choices in one dispatch: the backend for the data, the backends whose writers
take a batch before each further pass, and for each record the writers that run before it and its
backend. -/
structure Choice where
  best : Nat
  rounds : List (List Nat)
  parity : List (List Nat × Nat)
  deriving DecidableEq, Repr

namespace AsyncPort

/-- A port without backends. -/
def new : AsyncPort :=
  { ch := []
    backends := []
    backend := fun _ => .absent
    encoder := none
    txSeq := 0
    exhausted := false
    dropped := 0
    phase := .idle
    batch := []
    assigned := []
    parities := [] }

/-- Writes the state of a backend. -/
def setBackend (p : AsyncPort) (b : Nat) (state : Backend) : AsyncPort :=
  { p with backend := Function.update p.backend b state }

/-- Frames are counted as dropped. -/
def dropN (p : AsyncPort) (n : Nat) : AsyncPort := { p with dropped := p.dropped + n }

/-! ## Input and registration -/

/-- A frame that finds the queue full is dropped. -/
def writeOwnedFrame (p : AsyncPort) (frame : Bytes) : AsyncPort :=
  if p.ch.length < inputCapacity then { p with ch := p.ch ++ [frame] } else p.dropN 1

/-- The backend of a new connection. -/
def registerOwnedBackend (p : AsyncPort) (b capacity : Nat) : AsyncPort :=
  { p.setBackend b (.fresh capacity) with backends := p.backends ++ [b] }

/-- The writer keeps what is in its queue. -/
def unregisterOwnedBackend (p : AsyncPort) (b : Nat) : AsyncPort :=
  { p with backends := p.backends.erase b }

/-- The writer of a connection takes the next batch out of its queue. -/
def drain (p : AsyncPort) (b : Nat) : AsyncPort :=
  match (p.backend b).queue with
  | [] => p
  | batch :: rest =>
    p.setBackend b { p.backend b with queue := rest, taken := (p.backend b).taken ++ [batch] }

/-- The writer has written the batches it took since the last write and completes their bytes. -/
def complete (p : AsyncPort) (b : Nat) : AsyncPort :=
  let state := p.backend b
  p.setBackend b
    { state with
      completed := state.taken.length
      queuedBytes :=
        state.queuedBytes - ((state.taken.drop state.completed).map batchBytes).sum }

/-- Several writers take a batch. -/
def drainAll (p : AsyncPort) (bs : List Nat) : AsyncPort := bs.foldl drain p

/-! ## The run loop up to the dispatch -/

/-- The next sequence number, none once the space is exhausted. -/
def nextSeq (p : AsyncPort) : AsyncPort × Option Nat :=
  if p.txSeq = maxUint32 then ({ p with exhausted := true }, none)
  else ({ p with txSeq := p.txSeq + 1 }, some (p.txSeq + 1))

/-- Number a frame and add it to the batch, or drop it. -/
def number (p : AsyncPort) (frame : Bytes) : AsyncPort :=
  match p.nextSeq with
  | (p, none) => p.dropN 1
  | (p, some seq) =>
    { p with
      batch := p.batch ++ [⟨seq, frame⟩]
      assigned := p.assigned ++ [⟨seq, frame⟩]
      phase := .filling }

/-- Take the next input frame. An empty one is released. -/
def takeFrame (p : AsyncPort) : Option AsyncPort :=
  match p.phase, p.ch with
  | .idle, frame :: rest =>
    if frame = [] then some { p with ch := rest }
    else some { p with ch := rest, phase := .waiting frame }
  | _, _ => none

/-- The answer of `waitForBackendSlot`, none while it keeps polling. -/
def waitForBackendSlot (p : AsyncPort) : Option Bool :=
  if p.backends = [] then some false
  else if ∃ b ∈ p.backends, (p.backend b).QueueHasRoom then some true
  else none

/-- The loop leaves `waitForBackendSlot` with its frame. -/
def gotSlot (p : AsyncPort) : Option AsyncPort :=
  match p.phase with
  | .waiting frame =>
    match p.waitForBackendSlot with
    | none => none
    | some false => some { p.dropN 1 with phase := .idle }
    | some true => some ({ p with phase := .idle }.number frame)
  | _ => none

/-- Take one more frame into the batch. -/
def fill (p : AsyncPort) : Option AsyncPort :=
  match p.phase, p.ch with
  | .filling, frame :: rest =>
    if batchBytes p.batch < maxBatchBytes then
      if frame = [] then some { p with ch := rest } else some ({ p with ch := rest }.number frame)
    else none
  | _, _ => none

/-! ## Dispatch -/

/-- The control that has to go in front of the next batch on a backend. -/
def fence (p : AsyncPort) (b : Nat) : Option FecModeControl :=
  (p.encoder.bind (·.currentModeControl)).filter
    (fun c => (p.backend b).fecFenceGen < c.generation)

/-- Queue a batch on a backend, behind the pending control if there is one. -/
def trySend (p : AsyncPort) (b : Nat) (batch : List VPNFrame) : Option AsyncPort :=
  let state := p.backend b
  if ¬ state.QueueHasRoom then none
  else
    match p.fence b with
    | none =>
      some (p.setBackend b
        { state with
          queue := state.queue ++ [batch]
          queuedBytes := state.queuedBytes + batchBytes batch })
    | some ctrl =>
      let fenced := ⟨0, appendFECModeControl [] ctrl⟩ :: batch
      some (p.setBackend b
        { state with
          queue := state.queue ++ [fenced]
          queuedBytes := state.queuedBytes + batchBytes fenced
          fecFenceGen := ctrl.generation })

/-- One pass over the backends, the preferred one first. -/
def tryAll (p : AsyncPort) (best : Nat) (batch : List VPNFrame) : Option AsyncPort :=
  (best :: p.backends.filter (· ≠ best)).findSome? (fun b => p.trySend b batch)

/-- Pass over the backends until one takes the batch; after the last pass the batch is dropped. -/
def sendOwnedBatchToAnyFenced (p : AsyncPort) (best : Nat) (batch : List VPNFrame) :
    List (List Nat) → AsyncPort
  | [] => (p.tryAll best batch).getD (p.dropN batch.length)
  | drains :: rest =>
    match p.tryAll best batch with
    | some sent => sent
    | none => (p.drainAll drains).sendOwnedBatchToAnyFenced best batch rest

/-- Queue one record on a backend, or drop it if the queue is full. -/
def sendOwnedFrameTo (p : AsyncPort) (b : Nat) (vf : VPNFrame) : AsyncPort :=
  let state := p.backend b
  if state.QueueHasRoom then
    p.setBackend b
      { state with
        queue := state.queue ++ [[vf]]
        queuedBytes := state.queuedBytes + vf.data.length }
  else p.dropN 1

/-- Send the records of a batch, each to the backend picked for it. With fewer than two backends
they are released. -/
def sendParities (p : AsyncPort) : List (Bytes × List Nat × Nat) → AsyncPort
  | [] => p
  | (par, drains, target) :: rest =>
    (if p.backends.length < 2 then p
      else (p.drainAll drains).sendOwnedFrameTo target ⟨0, par⟩).sendParities rest

/-- Tell the encoder the number of backends, feed it the batch and keep its records. -/
def encode (p : AsyncPort) : AsyncPort × List Bytes :=
  match p.encoder with
  | none => (p, [])
  | some e =>
    let (fed, parities) := (e.setPhysicalPathCount p.backends.length).addAll p.batch
    ({ p with encoder := some fed, parities := p.parities ++ parities }, parities)

/-- Hand the batch to the backends. Without a backend its frames are dropped and the encoder does
not see them. -/
def dispatchOwnedBatch (p : AsyncPort) (choice : Choice) : AsyncPort :=
  let cleared := { p with batch := [], phase := .idle }
  if p.backends = [] then cleared.dropN p.batch.length
  else
    let (encoded, parities) := p.encode
    let sent := { encoded with batch := [], phase := .idle }.sendOwnedBatchToAnyFenced
      choice.best p.batch choice.rounds
    sent.sendParities (parities.zip choice.parity)

/-- Start a new sequence epoch, with an encoder if the group size asks for one. -/
def resetEpoch (p : AsyncPort) (k : Nat) (ic : Option InnerCipher) : AsyncPort :=
  { p with
    txSeq := 0
    exhausted := false
    encoder := if fecMinGroup ≤ k then some (FecEncoder.new k ic) else none
    backend := fun b =>
      if b ∈ p.backends then { p.backend b with fecFenceGen := 0 } else p.backend b
    assigned := []
    parities := [] }

/-! ## Steps -/

/-- The steps of the run loop, the writers and the sessions. -/
inductive Action where
  | write (frame : Bytes)
  | register (b capacity : Nat)
  | unregister (b : Nat)
  | drain (b : Nat)
  | complete (b : Nat)
  | takeFrame
  | gotSlot
  | fill
  | dispatch (choice : Choice)
  | reset (k : Nat) (ic : Option InnerCipher)

/-- The scheduler picks registered backends, one for the data and one for every record. -/
def Picks (p : AsyncPort) (choice : Choice) : Prop :=
  p.backends ≠ [] →
    choice.best ∈ p.backends ∧ (∀ entry ∈ choice.parity, entry.2 ∈ p.backends) ∧
      p.encode.2.length ≤ choice.parity.length

instance (p : AsyncPort) (choice : Choice) : Decidable (p.Picks choice) :=
  inferInstanceAs (Decidable (_ ≠ _ → _ ∧ _ ∧ _))

/-- One step of the port. A backend is registered once, a batch is dispatched when it has been
started, and a reset waits for the loop to be idle. -/
def step (p : AsyncPort) : Action → Option AsyncPort
  | .write frame => some (p.writeOwnedFrame frame)
  | .register b capacity =>
    if (p.backend b).created then none else some (p.registerOwnedBackend b capacity)
  | .unregister b => some (p.unregisterOwnedBackend b)
  | .drain b => some (p.drain b)
  | .complete b => some (p.complete b)
  | .takeFrame => p.takeFrame
  | .gotSlot => p.gotSlot
  | .fill => p.fill
  | .dispatch choice =>
    if p.phase = .filling ∧ p.Picks choice then some (p.dispatchOwnedBatch choice) else none
  | .reset k ic => if p.phase = .idle then some (p.resetEpoch k ic) else none

end AsyncPort

end TlsVpn.Port
