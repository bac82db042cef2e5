import Mathlib.Logic.Function.Basic
import TlsVpn.Lib.Bytes
import TlsVpn.Lib.Run

/-!
# The reorder buffer

The sequencing state of `ReorderBuffer` (`buffer.go`) with the operations of both receive modes:
the mutex-protected `Insert`/`InsertBatch`/`timeoutWorker` and the actor-owned
`InsertActorBuffered`/`FlushActor`/`ExpireGapActor` of `rx_actor.go`. Sequence numbers are 32-bit
words, the ring is a map from slot indices to frames together with its length, and the chain of
fixed-size chunks in which ordered frames wait for delivery is the list `pending`. A time is a
number of nanoseconds.

`Receiver` adds the list of frames handed to the delivery goroutine since the last reset, and
`Receiver.step` runs one call. The queue between that hand-over and the TAP device, which drops
whole batches when it is full, is not part of this model.
-/

namespace TlsVpn.Reorder

open Lib Function

/-- `ReorderWindowSize`: the number of slots of a new ring. -/
def reorderWindowSize : Nat := 2048

/-- `ReorderMaxWindowSize`: the largest number of slots a ring may grow to. -/
def reorderMaxWindowSize : Nat := 65536

/-- `reorderSkipDelay`: 50 ms. -/
def reorderSkipDelay : Nat := 50000000

/-- The mutable fields of `ReorderBuffer`. A slot is occupied when `ring` holds a frame there;
`expectedSeq = 0` stands for a buffer that has seen no frame since it was reset. -/
structure ReorderBuffer (Frame : Type) where
  expectedSeq : Nat
  ring : Nat → Option Frame
  seqSlots : Nat → Nat
  ringLen : Nat
  buffered : Nat
  pending : List Frame
  gapSince : Option Nat
  gapEvents : Nat
  timeoutFlushes : Nat
  skippedFrames : Nat
  shutting : Bool

namespace ReorderBuffer

variable {Frame : Type}

/-- `newReorderBuffer` and `newActorReorderBuffer`: an empty ring of the initial size. -/
def new : ReorderBuffer Frame where
  expectedSeq := 0
  ring := fun _ => none
  seqSlots := fun _ => 0
  ringLen := reorderWindowSize
  buffered := 0
  pending := []
  gapSince := none
  gapEvents := 0
  timeoutFlushes := 0
  skippedFrames := 0
  shutting := false

/-- `windowMask`, always set together with the ring. -/
def windowMask (rb : ReorderBuffer Frame) : Nat := rb.ringLen - 1

/-- The slot of a sequence number. -/
def slot (rb : ReorderBuffer Frame) (seq : Nat) : Nat := seq &&& rb.windowMask

/-- `refreshGapLocked`: start the gap timer when a future frame waits behind an empty expected
slot, and stop it when none does. The flag says whether the timer goroutine must wake. -/
def refreshGapLocked (rb : ReorderBuffer Frame) (now : Nat) : ReorderBuffer Frame × Bool :=
  let hasGap := 0 < rb.buffered ∧ rb.expectedSeq ≠ 0 ∧ (rb.ring (rb.slot rb.expectedSeq)).isNone
  if hasGap then
    if rb.gapSince.isNone then
      ({ rb with gapSince := some now, gapEvents := rb.gapEvents + 1 }, true)
    else (rb, false)
  else if rb.gapSince.isSome then ({ rb with gapSince := none }, true)
  else (rb, false)

/-- One round of the loop of `drainLocked`: the frame of the expected slot moves to `pending` and
the expected sequence number advances. -/
def takeExpected (rb : ReorderBuffer Frame) (frame : Frame) : ReorderBuffer Frame :=
  let idx := rb.slot rb.expectedSeq
  { rb with
    pending := rb.pending ++ [frame]
    ring := update rb.ring idx none
    seqSlots := update rb.seqSlots idx 0
    buffered := rb.buffered - 1
    expectedSeq := add32 rb.expectedSeq 1 }

/-- The loop of `drainLocked`: take frames until the expected slot is empty. The stored sequence
number is not compared. Every round empties a slot, so `ringLen` rounds are enough
(`drain_loop_stops`). -/
def drainLoop : Nat → ReorderBuffer Frame → ReorderBuffer Frame
  | 0, rb => rb
  | fuel + 1, rb =>
    match rb.ring (rb.slot rb.expectedSeq) with
    | none => rb
    | some frame => drainLoop fuel (rb.takeExpected frame)

/-- `drainLocked`. -/
def drainLocked (rb : ReorderBuffer Frame) (now : Nat) : ReorderBuffer Frame × Bool :=
  let hadGap := rb.gapSince.isSome
  let drained := drainLoop rb.ringLen { rb with gapSince := none }
  let refreshed := drained.refreshGapLocked now
  (refreshed.1, hadGap || refreshed.2)

/-- The doubling loop of `growWindowLocked`; a ring of at least one slot doubles at most sixteen
times before it reaches the largest size. -/
def growSize (requiredDistance : Nat) : Nat → Nat → Nat
  | 0, size => size
  | fuel + 1, size =>
    if size ≤ requiredDistance ∧ size < reorderMaxWindowSize then
      growSize requiredDistance fuel (2 * size)
    else size

/-- Rehash the occupied slots of a ring of `oldLen` slots into a ring of `newLen` slots, in slot
order, as the copying loop of `growWindowLocked` does. -/
def rehash (rb : ReorderBuffer Frame) (newLen : Nat) :
    Nat → (Nat → Option Frame) × (Nat → Nat)
  | 0 => (fun _ => none, fun _ => 0)
  | i + 1 =>
    let (newRing, newSeqs) := rehash rb newLen i
    match rb.ring i with
    | none => (newRing, newSeqs)
    | some frame =>
      let seq := rb.seqSlots i
      let idx := seq &&& (newLen - 1)
      (update newRing idx (some frame), update newSeqs idx seq)

/-- `growWindowLocked`; `none` is the result `false`. -/
def growWindowLocked (rb : ReorderBuffer Frame) (requiredDistance : Nat) :
    Option (ReorderBuffer Frame) :=
  if reorderMaxWindowSize ≤ rb.ringLen then none
  else
    let newSize := min (growSize requiredDistance 16 rb.ringLen) reorderMaxWindowSize
    if newSize ≤ requiredDistance then none
    else
      let (newRing, newSeqs) := rb.rehash newSize rb.ringLen
      some { rb with ring := newRing, seqSlots := newSeqs, ringLen := newSize }

/-- The window check of `insertLocked`: a distance beyond the ring makes it grow, and `none` says
that the frame is dropped. -/
def widen (rb : ReorderBuffer Frame) (diff : Nat) : Option (ReorderBuffer Frame) :=
  if rb.ringLen ≤ diff then
    if reorderMaxWindowSize ≤ diff then none else rb.growWindowLocked (add32 diff 1)
  else some rb

/-- Put a frame into the slot of its sequence number. -/
def store (rb : ReorderBuffer Frame) (seq : Nat) (frame : Frame) : ReorderBuffer Frame :=
  { rb with
    ring := update rb.ring (rb.slot seq) (some frame)
    seqSlots := update rb.seqSlots (rb.slot seq) seq
    buffered := rb.buffered + 1 }

/-- The second half of `insertLocked`: store the frame unless its slot is taken, by the same
sequence number or by another one, and drain when it is the expected one. -/
def place (rb : ReorderBuffer Frame) (now seq : Nat) (frame : Frame) :
    ReorderBuffer Frame × Bool :=
  match rb.ring (rb.slot seq) with
  | some _ => (rb, false)
  | none =>
    if seq = rb.expectedSeq then (rb.store seq frame).drainLocked now
    else (rb.store seq frame).refreshGapLocked now

/-- The first assignment of `insertLocked`: an uninitialised buffer starts at the sequence number
that arrives. -/
def adopt (rb : ReorderBuffer Frame) (seq : Nat) : ReorderBuffer Frame :=
  if rb.expectedSeq = 0 then { rb with expectedSeq := seq } else rb

/-- `insertLocked` after the first assignment: drop a frame that is too old or too far ahead, and
place every other one. -/
def insertInWindow (rb : ReorderBuffer Frame) (now seq : Nat) (frame : Frame) :
    ReorderBuffer Frame × Bool :=
  if negative32 (sub32 seq rb.expectedSeq) then (rb, false)
  else
    match rb.widen (sub32 seq rb.expectedSeq) with
    | none => (rb, false)
    | some wide => wide.place now seq frame

/-- `insertLocked`. -/
def insertLocked (rb : ReorderBuffer Frame) (now seq : Nat) (frame : Frame) :
    ReorderBuffer Frame × Bool :=
  (rb.adopt seq).insertInWindow now seq frame

/-- The buffer that `insertLocked` leaves behind. -/
def inserted (rb : ReorderBuffer Frame) (now seq : Nat) (frame : Frame) : ReorderBuffer Frame :=
  (rb.insertLocked now seq frame).1

/-- `takePendingLocked`: the collected frames and the buffer without them. -/
def takePendingLocked (rb : ReorderBuffer Frame) : List Frame × ReorderBuffer Frame :=
  (rb.pending, { rb with pending := [] })

/-- `releaseRingLocked`: free every slot. -/
def releaseRingLocked (rb : ReorderBuffer Frame) : ReorderBuffer Frame :=
  { rb with
    ring := fun _ => none
    seqSlots := fun i => if (rb.ring i).isSome then 0 else rb.seqSlots i
    buffered := 0 }

/-- `Reset` and `ResetActor`: pending frames are freed without being delivered. -/
def reset (rb : ReorderBuffer Frame) : ReorderBuffer Frame :=
  { rb.releaseRingLocked with pending := [], expectedSeq := 0, gapSince := none }

/-- `Close`. -/
def close (rb : ReorderBuffer Frame) : ReorderBuffer Frame :=
  { rb.releaseRingLocked with pending := [], shutting := true }

/-- The distance from the expected slot to the first occupied one, as the loops of
`timeoutWorker` and `ExpireGapActor` search it. -/
def skipDistance (rb : ReorderBuffer Frame) : Option Nat :=
  (List.range' 1 (rb.ringLen - 1)).find? fun i =>
    (rb.ring (rb.slot (add32 rb.expectedSeq i))).isSome

/-- Move the expected sequence number over `skipped` lost frames. -/
def skipTo (rb : ReorderBuffer Frame) (skipped : Nat) : ReorderBuffer Frame :=
  { rb with
    expectedSeq := add32 rb.expectedSeq skipped
    gapSince := none
    timeoutFlushes := rb.timeoutFlushes + 1
    skippedFrames := rb.skippedFrames + skipped }

/-- The gap is old enough: the expected slot is empty and there is a frame behind it. Otherwise
`timeoutWorker` and `ExpireGapActor` go no further. -/
def GapDue (rb : ReorderBuffer Frame) (now : Nat) : Prop :=
  (∃ since ∈ rb.gapSince, since + reorderSkipDelay ≤ now) ∧ rb.buffered ≠ 0 ∧
    rb.expectedSeq ≠ 0 ∧ ¬ (rb.ring (rb.slot rb.expectedSeq)).isSome = true

instance (rb : ReorderBuffer Frame) (now : Nat) : Decidable (rb.GapDue now) :=
  inferInstanceAs (Decidable (_ ∧ _ ∧ _ ∧ _))

/-- The skip step that `timeoutWorker` and `ExpireGapActor` share: once the gap is old enough,
move the expected sequence number to the first buffered frame and drain from there. -/
def skipGap (rb : ReorderBuffer Frame) (now : Nat) : ReorderBuffer Frame :=
  if rb.GapDue now then
    match rb.skipDistance with
    | none => { rb with gapSince := none }
    | some skipped => ((rb.skipTo skipped).drainLocked now).1
  else rb

/-- `InsertActorBuffered`. -/
def insertActorBuffered (rb : ReorderBuffer Frame) (now seq : Nat) (frame : Frame) :
    ReorderBuffer Frame :=
  if seq = 0 ∨ rb.shutting then rb else rb.inserted now seq frame

end ReorderBuffer

/-- A reorder buffer with the frames it has handed to delivery since its last reset. -/
structure Receiver (Frame : Type) where
  buffer : ReorderBuffer Frame
  delivered : List Frame

/-- One call on the buffer, in either receive mode. -/
inductive Call (Frame : Type) where
  | insert (now seq : Nat) (frame : Frame)
  | insertActorBuffered (now seq : Nat) (frame : Frame)
  | flushActor
  | expireGapActor (now : Nat)
  | timeoutSkip (now : Nat)
  | reset
  | close

namespace Receiver

variable {Frame : Type}

/-- A new buffer that has delivered nothing. -/
def new : Receiver Frame := ⟨.new, []⟩

/-- `deliver(takePendingLocked())`: hand the collected frames to the delivery goroutine. -/
def deliver (r : Receiver Frame) : Receiver Frame :=
  ⟨r.buffer.takePendingLocked.2, r.delivered ++ r.buffer.takePendingLocked.1⟩

/-- `InsertActorBuffered`: insert without delivering. -/
def insertActorBuffered (r : Receiver Frame) (now seq : Nat) (frame : Frame) : Receiver Frame :=
  { r with buffer := r.buffer.insertActorBuffered now seq frame }

/-- `Insert`: a control sequence number or a closed buffer only frees the frame. -/
def insert (r : Receiver Frame) (now seq : Nat) (frame : Frame) : Receiver Frame :=
  if seq = 0 ∨ r.buffer.shutting then r
  else { r with buffer := r.buffer.inserted now seq frame }.deliver

/-- `InsertBatch` and `InsertBatchActor`: insert every frame, each at its own time, and deliver
once. -/
def insertBatch (r : Receiver Frame) (frames : List (Nat × Nat × Frame)) : Receiver Frame :=
  if frames = [] ∨ r.buffer.shutting then r
  else (frames.foldl (fun r f => r.insertActorBuffered f.1 f.2.1 f.2.2) r).deliver

/-- The round of `timeoutWorker` after its timer, and the rest of `ExpireGapActor`. The frames that
the skip step releases are delivered at once, and nothing is without it. -/
def skip (r : Receiver Frame) (now : Nat) : Receiver Frame :=
  if r.buffer.GapDue now then { r with buffer := r.buffer.skipGap now }.deliver else r

/-- One call. `ExpireGapActor` returns early on a closed buffer. -/
def step (r : Receiver Frame) : Call Frame → Option (Receiver Frame)
  | .insert now seq frame => some (r.insert now seq frame)
  | .insertActorBuffered now seq frame => some (r.insertActorBuffered now seq frame)
  | .flushActor => some r.deliver
  | .expireGapActor now =>
    if r.buffer.shutting then some r else some (r.skip now)
  | .timeoutSkip now => some (r.skip now)
  | .reset => some ⟨r.buffer.reset, []⟩
  | .close => some { r with buffer := r.buffer.close }

/-- What holds of a receiver and of what the skip step makes of it holds after the call. -/
theorem skip_spec (r : Receiver Frame) {now : Nat} {P : Receiver Frame → Prop} (hearly : P r)
    (hskip : P { r with buffer := r.buffer.skipGap now }.deliver) : P (r.skip now) := by
  unfold skip
  split
  · exact hskip
  · exact hearly

/-- A call keeps what the insertion, the delivery, the skip step and the two ways to empty the
buffer keep. -/
theorem step_rule {P : Receiver Frame → Prop} {r r' : Receiver Frame} {call : Call Frame} (h : P r)
    (hinsert : ∀ now seq frame,
      call = .insert now seq frame ∨ call = .insertActorBuffered now seq frame →
      ¬ (seq = 0 ∨ r.buffer.shutting = true) →
      P { r with buffer := r.buffer.inserted now seq frame })
    (hdeliver : ∀ r, P r → P r.deliver) (hskip : ∀ now, P { r with buffer := r.buffer.skipGap now })
    (hreset : call = .reset → P ⟨r.buffer.reset, []⟩)
    (hclose : call = .close → P { r with buffer := r.buffer.close })
    (hstep : r.step call = some r') : P r' := by
  cases call with
  | insert now seq frame =>
    cases hstep
    unfold insert
    split
    · exact h
    · rename_i hopen
      exact hdeliver _ (hinsert now seq frame (.inl rfl) hopen)
  | insertActorBuffered now seq frame =>
    cases hstep
    unfold insertActorBuffered ReorderBuffer.insertActorBuffered
    split
    · exact h
    · rename_i hopen
      exact hinsert now seq frame (.inr rfl) hopen
  | flushActor =>
    cases hstep
    exact hdeliver r h
  | expireGapActor now =>
    simp only [step] at hstep
    split at hstep
    · cases hstep
      exact h
    · cases hstep
      exact r.skip_spec h (hdeliver _ (hskip now))
  | timeoutSkip now =>
    cases hstep
    exact r.skip_spec h (hdeliver _ (hskip now))
  | reset =>
    cases hstep
    exact hreset rfl
  | close =>
    cases hstep
    exact hclose rfl

/-- The call takes from the ring what the skip step takes. -/
theorem buffered_skip (r : Receiver Frame) (now : Nat) :
    (r.skip now).buffer.buffered = (r.buffer.skipGap now).buffered := by
  unfold skip ReorderBuffer.skipGap
  split
  · rfl
  · rfl

end Receiver

end TlsVpn.Reorder
