import Mathlib.Data.List.Infix
import TlsVpn.Lib.Run

/-!
# Readers of old epochs

A session outlives its epochs: a rotation empties the reorder buffer and the FEC decoder while
readers of the old epoch's connections may still be running. The model has the readers, the session
worker with its queue and generation, and the rotation as the sequence of its writes, for the server
and the client and for both ways of receiving: through the worker, or directly into the buffers.

`no_stale_entry` shows that no frame of an old epoch enters the buffers after their reset, in every
run in which a client's reader starts in the adopted epoch and, without a worker, no reader is on
its way to the buffers when a rotation begins. The server with a worker needs neither.
`late_readers_enter` shows that each of the other three needs its condition.
-/

namespace TlsVpn.Session

open Lib List

/-! ## The model -/

/-- The two ends. -/
inductive Side where
  | server
  | client
  deriving DecidableEq

/-- With one configured connection there is no worker, and the readers call the buffers directly. -/
inductive RxMode where
  | actor
  | direct
  deriving DecidableEq

/-- A batch of this size is flushed. -/
def rxSessionBatchCap : Nat := 16

/-- The room of the worker's queue. -/
def rxSessionQueueDepth : Nat := 256

/-- `rxSessionWork`: a batch of frames of one connection, or the barrier of a rotation. -/
inductive RxSessionWork where
  | batch (generation epoch n : Nat)
  | barrier (epoch : Nat)
  deriving DecidableEq

/-- Where a reader is: `linked` is a connection past its handshake, `captured` has read the pointers
of the session, `holding` has a frame and `checked` may hand it on. Without a worker the decoder
takes the frame before the reorder buffer: `decoded` is between the two. -/
inductive RxStage where
  | linked
  | captured
  | reading
  | holding
  | checked
  | decoded
  deriving DecidableEq

/-- The reader of a connection. With a worker it has a producer: a generation, and the number of
frames in the batch that is not flushed yet. -/
structure RxReader where
  epoch : Nat
  generation : Nat
  pending : Nat
  stage : RxStage
  deriving DecidableEq

/-- What a rotation does, one write at a time. `advance`, `enqueue` and `await` are
`AdvanceEpochAndReset`. -/
inductive RotationPhase where
  | advance
  | enqueue
  | await
  | setEpoch
  | reset
  | unlock
  deriving DecidableEq

/-- A rotation to the epoch `target`. Unless it is unlocked it has `sessionMu`. -/
structure Rotation where
  target : Nat
  todo : List RotationPhase
  locked : Bool
  deriving DecidableEq

/-- A frame of a connection of `epoch` that entered the reorder buffer or the decoder, which had
been reset for `resetFor`. -/
structure RxEntry where
  epoch : Nat
  resetFor : Nat
  deriving DecidableEq

/-- The receiving half of a session. Epochs are numbered in the order of their adoption, and
`resetFor` is the epoch for which the reorder buffer or the decoder was reset last. -/
structure RxState where
  epoch : Nat
  generation : Nat
  resetFor : Nat
  queue : List RxSessionWork
  rotation : Option Rotation
  readers : List RxReader
  entered : List RxEntry

/-- The order of the writes. The server's `rotateSessionEpochLocked` sets the epoch after the worker
has passed the barrier. The client sets it first, and without a worker it resets the decoder with
the lock and the reorder buffer after it. -/
def rotationPhases : Side → RxMode → List RotationPhase
  | .server, .actor => [.advance, .enqueue, .await, .setEpoch]
  | .server, .direct => [.setEpoch, .reset, .reset]
  | .client, .actor => [.setEpoch, .advance, .enqueue, .await]
  | .client, .direct => [.setEpoch, .reset, .unlock, .reset]

/-- What is left of a rotation after a phase, which releases the lock at its end. -/
def Rotation.after (r : Rotation) (phase : RotationPhase) : List RotationPhase → Option Rotation
  | [] => none
  | rest => some { r with todo := rest, locked := r.locked && phase != .unlock }

namespace RxState

/-- An epoch without readers. -/
def new (epoch : Nat) : RxState :=
  { epoch
    generation := 1
    resetFor := epoch
    queue := []
    rotation := none
    readers := []
    entered := [] }

/-- A rotation has `sessionMu`. -/
def locked (s : RxState) : Bool :=
  s.rotation.any (·.locked)

/-- `rxSessionWorker.enqueue`, which waits for room. -/
def enqueue (s : RxState) (work : RxSessionWork) : Option RxState :=
  if s.queue.length < rxSessionQueueDepth then some { s with queue := s.queue ++ [work] } else none

/-- The state after a phase of the rotation. -/
def perform (s : RxState) (r : Rotation) : RotationPhase → Option RxState
  | .advance => some { s with generation := s.generation + 1 }
  | .enqueue => s.enqueue (.barrier r.target)
  | .await => if .barrier r.target ∈ s.queue then none else some s
  | .setEpoch => some { s with epoch := r.target }
  | .reset => some { s with resetFor := r.target }
  | .unlock => some s

/-- The next phase of the rotation. -/
def rotate (s : RxState) : Option RxState :=
  match s.rotation with
  | some ⟨target, phase :: rest, locked⟩ =>
    (s.perform ⟨target, phase :: rest, locked⟩ phase).map fun s' =>
      { s' with rotation := (⟨target, phase :: rest, locked⟩ : Rotation).after phase rest }
  | _ => none

/-- Frames of an epoch enter the buffers. -/
def enter (s : RxState) (epoch n : Nat) : RxState :=
  { s with entered := s.entered ++ List.replicate n ⟨epoch, s.resetFor⟩ }

/-- `rxSessionWorker.process`. A batch of another generation is freed. -/
def process (s : RxState) : RxSessionWork → RxState
  | .barrier epoch => { s with resetFor := epoch }
  | .batch generation epoch n => if generation = s.generation then s.enter epoch n else s

/-- The reader goes on as `r'`. -/
def replace (s : RxState) (r r' : RxReader) : RxState :=
  { s with readers := r' :: s.readers.erase r }

/-- `rxBatchProducer.Flush`, which does nothing without a producer or without frames. -/
def flush (mode : RxMode) (s : RxState) (r : RxReader) : Option RxState :=
  if mode = .direct ∨ r.pending = 0 then some s
  else s.enqueue (.batch r.generation r.epoch r.pending)

/-- The reader returns, and its deferred `Flush` runs. -/
def stop (mode : RxMode) (s : RxState) (r : RxReader) : Option RxState :=
  (s.flush mode r).map fun s' => { s' with readers := s'.readers.erase r }

/-- `rxBatchProducer.Push`, which flushes a full batch. -/
def push (mode : RxMode) (s : RxState) (r : RxReader) : Option RxState :=
  let r' := { r with pending := r.pending + 1, stage := .reading }
  if r'.pending = rxSessionBatchCap then
    (s.flush mode r').map fun s' => s'.replace r { r' with pending := 0 }
  else some (s.replace r r')

/-- The steps of a reader. -/
inductive ReaderAction where
  | capture
  | start
  | readFrame
  | compare
  | push
  | flush
  | onData
  | insert
  | stop
  deriving DecidableEq

/-- One action of a reader. `start` creates the producer and is the start of the client's read loop.
Only the server compares epochs. A reader returns from any point. -/
def readerStep (side : Side) (mode : RxMode) (s : RxState) (r : RxReader) :
    ReaderAction → Option RxState
  | .capture =>
    if r.stage = .linked ∧ s.locked = false then some (s.replace r { r with stage := .captured })
    else none
  | .start =>
    if r.stage = .captured then
      some (s.replace r ⟨r.epoch, s.generation, 0, .reading⟩)
    else none
  | .readFrame =>
    if r.stage = .reading then some (s.replace r { r with stage := .holding }) else none
  | .compare =>
    if r.stage = .holding then
      match side with
      -- the client goes on after the decryption
      | .client => some (s.replace r { r with stage := .checked })
      | .server =>
        if s.locked then none
        -- `sessionMu` is released again before the frame is handed on
        else if r.epoch = s.epoch then some (s.replace r { r with stage := .checked })
        else s.stop mode r
    else none
  | .push => if r.stage = .checked ∧ mode = .actor then s.push mode r else none
  | .flush =>
    if r.stage = .reading then
      (s.flush mode r).map fun s' => s'.replace r { r with pending := 0 }
    else none
  | .onData =>
    if r.stage = .checked ∧ mode = .direct then
      some ((s.enter r.epoch 1).replace r { r with stage := .decoded })
    else none
  | .insert =>
    if (r.stage = .checked ∨ r.stage = .decoded) ∧ mode = .direct then
      some ((s.enter r.epoch 1).replace r { r with stage := .reading })
    else none
  | .stop => s.stop mode r

/-- The steps of a rotation, the worker and the readers. -/
inductive Action where
  | begin (target : Nat)
  | rotate
  | join
  | work
  | reader (r : RxReader) (action : ReaderAction)
  deriving DecidableEq

/-- No connection joins during a rotation. -/
def step (side : Side) (mode : RxMode) (s : RxState) : Action → Option RxState
  | .begin target =>
    if s.rotation = none ∧ s.epoch < target then
      some { s with rotation := some ⟨target, rotationPhases side mode, true⟩ }
    else none
  | .rotate => s.rotate
  | .join =>
    if s.rotation = none then
      some { s with readers := ⟨s.epoch, 0, 0, .linked⟩ :: s.readers }
    else none
  | .work =>
    match s.queue with
    | [] => none
    | work :: rest => some ({ s with queue := rest }.process work)
  | .reader r action => if r ∈ s.readers then s.readerStep side mode r action else none

/-- No frame entered the buffers after a reset for a later epoch. -/
def NoneStale (s : RxState) : Prop :=
  ∀ entry ∈ s.entered, entry.resetFor ≤ entry.epoch

instance (s : RxState) : Decidable s.NoneStale :=
  inferInstanceAs (Decidable (∀ entry ∈ s.entered, _))

end RxState

/-- The reader hands frames on without comparing epochs again: a started reader of a client, and one
of the server that has compared. -/
def RxReader.Passing (r : RxReader) : Side → Prop
  | .server => r.stage = .checked ∨ r.stage = .decoded
  | .client => r.stage ≠ .linked ∧ r.stage ≠ .captured

instance (r : RxReader) : DecidablePred r.Passing
  | .server => inferInstanceAs (Decidable (_ ∨ _))
  | .client => inferInstanceAs (Decidable (_ ∧ _))

namespace RxState

/-- A client's reader starts only in the adopted epoch with no rotation underway, and without a
worker a rotation begins only when no reader is passing frames on. -/
def Calm (side : Side) (mode : RxMode) (s : RxState) : Action → Prop
  | .begin _ => mode = .direct → ∀ r ∈ s.readers, ¬ r.Passing side
  | .reader r .start => side = .client → s.rotation = none ∧ r.epoch = s.epoch
  | _ => True

instance (side : Side) (mode : RxMode) (s : RxState) : DecidablePred (s.Calm side mode)
  | .begin _ => inferInstanceAs (Decidable (mode = .direct → ∀ r ∈ s.readers, ¬ r.Passing side))
  | .rotate | .join | .work => isTrue trivial
  | .reader r .start =>
    inferInstanceAs (Decidable (side = .client → s.rotation = none ∧ r.epoch = s.epoch))
  | .reader _ .capture | .reader _ .readFrame | .reader _ .compare | .reader _ .push
  | .reader _ .flush | .reader _ .onData | .reader _ .insert | .reader _ .stop => isTrue trivial

/-! ## What the generations and the lock guarantee -/

/-- The epoch of the rotation that is underway, or else of the session. -/
def target (s : RxState) : Nat :=
  s.rotation.elim s.epoch (·.target)

/-- A batch of a producer of this generation and epoch is freed, or the buffers are of no later
epoch until the next rotation advances the generation. -/
def Live (s : RxState) (newest generation epoch : Nat) : Prop :=
  generation ≤ s.generation ∧ (generation < s.generation ∨ newest ≤ epoch)

/-- What the frames that a reader hands on rely on. -/
def Safe (mode : RxMode) (s : RxState) (newest generation epoch : Nat) : Prop :=
  match mode with
  | .actor => s.Live newest generation epoch
  | .direct => newest ≤ epoch ∧ s.rotation = none

/-- The rotation follows the phases of its side, and what it has done so far shows in the session.
`newest` is the last epoch that the generation was advanced for or the buffers were reset for. -/
structure Rotating (side : Side) (mode : RxMode) (epoch newest : Nat) (r : Rotation) : Prop where
  todo : r.todo <:+ rotationPhases side mode
  epoch_eq : .setEpoch ∈ r.todo ∨ epoch = r.target
  newest_eq : mode = .actor → .advance ∈ r.todo ∨ newest = r.target
  locked : side = .server → r.locked = true

/-- The invariant of the runs. -/
structure Guarded (side : Side) (mode : RxMode) (s : RxState) (newest : Nat) : Prop where
  noneStale : s.NoneStale
  newest_le : newest ≤ s.target
  resetFor_le : s.resetFor ≤ newest
  barrier_le : ∀ epoch, .barrier epoch ∈ s.queue → epoch ≤ newest
  batch : ∀ generation epoch n, .batch generation epoch n ∈ s.queue →
    mode = .actor ∧ s.Live newest generation epoch
  rotating : ∀ r ∈ s.rotation, Rotating side mode s.epoch newest r
  generation_le : ∀ r ∈ s.readers, r.generation ≤ s.generation
  safe : ∀ r ∈ s.readers, r.Passing side ∨ mode = .actor ∧ 0 < r.pending →
    s.Safe mode newest r.generation r.epoch

theorem Guarded.new (side : Side) (mode : RxMode) (epoch : Nat) :
    (new epoch).Guarded side mode epoch where
  noneStale := by simp [NoneStale, RxState.new]
  newest_le := le_rfl
  resetFor_le := le_rfl
  barrier_le := by simp [RxState.new]
  batch := by simp [RxState.new]
  rotating := by simp [RxState.new]
  generation_le := by simp [RxState.new]
  safe := by simp [RxState.new]

/-! ### The order of the phases -/

section Phases

variable {side : Side} {mode : RxMode} {rest : List RotationPhase}

/-- The generation is advanced before the barrier is queued. -/
theorem advance_before_enqueue (h : .enqueue :: rest <:+ rotationPhases side mode) :
    mode = .actor ∧ .advance ∉ RotationPhase.enqueue :: rest := by
  cases side <;> cases mode <;>
    simp only [rotationPhases, suffix_cons_iff, suffix_nil, List.cons.injEq, reduceCtorEq,
      false_and, true_and, false_or, or_false] at h <;> simp [h]

/-- With a worker a rotation leaves the buffers to it. -/
theorem mode_of_reset (h : .reset :: rest <:+ rotationPhases side mode) : mode = .direct := by
  have hmem := h.subset (mem_cons_self ..)
  cases side <;> cases mode <;> simp [rotationPhases] at hmem ⊢

/-- Only a worker has a generation. -/
theorem mode_of_advance (h : .advance :: rest <:+ rotationPhases side mode) : mode = .actor := by
  have hmem := h.subset (mem_cons_self ..)
  cases side <;> cases mode <;> simp [rotationPhases] at hmem ⊢

/-- The server has the lock to the end. -/
theorem side_of_unlock (h : .unlock :: rest <:+ rotationPhases side mode) : side = .client := by
  have hmem := h.subset (mem_cons_self ..)
  cases side <;> cases mode <;> simp [rotationPhases] at hmem ⊢

end Phases

/-! ### The rotation -/

section Rotation

variable {side : Side} {mode : RxMode} {s s' : RxState} {newest : Nat} {r : Rotation}
  {phase : RotationPhase} {rest : List RotationPhase}

theorem enqueue_eq_some {work : RxSessionWork} (h : s.enqueue work = some s') :
    s' = { s with queue := s.queue ++ [work] } := by
  simp only [enqueue] at h
  split at h
  · exact (Option.some.inj h).symm
  · contradiction

theorem target_eq (hrot : s.rotation = some r) : s.target = r.target := by
  simp [target, hrot]

/-- The rotation goes on to its next phase, or ends in its epoch. -/
theorem Guarded.after (h : s.Guarded side mode newest) (hrot : s.rotation = some r)
    (htodo : rest <:+ rotationPhases side mode) (hunlock : side = .server → phase ≠ .unlock)
    (hepoch : .setEpoch ∈ rest ∨ s.epoch = r.target)
    (hnewest : mode = .actor → .advance ∈ rest ∨ newest = r.target) :
    { s with rotation := r.after phase rest }.Guarded side mode newest := by
  have hold := h.rotating r hrot
  have hle : newest ≤ r.target := target_eq hrot ▸ h.newest_le
  refine ⟨h.noneStale, ?_, h.resetFor_le, h.barrier_le, h.batch, ?_, h.generation_le, ?_⟩
  · cases rest with
    | nil =>
      have hend : s.epoch = r.target := by simpa using hepoch
      simpa [target, Rotation.after, hend] using hle
    | cons next more => simpa [target, Rotation.after] using hle
  · intro r' hr'
    cases rest with
    | nil => simp [Rotation.after] at hr'
    | cons next more =>
      obtain rfl : _ = r' := Option.some.inj hr'
      refine ⟨htodo, hepoch, hnewest, fun hside => ?_⟩
      simp [hold.locked hside, hunlock hside]
  · intro reader hreader hpassing
    have hsafe := h.safe reader hreader hpassing
    cases mode with
    | actor => exact hsafe
    -- the rotation has begun, so that no reader was passing frames on
    | direct => exact absurd hsafe.2 (by simp [hrot])

/-- After the advance every batch so far is of an older generation. -/
theorem Guarded.advance (h : s.Guarded side .actor newest) (hrot : s.rotation = some r) :
    { s with generation := s.generation + 1 }.Guarded side .actor r.target := by
  have hold := h.rotating r hrot
  have hle : newest ≤ r.target := target_eq hrot ▸ h.newest_le
  refine ⟨h.noneStale, (target_eq hrot).ge, h.resetFor_le.trans hle,
    fun epoch hmem => (h.barrier_le epoch hmem).trans hle, ?_, ?_, ?_, ?_⟩
  · intro generation epoch n hmem
    obtain ⟨hmode, hgen, _⟩ := h.batch generation epoch n hmem
    exact ⟨hmode, Nat.le_succ_of_le hgen, .inl (Nat.lt_succ_of_le hgen)⟩
  · intro r' hr'
    obtain rfl := Option.some.inj (hrot.symm.trans hr')
    exact ⟨hold.todo, hold.epoch_eq, fun _ => .inr rfl, hold.locked⟩
  · exact fun reader hreader => Nat.le_succ_of_le (h.generation_le reader hreader)
  · intro reader hreader _
    have hgen := h.generation_le reader hreader
    exact ⟨Nat.le_succ_of_le hgen, .inl (Nat.lt_succ_of_le hgen)⟩

/-- Without a worker the buffers are reset when no reader is passing frames on. -/
theorem Guarded.reset (h : s.Guarded side .direct newest) (hrot : s.rotation = some r) :
    { s with resetFor := r.target }.Guarded side .direct r.target := by
  have hold := h.rotating r hrot
  have hle : newest ≤ r.target := target_eq hrot ▸ h.newest_le
  refine ⟨h.noneStale, (target_eq hrot).ge, le_rfl,
    fun epoch hmem => (h.barrier_le epoch hmem).trans hle, ?_, ?_, h.generation_le, ?_⟩
  · exact fun generation epoch n hmem => absurd (h.batch generation epoch n hmem).1 (by simp)
  · intro r' hr'
    obtain rfl := Option.some.inj (hrot.symm.trans hr')
    exact ⟨hold.todo, hold.epoch_eq, by simp, hold.locked⟩
  · exact fun reader hreader hpassing =>
      absurd (h.safe reader hreader hpassing).2 (by simp [hrot])

theorem Guarded.setEpoch (h : s.Guarded side mode newest) (hrot : s.rotation = some r) :
    { s with epoch := r.target }.Guarded side mode newest := by
  have hold := h.rotating r hrot
  refine ⟨h.noneStale, ?_, h.resetFor_le, h.barrier_le, h.batch, ?_, h.generation_le, h.safe⟩
  · simpa [target, hrot] using h.newest_le
  · intro r' hr'
    obtain rfl := Option.some.inj (hrot.symm.trans hr')
    exact ⟨hold.todo, .inr rfl, hold.newest_eq, hold.locked⟩

/-- New work for the worker: a barrier of no later epoch, or a batch of a live producer. -/
theorem Guarded.enqueue {work : RxSessionWork} (h : s.Guarded side mode newest)
    (hbarrier : ∀ epoch, work = .barrier epoch → epoch ≤ newest)
    (hbatch : ∀ generation epoch n, work = .batch generation epoch n →
      mode = .actor ∧ s.Live newest generation epoch)
    (henqueue : s.enqueue work = some s') : s'.Guarded side mode newest := by
  have hnext := enqueue_eq_some henqueue
  subst hnext
  refine ⟨h.noneStale, h.newest_le, h.resetFor_le, ?_, ?_, h.rotating, h.generation_le, h.safe⟩
  · intro epoch hmem
    rcases mem_append.mp hmem with hmem | hmem
    · exact h.barrier_le epoch hmem
    · exact hbarrier epoch (mem_singleton.mp hmem).symm
  · intro generation epoch n hmem
    rcases mem_append.mp hmem with hmem | hmem
    · exact h.batch generation epoch n hmem
    · exact hbatch generation epoch n (mem_singleton.mp hmem).symm

/-- What a phase does keeps the invariant, for the epoch of the rotation once the generation is
advanced or the buffers are reset. -/
theorem Guarded.perform (h : s.Guarded side mode newest) (hrot : s.rotation = some r)
    (htodo : r.todo = phase :: rest) (hperform : s.perform r phase = some s') :
    s'.rotation = some r ∧ (.setEpoch ∈ rest ∨ s'.epoch = r.target) ∧
      ∃ newest', s'.Guarded side mode newest' ∧
        (mode = .actor → .advance ∈ rest ∨ newest' = r.target) := by
  have hold := h.rotating r hrot
  have hphases := htodo ▸ hold.todo
  -- A phase other than `setEpoch` or `advance` leaves what the rotation knows as it is.
  have hepoch : phase ≠ .setEpoch → .setEpoch ∈ rest ∨ s.epoch = r.target := fun hne => by
    simpa [htodo, hne.symm] using hold.epoch_eq
  have hnewest : phase ≠ .advance → mode = .actor → .advance ∈ rest ∨ newest = r.target :=
    fun hne hmode => by simpa [htodo, hne.symm] using hold.newest_eq hmode
  cases phase with
  | advance =>
    obtain rfl := Option.some.inj hperform
    obtain rfl := mode_of_advance hphases
    exact ⟨hrot, hepoch (by decide), r.target, h.advance hrot, fun _ => .inr rfl⟩
  | enqueue =>
    obtain ⟨hmode, hdone⟩ := advance_before_enqueue hphases
    have heq := (hold.newest_eq hmode).resolve_left (htodo ▸ hdone)
    have hnext := h.enqueue (by simp [heq]) (by simp) hperform
    rw [enqueue_eq_some hperform] at hnext ⊢
    exact ⟨hrot, hepoch (by decide), newest, hnext, fun _ => .inr heq⟩
  | await =>
    simp only [RxState.perform] at hperform
    split at hperform
    · contradiction
    · obtain rfl := Option.some.inj hperform
      exact ⟨hrot, hepoch (by decide), newest, h, hnewest (by decide)⟩
  | setEpoch =>
    obtain rfl := Option.some.inj hperform
    exact ⟨hrot, .inr rfl, newest, h.setEpoch hrot, hnewest (by decide)⟩
  | reset =>
    obtain rfl := Option.some.inj hperform
    obtain rfl := mode_of_reset hphases
    exact ⟨hrot, hepoch (by decide), r.target, h.reset hrot, by simp⟩
  | unlock =>
    obtain rfl := Option.some.inj hperform
    exact ⟨hrot, hepoch (by decide), newest, h, hnewest (by decide)⟩

theorem Guarded.rotate (h : s.Guarded side mode newest) (hrotate : s.rotate = some s') :
    ∃ newest', s'.Guarded side mode newest' := by
  simp only [RxState.rotate] at hrotate
  split at hrotate
  next target phase rest locked hrot =>
    obtain ⟨s₁, hperform, rfl⟩ := Option.map_eq_some_iff.mp hrotate
    have hphases := (h.rotating _ hrot).todo
    obtain ⟨hrot', hepoch, newest', h', hnewest⟩ := h.perform hrot rfl hperform
    refine ⟨newest', h'.after hrot' ?_ ?_ hepoch hnewest⟩
    · exact (suffix_cons phase rest).trans hphases
    · rintro rfl rfl
      exact absurd (side_of_unlock hphases) (by decide)
  next => contradiction

end Rotation

/-! ### The worker and the readers -/

section Readers

variable {side : Side} {mode : RxMode} {s s' : RxState} {newest : Nat} {r r' : RxReader}

theorem Guarded.enter {epoch : Nat} (h : s.Guarded side mode newest) (hle : newest ≤ epoch)
    (n : Nat) : (s.enter epoch n).Guarded side mode newest := by
  refine ⟨?_, h.newest_le, h.resetFor_le, h.barrier_le, h.batch, h.rotating, h.generation_le,
    h.safe⟩
  intro entry hentry
  rcases mem_append.mp hentry with hold | hnew
  · exact h.noneStale entry hold
  · rw [(mem_replicate.mp hnew).2]
    exact h.resetFor_le.trans hle

/-- The worker resets the buffers for an epoch that the generation has been advanced for, and
inserts only batches of the current generation. -/
theorem Guarded.process {work : RxSessionWork} {rest : List RxSessionWork}
    (h : s.Guarded side mode newest) (hqueue : s.queue = work :: rest) :
    ({ s with queue := rest }.process work).Guarded side mode newest := by
  have hrest : rest ⊆ s.queue := hqueue ▸ subset_cons_self work rest
  have hwork : work ∈ s.queue := hqueue ▸ mem_cons_self ..
  have htaken : { s with queue := rest }.Guarded side mode newest :=
    ⟨h.noneStale, h.newest_le, h.resetFor_le, fun epoch hmem => h.barrier_le epoch (hrest hmem),
      fun generation epoch n hmem => h.batch generation epoch n (hrest hmem), h.rotating,
      h.generation_le, h.safe⟩
  cases work with
  | barrier epoch => exact { htaken with resetFor_le := h.barrier_le epoch hwork }
  | batch generation epoch n =>
    simp only [RxState.process]
    split
    next hgen =>
      -- no generation has been advanced since the producer was created
      obtain ⟨-, -, hlive⟩ := h.batch generation epoch n hwork
      exact htaken.enter (hlive.resolve_left (by omega)) n
    next => exact htaken

theorem Guarded.replace (h : s.Guarded side mode newest) (hgen : r'.generation ≤ s.generation)
    (hsafe : r'.Passing side ∨ mode = .actor ∧ 0 < r'.pending →
      s.Safe mode newest r'.generation r'.epoch) :
    (s.replace r r').Guarded side mode newest := by
  refine ⟨h.noneStale, h.newest_le, h.resetFor_le, h.barrier_le, h.batch, h.rotating, ?_, ?_⟩
  · intro reader hreader
    rcases mem_cons.mp hreader with rfl | hold
    · exact hgen
    · exact h.generation_le reader (mem_of_mem_erase hold)
  · intro reader hreader
    rcases mem_cons.mp hreader with rfl | hold
    · exact hsafe
    · exact h.safe reader (mem_of_mem_erase hold)

/-- A flush only adds work to the queue. -/
theorem flush_eq_some (h : s.flush mode r = some s') : ∃ queue, s' = { s with queue } := by
  simp only [flush] at h
  split at h
  · exact ⟨s.queue, (Option.some.inj h).symm⟩
  · exact ⟨_, enqueue_eq_some h⟩

theorem Guarded.flush (h : s.Guarded side mode newest)
    (hsafe : mode = .actor ∧ 0 < r.pending → s.Safe mode newest r.generation r.epoch)
    (hflush : s.flush mode r = some s') : s'.Guarded side mode newest := by
  simp only [RxState.flush] at hflush
  split at hflush
  next => exact Option.some.inj hflush ▸ h
  next hpending =>
    obtain ⟨hmode, hpos⟩ := not_or.mp hpending
    cases mode with
    | direct => exact absurd rfl hmode
    | actor =>
      refine h.enqueue (by simp) ?_ hflush
      rintro generation epoch n hwork
      obtain ⟨rfl, rfl, rfl⟩ := RxSessionWork.batch.inj hwork
      exact ⟨rfl, hsafe ⟨rfl, Nat.pos_of_ne_zero hpos⟩⟩

theorem Guarded.stop (h : s.Guarded side mode newest) (hr : r ∈ s.readers)
    (hstop : s.stop mode r = some s') : s'.Guarded side mode newest := by
  obtain ⟨s₁, hflush, rfl⟩ := Option.map_eq_some_iff.mp hstop
  have h₁ := h.flush (fun hpos => h.safe r hr (.inr hpos)) hflush
  exact { h₁ with
    generation_le := fun reader hreader => h₁.generation_le reader (mem_of_mem_erase hreader)
    safe := fun reader hreader => h₁.safe reader (mem_of_mem_erase hreader) }

/-- The frame of a passing reader goes into its batch. -/
theorem Guarded.push (h : s.Guarded side mode newest) (hgen : r.generation ≤ s.generation)
    (hsafe : s.Safe mode newest r.generation r.epoch) (hpush : s.push mode r = some s') :
    s'.Guarded side mode newest := by
  simp only [RxState.push] at hpush
  split at hpush
  · obtain ⟨s₁, hflush, rfl⟩ := Option.map_eq_some_iff.mp hpush
    have h₁ := h.flush (r := { r with pending := r.pending + 1, stage := .reading })
      (fun _ => hsafe) hflush
    obtain ⟨queue, rfl⟩ := flush_eq_some hflush
    exact h₁.replace hgen fun _ => hsafe
  · exact Option.some.inj hpush ▸ h.replace hgen fun _ => hsafe

/-- The server compares when no rotation has the lock, so that the buffers are of the session's
epoch. -/
theorem Guarded.newest_le_epoch (h : s.Guarded .server mode newest) (hlock : s.locked = false) :
    s.rotation = none ∧ newest ≤ s.epoch := by
  have hnone : s.rotation = none := by
    cases hrot : s.rotation with
    | none => rfl
    | some rotation => simp [locked, hrot, (h.rotating rotation hrot).locked rfl] at hlock
  exact ⟨hnone, by simpa [target, hnone] using h.newest_le⟩

/-- A reader of the session's epoch, with no rotation underway, may hand frames on. -/
theorem safe_of_epoch_eq {generation epoch : Nat} (hgen : generation ≤ s.generation)
    (hrot : s.rotation = none) (hle : newest ≤ epoch) : s.Safe mode newest generation epoch := by
  cases mode with
  | actor => exact ⟨hgen, .inr hle⟩
  | direct => exact ⟨hle, hrot⟩

theorem passing_of_checked (h : r.stage = .checked ∨ r.stage = .decoded) : r.Passing side := by
  cases side with
  | server => exact h
  | client => rcases h with h | h <;> simp [RxReader.Passing, h]

/-- A reader that passes is safe until it has handed its frame on. -/
theorem Guarded.readerStep {action : ReaderAction} (h : s.Guarded side mode newest)
    (hr : r ∈ s.readers) (hcalm : s.Calm side mode (.reader r action))
    (hstep : s.readerStep side mode r action = some s') : s'.Guarded side mode newest := by
  have hgen := h.generation_le r hr
  have hsafe := h.safe r hr
  cases action with
  | capture =>
    obtain ⟨⟨hstage, -⟩, rfl⟩ := of_guarded hstep
    refine h.replace hgen fun hpassing => hsafe (hpassing.imp_left ?_)
    cases side <;> simp [RxReader.Passing]
  | start =>
    obtain ⟨-, rfl⟩ := of_guarded hstep
    refine h.replace le_rfl fun hpassing => ?_
    cases side with
    | server => simp [RxReader.Passing] at hpassing
    | client =>
      -- the producer gets the generation of its own epoch
      obtain ⟨hrot, hepoch⟩ := hcalm rfl
      refine safe_of_epoch_eq le_rfl hrot ?_
      simpa [target, hrot, hepoch] using h.newest_le
  | readFrame =>
    obtain ⟨hstage, rfl⟩ := of_guarded hstep
    refine h.replace hgen fun hpassing => hsafe (hpassing.imp_left ?_)
    cases side <;> simp [RxReader.Passing, hstage]
  | compare =>
    simp only [RxState.readerStep, Option.ite_none_right_eq_some] at hstep
    obtain ⟨hstage, hstep⟩ := hstep
    cases side with
    | client =>
      obtain rfl := Option.some.inj hstep
      exact h.replace hgen fun _ => hsafe (.inl (by simp [RxReader.Passing, hstage]))
    | server =>
      simp only [Option.ite_none_left_eq_some, Bool.not_eq_true] at hstep
      obtain ⟨hlock, hstep⟩ := hstep
      split at hstep
      next hepoch =>
        obtain rfl := Option.some.inj hstep
        obtain ⟨hrot, hle⟩ := h.newest_le_epoch hlock
        exact h.replace hgen fun _ => safe_of_epoch_eq hgen hrot (hepoch ▸ hle)
      next => exact h.stop hr hstep
  | push =>
    simp only [RxState.readerStep, Option.ite_none_right_eq_some] at hstep
    obtain ⟨⟨hstage, -⟩, hpush⟩ := hstep
    exact h.push hgen (hsafe (.inl (passing_of_checked (.inl hstage)))) hpush
  | flush =>
    simp only [RxState.readerStep, Option.ite_none_right_eq_some] at hstep
    obtain ⟨hstage, hstep⟩ := hstep
    obtain ⟨s₁, hflush, rfl⟩ := Option.map_eq_some_iff.mp hstep
    have h₁ := h.flush (fun hpos => hsafe (.inr hpos)) hflush
    obtain ⟨queue, rfl⟩ := flush_eq_some hflush
    refine h₁.replace hgen fun hpassing => hsafe (.inl ?_)
    simpa [RxReader.Passing] using hpassing
  | onData =>
    obtain ⟨⟨hstage, rfl⟩, rfl⟩ := of_guarded hstep
    have hnow := hsafe (.inl (passing_of_checked (.inl hstage)))
    exact (h.enter hnow.1 1).replace hgen fun _ => hnow
  | insert =>
    obtain ⟨⟨hstage, rfl⟩, rfl⟩ := of_guarded hstep
    have hnow := hsafe (.inl (passing_of_checked hstage))
    exact (h.enter hnow.1 1).replace hgen fun _ => hnow
  | stop => exact h.stop hr hstep

/-- A rotation begins. Without a worker no reader is passing frames on. -/
theorem Guarded.begin {target : Nat} (h : s.Guarded side mode newest) (hrot : s.rotation = none)
    (hlt : s.epoch < target) (hcalm : mode = .direct → ∀ r ∈ s.readers, ¬ r.Passing side) :
    { s with rotation := some ⟨target, rotationPhases side mode, true⟩ }.Guarded side mode
      newest := by
  have hle : newest ≤ s.epoch := by simpa [RxState.target, hrot] using h.newest_le
  refine ⟨h.noneStale, hle.trans hlt.le, h.resetFor_le, h.barrier_le, h.batch, ?_, h.generation_le,
    ?_⟩
  · rintro r ⟨⟩
    refine ⟨suffix_refl _, .inl ?_, fun hmode => .inl ?_, fun _ => rfl⟩
    · cases side <;> cases mode <;> simp [rotationPhases]
    · cases side <;> simp [rotationPhases, hmode]
  · intro r hr hpassing
    cases mode with
    | actor => exact h.safe r hr hpassing
    | direct => exact absurd (hpassing.resolve_right (by simp)) (hcalm rfl r hr)

theorem Guarded.join (h : s.Guarded side mode newest) :
    { s with readers := ⟨s.epoch, 0, 0, .linked⟩ :: s.readers }.Guarded side mode newest := by
  refine ⟨h.noneStale, h.newest_le, h.resetFor_le, h.barrier_le, h.batch, h.rotating, ?_, ?_⟩
  · exact forall_mem_cons.mpr ⟨Nat.zero_le _, h.generation_le⟩
  · refine forall_mem_cons.mpr ⟨fun hpassing => ?_, h.safe⟩
    cases side <;> simp [RxReader.Passing] at hpassing

/-- One action keeps the invariant. Only a rotation raises `newest`. -/
theorem Guarded.step {action : Action} (h : s.Guarded side mode newest)
    (hcalm : s.Calm side mode action) (hstep : s.step side mode action = some s') :
    ∃ newest', s'.Guarded side mode newest' := by
  cases action with
  | begin target =>
    obtain ⟨⟨hrot, hlt⟩, rfl⟩ := of_guarded hstep
    exact ⟨newest, h.begin hrot hlt hcalm⟩
  | rotate => exact h.rotate hstep
  | join =>
    obtain ⟨-, rfl⟩ := of_guarded hstep
    exact ⟨newest, h.join⟩
  | work =>
    simp only [RxState.step] at hstep
    split at hstep
    next => contradiction
    next work rest hqueue =>
      obtain rfl := Option.some.inj hstep
      exact ⟨newest, h.process hqueue⟩
  | reader r action =>
    simp only [RxState.step, Option.ite_none_right_eq_some] at hstep
    exact ⟨newest, h.readerStep hstep.1 hcalm hstep.2⟩

end Readers

/-! ## No stale frames -/

/-- On both sides and in both modes, no frame of a connection enters the reorder buffer or the
decoder after they have been reset for a later epoch. -/
theorem no_stale_entry (side : Side) (mode : RxMode) (epoch : Nat) {actions : List Action}
    {s : RxState} (hcalm : Along (step side mode) (Calm side mode) (new epoch) actions)
    (hrun : run (step side mode) (new epoch) actions = some s) : s.NoneStale := by
  have hpreserve : ∀ s action s', (∃ newest, Guarded side mode s newest) →
      s.Calm side mode action → s.step side mode action = some s' →
      ∃ newest, Guarded side mode s' newest := by
    rintro s action s' ⟨newest, h⟩ hcalm hstep
    exact h.step hcalm hstep
  obtain ⟨newest, h⟩ := run_invariant hpreserve ⟨epoch, Guarded.new side mode epoch⟩ hcalm hrun
  exact h.noneStale

/-- A reader of epoch 1 up to a stage, with the number of frames in its batch. -/
def early (pending : Nat) (stage : RxStage) : RxReader := ⟨1, 1, pending, stage⟩

/-- A connection joins in epoch 1, and its reader takes a frame up to the insert. -/
def takeFrame : List Action :=
  [.join, .reader ⟨1, 0, 0, .linked⟩ .capture, .reader ⟨1, 0, 0, .captured⟩ .start,
    .reader (early 0 .reading) .readFrame, .reader (early 0 .holding) .compare]

/-- A server with a worker is rotated while a reader has one frame in the queue and another on its
way to it. A connection of the new epoch follows. -/
def rotatedUnderway : List Action :=
  takeFrame ++ [.reader (early 0 .checked) .push, .reader (early 1 .reading) .flush,
    .reader (early 0 .reading) .readFrame, .reader (early 0 .holding) .compare,
    .begin 2, .rotate, .rotate, .work, .reader (early 0 .checked) .push,
    .reader (early 1 .reading) .stop, .work, .rotate, .rotate, .join,
    .reader ⟨2, 0, 0, .linked⟩ .capture, .reader ⟨2, 0, 0, .captured⟩ .start,
    .reader ⟨2, 2, 0, .reading⟩ .readFrame, .reader ⟨2, 2, 0, .holding⟩ .compare,
    .reader ⟨2, 2, 0, .checked⟩ .push, .reader ⟨2, 2, 1, .reading⟩ .flush, .work, .work]

/-- The two frames of the old epoch are dropped, and the one of the new epoch enters. -/
theorem rotated_underway_none_stale : ∃ s,
    run (step .server .actor) (new 1) rotatedUnderway = some s ∧ s.entered = [⟨2, 2⟩] ∧
      s.NoneStale := by
  obtain ⟨s, hrun, hentered⟩ : ∃ s,
      run (step .server .actor) (new 1) rotatedUnderway = some s ∧ s.entered = [⟨2, 2⟩] :=
    exists_run_of_decide (by decide +kernel)
  exact ⟨s, hrun, hentered, no_stale_entry .server .actor 1 (by decide +kernel) hrun⟩

/-- A client's connection of epoch 1 captures its pointers, and creates its producer after another
connection has adopted epoch 2. -/
def producedLate : List Action :=
  [.join, .reader ⟨1, 0, 0, .linked⟩ .capture, .begin 2, .rotate, .rotate, .rotate, .work, .rotate,
    .reader ⟨1, 0, 0, .captured⟩ .start, .reader ⟨1, 2, 0, .reading⟩ .readFrame,
    .reader ⟨1, 2, 0, .holding⟩ .compare, .reader ⟨1, 2, 0, .checked⟩ .push,
    .reader ⟨1, 2, 1, .reading⟩ .flush, .work]

/-- Without a worker, a rotation to epoch 2 runs between the comparison and the insert of a reader
of epoch 1. -/
def insertedLate (side : Side) : List Action :=
  takeFrame ++ [.begin 2] ++ List.replicate (rotationPhases side .direct).length .rotate ++
    [.reader (early 0 .checked) .insert]

/-- The client with a worker, and both sides without one, let a frame of epoch 1 into the buffers
that were reset for epoch 2. -/
theorem late_readers_enter :
    (∃ s, run (step .client .actor) (new 1) producedLate = some s ∧ ¬ s.NoneStale) ∧
      ∀ side, ∃ s, run (step side .direct) (new 1) (insertedLate side) = some s ∧
        ¬ s.NoneStale := by
  refine ⟨exists_run_of_decide (by decide +kernel), fun side => ?_⟩
  cases side <;> exact exists_run_of_decide (by decide +kernel)

end RxState

end TlsVpn.Session
