import TlsVpn.Reorder.Contents

/-!
# Delivery by several goroutines

How ordered frames leave a mutex-protected `ReorderBuffer`. The readers of the connections and the
gap timer enter the buffer under `mu`, and whoever finds frames ready there takes `deliverMu` before
it lets go of `mu`, so that the batches reach the output channel in the order in which they left the
buffer. The channel holds 256 batches and a full one drops the batch. One goroutine, `outWorker`,
takes the batches and writes the frames. `Close` takes the same two locks before it announces the
end, and the worker then empties the channel and leaves.

A goroutine is inside under one of the locks or it is outside, so the state has one place under
`mu` and one under `deliverMu`, each with what the goroutine there carries. `Insert` is a critical
section with one insertion, `InsertBatch` one with several, a round of `timeoutWorker` one with a
skip and `Reset` one with a reset; here a section is any sequence of these. `epochs` and the
delivered frames of `receiver` record what has left the buffer between two resets. The frames are
written in that order, so within an epoch in the order of their numbers and none twice, whatever the
goroutines do.
-/

namespace TlsVpn.Reorder

open Lib ReorderBuffer List

variable {Frame : Type}

/-- `reorderOutQueue`. -/
def reorderOutQueue : Nat := 256

/-- Where the goroutine under `mu` stands. -/
inductive MuStage (Frame : Type) where
  | free
  | locked
  /-- Has taken a batch and waits for `deliverMu`. -/
  | waiting (batch : List Frame)
  /-- `Close`, which has shut the buffer and waits for `deliverMu`. -/
  | closing (drain : List Frame)

/-- Where the goroutine under `deliverMu` stands. -/
inductive DeliverStage (Frame : Type) where
  | free
  | sending (batch : List Frame)
  | sent
  /-- `Close`, before and after it closes the channel `closed`. -/
  | signalling (drain : List Frame)
  | signalled (drain : List Frame)

/-- The frames on their way to the channel. -/
def MuStage.batch : MuStage Frame → List Frame
  | .waiting batch => batch
  | .free | .locked | .closing _ => []

/-- The frames on their way to the channel. -/
def DeliverStage.batch : DeliverStage Frame → List Frame
  | .sending batch => batch
  | .free | .sent | .signalling _ | .signalled _ => []

/-- The buffer, its locks, the channel and the output worker. -/
structure Delivery (Frame : Type) where
  /-- The output function is set and does not ignore the frame, as it does an empty one. -/
  wants : Frame → Bool
  receiver : Receiver Frame
  epochs : List (List Frame)
  mu : MuStage Frame
  deliverMu : DeliverStage Frame
  outChan : List (List Frame)
  closed : Bool
  /-- The frames of the batch that the worker has taken and not written yet. -/
  writing : List Frame
  /-- The worker has seen the end and empties the channel. -/
  draining : Bool
  exited : Bool
  /-- The frames given to the buffer, those passed to the output function and those released. -/
  given : List Frame
  output : List Frame
  released : List Frame
  /-- `droppedFrames`: the frames of batches that met a full channel. -/
  droppedFrames : Nat

namespace Delivery

/-- A buffer with its worker. -/
def new (wants : Frame → Bool) : Delivery Frame :=
  { wants
    receiver := .new
    epochs := []
    mu := .free
    deliverMu := .free
    outChan := []
    closed := false
    writing := []
    draining := false
    exited := false
    given := []
    output := []
    released := []
    droppedFrames := 0 }

/-- Frames go back to the pool. -/
def release (d : Delivery Frame) (frames : List Frame) : Delivery Frame :=
  { d with released := d.released ++ frames }

/-- A goroutine takes `mu`. -/
def lock (d : Delivery Frame) : Option (Delivery Frame) :=
  match d.mu with
  | .free => some { d with mu := .locked }
  | _ => none

/-- The body of `Insert` and of the loop of `InsertBatch`. -/
def insert (d : Delivery Frame) (now seq : Nat) (frame : Frame) : Option (Delivery Frame) :=
  match d.mu with
  | .locked =>
    let back :=
      if seq = 0 ∨ d.receiver.buffer.shutting = true then [frame]
      else d.receiver.buffer.rejected seq frame
    some { d.release back with
      receiver := d.receiver.insertActorBuffered now seq frame
      given := d.given ++ [frame] }
  | _ => none

/-- The round of `timeoutWorker` after its timer. -/
def skip (d : Delivery Frame) (now : Nat) : Option (Delivery Frame) :=
  match d.mu with
  | .locked =>
    some { d with receiver := { d.receiver with buffer := d.receiver.buffer.skipGap now } }
  | _ => none

/-- The frames in the ring, which `releaseRingLocked` releases. -/
def ringFrames (rb : ReorderBuffer Frame) : List Frame := (List.range rb.ringLen).filterMap rb.ring

/-- `Reset`. -/
def reset (d : Delivery Frame) : Option (Delivery Frame) :=
  match d.mu with
  | .locked =>
    some { d.release (ringFrames d.receiver.buffer ++ d.receiver.buffer.pending) with
      receiver := ⟨d.receiver.buffer.reset, []⟩
      epochs := d.epochs ++ [d.receiver.delivered] }
  | _ => none

/-- The end of a section: the ordered frames are taken, and `mu` is kept until their turn. -/
def leave (d : Delivery Frame) : Option (Delivery Frame) :=
  match d.mu, d.receiver.buffer.pending with
  | .locked, [] => some { d with mu := .free }
  | .locked, frame :: rest =>
    some { d with mu := .waiting (frame :: rest), receiver := d.receiver.deliver }
  | _, _ => none

/-- `Close` shuts the buffer, once. -/
def shut (d : Delivery Frame) : Option (Delivery Frame) :=
  match d.mu, d.receiver.buffer.shutting with
  | .locked, false =>
    some { d.release (ringFrames d.receiver.buffer) with
      mu := .closing d.receiver.buffer.pending
      receiver := { d.receiver with buffer := d.receiver.buffer.close } }
  | _, _ => none

/-- `deliverMu` is taken before `mu` is given back. -/
def acquire (d : Delivery Frame) : Option (Delivery Frame) :=
  match d.deliverMu, d.mu with
  | .free, .waiting batch => some { d with mu := .free, deliverMu := .sending batch }
  | .free, .closing drain => some { d with mu := .free, deliverMu := .signalling drain }
  | _, _ => none

/-- The select of `deliver`: into the channel while it has room, to the pool once the end is
announced, whichever the runtime prefers if both are possible, and dropped otherwise. -/
def send (d : Delivery Frame) (prefersClosed : Bool) : Option (Delivery Frame) :=
  match d.deliverMu with
  | .sending batch =>
    if d.closed = true ∧ (prefersClosed = true ∨ reorderOutQueue ≤ d.outChan.length) then
      some { d.release batch with deliverMu := .sent }
    else if d.outChan.length < reorderOutQueue then
      some { d with deliverMu := .sent, outChan := d.outChan ++ [batch] }
    else
      some { d.release batch with
        deliverMu := .sent
        droppedFrames := d.droppedFrames + batch.length }
  | _ => none

/-- `Close` closes the channel `closed`. -/
def signal (d : Delivery Frame) : Option (Delivery Frame) :=
  match d.deliverMu with
  | .signalling drain => some { d with deliverMu := .signalled drain, closed := true }
  | _ => none

/-- `deliverMu` is given back. -/
def unlock (d : Delivery Frame) : Option (Delivery Frame) :=
  match d.deliverMu with
  | .sent => some { d with deliverMu := .free }
  | .signalled drain => some { d.release drain with deliverMu := .free }
  | _ => none

/-- The worker takes a batch. -/
def take (d : Delivery Frame) : Option (Delivery Frame) :=
  match d.exited, d.writing, d.outChan with
  | false, [], batch :: rest => some { d with outChan := rest, writing := batch }
  | _, _, _ => none

/-- The worker writes a frame, or releases it. -/
def write (d : Delivery Frame) : Option (Delivery Frame) :=
  match d.writing with
  | [] => none
  | frame :: rest =>
    if d.wants frame then some { d with writing := rest, output := d.output ++ [frame] }
    else some ({ d with writing := rest }.release [frame])

/-- The worker sees the end between two batches. -/
def drainOut (d : Delivery Frame) : Option (Delivery Frame) :=
  match d.closed, d.writing with
  | true, [] => some { d with draining := true }
  | _, _ => none

/-- The worker finds the channel empty after the end. -/
def exit (d : Delivery Frame) : Option (Delivery Frame) :=
  match d.draining, d.writing, d.outChan with
  | true, [], [] => some { d with exited := true }
  | _, _, _ => none

/-- The steps of the goroutines. -/
inductive Action (Frame : Type) where
  | lock
  | insert (now seq : Nat) (frame : Frame)
  | skip (now : Nat)
  | reset
  | leave
  | shut
  | acquire
  | send (prefersClosed : Bool)
  | signal
  | unlock
  | take
  | write
  | drainOut
  | exit

/-- A step that cannot be taken gives none. -/
def step (d : Delivery Frame) : Action Frame → Option (Delivery Frame)
  | .lock => d.lock
  | .insert now seq frame => d.insert now seq frame
  | .skip now => d.skip now
  | .reset => d.reset
  | .leave => d.leave
  | .shut => d.shut
  | .acquire => d.acquire
  | .send prefersClosed => d.send prefersClosed
  | .signal => d.signal
  | .unlock => d.unlock
  | .take => d.take
  | .write => d.write
  | .drainOut => d.drainOut
  | .exit => d.exit

/-- The frames between the buffer and the output function, the oldest first. -/
def inFlight (d : Delivery Frame) : List Frame :=
  d.writing ++ d.outChan.flatten ++ d.deliverMu.batch ++ d.mu.batch

/-- Everything that has left the buffer for delivery, in the order in which it left. -/
def handed (d : Delivery Frame) : List Frame := d.epochs.flatten ++ d.receiver.delivered

/-! ## What a step does -/

/-- The steps with their guards. -/
inductive Moves (d : Delivery Frame) : Action Frame → Delivery Frame → Prop where
  | lock (hmu : d.mu = .free) : Moves d .lock { d with mu := .locked }
  | insertNone {now seq : Nat} {frame : Frame} (hmu : d.mu = .locked)
      (hnone : seq = 0 ∨ d.receiver.buffer.shutting = true) :
      Moves d (.insert now seq frame)
        { d with given := d.given ++ [frame], released := d.released ++ [frame] }
  | insert {now seq : Nat} {frame : Frame} (hmu : d.mu = .locked)
      (hsome : ¬ (seq = 0 ∨ d.receiver.buffer.shutting = true)) :
      Moves d (.insert now seq frame)
        { d with
          receiver := { d.receiver with buffer := d.receiver.buffer.inserted now seq frame }
          given := d.given ++ [frame]
          released := d.released ++ d.receiver.buffer.rejected seq frame }
  | skip {now : Nat} (hmu : d.mu = .locked) :
      Moves d (.skip now)
        { d with receiver := { d.receiver with buffer := d.receiver.buffer.skipGap now } }
  | reset (hmu : d.mu = .locked) :
      Moves d .reset
        { d with
          receiver := ⟨d.receiver.buffer.reset, []⟩
          epochs := d.epochs ++ [d.receiver.delivered]
          released :=
            d.released ++ (ringFrames d.receiver.buffer ++ d.receiver.buffer.pending) }
  | leaveNone (hmu : d.mu = .locked) (hpending : d.receiver.buffer.pending = []) :
      Moves d .leave { d with mu := .free }
  | leave (hmu : d.mu = .locked) (hpending : d.receiver.buffer.pending ≠ []) :
      Moves d .leave
        { d with mu := .waiting d.receiver.buffer.pending, receiver := d.receiver.deliver }
  | shut (hmu : d.mu = .locked) (hopen : d.receiver.buffer.shutting = false) :
      Moves d .shut
        { d with
          mu := .closing d.receiver.buffer.pending
          receiver := { d.receiver with buffer := d.receiver.buffer.close }
          released := d.released ++ ringFrames d.receiver.buffer }
  | acquire {batch : List Frame} (hfree : d.deliverMu = .free) (hmu : d.mu = .waiting batch) :
      Moves d .acquire { d with mu := .free, deliverMu := .sending batch }
  | acquireClose {drain : List Frame} (hfree : d.deliverMu = .free) (hmu : d.mu = .closing drain) :
      Moves d .acquire { d with mu := .free, deliverMu := .signalling drain }
  | send {prefersClosed : Bool} {batch : List Frame} (hturn : d.deliverMu = .sending batch) :
      Moves d (.send prefersClosed)
        { d with deliverMu := .sent, outChan := d.outChan ++ [batch] }
  | drop {prefersClosed : Bool} {batch : List Frame} (dropped : Nat)
      (hturn : d.deliverMu = .sending batch) :
      Moves d (.send prefersClosed)
        { d with
          deliverMu := .sent
          released := d.released ++ batch
          droppedFrames := dropped }
  | signal {drain : List Frame} (hturn : d.deliverMu = .signalling drain) :
      Moves d .signal { d with deliverMu := .signalled drain, closed := true }
  | unlock (hturn : d.deliverMu = .sent) : Moves d .unlock { d with deliverMu := .free }
  | unlockClose {drain : List Frame} (hturn : d.deliverMu = .signalled drain) :
      Moves d .unlock { d with deliverMu := .free, released := d.released ++ drain }
  | take {batch : List Frame} {rest : List (List Frame)} (hstays : d.exited = false)
      (hwriting : d.writing = []) (hchan : d.outChan = batch :: rest) :
      Moves d .take { d with outChan := rest, writing := batch }
  | write {frame : Frame} {rest : List Frame} (hwriting : d.writing = frame :: rest) :
      Moves d .write { d with writing := rest, output := d.output ++ [frame] }
  | ignore {frame : Frame} {rest : List Frame} (hwriting : d.writing = frame :: rest) :
      Moves d .write { d with writing := rest, released := d.released ++ [frame] }
  | drainOut (hclosed : d.closed = true) (hwriting : d.writing = []) :
      Moves d .drainOut { d with draining := true }
  | exit (hdraining : d.draining = true) (hwriting : d.writing = []) (hchan : d.outChan = []) :
      Moves d .exit { d with exited := true }

variable {d d' : Delivery Frame}

variable {action : Action Frame}

/-- A step that is taken has its guard. -/
theorem moves_of_step (hstep : d.step action = some d') : Moves d action d' := by
  cases action with
  | lock | skip now | reset | shut | signal | take | drainOut | exit =>
    -- a single branch, behind the guards of the move
    simp only [step, lock, skip, reset, shut, signal, take, drainOut, exit] at hstep
    split at hstep
    · cases hstep
      constructor <;> assumption
    · cases hstep
  | insert now seq frame =>
    simp only [step, insert] at hstep
    split at hstep
    · rename_i hmu
      cases hstep
      by_cases hnone : seq = 0 ∨ d.receiver.buffer.shutting = true
      · simpa [release, Receiver.insertActorBuffered, ReorderBuffer.insertActorBuffered, hnone]
          using @Moves.insertNone _ d now seq frame hmu hnone
      · simpa [release, Receiver.insertActorBuffered, ReorderBuffer.insertActorBuffered, hnone]
          using @Moves.insert _ d now seq frame hmu hnone
    · cases hstep
  | leave =>
    simp only [step, leave] at hstep
    split at hstep
    · rename_i hmu hpending
      cases hstep
      exact .leaveNone hmu hpending
    · rename_i frame rest hmu hpending
      cases hstep
      rw [← hpending]
      exact .leave hmu (by rw [hpending]; exact cons_ne_nil _ _)
    · cases hstep
  | acquire =>
    simp only [step, acquire] at hstep
    split at hstep
    · rename_i hfree hmu
      cases hstep
      exact .acquire hfree hmu
    · rename_i hfree hmu
      cases hstep
      exact .acquireClose hfree hmu
    · cases hstep
  | send prefersClosed =>
    simp only [step, send] at hstep
    split at hstep
    · rename_i hturn
      split at hstep
      · cases hstep
        exact .drop d.droppedFrames hturn
      · split at hstep
        · cases hstep
          exact .send hturn
        · cases hstep
          exact .drop _ hturn
    · cases hstep
  | unlock =>
    simp only [step, unlock] at hstep
    split at hstep
    · rename_i hturn
      cases hstep
      exact .unlock hturn
    · rename_i hturn
      cases hstep
      exact .unlockClose hturn
    · cases hstep
  | write =>
    simp only [step, write] at hstep
    split at hstep
    · cases hstep
    · rename_i hwriting
      split at hstep
      · cases hstep
        exact .write hwriting
      · cases hstep
        exact .ignore hwriting

/-! ## The order -/

/-- How the frames on their way change in a step: nothing, a batch that joins at the end, a batch
that is given up, or a frame that leaves at the front. -/
inductive Flows (d d' : Delivery Frame) : Prop where
  | still (houtput : d'.output = d.output) (hflight : d'.inFlight = d.inFlight)
      (hhanded : d'.handed = d.handed)
  | joins (batch : List Frame) (houtput : d'.output = d.output)
      (hflight : d'.inFlight = d.inFlight ++ batch) (hhanded : d'.handed = d.handed ++ batch)
  | loses (front batch back : List Frame) (houtput : d'.output = d.output)
      (hbefore : d.inFlight = front ++ batch ++ back) (hflight : d'.inFlight = front ++ back)
      (hhanded : d'.handed = d.handed)
  | leaves (frame : Frame) (houtput : d'.output = d.output ++ [frame])
      (hflight : d.inFlight = frame :: d'.inFlight) (hhanded : d'.handed = d.handed)

theorem Moves.flows (h : Moves d action d') : Flows d d' := by
  cases h with
  | lock hmu | leaveNone hmu hpending | shut hmu hopen =>
    exact .still rfl (by simp [inFlight, hmu, MuStage.batch]) rfl
  | reset hmu => exact .still rfl rfl (by simp [handed])
  | leave hmu hpending =>
    refine .joins d.receiver.buffer.pending rfl ?_ ?_
    · simp [inFlight, hmu, MuStage.batch]
    · simp [handed, Receiver.deliver, takePendingLocked]
  | acquire hfree hmu | acquireClose hfree hmu =>
    exact .still rfl (by simp [inFlight, hmu, hfree, MuStage.batch, DeliverStage.batch]) rfl
  | send hturn | signal hturn | unlock hturn | unlockClose hturn =>
    exact .still rfl (by simp [inFlight, hturn, DeliverStage.batch]) rfl
  | @drop _ batch dropped hturn =>
    refine .loses (d.writing ++ d.outChan.flatten) batch d.mu.batch rfl ?_ ?_ rfl
    · simp [inFlight, hturn, DeliverStage.batch]
    · simp [inFlight, DeliverStage.batch]
  | take hstays hwriting hchan => exact .still rfl (by simp [inFlight, hwriting, hchan]) rfl
  | @write frame rest hwriting => exact .leaves frame rfl (by simp [inFlight, hwriting]) rfl
  | @ignore frame rest hwriting =>
    refine .loses [] [frame] (d.inFlight.drop 1) rfl ?_ ?_ rfl
    · simp [inFlight, hwriting]
    · simp [inFlight, hwriting]
  | insertNone | insert | skip | drainOut | exit => exact .still rfl rfl rfl

theorem Flows.keeps (hflows : Flows d d') (h : (d.output ++ d.inFlight).Sublist d.handed) :
    (d'.output ++ d'.inFlight).Sublist d'.handed := by
  cases hflows with
  | still houtput hflight hhanded =>
    rw [houtput, hflight, hhanded]
    exact h
  | joins batch houtput hflight hhanded =>
    rw [houtput, hflight, hhanded, ← append_assoc]
    exact h.append (List.Sublist.refl batch)
  | loses front batch back houtput hbefore hflight hhanded =>
    rw [hbefore] at h
    rw [houtput, hflight, hhanded]
    refine List.Sublist.trans ?_ h
    refine (List.Sublist.refl d.output).append ?_
    rw [append_assoc]
    exact (List.Sublist.refl front).append (sublist_append_right batch back)
  | leaves frame houtput hflight hhanded =>
    rw [hflight] at h
    rw [houtput, hhanded, append_assoc]
    exact h

/-- The insertions carry their numbers and do not meet the wrapped counter. -/
def NoWrap (tag : Frame → Nat) (d : Delivery Frame) : Action Frame → Prop
  | .insert now seq frame =>
    d.receiver.NoWrap (.insertActorBuffered now seq frame) ∧
      (Call.insertActorBuffered now seq frame).Tagged tag
  | .lock | .skip _ | .reset | .leave | .shut | .acquire | .send _ | .signal | .unlock | .take
  | .write | .drainOut | .exit => True

instance [DecidableEq Frame] (tag : Frame → Nat) (d : Delivery Frame) :
    ∀ action, Decidable (d.NoWrap tag action)
  | .insert now seq frame =>
    inferInstanceAs (Decidable (d.receiver.NoWrap (.insertActorBuffered now seq frame) ∧
      (Call.insertActorBuffered now seq frame).Tagged tag))
  | .lock | .skip _ | .reset | .leave | .shut | .acquire | .send _ | .signal | .unlock | .take
  | .write | .drainOut | .exit => isTrue trivial

/-- The frames leave the buffer in the order of their numbers and are written in the order in which
they left. -/
structure Ordered (tag : Frame → Nat) (d : Delivery Frame) : Prop where
  inOrder : d.receiver.InOrder tag
  epochs : ∀ epoch ∈ d.epochs, (epoch.map tag).Pairwise (· < ·)
  flow : (d.output ++ d.inFlight).Sublist d.handed

variable {tag : Frame → Nat}

theorem ordered_new (tag : Frame → Nat) (wants : Frame → Bool) : (new wants).Ordered tag where
  inOrder := Receiver.in_order_new
  epochs := fun _ hepoch => by cases hepoch
  flow := List.Sublist.refl _

/-- What a section does to the buffer is a run of calls. -/
theorem Ordered.receiver (h : d.Ordered tag) (hwrap : d.NoWrap tag action)
    (hmoves : Moves d action d') : d'.receiver.InOrder tag := by
  cases hmoves with
  | @insert now seq frame hmu hsome =>
    refine h.inOrder.step hwrap ?_
    simp [Receiver.step, Receiver.insertActorBuffered, ReorderBuffer.insertActorBuffered, hsome]
  | skip hmu => exact h.inOrder.skip_gap _
  | reset hmu =>
    have hallowed : d.receiver.NoWrap .reset ∧ Call.Tagged tag (.reset : Call Frame) :=
      ⟨trivial, trivial⟩
    exact h.inOrder.step hallowed rfl
  | leave hmu hpending => exact h.inOrder.deliver
  | shut hmu hopen => exact h.inOrder.released (fun _ => rfl) rfl rfl rfl
  | lock | insertNone | leaveNone | acquire | acquireClose | send | drop | signal | unlock
  | unlockClose | take | write | ignore | drainOut | exit => exact h.inOrder

theorem increasing_of_in_order {r : Receiver Frame} (h : r.InOrder tag) :
    (r.delivered.map tag).Pairwise (· < ·) := by
  obtain ⟨next, hsorted⟩ := h
  exact (pairwise_append.mp (map_append ▸ hsorted.ordered)).1

/-- Batches keep their order from lock to lock. -/
theorem Ordered.step (h : d.Ordered tag) (hwrap : d.NoWrap tag action)
    (hstep : d.step action = some d') : d'.Ordered tag := by
  have hmoves := moves_of_step hstep
  refine ⟨h.receiver hwrap hmoves, ?_, hmoves.flows.keeps h.flow⟩
  cases hmoves with
  | reset hmu =>
    intro epoch hepoch
    rcases mem_append.mp hepoch with hold | hnew
    · exact h.epochs epoch hold
    · rw [mem_singleton.mp hnew]
      exact increasing_of_in_order h.inOrder
  | lock | insertNone | insert | skip | leaveNone | leave | shut | acquire | acquireClose | send
  | drop | signal | unlock | unlockClose | take | write | ignore | drainOut | exit =>
    exact h.epochs

/-- Whatever the goroutines do, the frames are written in the order in which they left the buffer:
the frames of an epoch before those of the next one, and within an epoch in the order of their
numbers and none twice. -/
theorem delivered_in_order (tag : Frame → Nat) (wants : Frame → Bool)
    (actions : List (Action Frame)) (d : Delivery Frame)
    (hwrap : Along step (NoWrap tag) (new wants) actions)
    (hrun : run step (new wants) actions = some d) :
    (∀ epoch ∈ d.epochs ++ [d.receiver.delivered], (epoch.map tag).Pairwise (· < ·)) ∧
      (d.output ++ d.inFlight).Sublist (d.epochs ++ [d.receiver.delivered]).flatten := by
  have hordered : d.Ordered tag :=
    run_invariant (fun _ _ _ h hallowed hstep => h.step hallowed hstep) (ordered_new tag wants)
      hwrap hrun
  refine ⟨fun epoch hepoch => ?_, ?_⟩
  · rcases mem_append.mp hepoch with hold | hnew
    · exact hordered.epochs epoch hold
    · rw [mem_singleton.mp hnew]
      exact increasing_of_in_order hordered.inOrder
  · rw [flatten_append, flatten_singleton]
    exact hordered.flow

/-- A reader finds two frames, and the timer takes a later one out before they are sent. -/
def overtakingTimer : List (Action Nat) :=
  [.lock, .insert 0 1 1, .insert 0 2 2, .insert 0 4 4, .leave, .acquire, .lock, .skip 60000000,
    .leave, .send false, .unlock, .acquire, .send false, .take, .write, .write, .take, .write,
    .unlock]

/-- The timer does not overtake the batch. -/
theorem overtaking_timer_in_order :
    ∃ d, run step (new fun _ => true) overtakingTimer = some d ∧ d.output = [1, 2, 4] ∧
      (∀ epoch ∈ d.epochs ++ [d.receiver.delivered], (epoch.map id).Pairwise (· < ·)) ∧
      (d.output ++ d.inFlight).Sublist (d.epochs ++ [d.receiver.delivered]).flatten := by
  have hfinal : ∃ d, run step (new fun _ => true) overtakingTimer = some d ∧
      d.output = [1, 2, 4] := exists_run_of_decide (by decide +kernel)
  obtain ⟨d, hrun, houtput⟩ := hfinal
  exact ⟨d, hrun, houtput, delivered_in_order id _ overtakingTimer d (by decide +kernel) hrun⟩

end Delivery

end TlsVpn.Reorder
