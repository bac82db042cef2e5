import TlsVpn.Lib.Keyed
import TlsVpn.Port.Steps
import TlsVpn.Session.Receive

/-!
# Waiting for an epoch rotation

`rotateSessionEpochLocked` closes the sockets of a session and then waits, with `s.mu` and
`sessionMu`, for the receive worker and for the run loop of the port. The run loop may be waiting
for room in the queue of a backend, the writers end when their sockets are closed, and a backend is
unregistered when its reader returns, which takes `sessionMu` for every frame it has read.

`Stuck` is the state in which all of them wait for each other, and `Stuck.forever` shows that
nothing ends it. `rotation_never_deadlocks` excludes it, and every other deadlock, for the runs in
which a rotation finds the readers of all backends waiting for the socket. `full_queue_deadlocks` is
a run into it.
-/

namespace TlsVpn.Server

open Lib Port Session Fec Crypto List

/-! ## The model -/

/-- Where the goroutine of a connection is after the handshake. It takes `s.mu` at `accepted`, has a
backend from `linked` to its return, and takes `sessionMu` at `linked` and at `holding`. -/
inductive ConnStage where
  | accepted
  | measured
  | linked
  | reading
  | holding
  | checked
  | returned
  deriving DecidableEq

/-- The writer of a connection: `filling` has taken a batch and may take more, `writing` is in
`conn.Write`. -/
inductive WriterStage where
  | idle
  | filling
  | writing
  | gone
  deriving DecidableEq

/-- A connection of the session. `buffered` are the frames that the reader gets without waiting for
the socket, and `pending` those in the batch of its producer. -/
structure SessionConn where
  id : Nat
  epoch : Nat
  closed : Bool
  buffered : Nat
  generation : Nat
  pending : Nat
  reader : ConnStage
  writer : WriterStage
  deriving DecidableEq

/-- What the rotation does next: enqueue the barrier, wait for the worker to pass it, or hand the
reset to the run loop of the port. -/
inductive RotationWait where
  | barrier
  | await
  | port
  deriving DecidableEq

/-- A session with its connections, its port and the queue of its receive worker, if it has one.
During a rotation `s.mu` and `sessionMu` are taken. -/
structure RotatingSession where
  worker : Bool
  epoch : Nat
  generation : Nat
  queue : List RxSessionWork
  port : AsyncPort
  conns : List SessionConn
  rotation : Option RotationWait

/-- `make(chan *VPNFrameBatch, 32)`. -/
def connTxCapacity : Nat := 32

/-- The steps of a connection. -/
inductive ConnAction where
  | measure
  | register
  | capture
  | arrive
  | close
  | readFrame
  | compare
  | push
  | flush
  | leave
  | take
  | send
  | wrote
  | keepAlive
  | cancelled
  deriving DecidableEq

namespace RotatingSession

/-- A session without connections. -/
def new (worker : Bool) (encoder : Option FecEncoder) : RotatingSession :=
  { worker
    epoch := 1
    generation := 1
    queue := []
    port := { AsyncPort.new with encoder }
    conns := []
    rotation := none }

/-- The connection of a number. -/
def findConn (s : RotatingSession) (id : Nat) : Option SessionConn :=
  findKey SessionConn.id s.conns id

/-- Every connection becomes its image. -/
def mapConns (s : RotatingSession) (f : SessionConn → SessionConn) : RotatingSession :=
  { s with conns := s.conns.map f }

/-- Writes a connection. -/
def setConn (s : RotatingSession) (c : SessionConn) : RotatingSession :=
  s.mapConns fun x => if x.id = c.id then c else x

/-- `rxSessionWorker.enqueue`, which waits for room. -/
def enqueue (s : RotatingSession) (work : RxSessionWork) : Option RotatingSession :=
  if s.queue.length < rxSessionQueueDepth then some { s with queue := s.queue ++ [work] } else none

/-- `rxBatchProducer.Flush`. -/
def flush (s : RotatingSession) (c : SessionConn) : Option RotatingSession :=
  if c.pending = 0 then some s else s.enqueue (.batch c.generation c.epoch c.pending)

/-- The deferred calls of `handleConnection`, up to the one that needs `s.mu`. -/
def leave (s : RotatingSession) (c : SessionConn) : Option RotatingSession :=
  (s.flush c).map fun s' =>
    { s'.setConn { c with reader := .returned, closed := true, pending := 0 } with
      port := s'.port.unregisterOwnedBackend c.id }

/-- The reader hands its frame on, to its batch or without a worker to the buffers. -/
def push (s : RotatingSession) (c : SessionConn) : Option RotatingSession :=
  if s.worker then
    let c' := { c with reader := .reading, pending := c.pending + 1 }
    if c'.pending = rxSessionBatchCap then
      (s.flush c').map fun s' => s'.setConn { c' with pending := 0 }
    else some (s.setConn c')
  else some (s.setConn { c with reader := .reading })

/-- One action of the goroutines of a connection. `arrive` and `close` are those of the network. -/
def connStep (s : RotatingSession) (c : SessionConn) : ConnAction → Option RotatingSession
  | .measure =>
    if c.reader = .accepted ∧ s.rotation = none then
      some (s.setConn { c with reader := .measured })
    else none
  | .register =>
    if c.reader = .measured then
      some { s.setConn { c with reader := .linked, writer := .idle } with
        port := s.port.registerOwnedBackend c.id connTxCapacity }
    else none
  | .capture =>
    if c.reader = .linked ∧ s.rotation = none then
      some (s.setConn { c with reader := .reading, generation := s.generation })
    else none
  | .arrive =>
    if c.closed then none else some (s.setConn { c with buffered := c.buffered + 1 })
  | .close => some (s.setConn { c with closed := true })
  | .readFrame =>
    if c.reader = .reading ∧ 0 < c.buffered then
      some (s.setConn { c with reader := .holding, buffered := c.buffered - 1 })
    else none
  | .compare =>
    if c.reader = .holding ∧ s.rotation = none then
      -- the reader of an old epoch puts its frame away and returns
      if c.epoch = s.epoch then some (s.setConn { c with reader := .checked }) else s.leave c
    else none
  | .push => if c.reader = .checked then s.push c else none
  | .flush =>
    -- without a frame in the batch there is nothing to flush
    if c.reader = .reading ∧ c.pending ≠ 0 then
      (s.flush c).map fun s' => s'.setConn { c with pending := 0 }
    else none
  | .leave =>
    if c.reader = .reading ∧ c.closed = true ∧ c.buffered = 0 then s.leave c else none
  | .take =>
    if (c.writer = .idle ∨ c.writer = .filling) ∧ (s.port.backend c.id).queue ≠ [] then
      some { s.setConn { c with writer := .filling } with port := s.port.drain c.id }
    else none
  | .send => if c.writer = .filling then some (s.setConn { c with writer := .writing }) else none
  | .wrote =>
    if c.writer = .writing then
      -- what is left in the queue stays there
      if c.closed then some (s.setConn { c with writer := .gone })
      else some { s.setConn { c with writer := .idle } with port := s.port.complete c.id }
    else none
  | .keepAlive =>
    -- on an open socket the frame goes out and the writer waits on
    if c.writer = .idle ∧ c.closed = true then some (s.setConn { c with writer := .gone })
    else none
  | .cancelled =>
    if c.writer = .idle ∧ c.reader = .returned then some (s.setConn { c with writer := .gone })
    else none

/-- The actions of the port that its run loop takes, and the writes to its input. -/
def ofLoop : AsyncPort.Action → Bool
  | .takeFrame | .gotSlot | .fill | .dispatch _ | .write _ => true
  | _ => false

/-- The connections whose writers take batches during an action of the run loop. -/
def drained : AsyncPort.Action → List Nat
  | .dispatch choice => choice.rounds.flatten ++ choice.parity.flatMap (·.1)
  | _ => []

/-- The writers of the connections can take batches. -/
def Draining (s : RotatingSession) (ids : List Nat) : Prop :=
  ∀ id ∈ ids, ∃ c ∈ s.findConn id, c.writer = .idle ∨ c.writer = .filling

instance (s : RotatingSession) (ids : List Nat) : Decidable (s.Draining ids) :=
  inferInstanceAs (Decidable (∀ id ∈ ids, ∃ c ∈ s.findConn id, _))

/-- The steps of the session. -/
inductive Action where
  | accept (id : Nat)
  | conn (id : Nat) (action : ConnAction)
  | work
  | port (action : AsyncPort.Action)
  | rotate
  | enqueueBarrier
  | awaitBarrier
  | resetEpoch (k : Nat) (ic : Option InnerCipher)

/-- One step. A handshake is under `s.mu`, and a rotation begins with the advance of the generation
after it has closed all sockets. -/
def step (s : RotatingSession) : Action → Option RotatingSession
  | .accept id =>
    if s.rotation = none ∧ s.findConn id = none then
      some { s with conns := s.conns ++ [⟨id, s.epoch, false, 0, 0, 0, .accepted, .gone⟩] }
    else none
  | .conn id action => (s.findConn id).bind fun c => s.connStep c action
  | .work =>
    match s.queue with
    | [] => none
    | _ :: rest => some { s with queue := rest }
  | .port action =>
    if ofLoop action ∧ s.Draining (drained action) then
      (s.port.step action).map fun port =>
        { s.mapConns fun c =>
            if c.id ∈ drained action then { c with writer := .filling } else c with port }
    else none
  | .rotate =>
    if s.rotation = none then
      some { s.mapConns fun c => { c with closed := true } with
        generation := if s.worker then s.generation + 1 else s.generation
        rotation := some (if s.worker then .barrier else .port) }
    else none
  | .enqueueBarrier =>
    if s.rotation = some .barrier then
      (s.enqueue (.barrier (s.epoch + 1))).map fun s' => { s' with rotation := some .await }
    else none
  | .awaitBarrier =>
    if s.rotation = some .await ∧ .barrier (s.epoch + 1) ∉ s.queue then
      some { s with rotation := some .port }
    else none
  | .resetEpoch k ic =>
    if s.rotation = some .port then
      (s.port.step (.reset k ic)).map fun port =>
        { s with port, epoch := s.epoch + 1, rotation := none }
    else none

/-- An action of the rotation, the worker, the run loop, a reader or a writer, and not of the
network or of those who write to the port. -/
def OfParty : Action → Prop
  | .accept _ | .rotate | .conn _ .arrive | .conn _ .close | .port (.write _) => False
  | _ => True

/-- The action is possible and leads to another state. -/
def Moves (s : RotatingSession) (action : Action) : Prop := ∃ s', s.step action = some s' ∧ s' ≠ s

/-- A rotation is underway and no party can go on: whatever it does leaves the state as it is. -/
def Deadlocked (s : RotatingSession) : Prop :=
  s.rotation ≠ none ∧ ∀ action, OfParty action → ¬ s.Moves action

/-! ## The circle of waits -/

/-- The goroutine of the connection waits for `s.mu` or `sessionMu`, or is done, and so is its
writer. -/
def Waits (c : SessionConn) : Prop :=
  (c.reader = .accepted ∨ c.reader = .linked ∨ c.reader = .holding ∨ c.reader = .returned) ∧
    c.writer = .gone

/-- The rotation waits for the run loop, the run loop for the queues of the backends, and the
connections for the rotation. -/
def Stuck (s : RotatingSession) : Prop :=
  s.rotation = some .port ∧ s.queue = [] ∧ s.port.phase ≠ .idle ∧ s.port.phase ≠ .filling ∧
    s.port.waitForBackendSlot = none ∧ ∀ c ∈ s.conns, Waits c

instance (c : SessionConn) : Decidable (Waits c) :=
  inferInstanceAs (Decidable ((_ ∨ _ ∨ _ ∨ _) ∧ _))

instance (s : RotatingSession) : Decidable s.Stuck :=
  inferInstanceAs (Decidable (_ ∧ _ ∧ _ ∧ _ ∧ _ ∧ ∀ c ∈ s.conns, Waits c))

variable {s : RotatingSession}

theorem mem_setConn {c x : SessionConn} (h : x ∈ (s.setConn c).conns) : x = c ∨ x ∈ s.conns := by
  obtain ⟨y, hy, rfl⟩ := mem_map.mp h
  split
  · exact .inl rfl
  · exact .inr hy

variable {s' : RotatingSession}

/-- Only the network can act on a waiting connection during a rotation, and it waits on. -/
theorem Waits.step {c : SessionConn} {action : ConnAction} (h : Waits c) (hrot : s.rotation ≠ none)
    (hstep : s.connStep c action = some s') :
    (action = .arrive ∨ action = .close) ∧ ∃ c', Waits c' ∧ s' = s.setConn c' := by
  obtain ⟨hreader, hwriter⟩ := h
  cases action with
  | arrive =>
    simp only [connStep, Option.ite_none_left_eq_some, Option.some.injEq] at hstep
    exact ⟨.inl rfl, { c with buffered := c.buffered + 1 }, ⟨hreader, hwriter⟩, hstep.2.symm⟩
  | close =>
    obtain rfl := Option.some.inj hstep
    exact ⟨.inr rfl, { c with closed := true }, ⟨hreader, hwriter⟩, rfl⟩
  | _ => rcases hreader with h | h | h | h <;> simp [connStep, hrot, h, hwriter] at hstep

/-- The run loop does not leave its wait, and a write to the port changes only its input. -/
theorem waiting_step {p p' : AsyncPort} {action : AsyncPort.Action} (hloop : ofLoop action = true)
    (hidle : p.phase ≠ .idle) (hfilling : p.phase ≠ .filling) (hslot : p.waitForBackendSlot = none)
    (hstep : p.step action = some p') :
    (∃ frame, action = .write frame) ∧ p'.phase = p.phase ∧
      p'.waitForBackendSlot = p.waitForBackendSlot := by
  obtain ⟨frame, hphase⟩ : ∃ frame, p.phase = .waiting frame := by
    cases hphase : p.phase with
    | idle => exact absurd hphase hidle
    | waiting frame => exact ⟨frame, rfl⟩
    | filling => exact absurd hphase hfilling
  cases action with
  | write frame =>
    obtain rfl := Option.some.inj hstep
    refine ⟨⟨frame, rfl⟩, ?_⟩
    simp only [AsyncPort.writeOwnedFrame]
    split <;> exact ⟨rfl, rfl⟩
  | takeFrame => simp [AsyncPort.step, AsyncPort.takeFrame, hphase] at hstep
  | gotSlot => simp [AsyncPort.step, AsyncPort.gotSlot, hphase, hslot] at hstep
  | fill => simp [AsyncPort.step, AsyncPort.fill, hphase] at hstep
  | dispatch choice => simp [AsyncPort.step, hphase] at hstep
  | _ => simp [ofLoop] at hloop

/-- Nothing ends the circle: whatever happens, it is the network or a write to the port, and the
rotation waits on. -/
theorem Stuck.step {action : Action} (h : s.Stuck) (hstep : s.step action = some s') :
    ¬ OfParty action ∧ s'.Stuck := by
  obtain ⟨hrot, hqueue, hidle, hfilling, hslot, hwaits⟩ := h
  cases action with
  | accept id => simp [RotatingSession.step, hrot] at hstep
  | conn id action =>
    obtain ⟨c, hfound, hstep⟩ := Option.bind_eq_some_iff.mp hstep
    have hc := (mem_of_find_key hfound).1
    obtain ⟨haction, c', hc', rfl⟩ := (hwaits c hc).step (by simp [hrot]) hstep
    refine ⟨by rcases haction with rfl | rfl <;> simp [OfParty], hrot, hqueue, hidle, hfilling,
      hslot, fun x hx => ?_⟩
    rcases mem_setConn hx with rfl | hx
    · exact hc'
    · exact hwaits x hx
  | work => simp [RotatingSession.step, hqueue] at hstep
  | port action =>
    simp only [RotatingSession.step, Option.ite_none_right_eq_some] at hstep
    obtain ⟨⟨hloop, -⟩, hstep⟩ := hstep
    obtain ⟨port, hport, rfl⟩ := Option.map_eq_some_iff.mp hstep
    obtain ⟨⟨frame, rfl⟩, hphase, hslot'⟩ := waiting_step hloop hidle hfilling hslot hport
    refine ⟨by simp [OfParty], hrot, hqueue, hphase ▸ hidle, hphase ▸ hfilling,
      hslot'.trans hslot, ?_⟩
    simpa [mapConns, drained] using hwaits
  | rotate | enqueueBarrier | awaitBarrier => simp [RotatingSession.step, hrot] at hstep
  | resetEpoch k ic => simp [RotatingSession.step, AsyncPort.step, hrot, hidle] at hstep

/-- In the circle no party has a step at all. -/
theorem Stuck.deadlocked (h : s.Stuck) : s.Deadlocked := by
  refine ⟨by simp [h.1], ?_⟩
  rintro action hparty ⟨s', hstep, -⟩
  exact (h.step hstep).1 hparty

/-- The rotation of a stuck session never ends. -/
theorem Stuck.forever {actions : List Action} (h : s.Stuck)
    (hrun : run RotatingSession.step s actions = some s') : s'.rotation = some .port :=
  (run_preserves (fun _ _ _ h hstep => (Stuck.step h hstep).2) h hrun).1

/-! ## Rotations that find the readers waiting for their sockets -/

/-- The reader waits for the socket and has nothing to read. -/
def Listening (c : SessionConn) : Prop := c.reader = .reading ∧ c.buffered = 0

instance (c : SessionConn) : Decidable (Listening c) := inferInstanceAs (Decidable (_ ∧ _))

/-- A rotation begins when the readers of all backends wait for their sockets, and no backend is
registered during it. -/
def Quiet (s : RotatingSession) : Action → Prop
  | .rotate => ∀ c ∈ s.conns, c.id ∈ s.port.backends → Listening c
  | .conn _ .register => s.rotation = none
  | _ => True

instance (s : RotatingSession) : DecidablePred s.Quiet
  | .rotate => inferInstanceAs (Decidable (∀ c ∈ s.conns, c.id ∈ s.port.backends → Listening c))
  | .conn _ action =>
    match action with
    | .register => inferInstanceAs (Decidable (s.rotation = none))
    | .measure | .capture | .arrive | .close | .readFrame | .compare | .push | .flush | .leave
    | .take | .send | .wrote | .keepAlive | .cancelled => isTrue trivial
  | .accept _ | .work | .port _ | .enqueueBarrier | .awaitBarrier | .resetEpoch .. => isTrue trivial

/-- The connection has a backend. -/
def Serving (c : SessionConn) : Prop :=
  c.reader = .linked ∨ c.reader = .reading ∨ c.reader = .holding ∨ c.reader = .checked

/-- Every backend is that of a connection, and during a rotation its reader has only the closed
socket to wait for. -/
structure Sound (s : RotatingSession) : Prop where
  ids : (s.conns.map SessionConn.id).Nodup
  nodup : s.port.backends.Nodup
  serving : ∀ b ∈ s.port.backends, ∃ c ∈ s.conns, c.id = b ∧ Serving c
  listening : s.rotation ≠ none → ∀ c ∈ s.conns, c.id ∈ s.port.backends →
    c.closed = true ∧ Listening c

theorem Sound.new (worker : Bool) (encoder : Option FecEncoder) : (new worker encoder).Sound where
  ids := nodup_nil
  nodup := nodup_nil
  serving := by simp [RotatingSession.new, AsyncPort.new]
  listening := by simp [RotatingSession.new]

section Steps

variable {s s' : RotatingSession} {c c' : SessionConn}

theorem map_ids {conns : List SessionConn} {f : SessionConn → SessionConn}
    (hid : ∀ c ∈ conns, (f c).id = c.id) :
    (conns.map f).map SessionConn.id = conns.map SessionConn.id := by
  rw [map_map]
  exact map_congr_left hid

theorem setConn_id (x : SessionConn) : (if x.id = c.id then c else x).id = x.id := by
  split
  · rename_i heq
    exact heq.symm
  · rfl

/-- A change of the connections alone. -/
theorem Sound.map (h : s.Sound) {f : SessionConn → SessionConn} (hconns : s'.conns = s.conns.map f)
    (hbackends : s'.port.backends = s.port.backends) (hid : ∀ c ∈ s.conns, (f c).id = c.id)
    (hserving : ∀ c ∈ s.conns, Serving c → Serving (f c))
    (hlistening : s'.rotation ≠ none → ∀ c ∈ s.conns, c.id ∈ s.port.backends →
      (f c).closed = true ∧ Listening (f c)) : s'.Sound := by
  refine ⟨?_, hbackends ▸ h.nodup, ?_, ?_⟩
  · rw [hconns, map_ids hid]
    exact h.ids
  · rw [hbackends, hconns]
    intro b hb
    obtain ⟨c, hc, rfl, hserves⟩ := h.serving b hb
    exact ⟨f c, mem_map_of_mem hc, hid c hc, hserving c hc hserves⟩
  · rw [hbackends, hconns]
    intro hrot x hx hb
    obtain ⟨c, hc, rfl⟩ := mem_map.mp hx
    exact hlistening hrot c hc (hid c hc ▸ hb)

/-- A change of one connection. -/
theorem Sound.set (h : s.Sound) (hc : c ∈ s.conns) (hconns : s'.conns = (s.setConn c').conns)
    (hbackends : s'.port.backends = s.port.backends) (hrot : s'.rotation = s.rotation)
    (hid : c'.id = c.id) (hserving : Serving c → Serving c')
    (hlistening : s.rotation ≠ none → c.closed = true ∧ Listening c →
      c'.closed = true ∧ Listening c') : s'.Sound := by
  have hunique : ∀ x ∈ s.conns, x.id = c'.id → x = c := fun x hx heq =>
    inj_on_of_nodup_map h.ids hx hc (heq.trans hid)
  refine h.map hconns hbackends (fun x _ => setConn_id x) (fun x hx hserves => ?_)
    fun hrotating x hx hb => ?_
  · split
    · rename_i heq
      exact hserving (hunique x hx heq ▸ hserves)
    · exact hserves
  · rw [hrot] at hrotating
    split
    · rename_i heq
      exact hlistening hrotating (hunique x hx heq ▸ h.listening hrotating x hx hb)
    · exact h.listening hrotating x hx hb

/-- A flush only adds work to the queue. -/
theorem flush_eq_some (h : s.flush c = some s') : ∃ queue, s' = { s with queue } := by
  simp only [flush, enqueue] at h
  split at h
  · exact ⟨s.queue, (Option.some.inj h).symm⟩
  · split at h
    · exact ⟨_, (Option.some.inj h).symm⟩
    · contradiction

/-- The backend of a connection goes with its reader. -/
theorem Sound.leave (h : s.Sound) (hleave : s.leave c = some s') : s'.Sound := by
  obtain ⟨s₁, hflush, rfl⟩ := Option.map_eq_some_iff.mp hleave
  obtain ⟨queue, rfl⟩ := flush_eq_some hflush
  have hother : ∀ x ∈ s.conns, x.id ≠ c.id →
      x ∈ (s.setConn { c with reader := .returned, closed := true, pending := 0 }).conns :=
    fun x hx hne => mem_map.mpr ⟨x, hx, if_neg hne⟩
  refine ⟨?_, h.nodup.erase c.id, ?_, ?_⟩
  · have hids := map_ids fun x (_ : x ∈ s.conns) =>
      setConn_id (c := { c with reader := .returned, closed := true, pending := 0 }) x
    exact hids ▸ h.ids
  · intro b hb
    obtain ⟨hne, hmem⟩ := h.nodup.mem_erase_iff.mp hb
    obtain ⟨x, hx, rfl, hserves⟩ := h.serving b hmem
    exact ⟨x, hother x hx hne, rfl, hserves⟩
  · intro hrot x hx hb
    obtain ⟨hne, hmem⟩ := h.nodup.mem_erase_iff.mp hb
    rcases mem_setConn hx with rfl | hx
    · exact absurd rfl hne
    · exact h.listening hrot x hx hmem

/-- A connection that had no backend registers one while no rotation is underway. -/
theorem Sound.register (h : s.Sound) (hc : c ∈ s.conns) (hreader : c.reader = .measured)
    (hrot : s.rotation = none) :
    { s.setConn { c with reader := .linked, writer := .idle } with
      port := s.port.registerOwnedBackend c.id connTxCapacity }.Sound := by
  have hset : (s.setConn { c with reader := .linked, writer := .idle }).Sound :=
    h.set hc rfl rfl rfl rfl (by simp [Serving, hreader]) (by simp [hrot])
  -- a connection without a backend is not in the list, so that it stays free of duplicates
  have hnew : c.id ∉ s.port.backends := by
    intro hmem
    obtain ⟨x, hx, heq, hserves⟩ := h.serving c.id hmem
    rw [inj_on_of_nodup_map h.ids hx hc heq] at hserves
    simp [Serving, hreader] at hserves
  refine ⟨hset.ids, ?_, ?_, fun hrotating => absurd hrot hrotating⟩
  · refine nodup_append.mpr ⟨h.nodup, nodup_singleton _, fun b hb x hx heq => ?_⟩
    exact hnew (mem_singleton.mp hx ▸ heq ▸ hb)
  · intro b hb
    rcases mem_append.mp hb with hold | hb
    · exact hset.serving b hold
    · obtain rfl := mem_singleton.mp hb
      exact ⟨_, mem_map.mpr ⟨c, hc, if_pos rfl⟩, rfl, .inl rfl⟩

theorem Sound.push (h : s.Sound) (hc : c ∈ s.conns) (hreader : c.reader = .checked)
    (hpush : s.push c = some s') : s'.Sound := by
  have hlistening : ¬ (c.closed = true ∧ Listening c) := by simp [Listening, hreader]
  simp only [RotatingSession.push] at hpush
  split at hpush
  · split at hpush
    · obtain ⟨s₁, hflush, rfl⟩ := Option.map_eq_some_iff.mp hpush
      obtain ⟨queue, rfl⟩ := flush_eq_some hflush
      exact h.set hc rfl rfl rfl rfl (fun _ => .inr (.inl rfl)) fun _ hl => absurd hl hlistening
    · obtain rfl := Option.some.inj hpush
      exact h.set hc rfl rfl rfl rfl (fun _ => .inr (.inl rfl)) fun _ hl => absurd hl hlistening
  · obtain rfl := Option.some.inj hpush
    exact h.set hc rfl rfl rfl rfl (fun _ => .inr (.inl rfl)) fun _ hl => absurd hl hlistening

/-- An action of a connection. During a rotation a listening reader can only return. -/
theorem Sound.connStep {action : ConnAction} (h : s.Sound) (hc : c ∈ s.conns)
    (hquiet : s.Quiet (.conn c.id action)) (hstep : s.connStep c action = some s') : s'.Sound := by
  cases action with
  | measure =>
    obtain ⟨⟨hreader, hrot⟩, rfl⟩ := of_guarded hstep
    exact h.set hc rfl rfl rfl rfl (by simp [Serving, hreader]) fun hne => absurd hrot hne
  | register =>
    obtain ⟨hreader, rfl⟩ := of_guarded hstep
    exact h.register hc hreader hquiet
  | capture =>
    obtain ⟨⟨-, hrot⟩, rfl⟩ := of_guarded hstep
    exact h.set hc rfl rfl rfl rfl (fun _ => .inr (.inl rfl)) fun hne => absurd hrot hne
  | arrive =>
    obtain ⟨hopen, rfl⟩ := of_blocked hstep
    exact h.set hc rfl rfl rfl rfl id fun _ hl => absurd hl.1 hopen
  | close =>
    obtain rfl := Option.some.inj hstep
    exact h.set hc rfl rfl rfl rfl id fun _ hl => ⟨rfl, hl.2⟩
  | readFrame =>
    obtain ⟨⟨-, hbuffered⟩, rfl⟩ := of_guarded hstep
    refine h.set hc rfl rfl rfl rfl (fun _ => .inr (.inr (.inl rfl))) fun _ hl => ?_
    exact absurd hl.2.2 hbuffered.ne'
  | compare =>
    simp only [RotatingSession.connStep, Option.ite_none_right_eq_some] at hstep
    obtain ⟨⟨-, hrot⟩, hstep⟩ := hstep
    split at hstep
    · obtain rfl := Option.some.inj hstep
      exact h.set hc rfl rfl rfl rfl (fun _ => .inr (.inr (.inr rfl)))
        fun hne => absurd hrot hne
    · exact h.leave hstep
  | push =>
    simp only [RotatingSession.connStep, Option.ite_none_right_eq_some] at hstep
    exact h.push hc hstep.1 hstep.2
  | flush =>
    simp only [RotatingSession.connStep, Option.ite_none_right_eq_some] at hstep
    obtain ⟨s₁, hflush, rfl⟩ := Option.map_eq_some_iff.mp hstep.2
    obtain ⟨queue, rfl⟩ := flush_eq_some hflush
    exact h.set hc rfl rfl rfl rfl id fun _ hl => hl
  | leave =>
    simp only [RotatingSession.connStep, Option.ite_none_right_eq_some] at hstep
    exact h.leave hstep.2
  | take =>
    obtain ⟨-, rfl⟩ := of_guarded hstep
    have hdrain : s.port.step (.drain c.id) = some (s.port.drain c.id) := rfl
    exact h.set hc rfl (AsyncPort.step_keeps_backends (by simp) (by simp) hdrain).1 rfl rfl id
      fun _ hl => hl
  | send =>
    obtain ⟨-, rfl⟩ := of_guarded hstep
    exact h.set hc rfl rfl rfl rfl id fun _ hl => hl
  | wrote =>
    simp only [RotatingSession.connStep, Option.ite_none_right_eq_some] at hstep
    obtain ⟨-, hstep⟩ := hstep
    split at hstep
    · obtain rfl := Option.some.inj hstep
      exact h.set hc rfl rfl rfl rfl id fun _ hl => hl
    · obtain rfl := Option.some.inj hstep
      exact h.set hc rfl rfl rfl rfl id fun _ hl => hl
  | keepAlive | cancelled =>
    obtain ⟨-, rfl⟩ := of_guarded hstep
    exact h.set hc rfl rfl rfl rfl id fun _ hl => hl

/-- During a rotation no backend comes in. -/
theorem Sound.step {action : Action} (h : s.Sound) (hquiet : s.Quiet action)
    (hstep : s.step action = some s') : s'.Sound := by
  cases action with
  | accept id =>
    obtain ⟨⟨hrot, hnew⟩, rfl⟩ := of_guarded hstep
    refine ⟨?_, h.nodup, fun b hb => ?_, fun hne => absurd hrot hne⟩
    · rw [map_append]
      refine nodup_append.mpr ⟨h.ids, nodup_singleton _, fun b hb x hx heq => ?_⟩
      obtain ⟨c, hc, rfl⟩ := mem_map.mp hb
      exact find_key_eq_none.mp hnew c hc (heq.trans (mem_singleton.mp hx))
    · obtain ⟨c, hc, heq, hserves⟩ := h.serving b hb
      exact ⟨c, mem_append_left _ hc, heq, hserves⟩
  | conn id action =>
    obtain ⟨c, hfound, hconn⟩ := Option.bind_eq_some_iff.mp hstep
    obtain ⟨hc, rfl⟩ := mem_of_find_key hfound
    exact h.connStep hc hquiet hconn
  | work =>
    simp only [RotatingSession.step] at hstep
    split at hstep
    · contradiction
    · obtain rfl := Option.some.inj hstep
      exact ⟨h.ids, h.nodup, h.serving, h.listening⟩
  | port action =>
    simp only [RotatingSession.step, Option.ite_none_right_eq_some] at hstep
    obtain ⟨⟨hloop, -⟩, hstep⟩ := hstep
    obtain ⟨port, hport, rfl⟩ := Option.map_eq_some_iff.mp hstep
    refine h.map rfl (AsyncPort.step_keeps_backends ?_ ?_ hport).1 ?_ ?_ ?_
    · rintro b capacity rfl
      simp [ofLoop] at hloop
    · rintro b rfl
      simp [ofLoop] at hloop
    · intro c _
      split <;> rfl
    · intro c _ hserves
      split <;> exact hserves
    · intro hrot c hc hb
      have hl := h.listening hrot c hc hb
      split <;> exact hl
  | rotate =>
    obtain ⟨-, rfl⟩ := of_guarded hstep
    exact h.map rfl rfl (fun _ _ => rfl) (fun _ _ hserves => hserves)
      fun _ c hc hb => ⟨rfl, hquiet c hc hb⟩
  | enqueueBarrier =>
    simp only [RotatingSession.step, enqueue, Option.ite_none_right_eq_some] at hstep
    obtain ⟨hrot, hstep⟩ := hstep
    obtain ⟨s₁, hqueue, rfl⟩ := Option.map_eq_some_iff.mp hstep
    obtain ⟨-, rfl⟩ := of_guarded hqueue
    exact ⟨h.ids, h.nodup, h.serving, fun _ => h.listening (by simp [hrot])⟩
  | awaitBarrier =>
    obtain ⟨⟨hrot, -⟩, rfl⟩ := of_guarded hstep
    exact ⟨h.ids, h.nodup, h.serving, fun _ => h.listening (by simp [hrot])⟩
  | resetEpoch k ic =>
    simp only [RotatingSession.step, Option.ite_none_right_eq_some] at hstep
    obtain ⟨port, hport, rfl⟩ := Option.map_eq_some_iff.mp hstep.2
    have hbackends := (AsyncPort.step_keeps_backends (by simp) (by simp) hport).1
    exact ⟨h.ids, hbackends ▸ h.nodup, hbackends ▸ h.serving, fun hne => absurd rfl hne⟩

/-! ### Somebody can go on -/

/-- The worker is never in the way: it can take from a queue that is full. -/
theorem work_of_ne_nil (h : s.queue ≠ []) : s.Moves .work := by
  cases hqueue : s.queue with
  | nil => exact absurd hqueue h
  | cons work rest =>
    refine ⟨{ s with queue := rest }, by simp [RotatingSession.step, hqueue], fun heq => ?_⟩
    have hlength := congrArg (fun t => t.queue.length) heq
    simp [hqueue] at hlength

theorem work_of_full (h : ¬ s.queue.length < rxSessionQueueDepth) : s.Moves .work := by
  refine work_of_ne_nil fun hnone => h ?_
  simp [hnone, rxSessionQueueDepth]

/-- A reader that returns takes its backend along. -/
theorem leave_moves (hnodup : s.port.backends.Nodup) (hb : c.id ∈ s.port.backends)
    (hleave : s.leave c = some s') : s' ≠ s := by
  obtain ⟨s₁, hflush, rfl⟩ := Option.map_eq_some_iff.mp hleave
  obtain ⟨queue, rfl⟩ := flush_eq_some hflush
  intro heq
  have hbackends : s.port.backends.erase c.id = s.port.backends :=
    congrArg (fun t => t.port.backends) heq
  exact hnodup.not_mem_erase (hbackends ▸ hb)

/-- A reader with a closed socket returns, at the latest after the worker has made room. -/
theorem Sound.leave_or_work (h : s.Sound) (hc : c ∈ s.conns) (hb : c.id ∈ s.port.backends)
    (hclosed : c.closed = true) (hlistening : Listening c) :
    s.Moves (.conn c.id .leave) ∨ s.Moves .work := by
  obtain ⟨hreader, hbuffered⟩ := hlistening
  by_cases hroom : s.queue.length < rxSessionQueueDepth
  · have hfound : s.findConn c.id = some c := (find_key_eq_some h.ids).mpr ⟨hc, rfl⟩
    obtain ⟨s', hleave⟩ : ∃ s', s.leave c = some s' := by
      by_cases hpending : c.pending = 0 <;>
        simp [RotatingSession.leave, RotatingSession.flush, hpending, enqueue, hroom]
    refine .inl ⟨s', ?_, leave_moves h.nodup hb hleave⟩
    simp [RotatingSession.step, hfound, RotatingSession.connStep, hreader, hclosed, hbuffered,
      hleave]
  · exact .inr (work_of_full hroom)

/-- A dispatch to the first backend, without any writer taking part. -/
def firstChoice (p : AsyncPort) : Choice :=
  ⟨p.backends.headD 0, [], List.replicate p.encode.2.length ([], p.backends.headD 0)⟩

theorem picks_firstChoice (p : AsyncPort) : p.Picks (firstChoice p) := by
  intro hne
  have hhead : p.backends.headD 0 ∈ p.backends := by
    cases hbackends : p.backends with
    | nil => exact absurd hbackends hne
    | cons b rest => simp
  refine ⟨hhead, fun entry hentry => ?_, by simp [firstChoice]⟩
  rw [(mem_replicate.mp hentry).2]
  exact hhead

/-- The phase of the port tells a state of the session from another one. -/
theorem ne_of_phase (h : s'.port.phase ≠ s.port.phase) : s' ≠ s :=
  fun heq => h (congrArg (fun t => t.port.phase) heq)

/-- The run loop is idle after a dispatch. -/
theorem dispatch_phase {p : AsyncPort} {choice : Choice} (hpicks : p.Picks choice) :
    (p.dispatchOwnedBatch choice).phase = .idle := by
  by_cases hnone : p.backends = []
  · rw [AsyncPort.dispatchOwnedBatch, if_pos hnone]
    rfl
  · obtain ⟨_, _, _, _, hsends, _⟩ := AsyncPort.dispatch_sends (hpicks hnone).1
    exact hsends.keeps.phase_eq

theorem dispatch_of_filling (hphase : s.port.phase = .filling) :
    s.Moves (.port (.dispatch (firstChoice s.port))) := by
  have hpicks := picks_firstChoice s.port
  have hdrained : drained (.dispatch (firstChoice s.port)) = [] := by
    simp [drained, firstChoice, flatMap_replicate]
  refine ⟨{ s with port := s.port.dispatchOwnedBatch (firstChoice s.port) }, ?_,
    ne_of_phase ?_⟩
  · simp [RotatingSession.step, ofLoop, hdrained, Draining, AsyncPort.step, hphase, hpicks,
      mapConns]
  · show (s.port.dispatchOwnedBatch _).phase ≠ s.port.phase
    rw [dispatch_phase hpicks, hphase]
    exact RunPhase.noConfusion

/-- The run loop does not wait with a frame after it has got its slot. -/
theorem gotSlot_phase {p p' : AsyncPort} (hstep : p.gotSlot = some p') (frame : Bytes) :
    p'.phase ≠ .waiting frame := by
  simp only [AsyncPort.gotSlot] at hstep
  split at hstep
  · split at hstep
    · contradiction
    · obtain rfl := Option.some.inj hstep
      exact RunPhase.noConfusion
    · obtain rfl := Option.some.inj hstep
      -- the frame is dropped when the numbers are exhausted, or starts a batch
      by_cases hlast : p.txSeq = maxUint32 <;>
        simp [AsyncPort.number, AsyncPort.nextSeq, hlast, AsyncPort.dropN]
  · contradiction

/-- A run loop that waits for a slot gets it, or the readers of the full backends can return. -/
theorem Sound.progress_waiting (h : s.Sound) (hrot : s.rotation ≠ none) {frame : Bytes}
    (hphase : s.port.phase = .waiting frame) : ∃ action, OfParty action ∧ s.Moves action := by
  cases hslot : s.port.waitForBackendSlot with
  | some ready =>
    obtain ⟨port, hport⟩ : ∃ port, s.port.gotSlot = some port := by
      cases ready <;> simp [AsyncPort.gotSlot, hphase, hslot]
    refine ⟨.port .gotSlot, trivial, { s with port }, ?_, ne_of_phase ?_⟩
    · simp [RotatingSession.step, ofLoop, drained, Draining, AsyncPort.step, hport, mapConns]
    · exact hphase ▸ gotSlot_phase hport frame
  | none =>
    -- all backends are full, and the reader of any of them has seen its socket closed
    obtain ⟨b, hb⟩ : ∃ b, b ∈ s.port.backends := by
      refine exists_mem_of_ne_nil _ fun hnone => ?_
      simp [AsyncPort.waitForBackendSlot, hnone] at hslot
    obtain ⟨c, hc, rfl, -⟩ := h.serving b hb
    obtain ⟨hclosed, hlistening⟩ := h.listening hrot c hc hb
    rcases h.leave_or_work hc hb hclosed hlistening with hleave | hwork
    · exact ⟨.conn c.id .leave, trivial, hleave⟩
    · exact ⟨.work, trivial, hwork⟩

/-- The rotation itself goes on when its wait is over. -/
theorem moves_of_rotation {action : Action} (hstep : s.step action = some s')
    (hne : s'.rotation ≠ s.rotation) : s.Moves action :=
  ⟨s', hstep, fun heq => hne (congrArg RotatingSession.rotation heq)⟩

/-- During a rotation somebody can go on. -/
theorem Sound.progress (h : s.Sound) (hrot : s.rotation ≠ none) :
    ∃ action, OfParty action ∧ s.Moves action := by
  cases hwait : s.rotation with
  | none => exact absurd hwait hrot
  | some wait =>
    cases wait with
    | barrier =>
      by_cases hroom : s.queue.length < rxSessionQueueDepth
      · refine ⟨.enqueueBarrier, trivial, moves_of_rotation
          (by simp [RotatingSession.step, hwait, enqueue, hroom]; rfl) (by simp [hwait])⟩
      · exact ⟨.work, trivial, work_of_full hroom⟩
    | await =>
      by_cases hpassed : .barrier (s.epoch + 1) ∈ s.queue
      · exact ⟨.work, trivial, work_of_ne_nil (ne_nil_of_mem hpassed)⟩
      · exact ⟨.awaitBarrier, trivial, moves_of_rotation
          (by simp [RotatingSession.step, hwait, hpassed]; rfl) (by simp [hwait])⟩
    | port =>
      cases hphase : s.port.phase with
      | idle =>
        exact ⟨.resetEpoch 0 none, trivial, moves_of_rotation
          (by simp [RotatingSession.step, hwait, AsyncPort.step, hphase]; rfl)
          (by simp [hwait])⟩
      | waiting frame => exact h.progress_waiting hrot hphase
      | filling =>
        exact ⟨.port (.dispatch (firstChoice s.port)), trivial, dispatch_of_filling hphase⟩

end Steps

/-- In every state of a run, a rotation that is underway is not part of a deadlock. -/
theorem rotation_never_deadlocks (worker : Bool) (encoder : Option FecEncoder)
    {actions : List Action} {s : RotatingSession}
    (hquiet : Along step Quiet (new worker encoder) actions)
    (hrun : run step (new worker encoder) actions = some s) : ¬ s.Deadlocked := by
  have h : s.Sound := run_invariant (fun _ _ _ h hquiet hstep => h.step hquiet hstep)
    (Sound.new worker encoder) hquiet hrun
  rintro ⟨hrot, hblocked⟩
  obtain ⟨action, hparty, hmoves⟩ := h.progress hrot
  exact hblocked action hparty hmoves

/-- A frame goes through the port to the backend of connection 0. -/
def sendFrame : List Action :=
  [.port (.write [0]), .port .takeFrame, .port .gotSlot, .port (.dispatch ⟨0, [], []⟩)]

/-- The writer of the only connection is held up by the network, its queue fills up, and the run
loop waits with one more frame. -/
def heldUp : List Action :=
  [.accept 0, .conn 0 .measure, .conn 0 .register, .conn 0 .capture] ++ sendFrame ++
    [.conn 0 .take, .conn 0 .send] ++ (List.replicate connTxCapacity sendFrame).flatten ++
    [.port (.write [0]), .port .takeFrame]

/-- The session is rotated. The writer ends, and the worker passes the barrier. -/
def rotated : List Action :=
  [.rotate, .conn 0 .wrote, .enqueueBarrier, .work, .awaitBarrier]

/-- With the reader waiting for its socket, the rotation that waits for the run loop goes on. -/
theorem held_up_not_deadlocked : ∃ s,
    run step (new true none) (heldUp ++ rotated) = some s ∧
      (s.rotation = some .port ∧ s.port.waitForBackendSlot = none) ∧ ¬ s.Deadlocked := by
  obtain ⟨s, hrun, hwaits⟩ : ∃ s, run step (new true none) (heldUp ++ rotated) = some s ∧
      (s.rotation = some .port ∧ s.port.waitForBackendSlot = none) :=
    exists_run_of_decide (by decide +kernel)
  exact ⟨s, hrun, hwaits, rotation_never_deadlocks true none (by decide +kernel) hrun⟩

/-- With a frame in the reader's hands, nobody goes on. -/
theorem full_queue_deadlocks : ∃ s,
    run step (new true none) (heldUp ++ [.conn 0 .arrive, .conn 0 .readFrame] ++ rotated) = some s ∧
      s.Deadlocked := by
  obtain ⟨s, hrun, hstuck⟩ : ∃ s, run step (new true none)
      (heldUp ++ [.conn 0 .arrive, .conn 0 .readFrame] ++ rotated) = some s ∧ s.Stuck :=
    exists_run_of_decide (by decide +kernel)
  exact ⟨s, hrun, hstuck.deadlocked⟩

end RotatingSession

end TlsVpn.Server
