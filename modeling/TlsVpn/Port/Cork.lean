import TlsVpn.Lib.Bytes
import TlsVpn.Lib.Run

/-!
# The cork of a connection

Translation of `tlsBatchCork`. A batch corks the socket, and a timer takes the cork out again. The
system below adds what lies outside the type: the runtime, which starts the callback of a timer
some time after it is due, callbacks that have started and wait for the mutex, and the calls of
`setCork` with their results.

`corked_flush_pending` says that a corked connection always has a flush on its way, which is either
a timer or one started callback, and that nothing is armed any more once `setCork` has failed or
`Close` has run. The invariant behind it, `Sound`, counts flushes: there is exactly one while the
cork is in, and none otherwise.
-/

namespace TlsVpn.Port

open Lib

/-- Times are in nanoseconds. -/
def tlsBatchCorkRTTThreshold : Int := 1000000

/-- The longest delay. -/
def tlsBatchCorkMaxDelay : Int := 150000

/-- For an unknown segment size. -/
def fallbackTCPMSS : Int := 1440

/-- The delay for a round-trip time, and whether to cork at all. -/
def tlsBatchCorkPolicyForRTT (rtt : Int) : Int × Bool :=
  if rtt ≤ 0 then (tlsBatchCorkMaxDelay, true)
  else if rtt < tlsBatchCorkRTTThreshold then (0, false)
  else (min (rtt.tdiv 8) tlsBatchCorkMaxDelay, true)

/-- The state of `tlsBatchCork`. -/
structure TlsBatchCork where
  /-- The published flag, once it is bound. -/
  carryState : Option Bool := none
  delay : Int
  mss : Int
  noop : Bool
  enabled : Bool
  corked : Bool := false
  closed : Bool := false
  progress : Int := 0
  deadline : Option Int := none
  /-- The timer, once it is created, with the time at which it is due if it is running. -/
  timer : Option (Option Int) := none
  timerArmed : Bool := false
  deriving DecidableEq, Repr

/-- What the kernel says about a TCP connection. -/
structure TransportInfo where
  mss : Option Int
  rtt : Int

/-- The clock as `BeforeWrite` reads it: when it corks, when a segment is full, when it arms. -/
structure ClockReadings where
  corking : Int
  filling : Int
  arming : Int
  deriving DecidableEq, Repr

/-- A call of `setCork`. -/
structure SetCork where
  on : Bool
  failed : Bool
  deriving DecidableEq, Repr

namespace TlsBatchCork

/-- A cork as it is constructed. -/
def fresh (delay mss : Int) (enabled : Bool) : TlsBatchCork where
  delay := delay
  mss := mss
  noop := !enabled
  enabled := enabled

/-- Without a TCP connection the cork does nothing. -/
def newTLSBatchCork : Option TransportInfo → TlsBatchCork
  | none => fresh tlsBatchCorkMaxDelay fallbackTCPMSS false
  | some tcp =>
    let mss := (tcp.mss.filter (256 ≤ ·)).getD fallbackTCPMSS
    match tlsBatchCorkPolicyForRTT tcp.rtt with
    | (_, false) => fresh tlsBatchCorkMaxDelay mss false
    | (delay, true) => fresh delay mss true

/-- The flag starts with the state of the cork. -/
def bindCarryState (c : TlsBatchCork) : TlsBatchCork := { c with carryState := some c.corked }

/-- Only a bound flag is written. -/
def publishCarryLocked (c : TlsBatchCork) (v : Bool) : TlsBatchCork :=
  { c with carryState := c.carryState.map fun _ => v }

/-- The time until the deadline. A zero deadline is as far in the past as a duration can say. -/
def untilDeadline (c : TlsBatchCork) (now : Int) : Int :=
  match c.deadline with
  | none => -9223372036854775808
  | some deadline => deadline - now

/-- A timer that is armed is not set again. -/
def ensureTimerLocked (c : TlsBatchCork) (now : Int) : TlsBatchCork :=
  if !c.enabled || !c.corked || c.closed || c.timerArmed then c
  else { c with timer := some (some (now + max (c.untilDeadline now) 0)), timerArmed := true }

/-- A batch counts towards the segment that is held back. -/
def grow (c : TlsBatchCork) (n : Int) (clock : ClockReadings) : TlsBatchCork :=
  let progress := wrap64 (c.progress + n)
  let c :=
    if progress ≥ c.mss then
      { c with
        progress := progress.tmod c.mss
        deadline := some (clock.filling + c.delay) }
    else
      { c with
        progress := progress
        deadline := some (c.deadline.getD (clock.filling + c.delay)) }
  c.ensureTimerLocked clock.arming

/-- The cork goes in, with a fresh deadline. -/
def plug (c : TlsBatchCork) (now : Int) : TlsBatchCork :=
  { ({ c with corked := true }).publishCarryLocked true with
    progress := 0
    deadline := some (now + c.delay) }

/-- The cork after a batch of `n` bytes, and the calls of `setCork`. -/
def beforeWrite (c : TlsBatchCork) (n : Int) (clock : ClockReadings) (fails : Bool) :
    TlsBatchCork × List SetCork :=
  if n ≤ 0 ∨ c.noop then (c, [])
  else if !c.enabled || c.closed then (c, [])
  else if c.corked then (c.grow n clock, [])
  else if fails then (({ c with enabled := false }).publishCarryLocked false, [⟨true, true⟩])
  else ((c.plug clock.corking).grow n clock, [⟨true, false⟩])

/-- The callback of the timer. -/
def flushTimer (c : TlsBatchCork) (now : Int) (fails : Bool) : TlsBatchCork × List SetCork :=
  if !c.timerArmed || !c.enabled || !c.corked || c.closed then (c, [])
  else if 0 < c.untilDeadline now then
    -- the deadline has moved since the timer was set
    ({ c with timer := some (some (now + c.untilDeadline now)) }, [])
  else
    let c := { c with timerArmed := false, deadline := none, progress := 0 }
    if fails then (({ c with enabled := false }).publishCarryLocked false, [⟨false, true⟩])
    else (({ c with corked := false }).publishCarryLocked false, [⟨false, false⟩])

/-- The cork goes out and the timer stops. -/
def close (c : TlsBatchCork) (fails : Bool) : TlsBatchCork × List SetCork :=
  if c.noop || c.closed then (c, [])
  else
    let calls := if c.enabled && c.corked then [⟨false, fails⟩] else []
    let timer := if c.timerArmed then c.timer.map fun _ => none else c.timer
    (({ c with
        closed := true
        timer := timer
        timerArmed := false
        corked := false
        deadline := none
        progress := 0 }).publishCarryLocked false, calls)

end TlsBatchCork

/-! ## The system -/

/-- A cork with its surroundings. -/
structure CorkedConn where
  cork : TlsBatchCork
  /-- Callbacks of the timer that have started and wait for the mutex. -/
  started : Nat
  calls : List SetCork
  deriving DecidableEq, Repr

/-- What happens to the cork. -/
inductive CorkAction where
  | beforeWrite (n : Int) (clock : ClockReadings) (fails : Bool)
  /-- The runtime starts the callback of a timer that is due. -/
  | fire (now : Int)
  | flushTimer (now : Int) (fails : Bool)
  | close (fails : Bool)
  deriving DecidableEq, Repr

namespace CorkedConn

/-- The connection when its writer starts. -/
def start (c : TlsBatchCork) : CorkedConn := ⟨c.bindCarryState, 0, []⟩

/-- The state after an operation of the cork. -/
def after (s : CorkedConn) (result : TlsBatchCork × List SetCork) : CorkedConn :=
  { s with cork := result.1, calls := s.calls ++ result.2 }

/-- A callback runs after its timer is due. -/
def step (s : CorkedConn) : CorkAction → Option CorkedConn
  | .beforeWrite n clock fails => some (s.after (s.cork.beforeWrite n clock fails))
  | .fire now =>
    match s.cork.timer with
    | some (some due) =>
      if due ≤ now then
        some { s with cork := { s.cork with timer := some none }, started := s.started + 1 }
      else none
    | _ => none
  | .flushTimer now fails =>
    if s.started = 0 then none
    else some ({ s with started := s.started - 1 }.after (s.cork.flushTimer now fails))
  | .close fails => some (s.after (s.cork.close fails))

/-- The timer is running. -/
def running (s : CorkedConn) : Bool := s.cork.timer.join.isSome

/-- Flushes that are on their way. -/
def flushes (s : CorkedConn) : Nat := s.running.toNat + s.started

/-! ## One step -/

/-- What a batch does to a cork that is in: a timer is armed afterwards, a new one if there was
none. -/
structure Held (c c' : TlsBatchCork) : Prop where
  enabled : c'.enabled = true
  closed : c'.closed = false
  corked : c'.corked = true
  noop : c'.noop = c.noop
  carry : c'.carryState = c.carryState
  armed : c'.timerArmed = true
  kept : c.timerArmed = true → c'.timer = c.timer
  set : c.timerArmed = false → c'.timer.join.isSome = true

variable {c : TlsBatchCork}

theorem held_ensureTimer (henabled : c.enabled = true) (hclosed : c.closed = false)
    (hcorked : c.corked = true) (now : Int) : Held c (c.ensureTimerLocked now) := by
  unfold TlsBatchCork.ensureTimerLocked
  cases harmed : c.timerArmed with
  | true | false => constructor <;> simp [henabled, hclosed, hcorked, harmed]

theorem held_grow (henabled : c.enabled = true) (hclosed : c.closed = false)
    (hcorked : c.corked = true) (n : Int) (clock : ClockReadings) : Held c (c.grow n clock) := by
  have harm : ∀ progress deadline, Held c
      ({ c with progress := progress, deadline := deadline }.ensureTimerLocked clock.arming) := by
    intro progress deadline
    obtain ⟨h₁, h₂, h₃, h₄, h₅, h₆, h₇, h₈⟩ := held_ensureTimer
      (c := { c with progress := progress, deadline := deadline }) henabled hclosed hcorked
      clock.arming
    exact ⟨h₁, h₂, h₃, h₄, h₅, h₆, h₇, h₈⟩
  unfold TlsBatchCork.grow
  dsimp only
  split
  · exact harm _ _
  · exact harm _ _

/-- A cork that is in use is in exactly while one flush is on its way, and the published flag says
so. -/
structure InUse (s : CorkedConn) : Prop where
  enabled : s.cork.enabled = true
  unclosed : s.cork.closed = false
  noop : s.cork.noop = false
  armed : s.cork.timerArmed = s.cork.corked
  carry : s.cork.carryState = some s.cork.corked
  flushing : s.flushes = s.cork.corked.toNat
  succeeded : ∀ call ∈ s.calls, call.failed = false

/-- A cork that is no longer in use has nothing to flush. -/
structure Ended (s : CorkedConn) : Prop where
  unused : s.cork.enabled = false ∨ s.cork.closed = true
  carry : s.cork.carryState = some false
  disarmed : s.cork.timerArmed = false
  stopped : s.running = false

/-- The invariant. -/
def Sound (s : CorkedConn) : Prop := s.InUse ∨ s.Ended

variable {s s' : CorkedConn}

/-- Whatever the connection is like, its cork starts fresh. -/
theorem newTLSBatchCork_fresh (tcp : Option TransportInfo) :
    ∃ delay mss enabled, TlsBatchCork.newTLSBatchCork tcp = .fresh delay mss enabled := by
  unfold TlsBatchCork.newTLSBatchCork
  split
  · exact ⟨_, _, _, rfl⟩
  · dsimp only
    split
    · exact ⟨_, _, _, rfl⟩
    · exact ⟨_, _, _, rfl⟩

theorem sound_start (delay mss : Int) (enabled : Bool) :
    (start (.fresh delay mss enabled)).Sound := by
  cases enabled with
  | true => exact .inl ⟨rfl, rfl, rfl, rfl, rfl, rfl, fun call hcall => nomatch hcall⟩
  | false => exact .inr ⟨.inl rfl, rfl, rfl, rfl⟩

/-- An operation that does nothing. -/
theorem after_self (s : CorkedConn) : s.after (s.cork, []) = s := by
  simp [after]

theorem Ended.after_close (h : s.Ended) (fails : Bool) : (s.after (s.cork.close fails)).Ended := by
  unfold TlsBatchCork.close
  split
  · rw [after_self]
    exact h
  · rw [h.disarmed]
    refine ⟨.inr rfl, ?_, rfl, h.stopped⟩
    simp [after, TlsBatchCork.publishCarryLocked, h.carry]

variable {action : CorkAction}

/-- What has ended does not come back. -/
theorem Ended.step (h : s.Ended) (hstep : s.step action = some s') : s'.Ended := by
  cases action with
  | beforeWrite n clock fails =>
    have hidle : s.cork.beforeWrite n clock fails = (s.cork, []) := by
      unfold TlsBatchCork.beforeWrite
      split
      · rfl
      · rw [if_pos]
        rcases h.unused with henabled | hclosed
        · simp [henabled]
        · simp [hclosed]
    cases hstep
    rw [hidle, after_self]
    exact h
  | fire now =>
    have hstopped := h.stopped
    unfold CorkedConn.step at hstep
    dsimp only at hstep
    split at hstep
    · rename_i due htimer
      simp [running, htimer] at hstopped
    · cases hstep
  | flushTimer now fails =>
    have hidle : s.cork.flushTimer now fails = (s.cork, []) := by
      unfold TlsBatchCork.flushTimer
      rw [if_pos (by simp [h.disarmed])]
    unfold CorkedConn.step at hstep
    dsimp only at hstep
    obtain ⟨_, rfl⟩ := of_blocked hstep
    rw [hidle]
    exact ⟨h.unused, h.carry, h.disarmed, h.stopped⟩
  | close fails =>
    cases hstep
    exact h.after_close fails

/-- A cork that is out waits for nothing. -/
theorem InUse.idle (h : s.InUse) (hcorked : s.cork.corked = false) :
    s.cork.timerArmed = false ∧ s.running = false ∧ s.started = 0 := by
  have hflushing := h.flushing
  rw [flushes, hcorked] at hflushing
  refine ⟨h.armed.trans hcorked, ?_, ?_⟩
  · cases hrunning : s.running with
    | true => simp [hrunning] at hflushing
    | false => rfl
  · exact (Nat.add_eq_zero_iff.mp hflushing).2

/-- A callback that has started is the only flush. -/
theorem InUse.due (h : s.InUse) (hstarted : s.started ≠ 0) :
    s.cork.corked = true ∧ s.cork.timerArmed = true ∧ s.running = false ∧ s.started = 1 := by
  have hflushing := h.flushing
  rw [flushes] at hflushing
  cases hcorked : s.cork.corked with
  | false => exact absurd (h.idle hcorked).2.2 hstarted
  | true =>
    rw [hcorked] at hflushing
    cases hrunning : s.running with
    | true =>
      simp only [hrunning, Bool.toNat_true] at hflushing
      omega
    | false =>
      simp only [hrunning, Bool.toNat_false, Bool.toNat_true] at hflushing
      exact ⟨rfl, h.armed.trans hcorked, rfl, by omega⟩

theorem InUse.after_close (h : s.InUse) (fails : Bool) : (s.after (s.cork.close fails)).Ended := by
  unfold TlsBatchCork.close
  rw [if_neg (by simp [h.noop, h.unclosed])]
  refine ⟨.inr rfl, ?_, rfl, ?_⟩
  · simp [after, TlsBatchCork.publishCarryLocked, h.carry]
  · cases hcorked : s.cork.corked with
    | true =>
      have harmed := h.armed.trans hcorked
      cases s.cork.timer <;> simp [after, running, TlsBatchCork.publishCarryLocked, harmed]
    | false =>
      obtain ⟨hdisarmed, hstopped, -⟩ := h.idle hcorked
      simpa [after, running, TlsBatchCork.publishCarryLocked, hdisarmed] using hstopped

theorem InUse.succeeded_append (h : s.InUse) (on : Bool) :
    ∀ call ∈ s.calls ++ [⟨on, false⟩], call.failed = false := by
  intro call hcall
  rcases List.mem_append.mp hcall with hold | hnew
  · exact h.succeeded call hold
  · rw [List.mem_singleton.mp hnew]

/-- A batch that has been held back leaves a cork in use. -/
theorem inUse_of_held {c' : TlsBatchCork} {started : Nat} {calls : List SetCork} (hheld : Held c c')
    (hnoop : c.noop = false) (hcarry : c.carryState = some true)
    (hflush : c'.timer.join.isSome.toNat + started = 1)
    (hcalls : ∀ call ∈ calls, call.failed = false) : InUse ⟨c', started, calls⟩ where
  enabled := hheld.enabled
  unclosed := hheld.closed
  noop := hheld.noop.trans hnoop
  armed := hheld.armed.trans hheld.corked.symm
  carry := by rw [hheld.carry, hheld.corked, hcarry]
  flushing := by rw [flushes, running, hheld.corked, hflush, Bool.toNat_true]
  succeeded := hcalls

/-- A batch that is held back has a timer. -/
theorem InUse.after_beforeWrite (h : s.InUse) (n : Int) (clock : ClockReadings) (fails : Bool) :
    (s.after (s.cork.beforeWrite n clock fails)).Sound := by
  unfold TlsBatchCork.beforeWrite
  split
  · rw [after_self]
    exact .inl h
  · rw [if_neg (by simp [h.enabled, h.unclosed])]
    cases hcorked : s.cork.corked with
    | true =>
      rw [if_pos rfl]
      have hheld := held_grow h.enabled h.unclosed hcorked n clock
      have hflushing := h.flushing
      rw [flushes, running, hcorked] at hflushing
      refine .inl (inUse_of_held hheld h.noop ?_ ?_ ?_)
      · rw [h.carry, hcorked]
      · rw [hheld.kept (h.armed.trans hcorked), hflushing, Bool.toNat_true]
      · simpa using h.succeeded
    | false =>
      obtain ⟨hdisarmed, hstopped, hnone⟩ := h.idle hcorked
      rw [if_neg Bool.false_ne_true]
      cases fails with
      | true =>
        refine .inr ⟨.inl rfl, ?_, hdisarmed, hstopped⟩
        simp [after, TlsBatchCork.publishCarryLocked, h.carry]
      | false =>
        -- the cork goes in, and the batch finds no timer
        rw [if_neg Bool.false_ne_true]
        have hheld : Held (s.cork.plug clock.corking) _ :=
          held_grow (c := s.cork.plug clock.corking) h.enabled h.unclosed rfl n clock
        refine .inl (inUse_of_held hheld h.noop ?_ ?_ (h.succeeded_append _))
        · simp [TlsBatchCork.plug, TlsBatchCork.publishCarryLocked, h.carry]
        · rw [hheld.set hdisarmed, hnone, Bool.toNat_true]

theorem InUse.fire {now : Int} (h : s.InUse) (hstep : s.step (.fire now) = some s') :
    s'.InUse := by
  unfold CorkedConn.step at hstep
  dsimp only at hstep
  split at hstep
  · rename_i due htimer
    obtain ⟨_, rfl⟩ := of_guarded hstep
    have hflushing := h.flushing
    refine ⟨h.enabled, h.unclosed, h.noop, h.armed, h.carry, ?_, h.succeeded⟩
    rw [← hflushing]
    simp [flushes, running, htimer, Nat.add_comm]
  · cases hstep

theorem InUse.flushTimer {now : Int} {fails : Bool} (h : s.InUse)
    (hstep : s.step (.flushTimer now fails) = some s') : s'.Sound := by
  unfold CorkedConn.step at hstep
  dsimp only at hstep
  split at hstep
  · cases hstep
  · rename_i hstarted
    obtain ⟨hcorked, harmed, hstopped, hone⟩ := h.due hstarted
    cases hstep
    unfold TlsBatchCork.flushTimer
    rw [if_neg (by simp [h.enabled, h.unclosed, hcorked, harmed])]
    split
    · refine .inl ⟨h.enabled, h.unclosed, h.noop, h.armed, h.carry, ?_, ?_⟩
      · simp [after, flushes, running, hone, hcorked]
      · simpa [after] using h.succeeded
    · cases fails with
      | true =>
        refine .inr ⟨.inl rfl, ?_, rfl, hstopped⟩
        simp [after, TlsBatchCork.publishCarryLocked, h.carry]
      | false =>
        refine .inl ⟨h.enabled, h.unclosed, h.noop, rfl, ?_, ?_, ?_⟩
        · simp [after, TlsBatchCork.publishCarryLocked, h.carry]
        · show s.running.toNat + (s.started - 1) = 0
          rw [hstopped, hone, Bool.toNat_false]
        · exact h.succeeded_append _

/-- A step leaves the cork in use, or ends it for good. -/
theorem InUse.step (h : s.InUse) (hstep : s.step action = some s') : s'.Sound := by
  cases action with
  | beforeWrite n clock fails =>
    cases hstep
    exact h.after_beforeWrite n clock fails
  | fire now => exact .inl (h.fire hstep)
  | flushTimer now fails => exact h.flushTimer hstep
  | close fails =>
    cases hstep
    exact .inr (h.after_close fails)

/-! ## Runs -/

theorem Sound.step (h : s.Sound) (hstep : s.step action = some s') : s'.Sound := by
  rcases h with h | h
  · exact h.step hstep
  · exact .inr (h.step hstep)

theorem Sound.run {actions : List CorkAction} (h : s.Sound)
    (hrun : run CorkedConn.step s actions = some s') : s'.Sound :=
  run_preserves (fun _ _ _ hsound hstep => Sound.step hsound hstep) h hrun

/-- After `Close`, the cork has ended. -/
theorem Sound.ended_of_close {actions : List CorkAction} {fails : Bool} (h : s.Sound)
    (hclose : .close fails ∈ actions) (hrun : Lib.run CorkedConn.step s actions = some s') :
    s'.Ended := by
  obtain ⟨before, rest, rfl⟩ := List.append_of_mem hclose
  obtain ⟨middle, hbefore, hrest⟩ := run_append_eq_some.mp hrun
  obtain ⟨closed, hstep, hrest⟩ := run_cons_eq_some.mp hrest
  have hended : closed.Ended := by
    cases hstep
    rcases h.run hbefore with hmiddle | hmiddle
    · exact hmiddle.after_close fails
    · exact hmiddle.after_close fails
  exact run_preserves (fun _ _ _ hended hstep => Ended.step hended hstep) hended hrest

/-- After any operations on a cork with a bound flag: as long as it is enabled and not closed, it is
in exactly if the timer is armed, exactly if a flush is on its way, and exactly if the flag says so.
Once `setCork` has failed or `Close` has run, the flag is down, and no timer is armed or running. -/
theorem corked_flush_pending {delay mss : Int} {enabled : Bool} {actions : List CorkAction}
    (hrun : run CorkedConn.step (start (.fresh delay mss enabled)) actions = some s) :
    (s.cork.enabled = true → s.cork.closed = false →
        (s.cork.corked = true ↔ s.cork.timerArmed = true) ∧
        (s.cork.corked = true ↔ s.flushes = 1) ∧
        s.cork.carryState = some s.cork.corked) ∧
      ((∃ call ∈ s.calls, call.failed = true) ∨ (∃ fails, .close fails ∈ actions) →
        s.cork.carryState = some false ∧ s.cork.timerArmed = false ∧ s.running = false) := by
  have hsound := (sound_start delay mss enabled).run hrun
  refine ⟨fun henabled hclosed => ?_, fun hover => ?_⟩
  · rcases hsound with h | h
    · refine ⟨by rw [h.armed], ?_, h.carry⟩
      rw [h.flushing]
      cases s.cork.corked <;> simp
    · rcases h.unused with hdisabled | hover
      · exact absurd (hdisabled.symm.trans henabled) (by decide)
      · exact absurd (hover.symm.trans hclosed) (by decide)
  · have hended : s.Ended := by
      rcases hover with ⟨call, hcall, hfailed⟩ | ⟨fails, hclose⟩
      · refine hsound.resolve_left fun h => ?_
        exact absurd ((h.succeeded call hcall).symm.trans hfailed) (by decide)
      · exact (sound_start delay mss enabled).ended_of_close hclose hrun
    exact ⟨hended.carry, hended.disarmed, hended.stopped⟩

/-- Two batches, the second of which fills a segment and moves the deadline. The callback of the
first deadline comes too early. -/
def movedDeadline : List CorkAction :=
  [.beforeWrite 900 ⟨0, 0, 0⟩ false, .beforeWrite 900 ⟨100, 100, 100⟩ false, .fire 150000,
    .flushTimer 150050 false]

/-- The callback of the second deadline fails to take the cork out. -/
def failedFlush : List CorkAction := movedDeadline ++ [.fire 160000, .flushTimer 160000 true]

/-- The moved deadline is pending, and the failed flush ends it. -/
theorem moved_deadline_pending :
    (∃ s, run CorkedConn.step (start (.fresh 150000 1440 true)) movedDeadline = some s ∧
      s.cork.corked = true ∧ s.flushes = 1 ∧ s.cork.carryState = some true) ∧
    ∃ s, run CorkedConn.step (start (.fresh 150000 1440 true)) failedFlush = some s ∧
      s.cork.carryState = some false ∧ s.cork.timerArmed = false ∧ s.running = false := by
  obtain ⟨s, hrun, henabled, hclosed, hcorked⟩ := exists_run_of_decide
    (P := fun s => s.cork.enabled = true ∧ s.cork.closed = false ∧ s.cork.corked = true)
    (show (run CorkedConn.step (start (.fresh 150000 1440 true)) movedDeadline).any _ = true by
      decide +kernel)
  obtain ⟨s', hrun', hfailed⟩ := exists_run_of_decide
    (P := fun s => ∃ call ∈ s.calls, call.failed = true)
    (show (run CorkedConn.step (start (.fresh 150000 1440 true)) failedFlush).any _ = true by
      decide +kernel)
  obtain ⟨-, hflush, hcarry⟩ := (corked_flush_pending hrun).1 henabled hclosed
  refine ⟨⟨s, hrun, hcorked, hflush.mp hcorked, hcorked ▸ hcarry⟩, s', hrun', ?_⟩
  exact (corked_flush_pending hrun').2 (.inl hfailed)

end CorkedConn

end TlsVpn.Port
