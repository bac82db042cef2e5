import Mathlib.Logic.Function.Basic
import TlsVpn.Lib.Run

/-!
# Hot-applied configurations

`Client.ApplyConfig` replaces the configuration that the client works with and then tears down all
connections, so that their supervisors dial again with the new one. It does not stop the
supervisors: one of them may have loaded the old configuration and still be dialling, and
`ForceReconnect`, which goes through the table of connections, finds no socket to close for it.

This is the only way to keep an old configuration: if `ForceReconnect` never passes an entry whose
supervisor is dialling with an outdated configuration, then, once all calls have gone through the
table, every open connection works with the configuration applied last.
`dialling_keeps_configuration` is a run in which a connection is set up and stays open with the old
one.

When a supervisor dials again after a wait is a matter of its timers and of `wake`, and it may do so
at any time here.
-/

namespace TlsVpn.Client

open Lib Function

variable {n : Nat} {Config : Type}

/-! ## The model -/

/-- Where the supervisor of a connection is: between two attempts, with a loaded configuration
before and after `beginConnAttempt` has put a fresh entry into the table, and with a socket in that
entry, which the peer, the network or `ForceReconnect` may close. -/
inductive Attempt (Config : Type) where
  | waiting
  | loaded (config : Config)
  | dialing (config : Config)
  | linked (config : Config) (isOpen : Bool)
  deriving DecidableEq

/-- A client with `n` connections. -/
structure Fleet (n : Nat) (Config : Type) where
  live : Config
  attempt : Fin n → Attempt Config
  /-- The calls of `ApplyConfig` that have stored their configuration and do not hold `connsMu`. -/
  stored : Nat
  /-- The entries that the call with `connsMu` has still to look at in `ForceReconnect`. -/
  closing : Option (List (Fin n))

namespace Fleet

/-- All connections wait for their first attempt. -/
def new (config : Config) : Fleet n Config :=
  { live := config, attempt := fun _ => .waiting, stored := 0, closing := none }

/-- Moves a supervisor on. -/
def setAttempt (f : Fleet n Config) (i : Fin n) (a : Attempt Config) : Fleet n Config :=
  { f with attempt := update f.attempt i a }

/-- `c.live.Load()` at the start of `dialAndServe`. -/
def load (f : Fleet n Config) (i : Fin n) : Option (Fleet n Config) :=
  match f.attempt i with
  | .waiting => some (f.setAttempt i (.loaded f.live))
  | _ => none

/-- `beginConnAttempt`, under `connsMu`. -/
def beginConnAttempt (f : Fleet n Config) (i : Fin n) : Option (Fleet n Config) :=
  match f.attempt i, f.closing with
  | .loaded config, none => some (f.setAttempt i (.dialing config))
  | _, _ => none

/-- The dial fails, or its socket goes into the entry. -/
def dialed (f : Fleet n Config) (i : Fin n) (ok : Bool) : Option (Fleet n Config) :=
  match f.attempt i with
  | .dialing config => some (f.setAttempt i (if ok then .linked config true else .waiting))
  | _ => none

/-- The connection ends: a handshake fails, the peer closes, or the socket has been closed. -/
def leave (f : Fleet n Config) (i : Fin n) : Option (Fleet n Config) :=
  match f.attempt i with
  | .linked _ _ => some (f.setAttempt i .waiting)
  | _ => none

/-- `ForceReconnect` takes `connsMu` and goes through the entries in some order. -/
def lockConns (f : Fleet n Config) (order : List (Fin n)) : Option (Fleet n Config) :=
  match f.stored, f.closing with
  | stored + 1, none =>
    if ∀ i, i ∈ order then some { f with stored, closing := some order } else none
  | _, _ => none

/-- `CloseIfOpen` on the socket of an entry, if it has one. -/
def closed : Attempt Config → Attempt Config
  | .linked config _ => .linked config false
  | attempt => attempt

/-- Closes the socket of the next entry. -/
def closeNext (f : Fleet n Config) : Option (Fleet n Config) :=
  match f.closing with
  | some (i :: todo) => some { f.setAttempt i (closed (f.attempt i)) with closing := some todo }
  | _ => none

/-- The lock is given back after the last entry. -/
def unlockConns (f : Fleet n Config) : Option (Fleet n Config) :=
  match f.closing with
  | some [] => some { f with closing := none }
  | _ => none

/-- The steps of the supervisors and of `ApplyConfig`. -/
inductive Action (n : Nat) (Config : Type) where
  | load (i : Fin n)
  | beginConnAttempt (i : Fin n)
  | dialed (i : Fin n) (ok : Bool)
  | leave (i : Fin n)
  | store (config : Config)
  | lockConns (order : List (Fin n))
  | closeNext
  | unlockConns

/-- A step that cannot be taken gives none. -/
def step (f : Fleet n Config) : Action n Config → Option (Fleet n Config)
  | .load i => f.load i
  | .beginConnAttempt i => f.beginConnAttempt i
  | .dialed i ok => f.dialed i ok
  | .leave i => f.leave i
  | .store config => some { f with live := config, stored := f.stored + 1 }
  | .lockConns order => f.lockConns order
  | .closeNext => f.closeNext
  | .unlockConns => f.unlockConns

/-- The configuration that the attempt works with, or will. -/
def used : Attempt Config → Option Config
  | .loaded config | .dialing config | .linked config true => some config
  | .waiting | .linked _ false => none

/-- The attempt is no dial with another configuration. -/
def Current (live : Config) : Attempt Config → Prop
  | .loaded config | .dialing config => config = live
  | .waiting | .linked _ _ => True

instance [DecidableEq Config] (live : Config) : DecidablePred (Current live)
  | .loaded config | .dialing config => inferInstanceAs (Decidable (config = live))
  | .waiting | .linked _ _ => isTrue trivial

/-- `ForceReconnect` passes no entry of a dial with an outdated configuration. -/
def Settled (f : Fleet n Config) : Action n Config → Prop
  | .closeNext => ∀ i ∈ (f.closing.getD []).head?, Current f.live (f.attempt i)
  | .load _ | .beginConnAttempt _ | .dialed _ _ | .leave _ | .store _ | .lockConns _
  | .unlockConns => True

instance [DecidableEq Config] (f : Fleet n Config) : ∀ action, Decidable (f.Settled action)
  | .closeNext =>
    inferInstanceAs (Decidable (∀ i ∈ (f.closing.getD []).head?, Current f.live (f.attempt i)))
  | .load _ | .beginConnAttempt _ | .dialed _ _ | .leave _ | .store _ | .lockConns _
  | .unlockConns => isTrue trivial

/-! ## Outdated connections -/

/-- Some call has still to look at the entry `i`. -/
def Owed (f : Fleet n Config) (i : Fin n) : Prop := 0 < f.stored ∨ ∃ todo ∈ f.closing, i ∈ todo

/-- An attempt with another configuration than the last is before a call that will look at it. -/
def Fresh (f : Fleet n Config) : Prop :=
  ∀ i config, used (f.attempt i) = some config → config = f.live ∨ f.Owed i

variable {f f' : Fleet n Config}

theorem fresh_new (config : Config) : (new config : Fleet n Config).Fresh := by
  intro i c hused
  cases hused

/-- An attempt goes on with its configuration, or with the last one. -/
theorem Fresh.set_attempt (h : f.Fresh) {i : Fin n} {a : Attempt Config}
    (hused : ∀ config, used a = some config →
      config = f.live ∨ used (f.attempt i) = some config) : (f.setAttempt i a).Fresh := by
  intro k config hk
  simp only [setAttempt] at hk ⊢
  by_cases hki : k = i
  · subst hki
    rw [update_self] at hk
    rcases hused config hk with hlive | hold
    · exact .inl hlive
    · exact h k config hold
  · rw [update_of_ne hki] at hk
    exact h k config hk

/-- What is left of an entry once the loop has passed it is not outdated. -/
theorem used_closed {live config : Config} {a : Attempt Config} (hcurrent : Current live a)
    (hused : used (closed a) = some config) : config = live := by
  cases a with
  | waiting | linked c isOpen => cases hused
  | loaded c | dialing c =>
    cases hused
    exact hcurrent

/-- The loop comes to an entry and leaves nothing outdated behind. -/
theorem Fresh.close_next (h : f.Fresh) {i : Fin n} {todo : List (Fin n)}
    (hclosing : f.closing = some (i :: todo)) (hcurrent : Current f.live (f.attempt i)) :
    { f.setAttempt i (closed (f.attempt i)) with closing := some todo }.Fresh := by
  intro k config hk
  simp only [setAttempt] at hk ⊢
  by_cases hki : k = i
  · subst hki
    rw [update_self] at hk
    exact .inl (used_closed hcurrent hk)
  · rw [update_of_ne hki] at hk
    rcases h k config hk with hlive | hstored | ⟨order, horder, hmem⟩
    · exact .inl hlive
    · exact .inr (.inl hstored)
    · rw [hclosing] at horder
      cases horder
      exact .inr (.inr ⟨todo, rfl, (List.mem_cons.mp hmem).resolve_left hki⟩)

/-- The call that stores a configuration owes a look at every entry. -/
theorem Fresh.step {action : Action n Config} (h : f.Fresh) (hsettled : f.Settled action)
    (hstep : f.step action = some f') : f'.Fresh := by
  cases action with
  | load i =>
    simp only [Fleet.step, load] at hstep
    split at hstep
    · cases hstep
      exact h.set_attempt fun config hused => .inl (Option.some.inj hused).symm
    · cases hstep
  | beginConnAttempt i =>
    simp only [Fleet.step, beginConnAttempt] at hstep
    split at hstep
    · rename_i config hattempt hfree
      cases hstep
      exact h.set_attempt fun c hused => .inr (hattempt ▸ hused)
    · cases hstep
  | dialed i ok =>
    simp only [Fleet.step, dialed] at hstep
    split at hstep
    · rename_i config hattempt
      cases hstep
      refine h.set_attempt fun c hused => .inr ?_
      cases ok with
      | true => exact hattempt ▸ hused
      | false => cases hused
    · cases hstep
  | leave i =>
    simp only [Fleet.step, leave] at hstep
    split at hstep
    · cases hstep
      exact h.set_attempt nofun
    · cases hstep
  | store config =>
    cases hstep
    exact fun _ _ _ => .inr (.inl (Nat.succ_pos _))
  | lockConns order =>
    simp only [Fleet.step, lockConns] at hstep
    split at hstep
    · split at hstep
      · rename_i hall
        cases hstep
        exact fun i _ _ => .inr (.inr ⟨order, rfl, hall i⟩)
      · cases hstep
    · cases hstep
  | closeNext =>
    simp only [Fleet.step, closeNext] at hstep
    split at hstep
    · rename_i i todo hclosing
      cases hstep
      simp only [Settled, hclosing] at hsettled
      exact h.close_next hclosing (hsettled i rfl)
    · cases hstep
  | unlockConns =>
    simp only [Fleet.step, unlockConns] at hstep
    split at hstep
    · rename_i hclosing
      cases hstep
      intro i config hused
      rcases h i config hused with hlive | hstored | ⟨todo, htodo, hmem⟩
      · exact .inl hlive
      · exact .inr (.inl hstored)
      · rw [hclosing] at htodo
        cases htodo
        cases hmem
    · cases hstep

/-- For any number of connections and of calls of `ApplyConfig`, in every run in which
`ForceReconnect` passes no entry of a dial with an outdated configuration: once no call is under
way, every open connection works with the configuration that was stored last. -/
theorem apply_reaches_connections (config : Config) (actions : List (Action n Config))
    (f : Fleet n Config) (hsettled : Along step Settled (new config) actions)
    (hrun : run step (new config) actions = some f) (hstored : f.stored = 0)
    (hclosing : f.closing = none) :
    ∀ i used, f.attempt i = .linked used true → used = f.live := by
  have hfresh : f.Fresh :=
    run_invariant (fun _ _ _ h hallowed hstep => Fresh.step h hallowed hstep) (fresh_new config)
      hsettled hrun
  intro i used hlinked
  rcases hfresh i used (by rw [hlinked]; rfl) with hlive | hpos | ⟨todo, htodo, -⟩
  · exact hlive
  · omega
  · rw [hclosing] at htodo
    cases htodo

/-- Two connections work with configuration 0. While configuration 1 is applied the second one goes
down and its supervisor dials again, already with the new configuration, and after the call both
supervisors have dialled again. -/
def reconnected : List (Action 2 Nat) :=
  [.load 0, .beginConnAttempt 0, .dialed 0 true, .load 1, .beginConnAttempt 1, .dialed 1 true,
    .store 1, .leave 1, .load 1, .lockConns [1, 0], .closeNext, .closeNext, .unlockConns,
    .beginConnAttempt 1, .dialed 1 true, .leave 0, .load 0, .beginConnAttempt 0, .dialed 0 true]

/-- Both connections come back with the new configuration. -/
theorem reconnected_reached :
    ∃ f, run step (new 0) reconnected = some f ∧ f.live = 1 ∧
      f.attempt 0 = .linked 1 true ∧ f.attempt 1 = .linked 1 true ∧
      ∀ i used, f.attempt i = .linked used true → used = f.live := by
  have hfinal : ∃ f, run step (new 0) reconnected = some f ∧ f.live = 1 ∧
      f.attempt 0 = .linked 1 true ∧ f.attempt 1 = .linked 1 true ∧ f.stored = 0 ∧
      f.closing = none := exists_run_of_decide (by decide +kernel)
  obtain ⟨f, hrun, hlive, hfirst, hsecond, hstored, hclosing⟩ := hfinal
  exact ⟨f, hrun, hlive, hfirst, hsecond,
    apply_reaches_connections 0 reconnected f (by decide +kernel) hrun hstored hclosing⟩

/-- The call passes the entry of a dial that is under way, and the connection is set up with the old
configuration. Nothing closes it any more. -/
theorem dialling_keeps_configuration :
    ∃ f, run step (new 0 : Fleet 1 Nat)
        [.load 0, .beginConnAttempt 0, .store 1, .lockConns [0], .closeNext, .unlockConns,
          .dialed 0 true] = some f ∧
      f.stored = 0 ∧ f.closing = none ∧ f.attempt 0 = .linked 0 true ∧ f.live = 1 :=
  exists_run_of_decide (by decide +kernel)

end Fleet

end TlsVpn.Client
