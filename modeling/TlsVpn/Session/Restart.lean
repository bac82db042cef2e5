import TlsVpn.Session.Wiring

/-!
# The sender's reset for a new epoch

A response that changes the adopted pair of session and epoch calls for a reset of the sender before
the connection sends anything. Without FEC the handshake owes it; with FEC it comes with the new
decoder, and the decoder is made anew only if there was none or if the cipher or the salt has
changed. Without inner encryption the salt is always empty, so a session that uses FEC resets its
sender for its first epoch only.

`sender_restarts` shows the reset for every response that finds no decoder or brings another cipher
or salt. `plain_fec_keeps_numbers` is a run without encryption.
-/

namespace TlsVpn.Port

open Lib Crypto Fec

namespace AsyncPort

/-- The port is at the start of an epoch: the next number is `1`, an encoder is a new one, and the
fences of the registered backends are open. -/
structure Restarted (p : AsyncPort) : Prop where
  next_eq : p.nextSeq.2 = some 1
  exhausted_eq : p.exhausted = false
  encoder_new : ∀ e, p.encoder = some e →
    (∃ k ic, e = FecEncoder.new k ic) ∧ e.controlGeneration = 0
  fences_open : ∀ b ∈ p.backends, (p.backend b).fecFenceGen = 0

theorem reset_epoch_restarted (p : AsyncPort) (k : Nat) (ic : Option InnerCipher) :
    (p.resetEpoch k ic).Restarted := by
  refine ⟨rfl, rfl, ?_, ?_⟩
  · intro e he
    have hencoder : (if fecMinGroup ≤ k then some (FecEncoder.new k ic) else none) = some e := he
    obtain ⟨_, rfl⟩ := of_guarded hencoder
    exact ⟨⟨k, ic, rfl⟩, rfl⟩
  · intro b hb
    show (if b ∈ p.backends then { p.backend b with fecFenceGen := 0 }
      else p.backend b).fecFenceGen = 0
    rw [if_pos (show b ∈ p.backends from hb)]

end AsyncPort

end TlsVpn.Port

namespace TlsVpn.Session

open Lib Crypto Fec Port Reorder

namespace System

/-- Between a response that changes the pair and the first frame on its connection, the port has
been at the start of an epoch. -/
def RestartsSender (start : System) (actions : List Action) : Prop :=
  ∀ before after rest b s t u, actions = before ++ .adopt b :: (after ++ rest) →
    run step start before = some s → s.step (.adopt b) = some t → t.pair ≠ s.pair →
    run step t after = some u → u.port.stream b ≠ [] →
    ∃ first second mid, after = first ++ second ∧ run step t first = some mid ∧
      run step mid second = some u ∧ mid.port.Restarted ∧ mid.port.stream b = []

/-- A response of a connection with FEC that changes the pair finds no decoder, or brings another
cipher or another salt than the decoder was made for. -/
def Rekeys (s : System) : Action → Prop
  | .adopt b =>
    match s.conn b with
    | .answered lv resp =>
      s.pair ≠ (resp.sessionID, resp.sessionEpoch) → lv.fecMode = true →
        s.session.fecDec.isNone = true ∨
        s.session.fecAlgo ≠ (if lv.encrypt then resp.encAlgo else none) ∨
        s.session.fecSaltKey ≠ resp.encSalt
    | _ => True
  | _ => True

instance (s : System) : ∀ action, Decidable (s.Rekeys action)
  | .adopt b =>
    match hconn : s.conn b with
    | .answered lv resp =>
      decidable_of_iff
        (s.pair ≠ (resp.sessionID, resp.sessionEpoch) → lv.fecMode = true →
          s.session.fecDec.isNone = true ∨
          s.session.fecAlgo ≠ (if lv.encrypt then resp.encAlgo else none) ∨
          s.session.fecSaltKey ≠ resp.encSalt)
        (by simp only [Rekeys, hconn])
    | .absent | .requested .. | .adopted .. | .serving _ | .closed _ =>
      isTrue (by simp only [Rekeys, hconn])
  | .applyConfig _ | .rotateInstance _ | .exhaustServer _ | .restartServer _ | .refresh _ |
    .dial _ | .answer _ _ | .settle _ | .register _ | .close _ | .port _ | .arrive _ =>
      isTrue trivial

/-- The handshake of a connection owes the sender a reset. -/
def Pending (s : System) (b : Nat) : Prop :=
  ∃ link owed, s.conn b = .adopted link (.sender :: owed)

variable {s s' : System} {b : Nat}

/-- The connection stays as it is until the sender has been reset. -/
theorem Pending.step {action : Action} (h : s.Pending b) (hstep : s.step action = some s') :
    s'.Pending b ∨ s'.port = s.port.resetEpoch 0 none ∧ s'.registered = s.registered := by
  by_cases htarget : action.target = some b
  · obtain ⟨link, owed, hconn⟩ := h
    cases action with
    | dial x =>
      cases htarget
      rw [(dial_eq_some hstep).1] at hconn
      cases hconn
    | answer x fresh =>
      cases htarget
      obtain ⟨lv, req, hrequested, -⟩ := answer_eq_some hstep
      rw [hrequested] at hconn
      cases hconn
    | adopt x =>
      cases htarget
      obtain ⟨lv, resp, hanswered, -⟩ := adopt_eq_some hstep
      rw [hanswered] at hconn
      cases hconn
    | settle x =>
      cases htarget
      obtain ⟨link', owed', ⟨-, -, rfl⟩ | ⟨hreorder, -⟩⟩ := settle_eq_some hstep
      · exact .inr ⟨rfl, rfl⟩
      · rw [hreorder] at hconn
        cases hconn
    | register x =>
      cases htarget
      obtain ⟨link', hsettled, -⟩ := register_eq_some hstep
      rw [hsettled] at hconn
      cases hconn
    | close x =>
      cases htarget
      simp only [System.step, close, hconn] at hstep
      cases hstep
    | _ => cases htarget
  · left
    obtain ⟨link, owed, hconn⟩ := h
    exact ⟨link, owed, by rw [conn_of_target_ne hstep htarget]; exact hconn⟩

/-- A pending connection has sent nothing before the reset. -/
theorem Pending.restarts {u : System} {actions : List Action} (h : s.Pending b) (hwired : s.Wired)
    (hrun : run System.step s actions = some u) (hsent : u.port.stream b ≠ []) :
    ∃ first second mid, actions = first ++ second ∧ run System.step s first = some mid ∧
      run System.step mid second = some u ∧ mid.port.Restarted ∧ mid.port.stream b = [] := by
  have hunsent : ∀ t : System, t.Wired → t.Pending b → b ∉ t.registered := by
    intro t htwired hpending
    obtain ⟨link, owed, hconn⟩ := hpending
    exact htwired.not_registered (by rw [hconn]; exact id)
  induction actions generalizing s with
  | nil =>
    cases hrun
    exact absurd (hwired.stream_nil (hunsent _ hwired h)) hsent
  | cons action rest ih =>
    obtain ⟨next, hstep, hrest⟩ := run_cons_eq_some.mp hrun
    have hnext := hwired.step hstep
    rcases h.step hstep with hpending | ⟨hport, hregistered⟩
    · obtain ⟨first, second, mid, rfl, hfirst, hsecond, hmid⟩ := ih hpending hnext hrest
      exact ⟨action :: first, second, mid, rfl, run_cons_eq_some.mpr ⟨next, hstep, hfirst⟩,
        hsecond, hmid⟩
    · refine ⟨[action], rest, next, rfl, run_cons_eq_some.mpr ⟨next, hstep, rfl⟩, hrest, ?_, ?_⟩
      · rw [hport]
        exact AsyncPort.reset_epoch_restarted _ _ _
      · refine hnext.stream_nil ?_
        rw [hregistered]
        exact hunsent s hwired h

theorem owes_sender (s : System) {decision : Adoption} (hnew : decision.isNewSession = true)
    (hfec : decision.useXorFec = false) : ∃ owed, s.owes decision = .sender :: owed := by
  unfold owes
  rw [if_pos ⟨hnew, hfec⟩]
  exact ⟨_, rfl⟩

/-- A response that changes the pair and meets the condition resets the sender or owes it. -/
theorem enter_resets {lv : LiveConfig} {resp : HandshakeResp} {ciphers : Ciphers}
    (hconn : s.conn b = .answered lv resp)
    (hciphers : negotiateCiphers s.suite lv resp = .ok ciphers)
    (hrekeys : s.Rekeys (.adopt b)) (hnew : s.pair ≠ (resp.sessionID, resp.sessionEpoch)) :
    (s.session.adoption lv resp ciphers.encAlgo).fecRebuild = true ∨
      (s.enter b lv resp ciphers).Pending b := by
  simp only [Rekeys, hconn] at hrekeys
  rw [← negotiate_ciphers_algo hciphers] at hrekeys
  have hsession : (s.session.adoption lv resp ciphers.encAlgo).isNewSession = true := by
    refine decide_eq_true ?_
    by_contra hsame
    rw [not_or, not_not, not_not] at hsame
    exact hnew (Prod.ext hsame.1 hsame.2)
  cases hfec : (s.session.adoption lv resp ciphers.encAlgo).useXorFec with
  | true =>
    left
    have huse := of_decide_eq_true hfec
    exact decide_eq_true ⟨hfec, hrekeys hnew huse.1⟩
  | false =>
    right
    obtain ⟨owed, howes⟩ := s.owes_sender hsession hfec
    refine ⟨⟨lv, resp, ciphers, s.session.adoption lv resp ciphers.encAlgo⟩, owed, ?_⟩
    rw [enter_conn, Function.update_self, howes]

/-- In every run whose responses meet the condition, the sender restarts for every new pair before
anything is sent on the connection. -/
theorem sender_restarts (suite : Suite) (conns : Nat) (config : ServerConfig)
    (server : Option ServerSession) (live : LiveConfig) (instanceID : Nat) (stored : Stored)
    (actions : List Action)
    (hrekeys : Along step Rekeys (new suite conns config server live instanceID stored) actions) :
    RestartsSender (new suite conns config server live instanceID stored) actions := by
  intro before after rest b s t u hactions hbefore hadopt hpair hafter hsent
  rw [hactions] at hrekeys
  obtain ⟨hallowed, -⟩ := (hrekeys.append hbefore).2.cons hadopt
  have hwired : s.Wired := wired_of_run hbefore
  have ht : t.Wired := hwired.step hadopt
  obtain ⟨lv, resp, hconn, rfl | ⟨ciphers, hciphers, -, rfl⟩⟩ := adopt_eq_some hadopt
  · exact absurd rfl hpair
  · have hnew : s.pair ≠ (resp.sessionID, resp.sessionEpoch) := fun heq => hpair heq.symm
    rcases enter_resets hconn hciphers hallowed hnew with hrebuild | hpending
    · refine ⟨[], after, _, rfl, rfl, hafter, ?_, ?_⟩
      · rw [enter_port, if_pos hrebuild]
        exact AsyncPort.reset_epoch_restarted _ _ _
      · refine ht.stream_nil ?_
        rw [enter_registered]
        exact hwired.not_registered (by rw [hconn]; exact id)
    · exact hpending.restarts ht hafter hsent

/-- A connection serves in the first epoch of a session. The client changes its instance, and
another connection starts the second epoch and serves. -/
def reconnect : List Action :=
  [.dial 0, .answer 0 (draw 1), .adopt 0, .register 0] ++ sendFrame [1] 0 ++
    [.rotateInstance 2, .close 0, .dial 1, .answer 1 (draw 2)]

/-- What the second connection does after its handshake. -/
def reconnected : List Action := .register 1 :: sendFrame [2] 1

/-- The whole run. -/
def reconnection : List Action := reconnect ++ .adopt 1 :: reconnected

/-- The first frame of the second epoch has number 1. -/
theorem reconnect_restarts :
    (∃ u, run step (firstStart true 4 2) reconnection = some u ∧ u.pair = (1, 2) ∧
      u.port.stream 1 = [[⟨1, [2]⟩]]) ∧
    RestartsSender (firstStart true 4 2) reconnection :=
  ⟨exists_run_of_decide (by decide +kernel),
    sender_restarts clearSuite 2 (serverSettings true) none (clientSettings true 4) 1 ⟨0, 0, 0⟩
      reconnection (by decide +kernel)⟩

/-- Without encryption the numbers go on after the response of the second epoch. -/
theorem plain_reconnect_numbers :
    ∃ s, run step (firstStart false 4 2) reconnect = some s ∧ ∃ t, s.step (.adopt 1) = some t ∧
      t.pair ≠ s.pair ∧ (∃ u, run step t reconnected = some u ∧ u.port.stream 1 = [[⟨2, [2]⟩]]) ∧
      ∀ first ∈ reconnected.inits, ∀ mid ∈ run step t first, mid.port.nextSeq.2 ≠ some 1 := by
  obtain ⟨s, hrun, hnext⟩ :
      ∃ s, run step (firstStart false 4 2) reconnect = some s ∧
        (s.step (.adopt 1)).any (fun t => decide (t.pair ≠ s.pair ∧
          (run step t reconnected).any
            (fun u => decide (u.port.stream 1 = [[⟨2, [2]⟩]])) = true ∧
          ∀ first ∈ reconnected.inits, ∀ mid ∈ run step t first,
            mid.port.nextSeq.2 ≠ some 1)) = true :=
    exists_run_of_decide (by decide +kernel)
  obtain ⟨t, hadopt, hpair, hafter, hnumbers⟩ := exists_some_of_decide hnext
  exact ⟨s, hrun, t, hadopt, hpair, exists_run_of_decide hafter, hnumbers⟩

/-- Without a cipher the numbers go on. -/
theorem plain_fec_keeps_numbers : ¬ RestartsSender (firstStart false 4 2) reconnection := by
  obtain ⟨s, hbefore, t, hadopt, hpair, ⟨u, hafter, hsent⟩, hnumbers⟩ := plain_reconnect_numbers
  intro hrestarts
  obtain ⟨first, second, mid, hsplit, hfirst, -, hmid, -⟩ :=
    hrestarts reconnect reconnected [] 1 s t u (by rw [List.append_nil]; rfl) hbefore hadopt hpair
      hafter (by rw [hsent]; exact List.cons_ne_nil _ _)
  exact hnumbers first ((List.mem_inits _ _).mpr ⟨second, hsplit.symm⟩) mid hfirst hmid.next_eq

end System

end TlsVpn.Session
