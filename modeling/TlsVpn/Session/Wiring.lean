import TlsVpn.Session.System

/-!
# Connections and backends

What holds between the connections of a client and the backends of its port in every state that a
run reaches: a backend belongs to a connection that has registered it, and such a connection serves
or has served under the link of its handshake. `Wired.step` shows it of one step and `wired_of_run`
of a whole run.
-/

namespace TlsVpn.Session

open Lib Crypto Fec Port Reorder Function List

/-- The connection has served under a link. -/
def Conn.Served : Conn → Prop
  | .serving _ | .closed (some _) => True
  | .absent | .requested _ _ | .answered _ _ | .adopted _ _ | .closed none => False

namespace System

/-- What every step keeps. -/
structure Wired (s : System) : Prop where
  numbered : s.port.Numbered
  created : ∀ b, (s.port.backend b).created = true → b ∈ s.registered
  served : ∀ b ∈ s.registered, (s.conn b).Served

variable {s s' : System} {b : Nat}

theorem wired_new (suite : Suite) (conns : Nat) (config : ServerConfig)
    (server : Option ServerSession) (live : LiveConfig) (instanceID : Nat) (stored : Stored) :
    (new suite conns config server live instanceID stored).Wired :=
  ⟨AsyncPort.numbered_new, nofun, nofun⟩

theorem set_conn_of_ne (s : System) {b x : Nat} (conn : Conn) (hne : x ≠ b) :
    (s.setConn b conn).conn x = s.conn x :=
  update_of_ne hne ..

namespace Wired

/-- A connection that has not served has no backend, and nothing was handed to it. -/
theorem not_registered (h : s.Wired) (hconn : ¬ (s.conn b).Served) : b ∉ s.registered :=
  fun hmem => hconn (h.served b hmem)

theorem not_created (h : s.Wired) (hb : b ∉ s.registered) :
    (s.port.backend b).created = false :=
  Bool.eq_false_iff.mpr fun hcreated => hb (h.created b hcreated)

theorem stream_nil (h : s.Wired) (hb : b ∉ s.registered) : s.port.stream b = [] :=
  (h.numbered.absent b (h.not_created hb)).1

/-- The port and the registrations stay, and one connection that has not served moves on. -/
theorem set_conn (h : s.Wired) (hb : b ∉ s.registered) (conn : Conn) :
    (s.setConn b conn).Wired := by
  refine ⟨h.numbered, h.created, fun x hx => ?_⟩
  have hne : x ≠ b := by
    rintro rfl
    exact hb hx
  show ((s.setConn b conn).conn x).Served
  rw [set_conn_of_ne s conn hne]
  exact h.served x hx

theorem reset_sender (h : s.Wired) (hidle : s.port.phase = .idle) (k : Nat)
    (ic : Option InnerCipher) : (s.resetSender k ic).Wired := by
  have hstep : s.port.step (.reset k ic) = some (s.port.resetEpoch k ic) := if_pos hidle
  obtain ⟨-, hcreated⟩ := AsyncPort.step_keeps_backends
    (fun _ _ => AsyncPort.Action.noConfusion) (fun _ => AsyncPort.Action.noConfusion) hstep
  refine ⟨(AsyncPort.reset_spec h.numbered hidle k ic).1, fun x hx => ?_, h.served⟩
  exact h.created x ((hcreated x).symm.trans hx)

theorem enter (h : s.Wired) (hb : b ∉ s.registered) {lv : LiveConfig} {resp : HandshakeResp}
    {ciphers : Ciphers}
    (hidle : (s.session.adoption lv resp ciphers.encAlgo).fecRebuild = true →
      s.port.phase = .idle) :
    (s.enter b lv resp ciphers).Wired := by
  have hmoved : ∀ x ∈ (s.enter b lv resp ciphers).registered,
      ((s.enter b lv resp ciphers).conn x).Served := by
    rw [enter_registered, enter_conn]
    exact (h.set_conn hb _).served
  refine ⟨?_, fun x hx => ?_, hmoved⟩
  · rw [enter_port]
    split
    · rename_i hrebuild
      exact (h.reset_sender (hidle hrebuild) _ _).numbered
    · exact h.numbered
  · rw [enter_registered]
    rw [enter_port] at hx
    split at hx
    · rename_i hrebuild
      exact (h.reset_sender (hidle hrebuild) _ _).created x hx
    · exact h.created x hx

theorem register (h : s.Wired) (hstep : s.register b = some s') : s'.Wired := by
  obtain ⟨link, hconn, hnew, rfl⟩ := register_eq_some hstep
  refine ⟨(AsyncPort.register_quiet h.numbered hnew _).1, fun x hx => ?_, fun x hx => ?_⟩
  · show x ∈ s.registered ++ [b]
    by_cases heq : x = b
    · rw [heq]
      exact mem_append_right _ (mem_singleton_self b)
    · have hbackend : (s.port.registerOwnedBackend b connTxCapacity).backend x = s.port.backend x :=
        update_of_ne heq ..
      refine mem_append_left _ (h.created x ?_)
      rw [← hbackend]
      exact hx
  · show (update s.conn b (.serving link) x).Served
    by_cases heq : x = b
    · rw [heq, update_self]
      exact trivial
    · rw [update_of_ne heq]
      rcases mem_append.mp hx with hold | hnow
      · exact h.served x hold
      · exact absurd (mem_singleton.mp hnow) heq

theorem close (h : s.Wired) (hstep : s.close b = some s') : s'.Wired := by
  -- a connection that has served is closed with its link
  have hclosed : ∀ x ∈ s.registered,
      (update s.conn b (.closed (s.conn b).linked) x).Served := by
    intro x hx
    by_cases heq : x = b
    · have hserved := h.served x hx
      rw [heq] at hserved ⊢
      rw [update_self]
      unfold Conn.Served at hserved
      split at hserved
      · rename_i link hconn
        rw [hconn]
        exact trivial
      · rename_i link hconn
        rw [hconn]
        exact trivial
      all_goals exact hserved.elim
    · rw [update_of_ne heq]
      exact h.served x hx
  rcases close_eq_some hstep with ⟨link, hconn, rfl⟩ | rfl
  · rw [hconn] at hclosed
    exact ⟨(AsyncPort.unregister_quiet h.numbered b).1, h.created, hclosed⟩
  · exact ⟨h.numbered, h.created, hclosed⟩

theorem port_step (h : s.Wired) {action : AsyncPort.Action}
    (hstep : s.portStep action = some s') : s'.Wired := by
  obtain ⟨hregister, hunregister, -, port, hport, rfl⟩ := port_step_eq_some hstep
  obtain ⟨-, hcreated⟩ := AsyncPort.step_keeps_backends hregister hunregister hport
  refine ⟨(AsyncPort.step_cases h.numbered hport).1, fun x hx => ?_, h.served⟩
  exact h.created x ((hcreated x).symm.trans hx)

/-- A backend is created when its connection registers. -/
theorem step (h : s.Wired) {action : Action} (hstep : s.step action = some s') : s'.Wired := by
  cases action with
  | applyConfig | rotateInstance | exhaustServer | restartServer =>
    cases hstep
    exact ⟨h.numbered, h.created, h.served⟩
  | refresh disk =>
    cases hstep
    show (s.refresh disk).Wired
    unfold refresh
    repeat' split
    all_goals exact ⟨h.numbered, h.created, h.served⟩
  | dial b =>
    obtain ⟨hconn, rfl⟩ := dial_eq_some hstep
    exact h.set_conn (h.not_registered (by rw [hconn]; exact id)) _
  | answer b fresh =>
    obtain ⟨lv, req, hconn, -, rfl | ⟨session, -, rfl⟩⟩ := answer_eq_some hstep
    · exact h.set_conn (h.not_registered (by rw [hconn]; exact id)) _
    · have hmoved := h.set_conn (h.not_registered (by rw [hconn]; exact id))
        (.answered lv (session.respond req))
      exact ⟨hmoved.numbered, hmoved.created, hmoved.served⟩
  | adopt b =>
    obtain ⟨lv, resp, hconn, rfl | ⟨ciphers, -, hidle, rfl⟩⟩ := adopt_eq_some hstep
    · exact h.set_conn (h.not_registered (by rw [hconn]; exact id)) _
    · exact h.enter (h.not_registered (by rw [hconn]; exact id)) hidle
  | settle b =>
    obtain ⟨link, owed, ⟨hconn, hidle, rfl⟩ | ⟨hconn, rfl⟩⟩ := settle_eq_some hstep
    · exact (h.reset_sender hidle 0 none).set_conn
        (h.not_registered (by rw [hconn]; exact id)) _
    · have hmoved := h.set_conn (h.not_registered (by rw [hconn]; exact id)) (.adopted link owed)
      exact ⟨hmoved.numbered, hmoved.created, hmoved.served⟩
  | register b => exact h.register hstep
  | close b => exact h.close hstep
  | port action => exact h.port_step hstep
  | arrive call =>
    obtain ⟨reorder, rfl⟩ := arrive_eq_some hstep
    exact ⟨h.numbered, h.created, h.served⟩

end Wired

theorem wired_of_run {suite : Suite} {conns : Nat} {config : ServerConfig}
    {server : Option ServerSession} {live : LiveConfig} {instanceID : Nat} {stored : Stored}
    {actions : List Action}
    (hrun : run System.step (new suite conns config server live instanceID stored) actions =
      some s) : s.Wired :=
  run_preserves (fun _ _ _ h hstep => Wired.step h hstep)
    (wired_new suite conns config server live instanceID stored) hrun

end System

end TlsVpn.Session
