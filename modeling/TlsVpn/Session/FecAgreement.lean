import TlsVpn.Session.Wiring

/-!
# Agreement on FEC

The server fixes the group size of a session when it creates it, from the request that it answers.
The client keeps the first group size it was told for the life of the process, and decides by the
settings of each dial whether the connection uses FEC at all. Neither compares its own choice with
the other's, so settings that are applied while the client runs take the two apart.

`fec_agreement` shows the agreement for every run in which no settings with another FEC mode or
group size are applied, through joins, new epochs, restarts of the server and delayed responses.
`applied_group_disagrees` is a run in which the group size is changed.
-/

namespace TlsVpn.Session

open Lib Crypto Fec Port Reorder Function List

/-- The group size that a dial asks for, `0` without FEC. -/
def LiveConfig.group (lv : LiveConfig) : Nat := if lv.fecMode then clampFecGroup lv.fecGroup else 0

namespace System

/-- With FEC the connection accepts controls and the client's decoder and encoder have the group
size of the server's session; without FEC the client has no encoder. The server has an encoder
exactly if the group size of its session is positive. -/
def AgreesWith (s : System) (link : Linked) (session : ServerSession) : Prop :=
  (0 < session.fecEncK → link.decision.useXorFec = true ∧
    s.session.fecDec.map (·.k) = some session.fecEncK ∧
    s.port.groupSize = some session.fecEncK) ∧
  (session.fecEncK = 0 → s.port.groupSize = none)

/-- The client agrees with the server's session on every connection that has joined it. -/
def FecAgrees (s : System) : Prop :=
  ∀ b link session, s.conn b = .adopted link [] ∨ s.conn b = .serving link →
    s.server = some session → link.resp.sessionID = session.sessionID → s.AgreesWith link session

/-- Settings that are applied ask for the same group size as the ones before. -/
def KeepsGroup (s : System) : Action → Prop
  | .applyConfig live => live.group = s.live.group
  | _ => True

instance (s : System) (action : Action) : Decidable (s.KeepsGroup action) := by
  unfold KeepsGroup
  split <;> infer_instance

end System

/-! ## A response with the client's own group size -/

theorem LiveConfig.group_range (lv : LiveConfig) :
    (lv.group = 0 ∧ lv.fecMode = false) ∨
      (lv.fecMode = true ∧ 2 ≤ lv.group ∧ lv.group ≤ 64) := by
  unfold LiveConfig.group
  cases lv.fecMode with
  | false => exact .inl ⟨rfl, rfl⟩
  | true => exact .inr ⟨rfl, clamp_fec_group_range lv.fecGroup⟩

/-- The request asks for the group size of the settings. -/
theorem LiveConfig.request_group (lv : LiveConfig) (instanceID token : Nat) :
    (if (lv.request instanceID token).fec then (lv.request instanceID token).fecGroup else 0) =
      lv.group := by
  show (if lv.fecMode then (if lv.fecMode then clampFecGroup lv.fecGroup else 0) else 0) = _
  unfold LiveConfig.group
  cases lv.fecMode with
  | false | true => rfl

namespace ClientSession

/-- What the client keeps about FEC agrees with the group size `k`. -/
structure Sized (s : ClientSession) (k : Nat) : Prop where
  negotiated : s.fecNegotiated = 0 ∨ s.fecNegotiated = k
  decoder : ∀ d, s.fecDec = some d → d.k = k ∧ k ≠ 0

variable {s : ClientSession} {k : Nat} {lv : LiveConfig} {resp : HandshakeResp}

theorem Sized.negotiated_eq (h : s.Sized k) (hlv : lv.group = k) (hresp : resp.fecGroup = k) :
    s.negotiated lv resp = 0 ∧ k = 0 ∨ s.negotiated lv resp = k := by
  unfold ClientSession.negotiated
  rcases h.negotiated with hzero | hk
  · rcases lv.group_range with ⟨hgroup, hmode⟩ | ⟨hmode, hlow, -⟩
    · left
      rw [hmode, if_neg (fun hand => Bool.false_ne_true hand.1)]
      exact ⟨hzero, hlv ▸ hgroup⟩
    · right
      rw [if_pos ⟨hmode, hzero, by rw [hresp, ← hlv]; exact hlow⟩, hresp]
  · right
    split
    · exact hresp
    · exact hk

/-- FEC is used exactly if the group size is not `0`. -/
theorem Sized.use_iff (h : s.Sized k) (hlv : lv.group = k) (hresp : resp.fecGroup = k)
    (encAlgo : Option EncAlgo) :
    (s.adoption lv resp encAlgo).useXorFec = true ↔ k ≠ 0 := by
  show decide (lv.fecMode = true ∧ 0 < s.negotiated lv resp) = true ↔ _
  rw [decide_eq_true_iff]
  rcases lv.group_range with ⟨hgroup, hmode⟩ | ⟨hmode, hlow, -⟩
  · rw [hmode]
    refine ⟨fun hand => absurd hand.1 Bool.false_ne_true, fun hk => ?_⟩
    exact absurd (hlv ▸ hgroup) hk
  · rcases h.negotiated_eq hlv hresp with ⟨-, hk⟩ | heq
    · omega
    · exact ⟨fun _ => by omega, fun _ => ⟨hmode, by omega⟩⟩

/-- The decoder's group size after the section. -/
theorem adopt_decoder_size (s : ClientSession) (conns : Nat) (lv : LiveConfig)
    (resp : HandshakeResp) (ciphers : Ciphers) :
    (s.adopt conns lv resp ciphers).fecDec.map (·.k) =
      if (s.adoption lv resp ciphers.encAlgo).fecRebuild then
        some (clampFecGroup (s.negotiated lv resp))
      else s.fecDec.map (·.k) := by
  unfold adopt
  dsimp only
  split
  · rfl
  · split
    · rw [Option.map_map]
      rfl
    · rfl

/-- A decoder is built for the group size of the response. -/
theorem Sized.adopt (h : s.Sized k) (hlv : lv.group = k) (hresp : resp.fecGroup = k) (conns : Nat)
    (ciphers : Ciphers) :
    (s.adopt conns lv resp ciphers).Sized k ∧
      (k ≠ 0 → (s.adopt conns lv resp ciphers).fecDec.isSome = true) := by
  have huse := h.use_iff hlv hresp ciphers.encAlgo
  have hsize := adopt_decoder_size s conns lv resp ciphers
  have hnegotiated := h.negotiated_eq hlv hresp
  have hrange := lv.group_range
  refine ⟨⟨?_, ?_⟩, ?_⟩
  · show s.negotiated lv resp = 0 ∨ s.negotiated lv resp = k
    exact hnegotiated.imp_left And.left
  · intro d hd
    rw [hd] at hsize
    split at hsize
    · rename_i hrebuild
      have hk : k ≠ 0 := huse.mp (of_decide_eq_true hrebuild).1
      have heq : s.negotiated lv resp = k := by
        rcases hnegotiated with ⟨-, hzero⟩ | heq
        · exact absurd hzero hk
        · exact heq
      refine ⟨?_, hk⟩
      rw [heq, clamp_fec_group_of_range (by omega) (by omega)] at hsize
      exact Option.some.inj hsize
    · obtain ⟨d', hd', hdk⟩ := Option.map_eq_some_iff.mp hsize.symm
      obtain ⟨hk, hne⟩ := h.decoder d' hd'
      exact ⟨hdk.symm.trans hk, hne⟩
  · intro hk
    rw [← Option.isSome_map (f := fun d : FecDecoder => d.k), hsize]
    split
    · rfl
    · rename_i hkept
      rw [Option.isSome_map]
      cases hdec : s.fecDec with
      | none =>
        refine absurd (decide_eq_true ⟨huse.mpr hk, .inl ?_⟩) hkept
        rw [hdec]
        rfl
      | some d => rfl

end ClientSession

theorem reset_epoch_group_size (p : AsyncPort) (k : Nat) (ic : Option InnerCipher) :
    (p.resetEpoch k ic).groupSize = if 2 ≤ k then some (clampFecGroup k) else none := by
  show (if 2 ≤ k then some (FecEncoder.new k ic) else none : Option FecEncoder).map (·.k) = _
  split
  · rfl
  · rfl

/-- Everything that a connection carries agrees with the group size. -/
def Conn.Sized (k : Nat) (decoder : Bool) : Conn → Prop
  | .requested lv req => lv.group = k ∧ (if req.fec then req.fecGroup else 0) = k
  | .answered lv resp => lv.group = k ∧ resp.fecGroup = k
  | .adopted link owed =>
    k ≠ 0 → link.decision.useXorFec = true ∧ decoder = true ∧ Owed.sender ∉ owed
  | .serving link => k ≠ 0 → link.decision.useXorFec = true ∧ decoder = true
  | .absent | .closed _ => True

theorem Conn.Sized.mono {k : Nat} {decoder decoder' : Bool} {c : Conn} (h : c.Sized k decoder)
    (hdecoder : decoder = true → decoder' = true) : c.Sized k decoder' := by
  cases c with
  | adopted link owed =>
    intro hk
    obtain ⟨huse, hdec, howed⟩ := h hk
    exact ⟨huse, hdecoder hdec, howed⟩
  | serving link =>
    intro hk
    obtain ⟨huse, hdec⟩ := h hk
    exact ⟨huse, hdecoder hdec⟩
  | absent | requested | answered | closed => exact h

/-- The server's session has the group size of the request that made it. -/
theorem handle_connection_group {cfg : ServerConfig} {current : Option ServerSession}
    {req : HandshakeReq} {fresh : Fresh} {session : ServerSession} {k : Nat}
    (hcurrent : ∀ old, current = some old → old.fecEncK = k)
    (hreq : (if req.fec then req.fecGroup else 0) = k)
    (h : handleConnection cfg current req fresh = some session) : session.fecEncK = k := by
  unfold handleConnection at h
  split at h
  · cases h
  · split at h
    · rename_i old hold
      have hk := hcurrent old (Option.filter_eq_some_iff.mp hold).1
      unfold ServerSession.join at h
      split at h
      · cases h
      · split at h
        · obtain ⟨accepted, haccepted, rfl⟩ := Option.map_eq_some_iff.mp h
          have hsame : accepted.fecEncK = old.fecEncK := by
            unfold ServerSession.acceptSessionResumeToken at haccepted
            repeat' split at haccepted
            all_goals cases haccepted
            all_goals rfl
          unfold ServerSession.ensurePendingResumeToken
          split
          · exact hsame.trans hk
          · exact hsame.trans hk
        · cases h
          unfold ServerSession.acknowledge
          split
          · exact hk
          · exact hk
    · cases h
      exact hreq

namespace System

/-- The client, the server and everything between them agree with the group size. -/
structure Sized (k : Nat) (s : System) : Prop where
  wired : s.Wired
  live : s.live.group = k
  session : s.session.Sized k
  server : ∀ session, s.server = some session → session.fecEncK = k
  encoder : s.port.groupSize = s.session.fecDec.map (·.k)
  conn : ∀ b, (s.conn b).Sized k s.session.fecDec.isSome

variable {s s' : System} {b k : Nat}

namespace Sized

theorem update_conn (h : Sized k s) (b : Nat) (c : Conn) (hc : c.Sized k s.session.fecDec.isSome) :
    ∀ x, (update s.conn b c x).Sized k s.session.fecDec.isSome := by
  intro x
  by_cases heq : x = b
  · rw [heq, update_self]
    exact hc
  · rw [update_of_ne heq]
    exact h.conn x

/-- A connection moves on and the sizes stay. -/
theorem set_conn (h : Sized k s) {c : Conn} (hc : c.Sized k s.session.fecDec.isSome)
    (hwired : (s.setConn b c).Wired) : Sized k (s.setConn b c) :=
  ⟨hwired, h.live, h.session, h.server, h.encoder, h.update_conn b c hc⟩

theorem enter (h : Sized k s) {lv : LiveConfig} {resp : HandshakeResp} {ciphers : Ciphers}
    (hconn : s.conn b = .answered lv resp) (hwired : (s.enter b lv resp ciphers).Wired) :
    Sized k (s.enter b lv resp ciphers) := by
  have hanswered := h.conn b
  rw [hconn] at hanswered
  obtain ⟨hlv, hresp⟩ := hanswered
  obtain ⟨hsession, hsome⟩ := h.session.adopt hlv hresp s.conns ciphers
  have huse := h.session.use_iff hlv hresp ciphers.encAlgo
  have hdecoder : s.session.fecDec.isSome = true →
      (s.session.adopt s.conns lv resp ciphers).fecDec.isSome = true := by
    intro hdec
    obtain ⟨d, hd⟩ := Option.isSome_iff_exists.mp hdec
    exact hsome (h.session.decoder d hd).2
  obtain ⟨hlive, hserver⟩ := enter_settings s b lv resp ciphers
  refine ⟨hwired, by rw [hlive]; exact h.live, hsession, by rw [hserver]; exact h.server, ?_,
    fun x => ?_⟩
  · -- a new decoder comes with a new encoder
    rw [enter_port]
    refine Eq.trans ?_ (ClientSession.adopt_decoder_size s.session s.conns lv resp ciphers).symm
    split
    · rename_i hrebuild
      have hk : k ≠ 0 := huse.mp (of_decide_eq_true hrebuild).1
      have hrange := lv.group_range
      rw [reset_epoch_group_size]
      rcases h.session.negotiated_eq hlv hresp with ⟨-, hzero⟩ | heq
      · exact absurd hzero hk
      · rw [if_pos (by omega)]
    · exact h.encoder
  · show (update s.conn b _ x).Sized k
      (s.session.adopt s.conns lv resp ciphers).fecDec.isSome
    by_cases heq : x = b
    · rw [heq, update_self]
      intro hk
      have hxor := huse.mpr hk
      refine ⟨hxor, hsome hk, ?_⟩
      unfold owes
      rw [if_neg (fun hand => by rw [hxor] at hand; cases hand.2), nil_append]
      split
      · exact fun hmem => Owed.noConfusion (mem_singleton.mp hmem)
      · exact not_mem_nil
    · rw [update_of_ne heq]
      exact (h.conn x).mono hdecoder

theorem settle (h : Sized k s) (hstep : s.settle b = some s') (hwired : s'.Wired) :
    Sized k s' := by
  obtain ⟨link, owed, ⟨hconn, -, rfl⟩ | ⟨hconn, rfl⟩⟩ := settle_eq_some hstep
  · have hadopted := h.conn b
    rw [hconn] at hadopted
    -- a reset is owed only without FEC
    have hk : k = 0 := by
      by_contra hk
      exact (hadopted hk).2.2 (mem_cons_self ..)
    have hnone : s.session.fecDec = none := by
      cases hdec : s.session.fecDec with
      | none => rfl
      | some d => exact absurd hk (h.session.decoder d hdec).2
    refine ⟨hwired, h.live, h.session, h.server, ?_, h.update_conn b (.adopted link owed)
      (absurd hk)⟩
    show (s.port.resetEpoch 0 none).groupSize = s.session.fecDec.map (·.k)
    rw [reset_epoch_group_size, hnone]
    rfl
  · have hadopted := h.conn b
    rw [hconn] at hadopted
    refine ⟨hwired, h.live, h.session, h.server, h.encoder,
      h.update_conn b (.adopted link owed) fun hk => ?_⟩
    obtain ⟨huse, hdec, howed⟩ := hadopted hk
    exact ⟨huse, hdec, fun hmem => howed (mem_cons_of_mem _ hmem)⟩

theorem refresh (h : Sized k s) (disk : Stored) : Sized k (s.refresh disk) := by
  unfold System.refresh
  repeat' split
  all_goals first
    | exact h
    | exact ⟨⟨h.wired.numbered, h.wired.created, h.wired.served⟩, h.live,
        ⟨h.session.negotiated, h.session.decoder⟩, h.server, h.encoder, h.conn⟩

/-- Each part of the handshake passes the group size on. -/
theorem step {action : Action} (h : Sized k s) (hallowed : s.KeepsGroup action)
    (hstep : s.step action = some s') : Sized k s' := by
  have hwired := h.wired.step hstep
  cases action with
  | applyConfig live =>
    cases hstep
    exact ⟨hwired, hallowed.trans h.live, h.session, h.server, h.encoder, h.conn⟩
  | rotateInstance instanceID =>
    cases hstep
    exact ⟨hwired, h.live, h.session, h.server, h.encoder, h.conn⟩
  | exhaustServer instanceID =>
    cases hstep
    refine ⟨hwired, h.live, h.session, fun session hsession => ?_, h.encoder, h.conn⟩
    obtain ⟨old, hold, rfl⟩ := Option.map_eq_some_iff.mp hsession
    exact h.server old hold
  | restartServer config =>
    cases hstep
    exact ⟨hwired, h.live, h.session, nofun, h.encoder, h.conn⟩
  | refresh disk =>
    cases hstep
    exact h.refresh disk
  | dial b =>
    obtain ⟨-, rfl⟩ := dial_eq_some hstep
    exact h.set_conn ⟨h.live, (s.live.request_group _ _).trans h.live⟩ hwired
  | answer b fresh =>
    obtain ⟨lv, req, hconn, -, rfl | ⟨session, hsession, rfl⟩⟩ := answer_eq_some hstep
    · exact h.set_conn trivial hwired
    · have hrequested := h.conn b
      rw [hconn] at hrequested
      have hk := handle_connection_group h.server hrequested.2 hsession
      refine ⟨hwired, h.live, h.session, ?_, h.encoder,
        h.update_conn b (.answered lv (session.respond req)) ⟨hrequested.1, hk⟩⟩
      rintro session' ⟨⟩
      exact hk
  | adopt b =>
    obtain ⟨lv, resp, hconn, rfl | ⟨ciphers, -, -, rfl⟩⟩ := adopt_eq_some hstep
    · exact h.set_conn trivial hwired
    · exact h.enter hconn hwired
  | settle b => exact h.settle hstep hwired
  | register b =>
    obtain ⟨link, hconn, -, rfl⟩ := register_eq_some hstep
    have hadopted := h.conn b
    rw [hconn] at hadopted
    refine ⟨hwired, h.live, h.session, h.server, h.encoder,
      h.update_conn b (.serving link) fun hk => ?_⟩
    obtain ⟨huse, hdec, -⟩ := hadopted hk
    exact ⟨huse, hdec⟩
  | close b =>
    rcases close_eq_some hstep with ⟨link, -, rfl⟩ | rfl
    · exact ⟨hwired, h.live, h.session, h.server, h.encoder,
        h.update_conn b (.closed (some link)) trivial⟩
    · exact h.set_conn trivial hwired
  | port action =>
    obtain ⟨-, -, hreset, port, hport, rfl⟩ := port_step_eq_some hstep
    refine ⟨hwired, h.live, h.session, h.server, ?_, h.conn⟩
    exact (AsyncPort.step_group_size h.wired.numbered hreset hport).trans h.encoder
  | arrive call =>
    obtain ⟨reorder, rfl⟩ := arrive_eq_some hstep
    exact ⟨hwired, h.live, h.session, h.server, h.encoder, h.conn⟩

/-- The sizes give the agreement. -/
theorem fec_agrees (h : Sized k s) : s.FecAgrees := by
  intro b link session hjoined hserver _
  have hk := h.server session hserver
  have hsome : k ≠ 0 → link.decision.useXorFec = true ∧ s.session.fecDec.isSome = true := by
    intro hne
    have hconn := h.conn b
    rcases hjoined with hadopted | hserving
    · rw [hadopted] at hconn
      exact ⟨(hconn hne).1, (hconn hne).2.1⟩
    · rw [hserving] at hconn
      exact hconn hne
  refine ⟨fun hpos => ?_, fun hzero => ?_⟩
  · obtain ⟨huse, hdec⟩ := hsome (by omega)
    obtain ⟨d, hd⟩ := Option.isSome_iff_exists.mp hdec
    have hsize : s.session.fecDec.map (·.k) = some session.fecEncK := by
      rw [hd, hk]
      exact congrArg some (h.session.decoder d hd).1
    exact ⟨huse, hsize, h.encoder.trans hsize⟩
  · rw [h.encoder]
    cases hdec : s.session.fecDec with
    | none => rfl
    | some d => exact absurd (hk.symm.trans hzero) (h.session.decoder d hdec).2

end Sized

/-- In every run in which no settings with another group size are applied, starting from a server
that holds no session or one with the client's group size, the client agrees with the server's
session on every connection that has joined it. -/
theorem fec_agreement (suite : Suite) (conns : Nat) (config : ServerConfig)
    (server : Option ServerSession) (live : LiveConfig) (instanceID : Nat) (stored : Stored)
    (actions : List Action) (s : System)
    (hserver : ∀ session, server = some session → session.fecEncK = live.group)
    (hkeeps : Along step KeepsGroup (new suite conns config server live instanceID stored) actions)
    (hrun : run step (new suite conns config server live instanceID stored) actions = some s) :
    s.FecAgrees := by
  have hsized : Sized live.group s :=
    run_invariant (fun _ _ _ h hallowed hstep => Sized.step h hallowed hstep)
      ⟨wired_new suite conns config server live instanceID stored, rfl, ⟨.inl rfl, nofun⟩,
        hserver,
        rfl, fun _ => trivial⟩ hkeeps hrun
  exact hsized.fec_agrees

/-- Settings are applied, the server restarts, and a second connection makes a new session. -/
def reapplied (group : Nat) : List Action :=
  [.dial 0, .answer 0 (draw 1), .adopt 0, .register 0, .applyConfig (clientSettings true group),
    .restartServer (serverSettings true), .close 0,
    .dial 1, .answer 1 (draw 2), .adopt 1, .register 1]

/-- Both ends have groups of four. -/
theorem reapplied_group_agrees :
    ∃ s, run step (firstStart true 4 2) (reapplied 4) = some s ∧
      (s.server.map (·.fecEncK) = some 4 ∧ s.port.groupSize = some 4) ∧ s.FecAgrees := by
  obtain ⟨s, hrun, hend⟩ : ∃ s, run step (firstStart true 4 2) (reapplied 4) = some s ∧
      s.server.map (·.fecEncK) = some 4 ∧ s.port.groupSize = some 4 :=
    exists_run_of_decide (by decide +kernel)
  exact ⟨s, hrun, hend, fec_agreement clearSuite 2 (serverSettings true) none
    (clientSettings true 4) 1 ⟨0, 0, 0⟩ (reapplied 4) s nofun (by decide +kernel) hrun⟩

/-- The link of a connection that serves. -/
def servingLink (s : System) (b : Nat) : Option Linked :=
  match s.conn b with
  | .serving link => some link
  | _ => none

theorem conn_of_serving_link {link : Linked} (h : s.servingLink b = some link) :
    s.conn b = .serving link := by
  unfold servingLink at h
  split at h
  · rename_i hconn
    cases h
    exact hconn
  · cases h

/-- The new session has the group size of the new settings, and the client keeps the old one. -/
theorem applied_group_disagrees :
    ∃ s, run step (firstStart true 4 2) (reapplied 8) = some s ∧ ¬ s.FecAgrees := by
  obtain ⟨s, hrun, hlink, hserver, hsize⟩ :
      ∃ s, run step (firstStart true 4 2) (reapplied 8) = some s ∧
        (s.servingLink 1).map (·.resp.sessionID) = some 2 ∧
        s.server.map (fun session => (session.sessionID, session.fecEncK)) = some (2, 8) ∧
        s.port.groupSize = some 4 :=
    exists_run_of_decide (by decide +kernel)
  obtain ⟨link, hserving, hresp⟩ := Option.map_eq_some_iff.mp hlink
  obtain ⟨session, hsession, hpair⟩ := Option.map_eq_some_iff.mp hserver
  obtain ⟨hid, hk⟩ := Prod.mk.inj hpair
  refine ⟨s, hrun, fun hagrees => ?_⟩
  have hwith := hagrees 1 link session (.inr (conn_of_serving_link hserving)) hsession
    (hresp.trans hid.symm)
  obtain ⟨-, -, hencoder⟩ := hwith.1 (by omega)
  rw [hsize, hk] at hencoder
  cases hencoder

end System

end TlsVpn.Session
