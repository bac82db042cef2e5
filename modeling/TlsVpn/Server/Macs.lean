import TlsVpn.Server.Consistency

/-!
# One session for a MAC

The name of a client is derived from its MAC and the pre-shared key, and the server looks for its
session by the name. After a change of the key a client comes back under another name, while the
session of its old name lives on until its timer, so that two sessions claim the MAC.

`macs_owned` shows that no MAC has two sessions and that the switch delivers its frames to the
session, in every run in which a handshake meets no session of its MAC with another key.
`changed_key_shares_mac` is a run with a change of the key.
-/

namespace TlsVpn.Server

open Lib Session List

namespace ServerState

variable {ClientID : Type} [DecidableEq ClientID] {s s' : ServerState ClientID}
  {session session' : ClientSession ClientID} {uuid : MacKey → String → ClientID}

/-- Every MAC has one session, and frames for it reach the port of the session. -/
structure MacsOwned (s : ServerState ClientID) : Prop where
  distinct : (s.activeClients.map ClientSession.mac).Nodup
  pinned : ∀ c ∈ s.activeClients, s.switch.entry c.mac = some (VSwitch.pinned (registered c))
  reached : ∀ c ∈ s.activeClients, ∀ src ≠ .client c.clientID, ∀ now,
    (s.switch.forward src c.mac now).2 = [c.ref]

/-- A handshake is registered only if every session of its MAC has the key it was authenticated
with. -/
def SameKey (s : ServerState ClientID) : Action ClientID → Prop
  | .register a _ => ∀ c ∈ s.activeClients, c.mac = a.mac → c.core.psk = a.config.psk
  | _ => True

instance (s : ServerState ClientID) : DecidablePred s.SameKey
  | .register .. => inferInstanceAs (Decidable (∀ c ∈ s.activeClients, _))
  | .authenticate .. | .cleanup _ | .fire _ | .timeout _ | .kick _ | .sequenceExhausted ..
  | .applyConfig .. | .frame .. | .tick => isTrue trivial

/-! ## The invariant -/

/-- A MAC that the server admits. -/
def ValidMAC (mac : MacKey) : Prop := mac ≠ .zero ∧ mac.IsUnicast

/-- The switch serves the sessions, which have the names that their MACs and keys give. -/
structure Owned (uuid : MacKey → String → ClientID) (s : ServerState ClientID) : Prop where
  books : s.Books
  trusted : s.switch.trustedPort = .tap
  serves : s.switch.Serves 0 (s.activeClients.map registered)
  named : ∀ c ∈ s.activeClients, c.clientID = uuid c.mac c.core.psk ∧ ValidMAC c.mac
  waiting : ∀ a ∈ s.waiting, ValidMAC a.mac

theorem new_owned (config : ServerConfig) (maxSessions : Nat) (v4 v6 : Nat × Nat) :
    (ServerState.new config maxSessions v4 v6).Owned uuid :=
  { books := new_books config maxSessions v4 v6
    trusted := rfl
    serves := .new _
    named := fun _ hc => absurd hc not_mem_nil
    waiting := fun _ ha => absurd ha not_mem_nil }

theorem Owned.sound (h : s.Owned uuid) : s.MacsOwned := by
  have hpinned : ∀ c ∈ s.activeClients,
      s.switch.entry c.mac = some (VSwitch.pinned (registered c)) :=
    fun c hc => h.serves.session_entry (registered c) (mem_map_of_mem hc)
  refine ⟨?_, hpinned, ?_⟩
  · refine List.Nodup.map_on (fun c hc c' hc' hmac => ?_) (List.Nodup.of_map _ h.books.ids)
    have hsame := h.serves.mac_inj (mem_map_of_mem hc) (mem_map_of_mem hc') hmac
    have hid : c.clientID = c'.clientID := PortName.client.inj (congrArg Registered.id hsame)
    exact inj_on_of_nodup_map h.books.ids hc hc' hid
  · intro c hc src hsrc now
    have hport := h.serves.session_port (mem_map_of_mem hc)
    have hforward := h.serves.forward_known src now (h.named c hc).2.2 (hpinned c hc)
    have hother : (VSwitch.pinned (registered c)).portID ≠ src := Ne.symm hsrc
    rw [hforward, if_neg hother]
    show (s.switch.port (registered c).id).toList = [c.ref]
    rw [hport]
    rfl

/-! ## Changes of the sessions -/

/-- A change of a session that the switch does not see. -/
theorem Owned.update (h : s.Owned uuid) (hbooks : s'.Books) (hmem : session ∈ s.activeClients)
    (hactive : s'.activeClients = updateKey ClientSession.clientID s.activeClients
      session'.clientID fun _ => session')
    (hid : session'.clientID = session.clientID) (href : session'.ref = session.ref)
    (hmac : session'.mac = session.mac) (hpsk : session'.core.psk = session.core.psk)
    (hswitch : s'.switch = s.switch) (hwaiting : s'.waiting = s.waiting) : s'.Owned uuid := by
  have hself : ∀ c ∈ s.activeClients, c.clientID = session'.clientID → c = session :=
    fun c hc heq => inj_on_of_nodup_map h.books.ids hc hmem (heq.trans hid)
  have hregistered : s'.activeClients.map registered = s.activeClients.map registered := by
    rw [hactive]
    refine map_updateKey fun c hc heq => ?_
    rw [hself c hc heq]
    unfold registered
    rw [hid, href, hmac]
  refine
    { books := hbooks
      trusted := by rw [hswitch]; exact h.trusted
      serves := by rw [hswitch, hregistered]; exact h.serves
      named := ?_
      waiting := by rw [hwaiting]; exact h.waiting }
  intro c hc
  rw [hactive] at hc
  rcases mem_updateKey.mp hc with ⟨_, _, _, rfl⟩ | ⟨hold, -⟩
  · rw [hid, hmac, hpsk]
    exact h.named session hmem
  · exact h.named c hold

omit [DecidableEq ClientID] in
/-- A step that changes no session and no table of the switch. -/
theorem Owned.keep (h : s.Owned uuid) (hbooks : s'.Books)
    (hactive : s'.activeClients = s.activeClients) (htrusted : s'.switch.trustedPort = .tap)
    (hserves : s'.switch.Serves 0 (s.activeClients.map registered))
    (hwaiting : ∀ a ∈ s'.waiting, ValidMAC a.mac) : s'.Owned uuid :=
  { books := hbooks
    trusted := htrusted
    serves := by rw [hactive]; exact hserves
    named := fun c hc => h.named c (hactive ▸ hc)
    waiting := hwaiting }

/-- What is left of the sessions without one of them. -/
theorem registered_filter (id : ClientID) (sessions : List (ClientSession ClientID)) :
    (sessions.filter fun c => c.clientID ≠ id).map registered =
      (sessions.map registered).filter fun r => r.id ≠ .client id := by
  rw [filter_map]
  congr 1
  refine filter_congr fun c _ => ?_
  simp [registered]

theorem Owned.destroy (h : s.Owned uuid) (hmem : session ∈ s.activeClients)
    {armed fired : List (Timer ClientID)}
    (hpending : KeepsTimers s { s with armed, fired } session.ref) :
    (destroySession { s with armed, fired } session).Owned uuid := by
  have hbooks := h.books.destroy_timers hmem hpending
  have hlookup : ServerState.lookup { s with armed, fired } session.clientID = some session :=
    h.books.lookup_iff.mpr ⟨hmem, rfl⟩
  unfold destroySession at hbooks ⊢
  rw [hlookup] at hbooks ⊢
  dsimp only at hbooks ⊢
  rw [if_neg (not_not.mpr rfl)] at hbooks ⊢
  refine
    { books := hbooks
      trusted := h.trusted
      serves := ?_
      named := fun c hc => h.named c (mem_filter.mp hc).1
      waiting := h.waiting }
  have hne : PortName.client session.clientID ≠ s.switch.trustedPort := by
    rw [h.trusted]
    nofun
  have hserves := h.serves.removePort hne
  rw [← registered_filter] at hserves
  exact hserves

/-- A new session has a MAC of its own: a session of its MAC would have its name. -/
theorem Owned.create (h : s.Owned uuid) {a : Authenticated} (hvalid : ValidMAC a.mac)
    (hkey : ∀ c ∈ s.activeClients, c.mac = a.mac → c.core.psk = a.config.psk)
    (hid : s.lookup (uuid a.mac a.config.psk) = none) (ips : Option Nat × Option Nat)
    (fresh : Fresh) : (s.create (uuid a.mac a.config.psk) a ips fresh).Owned uuid := by
  have hbooks := h.books.create hid a ips fresh
  have habsent := find_key_eq_none.mp hid
  unfold ServerState.create at hbooks ⊢
  split at hbooks
  · rename_i hlimit
    rw [if_pos hlimit]
    exact h
  · rename_i hlimit
    rw [if_neg hlimit]
    rcases assign_cases s ips.1 ips.2 with hnone | ⟨v4ip, v6ip, -, -, hassign⟩
    · rw [hnone]
      exact h
    · rw [hassign] at hbooks ⊢
      refine
        { books := hbooks
          trusted := ?_
          serves := ?_
          named := ?_
          waiting := h.waiting }
      · exact (VSwitch.add_static_trusted _ _).trans h.trusted
      · refine h.serves.create ⟨.client (uuid a.mac a.config.psk), s.nextRef, a.mac⟩ ?_ hvalid.1 ?_
        · rw [h.trusted, mem_cons, mem_map, not_or]
          refine ⟨by nofun, ?_⟩
          rintro ⟨r, hr, heq⟩
          obtain ⟨c, hc, rfl⟩ := mem_map.mp hr
          exact habsent c hc (PortName.client.inj heq)
        · intro r hr heq
          obtain ⟨c, hc, rfl⟩ := mem_map.mp hr
          have hmac : c.mac = a.mac := heq
          refine habsent c hc ?_
          rw [(h.named c hc).1, hmac, hkey c hc hmac]
      · intro c hc
        rcases mem_cons.mp hc with rfl | hold
        · exact ⟨rfl, hvalid⟩
        · exact h.named c hold

/-- A session that a connection joins keeps its name, its port and its MAC. -/
theorem join_session_changes (s : ServerState ClientID) (session : ClientSession ClientID)
    (core : ServerSession) (rotated : Prop) [Decidable rotated] :
    ∃ session' : ClientSession ClientID, (s.joinSession session core rotated).activeClients =
        updateKey ClientSession.clientID s.activeClients session'.clientID (fun _ => session') ∧
      session'.clientID = session.clientID ∧ session'.ref = session.ref ∧
      session'.mac = session.mac ∧ session'.core = core ∧
      (s.joinSession session core rotated).switch = s.switch ∧
      (s.joinSession session core rotated).waiting = s.waiting := by
  unfold joinSession
  dsimp only
  generalize (if rotated then 0 else session.activeConns) = active
  split
  · exact ⟨_, rfl, rfl, rfl, rfl, rfl, rfl, rfl⟩
  · exact ⟨_, rfl, rfl, rfl, rfl, rfl, rfl, rfl⟩

/-! ## Steps and runs -/

theorem Owned.register (h : s.Owned uuid) {a : Authenticated} (hvalid : ValidMAC a.mac)
    (hkey : ∀ c ∈ s.activeClients, c.mac = a.mac → c.core.psk = a.config.psk) (fresh : Fresh) :
    (s.register (uuid a.mac a.config.psk) a fresh).Owned uuid := by
  have hbooks := h.books.register (uuid a.mac a.config.psk) a fresh
  unfold ServerState.register at hbooks ⊢
  cases hlookup : s.lookup (uuid a.mac a.config.psk) with
  | none => exact h.create hvalid hkey hlookup _ fresh
  | some session =>
    obtain ⟨hmem, hid⟩ := h.books.lookup_iff.mp hlookup
    rw [hlookup] at hbooks
    dsimp only at hbooks ⊢
    split
    · exact h
    · rename_i hmac
      rw [if_neg hmac] at hbooks
      have hpsk := hkey session hmem (not_not.mp hmac).symm
      rw [if_neg (not_not.mpr hpsk)] at hbooks ⊢
      split
      · exact h
      · rename_i core hjoin
        rw [hjoin] at hbooks
        obtain ⟨session', hactive, hname, href, hsame, hcore, hswitch, hwaiting⟩ :=
          join_session_changes s session core (session.core.instanceID ≠ a.req.clientInstance)
        exact h.update hbooks hmem hactive hname href hsame
          (by rw [hcore, (ServerSession.join_keeps hjoin).1.2]) hswitch hwaiting

theorem Owned.cleanup (h : s.Owned uuid) {c : ConnInfo ClientID} (hc : c ∈ s.conns) :
    (s.cleanup c).Owned uuid := by
  have hbooks := h.books.cleanup hc
  unfold ServerState.cleanup at hbooks ⊢
  dsimp only at hbooks ⊢
  cases hlookup : ServerState.lookup { s with conns := s.conns.erase c } c.clientID with
  | none =>
    rw [hlookup] at hbooks
    exact h.keep hbooks rfl h.trusted h.serves h.waiting
  | some session =>
    rw [hlookup] at hbooks
    obtain ⟨hmem, hid⟩ := h.books.lookup_iff.mp hlookup
    dsimp only at hbooks ⊢
    split
    · rename_i hstale
      rw [if_pos hstale] at hbooks
      exact h.keep hbooks rfl h.trusted h.serves h.waiting
    · rename_i hcurrent
      rw [if_neg hcurrent] at hbooks
      split
      · rename_i hlast
        rw [if_pos hlast] at hbooks
        exact h.update hbooks hmem rfl rfl rfl rfl rfl rfl rfl
      · rename_i hmore
        rw [if_neg hmore] at hbooks
        exact h.update hbooks hmem rfl rfl rfl rfl rfl rfl rfl

theorem Owned.timeout (h : s.Owned uuid) (t : Timer ClientID) : (s.timeout t).Owned uuid := by
  have hbooks := h.books.timeout t
  unfold ServerState.timeout at hbooks ⊢
  dsimp only at hbooks ⊢
  cases hlookup : ServerState.lookup { s with fired := s.fired.erase t } t.clientID with
  | none =>
    rw [hlookup] at hbooks
    exact h.keep hbooks rfl h.trusted h.serves h.waiting
  | some session =>
    rw [hlookup] at hbooks
    obtain ⟨hmem, hid⟩ := h.books.lookup_iff.mp hlookup
    dsimp only at hbooks ⊢
    split
    · rename_i hdestroy
      refine h.destroy hmem fun t' hne hpend => ?_
      have hother : t' ≠ t := fun heq => hne (by rw [heq, hdestroy.1])
      exact hpend.imp_right (mem_erase_of_ne hother).mpr
    · rename_i hkept
      rw [if_neg hkept] at hbooks
      exact h.keep hbooks rfl h.trusted h.serves h.waiting

theorem Owned.kick (h : s.Owned uuid) (ref : Nat) : (s.kickSession ref).Owned uuid := by
  unfold kickSession
  split
  · exact h
  · rename_i session hfound
    have hmem := (mem_of_find_key hfound).1
    exact h.destroy hmem (h.books.keeps_timers hmem)

theorem Owned.exhausted (h : s.Owned uuid) (ref instanceID : Nat) :
    (s.sequenceExhausted ref instanceID).Owned uuid := by
  have hbooks := h.books.exhausted ref instanceID
  unfold sequenceExhausted at hbooks ⊢
  split
  · exact h
  · rename_i session hfound
    rw [hfound] at hbooks
    exact h.update hbooks (mem_of_find_key hfound).1 rfl rfl rfl rfl rfl rfl rfl

theorem tap_valid (sessions : List (ClientSession ClientID)) (mac : MacKey) :
    Net.validateSrcMAC (sessions.map registered) .tap mac = true := by
  have hnone : findKey Registered.id (sessions.map registered) .tap = none := by
    refine find_key_eq_none.mpr fun r hr heq => ?_
    obtain ⟨c, -, rfl⟩ := mem_map.mp hr
    cases heq
  unfold Net.validateSrcMAC
  rw [hnone]

/-- The switch serves the sessions after every frame. -/
theorem Owned.frame_serves (h : s.Owned uuid) {origin : Origin (PortName ClientID)}
    {src : PortName ClientID} {registeredMAC : Option MacKey}
    (hport : Origin.port origin = some (src, registeredMAC)) (raw : Bytes) (now : Nat) :
    (s.switch.processFrame (Net.validateSrcMAC (s.activeClients.map registered)) src raw
      registeredMAC now).1.Serves 0 (s.activeClients.map registered) ∧
    (s.switch.processFrame (Net.validateSrcMAC (s.activeClients.map registered)) src raw
      registeredMAC now).1.trustedPort = .tap := by
  have hcheck : ∀ mac vs, s.switch.checkSource
      (Net.validateSrcMAC (s.activeClients.map registered)) src registeredMAC mac = some vs →
      s.switch.Learns 0 mac vs := by
    intro mac vs hpassed
    cases origin with
    | session r =>
      simp only [Origin.port, Option.ite_none_right_eq_some] at hport
      obtain ⟨hzero, ⟨⟩⟩ := hport
      rw [VSwitch.check_registered hzero, Option.ite_none_left_eq_some] at hpassed
      cases hpassed.2
      exact .kept
    | tap =>
      cases hport
      have hvalid : ∀ mac, Net.validateSrcMAC (s.activeClients.map registered)
          s.switch.trustedPort mac = true := by
        rw [h.trusted]
        exact tap_valid s.activeClients
      obtain ⟨vs', hfound, hlearns⟩ := h.serves.check_trusted hvalid mac
      rw [h.trusted, hpassed] at hfound
      cases hfound
      exact hlearns
  obtain ⟨hserves, htrusted⟩ := h.serves.processFrame raw now hcheck
  exact ⟨hserves, htrusted.trans h.trusted⟩

/-- A registration finds the MAC free or owned by its client. -/
theorem Owned.step (h : s.Owned uuid) {action : Action ClientID} (hkey : s.SameKey action)
    (hstep : s.step uuid action = some s') : s'.Owned uuid := by
  have hbooks := h.books.step hstep
  cases action with
  | authenticate req mac ipv4 ipv6 =>
    obtain ⟨henters, rfl⟩ := of_guarded hstep
    refine h.keep hbooks rfl h.trusted h.serves fun a ha => ?_
    rcases mem_append.mp ha with hold | hnew
    · exact h.waiting a hold
    · rw [mem_singleton.mp hnew]
      exact henters.2
  | register a fresh =>
    obtain ⟨hmem, rfl⟩ := of_guarded hstep
    have htaken : Owned uuid { s with waiting := s.waiting.erase a } :=
      h.keep (h.books.untouched rfl rfl rfl rfl rfl fun _ hpend => hpend) rfl h.trusted h.serves
        fun a' ha' => h.waiting a' (mem_of_mem_erase ha')
    exact htaken.register (h.waiting a hmem) hkey fresh
  | cleanup c =>
    obtain ⟨hc, rfl⟩ := of_guarded hstep
    exact h.cleanup hc
  | fire t =>
    obtain ⟨_, rfl⟩ := of_guarded hstep
    exact h.keep hbooks rfl h.trusted h.serves h.waiting
  | timeout t =>
    obtain ⟨_, rfl⟩ := of_guarded hstep
    exact h.timeout t
  | kick ref =>
    cases hstep
    exact h.kick ref
  | sequenceExhausted ref instanceID =>
    cases hstep
    exact h.exhausted ref instanceID
  | applyConfig config maxSessions =>
    cases hstep
    exact h.keep hbooks rfl h.trusted h.serves h.waiting
  | frame origin raw now =>
    obtain ⟨⟨src, registeredMAC⟩, hport, rfl⟩ := Option.map_eq_some_iff.mp hstep
    obtain ⟨hserves, htrusted⟩ := h.frame_serves hport raw now
    exact h.keep hbooks rfl htrusted hserves h.waiting
  | tick =>
    cases hstep
    exact h.keep hbooks rfl ((VSwitch.tick_ports s.switch).2.trans h.trusted) h.serves.tick
      h.waiting

/-- No MAC has two sessions, and the frames for the MAC of a session reach its port. -/
theorem macs_owned (uuid : MacKey → String → ClientID) (config : ServerConfig) (maxSessions : Nat)
    (v4 v6 : Nat × Nat) (actions : List (Action ClientID))
    (halong : Along (step uuid) SameKey (new config maxSessions v4 v6) actions)
    (hrun : run (step uuid) (new config maxSessions v4 v6) actions = some s) : s.MacsOwned := by
  have howned : s.Owned uuid :=
    run_invariant (fun _ _ _ h hallowed hstep => Owned.step h hallowed hstep)
      (new_owned config maxSessions v4 v6) halong hrun
  exact howned.sound

/-- A session times out before its client comes back with another key. -/
def leaveThenChange : List (Action (MacKey × String)) :=
  handshake "old" 1 0 1 ++
    [.cleanup ⟨1, (someMAC, "old"), 1⟩, .fire ⟨0, 1, (someMAC, "old")⟩,
      .timeout ⟨0, 1, (someMAC, "old")⟩, .applyConfig (settings "new") 8] ++
    handshake "new" 2 1 2

/-- The MAC belongs to the new session. -/
theorem left_session_owned :
    ∃ s,
      run (step Prod.mk) (new (settings "old") 8 (256, 256) (512, 256)) leaveThenChange = some s ∧
      s.activeClients.map (fun c => (c.ref, c.core.psk)) = [(2, "new")] ∧ s.MacsOwned := by
  obtain ⟨s, hrun, hend⟩ : ∃ s, run (step Prod.mk) (new (settings "old") 8 (256, 256) (512, 256))
      leaveThenChange = some s ∧
      s.activeClients.map (fun c => (c.ref, c.core.psk)) = [(2, "new")] :=
    exists_run_of_decide (by decide +kernel)
  exact ⟨s, hrun, hend, macs_owned Prod.mk _ _ _ _ _ (by decide +kernel) hrun⟩

/-- The key is changed and the client comes back with it: the old session and the new one have the
same MAC, and the entry of the old one is gone. When the key is changed back, the client joins its
old session again, but the frames for it go to the port of the other one. -/
theorem changed_key_shares_mac :
    (∃ s, run (step Prod.mk) (new (settings "old") 8 (256, 256) (512, 256))
        (handshake "old" 1 0 1 ++ [.applyConfig (settings "new") 8] ++ handshake "new" 2 1 2) =
          some s ∧ ¬ (s.activeClients.map ClientSession.mac).Nodup ∧ ¬ s.MacsOwned) ∧
    ∃ s, run (step Prod.mk) (new (settings "old") 8 (256, 256) (512, 256))
        (handshake "old" 1 0 1 ++ [.applyConfig (settings "new") 8] ++ handshake "new" 2 1 2 ++
          [.applyConfig (settings "old") 8] ++ handshake "old" 3 1 3) = some s ∧
      (s.lookup (someMAC, "old")).map (fun c => (c.ref, c.activeConns)) = some (1, 1) ∧
      (s.switch.forward .tap someMAC 0).2 = [2] := by
  constructor
  · obtain ⟨s, hrun, hshared⟩ : ∃ s, run (step Prod.mk)
        (new (settings "old") 8 (256, 256) (512, 256))
        (handshake "old" 1 0 1 ++ [.applyConfig (settings "new") 8] ++ handshake "new" 2 1 2) =
          some s ∧ ¬ (s.activeClients.map ClientSession.mac).Nodup :=
      exists_run_of_decide (by decide +kernel)
    exact ⟨s, hrun, hshared, fun howned => hshared howned.distinct⟩
  · exact exists_run_of_decide (by decide +kernel)

end ServerState

end TlsVpn.Server
