import TlsVpn.Server.Consistency

/-!
# What a step does to the sessions

`Effect` lists the changes that a critical section makes to the sessions, their timers and their
connections: sessions are destroyed, one is created, one is joined, or the last connection of one
goes. `step_effect` says that every step of the server is one of these, so that a proof about the
sessions has these cases and not those of the source.
-/

namespace TlsVpn.Server

open Lib Session List

namespace ServerState

variable {ClientID : Type}

/-- The session that has gained a connection. -/
def joined (s s' : ServerState ClientID) : Option Nat :=
  if s.conns.length < s'.conns.length then s'.conns.getLast?.map ConnInfo.session else none

/-- The timer that has been armed. -/
def armedBy (s s' : ServerState ClientID) : Option (Timer ClientID) :=
  if s.nextTimer < s'.nextTimer then s'.armed.getLast? else none

variable {s s' : ServerState ClientID} {session session' : ClientSession ClientID}

theorem joined_of_link {c : ConnInfo ClientID} (h : s'.conns = s.conns ++ [c]) :
    joined s s' = some c.session := by
  unfold joined
  rw [h, if_pos (by simp), getLast?_append]
  rfl

theorem joined_of_le (h : s'.conns.length ≤ s.conns.length) : joined s s' = none :=
  if_neg (Nat.not_lt.mpr h)

theorem armed_by_of_same (h : s'.nextTimer = s.nextTimer) : armedBy s s' = none :=
  if_neg (by omega)

theorem armed_by_of_arm {t : Timer ClientID} (hnext : s'.nextTimer = s.nextTimer + 1)
    (harmed : s'.armed = s.armed ++ [t]) : armedBy s s' = some t := by
  unfold armedBy
  rw [if_pos (by omega), harmed, getLast?_append]
  rfl

/-- The session is `session` with changes, and the others are as they were. -/
structure Replaces (s s' : ServerState ClientID) (session session' : ClientSession ClientID) :
    Prop where
  mem : session ∈ s.activeClients
  ref : session'.ref = session.ref
  id : session'.clientID = session.clientID
  others : ∀ c ∈ s'.activeClients, c = session' ∨ c ∈ s.activeClients ∧ c.ref ≠ session.ref

variable [DecidableEq ClientID] {uuid : MacKey → String → ClientID}

/-- The changes that a step makes to the sessions, their timers and their connections. -/
inductive Effect (uuid : MacKey → String → ClientID) (s : ServerState ClientID) :
    Action ClientID → ServerState ClientID → Prop where
  | shrink {action : Action ClientID} {s' : ServerState ClientID}
      (hsessions : ∀ c ∈ s'.activeClients, c ∈ s.activeClients)
      (harmed : ∀ t ∈ s'.armed, t ∈ s.armed) (hfired : ∀ t ∈ s'.fired, t ∈ s.fired)
      (hconns : s'.conns.length ≤ s.conns.length) (hrefs : s'.nextRef = s.nextRef)
      (htimers : s'.nextTimer = s.nextTimer) : Effect uuid s action s'
  | fire {t : Timer ClientID} (ht : t ∈ s.armed) :
      Effect uuid s (.fire t) { s with armed := s.armed.erase t, fired := s.fired ++ [t] }
  | create {a : Authenticated} {fresh : Fresh} {s' : ServerState ClientID}
      (session : ClientSession ClientID)
      (hsessions : ∀ c ∈ s'.activeClients, c = session ∨ c ∈ s.activeClients)
      (href : session.ref = s.nextRef) (hid : session.clientID = uuid a.mac a.config.psk)
      (htimer : session.destroyTimer = none)
      (harmed : s'.armed = s.armed) (hfired : s'.fired = s.fired)
      (hconns : joined s s' = some session.ref) (hrefs : s'.nextRef = s.nextRef + 1)
      (htimers : s'.nextTimer = s.nextTimer) : Effect uuid s (.register a fresh) s'
  | join {a : Authenticated} {fresh : Fresh} {s' : ServerState ClientID}
      (session session' : ClientSession ClientID) (hreplaces : Replaces s s' session session')
      (htimer : session'.destroyTimer = none) (hcount : session'.activeConns ≠ 0)
      (harmed : s'.armed = s.armed.filter fun t => some t ≠ session.destroyTimer)
      (hfired : s'.fired = s.fired)
      (hconns : s'.conns.length ≤ s.conns.length ∨ joined s s' = some session.ref)
      (hrefs : s'.nextRef = s.nextRef)
      (htimers : s'.nextTimer = s.nextTimer) : Effect uuid s (.register a fresh) s'
  | touch {action : Action ClientID} {s' : ServerState ClientID}
      (session session' : ClientSession ClientID) (hreplaces : Replaces s s' session session')
      (htimer : session'.destroyTimer = session.destroyTimer)
      (hcount : session'.activeConns = session.activeConns ∨
        session.activeConns ≠ 0 ∧ session'.activeConns ≠ 0)
      (harmed : s'.armed = s.armed) (hfired : s'.fired = s.fired)
      (hconns : s'.conns.length ≤ s.conns.length) (hrefs : s'.nextRef = s.nextRef)
      (htimers : s'.nextTimer = s.nextTimer) : Effect uuid s action s'
  | arm {c : ConnInfo ClientID} {s' : ServerState ClientID}
      (session session' : ClientSession ClientID) (hreplaces : Replaces s s' session session')
      (hconn : c.session = session.ref) (hbefore : session.activeConns ≠ 0)
      (hcount : session'.activeConns = 0)
      (htimer : session'.destroyTimer = some ⟨s.nextTimer, session.ref, session.clientID⟩)
      (harmed : s'.armed = s.armed ++ [⟨s.nextTimer, session.ref, session.clientID⟩])
      (hfired : s'.fired = s.fired) (hconns : s'.conns.length ≤ s.conns.length)
      (hrefs : s'.nextRef = s.nextRef) (htimers : s'.nextTimer = s.nextTimer + 1) :
      Effect uuid s (.cleanup c) s'

/-- Updating a session leaves the others as they were. -/
theorem Books.replaces (h : s.Books) (hmem : session ∈ s.activeClients)
    (href : session'.ref = session.ref) (hid : session'.clientID = session.clientID)
    (hactive : s'.activeClients = updateKey ClientSession.clientID s.activeClients
      session'.clientID fun _ => session') : Replaces s s' session session' := by
  refine ⟨hmem, href, hid, fun c hc => ?_⟩
  rw [hactive] at hc
  rcases mem_updateKey.mp hc with ⟨_, _, _, rfl⟩ | ⟨hold, hne⟩
  · exact .inl rfl
  · exact .inr ⟨hold, fun heq => hne (by rw [h.eq_of_ref hold hmem heq, hid])⟩

/-- Destroying a session only takes away. -/
theorem destroy_effect (s : ServerState ClientID) (session : ClientSession ClientID) :
    (∀ c ∈ (s.destroySession session).activeClients, c ∈ s.activeClients) ∧
      (s.destroySession session).armed = s.armed ∧ (s.destroySession session).fired = s.fired ∧
      (s.destroySession session).conns = s.conns ∧
      (s.destroySession session).nextRef = s.nextRef ∧
      (s.destroySession session).nextTimer = s.nextTimer := by
  unfold destroySession
  split
  · exact ⟨fun _ hc => hc, rfl, rfl, rfl, rfl, rfl⟩
  · split
    · exact ⟨fun _ hc => hc, rfl, rfl, rfl, rfl, rfl⟩
    · exact ⟨fun c hc => (mem_filter.mp hc).1, rfl, rfl, rfl, rfl, rfl⟩

/-- Creating a session in a server that has perhaps lost one. -/
theorem create_effect {base : ServerState ClientID}
    (hsessions : ∀ c ∈ base.activeClients, c ∈ s.activeClients) (harmed : base.armed = s.armed)
    (hfired : base.fired = s.fired) (hconns : base.conns = s.conns)
    (hrefs : base.nextRef = s.nextRef) (htimers : base.nextTimer = s.nextTimer)
    (a : Authenticated) (ips : Option Nat × Option Nat) (fresh : Fresh) :
    Effect uuid s (.register a fresh) (base.create (uuid a.mac a.config.psk) a ips fresh) := by
  have hbase : Effect uuid s (.register a fresh) base :=
    .shrink hsessions (fun _ ht => harmed ▸ ht) (fun _ ht => hfired ▸ ht) (by rw [hconns]) hrefs
      htimers
  unfold ServerState.create
  split
  · exact hbase
  · rcases assign_cases base ips.1 ips.2 with hnone | ⟨v4ip, v6ip, -, -, hassign⟩
    · rw [hnone]
      exact hbase
    · rw [hassign]
      dsimp only
      refine .create ⟨base.nextRef, uuid a.mac a.config.psk, .create a.config a.req fresh, a.mac,
        v4ip, v6ip, 1, none⟩ (fun c hc => (mem_cons.mp hc).imp_right (hsessions c)) hrefs rfl
        rfl harmed hfired ?_ ?_ htimers
      · refine joined_of_link (c := ⟨base.nextRef, uuid a.mac a.config.psk, 1⟩) ?_
        show base.conns ++ [_] = _
        rw [hconns]
        rfl
      · show base.nextRef + 1 = _
        rw [hrefs]

theorem join_effect (h : s.Books) (hmem : session ∈ s.activeClients) {core : ServerSession}
    {rotated : Prop} [Decidable rotated] (a : Authenticated) (fresh : Fresh) :
    Effect uuid s (.register a fresh) (s.joinSession session core rotated) := by
  unfold ServerState.joinSession
  dsimp only
  have hactive : 0 ≤ (if rotated then 0 else session.activeConns) := by
    split
    · exact le_rfl
    · rw [h.counted session hmem]
      exact Int.natCast_nonneg _
  generalize (if rotated then 0 else session.activeConns) = active at hactive
  split
  · rename_i hlimit
    refine .join session { session with core, activeConns := active, destroyTimer := none }
      (h.replaces hmem rfl rfl rfl) rfl ?_ rfl rfl (.inl le_rfl) rfl rfl
    intro hzero
    dsimp only at hzero
    rw [hzero] at hlimit
    exact absurd hlimit (by decide)
  · refine .join session { session with core, activeConns := active + 1, destroyTimer := none }
      (h.replaces hmem rfl rfl rfl) rfl ?_ rfl rfl (.inr ?_) rfl rfl
    · show active + 1 ≠ 0
      omega
    · exact joined_of_link (c := ⟨session.ref, session.clientID, core.epoch⟩) rfl

theorem register_effect (h : s.Books) (a : Authenticated) (fresh : Fresh) :
    Effect uuid s (.register a fresh) (s.register (uuid a.mac a.config.psk) a fresh) := by
  have hsame : Effect uuid s (.register a fresh) s :=
    .shrink (fun _ hc => hc) (fun _ ht => ht) (fun _ ht => ht) le_rfl rfl rfl
  unfold ServerState.register
  cases hlookup : s.lookup (uuid a.mac a.config.psk) with
  | none => exact create_effect (fun _ hc => hc) rfl rfl rfl rfl rfl a _ fresh
  | some session =>
    have hmem := (mem_of_find_key hlookup).1
    dsimp only
    split
    · exact hsame
    · split
      · obtain ⟨hsessions, harmed, hfired, hconns, hrefs, htimers⟩ := s.destroy_effect session
        exact create_effect hsessions harmed hfired hconns hrefs htimers a _ fresh
      · split
        · exact hsame
        · exact join_effect h hmem a fresh

theorem cleanup_effect (h : s.Books) {c : ConnInfo ClientID} (hc : c ∈ s.conns) :
    Effect uuid s (.cleanup c) (s.cleanup c) := by
  have hlength : (s.conns.erase c).length ≤ s.conns.length := length_erase_le
  have hignored : Effect uuid s (.cleanup c) { s with conns := s.conns.erase c } :=
    .shrink (fun _ hx => hx) (fun _ ht => ht) (fun _ ht => ht) hlength rfl rfl
  unfold ServerState.cleanup
  dsimp only
  cases hlookup : ServerState.lookup { s with conns := s.conns.erase c } c.clientID with
  | none => exact hignored
  | some session =>
    obtain ⟨hmem, hid⟩ := h.lookup_iff.mp hlookup
    dsimp only
    split
    · exact hignored
    · rename_i hcurrent
      obtain ⟨href, hepoch⟩ := not_or.mp hcurrent
      rw [not_not] at href hepoch
      have hpos : 0 < session.activeConns := by
        rw [h.counted session hmem, href, ← hepoch]
        exact Int.natCast_pos.mpr (count_pos hc)
      split
      · rename_i hlast
        refine .arm session
          { session with
            activeConns := session.activeConns - 1
            destroyTimer := some ⟨s.nextTimer, session.ref, session.clientID⟩ }
          (h.replaces hmem rfl rfl rfl) href.symm (by omega) ?_ rfl rfl rfl hlength rfl rfl
        show session.activeConns - 1 = 0
        omega
      · rename_i hmore
        refine .touch session { session with activeConns := session.activeConns - 1 }
          (h.replaces hmem rfl rfl rfl) rfl (.inr ⟨by omega, ?_⟩) rfl rfl hlength rfl rfl
        show session.activeConns - 1 ≠ 0
        omega

theorem timeout_effect (s : ServerState ClientID) (t : Timer ClientID) :
    Effect uuid s (.timeout t) (s.timeout t) := by
  have hfired : ∀ x ∈ s.fired.erase t, x ∈ s.fired := fun _ => mem_of_mem_erase
  have hkept : Effect uuid s (.timeout t) { s with fired := s.fired.erase t } :=
    .shrink (fun _ hx => hx) (fun _ ht => ht) hfired le_rfl rfl rfl
  unfold ServerState.timeout
  dsimp only
  split
  · exact hkept
  · rename_i session _
    split
    · obtain ⟨hsessions, harmed, hfired', hconns, hrefs, htimers⟩ :=
        destroy_effect { s with fired := s.fired.erase t } session
      refine .shrink hsessions (fun _ ht => harmed ▸ ht) (fun x hx => hfired x ?_)
        (by rw [hconns]) hrefs htimers
      rw [hfired'] at hx
      exact hx
    · exact hkept

theorem kick_effect (s : ServerState ClientID) (ref : Nat) :
    Effect uuid s (.kick ref) (s.kickSession ref) := by
  unfold kickSession
  split
  · exact .shrink (fun _ hx => hx) (fun _ ht => ht) (fun _ ht => ht) le_rfl rfl rfl
  · rename_i session _
    obtain ⟨hsessions, harmed, hfired, hconns, hrefs, htimers⟩ :=
      destroy_effect (s.stopTimer session.destroyTimer) session
    exact .shrink hsessions (fun t ht => (mem_filter.mp (harmed ▸ ht)).1)
      (fun _ ht => hfired ▸ ht) (by rw [hconns]; rfl) hrefs htimers

theorem exhausted_effect (h : s.Books) (ref instanceID : Nat) :
    Effect uuid s (.sequenceExhausted ref instanceID) (s.sequenceExhausted ref instanceID) := by
  unfold sequenceExhausted
  split
  · exact .shrink (fun _ hx => hx) (fun _ ht => ht) (fun _ ht => ht) le_rfl rfl rfl
  · rename_i session hfound
    have hmem := (mem_of_find_key hfound).1
    exact .touch session { session with core := { session.core with instanceID } }
      (h.replaces hmem rfl rfl rfl) rfl (.inl rfl) rfl rfl le_rfl rfl rfl

variable {action : Action ClientID}

/-- Every critical section has one of these effects. -/
theorem step_effect (h : s.Books) (hstep : s.step uuid action = some s') :
    Effect uuid s action s' := by
  -- steps that touch none of the sessions, timers and connections
  have hquiet : ∀ {action : Action ClientID} {s' : ServerState ClientID},
      s'.activeClients = s.activeClients → s'.armed = s.armed → s'.fired = s.fired →
      s'.conns = s.conns → s'.nextRef = s.nextRef → s'.nextTimer = s.nextTimer →
      Effect uuid s action s' := by
    intro action s' hactive harmed hfired hconns hrefs htimers
    exact .shrink (fun _ hc => hactive ▸ hc) (fun _ ht => harmed ▸ ht) (fun _ ht => hfired ▸ ht)
      (by rw [hconns]) hrefs htimers
  cases action with
  | authenticate req mac ipv4 ipv6 =>
    obtain ⟨_, rfl⟩ := of_guarded hstep
    exact hquiet rfl rfl rfl rfl rfl rfl
  | register a fresh =>
    obtain ⟨_, rfl⟩ := of_guarded hstep
    have htaken : Books { s with waiting := s.waiting.erase a } :=
      h.untouched rfl rfl rfl rfl rfl fun _ hpend => hpend
    have htakes : Effect uuid { s with waiting := s.waiting.erase a } (.register a fresh) _ :=
      register_effect htaken a fresh
    cases htakes with
    | shrink hsessions harmed hfired hconns hrefs htimers =>
      exact .shrink hsessions harmed hfired hconns hrefs htimers
    | create session hsessions href hid htimer harmed hfired hconns hrefs htimers =>
      exact .create session hsessions href hid htimer harmed hfired hconns hrefs htimers
    | join session session' hreplaces htimer hcount harmed hfired hconns hrefs htimers =>
      obtain ⟨hmem, href, hid, hothers⟩ := hreplaces
      exact .join session session' ⟨hmem, href, hid, hothers⟩ htimer hcount harmed hfired
        hconns hrefs htimers
    | touch session session' hreplaces htimer hcount harmed hfired hconns hrefs htimers =>
      obtain ⟨hmem, href, hid, hothers⟩ := hreplaces
      exact .touch session session' ⟨hmem, href, hid, hothers⟩ htimer hcount harmed hfired
        hconns hrefs htimers
  | cleanup c =>
    obtain ⟨hc, rfl⟩ := of_guarded hstep
    exact cleanup_effect h hc
  | fire t =>
    obtain ⟨ht, rfl⟩ := of_guarded hstep
    exact .fire ht
  | timeout t =>
    obtain ⟨_, rfl⟩ := of_guarded hstep
    exact timeout_effect s t
  | kick ref =>
    cases hstep
    exact kick_effect s ref
  | sequenceExhausted ref instanceID =>
    cases hstep
    exact exhausted_effect h ref instanceID
  | applyConfig config maxSessions =>
    cases hstep
    exact hquiet rfl rfl rfl rfl rfl rfl
  | frame origin raw now =>
    obtain ⟨_, _, rfl⟩ := Option.map_eq_some_iff.mp hstep
    exact hquiet rfl rfl rfl rfl rfl rfl
  | tick =>
    cases hstep
    exact hquiet rfl rfl rfl rfl rfl rfl

/-! ## Where the sessions come from -/

/-- The session is one that the server has, perhaps in an earlier state. -/
def Older (s : ServerState ClientID) (c : ClientSession ClientID) : Prop :=
  ∃ old ∈ s.activeClients, old.ref = c.ref ∧ old.clientID = c.clientID

variable {c : ClientSession ClientID}

omit [DecidableEq ClientID] in
theorem older_of_mem (h : c ∈ s.activeClients) : s.Older c :=
  ⟨c, h, rfl, rfl⟩

omit [DecidableEq ClientID] in
theorem Replaces.older (h : Replaces s s' session session') (hc : c ∈ s'.activeClients) :
    s.Older c := by
  rcases h.others c hc with rfl | ⟨hold, -⟩
  · exact ⟨session, h.mem, h.ref.symm, h.id.symm⟩
  · exact older_of_mem hold

/-- Only the registration of a handshake adds a session. -/
theorem Effect.older (h : Effect uuid s action s') (hc : c ∈ s'.activeClients) :
    s.Older c ∨ ∃ a fresh, action = .register a fresh ∧ c.clientID = uuid a.mac a.config.psk ∧
      c.ref = s.nextRef := by
  cases h with
  | shrink hsessions => exact .inl (older_of_mem (hsessions c hc))
  | fire => exact .inl (older_of_mem hc)
  | create session hsessions href hid =>
    rcases hsessions c hc with rfl | hold
    · exact .inr ⟨_, _, rfl, hid, href⟩
    · exact .inl (older_of_mem hold)
  | join session session' hreplaces | touch session session' hreplaces
  | arm session session' hreplaces => exact .inl (hreplaces.older hc)

/-- Numbers of sessions are not used again. -/
theorem Effect.next_ref (h : Effect uuid s action s') : s.nextRef ≤ s'.nextRef := by
  cases h with
  | shrink _ _ _ _ hrefs => exact hrefs.ge
  | fire => exact le_rfl
  | create _ _ _ _ _ _ _ _ hrefs => omega
  | join _ _ _ _ _ _ _ _ hrefs | touch _ _ _ _ _ _ _ _ hrefs | arm _ _ _ _ _ _ _ _ _ _ hrefs =>
    exact hrefs.ge

/-- A kicked session is gone. -/
theorem mem_kick {ref : Nat} (hbooks : s.Books) (h : c ∈ (s.kickSession ref).activeClients) :
    c ∈ s.activeClients ∧ c.ref ≠ ref := by
  unfold kickSession at h
  split at h
  · rename_i hnone
    exact ⟨h, find_key_eq_none.mp hnone c h⟩
  · rename_i session hfound
    obtain ⟨hmem, href⟩ := mem_of_find_key hfound
    have hlookup : (s.stopTimer session.destroyTimer).lookup session.clientID = some session :=
      hbooks.lookup_iff.mpr ⟨hmem, rfl⟩
    unfold destroySession at h
    rw [hlookup] at h
    dsimp only at h
    rw [if_neg (not_not.mpr rfl)] at h
    obtain ⟨hold, hid⟩ := mem_filter.mp h
    refine ⟨hold, fun heq => of_decide_eq_true hid ?_⟩
    rw [hbooks.eq_of_ref hold hmem (heq.trans href.symm)]

end ServerState

end TlsVpn.Server
