import TlsVpn.Server.Sessions

/-!
# The retention period

A session whose last connection has gone is kept for two minutes, and destroyed by the callback of
its timer unless a connection has joined it in between. Here a timer fires at the earliest when its
time is up, and its callback runs at any later moment. `TimedServer` adds the clock and, for the
statement, the connections that have joined each session.

The callback looks at the session and at its connections, but not at the timer that the session has.
`TimedServer.retention_honoured` therefore needs that no callback of a session waits for the lock
when its last connection is cleaned up; `retention_cut_short` is a run without this.
-/

namespace TlsVpn.Server

open Lib Session Function List

namespace ServerState

variable {ClientID : Type} [DecidableEq ClientID] {s s' : ServerState ClientID}
  {session session' : ClientSession ClientID} {uuid : MacKey → String → ClientID}

/-! ## The timers of the sessions -/

/-- A session has a timer only while it has no connections, and the timers that run or wait for the
lock belong to sessions that have them. -/
structure Timely (s : ServerState ClientID) : Prop where
  idle : ∀ session ∈ s.activeClients, ∀ t, session.destroyTimer = some t → session.activeConns = 0
  armed : ∀ session ∈ s.activeClients, ∀ t ∈ s.armed, t.session = session.ref →
    session.destroyTimer = some t
  fired : ∀ session ∈ s.activeClients, session.activeConns = 0 → ∀ t ∈ s.fired,
    t.session = session.ref → session.destroyTimer = some t
  known : ∀ t, s.Pending t → t.session < s.nextRef ∧ t.id < s.nextTimer
  numbered : ∀ session ∈ s.activeClients, ∀ t, session.destroyTimer = some t → t.id < s.nextTimer

omit [DecidableEq ClientID] in
theorem timely_new (config : ServerConfig) (maxSessions : Nat) (v4 v6 : Nat × Nat)
    [DecidableEq ClientID] : (new config maxSessions v4 v6 : ServerState ClientID).Timely := by
  refine ⟨forall_mem_nil _, forall_mem_nil _, forall_mem_nil _, ?_,
    forall_mem_nil _⟩
  intro t hpend
  rcases hpend with harmed | hfired
  · exact absurd harmed not_mem_nil
  · exact absurd hfired not_mem_nil

/-- The connection is the last one of a current session, in the session's epoch. -/
def LastConn (s : ServerState ClientID) (c : ConnInfo ClientID) : Prop :=
  ∃ session ∈ s.lookup c.clientID, session.ref = c.session ∧ c.epoch = session.core.epoch ∧
    session.activeConns ≤ 1

/-- No callback of a session waits for the lock when its last connection is cleaned up. -/
def NoneWaiting (s : ServerState ClientID) : Action ClientID → Prop
  | .cleanup c => s.LastConn c → ∀ t ∈ s.fired, t.session ≠ c.session
  | _ => True

instance (s : ServerState ClientID) (c : ConnInfo ClientID) : Decidable (s.LastConn c) :=
  inferInstanceAs (Decidable (∃ session ∈ s.lookup c.clientID, _))

instance (s : ServerState ClientID) : ∀ action, Decidable (s.NoneWaiting action)
  | .cleanup c => inferInstanceAs (Decidable (s.LastConn c → ∀ t ∈ s.fired, t.session ≠ c.session))
  | .authenticate _ _ _ _ | .register _ _ | .fire _ | .timeout _ | .kick _
  | .sequenceExhausted _ _ | .applyConfig _ _ | .frame _ _ _ | .tick => isTrue trivial

/-- A cleanup arms a timer for the last connection of a session only. -/
theorem lastConn_of_arms {c : ConnInfo ClientID}
    (h : s.nextTimer < (s.cleanup c).nextTimer) : s.LastConn c := by
  unfold cleanup at h
  dsimp only at h
  split at h
  · exact absurd h (Nat.lt_irrefl _)
  · rename_i session hlookup
    split at h
    · exact absurd h (Nat.lt_irrefl _)
    · rename_i hcurrent
      rw [not_or, not_not, not_not] at hcurrent
      split at h
      · rename_i hlast
        exact ⟨session, hlookup, hcurrent.1, hcurrent.2, by omega⟩
      · exact absurd h (Nat.lt_irrefl _)

omit [DecidableEq ClientID] in
/-- A step that changes one session and no timers of others. -/
theorem Timely.replaced (h : s.Timely) (hreplaces : Replaces s s' session session')
    (harmed : ∀ t ∈ s'.armed, t.session ≠ session.ref → t ∈ s.armed)
    (hfired : s'.fired = s.fired) (hnext : s.nextTimer ≤ s'.nextTimer)
    (hidle : ∀ t, session'.destroyTimer = some t →
      session'.activeConns = 0 ∧ t.id < s'.nextTimer)
    (hself : ∀ t ∈ s'.armed, t.session = session.ref → session'.destroyTimer = some t)
    (hwaiting : session'.activeConns = 0 → ∀ t ∈ s.fired, t.session = session.ref →
      session'.destroyTimer = some t)
    (hknown : ∀ t, s'.Pending t → t.session < s'.nextRef ∧ t.id < s'.nextTimer) : s'.Timely := by
  refine ⟨?_, ?_, ?_, hknown, ?_⟩
  · intro c hc t ht
    rcases hreplaces.others c hc with rfl | ⟨hold, -⟩
    · exact (hidle t ht).1
    · exact h.idle c hold t ht
  · intro c hc t ht href
    rcases hreplaces.others c hc with rfl | ⟨hold, hne⟩
    · exact hself t ht (href.trans hreplaces.ref)
    · exact h.armed c hold t (harmed t ht (href ▸ hne)) href
  · intro c hc hzero t ht href
    rw [hfired] at ht
    rcases hreplaces.others c hc with rfl | ⟨hold, -⟩
    · exact hwaiting hzero t ht (href.trans hreplaces.ref)
    · exact h.fired c hold hzero t ht href
  · intro c hc t ht
    rcases hreplaces.others c hc with rfl | ⟨hold, -⟩
    · exact (hidle t ht).2
    · exact Nat.lt_of_lt_of_le (h.numbered c hold t ht) hnext

/-- A timer fires. -/
theorem Timely.fire (h : s.Timely) {timer : Timer ClientID} (htimer : timer ∈ s.armed) :
    Timely { s with armed := s.armed.erase timer, fired := s.fired ++ [timer] } := by
  refine ⟨h.idle, fun c hc t hmem => h.armed c hc t (mem_of_mem_erase hmem),
    fun c hc hzero t hmem href => ?_, fun t hpend => h.known t ?_, h.numbered⟩
  · rcases mem_append.mp hmem with hold | hlast
    · exact h.fired c hc hzero t hold href
    · rw [mem_singleton.mp hlast] at href ⊢
      exact h.armed c hc timer htimer href
  · rcases hpend with harmed | hfired
    · exact .inl (mem_of_mem_erase harmed)
    · rcases mem_append.mp hfired with hold | hlast
      · exact .inr hold
      · rw [mem_singleton.mp hlast]
        exact .inl htimer

omit [DecidableEq ClientID] in
/-- A session is created. Its number is larger than those of the timers. -/
theorem Timely.create (h : s.Timely)
    (hsessions : ∀ c ∈ s'.activeClients, c = session ∨ c ∈ s.activeClients)
    (href : session.ref = s.nextRef) (htimer : session.destroyTimer = none)
    (harmed : s'.armed = s.armed) (hfired : s'.fired = s.fired)
    (hrefs : s'.nextRef = s.nextRef + 1) (htimers : s'.nextTimer = s.nextTimer) : s'.Timely := by
  have hpending : ∀ t, s'.Pending t → s.Pending t :=
    fun t hpend => hpend.imp (fun ht => harmed ▸ ht) (fun ht => hfired ▸ ht)
  have hnew : ∀ t, s'.Pending t → t.session ≠ session.ref := by
    intro t hpend
    have hlt := (h.known t (hpending t hpend)).1
    omega
  refine ⟨fun c hc t ht => ?_, fun c hc t ht heq => ?_, fun c hc hzero t ht heq => ?_,
    fun t hpend => ?_, fun c hc t ht => ?_⟩
  · rcases hsessions c hc with rfl | hold
    · rw [htimer] at ht
      cases ht
    · exact h.idle c hold t ht
  · rcases hsessions c hc with rfl | hold
    · exact absurd heq (hnew t (.inl ht))
    · exact h.armed c hold t (harmed ▸ ht) heq
  · rcases hsessions c hc with rfl | hold
    · exact absurd heq (hnew t (.inr ht))
    · exact h.fired c hold hzero t (hfired ▸ ht) heq
  · obtain ⟨hsession, hid⟩ := h.known t (hpending t hpend)
    exact ⟨by omega, by omega⟩
  · rcases hsessions c hc with rfl | hold
    · rw [htimer] at ht
      cases ht
    · rw [htimers]
      exact h.numbered c hold t ht

omit [DecidableEq ClientID] in
/-- The last connection of a session goes, and no callback of the session waits for the lock. -/
theorem Timely.arm (h : s.Timely) (hbooks : s.Books) (hreplaces : Replaces s s' session session')
    (hbefore : session.activeConns ≠ 0) (hcount : session'.activeConns = 0)
    (htimer : session'.destroyTimer = some ⟨s.nextTimer, session.ref, session.clientID⟩)
    (harmed : s'.armed = s.armed ++ [⟨s.nextTimer, session.ref, session.clientID⟩])
    (hfired : s'.fired = s.fired) (hrefs : s'.nextRef = s.nextRef)
    (htimers : s'.nextTimer = s.nextTimer + 1)
    (hnone : ∀ t ∈ s.fired, t.session ≠ session.ref) : s'.Timely := by
  have hcases : ∀ t ∈ s'.armed, t ∈ s.armed ∨
      t = ⟨s.nextTimer, session.ref, session.clientID⟩ := by
    intro t ht
    rw [harmed] at ht
    exact (mem_append.mp ht).imp_right mem_singleton.mp
  refine h.replaced hreplaces (fun t ht hne => ?_) hfired (by omega) (fun t ht => ?_)
    (fun t ht href => ?_) (fun _ t ht href => absurd href (hnone t ht)) (fun t hpend => ?_)
  · exact (hcases t ht).resolve_right fun heq => hne (by rw [heq])
  · rw [htimer] at ht
    cases ht
    exact ⟨hcount, by show s.nextTimer < _; omega⟩
  · rcases hcases t ht with hold | rfl
    · -- a session with connections has no timer that runs
      have hown := h.armed session hreplaces.mem t hold href
      exact absurd (h.idle session hreplaces.mem t hown) hbefore
    · exact htimer
  · rw [hrefs, htimers]
    rcases hpend with hrunning | hdone
    · rcases hcases t hrunning with hold | rfl
      · obtain ⟨hsession, hid⟩ := h.known t (.inl hold)
        exact ⟨hsession, by omega⟩
      · exact ⟨hbooks.ref_lt session hreplaces.mem, Nat.lt_succ_self _⟩
    · obtain ⟨hsession, hid⟩ := h.known t (.inr (hfired ▸ hdone))
      exact ⟨hsession, by omega⟩

/-- No timer is armed while a callback of the session waits. -/
theorem Timely.effect {action : Action ClientID} (h : s.Timely) (hbooks : s.Books)
    (heffect : Effect uuid s action s')
    (hwaiting : ∀ c, action = .cleanup c → s.nextTimer < s'.nextTimer →
      ∀ t ∈ s.fired, t.session ≠ c.session) : s'.Timely := by
  cases heffect with
  | shrink hsessions harmed hfired hconns hrefs htimers =>
    refine ⟨fun c hc => h.idle c (hsessions c hc),
      fun c hc t ht => h.armed c (hsessions c hc) t (harmed t ht),
      fun c hc hzero t ht => h.fired c (hsessions c hc) hzero t (hfired t ht),
      fun t hpend => ?_, fun c hc t ht => ?_⟩
    · rw [hrefs, htimers]
      exact h.known t (hpend.imp (harmed t) (hfired t))
    · rw [htimers]
      exact h.numbered c (hsessions c hc) t ht
  | fire htimer => exact h.fire htimer
  | create session hsessions href hid htimer harmed hfired hconns hrefs htimers =>
    exact h.create hsessions href htimer harmed hfired hrefs htimers
  | join session session' hreplaces htimer hcount harmed hfired hconns hrefs htimers =>
    have hsub : ∀ t ∈ s'.armed, t ∈ s.armed := by
      intro t ht
      rw [harmed] at ht
      exact (mem_filter.mp ht).1
    refine h.replaced hreplaces (fun t ht _ => hsub t ht) hfired htimers.ge (fun t ht => ?_)
      (fun t ht href => ?_) (fun hzero => absurd hzero hcount) (fun t hpend => ?_)
    · rw [htimer] at ht
      cases ht
    · -- the timer of the session is the one that has been stopped
      have hown := h.armed session hreplaces.mem t (hsub t ht) href
      rw [harmed] at ht
      exact absurd hown.symm (of_decide_eq_true (mem_filter.mp ht).2)
    · rw [hrefs, htimers]
      exact h.known t (hpend.imp (hsub t) (fun ht => hfired ▸ ht))
  | touch session session' hreplaces htimer hcount harmed hfired hconns hrefs htimers =>
    refine h.replaced hreplaces (fun t ht _ => harmed ▸ ht) hfired htimers.ge (fun t ht => ?_)
      (fun t ht href => ?_) (fun hzero t ht href => ?_) (fun t hpend => ?_)
    · rw [htimer] at ht
      have hzero := h.idle session hreplaces.mem t ht
      refine ⟨?_, htimers ▸ h.numbered session hreplaces.mem t ht⟩
      rcases hcount with hsame | ⟨hne, -⟩
      · rw [hsame, hzero]
      · exact absurd hzero hne
    · rw [htimer]
      exact h.armed session hreplaces.mem t (harmed ▸ ht) href
    · rw [htimer]
      rcases hcount with hsame | ⟨-, hne⟩
      · exact h.fired session hreplaces.mem (hsame ▸ hzero) t ht href
      · exact absurd hzero hne
    · rw [hrefs, htimers]
      exact h.known t (hpend.imp (fun ht => harmed ▸ ht) (fun ht => hfired ▸ ht))
  | @arm c _ session session' hreplaces hconn hbefore hcount htimer harmed hfired hconns hrefs
      htimers =>
      exact h.arm hbooks hreplaces hbefore hcount htimer harmed hfired hrefs htimers
        (hconn ▸ hwaiting c rfl (by omega))

theorem Timely.step (h : s.Timely) (hbooks : s.Books)
    {action : Action ClientID} (hwaiting : s.NoneWaiting action)
    (hstep : s.step uuid action = some s') : s'.Timely := by
  refine h.effect hbooks (step_effect hbooks hstep) fun c heq hlt => ?_
  subst heq
  obtain ⟨_, rfl⟩ := of_guarded hstep
  exact hwaiting (lastConn_of_arms hlt)

namespace Effect

variable {action : Action ClientID}

variable {t : Timer ClientID}

theorem fired (heffect : Effect uuid s action s') (ht : t ∈ s'.fired) :
    t ∈ s.fired ∨ action = .fire t := by
  cases heffect with
  | shrink hsessions harmed hfired hconns hrefs htimers => exact .inl (hfired t ht)
  | fire hmem =>
    rcases mem_append.mp ht with hold | hlast
    · exact .inl hold
    · rw [mem_singleton.mp hlast]
      exact .inr rfl
  | create session hsessions href hid htimer harmed hfired hconns hrefs htimers =>
    exact .inl (hfired ▸ ht)
  | join session session' hreplaces htimer hcount harmed hfired hconns hrefs htimers =>
    exact .inl (hfired ▸ ht)
  | touch session session' hreplaces htimer hcount harmed hfired hconns hrefs htimers =>
    exact .inl (hfired ▸ ht)
  | arm session session' hreplaces hconn hbefore hcount htimer harmed hfired hconns hrefs htimers =>
    exact .inl (hfired ▸ ht)

/-- A timer that is armed has the next number. -/
theorem armed_by (heffect : Effect uuid s action s') (ht : armedBy s s' = some t) :
    t.id = s.nextTimer := by
  have harms : s'.nextTimer ≠ s.nextTimer := by
    intro hsame
    rw [armed_by_of_same hsame] at ht
    cases ht
  cases heffect with
  | shrink hsessions harmed hfired hconns hrefs htimers => exact absurd htimers harms
  | fire hmem => exact absurd rfl harms
  | create session hsessions href hid htimer harmed hfired hconns hrefs htimers =>
    exact absurd htimers harms
  | join session session' hreplaces htimer hcount harmed hfired hconns hrefs htimers =>
    exact absurd htimers harms
  | touch session session' hreplaces htimer hcount harmed hfired hconns hrefs htimers =>
    exact absurd htimers harms
  | arm session session' hreplaces hconn hbefore hcount htimer harmed hfired hconns hrefs htimers =>
    rw [armed_by_of_arm htimers harmed] at ht
    cases ht
    rfl

/-- The session had the timer before, and has not been touched by what has happened since. -/
def Had (s s' : ServerState ClientID) (c : ClientSession ClientID) (t : Timer ClientID) : Prop :=
  ∃ old ∈ s.activeClients, old.ref = c.ref ∧ old.destroyTimer = some t ∧
    joined s s' ≠ some c.ref ∧ ∀ other, armedBy s s' = some other → other.session ≠ c.ref

/-- The timer of a session is the one it had, and no connection has joined it, or it has been armed
now. -/
theorem timer (heffect : Effect uuid s action s') (hbooks : s.Books) {c : ClientSession ClientID}
    (hc : c ∈ s'.activeClients) (ht : c.destroyTimer = some t) :
    Had s s' c t ∨ armedBy s s' = some t ∧ t.session = c.ref ∧ joined s s' = none := by
  have hunarmed : s'.nextTimer = s.nextTimer →
      ∀ other, armedBy s s' = some other → other.session ≠ c.ref := by
    intro hsame other harmed
    rw [armed_by_of_same hsame] at harmed
    cases harmed
  -- nothing is armed and no connection joins
  have hquiet : ∀ {old}, s'.conns.length ≤ s.conns.length → s'.nextTimer = s.nextTimer →
      old ∈ s.activeClients → old.ref = c.ref → old.destroyTimer = some t → Had s s' c t := by
    intro old hconns htimers hold href htimer
    refine ⟨old, hold, href, htimer, ?_, hunarmed htimers⟩
    rw [joined_of_le hconns]
    exact (Option.some_ne_none _).symm
  cases heffect with
  | shrink hsessions harmed hfired hconns hrefs htimers =>
    exact .inl (hquiet hconns htimers (hsessions c hc) rfl ht)
  | fire hmem => exact .inl (hquiet le_rfl rfl hc rfl ht)
  | create session hsessions href hid htimer harmed hfired hconns hrefs htimers =>
    rcases hsessions c hc with rfl | hold
    · rw [htimer] at ht
      cases ht
    · refine .inl ⟨c, hold, rfl, ht, ?_, hunarmed htimers⟩
      rw [hconns]
      intro heq
      have hlt := hbooks.ref_lt c hold
      have hnew := Option.some.inj heq
      omega
  | join session session' hreplaces htimer hcount harmed hfired hconns hrefs htimers =>
    rcases hreplaces.others c hc with rfl | ⟨hold, hne⟩
    · rw [htimer] at ht
      cases ht
    · rcases hconns with hconns | hconns
      · exact .inl (hquiet hconns htimers hold rfl ht)
      · refine .inl ⟨c, hold, rfl, ht, ?_, hunarmed htimers⟩
        rw [hconns]
        exact fun heq => hne (Option.some.inj heq).symm
  | touch session session' hreplaces htimer hcount harmed hfired hconns hrefs htimers =>
    rcases hreplaces.others c hc with rfl | ⟨hold, -⟩
    · rw [htimer] at ht
      exact .inl (hquiet hconns htimers hreplaces.mem hreplaces.ref.symm ht)
    · exact .inl (hquiet hconns htimers hold rfl ht)
  | arm session session' hreplaces hconn hbefore hcount htimer harmed hfired hconns hrefs htimers =>
    rcases hreplaces.others c hc with rfl | ⟨hold, hne⟩
    · rw [htimer] at ht
      cases ht
      exact .inr ⟨armed_by_of_arm htimers harmed, hreplaces.ref.symm, joined_of_le hconns⟩
    · refine .inl ⟨c, hold, rfl, ht, ?_, ?_⟩
      · rw [joined_of_le hconns]
        exact (Option.some_ne_none _).symm
      · intro other hother
        rw [armed_by_of_arm htimers harmed] at hother
        cases hother
        exact hne.symm

end Effect

/-- A session that a callback destroys is the one of its timer, and has no connections. -/
theorem destroyed_by_timeout (hbooks : s.Books) {t : Timer ClientID}
    (hmem : session ∈ s.activeClients)
    (hgone : ∀ c ∈ (s.timeout t).activeClients, c.ref ≠ session.ref) :
    t.session = session.ref ∧ session.activeConns = 0 := by
  unfold ServerState.timeout at hgone
  dsimp only at hgone
  cases hlookup : ServerState.lookup { s with fired := s.fired.erase t } t.clientID with
  | none =>
    rw [hlookup] at hgone
    exact absurd rfl (hgone session hmem)
  | some found =>
    rw [hlookup] at hgone
    have hfound : found ∈ s.activeClients := (hbooks.lookup_iff.mp hlookup).1
    dsimp only at hgone
    split at hgone
    · rename_i hdestroy
      have hlookup' : ServerState.lookup { s with fired := s.fired.erase t } found.clientID =
          some found := hbooks.lookup_iff.mpr ⟨hfound, rfl⟩
      unfold destroySession at hgone
      rw [hlookup'] at hgone
      dsimp only at hgone
      rw [if_neg (not_not.mpr rfl)] at hgone
      have hsame : session = found := by
        refine inj_on_of_nodup_map hbooks.ids hmem hfound ?_
        by_contra hne
        exact hgone session (mem_filter.mpr ⟨hmem, decide_eq_true hne⟩) rfl
      subst hsame
      have hcount := hbooks.counted session hmem
      exact ⟨hdestroy.1.symm, by omega⟩
    · exact absurd rfl (hgone session hmem)

end ServerState

/-! ## The clock -/

/-- The 120 seconds of the destroy timer, in nanoseconds. -/
def retention : Nat := 120000000000

/-- A server with the time, and with the history of its timers and sessions. -/
structure TimedServer (ClientID : Type) where
  server : ServerState ClientID
  now : Nat
  /-- When each timer was armed. -/
  armedAt : Nat → Nat
  /-- How many connections have joined each session. -/
  joins : Nat → Nat
  /-- How many connections had joined the session of each timer when it was armed. -/
  joinsBefore : Nat → Nat
  /-- When the last connection of each session has gone. -/
  left : Nat → Nat

/-- A critical section, or time passes. -/
inductive TimedAction (ClientID : Type) where
  | server (action : ServerState.Action ClientID)
  | wait (duration : Nat)

namespace TimedServer

variable {ClientID : Type} [DecidableEq ClientID]

/-- No timer is armed. -/
def new (server : ServerState ClientID) (now : Nat) : TimedServer ClientID :=
  { server, now, armedAt := fun _ => 0, joins := fun _ => 0, joinsBefore := fun _ => 0,
    left := fun _ => 0 }

/-- A timer fires only when its time is up. -/
def Due (s : TimedServer ClientID) : ServerState.Action ClientID → Prop
  | .fire t => s.armedAt t.id + retention ≤ s.now
  | _ => True

instance (s : TimedServer ClientID) : ∀ action, Decidable (s.Due action)
  | .fire _ => inferInstanceAs (Decidable (_ ≤ _))
  | .authenticate _ _ _ _ | .register _ _ | .cleanup _ | .timeout _ | .kick _
  | .sequenceExhausted _ _ | .applyConfig _ _ | .frame _ _ _ | .tick => isTrue trivial

/-- Writes a connection that joins a session into the history. -/
def recordJoin (s : TimedServer ClientID) : Option Nat → TimedServer ClientID
  | none => s
  | some ref => { s with joins := update s.joins ref (s.joins ref + 1) }

/-- Writes a timer that is armed into the history. -/
def recordArm (s : TimedServer ClientID) : Option (Timer ClientID) → TimedServer ClientID
  | none => s
  | some t =>
    { s with
      armedAt := update s.armedAt t.id s.now
      joinsBefore := update s.joinsBefore t.id (s.joins t.session)
      left := update s.left t.session s.now }

/-- The history after a critical section. -/
def record (s : TimedServer ClientID) (server : ServerState ClientID) : TimedServer ClientID :=
  { (s.recordJoin (s.server.joined server)).recordArm (s.server.armedBy server) with server }

/-- A step that cannot be taken gives none. -/
def step (uuid : MacKey → String → ClientID) (s : TimedServer ClientID) :
    TimedAction ClientID → Option (TimedServer ClientID)
  | .server action => if s.Due action then (s.server.step uuid action).map s.record else none
  | .wait duration => some { s with now := s.now + duration }

/-- No callback of a session waits for the lock when its last connection is cleaned up. -/
def NoneWaiting (s : TimedServer ClientID) : TimedAction ClientID → Prop
  | .server action => s.server.NoneWaiting action
  | .wait _ => True

instance (s : TimedServer ClientID) : ∀ action, Decidable (s.NoneWaiting action)
  | .server action => inferInstanceAs (Decidable (s.server.NoneWaiting action))
  | .wait _ => isTrue trivial

variable {uuid : MacKey → String → ClientID} {s s' : TimedServer ClientID}

/-- The invariant: a callback waits only after its time, and a session with a timer has gained no
connection since the timer was armed, which was when its last connection went. -/
structure Retained (s : TimedServer ClientID) : Prop where
  books : s.server.Books
  timely : s.server.Timely
  due : ∀ t ∈ s.server.fired, s.armedAt t.id + retention ≤ s.now
  since : ∀ session ∈ s.server.activeClients, ∀ t, session.destroyTimer = some t →
    s.joins session.ref = s.joinsBefore t.id ∧ s.left session.ref = s.armedAt t.id

theorem retained_new (config : ServerConfig) (maxSessions : Nat) (v4 v6 : Nat × Nat) (now : Nat) :
    (new (.new config maxSessions v4 v6 : ServerState ClientID) now).Retained :=
  ⟨ServerState.new_books config maxSessions v4 v6, ServerState.timely_new config maxSessions v4 v6,
    forall_mem_nil _, forall_mem_nil _⟩

omit [DecidableEq ClientID] in
theorem now_record (s : TimedServer ClientID) (server : ServerState ClientID) :
    (s.record server).now = s.now := by
  unfold record recordArm recordJoin
  repeat' split
  all_goals rfl

variable {server : ServerState ClientID}

omit [DecidableEq ClientID] in
/-- A timer keeps its entry while others are armed. -/
theorem armed_at_record (s : TimedServer ClientID) {n : Nat}
    (h : ∀ t, s.server.armedBy server = some t → t.id ≠ n) :
    (s.record server).armedAt n = s.armedAt n ∧
      (s.record server).joinsBefore n = s.joinsBefore n := by
  unfold record recordArm recordJoin
  cases harmed : s.server.armedBy server with
  | none =>
    cases s.server.joined server with
    | none | some => exact ⟨rfl, rfl⟩
  | some t =>
    have hne := (h t harmed).symm
    cases s.server.joined server with
    | none | some => exact ⟨update_of_ne hne _ _, update_of_ne hne _ _⟩

omit [DecidableEq ClientID] in
/-- A session keeps its entries while connections join others and timers of others are armed. -/
theorem joins_record (s : TimedServer ClientID) {ref : Nat}
    (hjoined : s.server.joined server ≠ some ref)
    (harmed : ∀ t, s.server.armedBy server = some t → t.session ≠ ref) :
    (s.record server).joins ref = s.joins ref ∧ (s.record server).left ref = s.left ref := by
  unfold record recordArm recordJoin
  cases hjoin : s.server.joined server with
  | none =>
    cases harm : s.server.armedBy server with
    | none => exact ⟨rfl, rfl⟩
    | some t => exact ⟨rfl, update_of_ne (harmed t harm).symm _ _⟩
  | some other =>
    have hne : ref ≠ other := fun heq => hjoined (by rw [hjoin, heq])
    cases harm : s.server.armedBy server with
    | none => exact ⟨update_of_ne hne _ _, rfl⟩
    | some t =>
      exact ⟨update_of_ne hne _ _, update_of_ne (harmed t harm).symm _ _⟩

omit [DecidableEq ClientID] in
/-- The entries of a timer that is armed. -/
theorem record_arm (s : TimedServer ClientID) {t : Timer ClientID}
    (hjoined : s.server.joined server = none) (harmed : s.server.armedBy server = some t) :
    (s.record server).joins t.session = (s.record server).joinsBefore t.id ∧
      (s.record server).left t.session = (s.record server).armedAt t.id := by
  unfold record recordArm recordJoin
  rw [hjoined, harmed]
  simp

/-- A connection that joins stops the timer of its session. -/
theorem Retained.step {action : TimedAction ClientID} (h : s.Retained)
    (hwaiting : s.NoneWaiting action) (hstep : s.step uuid action = some s') : s'.Retained := by
  cases action with
  | wait duration =>
    cases hstep
    refine ⟨h.books, h.timely, fun t ht => ?_, h.since⟩
    have hdue := h.due t ht
    show s.armedAt t.id + retention ≤ s.now + duration
    omega
  | server action =>
    simp only [TimedServer.step] at hstep
    split at hstep
    · rename_i hdue
      obtain ⟨server, hserver, rfl⟩ := Option.map_eq_some_iff.mp hstep
      have heffect := ServerState.step_effect h.books hserver
      refine ⟨h.books.step hserver, h.timely.step h.books hwaiting hserver, fun t ht => ?_,
        fun session hsession t ht => ?_⟩
      · -- the timer is not the one that is armed now, which has the next number
        have hpend : t ∈ s.server.fired ∨ t ∈ s.server.armed := by
          rcases heffect.fired ht with hold | rfl
          · exact .inl hold
          · simp only [ServerState.step] at hserver
            split at hserver
            · rename_i hmem
              exact .inr hmem
            · cases hserver
        have hlt := (h.timely.known t hpend.symm).2
        have hkept := (s.armed_at_record (n := t.id) fun other harm => by
          rw [heffect.armed_by harm]
          omega).1
        rw [hkept, now_record]
        rcases heffect.fired ht with hold | rfl
        · exact h.due t hold
        · exact hdue
      · rcases heffect.timer h.books hsession ht with
          ⟨old, hold, href, htimer, hjoined, harmed⟩ | ⟨harmed, hof, hjoined⟩
        · have hlt := h.timely.numbered old hold t htimer
          obtain ⟨hat, hbefore⟩ := s.armed_at_record (n := t.id) fun other harm => by
            rw [heffect.armed_by harm]
            omega
          obtain ⟨hjoins, hleft⟩ := s.joins_record hjoined harmed
          obtain ⟨hsame, hsince⟩ := h.since old hold t htimer
          rw [hat, hbefore, hjoins, hleft, ← href]
          exact ⟨hsame, hsince⟩
        · rw [← hof]
          exact s.record_arm hjoined harmed
    · cases hstep

/-- Let no callback of a session wait for the lock when a timer of the session is armed. Then a
callback destroys a session only if it is the session of its timer, no connection has joined the
session since that timer was armed, and the full time has passed since its last connection went. -/
theorem retention_honoured (config : ServerConfig) (maxSessions : Nat) (v4 v6 : Nat × Nat)
    (now : Nat) {actions : List (TimedAction ClientID)}
    (hwaiting : Along (step uuid) NoneWaiting (new (.new config maxSessions v4 v6) now) actions)
    (hrun : run (step uuid) (new (.new config maxSessions v4 v6) now) actions = some s)
    {t : Timer ClientID} (hstep : s.step uuid (.server (.timeout t)) = some s')
    {session : ClientSession ClientID} (hmem : session ∈ s.server.activeClients)
    (hgone : ∀ c ∈ s'.server.activeClients, c.ref ≠ session.ref) :
    t.session = session.ref ∧ s.joins session.ref = s.joinsBefore t.id ∧
      s.left session.ref + retention ≤ s.now := by
  have hpreserve : ∀ (s : TimedServer ClientID) action s', s.Retained → s.NoneWaiting action →
      s.step uuid action = some s' → s'.Retained :=
    fun _ _ _ hretained hwaiting hstep => hretained.step hwaiting hstep
  have hretained := run_invariant hpreserve (retained_new config maxSessions v4 v6 now) hwaiting
    hrun
  simp only [step, ServerState.step] at hstep
  split at hstep
  · split at hstep
    · rename_i hfired
      cases hstep
      obtain ⟨hsession, hzero⟩ := ServerState.destroyed_by_timeout hretained.books hmem hgone
      have htimer := hretained.timely.fired session hmem hzero t hfired hsession
      obtain ⟨hjoins, hleft⟩ := hretained.since session hmem t htimer
      exact ⟨hsession, hjoins, hleft ▸ hretained.due t hfired⟩
    · cases hstep
  · cases hstep

open ServerState (settings hello someMAC handshake)

/-- The server of the runs below. -/
def quiet : TimedServer (MacKey × String) :=
  new (.new (settings "key") 8 (256, 256) (512, 256)) 0

/-- The connection of the client. -/
def onlyConn : ConnInfo (MacKey × String) := ⟨1, (someMAC, "key"), 1⟩

/-- The timers of its session. -/
def timerOf (n : Nat) : Timer (MacKey × String) := ⟨n, 1, (someMAC, "key")⟩

/-- A client comes and goes, and its timer fires after two minutes. -/
def comeGoFire : List (TimedAction (MacKey × String)) :=
  (handshake "key" 1 0 1).map .server ++
    [.server (.cleanup onlyConn), .wait retention, .server (.fire (timerOf 0))]

/-- The session goes when its time is up. -/
theorem expired_session_destroyed :
    ∃ s s', run (step Prod.mk) quiet comeGoFire = some s ∧
      s.step Prod.mk (.server (.timeout (timerOf 0))) = some s' ∧
      s.server.activeClients.map ClientSession.ref = [1] ∧ s'.server.activeClients = [] ∧
      s.left 1 + retention ≤ s.now := by
  obtain ⟨s, hrun, hnext⟩ : ∃ s, run (step Prod.mk) quiet comeGoFire = some s ∧
      (s.step Prod.mk (.server (.timeout (timerOf 0)))).any (fun s' => decide
        (s.server.activeClients.map ClientSession.ref = [1] ∧
          s'.server.activeClients.map ClientSession.ref = [])) = true :=
    exists_run_of_decide (by decide +kernel)
  obtain ⟨s', hstep, hbefore, hafter⟩ := exists_some_of_decide hnext
  obtain ⟨session, hmem, href⟩ : ∃ session ∈ s.server.activeClients, session.ref = 1 :=
    mem_map.mp (by rw [hbefore]; exact mem_singleton.mpr rfl)
  rw [map_eq_nil_iff] at hafter
  have hhonoured := retention_honoured (settings "key") 8 (256, 256) (512, 256) 0
    (by decide +kernel : Along (step Prod.mk) NoneWaiting quiet comeGoFire) hrun hstep hmem
    (by rw [hafter]; exact forall_mem_nil _)
  exact ⟨s, s', hrun, hstep, hbefore, hafter, href ▸ hhonoured.2.2⟩

/-- The timer fires, but before its callback runs the client comes back and goes again. -/
def comeGoFireAgain : List (TimedAction (MacKey × String)) :=
  comeGoFire ++ (handshake "key" 1 0 1).map .server ++ [.server (.cleanup onlyConn)]

/-- The callback of the first timer destroys the session at once, although a connection has joined
it since and its new time has just begun. -/
theorem retention_cut_short :
    ∃ s, run (step Prod.mk) quiet comeGoFireAgain = some s ∧
      (s.step Prod.mk (.server (.timeout (timerOf 0)))).any (fun s' => decide
        (s.server.activeClients.map ClientSession.ref = [1] ∧
          s'.server.activeClients.map ClientSession.ref = [])) = true ∧
      s.joinsBefore 0 = 1 ∧ s.joins 1 = 2 ∧ s.left 1 = s.now :=
  exists_run_of_decide (by decide +kernel)

end TimedServer

end TlsVpn.Server
