import Mathlib.Data.List.Count
import TlsVpn.Server.Registry

/-!
# Consistency of the registry

`ServerState.registry_consistent` holds in every state that the server reaches: the addresses that
are taken are those of the gateways and of the sessions, a session counts its connections of the
current epoch, and a session without connections has a destroy timer that is still to run.

Every critical section is a change of one session, the destruction of one, or the creation of one,
and `Books` is kept by these three.
-/

namespace TlsVpn.Server

open Lib Session List

/-! ## Pools -/

namespace Pool

variable {p p' : Pool} {ip : Nat} {addresses rest : List Nat}

/-- The addresses taken are the gateway and those of a list, all different. -/
structure Holds (p : Pool) (addresses : List Nat) : Prop where
  used_eq : p.used = (p.gateway :: addresses).toFinset
  distinct : (p.gateway :: addresses).Nodup

theorem new_holds (first size : Nat) : (Pool.new first size).Holds [] := ⟨rfl, by simp⟩

theorem scan_free {used : Finset Nat} {n first : Nat} (h : scan used n first = some ip) :
    ip ∉ used := by
  induction n generalizing first with
  | zero => cases h
  | succ n ih =>
    rw [scan] at h
    split at h
    · rename_i hfree
      cases h
      exact hfree.1
    · exact ih h

theorem alloc_free {req : Option Nat} (h : p.alloc req = some (ip, p')) :
    ip ∉ p.used ∧ p' = p.take ip := by
  unfold alloc at h
  split at h
  · rename_i found hfound
    cases h
    exact ⟨(of_decide_eq_true (Option.filter_eq_some_iff.mp hfound).2).2, rfl⟩
  · obtain ⟨found, hscan, hpair⟩ := Option.map_eq_some_iff.mp h
    cases hpair
    exact ⟨scan_free hscan, rfl⟩

theorem Holds.take (h : p.Holds addresses) (hfree : ip ∉ p.used) :
    (p.take ip).Holds (ip :: addresses) := by
  have hnew : ip ∉ p.gateway :: addresses := by
    rw [h.used_eq] at hfree
    exact fun hmem => hfree (mem_toFinset.mpr hmem)
  refine ⟨?_, ?_⟩
  · show insert ip p.used = (p.gateway :: ip :: addresses).toFinset
    rw [h.used_eq, ← toFinset_cons]
    exact toFinset_eq_of_perm _ _ (List.Perm.swap _ _ _)
  · exact (List.Perm.swap _ _ _).nodup_iff.mp (nodup_cons.mpr ⟨hnew, h.distinct⟩)

theorem Holds.release (h : p.Holds addresses) (hperm : addresses.Perm (ip :: rest)) :
    (p.release ip).Holds rest := by
  have hall : (p.gateway :: addresses).Perm (ip :: p.gateway :: rest) :=
    (hperm.cons _).trans (List.Perm.swap _ _ _)
  have hdistinct := hall.nodup_iff.mp h.distinct
  refine ⟨?_, hdistinct.of_cons⟩
  show p.used.erase ip = (p.gateway :: rest).toFinset
  rw [h.used_eq, toFinset_eq_of_perm _ _ hall, toFinset_cons, Finset.erase_insert]
  exact fun hmem => (nodup_cons.mp hdistinct).1 (mem_toFinset.mp hmem)

/-- An address that is given back at once leaves no trace. -/
theorem release_take (hfree : ip ∉ p.used) : (p.take ip).release ip = p := by
  unfold Pool.take Pool.release
  rw [Finset.erase_insert hfree]

end Pool

namespace ServerState

variable {ClientID : Type} [DecidableEq ClientID] {s s' : ServerState ClientID}
  {session session' : ClientSession ClientID}

/-! ## The invariant -/

/-- The connections of an epoch of a session. -/
def connCount (conns : List (ConnInfo ClientID)) (ref epoch : Nat) : Nat :=
  conns.countP fun c => c.session = ref ∧ c.epoch = epoch

/-- A timer has not completed. -/
def Pending (s : ServerState ClientID) (t : Timer ClientID) : Prop := t ∈ s.armed ∨ t ∈ s.fired

/-- What the server keeps about its sessions. -/
structure Consistent (s : ServerState ClientID) : Prop where
  v4 : s.v4.Holds (s.activeClients.map ClientSession.ipv4)
  v6 : s.v6.Holds (s.activeClients.map ClientSession.ipv6)
  counted : ∀ session ∈ s.activeClients,
    session.activeConns = connCount s.conns session.ref session.core.epoch
  timer : ∀ session ∈ s.activeClients, session.activeConns = 0 →
    ∃ t, session.destroyTimer = some t ∧ t.session = session.ref ∧ s.Pending t

/-- What is needed besides: sessions have different names and numbers, the connections know the name
of their session and are not ahead of its epoch, and so do the timers. -/
structure Books (s : ServerState ClientID) : Prop extends Consistent s where
  ids : (s.activeClients.map ClientSession.clientID).Nodup
  refs : (s.activeClients.map ClientSession.ref).Nodup
  ref_lt : ∀ session ∈ s.activeClients, session.ref < s.nextRef
  conn_lt : ∀ c ∈ s.conns, c.session < s.nextRef
  conn_of : ∀ session ∈ s.activeClients, ∀ c ∈ s.conns, c.session = session.ref →
    c.clientID = session.clientID ∧ c.epoch ≤ session.core.epoch
  timer_of : ∀ session ∈ s.activeClients, ∀ t, session.destroyTimer = some t →
    t.session = session.ref ∧ t.clientID = session.clientID

theorem Books.lookup_iff (h : s.Books) {id : ClientID} :
    s.lookup id = some session ↔ session ∈ s.activeClients ∧ session.clientID = id :=
  find_key_eq_some h.ids

omit [DecidableEq ClientID] in
theorem Books.eq_of_ref (h : s.Books) (hmem : session ∈ s.activeClients)
    (hmem' : session' ∈ s.activeClients) (href : session.ref = session'.ref) : session = session' :=
  inj_on_of_nodup_map h.refs hmem hmem' href

theorem new_books (config : ServerConfig) (maxSessions : Nat) (v4 v6 : Nat × Nat) :
    (ServerState.new config maxSessions v4 v6 : ServerState ClientID).Books :=
  { v4 := Pool.new_holds _ _
    v6 := Pool.new_holds _ _
    counted := by nofun
    timer := by nofun
    ids := nodup_nil
    refs := nodup_nil
    ref_lt := by nofun
    conn_lt := by nofun
    conn_of := by nofun
    timer_of := by nofun }

/-! ## The three changes -/

omit [DecidableEq ClientID] in
/-- A step that changes no session. -/
theorem Books.keep (h : s.Books) (hactive : s'.activeClients = s.activeClients) (hv4 : s'.v4 = s.v4)
    (hv6 : s'.v6 = s.v6) (hnext : s'.nextRef = s.nextRef) (hconns : ∀ c ∈ s'.conns, c ∈ s.conns)
    (hcount : ∀ session ∈ s.activeClients, connCount s'.conns session.ref session.core.epoch =
      connCount s.conns session.ref session.core.epoch)
    (hpending : ∀ session ∈ s.activeClients, session.activeConns = 0 → ∀ t,
      session.destroyTimer = some t → s.Pending t → s'.Pending t) : s'.Books :=
  { v4 := by rw [hv4, hactive]; exact h.v4
    v6 := by rw [hv6, hactive]; exact h.v6
    counted := fun session hmem => by
      rw [hactive] at hmem
      rw [hcount session hmem]
      exact h.counted session hmem
    timer := fun session hmem hzero => by
      rw [hactive] at hmem
      obtain ⟨t, ht, href, hpend⟩ := h.timer session hmem hzero
      exact ⟨t, ht, href, hpending session hmem hzero t ht hpend⟩
    ids := by rw [hactive]; exact h.ids
    refs := by rw [hactive]; exact h.refs
    ref_lt := fun session hmem => by
      rw [hnext]
      exact h.ref_lt session (hactive ▸ hmem)
    conn_lt := fun c hc => by
      rw [hnext]
      exact h.conn_lt c (hconns c hc)
    conn_of := fun session hmem c hc => h.conn_of session (hactive ▸ hmem) c (hconns c hc)
    timer_of := fun session hmem => h.timer_of session (hactive ▸ hmem) }

/-- A session that differs from another one in its connections, its timer and its core. -/
structure SameSession (session session' : ClientSession ClientID) : Prop where
  id : session'.clientID = session.clientID
  ref : session'.ref = session.ref
  ipv4 : session'.ipv4 = session.ipv4
  ipv6 : session'.ipv6 = session.ipv6

/-- The timers of the other sessions are kept. -/
def KeepsTimers (s s' : ServerState ClientID) (ref : Nat) : Prop :=
  ∀ t, t.session ≠ ref → s.Pending t → s'.Pending t

/-- A step that changes one session and its connections. -/
theorem Books.change (h : s.Books) (hmem : session ∈ s.activeClients)
    (session' : ClientSession ClientID) (hsame : SameSession session session')
    (hactive : s'.activeClients = updateKey ClientSession.clientID s.activeClients
      session'.clientID fun _ => session')
    (hv4 : s'.v4 = s.v4) (hv6 : s'.v6 = s.v6) (hnext : s'.nextRef = s.nextRef)
    (hconns : ∀ c ∈ s'.conns, c ∈ s.conns ∨
      c = ⟨session'.ref, session'.clientID, session'.core.epoch⟩)
    (hother : ∀ ref ≠ session.ref, ∀ epoch, connCount s'.conns ref epoch =
      connCount s.conns ref epoch)
    (hcount : session'.activeConns = connCount s'.conns session'.ref session'.core.epoch)
    (hepoch : session.core.epoch ≤ session'.core.epoch)
    (hpending : KeepsTimers s s' session.ref)
    (htimer : session'.activeConns = 0 → ∃ t, session'.destroyTimer = some t ∧ s'.Pending t)
    (htimer_of : ∀ t, session'.destroyTimer = some t →
      t.session = session.ref ∧ t.clientID = session.clientID) : s'.Books := by
  have hself : ∀ c ∈ s.activeClients, c.clientID = session'.clientID → c = session :=
    fun c hc hid => inj_on_of_nodup_map h.ids hc hmem (hid.trans hsame.id)
  have hcolumn : ∀ {β : Type} (column : ClientSession ClientID → β),
      column session' = column session →
      s'.activeClients.map column = s.activeClients.map column := by
    intro β column heq
    rw [hactive]
    exact map_updateKey fun c hc hid => by rw [hself c hc hid, heq]
  -- a session afterwards is the changed one, or another one as it was
  have hcases : ∀ c ∈ s'.activeClients, c = session' ∨
      c ∈ s.activeClients ∧ c.clientID ≠ session'.clientID ∧ c.ref ≠ session.ref := by
    intro c hc
    rw [hactive] at hc
    rcases mem_updateKey.mp hc with ⟨_, _, _, rfl⟩ | ⟨hold, hid⟩
    · exact .inl rfl
    · refine .inr ⟨hold, hid, fun href => hid ?_⟩
      rw [h.eq_of_ref hold hmem href, hsame.id]
  refine
    { v4 := by rw [hv4, hcolumn _ hsame.ipv4]; exact h.v4
      v6 := by rw [hv6, hcolumn _ hsame.ipv6]; exact h.v6
      counted := ?_
      timer := ?_
      ids := by rw [hcolumn _ hsame.id]; exact h.ids
      refs := by rw [hcolumn _ hsame.ref]; exact h.refs
      ref_lt := ?_
      conn_lt := ?_
      conn_of := ?_
      timer_of := ?_ }
  · intro c hc
    rcases hcases c hc with rfl | ⟨hold, -, href⟩
    · exact hcount
    · rw [hother c.ref href]
      exact h.counted c hold
  · intro c hc hzero
    rcases hcases c hc with rfl | ⟨hold, -, href⟩
    · obtain ⟨t, ht, hpend⟩ := htimer hzero
      exact ⟨t, ht, (htimer_of t ht).1.trans hsame.ref.symm, hpend⟩
    · obtain ⟨t, ht, hsession, hpend⟩ := h.timer c hold hzero
      exact ⟨t, ht, hsession, hpending t (by rw [hsession]; exact href) hpend⟩
  · intro c hc
    rw [hnext]
    rcases hcases c hc with rfl | ⟨hold, -⟩
    · rw [hsame.ref]
      exact h.ref_lt session hmem
    · exact h.ref_lt c hold
  · intro c hc
    rw [hnext]
    rcases hconns c hc with hold | rfl
    · exact h.conn_lt c hold
    · show session'.ref < _
      rw [hsame.ref]
      exact h.ref_lt session hmem
  · intro c hc conn hconn href
    rcases hconns conn hconn with hold | rfl
    · rcases hcases c hc with rfl | ⟨hcold, -⟩
      · rw [hsame.ref] at href
        obtain ⟨hid, hle⟩ := h.conn_of session hmem conn hold href
        exact ⟨hid.trans hsame.id.symm, hle.trans hepoch⟩
      · exact h.conn_of c hcold conn hold href
    · rcases hcases c hc with rfl | ⟨-, -, hne⟩
      · exact ⟨rfl, le_rfl⟩
      · exact absurd (href.symm.trans hsame.ref) hne
  · intro c hc t ht
    rcases hcases c hc with rfl | ⟨hold, -⟩
    · rw [hsame.ref, hsame.id]
      exact htimer_of t ht
    · exact h.timer_of c hold t ht

/-- A session is destroyed. -/
theorem Books.destroy (h : s.Books) (hmem : session ∈ s.activeClients) :
    (s.destroySession session).Books := by
  have hlookup := h.lookup_iff.mpr ⟨hmem, rfl⟩
  have hperm : s.activeClients.Perm
      (session :: s.activeClients.filter fun c => c.clientID ≠ session.clientID) :=
    perm_cons_filter_key h.ids hmem
  have hsub : ∀ c ∈ s.activeClients.filter (fun c => c.clientID ≠ session.clientID),
      c ∈ s.activeClients := fun c hc => (mem_filter.mp hc).1
  unfold destroySession
  rw [hlookup]
  dsimp only
  rw [if_neg (not_not.mpr rfl)]
  exact
    { v4 := h.v4.release (hperm.map ClientSession.ipv4)
      v6 := h.v6.release (hperm.map ClientSession.ipv6)
      counted := fun c hc => h.counted c (hsub c hc)
      timer := fun c hc => h.timer c (hsub c hc)
      ids := nodup_keys_filter h.ids _
      refs := nodup_keys_filter h.refs _
      ref_lt := fun c hc => h.ref_lt c (hsub c hc)
      conn_lt := h.conn_lt
      conn_of := fun c hc => h.conn_of c (hsub c hc)
      timer_of := fun c hc => h.timer_of c (hsub c hc) }

/-- The timers of the session may go with it. -/
theorem Books.destroy_timers (h : s.Books) (hmem : session ∈ s.activeClients)
    {armed fired : List (Timer ClientID)}
    (hpending : KeepsTimers s { s with armed, fired } session.ref) :
    (destroySession { s with armed, fired } session).Books := by
  have hlookup := h.lookup_iff.mpr ⟨hmem, rfl⟩
  have hlookup' : ServerState.lookup { s with armed, fired } session.clientID = some session :=
    hlookup
  have hdestroyed := h.destroy hmem
  unfold destroySession at hdestroyed ⊢
  rw [hlookup] at hdestroyed
  rw [hlookup']
  dsimp only at hdestroyed ⊢
  rw [if_neg (not_not.mpr rfl)] at hdestroyed ⊢
  refine hdestroyed.keep rfl rfl rfl rfl (fun _ hc => hc) (fun _ _ => rfl) ?_
  intro c hc _ t ht hpend
  obtain ⟨hold, hid⟩ := mem_filter.mp hc
  refine hpending t (fun heq => of_decide_eq_true hid ?_) hpend
  rw [h.eq_of_ref hold hmem ((h.timer_of c hold t ht).1.symm.trans heq)]

omit [DecidableEq ClientID] in
theorem count_append (conns : List (ConnInfo ClientID)) (c : ConnInfo ClientID) (ref epoch : Nat) :
    connCount (conns ++ [c]) ref epoch =
      connCount conns ref epoch + if c.session = ref ∧ c.epoch = epoch then 1 else 0 := by
  unfold connCount
  rw [countP_append, countP_singleton]
  simp

variable {conns : List (ConnInfo ClientID)}

omit [DecidableEq ClientID] in
theorem count_eq_zero {ref epoch : Nat} (h : ∀ c ∈ conns, c.session = ref → c.epoch ≠ epoch) :
    connCount conns ref epoch = 0 := by
  refine countP_eq_zero.mpr fun c hc hboth => ?_
  obtain ⟨href, hepoch⟩ := of_decide_eq_true hboth
  exact h c hc href hepoch

/-- A session is added with its first connection. -/
theorem Books.add (h : s.Books) (hid : s.lookup session.clientID = none)
    (href : session.ref = s.nextRef) (hactive : s'.activeClients = session :: s.activeClients)
    (hv4 : s'.v4.Holds (session.ipv4 :: s.activeClients.map ClientSession.ipv4))
    (hv6 : s'.v6.Holds (session.ipv6 :: s.activeClients.map ClientSession.ipv6))
    (hnext : s'.nextRef = s.nextRef + 1)
    (hconns : s'.conns = s.conns ++ [⟨session.ref, session.clientID, session.core.epoch⟩])
    (hone : session.activeConns = 1) (htimer : session.destroyTimer = none)
    (hpending : ∀ t, s.Pending t → s'.Pending t) : s'.Books := by
  have hnew : ∀ c ∈ s.activeClients, c.ref ≠ session.ref := by
    intro c hc heq
    have hlt := h.ref_lt c hc
    omega
  have hcases : ∀ {c}, c ∈ s'.activeClients → c = session ∨ c ∈ s.activeClients := by
    intro c hc
    rw [hactive] at hc
    exact mem_cons.mp hc
  refine
    { v4 := by rw [hactive]; exact hv4
      v6 := by rw [hactive]; exact hv6
      counted := ?_
      timer := ?_
      ids := ?_
      refs := ?_
      ref_lt := ?_
      conn_lt := ?_
      conn_of := ?_
      timer_of := ?_ }
  · intro c hc
    rw [hconns, count_append]
    rcases hcases hc with rfl | hold
    · have hzero : connCount s.conns c.ref c.core.epoch = 0 := by
        refine count_eq_zero fun conn hconn heq => ?_
        have hlt := h.conn_lt conn hconn
        omega
      rw [hzero, hone]
      simp
    · rw [if_neg fun hboth => hnew c hold hboth.1.symm]
      exact h.counted c hold
  · intro c hc hzero
    rcases hcases hc with rfl | hold
    · rw [hone] at hzero
      cases hzero
    · obtain ⟨t, ht, hsession, hpend⟩ := h.timer c hold hzero
      exact ⟨t, ht, hsession, hpending t hpend⟩
  · rw [hactive]
    refine nodup_cons.mpr ⟨fun hmem => ?_, h.ids⟩
    obtain ⟨c, hc, hsame⟩ := mem_map.mp hmem
    exact find_key_eq_none.mp hid c hc hsame
  · rw [hactive]
    refine nodup_cons.mpr ⟨fun hmem => ?_, h.refs⟩
    obtain ⟨c, hc, hsame⟩ := mem_map.mp hmem
    exact hnew c hc hsame
  · intro c hc
    rw [hnext]
    rcases hcases hc with rfl | hold
    · omega
    · exact Nat.lt_succ_of_lt (h.ref_lt c hold)
  · intro conn hconn
    rw [hnext]
    rw [hconns] at hconn
    rcases mem_append.mp hconn with hold | hlast
    · exact Nat.lt_succ_of_lt (h.conn_lt conn hold)
    · rw [mem_singleton.mp hlast]
      show session.ref < _
      omega
  · intro c hc conn hconn heq
    rw [hconns] at hconn
    rcases mem_append.mp hconn with hold | hlast
    · rcases hcases hc with rfl | hcold
      · have hlt := h.conn_lt conn hold
        omega
      · exact h.conn_of c hcold conn hold heq
    · rw [mem_singleton.mp hlast] at heq ⊢
      rcases hcases hc with rfl | hcold
      · exact ⟨rfl, le_rfl⟩
      · exact absurd heq.symm (hnew c hcold)
  · intro c hc t ht
    rcases hcases hc with rfl | hold
    · rw [htimer] at ht
      cases ht
    · exact h.timer_of c hold t ht

/-! ## The critical sections -/

omit [DecidableEq ClientID] in
/-- The addresses of a new session, or a server as before. -/
theorem assign_cases (s : ServerState ClientID) (reqV4 reqV6 : Option Nat) :
    s.assignIPs reqV4 reqV6 = (none, s) ∨
      ∃ v4ip v6ip, v4ip ∉ s.v4.used ∧ v6ip ∉ s.v6.used ∧ s.assignIPs reqV4 reqV6 =
        (some (v4ip, v6ip), { s with v4 := s.v4.take v4ip, v6 := s.v6.take v6ip }) := by
  unfold assignIPs
  split
  · exact .inl rfl
  · rename_i v4ip v4 hv4
    obtain ⟨hfree4, rfl⟩ := Pool.alloc_free hv4
    split
    · left
      rw [Pool.release_take hfree4]
    · rename_i v6ip v6 hv6
      obtain ⟨hfree6, rfl⟩ := Pool.alloc_free hv6
      exact .inr ⟨v4ip, v6ip, hfree4, hfree6, rfl⟩

theorem Books.create (h : s.Books) {id : ClientID} (hid : s.lookup id = none) (a : Authenticated)
    (ips : Option Nat × Option Nat) (fresh : Fresh) : (s.create id a ips fresh).Books := by
  unfold ServerState.create
  split
  · exact h
  · rcases assign_cases s ips.1 ips.2 with hnone | ⟨v4ip, v6ip, hfree4, hfree6, hassign⟩
    · rw [hnone]
      exact h
    · rw [hassign]
      exact h.add hid rfl rfl (h.v4.take hfree4) (h.v6.take hfree6) rfl rfl rfl rfl
        (fun _ hpend => hpend)

theorem Books.keeps_timers (h : s.Books) (hmem : session ∈ s.activeClients) :
    KeepsTimers s (s.stopTimer session.destroyTimer) session.ref := by
  intro t hne hpend
  rcases hpend with harmed | hfired
  · refine .inl (mem_filter.mpr ⟨harmed, decide_eq_true fun heq => hne ?_⟩)
    exact (h.timer_of session hmem t heq.symm).1
  · exact .inr hfired

/-- One more connection is counted. -/
theorem Books.joinSession (h : s.Books) (hmem : session ∈ s.activeClients) {core : ServerSession}
    {rotated : Prop} [Decidable rotated]
    (hepoch : core.epoch = if rotated then session.core.epoch + 1 else session.core.epoch) :
    (s.joinSession session core rotated).Books := by
  have hkeeps := h.keeps_timers hmem
  have hle : session.core.epoch ≤ core.epoch := by
    rw [hepoch]
    split
    · exact Nat.le_succ _
    · exact le_rfl
  -- a rotated epoch has no connections yet
  have hactive : (if rotated then 0 else session.activeConns) =
      connCount s.conns session.ref core.epoch := by
    rw [hepoch]
    split
    · have hzero : connCount s.conns session.ref (session.core.epoch + 1) = 0 := by
        refine count_eq_zero fun c hc href => ?_
        have hbound := (h.conn_of session hmem c hc href).2
        omega
      rw [hzero]
      rfl
    · exact h.counted session hmem
  unfold ServerState.joinSession
  dsimp only
  rw [hactive]
  split
  · rename_i hlimit
    refine h.change hmem
      { session with
        core, activeConns := connCount s.conns session.ref core.epoch, destroyTimer := none }
      ⟨rfl, rfl, rfl, rfl⟩ rfl rfl rfl rfl (fun c hc => .inl hc) (fun _ _ _ => rfl) rfl hle
      hkeeps (fun hzero => ?_) (by nofun)
    exfalso
    have hcount : (connCount s.conns session.ref core.epoch : Int) = 0 := hzero
    rw [hcount] at hlimit
    exact absurd hlimit (by decide)
  · refine h.change hmem
      { session with
        core, activeConns := connCount s.conns session.ref core.epoch + 1, destroyTimer := none }
      ⟨rfl, rfl, rfl, rfl⟩ rfl rfl rfl rfl (fun c hc => ?_) (fun ref hne epoch => ?_) ?_ hle
      hkeeps (fun hzero => ?_) (by nofun)
    · exact (mem_append.mp hc).imp_right mem_singleton.mp
    · show connCount (s.conns ++ [_]) ref epoch = _
      rw [count_append, if_neg fun hboth => hne hboth.1.symm]
      rfl
    · show (_ : Int) = (connCount (s.conns ++ [_]) session.ref core.epoch : Int)
      rw [count_append, if_pos ⟨rfl, rfl⟩]
      rfl
    · exfalso
      have hcount : (connCount s.conns session.ref core.epoch : Int) + 1 = 0 := hzero
      omega

theorem lookup_destroy (h : s.Books) (hmem : session ∈ s.activeClients) :
    (s.destroySession session).lookup session.clientID = none := by
  refine find_key_eq_none.mpr fun c hc => ?_
  unfold destroySession at hc
  rw [h.lookup_iff.mpr ⟨hmem, rfl⟩] at hc
  dsimp only at hc
  rw [if_neg (not_not.mpr rfl)] at hc
  exact of_decide_eq_true (mem_filter.mp hc).2

theorem Books.register (h : s.Books) (id : ClientID) (a : Authenticated) (fresh : Fresh) :
    (s.register id a fresh).Books := by
  unfold ServerState.register
  cases hlookup : s.lookup id with
  | none => exact h.create hlookup a _ fresh
  | some session =>
    obtain ⟨hmem, rfl⟩ := h.lookup_iff.mp hlookup
    dsimp only
    split
    · exact h
    · split
      · exact (h.destroy hmem).create (lookup_destroy h hmem) a _ fresh
      · split
        · exact h
        · rename_i core hjoin
          exact h.joinSession hmem (ServerSession.join_keeps hjoin).2

variable {c : ConnInfo ClientID}

theorem count_erase (hc : c ∈ conns) (ref epoch : Nat) :
    connCount (conns.erase c) ref epoch =
      connCount conns ref epoch - if c.session = ref ∧ c.epoch = epoch then 1 else 0 := by
  unfold connCount
  rw [countP_erase]
  simp [hc]

omit [DecidableEq ClientID] in
theorem count_pos (hc : c ∈ conns) : 0 < connCount conns c.session c.epoch :=
  countP_pos_iff.mpr ⟨c, hc, by simp⟩

/-- The last connection of a session arms its timer. -/
theorem Books.cleanup (h : s.Books) (hc : c ∈ s.conns) : (s.cleanup c).Books := by
  have hsub : ∀ x ∈ s.conns.erase c, x ∈ s.conns := fun _ => mem_of_mem_erase
  -- a connection that no session counts
  have hignored : (∀ session ∈ s.activeClients, ¬ (c.session = session.ref ∧
      c.epoch = session.core.epoch)) → Books { s with conns := s.conns.erase c } := by
    intro hnone
    refine h.keep rfl rfl rfl rfl hsub (fun session hmem => ?_) (fun _ _ _ _ _ hpend => hpend)
    show connCount (s.conns.erase c) _ _ = _
    rw [count_erase hc, if_neg (hnone session hmem)]
    rfl
  unfold ServerState.cleanup
  dsimp only
  cases hlookup : ServerState.lookup { s with conns := s.conns.erase c } c.clientID with
  | none =>
    refine hignored fun session hmem hboth => ?_
    have hid := (h.conn_of session hmem c hc hboth.1).1
    exact find_key_eq_none.mp hlookup session hmem hid.symm
  | some session =>
    obtain ⟨hmem, hid⟩ := h.lookup_iff.mp hlookup
    dsimp only
    split
    · rename_i hstale
      refine hignored fun other hother hboth => ?_
      have hname := (h.conn_of other hother c hc hboth.1).1
      have heq : other = session :=
        inj_on_of_nodup_map h.ids hother hmem (hname.symm.trans hid.symm)
      subst heq
      exact hstale.elim (fun hne => hne hboth.1.symm) (fun hne => hne hboth.2)
    · rename_i hcurrent
      obtain ⟨href, hepoch⟩ := not_or.mp hcurrent
      rw [not_not] at href hepoch
      have hcounted := h.counted session hmem
      have hpos : 0 < connCount s.conns session.ref session.core.epoch := by
        rw [href, ← hepoch]
        exact count_pos hc
      have hcount : session.activeConns - 1 =
          connCount (s.conns.erase c) session.ref session.core.epoch := by
        rw [count_erase hc, if_pos ⟨href.symm, hepoch⟩, hcounted]
        omega
      have hother : ∀ ref ≠ session.ref, ∀ epoch, connCount (s.conns.erase c) ref epoch =
          connCount s.conns ref epoch := by
        intro ref hne epoch
        rw [count_erase hc, if_neg fun hboth => hne (hboth.1.symm.trans href.symm)]
        rfl
      split
      · refine h.change hmem
          { session with
            activeConns := session.activeConns - 1
            destroyTimer := some ⟨s.nextTimer, session.ref, session.clientID⟩ }
          ⟨rfl, rfl, rfl, rfl⟩ rfl rfl rfl rfl (fun x hx => .inl (hsub x hx))
          hother hcount le_rfl (fun t _ hpend => ?_) (fun _ => ?_) (fun t ht => ?_)
        · exact hpend.imp_left (mem_append_left _)
        · exact ⟨_, rfl, .inl (mem_append_right _ (mem_singleton.mpr rfl))⟩
        · cases ht
          exact ⟨rfl, rfl⟩
      · rename_i hmore
        refine h.change hmem { session with activeConns := session.activeConns - 1 }
          ⟨rfl, rfl, rfl, rfl⟩ rfl rfl rfl rfl (fun x hx => .inl (hsub x hx))
          hother hcount le_rfl (fun _ _ hpend => hpend) (fun hzero => ?_)
            (h.timer_of session hmem)
        exact absurd (le_of_eq hzero) hmore

/-- A timer destroys only the session that it belongs to. -/
theorem Books.timeout (h : s.Books) (t : Timer ClientID) : (s.timeout t).Books := by
  have hother : ∀ t', t' ≠ t → s.Pending t' →
      Pending { s with fired := s.fired.erase t } t' := by
    intro t' hne hpend
    exact hpend.imp_right (mem_erase_of_ne hne).mpr
  unfold ServerState.timeout
  dsimp only
  -- the timer is needed only by a session that it destroys now
  have hunneeded : (∀ session ∈ s.activeClients, session.activeConns = 0 →
      session.destroyTimer ≠ some t) → Books { s with fired := s.fired.erase t } := by
    intro hnone
    refine h.keep rfl rfl rfl rfl (fun _ hc => hc) (fun _ _ => rfl) ?_
    intro session hmem hzero t' ht' hpend
    exact hother t' (fun heq => hnone session hmem hzero (heq ▸ ht')) hpend
  cases hlookup : ServerState.lookup { s with fired := s.fired.erase t } t.clientID with
  | none =>
    refine hunneeded fun session hmem _ ht => ?_
    exact find_key_eq_none.mp hlookup session hmem (h.timer_of session hmem t ht).2.symm
  | some session =>
    obtain ⟨hmem, hid⟩ := h.lookup_iff.mp hlookup
    dsimp only
    split
    · rename_i hdestroy
      refine h.destroy_timers hmem fun t' hne hpend => hother t' (fun heq => hne ?_) hpend
      rw [heq, hdestroy.1]
    · rename_i hkept
      refine hunneeded fun other hother hzero ht => ?_
      obtain ⟨href, hname⟩ := h.timer_of other hother t ht
      have heq : other = session :=
        inj_on_of_nodup_map h.ids hother hmem (hname.symm.trans hid.symm)
      subst heq
      exact hkept ⟨href.symm, hzero.le⟩

theorem Books.kick (h : s.Books) (ref : Nat) : (s.kickSession ref).Books := by
  unfold kickSession
  split
  · exact h
  · rename_i session hfound
    have hmem := (mem_of_find_key hfound).1
    exact h.destroy_timers hmem (h.keeps_timers hmem)

theorem Books.exhausted (h : s.Books) (ref instanceID : Nat) :
    (s.sequenceExhausted ref instanceID).Books := by
  unfold sequenceExhausted
  split
  · exact h
  · rename_i session hfound
    have hmem := (mem_of_find_key hfound).1
    exact h.change hmem { session with core := { session.core with instanceID } }
      ⟨rfl, rfl, rfl, rfl⟩
      rfl rfl rfl rfl (fun _ hc => .inl hc) (fun _ _ _ => rfl) (h.counted session hmem) le_rfl
      (fun _ _ hpend => hpend)
      (fun hzero => (h.timer session hmem hzero).imp fun _ ht => ⟨ht.1, ht.2.2⟩)
      (h.timer_of session hmem)

omit [DecidableEq ClientID] in
/-- A step that touches none of the sessions, connections and timers. -/
theorem Books.untouched (h : s.Books) (hactive : s'.activeClients = s.activeClients)
    (hv4 : s'.v4 = s.v4) (hv6 : s'.v6 = s.v6) (hnext : s'.nextRef = s.nextRef)
    (hconns : s'.conns = s.conns) (hpending : ∀ t, s.Pending t → s'.Pending t) : s'.Books :=
  h.keep hactive hv4 hv6 hnext (fun _ hc => hconns ▸ hc) (fun _ _ => by rw [hconns])
    (fun _ _ _ t _ => hpending t)

/-- Every critical section keeps the books. -/
theorem Books.step (h : s.Books) {uuid : MacKey → String → ClientID} {action : Action ClientID}
    (hstep : s.step uuid action = some s') : s'.Books := by
  have hsame : ∀ t, s.Pending t → s.Pending t := fun _ hpend => hpend
  cases action with
  | authenticate req mac ipv4 ipv6 =>
    obtain ⟨_, rfl⟩ := of_guarded hstep
    exact h.untouched rfl rfl rfl rfl rfl hsame
  | register a fresh =>
    obtain ⟨_, rfl⟩ := of_guarded hstep
    have htaken : Books { s with waiting := s.waiting.erase a } :=
      h.untouched rfl rfl rfl rfl rfl hsame
    exact htaken.register _ a fresh
  | cleanup c =>
    obtain ⟨hc, rfl⟩ := of_guarded hstep
    exact h.cleanup hc
  | fire t =>
    obtain ⟨_, rfl⟩ := of_guarded hstep
    refine h.untouched rfl rfl rfl rfl rfl fun t' hpend => ?_
    rcases hpend with harmed | hfired
    · by_cases heq : t' = t
      · exact .inr (mem_append_right _ (mem_singleton.mpr heq))
      · exact .inl ((mem_erase_of_ne heq).mpr harmed)
    · exact .inr (mem_append_left _ hfired)
  | timeout t =>
    obtain ⟨_, rfl⟩ := of_guarded hstep
    exact h.timeout t
  | kick ref =>
    cases hstep
    exact h.kick ref
  | sequenceExhausted ref instanceID =>
    cases hstep
    exact h.exhausted ref instanceID
  | applyConfig config maxSessions =>
    cases hstep
    exact h.untouched rfl rfl rfl rfl rfl hsame
  | frame origin raw now =>
    obtain ⟨_, _, rfl⟩ := Option.map_eq_some_iff.mp hstep
    exact h.untouched rfl rfl rfl rfl rfl hsame
  | tick =>
    cases hstep
    exact h.untouched rfl rfl rfl rfl rfl hsame

/-- In every state that the server reaches, its addresses, its counts of connections and its destroy
timers are those of its sessions. -/
theorem registry_consistent (uuid : MacKey → String → ClientID) (config : ServerConfig)
    (maxSessions : Nat) (v4 v6 : Nat × Nat) (actions : List (Action ClientID))
    (hrun : run (step uuid) (new config maxSessions v4 v6) actions = some s) : s.Consistent :=
  (run_preserves (fun _ _ _ h hstep => Books.step h hstep)
    (new_books config maxSessions v4 v6) hrun).toConsistent

/-- A server with a key, without encryption. -/
def settings (psk : String) : ServerConfig :=
  { psk, encrypt := false, encAlgo := .gcm, minEnc := false, fecGroupMin := 2, fecGroupMax := 64 }

/-- A request of a client instance. -/
def hello (psk : String) (instanceID token : Nat) : HandshakeReq :=
  { clientInstance := instanceID
    psk
    fec := false
    fecGroup := 0
    encrypt := false
    encAlgo := none
    sessionToken := token }

/-- The MAC that the runs below use. -/
def someMAC : MacKey := ⟨[2, 0, 0, 0, 0, 1], rfl⟩

/-- A handshake of a client instance with what the server draws for it. -/
def handshake (psk : String) (instanceID token drawn : Nat) : List (Action (MacKey × String)) :=
  [.authenticate (hello psk instanceID token) someMAC none none,
    .register ⟨settings psk, hello psk instanceID token, someMAC, none, none⟩
      ⟨drawn, [], [], drawn⟩]

/-- A client restarts and then leaves, the connection of its first process last. -/
def comeAndGo : List (Action (MacKey × String)) :=
  handshake "key" 1 0 1 ++ handshake "key" 2 1 2 ++
    [.cleanup ⟨1, (someMAC, "key"), 2⟩, .cleanup ⟨1, (someMAC, "key"), 1⟩]

/-- The session without connections keeps its address. -/
theorem come_and_go_consistent :
    ∃ s, run (step Prod.mk) (new (settings "key") 8 (256, 256) (512, 256)) comeAndGo = some s ∧
      s.activeClients.map (fun c => (c.ipv4, c.activeConns)) = [(258, 0)] ∧ s.Consistent := by
  obtain ⟨s, hrun, hend⟩ : ∃ s, run (step Prod.mk) (new (settings "key") 8 (256, 256) (512, 256))
      comeAndGo = some s ∧ s.activeClients.map (fun c => (c.ipv4, c.activeConns)) = [(258, 0)] :=
    exists_run_of_decide (by decide +kernel)
  exact ⟨s, hrun, hend, registry_consistent Prod.mk _ _ _ _ _ hrun⟩

end ServerState

end TlsVpn.Server
