import TlsVpn.Server.Sessions

/-!
# Bans

Translation of `Server.Ban`, `Unban`, `IsBanned` and `BanList`. The table of bans has a lock of its
own, so a call of `Ban` is three steps: it inserts the entry, later looks the session up, and later
kicks it. A handshake looks into the table once, and takes the lock of the server later.

`GuardedServer.ban_effective` holds if no handshake of the client is between these two steps when
the entry is inserted. Otherwise the handshake still registers after the kick
(`ban_overtaken`).
-/

namespace TlsVpn.Server

open Lib Session Function List

/-- A call of `Ban` that has inserted its entry. -/
structure BanCall (ClientID : Type) where
  id : ClientID
  /-- The number of the session that the look-up has found, once it is made. -/
  found : Option (Option Nat)
  /-- The client has not been banned all the time since. -/
  lapsed : Bool
  deriving DecidableEq

/-- A server with its bans. -/
structure GuardedServer (ClientID : Type) where
  server : ServerState ClientID
  /-- The time in nanoseconds. -/
  now : Nat
  /-- The end of each ban in milliseconds, `0` for a permanent one. -/
  banned : ClientID → Option Nat
  /-- Handshakes that have passed the check and wait for the lock of the server. -/
  checked : List Authenticated
  calls : List (BanCall ClientID)
  /-- The clients banned all the time since a call of `Ban` has returned. -/
  inForce : List ClientID

/-- A handshake is checked before it is registered. -/
inductive BanAction (ClientID : Type) where
  | server (action : ServerState.Action ClientID)
  | check (a : Authenticated)
  | register (a : Authenticated) (fresh : Fresh)
  | insert (id : ClientID) (ttl : Int)
  | find (call : BanCall ClientID)
  | kick (call : BanCall ClientID)
  | unban (id : ClientID)
  | banList
  | wait (duration : Nat)

namespace GuardedServer

variable {ClientID : Type} [DecidableEq ClientID]

/-- Nobody is banned. -/
def new (server : ServerState ClientID) (now : Nat) : GuardedServer ClientID :=
  { server, now, banned := fun _ => none, checked := [], calls := [], inForce := [] }

/-- The time as `UnixMilli` gives it. -/
def milli (now : Nat) : Nat := now / 1000000

/-- An entry that has expired. -/
def Expired (now expiry : Nat) : Prop := 0 < expiry ∧ expiry ≤ milli now

instance (now expiry : Nat) : Decidable (Expired now expiry) :=
  inferInstanceAs (Decidable (_ ∧ _))

/-- The client is banned. -/
def Banned (s : GuardedServer ClientID) (id : ClientID) : Prop :=
  (s.banned id).any (fun expiry => ¬ Expired s.now expiry) = true

instance (s : GuardedServer ClientID) (id : ClientID) : Decidable (s.Banned id) :=
  inferInstanceAs (Decidable (_ = true))

/-- `IsBanned`, with the table it leaves: an expired entry is deleted. -/
def isBanned (s : GuardedServer ClientID) (id : ClientID) : Bool × (ClientID → Option Nat) :=
  match s.banned id with
  | none => (false, s.banned)
  | some expiry =>
    if Expired s.now expiry then (false, update s.banned id none) else (true, s.banned)

/-- The entry of a ban. -/
def expiry (now : Nat) (ttl : Int) : Nat := if ttl ≤ 0 then 0 else milli (now + ttl.toNat)

/-- The bookkeeping of the bans that have lapsed. -/
def lapse (s : GuardedServer ClientID) : GuardedServer ClientID :=
  { s with
    calls := s.calls.map fun c => { c with lapsed := c.lapsed || ! decide (s.Banned c.id) }
    inForce := s.inForce.filter fun id => s.Banned id }

/-- The kick of a call that has found a session. -/
def kicked (s : GuardedServer ClientID) (found : Option Nat) : ServerState ClientID :=
  match found with
  | none => s.server
  | some ref => s.server.kickSession ref

/-- The action registers a handshake. -/
def registers : ServerState.Action ClientID → Bool
  | .register _ _ => true
  | _ => false

/-- A call of `Ban` inserts, finds the session and kicks it. -/
def step (uuid : MacKey → String → ClientID) (s : GuardedServer ClientID) :
    BanAction ClientID → Option (GuardedServer ClientID)
  -- a handshake registers only after its check
  | .server action =>
    if registers action then none
    else (s.server.step uuid action).map fun server => { s with server }
  | .check a =>
    if a ∈ s.server.waiting then
      let s' :=
        { s with
          server := { s.server with waiting := s.server.waiting.erase a }
          banned := (s.isBanned (uuid a.mac a.config.psk)).2 }
      if (s.isBanned (uuid a.mac a.config.psk)).1 then some s'
      else some { s' with checked := s.checked ++ [a] }
    else none
  | .register a fresh =>
    if a ∈ s.checked then
      some { s with
        server := s.server.register (uuid a.mac a.config.psk) a fresh
        checked := s.checked.erase a }
    else none
  | .insert id ttl =>
    some (lapse { s with
      banned := update s.banned id (some (expiry s.now ttl))
      calls := s.calls ++ [⟨id, none, false⟩] })
  | .find call =>
    if call ∈ s.calls ∧ call.found = none then
      let found := (s.server.lookup call.id).map ClientSession.ref
      some { s with calls := s.calls.erase call ++ [{ call with found := some found }] }
    else none
  | .kick call =>
    if call ∈ s.calls then
      call.found.map fun found =>
        { s with
          server := s.kicked found
          calls := s.calls.erase call
          inForce := if call.lapsed then s.inForce else s.inForce ++ [call.id] }
    else none
  | .unban id => some (lapse { s with banned := update s.banned id none })
  | .banList =>
    some { s with banned := fun id => (s.banned id).filter fun expiry => ¬ Expired s.now expiry }
  | .wait duration => some (lapse { s with now := s.now + duration })

/-- When a ban is inserted, no handshake of the client is between its check and its registration. -/
def Unchecked (uuid : MacKey → String → ClientID) (s : GuardedServer ClientID) :
    BanAction ClientID → Prop
  | .insert id _ => ∀ a ∈ s.checked, uuid a.mac a.config.psk ≠ id
  | _ => True

instance (uuid : MacKey → String → ClientID) (s : GuardedServer ClientID) :
    ∀ action, Decidable (s.Unchecked uuid action)
  | .insert _ _ => inferInstanceAs (Decidable (∀ a ∈ s.checked, _ ≠ _))
  | .server _ | .check _ | .register _ _ | .find _ | .kick _ | .unban _ | .banList | .wait _ =>
    isTrue trivial

/-! ## The invariant -/

variable {uuid : MacKey → String → ClientID} {s s' : GuardedServer ClientID}

/-- While a client is banned no handshake of it is past the check, the calls under way know its
session if it still has one, and after a call has returned it has none. -/
structure Sealed (uuid : MacKey → String → ClientID) (s : GuardedServer ClientID) : Prop where
  books : s.server.Books
  guarded : ∀ a ∈ s.checked, ¬ s.Banned (uuid a.mac a.config.psk)
  standing : ∀ call ∈ s.calls, call.lapsed = false → s.Banned call.id
  found : ∀ call ∈ s.calls, call.lapsed = false → ∀ found, call.found = some found →
    ∀ session ∈ s.server.activeClients, session.clientID = call.id → found = some session.ref
  banned : ∀ id ∈ s.inForce, s.Banned id
  gone : ∀ id ∈ s.inForce, ∀ session ∈ s.server.activeClients, session.clientID ≠ id

omit [DecidableEq ClientID] in
theorem sealed_new {server : ServerState ClientID} (h : server.Books) (now : Nat) :
    (new server now).Sealed uuid :=
  ⟨h, forall_mem_nil _, forall_mem_nil _, forall_mem_nil _, forall_mem_nil _,
    forall_mem_nil _⟩

/-- The check says whether the client is banned, and does not change who is. -/
theorem is_banned_spec (s : GuardedServer ClientID) (id : ClientID) :
    ((s.isBanned id).1 = true ↔ s.Banned id) ∧
      ∀ other, Banned { s with banned := (s.isBanned id).2 } other ↔ s.Banned other := by
  unfold isBanned Banned
  cases hentry : s.banned id with
  | none => simp
  | some expiry =>
    dsimp only
    split
    · rename_i hexpired
      refine ⟨by simp [hexpired], fun other => ?_⟩
      dsimp only
      by_cases heq : other = id
      · rw [heq, update_self, hentry]
        simp [hexpired]
      · rw [update_of_ne heq]
    · rename_i hstands
      exact ⟨by simp [hstands], fun other => Iff.rfl⟩

omit [DecidableEq ClientID] in
/-- Steps of the server that keep the sessions of the banned clients, or destroy them. -/
theorem Sealed.server_step (h : s.Sealed uuid) {server : ServerState ClientID}
    (hbooks : server.Books)
    (hsessions : ∀ c ∈ server.activeClients, s.Banned c.clientID → s.server.Older c) :
    Sealed uuid { s with server } := by
  refine ⟨hbooks, h.guarded, h.standing, ?_, h.banned, ?_⟩
  · intro call hcall hstands found hfound session hsession hid
    have hbanned : s.Banned session.clientID := hid ▸ h.standing call hcall hstands
    obtain ⟨old, hold, href, hname⟩ := hsessions session hsession hbanned
    rw [← href]
    exact h.found call hcall hstands found hfound old hold (hname.trans hid)
  · intro id hforce session hsession hid
    have hbanned : s.Banned session.clientID := hid ▸ h.banned id hforce
    obtain ⟨old, hold, -, hname⟩ := hsessions session hsession hbanned
    exact h.gone id hforce old hold (hname.trans hid)

omit [DecidableEq ClientID] in
/-- After a change of the table or of the time, what has lapsed is left out. -/
theorem Sealed.lapse (hbooks : s.server.Books)
    (hguarded : ∀ a ∈ s.checked, ¬ s.Banned (uuid a.mac a.config.psk))
    (hfound : ∀ call ∈ s.calls, call.lapsed = false → ∀ found, call.found = some found →
      ∀ session ∈ s.server.activeClients, session.clientID = call.id → found = some session.ref)
    (hgone : ∀ id ∈ s.inForce, ∀ session ∈ s.server.activeClients, session.clientID ≠ id) :
    s.lapse.Sealed uuid := by
  refine ⟨hbooks, hguarded, ?_, ?_, ?_, ?_⟩
  · intro call hcall hstands
    obtain ⟨old, hold, rfl⟩ := mem_map.mp hcall
    dsimp only at hstands
    rw [Bool.or_eq_false_iff] at hstands
    show s.Banned old.id
    simpa using hstands.2
  · intro call hcall hstands
    obtain ⟨old, hold, rfl⟩ := mem_map.mp hcall
    dsimp only at hstands
    rw [Bool.or_eq_false_iff] at hstands
    exact hfound old hold hstands.1
  · intro id hforce
    exact of_decide_eq_true (mem_filter.mp hforce).2
  · intro id hforce
    exact hgone id (mem_filter.mp hforce).1

theorem Sealed.check (h : s.Sealed uuid) {a : Authenticated}
    (hstep : s.step uuid (.check a) = some s') : s'.Sealed uuid := by
  simp only [step] at hstep
  split at hstep
  · obtain ⟨hbanned, hsame⟩ := s.is_banned_spec (uuid a.mac a.config.psk)
    have hbooks : ServerState.Books { s.server with waiting := s.server.waiting.erase a } :=
      h.books.untouched rfl rfl rfl rfl rfl fun _ hpend => hpend
    split at hstep
    · cases hstep
      exact ⟨hbooks, fun b hb hnow => h.guarded b hb ((hsame _).mp hnow),
        fun call hcall hstands => (hsame _).mpr (h.standing call hcall hstands), h.found,
        fun id hforce => (hsame _).mpr (h.banned id hforce), h.gone⟩
    · rename_i hpass
      cases hstep
      refine ⟨hbooks, fun b hb hnow => ?_,
        fun call hcall hstands => (hsame _).mpr (h.standing call hcall hstands), h.found,
        fun id hforce => (hsame _).mpr (h.banned id hforce), h.gone⟩
      have hnow := (hsame _).mp hnow
      rcases mem_append.mp hb with hold | hlast
      · exact h.guarded b hold hnow
      · rw [mem_singleton.mp hlast] at hnow
        exact hpass (hbanned.mpr hnow)
  · cases hstep

theorem Sealed.register (h : s.Sealed uuid) {a : Authenticated} {fresh : Fresh}
    (hstep : s.step uuid (.register a fresh) = some s') : s'.Sealed uuid := by
  obtain ⟨ha, rfl⟩ := of_guarded hstep
  have hkept := h.server_step (h.books.register (uuid a.mac a.config.psk) a fresh) (by
    intro c hc hbanned
    rcases (ServerState.register_effect h.books a fresh).older hc with
      hold | ⟨_, _, heq, hid, -⟩
    · exact hold
    · cases heq
      exact absurd (hid ▸ hbanned) (h.guarded a ha))
  exact ⟨hkept.books, fun b hb => hkept.guarded b (mem_of_mem_erase hb), hkept.standing,
    hkept.found, hkept.banned, hkept.gone⟩

theorem Sealed.insert (h : s.Sealed uuid) {id : ClientID} {ttl : Int}
    (hunchecked : s.Unchecked uuid (.insert id ttl))
    (hstep : s.step uuid (.insert id ttl) = some s') : s'.Sealed uuid := by
  cases hstep
  refine Sealed.lapse h.books (fun a ha => ?_) (fun call hcall hstands found hfound => ?_) h.gone
  · show ¬ Option.any _ (update s.banned id _ _) = true
    rw [update_of_ne (hunchecked a ha)]
    exact h.guarded a ha
  · rcases mem_append.mp hcall with hold | hlast
    · exact h.found call hold hstands found hfound
    · rw [mem_singleton.mp hlast] at hfound
      cases hfound

theorem Sealed.find (h : s.Sealed uuid) {call : BanCall ClientID}
    (hstep : s.step uuid (.find call) = some s') : s'.Sealed uuid := by
  obtain ⟨hcall, rfl⟩ := of_guarded hstep
  refine ⟨h.books, h.guarded, fun other hother hstands => ?_,
    fun other hother hstands found hfound session hsession hid => ?_, h.banned, h.gone⟩
  · rcases mem_append.mp hother with hold | hlast
    · exact h.standing other (mem_of_mem_erase hold) hstands
    · rw [mem_singleton.mp hlast] at hstands ⊢
      exact h.standing call hcall.1 hstands
  · rcases mem_append.mp hother with hold | hlast
    · exact h.found other (mem_of_mem_erase hold) hstands found hfound session hsession hid
    · rw [mem_singleton.mp hlast] at hfound hid
      have hlookup : s.server.lookup call.id = some session :=
        h.books.lookup_iff.mpr ⟨hsession, hid⟩
      rw [hlookup] at hfound
      exact (Option.some.inj hfound).symm

/-- The call returns when the session is gone. -/
theorem Sealed.kick (h : s.Sealed uuid) {call : BanCall ClientID}
    (hstep : s.step uuid (.kick call) = some s') : s'.Sealed uuid := by
  simp only [step] at hstep
  split at hstep
  · rename_i hcall
    obtain ⟨found, hfound, rfl⟩ := Option.map_eq_some_iff.mp hstep
    have hbooks : (s.kicked found).Books := by
      cases found with
      | none => exact h.books
      | some ref => exact h.books.kick ref
    have hsessions : ∀ c ∈ (s.kicked found).activeClients,
        c ∈ s.server.activeClients ∧ found ≠ some c.ref := by
      intro c hc
      cases found with
      | none => exact ⟨hc, fun heq => by cases heq⟩
      | some ref =>
        obtain ⟨hold, hne⟩ := ServerState.mem_kick h.books hc
        exact ⟨hold, fun heq => hne (Option.some.inj heq).symm⟩
    have hkept := h.server_step hbooks fun c hc _ =>
      ServerState.older_of_mem (hsessions c hc).1
    refine ⟨hkept.books, hkept.guarded,
      fun other hother => hkept.standing other (mem_of_mem_erase hother),
      fun other hother => hkept.found other (mem_of_mem_erase hother), ?_, ?_⟩
    · intro id hforce
      dsimp only at hforce
      split at hforce
      · exact h.banned id hforce
      · rename_i hstands
        rcases mem_append.mp hforce with hold | hlast
        · exact h.banned id hold
        · rw [mem_singleton.mp hlast]
          exact h.standing call hcall (Bool.not_eq_true _ ▸ hstands)
    · intro id hforce session hsession hid
      dsimp only at hforce
      split at hforce
      · exact hkept.gone id hforce session hsession hid
      · rename_i hstands
        rcases mem_append.mp hforce with hold | hlast
        · exact hkept.gone id hold session hsession hid
        · -- the look-up has found this session, and the kick has destroyed it
          rw [mem_singleton.mp hlast] at hid
          obtain ⟨hold, hne⟩ := hsessions session hsession
          have hstands : call.lapsed = false := Bool.not_eq_true _ ▸ hstands
          exact hne (h.found call hcall hstands found hfound session hold hid)
  · cases hstep

/-- The check keeps a banned client out. -/
theorem Sealed.step {action : BanAction ClientID} (h : s.Sealed uuid)
    (hunchecked : s.Unchecked uuid action) (hstep : s.step uuid action = some s') :
    s'.Sealed uuid := by
  cases action with
  | server action =>
    simp only [GuardedServer.step] at hstep
    split at hstep
    · cases hstep
    · rename_i hother
      obtain ⟨server, hserver, rfl⟩ := Option.map_eq_some_iff.mp hstep
      refine h.server_step (h.books.step hserver) fun c hc _ => ?_
      rcases (ServerState.step_effect h.books hserver).older hc with hold | ⟨a, fresh, rfl, -⟩
      · exact hold
      · exact absurd rfl hother
  | check a => exact h.check hstep
  | register a fresh => exact h.register hstep
  | insert id ttl => exact h.insert hunchecked hstep
  | find call => exact h.find hstep
  | kick call => exact h.kick hstep
  | unban id =>
    cases hstep
    refine Sealed.lapse h.books (fun a ha hnow => h.guarded a ha ?_) h.found h.gone
    unfold Banned at hnow ⊢
    dsimp only at hnow
    by_cases heq : uuid a.mac a.config.psk = id
    · rw [heq, update_self] at hnow
      cases hnow
    · rw [update_of_ne heq] at hnow
      exact hnow
  | banList =>
    cases hstep
    have hsame : ∀ id, Banned { s with banned := (fun id =>
        (s.banned id).filter fun expiry => ¬ Expired s.now expiry) } id ↔ s.Banned id := by
      intro id
      unfold Banned
      dsimp only
      cases s.banned id with
      | none => rfl
      | some expiry =>
        by_cases hexpired : Expired s.now expiry
        · simp [hexpired]
        · simp [hexpired]
    exact ⟨h.books, fun a ha hnow => h.guarded a ha ((hsame _).mp hnow),
      fun call hcall hstands => (hsame _).mpr (h.standing call hcall hstands), h.found,
      fun id hforce => (hsame _).mpr (h.banned id hforce), h.gone⟩
  | wait duration =>
    cases hstep
    refine Sealed.lapse h.books (fun a ha hnow => h.guarded a ha ?_) h.found h.gone
    unfold Banned at hnow ⊢
    obtain ⟨expiry, hentry, hstands⟩ := (Option.any_eq_true _ _).mp hnow
    refine (Option.any_eq_true _ _).mpr ⟨expiry, hentry, ?_⟩
    rw [decide_eq_true_eq] at hstands ⊢
    refine fun hexpired => hstands ⟨hexpired.1, hexpired.2.trans ?_⟩
    exact Nat.div_le_div_right (Nat.le_add_right _ _)

/-- Let every ban be inserted when no handshake of the client is between its check and its
registration. Then a client that is banned since a call of `Ban` has returned has no session. -/
theorem ban_effective (config : ServerConfig) (maxSessions : Nat) (v4 v6 : Nat × Nat) (now : Nat)
    {actions : List (BanAction ClientID)}
    (hunchecked : Along (step uuid) (Unchecked uuid) (new (.new config maxSessions v4 v6) now)
      actions)
    (hrun : run (step uuid) (new (.new config maxSessions v4 v6) now) actions = some s) :
    ∀ id ∈ s.inForce, s.server.lookup id = none := by
  have hpreserve : ∀ (s : GuardedServer ClientID) action s', s.Sealed uuid →
      s.Unchecked uuid action → s.step uuid action = some s' → s'.Sealed uuid :=
    fun _ _ _ hsealed hunchecked hstep => hsealed.step hunchecked hstep
  have hsealed := run_invariant hpreserve
    (sealed_new (ServerState.new_books config maxSessions v4 v6) now) hunchecked hrun
  exact fun id hforce => find_key_eq_none.mpr (hsealed.gone id hforce)

open ServerState (settings hello someMAC)

/-- The handshake of the client that the runs below ban. -/
def knock : Authenticated := ⟨settings "key", hello "key" 1 0, someMAC, none, none⟩

/-- The client of that handshake. -/
def knocker : MacKey × String := (someMAC, "key")

/-- The server of the runs below. -/
def closed : GuardedServer (MacKey × String) :=
  new (.new (settings "key") 8 (256, 256) (512, 256)) 1000000

/-- A client registers and is banned for good. -/
def banOnline : List (BanAction (MacKey × String)) :=
  [.server (.authenticate (hello "key" 1 0) someMAC none none), .check knock,
    .register knock ⟨1, [], [], 1⟩, .insert knocker 0, .find ⟨knocker, none, false⟩,
    .kick ⟨knocker, some (some 1), false⟩]

/-- The session of the banned client is gone. -/
theorem banned_client_offline :
    ∃ s, run (step Prod.mk) closed banOnline = some s ∧ s.inForce = [knocker] ∧
      s.server.lookup knocker = none := by
  obtain ⟨s, hrun, hforce⟩ : ∃ s, run (step Prod.mk) closed banOnline = some s ∧
      s.inForce = [knocker] :=
    exists_run_of_decide (by decide +kernel)
  have hgone := ban_effective (settings "key") 8 (256, 256) (512, 256) 1000000
    (by decide +kernel : Along (step Prod.mk) (Unchecked Prod.mk) closed banOnline) hrun
  exact ⟨s, hrun, hforce, hgone knocker (by simp [hforce])⟩

/-- The handshake passes the check, then the client is banned, then the handshake registers. -/
def banBetween : List (BanAction (MacKey × String)) :=
  [.server (.authenticate (hello "key" 1 0) someMAC none none), .check knock, .insert knocker 0,
    .find ⟨knocker, none, false⟩, .kick ⟨knocker, some none, false⟩,
    .register knock ⟨1, [], [], 1⟩]

/-- The call of `Ban` has returned, the ban is permanent, and the client has a session. -/
theorem ban_overtaken :
    ∃ s, run (step Prod.mk) closed banBetween = some s ∧ s.Banned knocker ∧
      s.inForce = [knocker] ∧ (s.server.lookup knocker).isSome = true :=
  exists_run_of_decide (by decide +kernel)

end GuardedServer

end TlsVpn.Server
