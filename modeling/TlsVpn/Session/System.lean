import TlsVpn.Port.Steps
import TlsVpn.Reorder.Buffer
import TlsVpn.Session.Client

/-!
# A client, its connections and its server

The client process with its sending port, its receive buffer and any number of physical
connections, and the server with the session of that client. Every connection goes through its
handshake at its own pace: it sends a request, the server answers, and some time later the client
processes the response under its session lock. With FEC the sender is reset inside that section;
without FEC it is reset after the lock has been released, and so is the receive buffer of a client
with a single connection. Only then does the connection register its backend.

A reset of the sender waits for the run loop to be idle. `adopted`, `registered` and `spent` are
history variables: the pairs of session and epoch the client has held, the connections that have
registered a backend, and the salts under which frames were sent before the last reset of the
sender. No step reads them.
-/

namespace TlsVpn.Session

open Lib Crypto Fec Port Reorder Function

/-- What a connection keeps from its handshake. -/
structure Linked where
  lv : LiveConfig
  resp : HandshakeResp
  ciphers : Ciphers
  decision : Adoption

/-- What a handshake still has to reset after the section. -/
inductive Owed where
  | sender
  | reorder
  deriving DecidableEq, Repr

/-- A physical connection of the client. -/
inductive Conn where
  | absent
  | requested (lv : LiveConfig) (req : HandshakeReq)
  | answered (lv : LiveConfig) (resp : HandshakeResp)
  | adopted (link : Linked) (owed : List Owed)
  | serving (link : Linked)
  | closed (link : Option Linked)

/-- What the handshake has left on the connection. -/
def Conn.linked : Conn → Option Linked
  | .adopted link _ | .serving link => some link
  | .closed link => link
  | .absent | .requested _ _ | .answered _ _ => none

/-- The client with its connections, and the server. -/
structure System where
  suite : Suite
  /-- The configured number of connections, fixed for the process. -/
  conns : Nat
  config : ServerConfig
  server : Option ServerSession
  /-- The session identifiers and the salts that the server has drawn. -/
  usedIDs : List Nat
  usedSalts : List Bytes
  live : LiveConfig
  instanceID : Nat
  session : ClientSession
  port : AsyncPort
  reorder : Receiver Bytes
  conn : Nat → Conn
  adopted : List (Nat × Nat)
  registered : List Nat
  spent : List Bytes

/-- The identity of a session in the client's state file. -/
structure Stored where
  sessionID : Nat
  sessionEpoch : Nat
  sessionToken : Nat
  deriving DecidableEq, Repr

namespace System

/-- A client process that starts with the identity an earlier process has stored, while the server
may still hold the session of that process. -/
def new (suite : Suite) (conns : Nat) (config : ServerConfig) (server : Option ServerSession)
    (live : LiveConfig) (instanceID : Nat) (stored : Stored) : System :=
  { suite
    conns
    config
    server
    usedIDs := stored.sessionID :: (server.map (·.sessionID)).toList
    usedSalts := (server.map (fun session => [session.saltA, session.saltB])).getD []
    live
    instanceID
    session :=
      { ClientSession.new with
        serverSessionID := stored.sessionID
        sessionEpoch := stored.sessionEpoch
        sessionToken := stored.sessionToken }
    port := .new
    reorder := .new
    conn := fun _ => .absent
    adopted := [(stored.sessionID, stored.sessionEpoch)]
    registered := []
    spent := [] }

/-- Writes a connection. -/
def setConn (s : System) (b : Nat) (conn : Conn) : System :=
  { s with conn := update s.conn b conn }

/-- The pair of session and epoch that the client has adopted. -/
def pair (s : System) : Nat × Nat := (s.session.serverSessionID, s.session.sessionEpoch)

/-- The salt under which the writer of a connection seals, if it does. -/
def salt (s : System) (b : Nat) : Option Bytes :=
  (s.conn b).linked.bind fun link => link.ciphers.tx.map fun ic => ic.salt

/-- Data frames have been handed to the connection. -/
def Carried (s : System) (b : Nat) : Prop := ∃ vf ∈ (s.port.stream b).flatten, vf.seq ≠ 0

instance (s : System) (b : Nat) : Decidable (s.Carried b) :=
  inferInstanceAs (Decidable (∃ vf ∈ (s.port.stream b).flatten, vf.seq ≠ 0))

/-- Reset the sender. -/
def resetSender (s : System) (k : Nat) (ic : Option InnerCipher) : System :=
  { s with
    port := s.port.resetEpoch k ic
    spent := s.spent ++ (s.registered.filter (fun b => decide (s.Carried b))).filterMap s.salt }

/-- Reset the receive buffer. -/
def resetReorder (s : System) : System := { s with reorder := ⟨s.reorder.buffer.reset, []⟩ }

/-- The server's random draws do not repeat. -/
def IsFresh (s : System) (fresh : Fresh) : Prop :=
  fresh.sessionID ≠ 0 ∧ fresh.sessionID ∉ s.usedIDs ∧ fresh.saltA ∉ s.usedSalts ∧
    fresh.saltB ∉ s.usedSalts ∧ fresh.saltA ≠ fresh.saltB ∧
    fresh.saltA.length = encSaltSize ∧ fresh.saltB.length = encSaltSize ∧ fresh.token ≠ 0

instance (s : System) (fresh : Fresh) : Decidable (s.IsFresh fresh) :=
  inferInstanceAs (Decidable (_ ∧ _ ∧ _ ∧ _ ∧ _ ∧ _ ∧ _ ∧ _))

/-! ## The handshake of a connection -/

/-- The client sends a request with its current settings. -/
def dial (s : System) (b : Nat) : Option System :=
  match s.conn b with
  | .absent =>
    some (s.setConn b (.requested s.live (s.live.request s.instanceID s.session.sessionToken)))
  | _ => none

/-- The server processes the request; a refused connection is closed. -/
def answer (s : System) (b : Nat) (fresh : Fresh) : Option System :=
  match s.conn b with
  | .requested lv req =>
    if ¬ s.IsFresh fresh then none
    else
      match handleConnection s.config s.server req fresh with
      | none => some (s.setConn b (.closed none))
      | some session =>
        some ({ s with
          server := some session
          usedIDs := fresh.sessionID :: s.usedIDs
          usedSalts := fresh.saltA :: fresh.saltB :: s.usedSalts }.setConn b
            (.answered lv (session.respond req)))
  | _ => none

/-- What a handshake resets after the section. -/
def owes (s : System) (decision : Adoption) : List Owed :=
  (if decision.isNewSession = true ∧ decision.useXorFec = false then [Owed.sender] else []) ++
    (if decision.isNewSession = true ∧ s.conns = 1 then [Owed.reorder] else [])

/-- The section under the session lock. -/
def enter (s : System) (b : Nat) (lv : LiveConfig) (resp : HandshakeResp) (ciphers : Ciphers) :
    System :=
  let decision := s.session.adoption lv resp ciphers.encAlgo
  let sender :=
    if decision.fecRebuild then s.resetSender (s.session.negotiated lv resp) ciphers.fecTx else s
  let receiver :=
    if decision.isNewSession = true ∧ s.conns ≠ 1 then sender.resetReorder else sender
  { receiver with
    session := s.session.adopt s.conns lv resp ciphers
    conn := update s.conn b (.adopted ⟨lv, resp, ciphers, decision⟩ (s.owes decision))
    adopted := s.adopted ++ [(resp.sessionID, resp.sessionEpoch)] }

/-- The client processes the response. -/
def adopt (s : System) (b : Nat) : Option System :=
  match s.conn b with
  | .answered lv resp =>
    match negotiateCiphers s.suite lv resp with
    | .error _ => some (s.setConn b (.closed none))
    | .ok ciphers =>
      if (s.session.adoption lv resp ciphers.encAlgo).fecRebuild = true ∧ s.port.phase ≠ .idle
      then none
      else some (s.enter b lv resp ciphers)
  | _ => none

/-- A reset that the handshake owes. -/
def settle (s : System) (b : Nat) : Option System :=
  match s.conn b with
  | .adopted link (.sender :: owed) =>
    if s.port.phase = .idle then some ((s.resetSender 0 none).setConn b (.adopted link owed))
    else none
  | .adopted link (.reorder :: owed) => some (s.resetReorder.setConn b (.adopted link owed))
  | _ => none

/-- The capacity of a connection's queue. -/
def connTxCapacity : Nat := 32

/-- The connection registers its backend and starts to serve. -/
def register (s : System) (b : Nat) : Option System :=
  match s.conn b with
  | .adopted link [] =>
    (s.port.step (.register b connTxCapacity)).map fun port =>
      { s with port, registered := s.registered ++ [b] }.setConn b (.serving link)
  | _ => none

/-- The connection ends. -/
def close (s : System) (b : Nat) : Option System :=
  match s.conn b with
  | .serving link =>
    some ({ s with port := s.port.unregisterOwnedBackend b }.setConn b (.closed (some link)))
  | .adopted link [] => some (s.setConn b (.closed (some link)))
  | .requested _ _ | .answered _ _ => some (s.setConn b (.closed none))
  | _ => none

/-- Take over newer state of the same session from the state file. -/
def refresh (s : System) (disk : Stored) : System :=
  if disk.sessionID = 0 ∨ disk.sessionToken = 0 then s
  else if disk.sessionID ≠ s.session.serverSessionID then s
  else if disk.sessionEpoch < s.session.sessionEpoch then s
  else if disk.sessionEpoch = s.session.sessionEpoch ∧ disk.sessionToken = s.session.sessionToken
  then s
  else
    { s with
      session :=
        { s.session with
          serverSessionID := disk.sessionID
          sessionEpoch := disk.sessionEpoch
          sessionToken := disk.sessionToken }
      adopted := s.adopted ++ [(disk.sessionID, disk.sessionEpoch)] }

/-! ## Steps -/

/-- The steps of the client and of the server. -/
inductive Action where
  | applyConfig (live : LiveConfig)
  | rotateInstance (instanceID : Nat)
  | exhaustServer (instanceID : Nat)
  | restartServer (config : ServerConfig)
  | refresh (disk : Stored)
  | dial (b : Nat)
  | answer (b : Nat) (fresh : Fresh)
  | adopt (b : Nat)
  | settle (b : Nat)
  | register (b : Nat)
  | close (b : Nat)
  | port (action : AsyncPort.Action)
  | arrive (call : Call Bytes)

/-- The steps of the port that belong to no handshake. -/
def portStep (s : System) : AsyncPort.Action → Option System
  | .register _ _ | .unregister _ | .reset _ _ => none
  | action => (s.port.step action).map (fun port => { s with port })

/-- The calls of the receive buffer that belong to no handshake. -/
def arrive (s : System) : Call Bytes → Option System
  | .reset | .close => none
  | call => (s.reorder.step call).map (fun reorder => { s with reorder })

/-- A step that cannot be taken gives none. -/
def step (s : System) : Action → Option System
  | .applyConfig live => some { s with live }
  | .rotateInstance instanceID => some { s with instanceID }
  | .exhaustServer instanceID =>
    some { s with server := s.server.map (fun session => { session with instanceID }) }
  | .restartServer config => some { s with config, server := none }
  | .refresh disk => some (s.refresh disk)
  | .dial b => s.dial b
  | .answer b fresh => s.answer b fresh
  | .adopt b => s.adopt b
  | .settle b => s.settle b
  | .register b => s.register b
  | .close b => s.close b
  | .port action => s.portStep action
  | .arrive call => s.arrive call

/-! ## What a step has done -/

variable {s s' : System} {b : Nat}

theorem dial_eq_some (h : s.dial b = some s') :
    s.conn b = .absent ∧
      s' = s.setConn b
        (.requested s.live (s.live.request s.instanceID s.session.sessionToken)) := by
  unfold dial at h
  split at h
  · rename_i habsent
    cases h
    exact ⟨habsent, rfl⟩
  · cases h

/-- The server has refused the request, or it has a session and the connection has a response. -/
theorem answer_eq_some {fresh : Fresh} (h : s.answer b fresh = some s') :
    ∃ lv req, s.conn b = .requested lv req ∧ s.IsFresh fresh ∧
      (s' = s.setConn b (.closed none) ∨
        ∃ session, handleConnection s.config s.server req fresh = some session ∧
          s' = { s with
            server := some session
            usedIDs := fresh.sessionID :: s.usedIDs
            usedSalts := fresh.saltA :: fresh.saltB :: s.usedSalts }.setConn b
              (.answered lv (session.respond req))) := by
  unfold answer at h
  split at h
  · rename_i lv req hconn
    split at h
    · cases h
    · rename_i hfresh
      refine ⟨lv, req, hconn, not_not.mp hfresh, ?_⟩
      split at h
      · cases h
        exact .inl rfl
      · rename_i session hsession
        cases h
        exact .inr ⟨session, hsession, rfl⟩
  · cases h

/-- The response has been rejected, or the section has been entered with its ciphers. -/
theorem adopt_eq_some (h : s.adopt b = some s') :
    ∃ lv resp, s.conn b = .answered lv resp ∧
      (s' = s.setConn b (.closed none) ∨
        ∃ ciphers, negotiateCiphers s.suite lv resp = .ok ciphers ∧
          ((s.session.adoption lv resp ciphers.encAlgo).fecRebuild = true →
            s.port.phase = .idle) ∧
          s' = s.enter b lv resp ciphers) := by
  unfold adopt at h
  split at h
  · rename_i lv resp hconn
    refine ⟨lv, resp, hconn, ?_⟩
    split at h
    · cases h
      exact .inl rfl
    · rename_i ciphers hciphers
      obtain ⟨hguard, rfl⟩ := of_blocked h
      refine .inr ⟨ciphers, hciphers, fun hrebuild => ?_, rfl⟩
      by_contra hbusy
      exact hguard ⟨hrebuild, hbusy⟩
  · cases h

theorem settle_eq_some (h : s.settle b = some s') :
    ∃ link owed,
      (s.conn b = .adopted link (.sender :: owed) ∧ s.port.phase = .idle ∧
        s' = (s.resetSender 0 none).setConn b (.adopted link owed)) ∨
      (s.conn b = .adopted link (.reorder :: owed) ∧
        s' = s.resetReorder.setConn b (.adopted link owed)) := by
  unfold settle at h
  split at h
  · rename_i link owed hconn
    obtain ⟨hidle, rfl⟩ := of_guarded h
    exact ⟨link, owed, .inl ⟨hconn, hidle, rfl⟩⟩
  · rename_i link owed hconn
    cases h
    exact ⟨link, owed, .inr ⟨hconn, rfl⟩⟩
  · cases h

theorem register_eq_some (h : s.register b = some s') :
    ∃ link, s.conn b = .adopted link [] ∧ (s.port.backend b).created = false ∧
      s' = { s with
        port := s.port.registerOwnedBackend b connTxCapacity
        registered := s.registered ++ [b] }.setConn b (.serving link) := by
  unfold register at h
  split at h
  · rename_i link hconn
    obtain ⟨port, hport, hs'⟩ := Option.map_eq_some_iff.mp h
    obtain ⟨hnew, rfl⟩ := of_blocked hport
    exact ⟨link, hconn, Bool.eq_false_iff.mpr hnew, hs'.symm⟩
  · cases h

/-- A connection ends with the link it had. -/
theorem close_eq_some (h : s.close b = some s') :
    (∃ link, s.conn b = .serving link ∧
      s' = { s with port := s.port.unregisterOwnedBackend b }.setConn b (.closed (some link))) ∨
    s' = s.setConn b (.closed (s.conn b).linked) := by
  unfold close at h
  split at h
  · rename_i link hconn
    cases h
    exact .inl ⟨link, hconn, rfl⟩
  · rename_i link hconn
    cases h
    rw [hconn]
    exact .inr rfl
  · rename_i lv req hconn
    cases h
    rw [hconn]
    exact .inr rfl
  · rename_i lv resp hconn
    cases h
    rw [hconn]
    exact .inr rfl
  · cases h

/-- The port is registered with and reset by handshakes only. -/
theorem port_step_eq_some {action : AsyncPort.Action} (h : s.portStep action = some s') :
    (∀ b capacity, action ≠ .register b capacity) ∧ (∀ b, action ≠ .unregister b) ∧
      (∀ k ic, action ≠ .reset k ic) ∧
      ∃ port, s.port.step action = some port ∧ s' = { s with port } := by
  unfold portStep at h
  split at h
  · cases h
  · cases h
  · cases h
  · rename_i hregister hunregister hreset
    obtain ⟨port, hport, hs'⟩ := Option.map_eq_some_iff.mp h
    exact ⟨fun b capacity => hregister b capacity, fun b => hunregister b,
      fun k ic => hreset k ic, port, hport, hs'.symm⟩

theorem arrive_eq_some {call : Call Bytes} (h : s.arrive call = some s') :
    ∃ reorder, s' = { s with reorder } := by
  unfold arrive at h
  split at h
  · cases h
  · cases h
  · obtain ⟨reorder, -, hs'⟩ := Option.map_eq_some_iff.mp h
    exact ⟨reorder, hs'.symm⟩

/-- The connection that an action moves on. -/
def Action.target : Action → Option Nat
  | .dial b | .answer b _ | .adopt b | .settle b | .register b | .close b => some b
  | .applyConfig _ | .rotateInstance _ | .exhaustServer _ | .restartServer _ | .refresh _ |
    .port _ | .arrive _ => none

/-- The other connections stay as they are. -/
theorem conn_of_target_ne {action : Action} (hstep : s.step action = some s')
    (hne : action.target ≠ some b) : s'.conn b = s.conn b := by
  cases action with
  | applyConfig | rotateInstance | exhaustServer | restartServer => cases hstep; rfl
  | refresh disk =>
    cases hstep
    show (s.refresh disk).conn b = _
    unfold refresh
    repeat' split
    all_goals rfl
  | dial x =>
    obtain ⟨-, rfl⟩ := dial_eq_some hstep
    exact update_of_ne (fun heq => hne (by rw [heq]; rfl)) ..
  | answer x fresh =>
    obtain ⟨lv, req, -, -, rfl | ⟨session, -, rfl⟩⟩ := answer_eq_some hstep
    · exact update_of_ne (fun heq => hne (by rw [heq]; rfl)) ..
    · exact update_of_ne (fun heq => hne (by rw [heq]; rfl)) ..
  | adopt x =>
    obtain ⟨lv, resp, -, rfl | ⟨ciphers, -, -, rfl⟩⟩ := adopt_eq_some hstep
    · exact update_of_ne (fun heq => hne (by rw [heq]; rfl)) ..
    · exact update_of_ne (fun heq => hne (by rw [heq]; rfl)) ..
  | settle x =>
    obtain ⟨link, owed, ⟨-, -, rfl⟩ | ⟨-, rfl⟩⟩ := settle_eq_some hstep
    · exact update_of_ne (fun heq => hne (by rw [heq]; rfl)) ..
    · exact update_of_ne (fun heq => hne (by rw [heq]; rfl)) ..
  | register x =>
    obtain ⟨link, -, -, rfl⟩ := register_eq_some hstep
    exact update_of_ne (fun heq => hne (by rw [heq]; rfl)) ..
  | close x =>
    rcases close_eq_some hstep with ⟨link, -, rfl⟩ | rfl
    · exact update_of_ne (fun heq => hne (by rw [heq]; rfl)) ..
    · exact update_of_ne (fun heq => hne (by rw [heq]; rfl)) ..
  | port action =>
    obtain ⟨-, -, -, port, -, rfl⟩ := port_step_eq_some hstep
    rfl
  | arrive call =>
    obtain ⟨reorder, rfl⟩ := arrive_eq_some hstep
    rfl

/-! ## What the section changes -/

section Enter

variable (s : System) (b : Nat) (lv : LiveConfig) (resp : HandshakeResp) (ciphers : Ciphers)

/-- The section touches the port only to reset it for a new decoder. -/
theorem enter_port :
    (s.enter b lv resp ciphers).port =
      if (s.session.adoption lv resp ciphers.encAlgo).fecRebuild then
        s.port.resetEpoch (s.session.negotiated lv resp) ciphers.fecTx
      else s.port := by
  unfold enter
  dsimp only
  split
  · split
    · rfl
    · rfl
  · split
    · rfl
    · rfl

theorem enter_spent :
    (s.enter b lv resp ciphers).spent =
      if (s.session.adoption lv resp ciphers.encAlgo).fecRebuild then
        (s.resetSender (s.session.negotiated lv resp) ciphers.fecTx).spent
      else s.spent := by
  unfold enter
  dsimp only
  split
  · split
    · rfl
    · rfl
  · split
    · rfl
    · rfl

theorem enter_registered : (s.enter b lv resp ciphers).registered = s.registered := by
  unfold enter
  dsimp only
  split
  · split
    · rfl
    · rfl
  · split
    · rfl
    · rfl

theorem enter_settings :
    (s.enter b lv resp ciphers).live = s.live ∧ (s.enter b lv resp ciphers).server = s.server := by
  unfold enter
  dsimp only
  split
  · split
    · exact ⟨rfl, rfl⟩
    · exact ⟨rfl, rfl⟩
  · split
    · exact ⟨rfl, rfl⟩
    · exact ⟨rfl, rfl⟩

theorem enter_usedIDs : (s.enter b lv resp ciphers).usedIDs = s.usedIDs := by
  unfold enter
  dsimp only
  split <;> split <;> rfl

theorem enter_conn :
    (s.enter b lv resp ciphers).conn =
      update s.conn b
        (.adopted ⟨lv, resp, ciphers, s.session.adoption lv resp ciphers.encAlgo⟩
          (s.owes (s.session.adoption lv resp ciphers.encAlgo))) :=
  rfl

end Enter

/-! ## Concrete clients and servers -/

/-- Primitives whose ciphertext is the plaintext and an empty tag. -/
def clearSuite : Suite :=
  { aeadFor := fun _ _ _ =>
      { overhead := aeadTagSize
        sealWith := fun _ plaintext _ => plaintext ++ List.replicate aeadTagSize 0
        openWith := fun _ ciphertext _ => some (ciphertext.take (ciphertext.length - aeadTagSize)) }
    xnonceFor := id }

/-- The server's settings, with or without inner encryption. -/
def serverSettings (encrypt : Bool) : ServerConfig :=
  { psk := "key", encrypt, encAlgo := .gcm, minEnc := false, fecGroupMin := 2, fecGroupMax := 64 }

/-- The client's settings, without FEC for group size `0`. -/
def clientSettings (encrypt : Bool) (fecGroup : Nat) : LiveConfig :=
  { psk := "key", encrypt, encAlgo := .gcm, minEnc := false, fecMode := fecGroup ≠ 0, fecGroup }

/-- A first start of the client, before the server has a session for it. -/
def firstStart (encrypt : Bool) (fecGroup conns : Nat) : System :=
  new clearSuite conns (serverSettings encrypt) none (clientSettings encrypt fecGroup) 1 ⟨0, 0, 0⟩

/-- What the server draws, by number. -/
def draw (n : Nat) : Fresh :=
  { sessionID := n
    saltA := List.replicate encSaltSize (UInt8.ofNat (2 * n))
    saltB := List.replicate encSaltSize (UInt8.ofNat (2 * n + 1))
    token := n }

/-- A frame is written, numbered and dispatched to a connection. -/
def sendFrame (data : Bytes) (b : Nat) : List Action :=
  [.port (.write data), .port .takeFrame, .port .gotSlot, .port (.dispatch ⟨b, [], []⟩)]

end System

end TlsVpn.Session
