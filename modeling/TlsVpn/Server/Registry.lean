import Mathlib.Data.Finset.Dedup
import Mathlib.Data.Finset.Insert
import TlsVpn.Server.Isolation
import TlsVpn.Session.Handshake

/-!
# The sessions of the server

Translation of the critical sections of `Server.handleConnection` (registration and cleanup), the
destroy timer, `kickSession`, `destroySessionLocked`, `assignIPsLocked` and `ApplyConfig`. Each of
them holds the lock of the server, so that a step of the model is one critical section. A handshake
is authenticated with the settings it has read before, and is registered in a later step.

Sessions, their ports and timers are objects that the code compares by address; a session has a
number for this, which its port shares. An address is a number within its family, and what a request
asks for is none if it is no address of the family. Deriving the name of a client from its MAC and
the pre-shared key is a function that the model is given.
-/

namespace TlsVpn.Server

open Lib Session

/-! ## Addresses -/

/-- A network with the addresses that are taken. -/
structure Pool where
  first : Nat
  size : Nat
  used : Finset Nat

namespace Pool

/-- The address is in the network. -/
def Contains (p : Pool) (ip : Nat) : Prop := p.first ≤ ip ∧ ip < p.first + p.size

instance (p : Pool) (ip : Nat) : Decidable (p.Contains ip) := inferInstanceAs (Decidable (_ ∧ _))

/-- The address after the one of the network. -/
def gateway (p : Pool) : Nat := p.first + 1

/-- The network with its gateway taken. -/
def new (first size : Nat) : Pool := { first, size, used := {first + 1} }

/-- The first free address from one on, but not one that ends in `0` or `255`. -/
def scan (used : Finset Nat) : Nat → Nat → Option Nat
  | 0, _ => none
  | n + 1, ip =>
    if ip ∉ used ∧ ip % 256 ≠ 0 ∧ ip % 256 ≠ 255 then some ip else scan used n (ip + 1)

/-- An address is taken. -/
def take (p : Pool) (ip : Nat) : Pool := { p with used := insert ip p.used }

/-- An address is free again. -/
def release (p : Pool) (ip : Nat) : Pool := { p with used := p.used.erase ip }

/-- The requested address if it is free, or else the first free one. -/
def alloc (p : Pool) (req : Option Nat) : Option (Nat × Pool) :=
  match req.filter fun ip => p.Contains ip ∧ ip ∉ p.used with
  | some ip => some (ip, p.take ip)
  | none => (scan p.used p.size p.first).map fun ip => (ip, p.take ip)

end Pool

/-! ## The state -/

/-- The name of a port: the TAP device or a client. -/
inductive PortName (ClientID : Type) where
  | tap
  | client (id : ClientID)
  deriving DecidableEq

/-- A destroy timer, with what its callback has captured. -/
structure Timer (ClientID : Type) where
  id : Nat
  session : Nat
  clientID : ClientID
  deriving DecidableEq

/-- A session of the server. -/
structure ClientSession (ClientID : Type) where
  /-- The number of the object, and of its port. -/
  ref : Nat
  clientID : ClientID
  /-- The keys, the epoch and the tokens. -/
  core : ServerSession
  mac : MacKey
  ipv4 : Nat
  ipv6 : Nat
  activeConns : Int
  destroyTimer : Option (Timer ClientID)

/-- A connection whose cleanup has not run, with what it has captured. -/
structure ConnInfo (ClientID : Type) where
  session : Nat
  clientID : ClientID
  epoch : Nat
  deriving DecidableEq

/-- A request that has passed the checks against the settings it was compared with. -/
structure Authenticated where
  config : ServerConfig
  req : HandshakeReq
  mac : MacKey
  ipv4 : Option Nat
  ipv6 : Option Nat
  deriving DecidableEq

/-- The state under the lock of the server. -/
structure ServerState (ClientID : Type) where
  config : ServerConfig
  maxSessions : Nat
  v4 : Pool
  v6 : Pool
  activeClients : List (ClientSession ClientID)
  macToIP : MacKey → Option (Nat × Nat)
  switch : VSwitch (PortName ClientID)
  /-- Handshakes between their authentication and their registration. -/
  waiting : List Authenticated
  conns : List (ConnInfo ClientID)
  /-- Timers that run, and timers that have fired and wait for the lock. -/
  armed : List (Timer ClientID)
  fired : List (Timer ClientID)
  nextRef : Nat
  nextTimer : Nat

/-- The limit of an address, and of a session. -/
def maxConnectionsPerIP : Int := 16

namespace ServerState

variable {ClientID : Type} [DecidableEq ClientID]

/-- A server without sessions. The TAP port has the number `0`. -/
def new (config : ServerConfig) (maxSessions : Nat) (v4 v6 : Nat × Nat) : ServerState ClientID :=
  { config
    maxSessions
    v4 := .new v4.1 v4.2
    v6 := .new v6.1 v6.2
    activeClients := []
    macToIP := fun _ => none
    switch := (VSwitch.new .tap).addPort .tap 0
    waiting := []
    conns := []
    armed := []
    fired := []
    nextRef := 1
    nextTimer := 0 }

/-- The session of a client. -/
def lookup (s : ServerState ClientID) (id : ClientID) : Option (ClientSession ClientID) :=
  findKey ClientSession.clientID s.activeClients id

/-- Changes the session of a client. -/
def update (s : ServerState ClientID) (session : ClientSession ClientID) : ServerState ClientID :=
  { s with
    activeClients := updateKey ClientSession.clientID s.activeClients session.clientID
      fun _ => session }

/-! ## Critical sections -/

/-- Forgets the addresses of a MAC, if they are still those of the session. -/
def macToIPClean (s : ServerState ClientID) (mac : MacKey) (ip : Nat) : ServerState ClientID :=
  { s with
    macToIP := Function.update s.macToIP mac ((s.macToIP mac).filter fun bind => bind.1 ≠ ip) }

/-- Destroys a session that is still the one of its client. -/
def destroySession (s : ServerState ClientID) (session : ClientSession ClientID) :
    ServerState ClientID :=
  match s.lookup session.clientID with
  | none => s
  | some current =>
    if current.ref ≠ session.ref then s
    else
      { s with
        v4 := s.v4.release session.ipv4
        v6 := s.v6.release session.ipv6
        activeClients := s.activeClients.filter fun c => c.clientID ≠ session.clientID
        switch := s.switch.removePort (.client session.clientID) }.macToIPClean
          session.mac session.ipv4

/-- Both addresses of a session, or none of them. -/
def assignIPs (s : ServerState ClientID) (reqV4 reqV6 : Option Nat) :
    Option (Nat × Nat) × ServerState ClientID :=
  match s.v4.alloc reqV4 with
  | none => (none, s)
  | some (v4ip, v4) =>
    match s.v6.alloc reqV6 with
    | none => (none, { s with v4 := v4.release v4ip })
    | some (v6ip, v6) => (some (v4ip, v6ip), { s with v4, v6 })

/-- Registers a connection of a session. -/
def link (s : ServerState ClientID) (session : ClientSession ClientID) : ServerState ClientID :=
  { s with conns := s.conns ++ [⟨session.ref, session.clientID, session.core.epoch⟩] }

/-- A new session for a client, unless there are too many sessions or no addresses. -/
def create (s : ServerState ClientID) (id : ClientID) (a : Authenticated)
    (ips : Option Nat × Option Nat)
    (fresh : Fresh) : ServerState ClientID :=
  if 0 < s.maxSessions ∧ s.maxSessions ≤ s.activeClients.length then s
  else
    match s.assignIPs ips.1 ips.2 with
    | (none, s) => s
    | (some (v4ip, v6ip), s) =>
      let session : ClientSession ClientID :=
        { ref := s.nextRef
          clientID := id
          core := .create a.config a.req fresh
          mac := a.mac
          ipv4 := v4ip
          ipv6 := v6ip
          activeConns := 1
          destroyTimer := none }
      link { s with
        activeClients := session :: s.activeClients
        macToIP := Function.update s.macToIP a.mac (some (v4ip, v6ip))
        switch := (s.switch.addPort (.client id) session.ref).addStaticMAC (.client id) a.mac
        nextRef := s.nextRef + 1 } session

/-- Stops a timer, which does nothing if it has fired. -/
def stopTimer (s : ServerState ClientID) (timer : Option (Timer ClientID)) : ServerState ClientID :=
  { s with armed := s.armed.filter fun t => some t ≠ timer }

/-- A connection joins a session, unless it has too many. A new instance has rotated the epoch,
which starts without connections. -/
def joinSession (s : ServerState ClientID) (session : ClientSession ClientID) (core : ServerSession)
    (rotated : Prop) [Decidable rotated] : ServerState ClientID :=
  let active := if rotated then 0 else session.activeConns
  let s := s.stopTimer session.destroyTimer
  if active ≥ maxConnectionsPerIP then
    s.update { session with core, activeConns := active, destroyTimer := none }
  else
    let joined := { session with core, activeConns := active + 1, destroyTimer := none }
    (s.update joined).link joined

/-- The registration of an authenticated handshake. -/
def register (s : ServerState ClientID) (id : ClientID) (a : Authenticated) (fresh : Fresh) :
    ServerState ClientID :=
  let ips := match s.macToIP a.mac with
    | some bind => (some bind.1, some bind.2)
    | none => (a.ipv4, a.ipv6)
  match s.lookup id with
  | none => s.create id a ips fresh
  | some session =>
    if a.mac ≠ session.mac then s
    else if session.core.psk ≠ a.config.psk then (s.destroySession session).create id a ips fresh
    else
      match session.core.join a.req fresh with
      | none => s
      | some core => s.joinSession session core (session.core.instanceID ≠ a.req.clientInstance)

/-- The cleanup of a connection. The last connection of a session starts its destroy timer. -/
def cleanup (s : ServerState ClientID) (c : ConnInfo ClientID) : ServerState ClientID :=
  let s := { s with conns := s.conns.erase c }
  match s.lookup c.clientID with
  | none => s
  | some session =>
    if session.ref ≠ c.session ∨ c.epoch ≠ session.core.epoch then s
    else if session.activeConns - 1 ≤ 0 then
      let timer : Timer ClientID := ⟨s.nextTimer, session.ref, session.clientID⟩
      { s with armed := s.armed ++ [timer], nextTimer := s.nextTimer + 1 }.update
        { session with activeConns := session.activeConns - 1, destroyTimer := some timer }
    else s.update { session with activeConns := session.activeConns - 1 }

/-- The callback of a destroy timer. -/
def timeout (s : ServerState ClientID) (t : Timer ClientID) : ServerState ClientID :=
  let s := { s with fired := s.fired.erase t }
  match s.lookup t.clientID with
  | none => s
  | some session =>
    if session.ref = t.session ∧ session.activeConns ≤ 0 then s.destroySession session else s

/-- Kicks the session with a number. -/
def kickSession (s : ServerState ClientID) (ref : Nat) : ServerState ClientID :=
  match s.activeClients.find? fun c => c.ref = ref with
  | none => s
  | some session => (s.stopTimer session.destroyTimer).destroySession session

/-- The numbers of a port are used up: the next handshake counts as one of a new instance. -/
def sequenceExhausted (s : ServerState ClientID) (ref instanceID : Nat) : ServerState ClientID :=
  match s.activeClients.find? fun c => c.ref = ref with
  | none => s
  | some session => s.update { session with core := { session.core with instanceID } }

/-! ## Runs -/

/-- A session as the switch knows it. -/
def registered (c : ClientSession ClientID) : Registered (PortName ClientID) :=
  ⟨.client c.clientID, c.ref, c.mac⟩

/-- The critical sections, and what the switch does. -/
inductive Action (ClientID : Type) where
  | authenticate (req : HandshakeReq) (mac : MacKey) (ipv4 ipv6 : Option Nat)
  | register (a : Authenticated) (fresh : Fresh)
  | cleanup (c : ConnInfo ClientID)
  | fire (t : Timer ClientID)
  | timeout (t : Timer ClientID)
  | kick (ref : Nat)
  | sequenceExhausted (ref instanceID : Nat)
  | applyConfig (config : ServerConfig) (maxSessions : Nat)
  | frame (origin : Origin (PortName ClientID)) (raw : Bytes) (now : Nat)
  | tick

/-- The name and the MAC of the port that a frame comes from. A session has a MAC. -/
def Origin.port : Origin (PortName ClientID) → Option (PortName ClientID × Option MacKey)
  | .session r => if r.mac ≠ .zero then some (r.id, some r.mac) else none
  | .tap => some (.tap, none)

/-- The steps of the server, with the function that names the clients. -/
def step (uuid : MacKey → String → ClientID) (s : ServerState ClientID) :
    Action ClientID → Option (ServerState ClientID)
  | .authenticate req mac ipv4 ipv6 =>
    if s.config.Admits req ∧ mac ≠ .zero ∧ mac.IsUnicast then
      some { s with waiting := s.waiting ++ [⟨s.config, req, mac, ipv4, ipv6⟩] }
    else none
  | .register a fresh =>
    if a ∈ s.waiting then
      some ({ s with waiting := s.waiting.erase a }.register (uuid a.mac a.config.psk) a fresh)
    else none
  | .cleanup c => if c ∈ s.conns then some (s.cleanup c) else none
  | .fire t =>
    if t ∈ s.armed then some { s with armed := s.armed.erase t, fired := s.fired ++ [t] }
    else none
  | .timeout t => if t ∈ s.fired then some (s.timeout t) else none
  | .kick ref => some (s.kickSession ref)
  | .sequenceExhausted ref instanceID => some (s.sequenceExhausted ref instanceID)
  | .applyConfig config maxSessions => some { s with config, maxSessions }
  | .frame origin raw now =>
    (Origin.port origin).map fun (src, registeredMAC) =>
      { s with
        switch := (s.switch.processFrame
          (Net.validateSrcMAC (s.activeClients.map registered)) src raw registeredMAC now).1 }
  | .tick => some { s with switch := s.switch.tick }

end ServerState

end TlsVpn.Server
