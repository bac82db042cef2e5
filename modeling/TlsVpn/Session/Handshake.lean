import TlsVpn.Fec.Decoder

/-!
# The handshake

Translation of the parts of `Server.handleConnection`, `Server.rotateSessionEpochLocked` and
`Client.dialAndServe` that decide the session of a client: what a request is refused for, when the
server creates, joins or rotates a session, and what a client does with the response under its
session lock.

Identifiers, client instances and tokens are numbers that are only compared, `0` standing for the
empty string; what the server draws at random comes in as `Fresh`. A salt is the byte string that
the response carries in hexadecimal. The pre-shared key stands for its hash. Addresses, rates and
the other clients of the server do not take part in these decisions.
-/

namespace TlsVpn.Session

open Lib Crypto Fec

/-- The wire identifier of a negotiated algorithm, `0` without inner encryption. -/
def encAlgoCode : Option EncAlgo → Nat
  | none => 0
  | some .gcm => 2
  | some .gcm128 => 4
  | some .chaCha20 => 5
  | some .xChaCha20 => 6

/-- The name of an algorithm. -/
def encAlgoLabel : Option EncAlgo → String
  | none => "none"
  | some .gcm => "gcm256"
  | some .gcm128 => "gcm128"
  | some .chaCha20 => "chacha20"
  | some .xChaCha20 => "xchacha20"

/-- A request. -/
structure HandshakeReq where
  clientInstance : Nat
  psk : String
  fec : Bool
  fecGroup : Nat
  encrypt : Bool
  encAlgo : Option EncAlgo
  sessionToken : Nat
  deriving DecidableEq, Repr

/-- A response. -/
structure HandshakeResp where
  sessionID : Nat
  sessionEpoch : Nat
  fec : Bool
  fecGroup : Nat
  encrypt : Bool
  encAlgo : Option EncAlgo
  /-- The salt of the direction from client to server, empty without encryption. -/
  encSalt : Bytes
  encSalt2 : Bytes
  sessionToken : Nat
  deriving DecidableEq, Repr

/-! ## The server -/

/-- The settings that a request is compared with. -/
structure ServerConfig where
  psk : String
  encrypt : Bool
  encAlgo : EncAlgo
  /-- An inner cipher is required. -/
  minEnc : Bool
  fecGroupMin : Nat
  fecGroupMax : Nat
  deriving DecidableEq, Repr

/-- What the server draws at random for a session or an epoch. -/
structure Fresh where
  sessionID : Nat
  saltA : Bytes
  saltB : Bytes
  token : Nat
  deriving DecidableEq, Repr

/-- The session of a client. -/
structure ServerSession where
  sessionID : Nat
  epoch : Nat
  instanceID : Nat
  psk : String
  encrypt : Bool
  encAlgo : Option EncAlgo
  saltA : Bytes
  saltB : Bytes
  fecEncK : Nat
  resumeToken : Nat
  pendingResumeToken : Nat
  deriving DecidableEq, Repr

/-- The checks that a request has to pass before the session is looked up. -/
def ServerConfig.Admits (cfg : ServerConfig) (req : HandshakeReq) : Prop :=
  req.psk = cfg.psk ∧ req.encrypt = cfg.encrypt ∧
    ¬ (cfg.encrypt = true ∧ cfg.minEnc = true ∧ req.encAlgo = none) ∧
    ¬ (cfg.encrypt = true ∧ req.encAlgo ≠ some cfg.encAlgo) ∧
    ¬ (req.fec = true ∧ (req.fecGroup < cfg.fecGroupMin ∨ req.fecGroup > cfg.fecGroupMax)) ∧
    req.clientInstance ≠ 0

instance (cfg : ServerConfig) (req : HandshakeReq) : Decidable (cfg.Admits req) :=
  inferInstanceAs (Decidable (_ ∧ _ ∧ _ ∧ _ ∧ _ ∧ _))

namespace ServerSession

/-- The current or the pending token admits a new client instance; presenting the pending one makes
it current. -/
def acceptSessionResumeToken (s : ServerSession) (presented : Nat) : Option ServerSession :=
  if presented ≠ 0 ∧ presented = s.resumeToken then some s
  else if s.pendingResumeToken ≠ 0 ∧ presented = s.pendingResumeToken then
    some { s with resumeToken := s.pendingResumeToken, pendingResumeToken := 0 }
  else none

/-- A pending token stays until it is acknowledged. -/
def ensurePendingResumeToken (s : ServerSession) (fresh : Fresh) : ServerSession :=
  if s.pendingResumeToken ≠ 0 then s else { s with pendingResumeToken := fresh.token }

/-- The pending token, if there is one. -/
def responseResumeToken (s : ServerSession) : Nat :=
  if s.pendingResumeToken ≠ 0 then s.pendingResumeToken else s.resumeToken

/-- The new key epoch of a session. -/
def rotateSessionEpoch (s : ServerSession) (instanceID : Nat) (fresh : Fresh) : ServerSession :=
  { s with saltA := fresh.saltA, saltB := fresh.saltB, instanceID, epoch := s.epoch + 1 }

/-- A later connection of the same instance that presents the pending token acknowledges it. -/
def acknowledge (s : ServerSession) (presented : Nat) : ServerSession :=
  if s.pendingResumeToken ≠ 0 ∧ presented = s.pendingResumeToken then
    { s with resumeToken := s.pendingResumeToken, pendingResumeToken := 0 }
  else s

/-- A connection joins the session, or rotates its epoch if it comes from a new instance. -/
def join (s : ServerSession) (req : HandshakeReq) (fresh : Fresh) : Option ServerSession :=
  if s.encAlgo ≠ req.encAlgo then none
  else if s.instanceID ≠ req.clientInstance then
    (s.acceptSessionResumeToken req.sessionToken).map fun accepted =>
      (accepted.rotateSessionEpoch req.clientInstance fresh).ensurePendingResumeToken fresh
  else some (s.acknowledge req.sessionToken)

/-- A session keeps its identifier and its key when a connection joins it, and rotates its epoch for
a new instance. -/
theorem join_keeps {s s' : ServerSession} {req : HandshakeReq} {fresh : Fresh}
    (h : s.join req fresh = some s') :
    (s'.sessionID = s.sessionID ∧ s'.psk = s.psk) ∧
      s'.epoch = if s.instanceID ≠ req.clientInstance then s.epoch + 1 else s.epoch := by
  unfold join at h
  split at h
  · cases h
  · split at h
    · obtain ⟨accepted, haccept, rfl⟩ := Option.map_eq_some_iff.mp h
      have haccepted : (accepted.sessionID = s.sessionID ∧ accepted.psk = s.psk) ∧
          accepted.epoch = s.epoch := by
        unfold acceptSessionResumeToken at haccept
        split at haccept
        · cases haccept
          exact ⟨⟨rfl, rfl⟩, rfl⟩
        · split at haccept
          · cases haccept
            exact ⟨⟨rfl, rfl⟩, rfl⟩
          · cases haccept
      unfold ensurePendingResumeToken
      split
      · exact ⟨haccepted.1, congrArg (· + 1) haccepted.2⟩
      · exact ⟨haccepted.1, congrArg (· + 1) haccepted.2⟩
    · cases h
      unfold acknowledge
      split
      · exact ⟨⟨rfl, rfl⟩, rfl⟩
      · exact ⟨⟨rfl, rfl⟩, rfl⟩

/-- The session made for the first connection of a client. A token that the client presents is kept,
for the server may have lost the session it belonged to. -/
def create (cfg : ServerConfig) (req : HandshakeReq) (fresh : Fresh) : ServerSession :=
  { sessionID := fresh.sessionID
    epoch := 1
    instanceID := req.clientInstance
    psk := cfg.psk
    encrypt := cfg.encrypt
    encAlgo := if cfg.encrypt then some cfg.encAlgo else none
    saltA := fresh.saltA
    saltB := fresh.saltB
    fecEncK := if req.fec then req.fecGroup else 0
    resumeToken := if req.sessionToken ≠ 0 then req.sessionToken else fresh.token
    pendingResumeToken := 0 }

/-- The response for a connection of the session. It echoes the request's FEC flag next to the
session's group size, and carries salts only with encryption. -/
def respond (s : ServerSession) (req : HandshakeReq) : HandshakeResp :=
  { sessionID := s.sessionID
    sessionEpoch := s.epoch
    fec := req.fec
    fecGroup := s.fecEncK
    encrypt := s.encrypt
    encAlgo := s.encAlgo
    encSalt := if s.encAlgo.isSome then s.saltA else []
    encSalt2 := if s.encAlgo.isSome then s.saltB else []
    sessionToken := s.responseResumeToken }

end ServerSession

/-- The session after a request, none if it is refused. A session keyed with another pre-shared key
is destroyed first. -/
def handleConnection (cfg : ServerConfig) (current : Option ServerSession) (req : HandshakeReq)
    (fresh : Fresh) : Option ServerSession :=
  if ¬ cfg.Admits req then none
  else
    match current.filter (·.psk = cfg.psk) with
    | some s => s.join req fresh
    | none => some (.create cfg req fresh)

end TlsVpn.Session
