import TlsVpn.Session.Handshake

/-!
# The client's side of a handshake

Translation of the middle of `Client.dialAndServe`: the request a dial sends, the checks on the
response, and the section under the session lock in which a connection adopts the session that the
server announced. What the section does to the sender and to the receive buffer is returned as an
`Adoption`.
-/

namespace TlsVpn.Session

open Lib Crypto Fec

/-- The settings that a dial captures when it starts. -/
structure LiveConfig where
  psk : String
  encrypt : Bool
  encAlgo : EncAlgo
  /-- An inner cipher is required. -/
  minEnc : Bool
  fecMode : Bool
  fecGroup : Nat
  deriving DecidableEq, Repr

/-- The request of a dial. -/
def LiveConfig.request (lv : LiveConfig) (clientInstance sessionToken : Nat) : HandshakeReq :=
  { clientInstance
    psk := lv.psk
    fec := lv.fecMode
    fecGroup := if lv.fecMode then clampFecGroup lv.fecGroup else 0
    encrypt := lv.encrypt
    encAlgo := if lv.encrypt then some lv.encAlgo else none
    sessionToken }

/-- Why a response is rejected. -/
inductive HandshakeError where
  | encryptionMismatch
  | cipherMismatch (got want : Option EncAlgo)
  | invalidSalts
  | aeadInit (tx rx : String)
  | belowMinEnc (got : Option EncAlgo)
  deriving DecidableEq, Repr

/-- The text of an error. -/
def HandshakeError.message : HandshakeError → String
  | .encryptionMismatch => "server encryption mismatch"
  | .cipherMismatch got want =>
    "server negotiated inner cipher " ++ toString (encAlgoCode got) ++ " (" ++
      encAlgoLabel got ++ "), want " ++ toString (encAlgoCode want) ++ " (" ++
      encAlgoLabel want ++ ")"
  | .invalidSalts => "server sent invalid enc salts"
  | .aeadInit tx rx => "inner AEAD init failed: " ++ tx ++ "/" ++ rx
  | .belowMinEnc got =>
    "server negotiated inner cipher " ++ toString (encAlgoCode got) ++
      " is below min_enc \"gcm\""

/-- The ciphers of a connection; all absent without inner encryption. -/
structure Ciphers where
  encAlgo : Option EncAlgo
  tx : Option InnerCipher
  rx : Option InnerCipher
  fecTx : Option InnerCipher
  fecRx : Option InnerCipher

/-- The error text of a cipher that could not be made, as the source prints it. -/
def initError : Except String InnerCipher → String
  | .ok _ => "<nil>"
  | .error e => e

/-- The ciphers for a response, or the reason to reject it. -/
def negotiateCiphers (suite : Suite) (lv : LiveConfig) (resp : HandshakeResp) :
    Except HandshakeError Ciphers :=
  if resp.encrypt ≠ lv.encrypt then .error .encryptionMismatch
  else if lv.encrypt then
    if resp.encAlgo ≠ some lv.encAlgo then .error (.cipherMismatch resp.encAlgo (some lv.encAlgo))
    else if resp.encSalt.length ≠ encSaltSize ∨ resp.encSalt2.length ≠ encSaltSize then
      .error .invalidSalts
    else
      let cipher := fun salt domain =>
        newInnerCipherDomainForAlgo suite lv.psk salt domain lv.encAlgo
      match cipher resp.encSalt .data, cipher resp.encSalt2 .data with
      | .ok tx, .ok rx =>
        .ok
          { encAlgo := resp.encAlgo
            tx := some tx
            rx := some rx
            fecTx := (cipher resp.encSalt .fec).toOption
            fecRx := (cipher resp.encSalt2 .fec).toOption }
      | tx, rx => .error (.aeadInit (initError tx) (initError rx))
  else if lv.minEnc then .error (.belowMinEnc none)
  else .ok { encAlgo := none, tx := none, rx := none, fecTx := none, fecRx := none }

/-- The algorithm of accepted ciphers is the response's, or none without encryption. -/
theorem negotiate_ciphers_algo {suite : Suite} {lv : LiveConfig} {resp : HandshakeResp}
    {ciphers : Ciphers} (h : negotiateCiphers suite lv resp = .ok ciphers) :
    ciphers.encAlgo = if lv.encrypt then resp.encAlgo else none := by
  unfold negotiateCiphers at h
  split at h
  · cases h
  · split at h
    · rename_i hencrypt
      rw [if_pos hencrypt]
      split at h
      · cases h
      · split at h
        · cases h
        · dsimp only at h
          split at h
          · cases h
            rfl
          · cases h
    · rename_i hencrypt
      rw [if_neg hencrypt]
      split at h
      · cases h
      · cases h
        rfl

/-- The client's session variables, guarded by the session lock. -/
structure ClientSession where
  serverSessionID : Nat
  sessionEpoch : Nat
  sessionToken : Nat
  fecNegotiated : Nat
  fecDec : Option FecDecoder
  fecAlgo : Option EncAlgo
  fecSaltKey : Bytes

/-- No session. -/
def ClientSession.new : ClientSession :=
  { serverSessionID := 0
    sessionEpoch := 0
    sessionToken := 0
    fecNegotiated := 0
    fecDec := none
    fecAlgo := none
    fecSaltKey := [] }

/-- What a connection finds out in the section. -/
structure Adoption where
  /-- The response changed the pair of session and epoch. -/
  isNewSession : Bool
  useXorFec : Bool
  /-- The decoder is replaced and the sender is reset with a new encoder. -/
  fecRebuild : Bool
  deriving DecidableEq, Repr

namespace ClientSession

/-- The group size after a response; the first one that announces FEC is kept. -/
def negotiated (s : ClientSession) (lv : LiveConfig) (resp : HandshakeResp) : Nat :=
  if lv.fecMode = true ∧ s.fecNegotiated = 0 ∧ fecMinGroup ≤ resp.fecGroup then resp.fecGroup
  else s.fecNegotiated

/-- What the section decides. -/
def adoption (s : ClientSession) (lv : LiveConfig) (resp : HandshakeResp)
    (encAlgo : Option EncAlgo) : Adoption :=
  let useXorFec := decide (lv.fecMode = true ∧ 0 < s.negotiated lv resp)
  { isNewSession :=
      decide (s.serverSessionID ≠ resp.sessionID ∨ s.sessionEpoch ≠ resp.sessionEpoch)
    useXorFec
    fecRebuild := decide (useXorFec = true ∧
      (s.fecDec.isNone = true ∨ s.fecAlgo ≠ encAlgo ∨ s.fecSaltKey ≠ resp.encSalt)) }

/-- The session variables after the section. With a receive worker a new epoch also resets the
decoder in place. -/
def adopt (s : ClientSession) (conns : Nat) (lv : LiveConfig) (resp : HandshakeResp)
    (ciphers : Ciphers) : ClientSession :=
  let decision := s.adoption lv resp ciphers.encAlgo
  let fecNegotiated := s.negotiated lv resp
  let resetDec :=
    if decision.isNewSession = true ∧ conns ≠ 1 then s.fecDec.map (·.reset) else s.fecDec
  { serverSessionID := resp.sessionID
    sessionEpoch := resp.sessionEpoch
    sessionToken := resp.sessionToken
    fecNegotiated
    fecDec :=
      if decision.fecRebuild then
        some { FecDecoder.new fecNegotiated ciphers.fecRx with staticSingle := decide (conns = 1) }
      else resetDec
    fecAlgo := if decision.fecRebuild then ciphers.encAlgo else s.fecAlgo
    fecSaltKey := if decision.fecRebuild then resp.encSalt else s.fecSaltKey }

end ClientSession

end TlsVpn.Session
