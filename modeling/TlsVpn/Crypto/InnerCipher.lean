import TlsVpn.Lib.Bytes

/-!
# The inner cipher

Translation of the inner AEAD of `crypto.go`. The AEAD primitives themselves and the key
derivation are outside the repository, so they are parameters: an `Aead` is the object bound to a
key, and a `Suite` says which one a pre-shared key, a domain and an algorithm give.

Nil receivers are `none`: without encryption the payload passes through unchanged. `CipherPair`
states what the receiving end relies on, and `CipherPair.of_correct` derives it for two ends that
share a key and a salt.
-/

namespace TlsVpn.Crypto

open Lib

/-- The algorithm identifiers of the handshake, `encAlgoNone` apart. -/
inductive EncAlgo where
  | gcm
  | gcm128
  | chaCha20
  | xChaCha20
  deriving DecidableEq, Repr

/-- The key domains of data frames and parity bodies. -/
inductive Domain where
  | data
  | fec
  deriving DecidableEq, Repr

/-- All primitives have this tag. -/
def aeadTagSize : Nat := 16

/-- The salt that a handshake draws. -/
def encSaltSize : Nat := 8

/-- An AEAD bound to a key. -/
structure Aead where
  overhead : Nat
  sealWith : (nonce plaintext aad : Bytes) → Bytes
  openWith : (nonce ciphertext aad : Bytes) → Option Bytes

/-- Opening inverts sealing under the same nonce and associated data, and sealing adds exactly the
tag. -/
structure Aead.Correct (aead : Aead) : Prop where
  open_seal : ∀ nonce plaintext aad,
    aead.openWith nonce (aead.sealWith nonce plaintext aad) aad = some plaintext
  length_seal : ∀ nonce plaintext aad,
    (aead.sealWith nonce plaintext aad).length = plaintext.length + aead.overhead

/-- The key derivation and the derivation of the extended nonce from a salt. -/
structure Suite where
  aeadFor : (psk : String) → Domain → EncAlgo → Aead
  xnonceFor : (salt : Bytes) → Bytes

/-- A primitive with the parts of its nonce. -/
structure InnerCipher where
  aead : Aead
  algo : EncAlgo
  salt : Bytes
  xnonceFront : Bytes

/-- The cipher of a handshake. A salt of the wrong size and a primitive with an unexpected tag are
refused. -/
def newInnerCipherDomainForAlgo (suite : Suite) (psk : String) (salt : Bytes) (domain : Domain)
    (algo : EncAlgo) : Except String InnerCipher :=
  if salt.length ≠ encSaltSize then
    .error s!"encryption salt must be {encSaltSize} bytes, got {salt.length}"
  else
    let aead := suite.aeadFor psk domain algo
    if aead.overhead ≠ aeadTagSize then .error s!"unexpected AEAD tag size {aead.overhead}"
    else .ok
      { aead
        algo
        salt
        xnonceFront := if algo = .xChaCha20 then suite.xnonceFor salt else List.replicate 20 0 }

namespace InnerCipher

/-- The nonce of a frame: the sequence number and the salt, or for the extended algorithm the
derived front followed by the sequence number. -/
def nonce (ic : InnerCipher) (seq : Nat) : Bytes :=
  match ic.algo with
  | .xChaCha20 => ic.xnonceFront ++ putUint 4 seq
  | .gcm | .gcm128 | .chaCha20 => putUint 4 seq ++ ic.salt

/-- The associated data of a frame: the length of the encrypted region and the sequence number. -/
def aad (seq wireLen : Nat) : Bytes := putUint 4 wireLen ++ putUint 4 seq

end InnerCipher

/-- What sealing adds. -/
def tagLen : Option InnerCipher → Nat
  | none => 0
  | some ic => ic.aead.overhead

/-- The encrypted region that `sealInPlaceWithScratch` leaves for a plaintext. -/
def sealInPlace (ic : Option InnerCipher) (plaintext : Bytes) (seq wireLen : Nat) : Bytes :=
  match ic with
  | none => plaintext
  | some ic =>
    if plaintext = [] then plaintext
    else ic.aead.sealWith (ic.nonce seq) plaintext (InnerCipher.aad seq wireLen)

/-- The plaintext `openToWithScratch` writes to its destination, `none` where it fails. -/
def openTo (ic : Option InnerCipher) (src : Bytes) (seq wireLen : Nat) : Option Bytes :=
  match ic with
  | none => some src
  | some ic =>
    if src.length < ic.aead.overhead then none
    else ic.aead.openWith (ic.nonce seq) src (InnerCipher.aad seq wireLen)

/-- The receiver's cipher opens what the sender's sealed under the same sequence number and
length. -/
structure CipherPair (tx rx : Option InnerCipher) : Prop where
  tagLen_eq : tagLen rx = tagLen tx
  length_seal : ∀ data seq wireLen, data ≠ [] →
    (sealInPlace tx data seq wireLen).length = data.length + tagLen tx
  open_seal : ∀ data seq wireLen, data ≠ [] →
    openTo rx (sealInPlace tx data seq wireLen) seq wireLen = some data

namespace CipherPair

theorem plain : CipherPair none none :=
  ⟨rfl, fun _ _ _ _ => rfl, fun _ _ _ _ => rfl⟩

/-- Two ends with the same cipher form a pair if the primitive is correct. -/
theorem of_correct {ic : InnerCipher} (h : ic.aead.Correct) : CipherPair (some ic) (some ic) := by
  have hlen : ∀ data seq wireLen, data ≠ [] →
      (sealInPlace (some ic) data seq wireLen).length = data.length + ic.aead.overhead := by
    intro data seq wireLen hdata
    simp only [sealInPlace, if_neg hdata, h.length_seal]
  refine ⟨rfl, hlen, ?_⟩
  intro data seq wireLen hdata
  have hlong := hlen data seq wireLen hdata
  simp only [sealInPlace, if_neg hdata] at hlong ⊢
  simp only [openTo, hlong, if_neg (Nat.not_lt.mpr (Nat.le_add_left _ _)), h.open_seal]

end CipherPair

/-- A cipher that appends a tag of zeros and checks it. -/
def zeroTag : InnerCipher where
  aead :=
    { overhead := aeadTagSize
      sealWith := fun _ plaintext _ => plaintext ++ List.replicate aeadTagSize 0
      openWith := fun _ ciphertext _ =>
        let n := ciphertext.length - aeadTagSize
        if ciphertext.drop n = List.replicate aeadTagSize 0 then some (ciphertext.take n)
        else none }
  algo := .gcm
  salt := List.replicate encSaltSize 0
  xnonceFront := List.replicate 20 0

theorem CipherPair.zeroTag : CipherPair (some zeroTag) (some zeroTag) := by
  refine .of_correct ⟨fun _ plaintext _ => ?_, fun _ plaintext _ => ?_⟩
  · simp [Crypto.zeroTag]
  · simp [Crypto.zeroTag]

end TlsVpn.Crypto
