import CipherChat.Crypto.DoubleRatchet
import CipherChat.Crypto.Session

/-!
`crypto/envelopeV2.ts`: Double Ratchet sessions on the wire.
-/

namespace EnvelopeV2

open Symbolic Number Primitives KeyStore DoubleRatchet

structure WireEnvelopeV2 where
  sessionId : String
  ctr : JsNumber
  dh : Base64
  pn : JsNumber
  n : JsNumber
  ct : Base64
  init : Option Init
  deriving DecidableEq

/-- `RatchetSession` of `crypto/vault.ts`. -/
structure RatchetSession where
  sessionId : String
  conversationId : String
  peerId : String
  role : Role
  createdAt : Nat
  sendTotal : Nat
  peerReplied : Bool
  init : Option Init
  state : RatchetState
  deriving DecidableEq

def X3DH_INFO_V2 : String := "cipher-msgr/x3dh/v2-double-ratchet"

def aadText (conversationId senderId sessionId : String) (ctr : JsNumber) : String :=
  "\x7b\"v\":2,\"conversationId\":\"" ++ conversationId ++ "\",\"senderId\":\"" ++ senderId ++
    "\",\"sessionId\":\"" ++ sessionId ++ "\",\"ctr\":" ++ Number.text ctr ++ "\x7d"

def aad (conversationId senderId sessionId : String) (ctr : JsNumber) : Term :=
  .text (aadText conversationId senderId sessionId ctr)

def sharedSecret (dh1 dh2 dh3 : Term) : Term :=
  hkdfSha256 (concatBytes [dh1, dh2, dh3]) none X3DH_INFO_V2 32

/-- `ek` and `dhs` name the two key pairs drawn on the way. -/
def startInitiator (conversationId peerId : String) (identity : StoredIdentity)
    (bundle : PeerBundle) (ek dhs : Nat) (sessionId : String) (now : Nat) :
    Except JsError RatchetSession := do
  if !(← Session.verifyBundle bundle) then
    throw (.error "Peer prekey signature invalid — refusing to establish session")
  let ek := generateX25519 ek
  let spkB ← fromBase64 bundle.signedPreKey.pubX25519
  let ikB ← fromBase64 bundle.identityX25519
  let sk := sharedSecret (← dh (← fromBase64 identity.xPriv) spkB) (← dh ek.privateKey ikB)
    (← dh ek.privateKey spkB)
  return {
    sessionId, conversationId, peerId
    role := .init
    createdAt := now
    sendTotal := 0
    peerReplied := false
    init := some {
      ephPub := toBase64 ek.publicKey
      ik := identity.xPub
      spkId := bundle.signedPreKey.keyId }
    state := ← initInitiator sk spkB dhs }

def startResponder (conversationId peerId sessionId : String) (identity : StoredIdentity)
    (init : Init) (now : Nat) : Except JsError RatchetSession := do
  if init.spkId ≠ identity.spkId then
    throw (.error ("Unknown signed prekey id " ++ Number.text init.spkId))
  let spkPriv ← fromBase64 identity.spkPriv
  let ikA ← fromBase64 init.ik
  let ekA ← fromBase64 init.ephPub
  let sk := sharedSecret (← dh spkPriv ikA) (← dh (← fromBase64 identity.xPriv) ekA)
    (← dh spkPriv ekA)
  return {
    sessionId, conversationId, peerId
    role := .resp
    createdAt := now
    sendTotal := 0
    peerReplied := true
    init := none
    state := initResponder sk spkPriv (← fromBase64 identity.spkPub) }

def sealV2 (session : RatchetSession) (senderId : String) (text : List UInt16) :
    Except JsError (WireEnvelopeV2 × RatchetSession) := do
  let ctr := session.sendTotal
  let (message, next) ← ratchetEncrypt session.state text
    (aad session.conversationId senderId session.sessionId ctr)
  let envelope : WireEnvelopeV2 := {
    sessionId := session.sessionId
    ctr
    dh := message.header.dh
    pn := message.header.pn
    n := message.header.n
    ct := toBase64 message.ciphertext
    init := if session.role = .init ∧ !session.peerReplied then session.init else none }
  return (envelope, { session with sendTotal := ctr + 1, state := next })

/-- The ratchet message an envelope carries. -/
def WireEnvelopeV2.message (envelope : WireEnvelopeV2) : Except JsError RatchetMessage := do
  return {
    header := { dh := envelope.dh, pn := envelope.pn, n := envelope.n }
    ciphertext := ← fromBase64 envelope.ct }

def openV2 (session : RatchetSession) (senderId : String) (envelope : WireEnvelopeV2)
    (now fresh : Nat) : Except JsError (List UInt16 × RatchetSession) := do
  if envelope.sessionId ≠ session.sessionId then
    throw (.error "Envelope/session mismatch")
  let (plaintext, next) ← ratchetDecrypt session.state (← envelope.message)
    (aad session.conversationId senderId envelope.sessionId envelope.ctr) now fresh
  return (plaintext, { session with peerReplied := true, state := next })

theorem startInitiator_ok {conversationId peerId sessionId : String} {identity : StoredIdentity}
    {bundle : PeerBundle} {ek dhs now : Nat} {session : RatchetSession}
    (started : startInitiator conversationId peerId identity bundle ek dhs sessionId now =
      .ok session) :
    Session.verifyBundle bundle = .ok true ∧ ∃ spkB ikB ikPriv dh1 dh2 dh3 state,
      fromBase64 bundle.signedPreKey.pubX25519 = .ok spkB ∧
      fromBase64 bundle.identityX25519 = .ok ikB ∧ fromBase64 identity.xPriv = .ok ikPriv ∧
      Primitives.dh ikPriv spkB = .ok dh1 ∧ Primitives.dh (.secret ek) ikB = .ok dh2 ∧
      Primitives.dh (.secret ek) spkB = .ok dh3 ∧
      initInitiator (sharedSecret dh1 dh2 dh3) spkB dhs = .ok state ∧ session = {
        sessionId, conversationId, peerId
        role := .init
        createdAt := now
        sendTotal := 0
        peerReplied := false
        init := some {
          ephPub := toBase64 (.pub ek)
          ik := identity.xPub
          spkId := bundle.signedPreKey.keyId }
        state } := by
  simp only [startInitiator, bind_eq_ok] at started
  obtain ⟨verified, verifiedEq, started⟩ := started
  cases verified with
  | false => simp [bind_eq_ok, throw_eq_ok] at started
  | true =>
      simp only [Bool.not_true, Bool.false_eq_true, if_false, bind_eq_ok, pure_eq_ok] at started
      obtain ⟨spkB, spkEq, ikB, ikEq, ikPriv, privEq, dh1, dh1Eq, dh2, dh2Eq, dh3, dh3Eq, state,
        stateEq, rfl⟩ := started
      exact ⟨verifiedEq, spkB, ikB, ikPriv, dh1, dh2, dh3, state, spkEq, ikEq, privEq, dh1Eq, dh2Eq,
        dh3Eq, stateEq, rfl⟩

theorem startResponder_eq_ok {conversationId peerId sessionId : String}
    {identity : StoredIdentity} {init : Init} {now : Nat} {session : RatchetSession} :
    startResponder conversationId peerId sessionId identity init now = .ok session ↔
      init.spkId = identity.spkId ∧ ∃ spkPriv ikA ekA ikPriv dh1 dh2 dh3 spkPub,
        fromBase64 identity.spkPriv = .ok spkPriv ∧ fromBase64 init.ik = .ok ikA ∧
        fromBase64 init.ephPub = .ok ekA ∧ fromBase64 identity.xPriv = .ok ikPriv ∧
        Primitives.dh spkPriv ikA = .ok dh1 ∧ Primitives.dh ikPriv ekA = .ok dh2 ∧
        Primitives.dh spkPriv ekA = .ok dh3 ∧ fromBase64 identity.spkPub = .ok spkPub ∧
        session = {
          sessionId, conversationId, peerId
          role := .resp
          createdAt := now
          sendTotal := 0
          peerReplied := true
          init := none
          state := initResponder (sharedSecret dh1 dh2 dh3) spkPriv spkPub } := by
  simp only [startResponder]
  by_cases known : init.spkId = identity.spkId
  · simp only [known, ne_eq, not_true, if_false, bind_eq_ok, pure_eq_ok, true_and]
    constructor
    · rintro ⟨spkPriv, spkEq, ikA, ikEq, ekA, ekEq, dh1, dh1Eq, ikPriv, privEq, dh2, dh2Eq, dh3,
        dh3Eq, spkPub, pubEq, rfl⟩
      exact ⟨spkPriv, ikA, ekA, ikPriv, dh1, dh2, dh3, spkPub, spkEq, ikEq, ekEq, privEq, dh1Eq,
        dh2Eq, dh3Eq, pubEq, rfl⟩
    · rintro ⟨spkPriv, ikA, ekA, ikPriv, dh1, dh2, dh3, spkPub, spkEq, ikEq, ekEq, privEq, dh1Eq,
        dh2Eq, dh3Eq, pubEq, rfl⟩
      exact ⟨spkPriv, spkEq, ikA, ikEq, ekA, ekEq, dh1, dh1Eq, ikPriv, privEq, dh2, dh2Eq, dh3,
        dh3Eq, spkPub, pubEq, rfl⟩
  · simp [known, bind_eq_ok, throw_eq_ok]

theorem sealV2_ok {session next : RatchetSession} {senderId : String} {text : List UInt16}
    {envelope : WireEnvelopeV2} (sent : sealV2 session senderId text = .ok (envelope, next)) :
    ∃ message state, ratchetEncrypt session.state text
        (aad session.conversationId senderId session.sessionId session.sendTotal) =
        .ok (message, state) ∧
      envelope = {
        sessionId := session.sessionId
        ctr := session.sendTotal
        dh := message.header.dh
        pn := message.header.pn
        n := message.header.n
        ct := toBase64 message.ciphertext
        init := if session.role = .init ∧ !session.peerReplied then session.init else none } ∧
      next = { session with sendTotal := session.sendTotal + 1, state } := by
  simp only [sealV2, bind_eq_ok, pure_eq_ok, Prod.mk.injEq] at sent
  obtain ⟨⟨message, state⟩, sealedEq, rfl, rfl⟩ := sent
  exact ⟨message, state, sealedEq, rfl, rfl⟩

theorem message_ok {envelope : WireEnvelopeV2} {message : RatchetMessage}
    (carried : envelope.message = .ok message) :
    message.header = { dh := envelope.dh, pn := envelope.pn, n := envelope.n } ∧
      fromBase64 envelope.ct = .ok message.ciphertext := by
  simp only [WireEnvelopeV2.message, bind_eq_ok, pure_eq_ok] at carried
  obtain ⟨ciphertext, decoded, rfl⟩ := carried
  exact ⟨rfl, decoded⟩

theorem openV2_ok {session next : RatchetSession} {senderId : String} {text : List UInt16}
    {envelope : WireEnvelopeV2} {now fresh : Nat}
    (opened : openV2 session senderId envelope now fresh = .ok (text, next)) :
    envelope.sessionId = session.sessionId ∧ ∃ message state, envelope.message = .ok message ∧
      ratchetDecrypt session.state message
        (aad session.conversationId senderId envelope.sessionId envelope.ctr) now fresh =
        .ok (text, state) ∧
      next = { session with peerReplied := true, state } := by
  simp only [openV2] at opened
  by_cases same : envelope.sessionId = session.sessionId
  · simp only [same, ne_eq, not_true, if_false, bind_eq_ok, pure_eq_ok,
      Prod.mk.injEq] at opened
    obtain ⟨message, messageEq, ⟨plaintext, state⟩, openedEq, rfl, rfl⟩ := opened
    exact ⟨same, message, state, messageEq, by rw [same]; exact openedEq, rfl⟩
  · simp [same, bind_eq_ok, throw_eq_ok] at opened

end EnvelopeV2
