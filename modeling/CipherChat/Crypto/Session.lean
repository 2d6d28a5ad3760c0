import CipherChat.Store.Records

/-!
`crypto/session.ts`: X3DH session establishment and the counter-addressed chains.  Keys,
identifiers and times the source draws on the way are parameters.
-/

namespace Session

open Symbolic Number Primitives KeyStore

def ROTATE_AFTER_MESSAGES : Nat := 200

def ROTATE_AFTER_MS : Nat := 7 * 24 * 60 * 60 * 1000

def X3DH_INFO : String := "cipher-msgr/x3dh-lite/v1"

def CHAIN_STEP : Term := .bytes [0x02]

def verifyBundle (bundle : PeerBundle) : Except JsError Bool := do
  return verify (← fromBase64 bundle.identityEd25519) (← fromBase64 bundle.signedPreKey.sig)
    (← fromBase64 bundle.signedPreKey.pubX25519)

structure DerivedChains where
  ckInit : Term
  ckResp : Term

def deriveChains (dh1 dh2 dh3 : Term) : DerivedChains :=
  let sk := hkdfSha256 (concatBytes [dh1, dh2, dh3]) none X3DH_INFO 32
  { ckInit := hkdfSha256 sk none "init->resp" 32
    ckResp := hkdfSha256 sk none "resp->init" 32 }

structure InitiatedSession where
  session : StoredSession
  init : Init

def initiateSession (conversationId peerId : String) (identity : StoredIdentity)
    (bundle : PeerBundle) (ek : Nat) (sessionId : String) (now : Nat) :
    Except JsError InitiatedSession := do
  if !(← verifyBundle bundle) then
    throw (.error "Peer prekey signature invalid — refusing to establish session")
  let ek := generateX25519 ek
  let ikPriv ← fromBase64 identity.xPriv
  let spkB ← fromBase64 bundle.signedPreKey.pubX25519
  let ikB ← fromBase64 bundle.identityX25519
  let chains := deriveChains (← dh ikPriv spkB) (← dh ek.privateKey ikB) (← dh ek.privateKey spkB)
  let ik ← fromBase64 identity.xPub
  return {
    session := {
      sessionId, conversationId, peerId
      role := .init
      ckInit := toBase64 chains.ckInit
      ckResp := toBase64 chains.ckResp
      sendCtr := 0
      peerMaxCtr := -1
      createdAt := now }
    init := {
      ephPub := toBase64 ek.publicKey
      ik := toBase64 ik
      spkId := bundle.signedPreKey.keyId } }

def acceptSession (conversationId peerId sessionId : String) (identity : StoredIdentity)
    (init : Init) (now : Nat) : Except JsError StoredSession := do
  if init.spkId ≠ identity.spkId then
    throw (.error ("Unknown signed prekey id " ++ Number.text init.spkId))
  let spkPriv ← fromBase64 identity.spkPriv
  let ikPriv ← fromBase64 identity.xPriv
  let ikA ← fromBase64 init.ik
  let ekA ← fromBase64 init.ephPub
  let chains := deriveChains (← dh spkPriv ikA) (← dh ikPriv ekA) (← dh spkPriv ekA)
  return {
    sessionId, conversationId, peerId
    role := .resp
    ckInit := toBase64 chains.ckInit
    ckResp := toBase64 chains.ckResp
    sendCtr := 0
    peerMaxCtr := -1
    createdAt := now }

structure MessageKey where
  key : Term
  iv : Term

/-- The chain stepped once for every integer from 0 below `n`. -/
def chainAt (chainRoot : Term) (n : Nat) : Term :=
  (fun ck => hmacSha256 ck CHAIN_STEP)^[n] chainRoot

def messageKeyAt (chainRoot : Term) (n : JsNumber) : MessageKey :=
  let okm := hkdfSha256 (chainAt chainRoot ⌈n⌉₊) none "msg" 44
  { key := .slice okm 0 32, iv := .slice okm 32 44 }

def sendChainRoot (session : StoredSession) : Except JsError Term :=
  fromBase64 (if session.role = .init then session.ckInit else session.ckResp)

def receiveChainRoot (session : StoredSession) : Except JsError Term :=
  fromBase64 (if session.role = .init then session.ckResp else session.ckInit)

def needsRotation (session : StoredSession) (now : Nat) : Bool :=
  session.sendCtr ≥ ROTATE_AFTER_MESSAGES || (now : Int) - session.createdAt ≥ ROTATE_AFTER_MS

theorem initiateSession_ok {conversationId peerId sessionId : String} {identity : StoredIdentity}
    {bundle : PeerBundle} {ek now : Nat} {initiated : InitiatedSession}
    (started : initiateSession conversationId peerId identity bundle ek sessionId now =
      .ok initiated) :
    verifyBundle bundle = .ok true ∧ ∃ ikPriv spkB ikB dh1 dh2 dh3 ik,
      fromBase64 identity.xPriv = .ok ikPriv ∧
      fromBase64 bundle.signedPreKey.pubX25519 = .ok spkB ∧
      fromBase64 bundle.identityX25519 = .ok ikB ∧ dh ikPriv spkB = .ok dh1 ∧
      dh (.secret ek) ikB = .ok dh2 ∧ dh (.secret ek) spkB = .ok dh3 ∧
      fromBase64 identity.xPub = .ok ik ∧ initiated = {
        session := {
          sessionId, conversationId, peerId
          role := .init
          ckInit := toBase64 (deriveChains dh1 dh2 dh3).ckInit
          ckResp := toBase64 (deriveChains dh1 dh2 dh3).ckResp
          sendCtr := 0
          peerMaxCtr := -1
          createdAt := now }
        init := {
          ephPub := toBase64 (.pub ek)
          ik := toBase64 ik
          spkId := bundle.signedPreKey.keyId } } := by
  simp only [initiateSession, bind_eq_ok] at started
  obtain ⟨verified, verifiedEq, started⟩ := started
  cases verified with
  | false => simp [bind_eq_ok, throw_eq_ok] at started
  | true =>
      simp only [Bool.not_true, Bool.false_eq_true, if_false, bind_eq_ok, pure_eq_ok] at started
      obtain ⟨ikPriv, ikPrivEq, spkB, spkEq, ikB, ikEq, dh1, dh1Eq, dh2, dh2Eq, dh3, dh3Eq, ik,
        pubEq, rfl⟩ := started
      exact ⟨verifiedEq, ikPriv, spkB, ikB, dh1, dh2, dh3, ik, ikPrivEq, spkEq, ikEq, dh1Eq, dh2Eq,
        dh3Eq, pubEq, rfl⟩

theorem acceptSession_eq_ok {conversationId peerId sessionId : String} {identity : StoredIdentity}
    {init : Init} {now : Nat} {session : StoredSession} :
    acceptSession conversationId peerId sessionId identity init now = .ok session ↔
      init.spkId = identity.spkId ∧ ∃ spkPriv ikPriv ikA ekA dh1 dh2 dh3,
        fromBase64 identity.spkPriv = .ok spkPriv ∧ fromBase64 identity.xPriv = .ok ikPriv ∧
        fromBase64 init.ik = .ok ikA ∧ fromBase64 init.ephPub = .ok ekA ∧
        dh spkPriv ikA = .ok dh1 ∧ dh ikPriv ekA = .ok dh2 ∧ dh spkPriv ekA = .ok dh3 ∧
        session = {
          sessionId, conversationId, peerId
          role := .resp
          ckInit := toBase64 (deriveChains dh1 dh2 dh3).ckInit
          ckResp := toBase64 (deriveChains dh1 dh2 dh3).ckResp
          sendCtr := 0
          peerMaxCtr := -1
          createdAt := now } := by
  simp only [acceptSession]
  by_cases known : init.spkId = identity.spkId
  · simp only [known, ne_eq, not_true, if_false, bind_eq_ok, pure_eq_ok, true_and]
    constructor
    · rintro ⟨spkPriv, spkEq, ikPriv, ikPrivEq, ikA, ikEq, ekA, ekEq, dh1, dh1Eq, dh2, dh2Eq, dh3,
        dh3Eq, rfl⟩
      exact ⟨spkPriv, ikPriv, ikA, ekA, dh1, dh2, dh3, spkEq, ikPrivEq, ikEq, ekEq, dh1Eq, dh2Eq,
        dh3Eq, rfl⟩
    · rintro ⟨spkPriv, ikPriv, ikA, ekA, dh1, dh2, dh3, spkEq, ikPrivEq, ikEq, ekEq, dh1Eq, dh2Eq,
        dh3Eq, rfl⟩
      exact ⟨spkPriv, spkEq, ikPriv, ikPrivEq, ikA, ikEq, ekA, ekEq, dh1, dh1Eq, dh2, dh2Eq, dh3,
        dh3Eq, rfl⟩
  · simp [known, bind_eq_ok, throw_eq_ok]

theorem acceptSession_record {conversationId peerId sessionId : String}
    {identity : StoredIdentity} {init : Init} {now : Nat} {session : StoredSession}
    (accepted : acceptSession conversationId peerId sessionId identity init now = .ok session) :
    session.sessionId = sessionId ∧ session.conversationId = conversationId ∧
      session.peerId = peerId ∧ session.role = .resp ∧ session.sendCtr = 0 ∧
      session.retiredAt = none := by
  obtain ⟨_, _, _, _, _, _, _, _, _, _, _, _, _, _, _, rfl⟩ := acceptSession_eq_ok.mp accepted
  exact ⟨rfl, rfl, rfl, rfl, rfl, rfl⟩

end Session
