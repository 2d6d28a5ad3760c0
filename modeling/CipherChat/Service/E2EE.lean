import CipherChat.Crypto.RecoveryCode
import CipherChat.Crypto.SafetyNumber
import CipherChat.Store.Device
import Mathlib.Data.List.MinMax

/-!
`services/E2EEService.ts` with the parts of `crypto/vault.ts`, `crypto/keyStore.ts` and
`crypto/identity.ts` it calls, as programs that await the operations of a device.
-/

namespace E2EEService

open Async Number Primitives KeyStore Envelope EnvelopeV2 Store

abbrev Prog (α : Type) := Throwing JsError Op Op.Res α

def call (op : Op) : Prog op.Val :=
  ExceptT.mk (Program.call op)

/-! `crypto/vault.ts` -/

def messageKey (sessionId senderId : String) (ctr : JsNumber) : String :=
  sessionId ++ "|" ++ senderId ++ "|" ++ Number.text ctr

def messageId (convId msgKey : String) : String :=
  convId ++ "|" ++ msgKey

/-- `dek(convId, false)` -/
def existingDek (convId : String) : Prog (Option Nat) := do
  return (← call (.getDek convId)).map DekRow.key

/-- `dek(convId, true)` -/
def ensureDek (convId : String) : Prog Nat := do
  match ← existingDek convId with
  | some key => return key
  | none =>
      let key ← call .generateDek
      tryCatch (do call (.addDek { convId, key }); return key)
        (fun _ => do return (← existingDek convId).getD key)

def commit (convId : String) (session : RatchetSession) (msgKey : String) (text : List UInt16) :
    Prog Unit := do
  let key ← ensureDek convId
  call (.putCommit { sessionId := session.sessionId, convId, key, session }
    (some { id := messageId convId msgKey, convId, key, text }))

/-- `openRecord` fails on a row sealed under another key. -/
def loadRatchet (convId sessionId : String) : Prog (Option RatchetSession) := do
  match ← existingDek convId with
  | none => return none
  | some key =>
      match ← call (.getRatchet sessionId) with
      | none => return none
      | some row =>
          if row.convId ≠ convId then return none
          else if row.key ≠ key then throw (.dom "OperationError")
          else return some row.session

def latestRatchet (convId : String) : Prog (Option RatchetSession) := do
  match ← existingDek convId with
  | none => return none
  | some key =>
      let rows ← call (.getRatchets convId)
      let sessions := (rows.filter fun row => row.key = key).map RatchetRow.session
      return sessions.argmax RatchetSession.createdAt

def loadMessage (convId msgKey : String) : Prog (Option (List UInt16)) := do
  match ← existingDek convId with
  | none => return none
  | some key =>
      match ← call (.getMessage (messageId convId msgKey)) with
      | none => return none
      | some row => return if row.key = key then some row.text else none

/-! `crypto/keyStore.ts` -/

def withLock {α : Type} (name : String) (body : Prog α) : Prog α := do
  call (.acquire name)
  let result ← settle body
  call (.release name)
  lift result

/-! `services/E2EEService.ts` -/

/-- The service object of one tab: its cached identity, and the user the access token names. -/
structure Tab where
  identity : Option StoredIdentity
  userId : Option String

inductive AnyEnvelope
  | v1 (envelope : WireEnvelope)
  | v2 (envelope : WireEnvelopeV2)
  deriving DecidableEq

structure DecryptResult where
  ok : Bool
  text : List UInt16
  keyChanged : Option Bool := none
  deriving DecidableEq

def UNDECRYPTABLE : String :=
  "⚠ Unable to decrypt — sent with a previous encryption key"

def UNDECRYPTABLE_V2 : String :=
  "⚠ Not stored on this device — forward-secret messages cannot be re-opened from the server"

def requireIdentity (this : Tab) : Prog StoredIdentity :=
  match this.identity with
  | some identity => pure identity
  | none => throw (.error "E2EE not ready — call ensureReady() first")

def myUserId (this : Tab) : Prog String :=
  match this.userId with
  | some userId => pure userId
  | none => throw (.error "Not authenticated")

/-- `!s.retiredAt` -/
def live (s : StoredSession) : Bool :=
  s.retiredAt.getD 0 = 0

def chooseSession (sessions : List StoredSession) : Option StoredSession :=
  let mine := sessions.filter fun s => live s && s.role = .init
  match mine.argmax StoredSession.createdAt with
  | some s => some s
  | none => (sessions.filter live).argmax StoredSession.createdAt

def activeSession (conversationId : String) : Prog (Option StoredSession) := do
  return chooseSession (← call (.loadConversationSessions conversationId))

def pin (peerId : String) (ed : Base64) (keyVersion : JsNumber) : Prog Unit := do
  let pinnedAt ← call .now
  call (.savePeerPin {
    userId := peerId
    identityEd25519 := ed
    keyVersion
    verified := false
    pinnedAt })

/-- The comparison with the pin, once the identity key to compare is known. -/
def comparePin (peerId : String) (ed : Base64) (keyVersion : JsNumber) : Prog Bool := do
  match ← call (.getPeerPin peerId) with
  | none =>
      pin peerId ed keyVersion
      return false
  | some held =>
      if held.identityEd25519 ≠ ed then
        pin peerId ed keyVersion
        return true
      else return false

def checkPeerIdentity (peerId : String) (claimedX25519 directoryEd25519 : Option Base64)
    (keyVersion : JsNumber) : Prog Bool := do
  match directoryEd25519.filter (fun ed => !ed.isEmpty) with
  | some ed => comparePin peerId ed keyVersion
  | none =>
      let keys ← call (.getKeys peerId)
      match claimedX25519.filter (fun claimed => !claimed.isEmpty) with
      | some claimed =>
          if keys.identityX25519 ≠ claimed then
            pin peerId keys.identityEd25519 keys.keyVersion
            return true
          else comparePin peerId keys.identityEd25519 keys.keyVersion
      | none => comparePin peerId keys.identityEd25519 keys.keyVersion

def fetchAndPinBundle (peerId : String) : Prog PeerBundle := do
  let bundle ← call (.getKeys peerId)
  let _ ← checkPeerIdentity peerId none (some bundle.identityEd25519) bundle.keyVersion
  return bundle

def startRatchet (conversationId peerId : String) (identity : StoredIdentity) :
    Prog RatchetSession := do
  let bundle ← fetchAndPinBundle peerId
  let ek ← call .generateX25519
  let sessionId ← call .randomUUID
  let now ← call .now
  let dhs ← call .generateX25519
  lift (startInitiator conversationId peerId identity bundle ek dhs sessionId now)

def encryptV2 (this : Tab) (conversationId : String) (session : RatchetSession)
    (text : List UInt16) : Prog AnyEnvelope := do
  let me ← myUserId this
  let (envelope, next) ← lift (sealV2 session me text)
  commit conversationId next (messageKey next.sessionId me envelope.ctr) text
  return .v2 envelope

def startSession (conversationId peerId : String) (identity : StoredIdentity) :
    Prog (StoredSession × Option Init) := do
  let bundle ← fetchAndPinBundle peerId
  let ek ← call .generateX25519
  let sessionId ← call .randomUUID
  let now ← call .now
  let initiated ← lift (Session.initiateSession conversationId peerId identity bundle ek
    sessionId now)
  return (initiated.session, some initiated.init)

/-- The session the next v1 message goes out on, and the init block of a new one. -/
def sendingSession (conversationId peerId : String) (identity : StoredIdentity) :
    Prog (StoredSession × Option Init) := do
  match ← activeSession conversationId with
  | none => startSession conversationId peerId identity
  | some session =>
      if Session.needsRotation session (← call .now) then
        let retiredAt ← call .now
        call (.saveSession { session with retiredAt := some retiredAt })
        startSession conversationId peerId identity
      else return (session, none)

def encryptV1 (this : Tab) (conversationId peerId : String) (identity : StoredIdentity)
    (text : List UInt16) : Prog AnyEnvelope := do
  let (session, init) ← sendingSession conversationId peerId identity
  let ctr := session.sendCtr
  let session := { session with sendCtr := ctr + 1 }
  call (.saveSession session)
  if init.isSome then call .refreshBackup
  let me ← myUserId this
  let envelope ← lift (Envelope.seal session conversationId me ctr text init)
  return .v1 (if init.isSome ∧ ctr > 0 then { envelope with init } else envelope)

def encrypt (this : Tab) (conversationId peerId : String) (text : List UInt16) :
    Prog AnyEnvelope := do
  let identity ← requireIdentity this
  withLock conversationId do
    match ← latestRatchet conversationId with
    | some session => encryptV2 this conversationId session text
    | none =>
        if ← call .doubleRatchetEnabled then
          encryptV2 this conversationId (← startRatchet conversationId peerId identity) text
        else encryptV1 this conversationId peerId identity text

def undecryptable (placeholder : String) : DecryptResult where
  ok := false
  text := Utf.ofString placeholder

/-- The session a v1 envelope is opened with, and whether accepting it changed the pin. -/
def receivingSession (conversationId senderId : String) (envelope : WireEnvelope) (own : Bool)
    (identity : StoredIdentity) : Prog (Option StoredSession × Bool) := do
  match ← call (.loadSession envelope.sessionId) with
  | some session => return (some session, false)
  | none =>
      match own, envelope.init with
      | false, some init =>
          let keyChanged ← checkPeerIdentity senderId (some init.ik) none 1
          let now ← call .now
          let session ← lift (Session.acceptSession conversationId senderId envelope.sessionId
            identity init now)
          call (.saveSession session)
          call .refreshBackup
          return (some session, keyChanged)
      | _, _ => return (none, false)

def decryptV1Body (conversationId senderId : String) (envelope : WireEnvelope) (own : Bool)
    (identity : StoredIdentity) : Prog DecryptResult := do
  match ← receivingSession conversationId senderId envelope own identity with
  | (none, _) => return undecryptable UNDECRYPTABLE
  | (some session, keyChanged) =>
      let text ← lift (if own then openOwn session conversationId senderId envelope
        else Envelope.open session conversationId senderId envelope)
      if !own ∧ envelope.ctr > session.peerMaxCtr then
        call (.saveSession { session with peerMaxCtr := envelope.ctr })
      return { ok := true, text, keyChanged := some keyChanged }

def decryptV1 (conversationId senderId : String) (envelope : WireEnvelope) (own : Bool)
    (identity : StoredIdentity) : Prog DecryptResult :=
  tryCatch (decryptV1Body conversationId senderId envelope own identity)
    fun _ => pure (undecryptable UNDECRYPTABLE)

/-- The ratchet a v2 envelope is opened with, and whether accepting it changed the pin. -/
def receivingRatchet (conversationId senderId : String) (envelope : WireEnvelopeV2)
    (identity : StoredIdentity) : Prog (Option RatchetSession × Bool) := do
  match ← loadRatchet conversationId envelope.sessionId with
  | some session => return (some session, false)
  | none =>
      match envelope.init with
      | none => return (none, false)
      | some init =>
          let keyChanged ← checkPeerIdentity senderId (some init.ik) none 1
          let now ← call .now
          let session ← lift (startResponder conversationId senderId envelope.sessionId identity
            init now)
          return (some session, keyChanged)

def decryptV2Locked (conversationId senderId : String) (envelope : WireEnvelopeV2)
    (identity : StoredIdentity) : Prog DecryptResult := do
  let key := messageKey envelope.sessionId senderId envelope.ctr
  match ← loadMessage conversationId key with
  | some again => return { ok := true, text := again }
  | none =>
      match ← receivingRatchet conversationId senderId envelope identity with
      | (none, _) => return undecryptable UNDECRYPTABLE_V2
      | (some session, keyChanged) =>
          let now ← call .now
          let fresh ← call .generateX25519
          let (text, next) ← lift (openV2 session senderId envelope now fresh)
          commit conversationId next key text
          return { ok := true, text, keyChanged := some keyChanged }

def decryptV2Body (conversationId senderId : String) (envelope : WireEnvelopeV2) (own : Bool)
    (identity : StoredIdentity) : Prog DecryptResult := do
  match ← loadMessage conversationId (messageKey envelope.sessionId senderId envelope.ctr) with
  | some stored => return { ok := true, text := stored }
  | none =>
      if own then return undecryptable UNDECRYPTABLE_V2
      else withLock conversationId (decryptV2Locked conversationId senderId envelope identity)

def decryptV2 (conversationId senderId : String) (envelope : WireEnvelopeV2) (own : Bool)
    (identity : StoredIdentity) : Prog DecryptResult :=
  tryCatch (decryptV2Body conversationId senderId envelope own identity)
    fun _ => pure (undecryptable UNDECRYPTABLE_V2)

def cachedIdentity (this : Tab) : Prog (Option StoredIdentity) :=
  match this.identity with
  | some identity => pure (some identity)
  | none => call .loadIdentity

def decrypt (this : Tab) (conversationId senderId : String) (envelope : AnyEnvelope)
    (own : Bool) : Prog DecryptResult := do
  match ← cachedIdentity this with
  | none => return undecryptable UNDECRYPTABLE
  | some identity =>
      match envelope with
      | .v1 envelope => decryptV1 conversationId senderId envelope own identity
      | .v2 envelope => decryptV2 conversationId senderId envelope own identity

structure Shredded where
  sealedRows : Nat
  v1Sessions : Nat

def shredConversation (conversationId : String) : Prog Shredded :=
  withLock conversationId do
    let sealedRows ← call (.deleteVault conversationId)
    let v1Sessions ← call (.deleteConversationData conversationId)
    call (.shredConversationIndex conversationId)
    call .refreshBackup
    return { sealedRows, v1Sessions }

structure SafetyNumberView where
  digits : Sym2 Symbolic.Term
  verified : Bool

def safetyNumberFor (this : Tab) (peerId : String) : Prog (Option SafetyNumberView) := do
  match ← cachedIdentity this with
  | none => return none
  | some identity =>
      let held ← call (.getPeerPin peerId)
      let peerKey ← match held with
        | some held => pure held.identityEd25519
        | none => PeerBundle.identityEd25519 <$> fetchAndPinBundle peerId
      let me ← myUserId this
      let digits ← lift (SafetyNumber.computeSafetyNumber me identity.edPub peerId peerKey)
      let freshPin ← match held with
        | some held => pure (some held)
        | none => call (.getPeerPin peerId)
      return some { digits, verified := (freshPin.map PeerPin.verified).getD false }

def markVerified (peerId : String) : Prog Unit := do
  match ← call (.getPeerPin peerId) with
  | none => throw (.error
      "No pinned identity for this contact yet — open the safety number first.")
  | some held => call (.savePeerPin { held with verified := true })

/-! `crypto/identity.ts` -/

def deriveBackupKey (code : String) (salt : Nat) : BackupKey where
  code := RecoveryCode.normalizeCode .latin (Utf.ofString code)
  salt := salt

def encryptAndUpload (salt : Nat) (key : BackupKey) : Prog Unit := do
  match ← call .loadIdentity with
  | none => throw (.error "No identity to back up")
  | some identity =>
      let sessions ← call .allSessions
      let exportedAt ← call .now
      call (.putBackup { salt, key, payload := { identity, sessions, exportedAt } })

def uploadBackup (code : String) : Prog Unit := do
  let salt ← call .randomSalt
  let key := deriveBackupKey code salt
  encryptAndUpload salt key
  call (.saveBackupKeyMaterial { salt, key })

def refreshBackup : Prog Bool := do
  match ← call .loadBackupKeyMaterial with
  | none => return false
  | some material =>
      encryptAndUpload material.salt material.key
      return true

def saveSessions : List StoredSession → Prog Unit
  | [] => pure ()
  | session :: rest => do
      call (.saveSession session)
      saveSessions rest

def restoreFromBackup (code : String) : Prog StoredIdentity := do
  let blob ← call .getBackup
  let key := deriveBackupKey code blob.salt
  if key ≠ blob.key then throw (.error "Recovery code incorrect or backup corrupted")
  call (.saveIdentity blob.payload.identity)
  saveSessions blob.payload.sessions
  call (.saveBackupKeyMaterial { salt := blob.salt, key })
  return blob.payload.identity

end E2EEService
