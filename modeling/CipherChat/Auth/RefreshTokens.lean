import CipherChat.Async.Journal
import CipherChat.Database.ReadCommitted
import CipherChat.Rooms.Backend

/-!
`auth/RefreshTokenService.java` over its repository, and what `auth/AuthService.java` does
with it: programs that await one statement, or one row of a modifying statement, at a time.
-/

namespace Auth

open Async ReadCommitted
open Rooms (UUID JavaString Instant JavaError Cause Fault)

abbrev RawToken := JavaString

/-- The SHA-256 of a raw token: no two tokens have the same. -/
structure TokenHash where
  sha256 ::
  raw : RawToken
  deriving DecidableEq

structure RefreshToken where
  id : UUID
  userId : UUID
  tokenHash : TokenHash
  expiresAt : Instant
  familyId : UUID
  usedAt : Option Instant
  deriving DecidableEq

def RefreshToken.key (r : RefreshToken) : Nat :=
  r.id.toNat

def RefreshToken.live (r : RefreshToken) (now : Instant) : Bool :=
  r.usedAt.isNone && now < r.expiresAt

/-- The transaction of a request, and the one `isolated` opens beside it. -/
inductive Scope
  | main
  | isolated
  deriving DecidableEq

abbrev Tx := Nat × Scope

/-- The rows a statement of the repository is about. -/
inductive Target
  | unused (tokenHash : TokenHash) (now : Instant)
  | family (familyId : UUID)
  | others (userId keepFamily : UUID)
  | user (userId : UUID)
  | row (id : UUID)
  | expired (now usedBefore : Instant)
  deriving DecidableEq

def Target.holds (r : RefreshToken) : Target → Bool
  | unused tokenHash now => r.tokenHash = tokenHash && r.usedAt.isNone && now < r.expiresAt
  | family familyId => r.familyId = familyId
  | others userId keepFamily => r.userId = userId && r.familyId ≠ keepFamily
  | user userId => r.userId = userId
  | row id => r.id = id
  | expired now usedBefore =>
      r.expiresAt < now || match r.usedAt with
        | none => false
        | some usedAt => usedAt < usedBefore

/-- What a modifying statement does to a row. -/
inductive Change
  | markUsed (now : Instant)
  | delete
  deriving DecidableEq

structure AccessToken where
  subject : UUID
  issuedAt : Instant
  deriving DecidableEq

/-- What a request is answered with. -/
inductive Response
  | session (result : Except JavaError AccessToken)
  | count (result : Except JavaError Nat)
  | flag (result : Except JavaError Bool)
  | done (result : Except JavaError Unit)
  deriving DecidableEq

/-- `select` is the snapshot a modifying statement begins with, `modify` what it does to one
of the rows, once nobody else holds it; `save` draws the raw token and the identifiers of its
row.  A cookie that is cleared is set to nothing. -/
inductive Op
  | now
  | findByTokenHash (tokenHash : TokenHash)
  | findByIdAndUserId (id userId : UUID)
  | findLive (userId : UUID) (now : Instant)
  | select (scope : Scope) (target : Target)
  | modify (scope : Scope) (target : Target) (change : Change) (id : UUID)
  | save (userId : UUID) (expiresAt : Instant) (familyId : Option UUID)
  | commit (scope : Scope)
  | rollback (scope : Scope)
  | requireUser (userId : UUID)
  | setOnline (userId : UUID)
  | publish (detached : Bool) (action : String) (userId : Option UUID)
  | setCookie (value : Option RawToken)
  | respond (response : Response)
  deriving DecidableEq

namespace Op

abbrev Val : Op → Type
  | now => Instant
  | findByTokenHash _ | findByIdAndUserId .. => Option RefreshToken
  | findLive .. | select .. => List RefreshToken
  | modify .. => Nat
  | save .. => RawToken
  | _ => Unit

abbrev Res (op : Op) : Type :=
  Except JavaError op.Val

end Op

/-- The table, the users, what has been drawn at random so far, and the cookie each thread
has put on its response. -/
structure Server where
  db : Database RefreshToken.key Tx
  users : List UUID
  uuids : List UUID
  raws : List RawToken
  cookies : Nat → Option (Option RawToken)

/-- What the run decides about one operation. -/
structure Answer where
  fault : Option Fault := none
  now : Instant := 0
  id : UUID := 0
  family : UUID := 0
  raw : RawToken := []

instance : Inhabited Answer :=
  ⟨{}⟩

namespace Server

variable (s : Server) (t : Nat)

def setDb (db : Database RefreshToken.key Tx) : Server :=
  { s with db }

def change (tx : Tx) (r : RefreshToken) : Change → Server
  | .markUsed now => s.setDb (s.db.write tx { r with usedAt := some now })
  | .delete => s.setDb (s.db.erase tx r.key)

/-- A statement reaches a row it has selected; `none` while another transaction holds it. -/
def modify (scope : Scope) (target : Target) (change : Change) (id : UUID) : Option (Nat × Server) :=
  if s.db.locked (t, scope) id.toNat then none
  else match (s.db.view (t, scope) id.toNat).filter target.holds with
    | none => some (0, s)
    | some r => some (1, s.change (t, scope) r change)

/-- A row under a new id, with a new token, and in a new family unless it continues one. -/
def save (userId : UUID) (expiresAt : Instant) (familyId : Option UUID) (a : Answer) :
    Option (RawToken × Server) :=
  if a.id ∈ s.uuids ∨ a.raw ∈ s.raws ∨ a.family ∈ s.uuids ∨ a.family = a.id then none
  else
    let r : RefreshToken := {
      id := a.id
      userId := userId
      tokenHash := .sha256 a.raw
      expiresAt := expiresAt
      familyId := familyId.getD a.family
      usedAt := none }
    some (a.raw, { s with
      db := s.db.write (t, .main) r
      uuids := a.id :: a.family :: s.uuids
      raws := a.raw :: s.raws })

end Server

/-- The effect of an operation; `none` while it has to wait for another transaction. -/
def effect (t : Nat) (s : Server) (op : Op) (a : Answer) : Option (op.Res × Server) :=
  match op with
  | .now => some (.ok a.now, s)
  | .findByTokenHash tokenHash =>
      some (.ok ((s.db.visible (t, .main)).find? fun r => r.tokenHash = tokenHash), s)
  | .findByIdAndUserId id userId =>
      some (.ok ((s.db.view (t, .main) id.toNat).filter fun r => r.userId = userId), s)
  | .findLive userId now =>
      some (.ok ((s.db.visible (t, .main)).filter fun r => r.userId = userId && r.live now), s)
  | .select scope target => some (.ok ((s.db.visible (t, scope)).filter target.holds), s)
  | .modify scope target change id =>
      (s.modify t scope target change id).map fun (n, s') => (.ok n, s')
  | .save userId expiresAt familyId =>
      (s.save t userId expiresAt familyId a).map fun (raw, s') => (.ok raw, s')
  | .commit scope => some (.ok (), s.setDb (s.db.commit (t, scope)))
  | .rollback scope => some (.ok (), s.setDb (s.db.rollback (t, scope)))
  | .requireUser userId =>
      if userId ∈ s.users then some (.ok (), s)
      else some (.error (.notFound "user_not_found" "User not found."), s)
  | .setCookie value => some (.ok (), { s with cookies := Function.update s.cookies t (some value) })
  | .setOnline _ | .publish .. | .respond _ => some (.ok (), s)

/-- Without its effect an operation changes nothing, but a transaction whose end fails is
rolled back. -/
def failed (t : Nat) (s : Server) : Op → Server
  | .commit scope | .rollback scope => s.setDb (s.db.rollback (t, scope))
  | _ => s

def perform (t : Nat) (s : Server) (op : Op) (a : Answer) : Option (op.Res × Server) :=
  faulty .thrown a.fault (effect t s op a) (failed t s op)

/-- Performed in `s`, the operation may answer so and leave `s'`. -/
def Exec (t : Nat) (s : Server) (op : Op) (result : op.Res) (s' : Server) : Prop :=
  ∃ a, perform t s op a = some (result, s')

abbrev Prog (α : Type) := Throwing JavaError Op Op.Res α

def call (op : Op) : Prog op.Val :=
  ExceptT.mk (Program.call op)

/-! `auth/RefreshTokenRepository.java` -/

/-- The rest of a modifying statement: the number of rows it has changed. -/
def modifyEach (scope : Scope) (target : Target) (change : Change) : List UUID → Prog Nat
  | [] => return 0
  | id :: rest => do
      let n ← call (.modify scope target change id)
      return n + (← modifyEach scope target change rest)

def modifying (scope : Scope) (target : Target) (change : Change) : Prog Nat := do
  let rows ← call (.select scope target)
  modifyEach scope target change (rows.map RefreshToken.id)

def markUsed (tokenHash : TokenHash) (now : Instant) : Prog Nat :=
  modifying .main (.unused tokenHash now) (.markUsed now)

def deleteByFamilyId (scope : Scope) (familyId : UUID) : Prog Nat :=
  modifying scope (.family familyId) .delete

def deleteAllByUserIdExceptFamily (userId keepFamily : UUID) : Prog Nat :=
  modifying .main (.others userId keepFamily) .delete

/-- Entities are removed one by one, and each has to be there still. -/
def removeEach : List UUID → Prog Unit
  | [] => return ()
  | id :: rest => do
      let n ← call (.modify .main (.row id) .delete id)
      if n = 1 then removeEach rest
      else throw (.thrown .dataAccess)

def deleteByUserId (userId : UUID) : Prog Unit := do
  let rows ← call (.select .main (.user userId))
  removeEach (rows.map RefreshToken.id)

def deleteExpired (now usedBefore : Instant) : Prog Nat :=
  modifying .main (.expired now usedBefore) .delete

/-! `auth/RefreshTokenService.java` -/

def REUSE_GRACE : Int :=
  10000

def USED_ROW_RETENTION : Int :=
  7 * 24 * 3600000

/-- `cipherchat.security.refresh-token-ttl` -/
def refreshTokenTtl : Int :=
  30 * 24 * 3600000

/-- `@Transactional`, `TransactionTemplate.execute`: the transaction ends with the body. -/
def transactional {α : Type} (scope : Scope) (body : Prog α) : Prog α := do
  let value ← tryCatch body fun e => do
    call (.rollback scope)
    throw e
  call (.commit scope)
  return value

structure Issued where
  rawToken : RawToken
  expiresAt : Instant

inductive RotationOutcome
  | ROTATED
  | UNKNOWN
  | CONCURRENT
  | REUSED
  deriving DecidableEq

structure Rotation where
  outcome : RotationOutcome
  userId : Option UUID
  issued : Option Issued
  revokedSessions : Nat

def Rotation.ok (rotation : Rotation) : Bool :=
  rotation.outcome = .ROTATED

/-- A token of the family, or of a new one. -/
def issue (userId : UUID) (familyId : Option UUID) : Prog Issued := do
  let now ← call .now
  let expiresAt := now + refreshTokenTtl
  let raw ← call (.save userId expiresAt familyId)
  return ⟨raw, expiresAt⟩

/-- `row.getUsedAt() == null && tokens.markUsed(h, now) == 1` -/
def claim (row : RefreshToken) (tokenHash : TokenHash) (now : Instant) : Prog Bool :=
  match row.usedAt with
  | none => do
      let n ← markUsed tokenHash now
      return n = 1
  | some _ => return false

/-- Already used: by a sibling tab a moment ago, or by someone else entirely. -/
def refuse (row : RefreshToken) (now : Instant) : Prog Rotation := do
  let usedAt := row.usedAt.getD now
  if now - usedAt ≤ REUSE_GRACE then
    return { outcome := .CONCURRENT, userId := some row.userId, issued := none, revokedSessions := 0 }
  else
    let revoked ← transactional .isolated (deleteByFamilyId .isolated row.familyId)
    return { outcome := .REUSED, userId := some row.userId, issued := none, revokedSessions := revoked }

def rotateRow (row : RefreshToken) (tokenHash : TokenHash) (now : Instant) : Prog Rotation := do
  if ← claim row tokenHash now then
    let issued ← issue row.userId (some row.familyId)
    return { outcome := .ROTATED, userId := some row.userId, issued := some issued, revokedSessions := 0 }
  else refuse row now

def rotate (rawToken : RawToken) : Prog Rotation := do
  let h := TokenHash.sha256 rawToken
  let now ← call .now
  match ← call (.findByTokenHash h) with
  | none => return { outcome := .UNKNOWN, userId := none, issued := none, revokedSessions := 0 }
  | some row =>
      if now < row.expiresAt then rotateRow row h now
      else return { outcome := .UNKNOWN, userId := some row.userId, issued := none, revokedSessions := 0 }

def revoke (rawToken : RawToken) : Prog Unit := do
  match ← call (.findByTokenHash (.sha256 rawToken)) with
  | none => return ()
  | some t =>
      let _ ← deleteByFamilyId .main t.familyId

def revokeSession (userId sessionId : UUID) : Prog Bool := do
  match ← call (.findByIdAndUserId sessionId userId) with
  | none => return false
  | some t =>
      let n ← deleteByFamilyId .main t.familyId
      return 0 < n

def keepFamily : Option RawToken → Prog (Option UUID)
  | none => return none
  | some currentRawToken => do
      let found ← call (.findByTokenHash (.sha256 currentRawToken))
      return found.map RefreshToken.familyId

/-- The deletion of `revokeOthers`. -/
def deleteOthers (userId : UUID) : Option UUID → Prog Unit
  | none => deleteByUserId userId
  | some keep => do
      let _ ← deleteAllByUserIdExceptFamily userId keep

def revokeOthers (userId : UUID) (currentRawToken : Option RawToken) : Prog Nat := do
  let keep ← keepFamily currentRawToken
  let now ← call .now
  let rows ← call (.findLive userId now)
  deleteOthers userId keep
  return (rows.filter fun t => some t.familyId ≠ keep).length

def sweepExpired : Prog Unit :=
  transactional .main do
    let now ← call .now
    let _ ← deleteExpired now (now - USED_ROW_RETENTION)

/-! `auth/AuthService.java`, `auth/AuthController.java` -/

def unauthorized (code message : String) : JavaError :=
  .api 401 code message

def refreshInvalid : JavaError :=
  unauthorized "refresh_invalid" "Refresh token invalid or expired."

def issueAccessToken (userId : UUID) : Prog AccessToken := do
  let now ← call .now
  return ⟨userId, now⟩

def startSession (userId : UUID) : Prog AccessToken := do
  let issued ← issue userId none
  call (.setCookie (some issued.rawToken))
  call (.setOnline userId)
  issueAccessToken userId

/-- The transaction of `register` and `login`, once the password has been verified. -/
def login (userId : UUID) : Prog AccessToken :=
  transactional .main do
    call (.publish false "user.login" (some userId))
    startSession userId

/-- An operation that is performed only if a condition holds. -/
def onlyIf (condition : Bool) (action : Prog Unit) : Prog Unit :=
  if condition then action else return ()

/-- What `refresh` does with a token it does not rotate. -/
def rejectRotation (rotation : Rotation) : Prog AccessToken := do
  onlyIf (rotation.outcome ≠ .CONCURRENT) (call (.setCookie none))
  let action := if rotation.outcome = .REUSED then "user.refresh_reuse_detected" else "user.refresh_rejected"
  call (.publish true action rotation.userId)
  throw refreshInvalid

def acceptRotation (userId : UUID) (issued : Issued) : Prog AccessToken := do
  call (.setCookie (some issued.rawToken))
  call (.requireUser userId)
  issueAccessToken userId

def answerRotation (rotation : Rotation) : Prog AccessToken :=
  match rotation.ok, rotation.userId, rotation.issued with
  | true, some userId, some issued => acceptRotation userId issued
  | _, _, _ => rejectRotation rotation

def refresh (cookie : Option RawToken) : Prog AccessToken :=
  transactional .main do
    match cookie with
    | none => throw refreshInvalid
    | some raw =>
        let rotation ← rotate raw
        answerRotation rotation

def revokePresented : Option RawToken → Prog Unit
  | none => return ()
  | some raw => revoke raw

def logout (userId : Option UUID) (cookie : Option RawToken) : Prog Unit :=
  transactional .main do
    revokePresented cookie
    call (.setCookie none)
    onlyIf userId.isSome (call (.publish false "user.logout" userId))

def revokeOwnSession (userId sessionId : UUID) : Prog Bool :=
  transactional .main do
    let revoked ← revokeSession userId sessionId
    onlyIf revoked (call (.publish false "user.session_revoked" (some userId)))
    return revoked

def revokeOtherSessions (userId : UUID) (cookie : Option RawToken) : Prog Nat :=
  transactional .main do
    let n ← revokeOthers userId cookie
    call (.publish false "user.sessions_revoked" (some userId))
    return n

/-- A request with the cookie it carries, or the hourly sweep. -/
inductive Call
  | login (userId : UUID)
  | refresh (cookie : Option RawToken)
  | logout (userId : Option UUID) (cookie : Option RawToken)
  | revokeSession (userId sessionId : UUID)
  | revokeOtherSessions (userId : UUID) (cookie : Option RawToken)
  | sweepExpired
  deriving DecidableEq

def answer {α : Type} (response : Except JavaError α → Response) (body : Prog α) : Prog Unit := do
  let result ← settle body
  call (.respond (response result))

def Call.program : Call → Prog Unit
  | login userId => answer .session (Auth.login userId)
  | refresh cookie => answer .session (Auth.refresh cookie)
  | logout userId cookie => answer .done (Auth.logout userId cookie)
  | revokeSession userId sessionId => answer .flag (revokeOwnSession userId sessionId)
  | revokeOtherSessions userId cookie => answer .count (Auth.revokeOtherSessions userId cookie)
  | sweepExpired => Auth.sweepExpired

/-- The server under its requests. -/
def service : Service Op Op.Res Server Call (Except JavaError Unit) where
  program call := call.program.run
  exec := Exec

abbrev Event := Entry Op Op.Res Server Call

abbrev History := Journal Op Op.Res Server Call

end Auth
