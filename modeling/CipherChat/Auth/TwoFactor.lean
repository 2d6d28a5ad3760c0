import CipherChat.Async.Journal
import CipherChat.Database.ReadCommitted
import CipherChat.Rooms.Backend

/-!
`auth/TwoFactorService.java`, and the second step of a login in `auth/AuthService.java`.  An
entity is read once; what a call changes of it is written as a whole when the call is over.
-/

namespace TwoFactorAuth

open Async ReadCommitted
open Rooms (UUID JavaString Instant JavaError Cause Fault)

/-- The BCrypt hash of a backup code: it matches no other. -/
structure BackupHash where
  encode ::
  code : JavaString
  deriving DecidableEq

structure TwoFactor where
  userId : UUID
  enabled : Bool
  secretSealed : JavaString
  backupCodes : List BackupHash
  enabledAt : Option Instant
  deriving DecidableEq

def TwoFactor.key (tf : TwoFactor) : Nat :=
  tf.userId.toNat

structure VerifyResult where
  ok : Bool
  usedBackupCode : Bool
  backupCodesLeft : Nat
  deriving DecidableEq

def VerifyResult.FAIL : VerifyResult :=
  ⟨false, false, 0⟩

inductive Response
  | session (result : Except JavaError VerifyResult)
  | secret (result : Except JavaError JavaString)
  | codes (result : Except JavaError (List BackupHash))
  | done (result : Except JavaError Unit)
  deriving DecidableEq

/-- `totp` compares a code with the one of the moment; `enable` writes a row with new backup
codes. -/
inductive Op
  | now
  | throttle (userId : UUID)
  | findById (userId : UUID)
  | totp (secretSealed code : JavaString)
  | generateSecret
  | update (tf : TwoFactor)
  | enable (tf : TwoFactor)
  | insert (tf : TwoFactor)
  | delete (userId : UUID)
  | commit
  | rollback
  | requireUser (userId : UUID)
  | publish (detached : Bool) (action : String) (userId : UUID)
  | startSession (userId : UUID)
  | respond (response : Response)
  deriving DecidableEq

namespace Op

abbrev Val : Op → Type
  | now => Instant
  | findById _ => Option TwoFactor
  | totp .. => Bool
  | generateSecret => JavaString
  | enable _ => List BackupHash
  | _ => Unit

abbrev Res (op : Op) : Type :=
  Except JavaError op.Val

end Op

/-- The table, and the codes each user was ever given. -/
structure Server where
  db : Database TwoFactor.key Nat
  issued : List (UUID × BackupHash)

/-- What the run decides about one operation. -/
structure Answer where
  fault : Option Fault := none
  now : Instant := 0
  totp : Bool := false
  secret : JavaString := []
  codes : List BackupHash := []

instance : Inhabited Answer :=
  ⟨{}⟩

def BACKUP_CODE_COUNT : Nat :=
  8

namespace Server

variable (s : Server) (t : Nat)

def setDb (db : Database TwoFactor.key Nat) : Server :=
  { s with db }

/-- The row as a statement finds it, once nobody else holds it. -/
def reach (userId : UUID) : Option (Option TwoFactor) :=
  if s.db.locked t userId.toNat then none else some (s.db.view t userId.toNat)

/-- Of one row there has to be one to change. -/
def stale : JavaError :=
  .thrown .dataAccess

def update (tf : TwoFactor) : Option (Except JavaError Unit × Server) :=
  (s.reach t tf.userId).map fun
    | some _ => (.ok (), s.setDb (s.db.write t tf))
    | none => (.error stale, s)

/-- Codes that the user has not been given before. -/
def enable (tf : TwoFactor) (codes : List BackupHash) :
    Option (Except JavaError (List BackupHash) × Server) :=
  if codes.length = BACKUP_CODE_COUNT ∧ codes.Nodup ∧ ∀ c ∈ codes, (tf.userId, c) ∉ s.issued then
    (s.reach t tf.userId).map fun
      | some _ => (.ok codes, {
          db := s.db.write t { tf with backupCodes := codes }
          issued := codes.map (tf.userId, ·) ++ s.issued })
      | none => (.error stale, s)
  else none

def insert (tf : TwoFactor) : Option (Except JavaError Unit × Server) :=
  (s.reach t tf.userId).map fun
    | some _ => (.error (.thrown .dataIntegrity), s)
    | none => (.ok (), s.setDb (s.db.write t tf))

def delete (userId : UUID) : Option (Except JavaError Unit × Server) :=
  (s.reach t userId).map fun
    | some _ => (.ok (), s.setDb (s.db.erase t userId.toNat))
    | none => (.error stale, s)

end Server

/-- The effect of an operation; `none` while it has to wait for another transaction. -/
def effect (t : Nat) (s : Server) (op : Op) (a : Answer) : Option (op.Res × Server) :=
  match op with
  | .now => some (.ok a.now, s)
  | .findById userId => some (.ok (s.db.view t userId.toNat), s)
  | .totp .. => some (.ok a.totp, s)
  | .generateSecret => some (.ok a.secret, s)
  | .update tf => s.update t tf
  | .enable tf => s.enable t tf a.codes
  | .insert tf => s.insert t tf
  | .delete userId => s.delete t userId
  | .commit => some (.ok (), s.setDb (s.db.commit t))
  | .rollback => some (.ok (), s.setDb (s.db.rollback t))
  | .throttle _ | .requireUser _ | .publish .. | .startSession _ | .respond _ => some (.ok (), s)

/-- A transaction whose end fails is rolled back. -/
def failed (t : Nat) (s : Server) : Op → Server
  | .commit | .rollback => s.setDb (s.db.rollback t)
  | _ => s

def perform (t : Nat) (s : Server) (op : Op) (a : Answer) : Option (op.Res × Server) :=
  faulty .thrown a.fault (effect t s op a) (failed t s op)

def Exec (t : Nat) (s : Server) (op : Op) (result : op.Res) (s' : Server) : Prop :=
  ∃ a, perform t s op a = some (result, s')

abbrev Prog (α : Type) := Throwing JavaError Op Op.Res α

def call (op : Op) : Prog op.Val :=
  ExceptT.mk (Program.call op)

/-! `auth/TwoFactorService.java` -/

/-- What `verify` says of a code, and the entity if it has changed. -/
abbrev Verified := VerifyResult × Option TwoFactor

/-- `code` is trimmed and in upper case. -/
def checkCode (tf : TwoFactor) (code : JavaString) (totp : Bool) : Verified :=
  let codes := tf.backupCodes
  if totp then (⟨true, false, codes.length⟩, none)
  else match codes.findIdx? fun h => h = .encode code with
    | some i =>
        let remaining := codes.eraseIdx i
        (⟨true, true, remaining.length⟩, some { tf with backupCodes := remaining })
    | none => (.FAIL, none)

def verify (tf : TwoFactor) (code : JavaString) : Prog Verified := do
  let totp ← call (.totp tf.secretSealed code)
  return checkCode tf code totp

def verifyEnabled (code : JavaString) : Option TwoFactor → Prog Verified
  | some tf => verify tf code
  | none => return (.FAIL, none)

def verifyLogin (userId : UUID) (code : JavaString) : Prog Verified := do
  let found ← call (.findById userId)
  verifyEnabled code (found.filter TwoFactor.enabled)

/-- The entity is written when the transaction ends, if it has changed. -/
def flush : Option TwoFactor → Prog Unit
  | some tf => call (.update tf)
  | none => return ()

def inTransaction {α : Type} (body : Prog α) : Prog α :=
  transactional (call .rollback) (call .commit) body

def unauthorized (code message : String) : JavaError :=
  .api 401 code message

def badCode (message : String) : JavaError :=
  unauthorized "2fa_bad_code" message

/-- `enabled = false`, and no backup codes. -/
def newTwoFactor (userId : UUID) (secretSealed : JavaString) : TwoFactor where
  userId := userId
  enabled := false
  secretSealed := secretSealed
  backupCodes := []
  enabledAt := none

def alreadyEnabled : JavaError :=
  .api 409 "2fa_already_enabled" "Two-factor authentication is already enabled."

/-- `repo.save` of a new entity that has an id: it is merged into the row there is. -/
def merge (tf : TwoFactor) (managed : Option TwoFactor) : Prog Unit := do
  match managed with
  | some _ => call (.update tf)
  | none =>
      match ← call (.findById tf.userId) with
      | some _ => call (.update tf)
      | none => call (.insert tf)

def setup (userId : UUID) : Prog JavaString :=
  inTransaction do
    let existing ← call (.findById userId)
    if (existing.map TwoFactor.enabled).getD false then throw alreadyEnabled
    else
      let secret ← call .generateSecret
      merge (newTwoFactor userId secret) existing
      return secret

def activate (tf : TwoFactor) (code : JavaString) : Prog (List BackupHash) := do
  if tf.enabled then throw alreadyEnabled
  else
    let totp ← call (.totp tf.secretSealed code)
    if totp then
      let now ← call .now
      call (.enable { tf with enabled := true, enabledAt := some now })
    else throw (badCode "That code didn't match — check your authenticator app.")

def enable (userId : UUID) (code : JavaString) : Prog (List BackupHash) :=
  inTransaction do
    match ← call (.findById userId) with
    | none => throw (.api 400 "2fa_not_setup" "Run setup first.")
    | some tf => activate tf code

def disableEnabled (code : JavaString) : Option TwoFactor → Prog Unit
  | none => throw (.api 400 "2fa_not_enabled" "Two-factor authentication is not enabled.")
  | some tf => do
      let (result, _) ← verify tf code
      if result.ok then call (.delete tf.userId)
      else throw (badCode "That code didn't match.")

def disable (userId : UUID) (code : JavaString) : Prog Unit :=
  inTransaction do
    let found ← call (.findById userId)
    disableEnabled code (found.filter TwoFactor.enabled)

/-! `auth/AuthService.java` -/

def finishLogin (userId : UUID) (verified : Verified) : Prog VerifyResult := do
  let (result, changed) := verified
  if result.ok then
    call (.requireUser userId)
    call (.publish false "user.login" userId)
    call (.startSession userId)
    flush changed
    return result
  else
    call (.publish true "user.login_failed" userId)
    throw (badCode "That code didn't match.")

def completeTwoFactorLogin (userId : UUID) (code : JavaString) : Prog VerifyResult :=
  inTransaction do
    call (.throttle userId)
    let verified ← verifyLogin userId code
    finishLogin userId verified

inductive Call
  | login (userId : UUID) (code : JavaString)
  | disable (userId : UUID) (code : JavaString)
  | setup (userId : UUID)
  | enable (userId : UUID) (code : JavaString)
  deriving DecidableEq

def answer {α : Type} (response : Except JavaError α → Response) (body : Prog α) : Prog Unit := do
  let result ← settle body
  call (.respond (response result))

def Call.program : Call → Prog Unit
  | login userId code => answer .session (completeTwoFactorLogin userId code)
  | disable userId code => answer .done (TwoFactorAuth.disable userId code)
  | setup userId => answer .secret (TwoFactorAuth.setup userId)
  | enable userId code => answer .codes (TwoFactorAuth.enable userId code)

def service : Service Op Op.Res Server Call (Except JavaError Unit) where
  program call := call.program.run
  exec := Exec

abbrev Event := Entry Op Op.Res Server Call

abbrev History := Journal Op Op.Res Server Call

end TwoFactorAuth
