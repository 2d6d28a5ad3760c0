import CipherChat.Async.Program
import CipherChat.Crypto.Envelope
import CipherChat.Crypto.EnvelopeV2
import CipherChat.Store.Table
import Mathlib.Data.String.Basic
import Mathlib.Logic.Function.Basic

/-!
What one browser stores, and the operations the service awaits: one transaction of the
key store or the vault, one request, one lock, one draw.  An operation either fails and
changes nothing, or has its effect at once.
-/

namespace Store

open Number Primitives KeyStore Envelope EnvelopeV2

structure DekRow where
  convId : String
  key : Nat
  deriving DecidableEq

/-- A ratchet session sealed under the conversation key `key`. -/
structure RatchetRow where
  sessionId : String
  convId : String
  key : Nat
  session : RatchetSession
  deriving DecidableEq

/-- A plaintext sealed under the conversation key `key`. -/
structure MessageRow where
  id : String
  convId : String
  key : Nat
  text : List UInt16
  deriving DecidableEq

/-- The key PBKDF2 stretches a normalised recovery code to, under a salt. -/
structure BackupKey where
  code : List UInt16
  salt : Nat
  deriving DecidableEq

structure BackupPayload where
  identity : StoredIdentity
  sessions : List StoredSession
  exportedAt : Nat
  deriving DecidableEq

/-- `salt || iv || AES-GCM(payload)` -/
structure Blob where
  salt : Nat
  key : BackupKey
  payload : BackupPayload
  deriving DecidableEq

structure BackupKeyMaterial where
  salt : Nat
  key : BackupKey
  deriving DecidableEq

structure Device where
  identity : Option StoredIdentity
  sessions : Table StoredSession.sessionId
  peers : Table PeerPin.userId
  backupKey : Option BackupKeyMaterial
  deks : Table DekRow.convId
  ratchets : Table RatchetRow.sessionId
  messages : Table MessageRow.id
  v2Flag : Bool
  locks : String → Option Nat

inductive Op
  | acquire (name : String)
  | release (name : String)
  | loadIdentity
  | saveIdentity (identity : StoredIdentity)
  | loadSession (sessionId : String)
  | saveSession (session : StoredSession)
  | loadConversationSessions (conversationId : String)
  | allSessions
  | deleteConversationData (conversationId : String)
  | getPeerPin (userId : String)
  | savePeerPin (pin : PeerPin)
  | loadBackupKeyMaterial
  | saveBackupKeyMaterial (material : BackupKeyMaterial)
  | getDek (convId : String)
  | addDek (row : DekRow)
  | getRatchet (sessionId : String)
  | getRatchets (convId : String)
  | getMessage (id : String)
  | putCommit (ratchet : RatchetRow) (message : Option MessageRow)
  | deleteVault (convId : String)
  | shredConversationIndex (convId : String)
  | doubleRatchetEnabled
  | now
  | generateX25519
  | generateDek
  | randomSalt
  | randomUUID
  | getKeys (peerId : String)
  | putBackup (blob : Blob)
  | getBackup
  | refreshBackup

namespace Op

abbrev Val : Op → Type
  | loadIdentity => Option StoredIdentity
  | loadSession _ => Option StoredSession
  | loadConversationSessions _ => List StoredSession
  | allSessions => List StoredSession
  | deleteConversationData _ => Nat
  | getPeerPin _ => Option PeerPin
  | loadBackupKeyMaterial => Option BackupKeyMaterial
  | getDek _ => Option DekRow
  | getRatchet _ => Option RatchetRow
  | getRatchets _ => List RatchetRow
  | getMessage _ => Option MessageRow
  | deleteVault _ => Nat
  | doubleRatchetEnabled => Bool
  | now => Nat
  | generateX25519 => Nat
  | generateDek => Nat
  | randomSalt => Nat
  | randomUUID => String
  | getKeys _ => PeerBundle
  | getBackup => Blob
  | _ => Unit

abbrev Res (op : Op) : Type :=
  Except JsError op.Val

/-- Draws and synchronous calls cannot fail. -/
def canFail : Op → Bool
  | acquire _ | release _ | doubleRatchetEnabled | now | generateX25519 | generateDek
  | randomSalt | randomUUID | refreshBackup => false
  | _ => true

end Op

/-- What the environment chooses when an operation is performed. -/
structure Answer where
  fault : Bool := false
  time : Nat := 0
  name : Nat := 0
  uuid : String := ""
  bundle : Option PeerBundle := none
  blob : Option Blob := none

def reply (d : Device) (op : Op) (a : Answer) : op.Res :=
  match op with
  | .loadIdentity => .ok d.identity
  | .loadSession sessionId => .ok (d.sessions.get sessionId)
  | .loadConversationSessions conversationId =>
      .ok (d.sessions.rows.filter fun s => s.conversationId = conversationId)
  | .allSessions => .ok d.sessions.rows
  | .deleteConversationData conversationId =>
      .ok (d.sessions.rows.filter fun s => s.conversationId = conversationId).length
  | .getPeerPin userId => .ok (d.peers.get userId)
  | .loadBackupKeyMaterial => .ok d.backupKey
  | .getDek convId => .ok (d.deks.get convId)
  | .addDek row =>
      match d.deks.get row.convId with
      | none => .ok ()
      | some _ => .error (.dom "ConstraintError")
  | .getRatchet sessionId => .ok (d.ratchets.get sessionId)
  | .getRatchets convId => .ok (d.ratchets.rows.filter fun r => r.convId = convId)
  | .getMessage id => .ok (d.messages.get id)
  | .deleteVault convId =>
      .ok ((d.ratchets.rows.filter fun r => r.convId = convId).length +
        (d.messages.rows.filter fun m => m.convId = convId).length)
  | .doubleRatchetEnabled => .ok d.v2Flag
  | .now => .ok a.time
  | .generateX25519 => .ok a.name
  | .generateDek => .ok a.name
  | .randomSalt => .ok a.name
  | .randomUUID => .ok a.uuid
  | .getKeys _ =>
      match a.bundle with
      | some bundle => .ok bundle
      | none => .error (.error "Network Error")
  | .getBackup =>
      match a.blob with
      | some blob => .ok blob
      | none => .error (.error "Network Error")
  | .acquire _ | .release _ | .saveIdentity _ | .saveSession _ | .savePeerPin _
  | .saveBackupKeyMaterial _ | .putCommit _ _ | .shredConversationIndex _ | .putBackup _
  | .refreshBackup => .ok ()

/-- What a successful operation of thread `t` leaves. -/
def effect (t : Nat) (op : Op) (d : Device) : Device :=
  match op with
  | .acquire name => { d with locks := Function.update d.locks name (some t) }
  | .release name => { d with locks := Function.update d.locks name none }
  | .saveIdentity identity => { d with identity := some identity }
  | .saveSession session => { d with sessions := d.sessions.put session }
  | .deleteConversationData conversationId =>
      { d with sessions := d.sessions.remove fun s => s.conversationId = conversationId }
  | .savePeerPin pin => { d with peers := d.peers.put pin }
  | .saveBackupKeyMaterial material => { d with backupKey := some material }
  | .addDek row => { d with deks := d.deks.put row }
  | .putCommit ratchet message =>
      { d with
        ratchets := d.ratchets.put ratchet
        messages := match message with
          | some row => d.messages.put row
          | none => d.messages }
  | .deleteVault convId =>
      { d with
        deks := d.deks.remove fun row => row.convId = convId
        ratchets := d.ratchets.remove fun row => row.convId = convId
        messages := d.messages.remove fun row => row.convId = convId }
  | _ => d

/-- A lock held by some thread makes its next holder wait. -/
def blocked (op : Op) (d : Device) : Bool :=
  match op with
  | .acquire name => (d.locks name).isSome
  | _ => false

def perform (t : Nat) (d : Device) (op : Op) (a : Answer) : Option (op.Res × Device) :=
  if blocked op d then none
  else if a.fault && op.canFail then some (.error (.dom "AbortError"), d)
  else match reply d op a with
    | .error e => some (.error e, d)
    | .ok value => some (.ok value, effect t op d)

def Exec (t : Nat) (d : Device) (op : Op) (result : op.Res) (d' : Device) : Prop :=
  ∃ a, perform t d op a = some (result, d')

theorem exec_error {t : Nat} {d d' : Device} {op : Op} {e : JsError}
    (performed : Exec t d op (.error e) d') : d' = d := by
  obtain ⟨a, performed⟩ := performed
  simp only [perform] at performed
  split at performed
  · contradiction
  split at performed
  · simp only [Option.some.injEq, Prod.mk.injEq] at performed
    exact performed.2.symm
  split at performed
  · simp only [Option.some.injEq, Prod.mk.injEq] at performed
    exact performed.2.symm
  · simp at performed

theorem exec_ok {t : Nat} {d d' : Device} {op : Op} {value : op.Val} :
    Exec t d op (.ok value) d' ↔
      blocked op d = false ∧ (∃ a, reply d op a = .ok value) ∧ d' = effect t op d := by
  constructor
  · rintro ⟨a, performed⟩
    simp only [perform] at performed
    split at performed
    · contradiction
    next free =>
    split at performed
    · simp at performed
    split at performed
    · simp at performed
    next value' replied =>
      simp only [Option.some.injEq, Prod.mk.injEq, Except.ok.injEq] at performed
      obtain ⟨rfl, rfl⟩ := performed
      exact ⟨by simpa using free, ⟨a, replied⟩, rfl⟩
  · rintro ⟨free, ⟨a, replied⟩, rfl⟩
    refine ⟨{ a with fault := false }, ?_⟩
    have same : reply d op { a with fault := false } = .ok value := by
      rw [← replied]
      cases op <;> rfl
    simp [perform, free, same]

/-- An operation fails and changes nothing, or succeeds and has its effect. -/
theorem exec_cases {t : Nat} {d d' : Device} {op : Op} {result : op.Res}
    (performed : Exec t d op result d') :
    (∃ e, result = .error e ∧ d' = d) ∨
      ∃ value, result = .ok value ∧ d' = effect t op d ∧ ∃ a, reply d op a = .ok value := by
  cases result with
  | error e => exact .inl ⟨e, rfl, exec_error performed⟩
  | ok value =>
      obtain ⟨_, replied, after⟩ := exec_ok.mp performed
      exact .inr ⟨value, rfl, after, replied⟩

end Store
