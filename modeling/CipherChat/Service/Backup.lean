import CipherChat.Service.E2EE

/-!
The recovery backup over runs: `uploadBackup` and `refreshBackup` started at any time, several of
them under way at once, with their requests reaching the server in any order. Each call is followed
from one awaited operation to the next.
-/

namespace Backup

open Async Primitives KeyStore Store E2EEService

/-- How far a call has come. -/
inductive Stage
  /-- `loadBackupKeyMaterial` comes next. -/
  | start
  | keyed (material : BackupKeyMaterial)
  | identified (material : BackupKeyMaterial) (identity : StoredIdentity)
  | read (material : BackupKeyMaterial) (identity : StoredIdentity) (sessions : List StoredSession)
  | sending (blob : Blob)
  | answered (blob : Blob)

namespace Stage

def material : Stage → Option BackupKeyMaterial
  | start => none
  | keyed m | identified m _ | read m _ _ => some m
  | sending b | answered b => some { salt := b.salt, key := b.key }

def identity : Stage → Option StoredIdentity
  | start | keyed _ => none
  | identified _ i | read _ i _ => some i
  | sending b | answered b => some b.payload.identity

def sessions : Stage → Option (List StoredSession)
  | start | keyed _ | identified _ _ => none
  | read _ _ s => some s
  | sending b | answered b => some b.payload.sessions

/-- What is left of `encryptAndUpload`. -/
def uploading : Stage → Prog Unit
  | start => do
      match ← call .loadBackupKeyMaterial with
      | none => throw (.error "")
      | some m => encryptAndUpload m.salt m.key
  | keyed m => encryptAndUpload m.salt m.key
  | identified m identity => do
      let sessions ← call .allSessions
      let exportedAt ← call .now
      call (.putBackup { salt := m.salt, key := m.key, payload := { identity, sessions, exportedAt } })
  | read m identity sessions => do
      let exportedAt ← call .now
      call (.putBackup { salt := m.salt, key := m.key, payload := { identity, sessions, exportedAt } })
  | sending b => call (.putBackup b)
  | answered _ => pure ()

end Stage

/-- One call: the code of an upload, or none. It notes how many uploads had been started when its key
was made, and how many changes there had been when it read the identity. -/
structure Call where
  code : Option String
  stage : Stage
  epoch : Nat := 0
  version : Nat := 0

structure World where
  device : Device
  /-- The server's row. -/
  blob : Option Blob := none
  /-- The code of the upload that was done last. -/
  recovery : Option String := none
  calls : List Call := []
  changes : Nat := 0
  uploads : Nat := 0
  /-- The code of the upload that was started last. -/
  latest : Option String := none
  materialEpoch : Nat := 0
  blobEpoch : Nat := 0
  blobVersion : Nat := 0

def MAX_BACKUP_BYTES : Nat :=
  128 * 1024

/-- The length of the blob in base64: salt, iv, text and tag. How long `JSON.stringify` makes the
payload is a parameter. -/
def blobLength (bytes : BackupPayload → Nat) (payload : BackupPayload) : Nat :=
  4 * ((16 + 12 + (bytes payload + 16) + 2) / 3)

section Steps

variable (bytes : BackupPayload → Nat)

/-- The next operation of a call goes well; what becomes of the call. -/
def proceed (w : World) (c : Call) (time : Nat) : World × Option Call :=
  match c.stage with
  | .start =>
      match w.device.backupKey with
      | none => (w, none)
      | some m => (w, some { c with stage := .keyed m, epoch := w.materialEpoch })
  | .keyed m =>
      match w.device.identity with
      | none => (w, none)
      | some identity => (w, some { c with stage := .identified m identity, version := w.changes })
  | .identified m identity => (w, some { c with stage := .read m identity w.device.sessions.rows })
  | .read m identity sessions => (w, some { c with stage := .sending {
      salt := m.salt, key := m.key, payload := { identity, sessions, exportedAt := time } } })
  | .sending b =>
      if MAX_BACKUP_BYTES < blobLength bytes b.payload then (w, none)
      else ({ w with blob := some b, blobEpoch := c.epoch, blobVersion := c.version },
        some { c with stage := .answered b })
  | .answered b =>
      match c.code with
      | none => (w, none)
      | some code => ({ w with
          device := { w.device with backupKey := some { salt := b.salt, key := b.key } }
          materialEpoch := c.epoch
          recovery := some code }, none)

inductive Start
  | refresh
  | upload (code : String) (salt : Nat)

def begin (w : World) : Start → World
  | .refresh => { w with calls := w.calls ++ [{ code := none, stage := .start }] }
  | .upload code salt =>
      let material := { salt, key := deriveBackupKey code salt }
      { w with
        uploads := w.uploads + 1
        latest := some code
        calls := w.calls ++ [{ code := some code, stage := .keyed material, epoch := w.uploads + 1 }] }

/-- What a session is restored for. -/
def chains (s : StoredSession) : String × Base64 × Base64 :=
  (s.sessionId, s.ckInit, s.ckResp)

inductive Action
  | begin (start : Start)
  /-- Identity or sessions change, and a call is started for it. -/
  | change (identity : Option StoredIdentity) (sessions : Table StoredSession.sessionId)
      (start : Start)
  /-- The counters of the sessions move on. -/
  | count (sessions : Table StoredSession.sessionId)
  | proceed (n : Nat) (time : Nat)
  /-- The operation of a call fails, or the answer to it is lost. -/
  | fault (n : Nat)

def step (w : World) : Action → World
  | .begin start => begin w start
  | .change identity sessions start =>
      begin { w with device := { w.device with identity, sessions }, changes := w.changes + 1 } start
  | .count sessions =>
      if sessions.rows.map chains = w.device.sessions.rows.map chains then
        { w with device := { w.device with sessions } }
      else w
  | .proceed n time =>
      match w.calls[n]? with
      | none => w
      | some c =>
          let (w', next) := proceed bytes w c time
          { w' with calls := w.calls.take n ++ next.toList ++ w.calls.drop (n + 1) }
  | .fault n => { w with calls := w.calls.eraseIdx n }

def run (w : World) (actions : List Action) : World :=
  actions.foldl (step bytes) w

end Steps

section Programs

/-- The first operations, and what they leave of the programs. -/
theorem uploadBackup_follows (code : String) : ∃ next,
    uploadBackup code = (.await .randomSalt next : Program Op Op.Res _) ∧ ∀ salt, next (.ok salt) =
      (do
        (Stage.keyed { salt, key := deriveBackupKey code salt }).uploading
        call (.saveBackupKeyMaterial { salt, key := deriveBackupKey code salt }) : Prog Unit) :=
  ⟨_, rfl, fun _ => rfl⟩

theorem refreshBackup_follows : ∃ next,
    refreshBackup = (.await .loadBackupKeyMaterial next : Program Op Op.Res _) ∧
      next (.ok none) = (pure false : Prog Bool) ∧
      ∀ m, next (.ok (some m)) = (do (Stage.keyed m).uploading; pure true : Prog Bool) :=
  ⟨_, rfl, rfl, fun _ => rfl⟩

/-- A call goes on as `encryptAndUpload` does. -/
theorem proceed_follows (bytes : BackupPayload → Nat) {w w' : World} {c c' : Call} {time : Nat}
    (went : proceed bytes w c time = (w', some c')) :
    ∃ op value next, c.stage.uploading = (.await op next : Program Op Op.Res _) ∧
      reply w.device op { time } = .ok value ∧ next (.ok value) = c'.stage.uploading := by
  obtain ⟨code, stage, epoch, version⟩ := c
  cases stage with
  | start =>
      simp only [proceed] at went
      split at went
      · cases went
      next m found =>
        cases went
        exact ⟨.loadBackupKeyMaterial, some m, _, rfl, by rw [reply, found], rfl⟩
  | keyed m =>
      simp only [proceed] at went
      split at went
      · cases went
      next identity found =>
        cases went
        exact ⟨.loadIdentity, some identity, _, rfl, by rw [reply, found], rfl⟩
  | identified m identity =>
      cases went
      exact ⟨.allSessions, w.device.sessions.rows, _, rfl, rfl, rfl⟩
  | read m identity sessions =>
      cases went
      exact ⟨.now, time, _, rfl, rfl, rfl⟩
  | sending b =>
      simp only [proceed] at went
      split at went
      · cases went
      · cases went
        exact ⟨.putBackup b, (), _, rfl, rfl, rfl⟩
  | answered b =>
      simp only [proceed] at went
      split at went <;> cases went

end Programs

section Order

/-- The payload that `restoreFromBackup` goes on with. -/
def openedWith (code : String) (blob : Blob) : Option BackupPayload :=
  if deriveBackupKey code blob.salt = blob.key then some blob.payload else none

/-- The recovery code gives back the identity and the chain keys of the store. -/
def Restores (w : World) : Prop :=
  ∀ code, w.recovery = some code → ∃ blob payload, w.blob = some blob ∧
    openedWith code blob = some payload ∧ w.device.identity = some payload.identity ∧
    payload.sessions.map chains = w.device.sessions.rows.map chains

variable (bytes : BackupPayload → Nat)

/-- One upload is under way at a time. -/
def Start.Alone (w : World) : Start → Prop
  | refresh => True
  | upload _ _ => ∀ c ∈ w.calls, c.code = none

/-- What the next operation of a call must find: a refresh finds the key material, or every upload has
the store yet to read; there is an identity; the server takes the blob, and has none that was read
after a later change or that is under a newer code. -/
def Call.Clear (w : World) (c : Call) : Prop :=
  match c.stage with
  | .start => w.device.backupKey = none → ∀ c' ∈ w.calls, c'.code ≠ none → ∃ m, c'.stage = .keyed m
  | .keyed _ => w.device.identity ≠ none
  | .sending b => blobLength bytes b.payload ≤ MAX_BACKUP_BYTES ∧
      (w.blob ≠ none → w.blobVersion ≤ c.version ∧ w.blobEpoch ≤ c.epoch)
  | _ => True

def Clear (w : World) : Action → Prop
  | .begin start | .change _ _ start => start.Alone w
  | .count _ => True
  | .proceed n _ => ∀ c, w.calls[n]? = some c → c.Clear bytes w
  | .fault _ => False

def ClearRun (w : World) : List Action → Prop
  | [] => True
  | action :: rest => Clear bytes w action ∧ ClearRun (step bytes w action) rest

variable {bytes}

/-- It is made from the code of the latest upload. -/
def Latest (w : World) (m : BackupKeyMaterial) : Prop :=
  ∀ code, w.latest = some code → m.key = deriveBackupKey code m.salt

/-- What a call has taken along is what it says: its key, if no upload was started since, and what it
has read, if nothing has changed since. -/
structure Call.Tells (w : World) (c : Call) : Prop where
  epoch : c.epoch ≤ w.uploads
  version : c.version ≤ w.changes
  key : ∀ m, c.stage.material = some m → c.epoch = w.uploads → Latest w m
  identity : ∀ i, c.stage.identity = some i → c.version = w.changes → w.device.identity = some i
  sessions : ∀ s, c.stage.sessions = some s → c.version = w.changes →
    s.map chains = w.device.sessions.rows.map chains
  upload : c.code ≠ none → c.epoch ≠ 0 ∧ c.epoch = w.uploads ∧ c.code = w.latest ∧ c.stage ≠ .start

/-- Its blob will tell of everything that has changed so far. -/
def Call.Covers (w : World) (c : Call) : Prop :=
  match c.stage with
  | .start | .keyed _ => True
  | .identified _ _ | .read _ _ _ | .sending _ => c.version = w.changes
  | .answered _ => False

/-- It is an upload that the server has yet to see. -/
def Call.Brings (c : Call) : Prop :=
  c.code ≠ none ∧ ∀ b, c.stage ≠ .answered b

structure Held (w : World) (b : Blob) : Prop where
  epoch : w.blobEpoch ≤ w.uploads
  version : w.blobVersion ≤ w.changes
  key : w.blobEpoch = w.uploads → Latest w { salt := b.salt, key := b.key }
  identity : w.blobVersion = w.changes → w.device.identity = some b.payload.identity
  sessions : w.blobVersion = w.changes →
    b.payload.sessions.map chains = w.device.sessions.rows.map chains

structure Material (w : World) (m : BackupKeyMaterial) : Prop where
  epoch : w.materialEpoch ≤ w.uploads
  key : w.materialEpoch = w.uploads → Latest w m

structure Base (w : World) : Prop where
  calls : ∀ c ∈ w.calls, c.Tells w
  held : ∀ b, w.blob = some b → Held w b
  material : ∀ m, w.device.backupKey = some m → Material w m
  one : w.calls.countP (fun c => c.code.isSome) ≤ 1
  brought : w.uploads ≠ 0 → (w.blob ≠ none ∧ w.blobEpoch = w.uploads) ∨ ∃ c ∈ w.calls, c.Brings
  saved : w.uploads ≠ 0 → (∀ c ∈ w.calls, c.code = none) →
    w.recovery = w.latest ∧ w.device.backupKey ≠ none
  shown : w.recovery ≠ none → w.uploads ≠ 0

/-- The server has the latest change, or a call under way will bring it. -/
def Covered (w : World) : Prop :=
  (w.blob ≠ none ∧ w.blobVersion = w.changes) ∨ ∃ c ∈ w.calls, c.Covers w

/-- When all calls have settled, the blob is from the latest upload and the latest change. -/
theorem Base.restores {w : World} (base : Base w) (covered : w.uploads ≠ 0 → Covered w)
    (settled : w.calls = []) : Restores w := by
  intro code isCode
  have uploads : w.uploads ≠ 0 := base.shown (by rw [isCode]; nofun)
  have noCall {P : Call → Prop} : ¬∃ c ∈ w.calls, P c := by simp [settled]
  obtain ⟨some, version⟩ := (covered uploads).resolve_right noCall
  obtain ⟨_, epoch⟩ := (base.brought uploads).resolve_right noCall
  obtain ⟨blob, isBlob⟩ := Option.ne_none_iff_exists'.mp some
  obtain ⟨latest, _⟩ := base.saved uploads (by simp [settled])
  have held := base.held blob isBlob
  have key := held.key epoch code (latest ▸ isCode)
  exact ⟨blob, blob.payload, isBlob, by rw [openedWith, if_pos key.symm], held.identity version,
    held.sessions version⟩

/-- The store, its changes and the uploads are the same. -/
structure Same (w w' : World) : Prop where
  uploads : w'.uploads = w.uploads
  changes : w'.changes = w.changes
  latest : w'.latest = w.latest
  identity : w'.device.identity = w.device.identity
  sessions : w'.device.sessions.rows.map chains = w.device.sessions.rows.map chains

theorem Call.Tells.same {w w' : World} {c : Call} (tells : c.Tells w) (same : Same w w') :
    c.Tells w' where
  epoch := same.uploads ▸ tells.epoch
  version := same.changes ▸ tells.version
  key m isMaterial isEpoch code isCode :=
    tells.key m isMaterial (same.uploads ▸ isEpoch) code (same.latest ▸ isCode)
  identity i isIdentity isVersion :=
    same.identity ▸ tells.identity i isIdentity (same.changes ▸ isVersion)
  sessions s isSessions isVersion :=
    same.sessions ▸ tells.sessions s isSessions (same.changes ▸ isVersion)
  upload isUpload := by
    obtain ⟨positive, isEpoch, isLatest, started⟩ := tells.upload isUpload
    exact ⟨positive, same.uploads ▸ isEpoch, same.latest ▸ isLatest, started⟩

/-- A step that leaves the store as it is, and one call, keeps what is known of the others. -/
theorem Base.replace {w w' : World} (base : Base w) (same : Same w w') {front back : List Call}
    {c : Call} (split : w.calls = front ++ c :: back) {next : Option Call}
    (isCalls : w'.calls = front ++ next.toList ++ back)
    (tells : ∀ c' ∈ next, c'.code = c.code ∧ c'.Tells w)
    (held : ∀ b, w'.blob = some b → Held w' b)
    (material : ∀ m, w'.device.backupKey = some m → Material w' m)
    (epoch : w.blob ≠ none → w.blobEpoch = w.uploads → w'.blob ≠ none ∧ w'.blobEpoch = w.uploads)
    (brings : c.Brings → (w'.blob ≠ none ∧ w'.blobEpoch = w.uploads) ∨ ∃ c' ∈ next, c'.Brings)
    (saved : w.uploads ≠ 0 → (∀ c ∈ w'.calls, c.code = none) →
      w'.recovery = w.latest ∧ w'.device.backupKey ≠ none)
    (shown : w'.recovery ≠ none → w.uploads ≠ 0) : Base w' := by
  have rest {x : Call} (member : x ∈ front ∨ x ∈ back) : x ∈ w.calls := by
    rw [split]
    rcases member with isFront | isBack
    · exact List.mem_append_left _ isFront
    · exact List.mem_append_right _ (List.mem_cons_of_mem _ isBack)
  have new {x : Call} : x ∈ w'.calls ↔ (x ∈ front ∨ x ∈ back) ∨ x ∈ next := by
    rw [isCalls]
    simp only [List.mem_append, Option.mem_toList]
    tauto
  refine ⟨?_, held, material, ?_, ?_, ?_, ?_⟩
  · intro x member
    rcases new.mp member with old | isNext
    · exact (base.calls x (rest old)).same same
    · exact (tells x isNext).2.same same
  · have one := base.one
    rw [split, List.countP_append, List.countP_cons] at one
    rw [isCalls, List.countP_append, List.countP_append]
    cases next with
    | none =>
        simp only [Option.toList_none, List.countP_nil]
        omega
    | some c' =>
        rw [Option.toList_some, List.countP_singleton, (tells c' rfl).1]
        omega
  · intro some
    rw [same.uploads] at some ⊢
    rcases base.brought some with ⟨isBlob, isEpoch⟩ | ⟨x, member, isBringing⟩
    · exact .inl (epoch isBlob isEpoch)
    · rw [split] at member
      rcases List.mem_append.mp member with isFront | isRest
      · exact .inr ⟨x, new.mpr (.inl (.inl isFront)), isBringing⟩
      · rcases List.mem_cons.mp isRest with rfl | isBack
        · exact (brings isBringing).imp id fun found =>
            found.imp fun c' both => ⟨new.mpr (.inr both.1), both.2⟩
        · exact .inr ⟨x, new.mpr (.inl (.inr isBack)), isBringing⟩
  · intro some none
    rw [same.uploads] at some
    rw [same.latest]
    exact saved some none
  · intro some
    rw [same.uploads]
    exact shown some

/-- What covers the changes still does, when it is not the call that goes on. -/
theorem covered_replace {w w' : World} (same : Same w w') {front back : List Call} {c : Call}
    (split : w.calls = front ++ c :: back) {next : Option Call}
    (isCalls : w'.calls = front ++ next.toList ++ back) (covered : Covered w)
    (version : w.blob ≠ none → w.blobVersion = w.changes → w'.blob ≠ none ∧ w'.blobVersion = w.changes)
    (covers : c.Covers w → (w'.blob ≠ none ∧ w'.blobVersion = w.changes) ∨
      ∃ c' ∈ w'.calls, c'.Covers w) : Covered w' := by
  have kept {x : Call} (isCovering : x.Covers w) : x.Covers w' := by
    simp only [Call.Covers, same.changes] at isCovering ⊢
    exact isCovering
  rw [Covered, same.changes]
  rcases covered with ⟨isBlob, isVersion⟩ | ⟨x, member, isCovering⟩
  · exact .inl (version isBlob isVersion)
  · rw [split] at member
    have elsewhere (old : x ∈ front ∨ x ∈ back) : x ∈ w'.calls := by
      rw [isCalls]
      simp only [List.mem_append]
      tauto
    rcases List.mem_append.mp member with isFront | isRest
    · exact .inr ⟨x, elsewhere (.inl isFront), kept isCovering⟩
    · rcases List.mem_cons.mp isRest with rfl | isBack
      · exact (covers isCovering).imp id fun found =>
          found.imp fun c' both => ⟨both.1, kept both.2⟩
      · exact .inr ⟨x, elsewhere (.inr isBack), kept isCovering⟩

end Order

end Backup
