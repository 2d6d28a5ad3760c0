import CipherChat.Async.Journal
import CipherChat.Presence.Replicated
import CipherChat.Rooms.Backend

/-!
The online roster in Redis: `PresenceRegistry` and the calls of `PresenceService` on it.  Each
Redis command is one operation, so the calls of all replicas may switch between any two.
-/

namespace PresenceRegistry

open Async
open Presence (PresenceStatus)
open Rooms (UUID JavaString JavaError)

/-- What the registry uses of a row of `users`. -/
structure User where
  name : JavaString
  dp : JavaString
  presenceStatus : PresenceStatus
  presenceNote : JavaString
  online : Bool

structure Entry where
  userId : UUID
  name : JavaString
  dp : JavaString
  status : JavaString
  note : JavaString

structure Fields where
  name : Option JavaString
  dp : Option JavaString
  status : Option JavaString
  note : Option JavaString
  deriving DecidableEq

/-- The hash `online:<userId>`; `ttl` tells whether it expires. -/
structure Hash where
  fields : Fields
  sessions : Option Int
  ttl : Bool

/-- `index` is the set `online_index`. -/
structure Store where
  hashes : UUID → Option Hash
  index : List UUID
  users : UUID → Option User

/-- `timeOut` is the step of Redis that drops a hash whose TTL has run out. -/
inductive Op
  | find (userId : UUID)
  | setOnline (userId : UUID) (online : Bool)
  | setPresence (userId : UUID) (status : Option PresenceStatus) (note : Option JavaString)
  | publishUserOnline (userId : UUID)
  | publishUserOffline (userId : UUID)
  | increment (userId : UUID) (delta : Int)
  | putAll (userId : UUID) (fields : Fields)
  | expire (userId : UUID)
  | delete (userId : UUID)
  | hasKey (userId : UUID)
  | entries (userId : UUID)
  | addMember (userId : UUID)
  | removeMember (userId : UUID)
  | members
  | timeOut (userId : UUID)
  deriving DecidableEq

namespace Op

abbrev Val : Op → Type
  | find _ => Option User
  | setPresence .. => User
  | increment .. => Int
  | expire _ | hasKey _ => Bool
  | entries _ => Option Hash
  | members => List UUID
  | _ => Unit

abbrev Res (op : Op) : Type :=
  Except JavaError op.Val

end Op

namespace Store

def setHash (s : Store) (userId : UUID) (hash : Option Hash) : Store :=
  { s with hashes := Function.update s.hashes userId hash }

/-- The hash that a command writes to: a new one has no TTL. -/
def hash (s : Store) (userId : UUID) : Hash :=
  (s.hashes userId).getD ⟨⟨none, none, none, none⟩, none, false⟩

def setUser (s : Store) (userId : UUID) (user : User) : Store :=
  { s with users := Function.update s.users userId (some user) }

end Store

def Fields.put (old new : Fields) : Fields where
  name := new.name <|> old.name
  dp := new.dp <|> old.dp
  status := new.status <|> old.status
  note := new.note <|> old.note

/-- `User.setPresence`: what is null stays as it was. -/
def User.setPresence (user : User) (status : Option PresenceStatus) (note : Option JavaString) : User :=
  { user with
    presenceStatus := status.getD user.presenceStatus
    presenceNote := (note.map (·.take 80)).getD user.presenceNote }

def effect (s : Store) (op : Op) : op.Res × Store :=
  match op with
  | .find userId => (.ok (s.users userId), s)
  | .setOnline userId online =>
      match s.users userId with
      | some user => (.ok (), s.setUser userId { user with online })
      | none => (.ok (), s)
  | .setPresence userId status note =>
      match s.users userId with
      | some user =>
          let user := user.setPresence status note
          (.ok user, s.setUser userId user)
      | none => (.error (.notFound "user_not_found" "User not found."), s)
  | .publishUserOnline _ | .publishUserOffline _ => (.ok (), s)
  | .increment userId delta =>
      let hash := s.hash userId
      let sessions := hash.sessions.getD 0 + delta
      (.ok sessions, s.setHash userId (some { hash with sessions := some sessions }))
  | .putAll userId fields =>
      let hash := s.hash userId
      (.ok (), s.setHash userId (some { hash with fields := hash.fields.put fields }))
  | .expire userId =>
      match s.hashes userId with
      | some hash => (.ok true, s.setHash userId (some { hash with ttl := true }))
      | none => (.ok false, s)
  | .delete userId => (.ok (), s.setHash userId none)
  | .hasKey userId => (.ok (s.hashes userId).isSome, s)
  | .entries userId => (.ok (s.hashes userId), s)
  | .addMember userId =>
      (.ok (), { s with index := if userId ∈ s.index then s.index else s.index ++ [userId] })
  | .removeMember userId => (.ok (), { s with index := s.index.filter (· ≠ userId) })
  | .members => (.ok s.index, s)
  | .timeOut userId => (.ok (), s.setHash userId none)

/-- Only a hash with a TTL times out. -/
def perform (_t : Nat) (s : Store) (op : Op) (_ : Unit) : Option (op.Res × Store) :=
  match op with
  | .timeOut userId =>
      match s.hashes userId with
      | some hash => if hash.ttl then some (effect s (.timeOut userId)) else none
      | none => none
  | op => some (effect s op)

def Exec (t : Nat) (s : Store) (op : Op) (result : op.Res) (s' : Store) : Prop :=
  perform t s op () = some (result, s')

abbrev Prog (α : Type) := Throwing JavaError Op Op.Res α

def call (op : Op) : Prog op.Val :=
  ExceptT.mk (Program.call op)

/-! `PresenceRegistry` -/

/-- Whether this made the user online. -/
def connect (e : Entry) : Prog Bool := do
  let sessions ← call (.increment e.userId 1)
  call (.putAll e.userId ⟨some e.name, some e.dp, some e.status, some e.note⟩)
  let _ ← call (.expire e.userId)
  call (.addMember e.userId)
  return sessions = 1

/-- Whether this took the user offline. -/
def disconnect (userId : UUID) : Prog Bool := do
  let sessions ← call (.increment userId (-1))
  if sessions ≤ 0 then
    call (.delete userId)
    call (.removeMember userId)
    return true
  else return false

def touch (userId : UUID) : Prog Unit := do
  let _ ← call (.expire userId)

def isOnline (userId : UUID) : Prog Bool :=
  call (.hasKey userId)

def update (userId : UUID) (status note : JavaString) : Prog Unit := do
  if ← isOnline userId then
    call (.putAll userId ⟨none, none, some status, some note⟩)

def Hash.entry (hash : Hash) (userId : UUID) : Entry where
  userId
  name := hash.fields.name.getD []
  dp := hash.fields.dp.getD []
  status := hash.fields.status.getD []
  note := hash.fields.note.getD []

def collect : List UUID → Prog (List Entry)
  | [] => return []
  | userId :: rest => do
      match ← call (.entries userId) with
      | none =>
          call (.removeMember userId)
          collect rest
      | some hash =>
          let out ← collect rest
          return hash.entry userId :: out

section Service

variable (compareToIgnoreCase : JavaString → JavaString → Int)

def list : Prog (List Entry) := do
  let ids ← call .members
  let out ← collect ids
  return out.mergeSort fun a b => compareToIgnoreCase a.name b.name ≤ 0

/-! `PresenceService` -/

def connected (userId : UUID) : Prog Bool := do
  match ← call (.find userId) with
  | none => return false
  | some u =>
      let cameOnline ← connect ⟨userId, u.name, u.dp, u.presenceStatus.value, u.presenceNote⟩
      if cameOnline then
        call (.setOnline userId true)
        call (.publishUserOnline userId)
      return cameOnline

def disconnected (userId : UUID) : Prog Bool := do
  let wentOffline ← disconnect userId
  if wentOffline then
    call (.setOnline userId false)
    call (.publishUserOffline userId)
  return wentOffline

def heartbeat (userId : UUID) : Prog Bool := do
  if ← isOnline userId then
    touch userId
    return false
  else connected userId

def updateStatus (userId : UUID) (status : Option PresenceStatus) (note : Option JavaString) : Prog Unit := do
  let updated ← call (.setPresence userId status note)
  update userId updated.presenceStatus.value updated.presenceNote

/-- `cipherchat.presence.roster-cap` -/
def rosterCap : Nat :=
  100

structure Roster where
  total : Nat
  users : List Entry

def roster : Prog Roster := do
  let all ← list compareToIgnoreCase
  return { total := all.length, users := all.take rosterCap }

/-- The calls of a socket name it; the service is only told its user. -/
inductive Call
  | connected (socket : Nat) (userId : UUID)
  | disconnected (socket : Nat) (userId : UUID)
  | heartbeat (socket : Nat) (userId : UUID)
  | updateStatus (userId : UUID) (status : Option PresenceStatus) (note : Option JavaString)
  | roster
  | timeOut (userId : UUID)
  deriving DecidableEq

def Call.body : Call → Prog Unit
  | connected _ userId => do
      let _ ← PresenceRegistry.connected userId
  | disconnected _ userId => do
      let _ ← PresenceRegistry.disconnected userId
  | heartbeat _ userId => do
      let _ ← PresenceRegistry.heartbeat userId
  | updateStatus userId status note => PresenceRegistry.updateStatus userId status note
  | roster => do
      let _ ← PresenceRegistry.roster compareToIgnoreCase
  | timeOut userId => call (.timeOut userId)

def service : Service Op Op.Res Store Call (Except JavaError Unit) where
  program request := (request.body compareToIgnoreCase).run
  exec := Exec

end Service

abbrev Event := Async.Entry Op Op.Res Store Call

abbrev History := Journal Op Op.Res Store Call

theorem exec_effect {t : Nat} {s s' : Store} {op : Op} {result : op.Res} (exec : Exec t s op result s') :
    result = (effect s op).1 ∧ s' = (effect s op).2 := by
  unfold Exec perform at exec
  cases op with
  | timeOut userId =>
      simp only at exec
      split at exec
      · split at exec
        · cases exec
          exact ⟨rfl, rfl⟩
        · cases exec
      · cases exec
  | _ =>
      have same := Option.some.inj exec
      exact ⟨congrArg Prod.fst same.symm, congrArg Prod.snd same.symm⟩

section List

variable {t : Nat} {s s' : Store} (compareToIgnoreCase : JavaString → JavaString → Int)

theorem ends_call {op : Op} {result : op.Res} (ends : Ends (Exec t) s (call op) result s') :
    result = (effect s op).1 ∧ s' = (effect s op).2 :=
  exec_effect (runs_call.mp ends)

/-- Who is collected: whoever has a hash. -/
theorem collect_ends {ids : List UUID} {entries : List Entry}
    (ends : Ends (Exec t) s (collect ids) (.ok entries) s') :
    entries.map Entry.userId = ids.filter fun userId => (s.hashes userId).isSome := by
  induction ids generalizing s s' entries with
  | nil =>
      obtain ⟨isEntries, _⟩ := ends_pure.mp ends
      cases isEntries
      rfl
  | cons userId rest ih =>
      obtain ⟨found, s₁, first, later⟩ := ends_bind_ok.mp ends
      obtain ⟨isFound, isSame⟩ := ends_call first
      obtain rfl : s₁ = s := isSame
      obtain rfl : found = s₁.hashes userId := Except.ok.inj isFound
      cases there : s₁.hashes userId with
      | none =>
          rw [there] at later
          obtain ⟨_, s₂, removed, later⟩ := ends_bind_ok.mp later
          obtain ⟨_, rfl⟩ := ends_call removed
          rw [ih later, List.filter_cons_of_neg (by simp [there])]
          rfl
      | some hash =>
          rw [there] at later
          obtain ⟨out, s₂, collected, last⟩ := ends_bind_ok.mp later
          obtain ⟨isEntries, _⟩ := ends_pure.mp last
          cases isEntries
          rw [List.filter_cons_of_pos (by simp [there]), List.map_cons, ih collected]
          rfl

theorem collect_total (ids : List UUID) :
    ∃ entries s', Ends (Exec t) s (collect ids) (.ok entries) s' := by
  induction ids generalizing s with
  | nil => exact ⟨[], s, ends_pure.mpr ⟨rfl, rfl⟩⟩
  | cons userId rest ih =>
      have first : Ends (Exec t) s (call (.entries userId)) (.ok (s.hashes userId)) s :=
        runs_call.mpr rfl
      cases there : s.hashes userId with
      | none =>
          obtain ⟨entries, s', collected⟩ := ih (s := (effect s (.removeMember userId)).2)
          rw [there] at first
          have removed : Ends (Exec t) s (call (.removeMember userId)) (.ok ())
              (effect s (.removeMember userId)).2 := runs_call.mpr rfl
          exact ⟨entries, s', first.andThen (removed.andThen collected)⟩
      | some hash =>
          obtain ⟨entries, s', collected⟩ := ih (s := s)
          rw [there] at first
          exact ⟨_, s', first.andThen (collected.andThen (ends_pure.mpr ⟨rfl, rfl⟩))⟩

theorem list_ends {entries : List Entry}
    (ends : Ends (Exec t) s (list compareToIgnoreCase) (.ok entries) s') (userId : UUID) :
    (∃ e ∈ entries, e.userId = userId) ↔ userId ∈ s.index ∧ s.hashes userId ≠ none := by
  obtain ⟨ids, s₁, first, later⟩ := ends_bind_ok.mp ends
  obtain ⟨isIds, isSame⟩ := ends_call first
  obtain rfl : s₁ = s := isSame
  obtain rfl : ids = s₁.index := Except.ok.inj isIds
  obtain ⟨out, s₂, collected, last⟩ := ends_bind_ok.mp later
  obtain ⟨isEntries, _⟩ := ends_pure.mp last
  cases isEntries
  have users := collect_ends collected
  simp only [List.mem_mergeSort]
  rw [← List.mem_map, users, List.mem_filter, Option.isSome_iff_ne_none]

theorem list_total : ∃ entries s', Ends (Exec t) s (list compareToIgnoreCase) (.ok entries) s' := by
  have first : Ends (Exec t) s (call .members) (.ok s.index) s := runs_call.mpr rfl
  obtain ⟨out, s', collected⟩ := collect_total (t := t) (s := s) s.index
  exact ⟨_, s', first.andThen (collected.andThen (ends_pure.mpr ⟨rfl, rfl⟩))⟩

end List

end PresenceRegistry
