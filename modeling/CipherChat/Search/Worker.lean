import CipherChat.Async.Journal
import CipherChat.Crypto.Primitives
import CipherChat.Store.Table
import Mathlib.Data.List.Sort
import Mathlib.Data.String.Basic

/-!
`search/search.worker.ts` with `search/searchCore.ts` and `search/snapshotStore.ts`: the requests
and the timer of the search worker, which switch at their awaits.  The two databases and the
memory of the worker are one state; a restart of the worker clears the memory.
-/

namespace Search

open Async Primitives

structure SearchDoc where
  id : String
  convId : String
  sender : String
  text : List UInt16
  ts : Int
  deriving DecidableEq

def SearchDoc.isBlank (doc : SearchDoc) : Bool :=
  doc.text.all Utf.isSpace

/-- The map of a `SearchCore`, and the documents its search database holds. -/
structure SearchCore where
  docs : Table SearchDoc.id
  db : Table SearchDoc.id

/-- The documents of one conversation, sealed under a key. -/
structure SealedSnapshot where
  convId : String
  key : Nat
  docs : List SearchDoc
  deriving DecidableEq

inductive Hydration
  | unstarted
  | running
  | done
  deriving DecidableEq

structure Worker where
  /-- Counts the restarts; `born` says in which worker a call began. -/
  generation : Nat
  born : Nat → Option Nat
  cores : Nat → SearchCore
  created : Nat
  core : Option Nat
  hydrated : Hydration
  dirty : List String
  timer : Bool
  keyPromise : Option Nat
  promises : Nat → Option (Except JsError Nat)
  promised : Nat
  snapshots : Table SealedSnapshot.convId
  snapshotKey : Option Nat

/-- Whether to make the key or to wait for the call that does. -/
inductive KeyTurn
  | make (promise : Nat)
  | wait (promise : Nat)

inductive Result
  | hydrated (size : Nat)
  | indexed (changed size : Nat)
  | removed (removed : Bool)
  | shredded (removed : Nat)
  | wiped
  | persisted
  deriving DecidableEq

/-- What stands between two awaits is one operation, or several; `respond` ends a call. -/
inductive Op
  | peekCore
  | createCore
  | assignCore
  | replaceCore
  | beginHydration
  | finishHydration
  | awaitHydrated
  | returnCore
  | takeKey
  | awaitKey (promise : Nat)
  | settleKey (promise : Nat) (result : Except JsError Nat)
  | getKey
  | generateKey
  | putKey (key : Nat)
  | getSnapshots
  | putSnapshot (row : SealedSnapshot)
  | deleteSnapshot (convId : String)
  | clearSnapshots
  | clearMeta
  | forgetKey
  | look (core : Nat) (id : String)
  | dbRemove (core : Nat) (id : String)
  | dbInsert (core : Nat) (doc : SearchDoc)
  | docsSet (core : Nat) (doc : SearchDoc)
  | docsDelete (core : Nat) (id : String)
  | size (core : Nat)
  | listIds (core : Nat) (convId : String)
  | conversations (core : Nat)
  | exportConversation (core : Nat) (convId : String)
  | schedulePersist (convIds : List String)
  | takeBatch
  | dirtyAdd (convId : String)
  | dirtyDelete (convId : String)
  | dirtyClear
  | respond (result : Except JsError Result)
  | restart

namespace Op

abbrev Val : Op → Type
  | peekCore => Bool
  | assignCore | replaceCore | returnCore | generateKey | awaitKey _ | size _ => Nat
  | beginHydration | getKey => Option Nat
  | takeKey => KeyTurn
  | getSnapshots => List SealedSnapshot
  | look .. => Option SearchDoc
  | listIds .. | conversations _ | takeBatch => List String
  | exportConversation .. => List SearchDoc
  | _ => Unit

abbrev Res (op : Op) : Type :=
  Except JsError op.Val

/-- The operations of the browser's storage and cryptography can fail. -/
def canFail : Op → Bool
  | getKey | generateKey | putKey _ | getSnapshots | putSnapshot _ | deleteSnapshot _
  | clearSnapshots | clearMeta => true
  | _ => false

end Op

/-- What the environment chooses when an operation is performed. -/
structure Answer where
  fault : Bool := false
  name : Nat := 0

def SearchCore.empty : SearchCore where
  docs := .empty
  db := .empty

def setAdd (names : List String) (name : String) : List String :=
  if name ∈ names then names else names ++ [name]

/-- The documents of a conversation, the oldest first. -/
def SearchCore.exportConversation (core : SearchCore) (convId : String) : List SearchDoc :=
  (core.docs.rows.filter fun d => d.convId = convId).insertionSort fun a b => a.ts ≤ b.ts

namespace Worker

def setCore (s : Worker) (k : Nat) (core : SearchCore) : Worker :=
  { s with cores := Function.update s.cores k core }

/-- A new object in the place of the core. -/
def newCore (s : Worker) : Worker :=
  { s with core := some s.created, created := s.created + 1 }

end Worker

def effect (s : Worker) (op : Op) (a : Answer) : op.Res × Worker :=
  match op with
  | .peekCore => (.ok s.core.isSome, s)
  | .createCore => (.ok (), s)
  | .assignCore => (.ok s.created, s.newCore)
  | .replaceCore => (.ok s.created, s.newCore)
  | .beginHydration =>
      if s.hydrated = .unstarted then (.ok s.core, { s with hydrated := .running })
      else (.ok none, s)
  | .finishHydration => (.ok (), { s with hydrated := .done })
  | .awaitHydrated => (.ok (), s)
  | .returnCore =>
      match s.core with
      | some k => (.ok k, s)
      | none => (.error (.error "Cannot read properties of null"), s)
  | .takeKey =>
      match s.keyPromise with
      | some p => (.ok (.wait p), s)
      | none =>
          (.ok (.make s.promised), { s with
            keyPromise := some s.promised
            promised := s.promised + 1 })
  | .awaitKey p =>
      match s.promises p with
      | some (.ok key) => (.ok key, s)
      | some (.error e) => (.error e, s)
      | none => (.error .library, s)
  | .settleKey p result => (.ok (), { s with promises := Function.update s.promises p (some result) })
  | .getKey => (.ok s.snapshotKey, s)
  | .generateKey => (.ok a.name, s)
  | .putKey key => (.ok (), { s with snapshotKey := some key })
  | .getSnapshots => (.ok s.snapshots.rows, s)
  | .putSnapshot row => (.ok (), { s with snapshots := s.snapshots.put row })
  | .deleteSnapshot convId =>
      (.ok (), { s with snapshots := s.snapshots.remove fun row => row.convId = convId })
  | .clearSnapshots => (.ok (), { s with snapshots := .empty })
  | .clearMeta => (.ok (), { s with snapshotKey := none })
  | .forgetKey => (.ok (), { s with keyPromise := none })
  | .look k id => (.ok ((s.cores k).docs.get id), s)
  | .dbRemove k id =>
      let core := s.cores k
      (.ok (), s.setCore k { core with db := core.db.remove fun d => d.id = id })
  | .dbInsert k doc =>
      let core := s.cores k
      match core.db.get doc.id with
      | none => (.ok (), s.setCore k { core with db := core.db.put doc })
      | some _ => (.error (.error "DOCUMENT_ALREADY_EXISTS"), s)
  | .docsSet k doc =>
      let core := s.cores k
      (.ok (), s.setCore k { core with docs := core.docs.put doc })
  | .docsDelete k id =>
      let core := s.cores k
      (.ok (), s.setCore k { core with docs := core.docs.remove fun d => d.id = id })
  | .size k => (.ok (s.cores k).docs.rows.length, s)
  | .listIds k convId =>
      (.ok (((s.cores k).docs.rows.filter fun d => d.convId = convId).map SearchDoc.id), s)
  | .conversations k => (.ok ((s.cores k).docs.rows.map SearchDoc.convId).dedup, s)
  | .exportConversation k convId => (.ok ((s.cores k).exportConversation convId), s)
  | .schedulePersist convIds =>
      (.ok (), { s with dirty := convIds.foldl setAdd s.dirty, timer := true })
  | .takeBatch => (.ok s.dirty, { s with dirty := [], timer := false })
  | .dirtyAdd convId => (.ok (), { s with dirty := setAdd s.dirty convId })
  | .dirtyDelete convId => (.ok (), { s with dirty := s.dirty.filter (· ≠ convId) })
  | .dirtyClear => (.ok (), { s with dirty := [] })
  | .respond _ => (.ok (), s)
  | .restart =>
      (.ok (), { s with
        generation := s.generation + 1
        core := none
        hydrated := .unstarted
        dirty := []
        timer := false
        keyPromise := none })

/-- What a call waits for. -/
def blocked (s : Worker) : Op → Bool
  | .awaitHydrated => s.hydrated ≠ .done
  | .awaitKey p => (s.promises p).isNone
  | _ => false

/-- The calls of a worker end with it. -/
def alive (t : Nat) (s : Worker) : Bool :=
  (s.born t).getD s.generation = s.generation

def perform (t : Nat) (s : Worker) (op : Op) (a : Answer) : Option (op.Res × Worker) :=
  if !alive t s || blocked s op then none
  else
    let s' := { s with born := Function.update s.born t (some s.generation) }
    if a.fault && op.canFail then some (.error (.dom "AbortError"), s')
    else some (effect s' op a)

def Exec (t : Nat) (s : Worker) (op : Op) (result : op.Res) (s' : Worker) : Prop :=
  ∃ a, perform t s op a = some (result, s')

abbrev Prog (α : Type) := Throwing JsError Op Op.Res α

def call (op : Op) : Prog op.Val :=
  ExceptT.mk (Program.call op)

/-! `snapshotStore.ts` -/

def makeKey : Prog Nat := do
  match ← call .getKey with
  | some key => return key
  | none =>
      let key ← call .generateKey
      call (.putKey key)
      return key

def snapshotKey : Prog Nat := do
  match ← call .takeKey with
  | .wait promise => call (.awaitKey promise)
  | .make promise =>
      let result ← settle makeKey
      call (.settleKey promise result)
      lift result

def saveSnapshot (convId : String) (docs : List SearchDoc) : Prog Unit := do
  if docs = [] then call (.deleteSnapshot convId)
  else
    let key ← snapshotKey
    call (.putSnapshot { convId, key, docs })

/-- A snapshot sealed under another key does not open. -/
def openSnapshots (key : Nat) : List SealedSnapshot → Prog (List SearchDoc)
  | [] => return []
  | row :: rest => do
      if row.key = key then
        let docs ← openSnapshots key rest
        return row.docs ++ docs
      else
        call (.deleteSnapshot row.convId)
        openSnapshots key rest

def loadAllSnapshots : Prog (List SearchDoc) := do
  let rows ← call .getSnapshots
  let key ← snapshotKey
  openSnapshots key rows

def wipeSearchStore : Prog Unit := do
  call .clearSnapshots
  call .clearMeta
  call .forgetKey

/-! `searchCore.ts` -/

def insert (k : Nat) (doc : SearchDoc) : Prog Bool := do
  call (.dbInsert k doc)
  call (.docsSet k doc)
  return true

/-- Where there was no document, the map is left as it is. -/
def add (k : Nat) (doc : SearchDoc) : Prog Bool := do
  match ← call (.look k doc.id) with
  | some existing =>
      if existing.text = doc.text ∧ existing.convId = doc.convId then return false
      else
        call (.dbRemove k doc.id)
        if doc.isBlank then
          call (.docsDelete k doc.id)
          return true
        else insert k doc
  | none =>
      if doc.isBlank then return false
      else insert k doc

def addAll (k : Nat) : List SearchDoc → Prog Nat
  | [] => return 0
  | doc :: rest => do
      let changed ← add k doc
      let others ← addAll k rest
      return (if changed then 1 else 0) + others

def delete (k : Nat) (id : String) : Prog Bool := do
  match ← call (.look k id) with
  | none => return false
  | some _ =>
      call (.dbRemove k id)
      call (.docsDelete k id)
      return true

def deleteAll (k : Nat) : List String → Prog Unit
  | [] => return ()
  | id :: rest => do
      let _ ← delete k id
      deleteAll k rest

def deleteConversation (k : Nat) (convId : String) : Prog Nat := do
  let ids ← call (.listIds k convId)
  deleteAll k ids
  return ids.length

/-! `search.worker.ts` -/

def hydrate (k : Nat) : Prog Unit := do
  let docs ← loadAllSnapshots
  let _ ← addAll k docs

def ensureCore : Prog Nat := do
  if !(← call .peekCore) then
    call .createCore
    let _ ← call .assignCore
  match ← call .beginHydration with
  | some k =>
      let _ ← settle (hydrate k)
      call .finishHydration
  | none => pure ()
  call .awaitHydrated
  call .returnCore

def saveAll (k : Nat) : List String → Prog Unit
  | [] => return ()
  | convId :: rest => do
      tryCatch (do saveSnapshot convId (← call (.exportConversation k convId)))
        fun _ => call (.dirtyAdd convId)
      saveAll k rest

/-- What the timer runs. -/
def persist : Prog Result := do
  let batch ← call .takeBatch
  let k ← ensureCore
  saveAll k batch
  return .persisted

inductive Request
  | hydrate
  | index (docs : List SearchDoc)
  | remove (messageId : String)
  | shred (convId : String)
  | wipe

def handle (request : Request) : Prog Result := do
  let k ← ensureCore
  match request with
  | .hydrate => return .hydrated (← call (.size k))
  | .index docs =>
      let changed ← addAll k docs
      if changed > 0 then call (.schedulePersist (docs.map SearchDoc.convId))
      return .indexed changed (← call (.size k))
  | .remove messageId =>
      let convs ← call (.conversations k)
      let removed ← delete k messageId
      if removed then call (.schedulePersist convs)
      return .removed removed
  | .shred convId =>
      let removed ← deleteConversation k convId
      call (.dirtyDelete convId)
      call (.deleteSnapshot convId)
      return .shredded removed
  | .wipe =>
      call .createCore
      let _ ← call .replaceCore
      call .dirtyClear
      wipeSearchStore
      return .wiped

inductive Call
  | request (request : Request)
  | persist
  | restart

def respond (p : Prog Result) : Prog Unit := do
  let result ← settle p
  call (.respond result)

def Call.program : Call → Prog Unit
  | .request req => Search.respond (handle req)
  | .persist => Search.respond Search.persist
  | .restart => Search.call .restart

def service : Service Op Op.Res Worker Call (Except JsError Unit) where
  program call := call.program.run
  exec := Exec

abbrev Event := Entry Op Op.Res Worker Call

abbrev History := Journal Op Op.Res Worker Call

/-- The timer runs when it is set. -/
def Admitted (j : History) : Call → Prop
  | .persist => j.state.timer = true
  | _ => True

/-- A worker that has just been started, over a database with snapshots of earlier ones. -/
structure Started (s : Worker) : Prop where
  cores : ∀ k, s.cores k = .empty
  core : s.core = none
  born : ∀ t, s.born t = none
  filed : ∀ row ∈ s.snapshots.rows, ∀ d ∈ row.docs, d.convId = row.convId

end Search
