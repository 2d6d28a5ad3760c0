import CipherChat.Dm.Service
import CipherChat.Database.Versions
import Mathlib.Data.Prod.Lex
import Mathlib.Data.String.Basic

/-!
`notification/NotificationConsumer.java` and `shared/kafka/ProcessedEventLedger.java`: what the
handlers of an event do in one transaction, every statement a step, and the sweep of the ledger.
-/

namespace Notifications

open Async ReadCommitted
open Rooms (UUID JavaString JavaError Instant)
open Dm (Outage)

structure MessageSent extends Rooms.MessageSent where
  eventId : UUID
  deriving DecidableEq

structure DirectMessageSent extends Dm.DirectMessageSent where
  eventId : UUID
  deriving DecidableEq

structure NotificationRequested where
  eventId : UUID
  userId : UUID
  type : String
  title : Option JavaString
  body : Option JavaString
  link : Option JavaString
  deriving DecidableEq

/-- A value of a payload; ids and numbers are rendered as text. -/
inductive Value
  | uuid (id : UUID)
  | number (n : Nat)
  | text (s : JavaString)
  | flag (b : Bool)
  deriving DecidableEq

/-- `Notification.of` -/
structure Draft where
  userId : UUID
  type : String
  payload : List (String × Value)
  deriving DecidableEq

structure Notification extends Draft where
  id : Nat
  deriving DecidableEq

/-- A row of `processed_events`; `insertedBy` is the system column of the inserting transaction,
nothing for rows that are older than the run. -/
structure ProcessedEvent where
  consumer : String
  eventId : UUID
  processedAt : Instant
  insertedBy : Option Nat
  deriving DecidableEq

abbrev Key := String ×ₗ Nat

def keyOf (consumer : String) (eventId : UUID) : Key :=
  toLex (consumer, eventId.toNat)

def ProcessedEvent.key (row : ProcessedEvent) : Key :=
  keyOf row.consumer row.eventId

inductive Op
  | claim (consumer : String) (eventId : UUID)
  | save (draft : Draft)
  | now
  | deleteProcessedBefore (cutoff : Instant)
  | commit
  | rollback
  | returned (result : Except JavaError Unit)

namespace Op

abbrev Val : Op → Type
  | claim .. => Bool
  | save _ => Notification
  | now => Instant
  | deleteProcessedBefore _ => Nat
  | _ => Unit

abbrev Res (op : Op) : Type :=
  Except JavaError op.Val

end Op

/-- The notifications of the run, with the transactions that inserted them; `swept` are the rows
that sweeps have deleted from the ledger. -/
structure Server where
  users : List UUID
  ledger : Database ProcessedEvent.key Nat
  swept : List ProcessedEvent
  notifications : List (Nat × Notification)
  pending : List (Nat × Notification)
  nextId : Nat

/-- What the run decides about one operation. -/
structure Answer where
  outage : Option (Failure Outage) := none
  now : Instant := 0

namespace Server

variable (s : Server) (t : Nat)

/-- `insert … on conflict do nothing`: behind a row of an open transaction it waits. -/
def claim (consumer : String) (eventId : UUID) (now : Instant) : Option (Bool × Server) :=
  match s.ledger.reach t (keyOf consumer eventId) with
  | none => none
  | some (some _) => some (false, s)
  | some none => some (true, { s with ledger := s.ledger.write t ⟨consumer, eventId, now, some t⟩ })

def save (draft : Draft) : Notification × Server :=
  let row : Notification := { draft with id := s.nextId }
  (row, { s with pending := (t, row) :: s.pending, nextId := s.nextId + 1 })

def expired (cutoff : Instant) : List ProcessedEvent :=
  (s.ledger.visible t).filter fun row => row.processedAt < cutoff

def deleteProcessedBefore (cutoff : Instant) : Option (Nat × Server) :=
  let rows := s.expired t cutoff
  if rows.any fun row => s.ledger.locked t row.key then none
  else some (rows.length, { s with
    ledger := rows.foldl (fun ledger row => ledger.erase t row.key) s.ledger })

def rollback : Server :=
  { s with
    ledger := s.ledger.rollback t
    pending := s.pending.filter fun w => w.1 ≠ t }

/-- The rows of the ledger that the transaction has deleted. -/
def deleted : List ProcessedEvent :=
  s.ledger.committed.rows.filter fun row => s.ledger.held row.key = some (t, none)

def commit : Server :=
  { s.rollback t with
    ledger := s.ledger.commit t
    swept := s.deleted t ++ s.swept
    notifications := (s.pending.filter fun w => w.1 = t) ++ s.notifications }

end Server

/-- The effect of an operation; `none` while it has to wait for another transaction. A notification
refers to a row of `users`. -/
def effect (t : Nat) (s : Server) (op : Op) (a : Answer) : Option (op.Res × Server) :=
  match op with
  | .claim consumer eventId =>
      (s.claim t consumer eventId a.now).map fun after => (.ok after.1, after.2)
  | .save draft =>
      if draft.userId ∈ s.users then some (.ok (s.save t draft).1, (s.save t draft).2)
      else some (.error (.thrown .dataIntegrity), s)
  | .now => some (.ok a.now, s)
  | .deleteProcessedBefore cutoff =>
      (s.deleteProcessedBefore t cutoff).map fun after => (.ok after.1, after.2)
  | .commit => some (.ok (), s.commit t)
  | .rollback => some (.ok (), s.rollback t)
  | .returned _ => some (.ok (), s)

/-- A transaction whose end fails is rolled back. -/
def failed (t : Nat) (s : Server) : Op → Server
  | .commit | .rollback => s.rollback t
  | _ => s

/-- A crash is an outage of all that the thread does from then on. -/
def perform (t : Nat) (s : Server) (op : Op) (a : Answer) : Option (op.Res × Server) :=
  faulty Outage.error a.outage (effect t s op a) (failed t s op)

def Exec (t : Nat) (s : Server) (op : Op) (result : op.Res) (s' : Server) : Prop :=
  ∃ a, perform t s op a = some (result, s')

abbrev Prog (α : Type) := Throwing JavaError Op Op.Res α

def call (op : Op) : Prog op.Val :=
  ExceptT.mk (Program.call op)

/-- `tx.executeWithoutResult` -/
def execute (body : Prog Unit) : Prog Unit :=
  transactional (call .rollback) (call .commit) body

namespace ProcessedEventLedger

/-- Seven days. -/
def RETENTION : Int := 7 * 24 * 60 * 60 * 1000

def claim (consumer : String) (eventId : UUID) : Prog Bool :=
  call (.claim consumer eventId)

def sweep : Prog Unit :=
  execute do
    let now ← call .now
    let _ ← call (.deleteProcessedBefore (now - RETENTION))

end ProcessedEventLedger

namespace NotificationConsumer

def CONSUMER : String := "notifications"

/-- What every handler does: the claim of the event, and its rows in the same transaction. -/
def handle (eventId : UUID) (rows : Prog Unit) : Prog Unit :=
  execute do
    if ← ProcessedEventLedger.claim CONSUMER eventId then rows else return ()

def mention (e : MessageSent) (mentioned : UUID) : Draft where
  userId := mentioned
  type := "mention"
  payload := [("chatroomId", .uuid e.chatroomId), ("messageId", .number e.messageId),
    ("fromId", .uuid e.senderId), ("from", .text e.senderName), ("preview", .text e.preview)]

def dm (e : DirectMessageSent) : Draft where
  userId := e.recipientId
  type := "dm"
  payload := [("conversationId", .uuid e.conversationId), ("messageId", .number e.messageId),
    ("fromId", .uuid e.senderId), ("from", .text e.senderName), ("encrypted", .flag e.encrypted)]

def requested (e : NotificationRequested) : Draft where
  userId := e.userId
  type := e.type
  payload := [("title", .text (e.title.getD [])), ("body", .text (e.body.getD [])),
    ("link", .text (e.link.getD []))]

def save (draft : Draft) : Prog Unit := do
  let _ ← call (.save draft)

/-- The loop over the mentions. -/
def saveMentions (e : MessageSent) : List UUID → Prog Unit
  | [] => return ()
  | mentioned :: rest => do
      if mentioned = e.senderId then saveMentions e rest
      else
        save (mention e mentioned)
        saveMentions e rest

def onMessageSent (e : MessageSent) : Prog Unit :=
  if e.mentions.isEmpty then return ()
  else handle e.eventId (saveMentions e e.mentions)

def onDirectMessageSent (e : DirectMessageSent) : Prog Unit :=
  handle e.eventId (save (dm e))

def onNotificationRequested (e : NotificationRequested) : Prog Unit :=
  handle e.eventId (save (requested e))

end NotificationConsumer

/-- A delivery of an event, or a run of the sweep. -/
inductive Call
  | message (e : MessageSent)
  | direct (e : DirectMessageSent)
  | requested (e : NotificationRequested)
  | sweep
  deriving DecidableEq

namespace Call

def eventId : Call → Option UUID
  | message e => some e.eventId
  | direct e => some e.eventId
  | requested e => some e.eventId
  | sweep => none

def handler : Call → Prog Unit
  | message e => NotificationConsumer.onMessageSent e
  | direct e => NotificationConsumer.onDirectMessageSent e
  | requested e => NotificationConsumer.onNotificationRequested e
  | sweep => ProcessedEventLedger.sweep

/-- The offset of the event is committed after the handler has returned. -/
def program (delivery : Call) : Prog Unit := do
  let result ← settle delivery.handler
  call (.returned result)

end Call

def service : Service Op Op.Res Server Call (Except JavaError Unit) where
  program delivery := delivery.program.run
  exec := Exec

abbrev Event := Entry Op Op.Res Server Call

abbrev History := Journal Op Op.Res Server Call

end Notifications
