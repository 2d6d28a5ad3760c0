import CipherChat.Async.Contract
import CipherChat.Client.Site

/-!
`dm/DmService.java`, the sending of a direct message: every statement is a step, and the table
refuses a row that one of its two unique indexes does not let in.
-/

namespace Dm

open Async
open Rooms (UUID JavaString JavaError)
open Client (DmMessage DmRequest)

structure Conversation where
  id : UUID
  userLow : UUID
  userHigh : UUID
  deriving DecidableEq

namespace Conversation

def has (c : Conversation) (userId : UUID) : Bool :=
  c.userLow = userId || c.userHigh = userId

def other (c : Conversation) (userId : UUID) : UUID :=
  if c.userLow = userId then c.userHigh else c.userLow

end Conversation

/-- A row of `dm_messages`. -/
structure Message extends DmMessage where
  id : Nat

structure DirectMessageSent where
  conversationId : UUID
  messageId : Nat
  senderId : UUID
  senderName : JavaString
  recipientId : UUID
  encrypted : Bool
  deriving DecidableEq

structure SendResult where
  ok : Bool
  messageId : Nat
  duplicate : Bool
  deriving DecidableEq

inductive Op
  | findConversation (id : UUID)
  | rateLimit (userId : UUID)
  | findByClientMessageId (conversationId clientMessageId : UUID)
  | findUser (userId : UUID)
  | save (draft : DmMessage)
  | touch (conversationId : UUID)
  | publish (event : DirectMessageSent)
  | commit
  | rollback
  | view (id : Nat)
  | respond (result : Except JavaError SendResult)

namespace Op

abbrev Val : Op → Type
  | findConversation _ => Option Conversation
  | rateLimit _ => Bool
  | findByClientMessageId .. => Option Message
  | findUser _ => Option JavaString
  | save _ => Message
  | _ => Unit

abbrev Res (op : Op) : Type :=
  Except JavaError op.Val

end Op

/-- `pending` holds the rows of open transactions. -/
structure Server where
  conversations : List Conversation
  users : List (UUID × JavaString)
  messages : List Message
  pending : List (Nat × Message)
  nextId : Nat

/-- The same message of a client: the index `dm_messages_client_id_uq`. -/
def sameSend (m m' : DmMessage) : Bool :=
  m.conversationId = m'.conversationId && m.clientMessageId.isSome &&
    m.clientMessageId = m'.clientMessageId

/-- The same counter of a session: the index `dm_messages_replay_uq`. -/
def sameSlot (m m' : DmMessage) : Bool :=
  m.slot.isSome && m.slot = m'.slot

def conflict (m m' : DmMessage) : Bool :=
  sameSend m m' || sameSlot m m'

/-- What is unavailable: the database, or something else. -/
inductive Outage
  | dataAccess
  | runtime

def Outage.error : Outage → JavaError
  | dataAccess => .thrown .dataAccess
  | runtime => .thrown .runtime

/-- What the run decides about one operation. -/
structure Answer where
  outage : Option (Failure Outage) := none
  allowed : Bool := true

namespace Server

variable (s : Server) (t : Nat)

def findByClientMessageId (conversationId clientMessageId : UUID) : Option Message :=
  s.messages.find? fun m =>
    m.conversationId = conversationId && m.clientMessageId = some clientMessageId

/-- A row that no column or index takes is refused; behind one of an open transaction it waits. -/
def save (draft : DmMessage) : Option (Except JavaError Message × Server) :=
  let row : Message := { draft with id := s.nextId }
  let s' : Server := { s with nextId := s.nextId + 1 }
  if !draft.fits || s.messages.any (fun m => conflict draft m.toDmMessage) ||
      s.pending.any (fun w => w.1 = t && conflict draft w.2.toDmMessage) then
    some (.error (.thrown .dataIntegrity), s')
  else if s.pending.any fun w => conflict draft w.2.toDmMessage then none
  else some (.ok row, { s' with pending := (t, row) :: s.pending })

def rollback : Server :=
  { s with pending := s.pending.filter fun w => w.1 ≠ t }

def commit : Server :=
  { s.rollback t with messages := ((s.pending.filter fun w => w.1 = t).map Prod.snd) ++ s.messages }

end Server

/-- The effect of an operation; `none` while it has to wait for another transaction. -/
def effect (t : Nat) (s : Server) (op : Op) (a : Answer) : Option (op.Res × Server) :=
  match op with
  | .findConversation id => some (.ok (s.conversations.find? fun c => c.id = id), s)
  | .rateLimit _ => some (.ok a.allowed, s)
  | .findByClientMessageId conversationId clientMessageId =>
      some (.ok (s.findByClientMessageId conversationId clientMessageId), s)
  | .findUser userId => some (.ok (s.users.lookup userId), s)
  | .save draft => s.save t draft
  | .commit => some (.ok (), s.commit t)
  | .rollback => some (.ok (), s.rollback t)
  | .touch _ | .publish _ | .view _ | .respond _ => some (.ok (), s)

/-- A transaction whose end fails is rolled back. -/
def failed (t : Nat) (s : Server) : Op → Server
  | .commit | .rollback => s.rollback t
  | _ => s

def perform (t : Nat) (s : Server) (op : Op) (a : Answer) : Option (op.Res × Server) :=
  faulty Outage.error a.outage (effect t s op a) (failed t s op)

def Exec (t : Nat) (s : Server) (op : Op) (result : op.Res) (s' : Server) : Prop :=
  ∃ a, perform t s op a = some (result, s')

abbrev Prog (α : Type) := Throwing JavaError Op Op.Res α

def call (op : Op) : Prog op.Val :=
  ExceptT.mk (Program.call op)

namespace DmService

def requireParticipant (conversationId userId : UUID) : Prog Conversation := do
  match ← call (.findConversation conversationId) with
  | none => throw (.notFound "conversation_not_found" "Conversation not found.")
  | some c =>
      if c.has userId then return c
      else throw (.forbidden "not_participant" "You are not part of this conversation.")

/-- `users.require` -/
def requireUser (userId : UUID) : Prog JavaString := do
  match ← call (.findUser userId) with
  | none => throw (.notFound "user_not_found" "User not found.")
  | some name => return name

def tryAcquire (senderId : UUID) : Prog Bool :=
  tryCatch (call (.rateLimit senderId)) fun e =>
    if e.isDataAccess then return true else throw e

def result (m : Message) (duplicate : Bool) : Prog SendResult := do
  call (.view m.id)
  return { ok := true, messageId := m.id, duplicate }

/-- The row of the same message, if the client has named it. -/
def seen (conversationId : UUID) : Option UUID → Prog (Option Message)
  | none => return none
  | some clientId => call (.findByClientMessageId conversationId clientId)

def persist (draft : DmMessage) (c : Conversation) (senderName : JavaString) : Prog Message :=
  transactional (call .rollback) (call .commit) do
    let saved ← call (.save draft)
    let _ ← call (.findConversation c.id)
    call (.touch c.id)
    call (.publish {
      conversationId := c.id
      messageId := saved.id
      senderId := saved.senderId
      senderName := senderName
      recipientId := c.other saved.senderId
      encrypted := saved.envelope.isSome })
    return saved

def replayed : JavaError :=
  .api 409 "replayed_counter" "This message counter was already used."

def store (conversationId : UUID) (req : DmRequest) (draft : DmMessage) (c : Conversation)
    (senderName : JavaString) : Prog SendResult := do
  match ← settle (persist draft c senderName) with
  | .ok saved => result saved false
  | .error (.thrown .dataIntegrity) =>
      match ← seen conversationId req.clientMessageId with
      | some dup => result dup true
      | none => throw replayed
  | .error e => throw e

def send (senderId conversationId : UUID) (req : DmRequest) : Prog SendResult := do
  let c ← requireParticipant conversationId senderId
  lift req.check
  if ← tryAcquire senderId then
    match ← seen conversationId req.clientMessageId with
    | some m => result m true
    | none =>
        let sender ← requireUser senderId
        store conversationId req (req.draft conversationId senderId) c sender
  else throw (.tooManyRequests "Slow down — you're sending too fast.")

end DmService

structure Call where
  senderId : UUID
  conversationId : UUID
  req : DmRequest

def Call.draft (request : Call) : DmMessage :=
  request.req.draft request.conversationId request.senderId

def Call.program (request : Call) : Prog Unit := do
  let result ← settle (DmService.send request.senderId request.conversationId request.req)
  call (.respond result)

def service : Service Op Op.Res Server Call (Except JavaError Unit) where
  program request := request.program.run
  exec := Exec

abbrev Event := Entry Op Op.Res Server Call

abbrev History := Journal Op Op.Res Server Call

end Dm
