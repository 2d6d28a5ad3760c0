import CipherChat.Async.Journal
import CipherChat.Database.Versions
import CipherChat.Rooms.Service
import Mathlib.Data.Prod.Lex

/-!
`chatroom/ChatroomService.java`, and what `chatroom/MessageService.java` does around it: who is
a member of a room, with which role, and what they have read.  Each transaction has a session of
its own: an entity stays as it was read first, and what is saved is written when the method is
over.
-/

namespace Chatrooms

open Async ReadCommitted
open Rooms (UUID JavaString JavaError Fault Draft Message SendResult SendMessageRequest
  SendFileMessageRequest)

inductive Role
  | owner
  | admin
  | member
  deriving DecidableEq

def Role.name : Role → String
  | owner => "owner"
  | admin => "admin"
  | member => "member"

structure Chatroom where
  id : UUID
  name : JavaString
  privateRoom : Bool
  createdBy : UUID
  deriving DecidableEq

structure ChatroomMember where
  chatroomId : UUID
  userId : UUID
  role : Role
  deriving DecidableEq

structure RoomReadState where
  userId : UUID
  chatroomId : UUID
  lastReadSequence : Int
  deriving DecidableEq

def Chatroom.key (room : Chatroom) : Nat :=
  room.id.toNat

/-- The primary key of a row about a user in a room. -/
def inRoom (roomId userId : UUID) : ℕ ×ₗ ℕ :=
  toLex (roomId.toNat, userId.toNat)

def ChatroomMember.key (m : ChatroomMember) : ℕ ×ₗ ℕ :=
  inRoom m.chatroomId m.userId

def RoomReadState.key (r : RoomReadState) : ℕ ×ₗ ℕ :=
  inRoom r.chatroomId r.userId

/-- `greatest(last_read_sequence, excluded.last_read_sequence)` -/
def RoomReadState.advanced (userId roomId : UUID) (sequence : Int) (old : Option RoomReadState) :
    RoomReadState where
  userId := userId
  chatroomId := roomId
  lastReadSequence := match old with
    | some r => max r.lastReadSequence sequence
    | none => sequence

structure RoomView where
  id : UUID
  name : JavaString
  isPrivate : Bool
  createdBy : UUID
  createdByName : JavaString
  memberCount : Nat
  myRole : Role
  unreadCount : Nat
  deriving DecidableEq

structure MessageRead where
  chatroomId : UUID
  userId : UUID
  upToSequence : Int
  deriving DecidableEq

inductive Response
  | created (result : Except JavaError RoomView)
  | named (result : Except JavaError JavaString)
  | done (result : Except JavaError Unit)
  | sent (result : Except JavaError SendResult)
  | marked (result : Except JavaError Nat)
  deriving DecidableEq

/-- `findMember` is a query for one row.  A transaction ends with `backend .commit` or
`backend .rollback`. -/
inductive Op
  | findRoomByName (name : JavaString)
  | findRoom (roomId : UUID)
  | findMember (roomId userId : UUID)
  | generateId
  | insertRoom (room : Chatroom)
  | insertMember (m : ChatroomMember)
  | updateMember (m : ChatroomMember)
  | removeMember (roomId userId : UUID)
  | setRole (roomId userId : UUID) (role : Role)
  | markReadUpTo (roomId userId : UUID) (upTo : Int)
  | advance (userId roomId : UUID) (sequence : Int)
  | publish (event : MessageRead)
  | backend (op : Rooms.Op)
  | respond (response : Response)
  deriving DecidableEq

namespace Op

abbrev Val : Op → Type
  | findRoomByName _ | findRoom _ => Option Chatroom
  | findMember .. => Option ChatroomMember
  | generateId => UUID
  | markReadUpTo .. => Nat
  | backend op => op.Val
  | _ => Unit

abbrev Res (op : Op) : Type :=
  Except JavaError op.Val

end Op

/-- `lower` is the function of that name in the index on room names. -/
structure Server where
  rooms : Database Chatroom.key Nat
  members : Database ChatroomMember.key Nat
  readStates : Database RoomReadState.key Nat
  messaging : Rooms.Server
  lower : JavaString → JavaString

/-- What the run decides about one operation. -/
structure Answer where
  fault : Option Fault := none
  id : UUID := 0
  messaging : Rooms.Answer := {}

instance : Inhabited Answer :=
  ⟨{}⟩

namespace Server

variable (s : Server) (t : Nat)

def sameName (name : JavaString) (room : Chatroom) : Bool :=
  s.lower room.name = s.lower name

/-- The unique index waits for the end of another transaction that has inserted the name. -/
def insertRoom (room : Chatroom) : Option (Except JavaError Unit × Server) :=
  if s.rooms.pending.rows.any fun w => w.holder ≠ t && w.version.any (s.sameName room.name) then none
  else (s.rooms.reach t room.key).map fun
    | some _ => (.error (.thrown .dataIntegrity), s)
    | none =>
        if (s.rooms.visible t).any (s.sameName room.name) then (.error (.thrown .dataIntegrity), s)
        else (.ok (), { s with rooms := s.rooms.write t room })

def insertMember (m : ChatroomMember) : Option (Except JavaError Unit × Server) :=
  (s.members.reach t m.key).map fun
    | some _ => (.error (.thrown .dataIntegrity), s)
    | none => (.ok (), { s with members := s.members.write t m })

/-- Of one row there has to be one to change. -/
def updateMember (m : ChatroomMember) : Option (Except JavaError Unit × Server) :=
  (s.members.reach t m.key).map fun
    | some _ => (.ok (), { s with members := s.members.write t m })
    | none => (.error (.thrown .dataAccess), s)

def removeMember (roomId userId : UUID) : Option (Except JavaError Unit × Server) :=
  (s.members.reach t (inRoom roomId userId)).map fun
    | some _ => (.ok (), { s with members := s.members.erase t (inRoom roomId userId) })
    | none => (.ok (), s)

def setRole (roomId userId : UUID) (role : Role) : Option (Except JavaError Unit × Server) :=
  (s.members.reach t (inRoom roomId userId)).map fun
    | some m => (.ok (), { s with members := s.members.write t { m with role } })
    | none => (.ok (), s)

/-- The messages of others up to a sequence number: each gets a receipt. -/
def markReadUpTo (roomId userId : UUID) (upTo : Int) : Nat :=
  (s.messaging.inRoom roomId).countP fun m => m.senderId ≠ userId && (m.sequenceNumber : Int) ≤ upTo

def advance (userId roomId : UUID) (sequence : Int) : Option (Except JavaError Unit × Server) :=
  (s.readStates.reach t (inRoom roomId userId)).map fun old =>
    (.ok (), { s with readStates := s.readStates.write t (.advanced userId roomId sequence old) })

def commit : Server :=
  { s with
    rooms := s.rooms.commit t
    members := s.members.commit t
    readStates := s.readStates.commit t
    messaging := {
      s.messaging.close t with
      messages := ((s.messaging.pending.filter fun row => row.1 = t).map Prod.snd) ++
        s.messaging.messages } }

def rollback : Server :=
  { s with
    rooms := s.rooms.rollback t
    members := s.members.rollback t
    readStates := s.readStates.rollback t
    messaging := s.messaging.close t }

end Server

/-- The effect of an operation; `none` while it has to wait for another transaction. -/
def effect (t : Nat) (s : Server) (op : Op) (a : Answer) : Option (op.Res × Server) :=
  match op with
  | .findRoomByName name => some (.ok ((s.rooms.visible t).find? (s.sameName name)), s)
  | .findRoom roomId => some (.ok (s.rooms.view t roomId.toNat), s)
  | .findMember roomId userId => some (.ok (s.members.view t (inRoom roomId userId)), s)
  | .generateId => some (.ok a.id, s)
  | .insertRoom room => s.insertRoom t room
  | .insertMember m => s.insertMember t m
  | .updateMember m => s.updateMember t m
  | .removeMember roomId userId => s.removeMember t roomId userId
  | .setRole roomId userId role => s.setRole t roomId userId role
  | .markReadUpTo roomId userId upTo => some (.ok (s.markReadUpTo roomId userId upTo), s)
  | .advance userId roomId sequence => s.advance t userId roomId sequence
  | .backend (.advance userId roomId sequence) => s.advance t userId roomId sequence
  | .backend .commit => some (.ok (), s.commit t)
  | .backend .rollback => some (.ok (), s.rollback t)
  | .backend op =>
      (Rooms.effect t s.messaging op a.messaging).map fun (answer, messaging) =>
        (answer, { s with messaging })
  | .publish _ | .respond _ => some (.ok (), s)

/-- A transaction whose end fails is rolled back. -/
def failed (t : Nat) (s : Server) : Op → Server
  | .backend .commit | .backend .rollback => s.rollback t
  | _ => s

def perform (t : Nat) (s : Server) (op : Op) (a : Answer) : Option (op.Res × Server) :=
  faulty .thrown a.fault (effect t s op a) (failed t s op)

def Exec (t : Nat) (s : Server) (op : Op) (result : op.Res) (s' : Server) : Prop :=
  ∃ a, perform t s op a = some (result, s')

abbrev Prog (α : Type) := Throwing JavaError Op Op.Res α

def call (op : Op) : Prog op.Val :=
  ExceptT.mk (Program.call op)

/-- A program that only sends messages. -/
def messaging {α : Type} (p : Rooms.Prog α) : Prog α :=
  Throwing.relabel p Op.backend fun _ answer => answer

/-! Sessions -/

/-- What is written when the transaction ends. -/
inductive Statement
  | insertRoom (room : Chatroom)
  | insertMember (m : ChatroomMember)
  | updateMember (m : ChatroomMember)
  deriving DecidableEq

def Statement.run : Statement → Prog Unit
  | insertRoom room => call (.insertRoom room)
  | insertMember m => call (.insertMember m)
  | updateMember m => call (.updateMember m)

structure Session where
  entities : List ChatroomMember := []
  queue : List Statement := []

def Session.managed (session : Session) (roomId userId : UUID) : Option ChatroomMember :=
  session.entities.find? fun m => m.chatroomId = roomId && m.userId = userId

abbrev InSession (α : Type) := StateT Session Prog α

def enqueue (statement : Statement) : InSession Unit :=
  modify fun session => { session with queue := session.queue ++ [statement] }

/-- A row that is read again is the entity that it was. -/
def Session.found (session : Session) (roomId userId : UUID) :
    Option ChatroomMember → Option ChatroomMember × Session
  | none => (none, session)
  | some row =>
      match session.managed roomId userId with
      | some entity => (some entity, session)
      | none => (some row, { session with entities := row :: session.entities })

def findMember (roomId userId : UUID) : InSession (Option ChatroomMember) := do
  let row ← call (.findMember roomId userId)
  modifyGet fun session => session.found roomId userId row

/-- An entity is written if it differs from the row that was read. -/
def copy (m entity : ChatroomMember) : InSession Unit :=
  if m.role = entity.role then return () else enqueue (.updateMember m)

/-- `members.save` of a new entity: it has an id, and is merged. -/
def save (m : ChatroomMember) : InSession Unit := do
  match (← get).managed m.chatroomId m.userId with
  | some entity => copy m entity
  | none =>
      match ← call (.findMember m.chatroomId m.userId) with
      | some row => copy m row
      | none => enqueue (.insertMember m)

/-- The statements of a session, before its transaction commits. -/
def flush : List Statement → Prog Unit
  | [] => return ()
  | statement :: rest => do
      statement.run
      flush rest

def inTransaction {α : Type} (body : InSession α) : Prog α :=
  transactional (call (.backend .rollback)) (call (.backend .commit)) do
    let (value, session) ← body.run {}
    flush session.queue
    return value

/-! `chatroom/ChatroomService.java` -/

def conflict (code message : String) : JavaError :=
  .api 409 code message

def create (creatorId : UUID) (name : JavaString) (privateRoom : Bool) : Prog RoomView :=
  inTransaction do
    let trimmed := Rooms.trim name
    match ← call (.findRoomByName trimmed) with
    | some _ => throw (conflict "chatroom_exists" "Chatroom with that name already exists!")
    | none =>
        let id ← call .generateId
        enqueue (.insertRoom ⟨id, trimmed, privateRoom, creatorId⟩)
        save ⟨id, creatorId, .owner⟩
        let creatorName ← messaging (Rooms.requireUser creatorId)
        return {
          id := id
          name := trimmed
          isPrivate := privateRoom
          createdBy := creatorId
          createdByName := creatorName
          memberCount := 1
          myRole := .owner
          unreadCount := 0 }

def assertAccess (roomId userId : UUID) : InSession Chatroom := do
  match ← call (.findRoom roomId) with
  | none => throw (.notFound "chatroom_not_found" "Chatroom not found.")
  | some room =>
      if room.privateRoom then
        match ← findMember roomId userId with
        | none => throw (.forbidden "not_member" "This is a private room.")
        | some _ => return room
      else return room

def roleOf (roomId userId : UUID) : InSession (Option Role) := do
  let found ← findMember roomId userId
  return found.map ChatroomMember.role

def ensureMembership (roomId userId : UUID) : InSession Unit := do
  match ← findMember roomId userId with
  | none => save ⟨roomId, userId, .member⟩
  | some _ => return ()

def insufficientRole (allowed : List Role) : JavaError :=
  .forbidden "insufficient_role" ("You need to be " ++ " or ".intercalate (allowed.map Role.name) ++ ".")

def requireRole (roomId userId : UUID) (allowed : List Role) : InSession Unit := do
  let role ← roleOf roomId userId
  if role.any fun role => role ∈ allowed then return () else throw (insufficientRole allowed)

def join (roomId userId : UUID) : Prog JavaString :=
  inTransaction do
    let room ← assertAccess roomId userId
    ensureMembership roomId userId
    return room.name

def invite (roomId inviterId inviteeId : UUID) : Prog JavaString :=
  inTransaction do
    let _ ← assertAccess roomId inviterId
    requireRole roomId inviterId [.owner, .admin]
    let invitee ← messaging (Rooms.requireUser inviteeId)
    match ← roleOf roomId inviteeId with
    | some _ => throw (conflict "already_member" "User is already a member.")
    | none =>
        save ⟨roomId, inviteeId, .member⟩
        return invitee

def leave (roomId userId : UUID) : Prog Unit :=
  inTransaction do
    let _ ← assertAccess roomId userId
    match ← roleOf roomId userId with
    | none => throw (.badRequest "not_member" "You are not a member of this room.")
    | some .owner =>
        throw (.badRequest "owner_cannot_leave" "Owners must transfer ownership before leaving.")
    | some _ => call (.removeMember roomId userId)

def changeRole (roomId actorId targetId : UUID) (role : Role) : Prog Unit :=
  inTransaction do
    let _ ← assertAccess roomId actorId
    requireRole roomId actorId [.owner]
    if targetId = actorId then throw (.badRequest "self_role" "You cannot change your own role.")
    else
      match ← roleOf roomId targetId with
      | none => throw (.notFound "not_member" "That user is not a member.")
      | some _ =>
          if role = .owner then call (.setRole roomId actorId .admin)
          call (.setRole roomId targetId role)

/-! `chatroom/MessageService.java` -/

def store (senderId roomId : UUID) (draft : Draft) : Prog SendResult := do
  let sender ← messaging (Rooms.requireUser senderId)
  let seq ← messaging
    (Rooms.RedisSequenceCounter.next roomId (Rooms.call (.maxSequence roomId)))
  match ← settle (messaging (Rooms.persist (draft.withSequence seq) sender)) with
  | .error (.thrown .dataIntegrity) => messaging (Rooms.absorb roomId draft.clientMessageId)
  | .error e => throw e
  | .ok saved =>
      messaging (Rooms.mark roomId saved.id draft.clientMessageId)
      inTransaction (ensureMembership roomId senderId)
      messaging (Rooms.result saved false)

def sendDraft (senderId roomId : UUID) (draft : Draft) : Prog SendResult := do
  let _ ← inTransaction (assertAccess roomId senderId)
  if ← messaging (Rooms.tryAcquire (.rateLimit senderId)) then
    match ← messaging (Rooms.seen roomId draft.clientMessageId) with
    | some m => messaging (Rooms.result m true)
    | none => store senderId roomId draft
  else throw (.tooManyRequests "Slow down — you're sending too fast.")

def send (senderId roomId : UUID) (req : SendMessageRequest) : Prog SendResult := do
  match req.expiresIn with
  | none => sendDraft senderId roomId (req.draft senderId roomId 0)
  | some _ =>
      let now ← call (.backend .now)
      sendDraft senderId roomId (req.draft senderId roomId now)

def sendFile (senderId roomId : UUID) (req : SendFileMessageRequest) : Prog SendResult :=
  if req.type = .text then throw (.badRequest "invalid_message" "Use the text endpoint for text.")
  else sendDraft senderId roomId (req.draft senderId roomId)

/-- What is marked, or the latest message. -/
def upTo (roomId : UUID) : Option Int → Prog Int
  | some upToSequence => return upToSequence
  | none => do
      let latest ← call (.backend (.maxSequence roomId))
      return latest

def markRead (roomId userId : UUID) (upToSequence : Option Int) : Prog Nat :=
  inTransaction do
    let _ ← assertAccess roomId userId
    let upTo ← upTo roomId upToSequence
    let marked ← call (.markReadUpTo roomId userId upTo)
    call (.advance userId roomId upTo)
    call (.publish ⟨roomId, userId, upTo⟩)
    return marked

inductive Call
  | create (creatorId : UUID) (name : JavaString) (privateRoom : Bool)
  | join (roomId userId : UUID)
  | invite (roomId inviterId inviteeId : UUID)
  | leave (roomId userId : UUID)
  | changeRole (roomId actorId targetId : UUID) (role : Role)
  | send (senderId roomId : UUID) (req : SendMessageRequest)
  | sendFile (senderId roomId : UUID) (req : SendFileMessageRequest)
  | markRead (roomId userId : UUID) (upToSequence : Option Int)
  deriving DecidableEq

def answer {α : Type} (response : Except JavaError α → Response) (body : Prog α) : Prog Unit := do
  let result ← settle body
  call (.respond (response result))

def Call.program : Call → Prog Unit
  | create creatorId name privateRoom => answer .created (Chatrooms.create creatorId name privateRoom)
  | join roomId userId => answer .named (Chatrooms.join roomId userId)
  | invite roomId inviterId inviteeId => answer .named (Chatrooms.invite roomId inviterId inviteeId)
  | leave roomId userId => answer .done (Chatrooms.leave roomId userId)
  | changeRole roomId actorId targetId role =>
      answer .done (Chatrooms.changeRole roomId actorId targetId role)
  | send senderId roomId req => answer .sent (Chatrooms.send senderId roomId req)
  | sendFile senderId roomId req => answer .sent (Chatrooms.sendFile senderId roomId req)
  | markRead roomId userId upToSequence =>
      answer .marked (Chatrooms.markRead roomId userId upToSequence)

def service : Service Op Op.Res Server Call (Except JavaError Unit) where
  program call := call.program.run
  exec := Exec

abbrev Event := Entry Op Op.Res Server Call

abbrev History := Journal Op Op.Res Server Call

end Chatrooms
