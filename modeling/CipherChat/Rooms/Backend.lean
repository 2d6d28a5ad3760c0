import CipherChat.Rooms.Messages
import CipherChat.Async.Failures
import CipherChat.Async.Program
import Mathlib.Data.List.Sort
import Mathlib.Logic.Function.Basic

/-!
What the replicas of the server share, the database and Redis, and the operations they
perform on it: one statement, one command, or the end of a transaction.
-/

namespace Rooms

/-- `DataIntegrityViolationException` is a `DataAccessException`. -/
inductive Cause
  | dataAccess
  | dataIntegrity
  | runtime
  deriving DecidableEq

inductive JavaError
  | api (status : Nat) (code message : String)
  | thrown (cause : Cause)
  | illegalState (message : String)
  deriving DecidableEq

namespace JavaError

def badRequest (code message : String) : JavaError :=
  .api 400 code message

def forbidden (code message : String) : JavaError :=
  .api 403 code message

def notFound (code message : String) : JavaError :=
  .api 404 code message

def tooManyRequests (message : String) : JavaError :=
  .api 429 "rate_limited" message

def isDataAccess : JavaError → Bool
  | .thrown .dataAccess | .thrown .dataIntegrity => true
  | _ => false

end JavaError

structure Chatroom where
  privateRoom : Bool
  deriving DecidableEq

/-- A key is kept as what its text is made of, a value as the number its text denotes. -/
inductive RedisKey
  | rateLimit (userId : UUID)
  | dedup (roomId clientMessageId : UUID)
  | seq (roomId : UUID)
  deriving DecidableEq

/-- What a request is answered with. -/
inductive Response
  | ack (ack : Ack)
  | sent (result : Except JavaError SendResult)
  | deltas (result : Except JavaError (List RoomDelta))
  | done (result : Except JavaError Unit)
  deriving DecidableEq

/-- `pending` holds the row that the open transaction of a thread has inserted; a thread is
`stopped` when its replica is gone. -/
structure Server where
  chatrooms : List (UUID × Chatroom)
  members : List (UUID × UUID)
  users : List (UUID × JavaString)
  messages : List Message
  pending : List (Nat × Message)
  nextId : Nat
  redis : RedisKey → Option Nat
  stopped : List Nat

inductive Op
  | now
  | findChatroom (roomId : UUID)
  | findMember (roomId userId : UUID)
  | saveMember (roomId userId : UUID)
  | findUser (userId : UUID)
  | findUsers (ids : List UUID)
  | rateLimit (key : RedisKey)
  | redisGet (key : RedisKey)
  | setIfAbsent (key : RedisKey) (value : Nat)
  | increment (key : RedisKey)
  | expire (key : RedisKey)
  | findById (id : Nat)
  | findByClientMessageId (roomId clientMessageId : UUID)
  | findAfter (roomId : UUID) (afterSeq limit : Nat)
  | maxSequence (roomId : UUID)
  | save (draft : Draft)
  | advance (userId roomId : UUID) (sequence : Nat)
  | publish (event : MessageSent)
  | commit
  | rollback
  | view (id : Nat)
  | delete (id : Nat)
  | deleteExpired (now : Instant)
  | respond (response : Response)
  | evict (key : RedisKey)
  | crash (thread : Nat)
  deriving DecidableEq

namespace Op

abbrev Val : Op → Type
  | now => Instant
  | findChatroom _ => Option Chatroom
  | findMember .. => Bool
  | findUser _ => Option JavaString
  | findUsers _ => List (UUID × JavaString)
  | rateLimit _ => Bool
  | redisGet _ => Option Nat
  | setIfAbsent .. => Bool
  | increment _ => Nat
  | findById _ | findByClientMessageId .. => Option Message
  | findAfter .. => List Message
  | maxSequence _ => Nat
  | save _ => Message
  | _ => Unit

abbrev Res (op : Op) : Type :=
  Except JavaError op.Val

end Op

/-- Two rows that a unique index of the table does not let stand beside each other. -/
def conflict (m m' : Message) : Bool :=
  m.chatroomId = m'.chatroomId &&
    (m.sequenceNumber = m'.sequenceNumber ||
      (m.clientMessageId.isSome && m.clientMessageId = m'.clientMessageId))

namespace Server

def setRedis (s : Server) (key : RedisKey) (value : Option Nat) : Server :=
  { s with redis := Function.update s.redis key value }

/-- The transaction of the thread is over. -/
def close (s : Server) (t : Nat) : Server :=
  { s with pending := s.pending.filter fun row => row.1 ≠ t }

def inRoom (s : Server) (roomId : UUID) : List Message :=
  s.messages.filter fun m => m.chatroomId = roomId

/-- `coalesce(max(sequence_number), 0)` -/
def maxSequence (s : Server) (roomId : UUID) : Nat :=
  (s.inRoom roomId).foldr (fun m => max m.sequenceNumber) 0

/-- The first rows after a sequence number, in ascending order. -/
def findAfter (s : Server) (roomId : UUID) (afterSeq limit : Nat) : List Message :=
  (((s.inRoom roomId).filter fun m => afterSeq < m.sequenceNumber).insertionSort
    fun m m' => m.sequenceNumber ≤ m'.sequenceNumber).take limit

end Server

abbrev Fault := Async.Failure Cause

/-- What the run decides about one operation. -/
structure Answer where
  fault : Option Fault := none
  now : Instant := 0
  allowed : Bool := true

instance : Inhabited Answer :=
  ⟨{}⟩

/-- The effect of an operation; `none` while it has to wait for another transaction. -/
def effect (t : Nat) (s : Server) (op : Op) (a : Answer) : Option (op.Res × Server) :=
  match op with
  | .now => some (.ok a.now, s)
  | .findChatroom roomId => some (.ok (s.chatrooms.lookup roomId), s)
  | .findMember roomId userId => some (.ok ((roomId, userId) ∈ s.members), s)
  | .saveMember roomId userId => some (.ok (), { s with members := (roomId, userId) :: s.members })
  | .findUser userId => some (.ok (s.users.lookup userId), s)
  | .findUsers ids => some (.ok (s.users.filter fun user => user.1 ∈ ids), s)
  | .rateLimit _ => some (.ok a.allowed, s)
  | .redisGet key => some (.ok (s.redis key), s)
  | .setIfAbsent key value =>
      match s.redis key with
      | none => some (.ok true, s.setRedis key (some value))
      | some _ => some (.ok false, s)
  | .increment key =>
      some (.ok ((s.redis key).getD 0 + 1), s.setRedis key (some ((s.redis key).getD 0 + 1)))
  | .expire _ => some (.ok (), s)
  | .findById id => some (.ok (s.messages.find? fun m => m.id = id), s)
  | .findByClientMessageId roomId clientMessageId =>
      some (.ok ((s.inRoom roomId).find? fun m => m.clientMessageId = some clientMessageId), s)
  | .findAfter roomId afterSeq limit => some (.ok (s.findAfter roomId afterSeq limit), s)
  | .maxSequence roomId => some (.ok (s.maxSequence roomId), s)
  | .save draft =>
      let m : Message := { draft with id := s.nextId, createdAt := a.now }
      let s := { s with nextId := s.nextId + 1 }
      if s.messages.any (conflict m) || s.pending.any fun row => row.1 = t && conflict m row.2 then
        some (.error (.thrown .dataIntegrity), s)
      else if s.pending.any fun row => conflict m row.2 then none
      else some (.ok m, { s with pending := (t, m) :: s.pending })
  | .commit =>
      match s.pending.lookup t with
      | some m => some (.ok (), { s.close t with messages := m :: s.messages })
      | none => some (.error (.thrown .dataAccess), s.close t)
  | .rollback => some (.ok (), s.close t)
  | .delete id =>
      if s.messages.any fun m => m.id = id then
        some (.ok (), { s with messages := s.messages.filter fun m => m.id ≠ id })
      else some (.error (.thrown .dataAccess), s)
  | .deleteExpired now =>
      some (.ok (), { s with messages := s.messages.filter fun m =>
        match m.expiresAt with
        | none => true
        | some at' => ¬at' < now })
  | .evict key => some (.ok (), s.setRedis key none)
  | .crash u => some (.ok (), { s.close u with stopped := u :: s.stopped })
  | .advance .. | .publish _ | .view _ | .respond _ => some (.ok (), s)

/-- Without its effect an operation changes nothing, but a transaction whose end fails is
rolled back. -/
def failed (t : Nat) (s : Server) : Op → Server
  | .commit | .rollback => s.close t
  | _ => s

def perform (t : Nat) (s : Server) (op : Op) (a : Answer) : Option (op.Res × Server) :=
  if t ∈ s.stopped then none
  else Async.faulty .thrown a.fault (effect t s op a) (failed t s op)

/-- Performed in `s`, the operation may answer so and leave `s'`. -/
def Exec (t : Nat) (s : Server) (op : Op) (result : op.Res) (s' : Server) : Prop :=
  ∃ a, perform t s op a = some (result, s')

end Rooms
