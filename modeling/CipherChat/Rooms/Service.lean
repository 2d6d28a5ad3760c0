import CipherChat.Async.Journal
import CipherChat.Rooms.Backend

/-!
`chatroom/MessageService.java` with what it calls in `ChatroomService`, `MessagePersistence`,
`RedisRateLimiter`, `RedisDeduplicator` and `RedisSequenceCounter`, as programs that await
the operations of the backend, and the requests that run them.
-/

namespace Rooms

open Async

abbrev Prog (α : Type) := Throwing JavaError Op Op.Res α

def call (op : Op) : Prog op.Val :=
  ExceptT.mk (Program.call op)

/-! `chatroom/ChatroomService.java`, `user/UserService.java` -/

def assertAccess (roomId userId : UUID) : Prog Chatroom := do
  match ← call (.findChatroom roomId) with
  | none => throw (.notFound "chatroom_not_found" "Chatroom not found.")
  | some room =>
      if room.privateRoom then
        if ← call (.findMember roomId userId) then return room
        else throw (.forbidden "not_member" "This is a private room.")
      else return room

def canAccess (roomId userId : UUID) : Prog Bool := do
  match ← call (.findChatroom roomId) with
  | none => return false
  | some room => if room.privateRoom then call (.findMember roomId userId) else return true

def ensureMembership (roomId userId : UUID) : Prog Unit := do
  if ← call (.findMember roomId userId) then return ()
  else call (.saveMember roomId userId)

def requireUser (userId : UUID) : Prog JavaString := do
  match ← call (.findUser userId) with
  | none => throw (.notFound "user_not_found" "User not found.")
  | some name => return name

def summaries (ids : List UUID) : Prog (List (UUID × JavaString)) :=
  if ids = [] then return [] else call (.findUsers ids)

/-! `shared/infra` -/

def tryAcquire (key : RedisKey) : Prog Bool :=
  tryCatch (call (.rateLimit key)) fun e =>
    if e.isDataAccess then return true else throw e

namespace RedisDeduplicator

def lookup (roomId clientMessageId : UUID) : Prog (Option Nat) :=
  tryCatch (call (.redisGet (.dedup roomId clientMessageId))) fun e =>
    if e.isDataAccess then return none else throw e

def mark (roomId clientMessageId : UUID) (messageId : Nat) : Prog Bool :=
  tryCatch (call (.setIfAbsent (.dedup roomId clientMessageId) messageId)) fun e =>
    if e.isDataAccess then return false else throw e

end RedisDeduplicator

namespace RedisSequenceCounter

def unavailable : JavaError :=
  .api 503 "redis_unavailable" "Message ordering service unavailable — retry shortly."

def next (roomId : UUID) (persistedMax : Prog Nat) : Prog Nat :=
  tryCatch (do
    let max ← persistedMax
    let seeded ← call (.setIfAbsent (.seq roomId) max)
    let next ← call (.increment (.seq roomId))
    if seeded then return next
    else
      call (.expire (.seq roomId))
      return next)
  fun e => if e.isDataAccess then throw unavailable else throw e

end RedisSequenceCounter

/-! `chatroom/MessagePersistence.java` -/

/-- `@Transactional`: the transaction ends with the method. -/
def transactional {α : Type} (body : Prog α) : Prog α := do
  let value ← tryCatch body fun e => do
    call .rollback
    throw e
  call .commit
  return value

def persist (draft : Draft) (senderName : JavaString) : Prog Message :=
  transactional do
    let saved ← call (.save draft)
    call (.advance saved.senderId saved.chatroomId saved.sequenceNumber)
    call (.publish {
      chatroomId := saved.chatroomId
      messageId := saved.id
      sequenceNumber := saved.sequenceNumber
      senderId := saved.senderId
      senderName := senderName
      preview := saved.preview
      mentions := saved.mentions })
    return saved

/-! `chatroom/MessageService.java` -/

def result (m : Message) (duplicate : Bool) : Prog SendResult := do
  call (.view m.id)
  return { ok := true, messageId := m.id, sequenceNumber := m.sequenceNumber, duplicate }

/-- The row a cached id names, if it is one of the room. -/
def findCached (roomId : UUID) : Option Nat → Prog (Option Message)
  | none => return none
  | some id => do
      let found ← call (.findById id)
      return found.filter fun m => m.chatroomId = roomId

def findExisting (roomId : UUID) : Option UUID → Prog (Option Message)
  | none => return none
  | some clientId => call (.findByClientMessageId roomId clientId)

/-- The row an earlier attempt with this client id has left. -/
def seen (roomId : UUID) : Option UUID → Prog (Option Message)
  | none => return none
  | some clientId => do
      let cached ← RedisDeduplicator.lookup roomId clientId
      match ← findCached roomId cached with
      | some m => return some m
      | none => call (.findByClientMessageId roomId clientId)

/-- What becomes of a violation of a unique index. -/
def absorb (roomId : UUID) (clientId : Option UUID) : Prog SendResult := do
  match ← findExisting roomId clientId with
  | some m => result m true
  | none => throw (.illegalState "Could not persist message")

def mark (roomId : UUID) (messageId : Nat) : Option UUID → Prog Unit
  | none => return ()
  | some clientId => do
      let _ ← RedisDeduplicator.mark roomId clientId messageId

def store (senderId roomId : UUID) (draft : Draft) : Prog SendResult := do
  let sender ← requireUser senderId
  let seq ← RedisSequenceCounter.next roomId (call (.maxSequence roomId))
  match ← settle (persist (draft.withSequence seq) sender) with
  | .error (.thrown .dataIntegrity) => absorb roomId draft.clientMessageId
  | .error e => throw e
  | .ok saved =>
      mark roomId saved.id draft.clientMessageId
      ensureMembership roomId senderId
      result saved false

def sendDraft (senderId roomId : UUID) (draft : Draft) : Prog SendResult := do
  let _ ← assertAccess roomId senderId
  if ← tryAcquire (.rateLimit senderId) then
    match ← seen roomId draft.clientMessageId with
    | some m => result m true
    | none => store senderId roomId draft
  else throw (.tooManyRequests "Slow down — you're sending too fast.")

def send (senderId roomId : UUID) (req : SendMessageRequest) : Prog SendResult := do
  match req.expiresIn with
  | none => sendDraft senderId roomId (req.draft senderId roomId 0)
  | some _ =>
      let now ← call .now
      sendDraft senderId roomId (req.draft senderId roomId now)

def sendFile (senderId roomId : UUID) (req : SendFileMessageRequest) : Prog SendResult :=
  if req.type = .text then throw (.badRequest "invalid_message" "Use the text endpoint for text.")
  else sendDraft senderId roomId (req.draft senderId roomId)

def load (id : Nat) : Prog Message := do
  match ← call (.findById id) with
  | none => throw (.notFound "message_not_found" "Message not found.")
  | some m => return m

def ownMessage (id : Nat) (userId : UUID) (verb : String) : Prog Message := do
  let m ← load id
  if m.senderId ≠ userId then
    throw (.forbidden "not_owner" ("You can only " ++ verb ++ " your own messages."))
  return m

def delete (messageId : Nat) (userId : UUID) : Prog Unit := do
  let m ← ownMessage messageId userId "delete"
  call (.delete m.id)

def sweepExpired : Prog Unit := do
  let now ← call .now
  call (.deleteExpired now)

def deltaMessage (people : List (UUID × JavaString)) (m : Message) : DeltaMessage where
  seq := m.sequenceNumber
  id := m.id
  userId := m.senderId
  name := (people.lookup m.senderId).getD []
  tsMillis := m.createdAt
  type := m.type
  body := m.body
  replyToId := m.replyToId
  edited := m.edited
  clientMessageId := m.clientMessageId

/-- The page of one room in `deltas`. -/
def roomDelta (userId roomId : UUID) (cursor maxPerRoom : Nat) : Prog RoomDelta := do
  if ← canAccess roomId userId then
    let rows ← call (.findAfter roomId cursor (maxPerRoom + 1))
    let more : Bool := maxPerRoom < rows.length
    let page := if more then rows.take maxPerRoom else rows
    let people ← summaries (page.map fun m => m.senderId)
    let watermark ← if more then call (.maxSequence roomId) else
      pure (match page.getLast? with
        | none => cursor
        | some m => m.sequenceNumber)
    return { roomId, messages := page.map (deltaMessage people), watermark, more, denied := false }
  else return { roomId, messages := [], watermark := 0, more := false, denied := true }

def deltas (userId : UUID) (maxPerRoom : Nat) : List (UUID × Nat) → Prog (List RoomDelta)
  | [] => return []
  | (roomId, cursor) :: rest => do
      let delta ← roomDelta userId roomId cursor maxPerRoom
      return delta :: (← deltas userId maxPerRoom rest)

/-! `gateway/StompController.java`, `chatroom/SyncController.java` -/

def RoomSend.request (frame : RoomSend) : SendMessageRequest where
  message := frame.message
  clientMessageId := frame.clientMessageId
  replyTo := frame.replyTo
  expiresIn := frame.expiresIn
  mentions := frame.mentions

def attempt (userId : UUID) (frame : RoomSend) : Prog Ack :=
  tryCatch (do
    let r ← send userId frame.chatroomId frame.request
    return .success r.messageId r.sequenceNumber r.duplicate frame.clientMessageId)
  fun e => match e with
    | .api _ code _ => return .fail code frame.clientMessageId
    | _ => return .fail "server_error" frame.clientMessageId

def MAX_ROOMS : Nat :=
  100

def DEFAULT_PER_ROOM : Nat :=
  200

def MAX_PER_ROOM : Nat :=
  500

/-- The page size asked for, within its bounds. -/
def perRoom : Option Int → Nat
  | none => DEFAULT_PER_ROOM
  | some n => (min (max n 1) MAX_PER_ROOM).toNat

def cursor (after : Option Int) : Nat :=
  (after.getD 0).toNat

def syncRooms (userId : UUID) (rooms : List (UUID × Option Int)) (maxPerRoom : Option Int) :
    Prog (List RoomDelta) :=
  if rooms = [] then
    throw (.badRequest "invalid_sync" "At least one room cursor is required.")
  else if MAX_ROOMS < rooms.length then
    throw (.badRequest "invalid_sync" ("At most " ++ toString MAX_ROOMS ++ " rooms per sync."))
  else deltas userId (perRoom maxPerRoom) (rooms.map fun (room, after) => (room, cursor after))

/-- A request under way, or something that befalls the servers: Redis loses a key, or the
replica that runs a thread goes down.  Each item of a `/rooms/sync` frame is an attempt of its own. -/
inductive Call
  | attempt (userId : UUID) (frame : RoomSend)
  | post (userId roomId : UUID) (req : SendMessageRequest)
  | postFile (userId roomId : UUID) (req : SendFileMessageRequest)
  | syncRooms (userId : UUID) (rooms : List (UUID × Option Int)) (maxPerRoom : Option Int)
  | delete (messageId : Nat) (userId : UUID)
  | sweepExpired
  | evict (key : RedisKey)
  | crash (thread : Nat)
  deriving DecidableEq

namespace Call

def program : Call → Prog Unit
  | .attempt userId frame => do
      let ack ← Rooms.attempt userId frame
      call (.respond (.ack ack))
  | .post userId roomId req => do
      let result ← settle (send userId roomId req)
      call (.respond (.sent result))
  | .postFile userId roomId req => do
      let result ← settle (sendFile userId roomId req)
      call (.respond (.sent result))
  | .syncRooms userId rooms maxPerRoom => do
      let result ← settle (Rooms.syncRooms userId rooms maxPerRoom)
      call (.respond (.deltas result))
  | .delete messageId userId => do
      let result ← settle (Rooms.delete messageId userId)
      call (.respond (.done result))
  | .sweepExpired => Rooms.sweepExpired
  | .evict key => call (.evict key)
  | .crash thread => call (.crash thread)

/-- The room and the client id a send carries. -/
def target : Call → Option (UUID × Option UUID)
  | .attempt _ frame => some (frame.chatroomId, frame.clientMessageId)
  | .post _ roomId req => some (roomId, req.clientMessageId)
  | .postFile _ roomId req => some (roomId, req.clientMessageId)
  | _ => none

end Call

/-- The server under its requests. -/
def service : Service Op Op.Res Server Call (Except JavaError Unit) where
  program call := call.program.run
  exec := Exec

abbrev Event := Entry Op Op.Res Server Call

abbrev History := Journal Op Op.Res Server Call

end Rooms
