import CipherChat.Dm.EnvelopeValidator
import CipherChat.Text.Utf

/-!
`services/OfflineQueue.ts`: the items of the offline queue, what the page and the service worker
send for them, and what the server accepts: the checks of `WsPayloads.java`, `ChatroomDtos.java`
and `DmDtos.java`, and the columns of the tables.
-/

namespace Client

open Rooms

/-- What the composer hands to `send`; an expiry of zero is no expiry. -/
structure SendInput where
  message : JavaString
  replyTo : Option ReplyRef
  expiresIn : Option Int
  clientMessageId : UUID
  mentions : List UUID
  deriving DecidableEq

structure ChatroomQueuePayload where
  message : JavaString
  replyTo : Option ReplyRef
  expiresIn : Option Int

structure DmQueuePayload where
  message : Option JavaString
  envelope : Option Dm.JsonMap

inductive QueuePayload
  | chatroom (payload : ChatroomQueuePayload)
  | dm (payload : DmQueuePayload)

structure QueuedItem where
  clientMessageId : Option UUID
  targetId : UUID
  payload : QueuePayload

/-- The frame of `send`; without mentions the composer leaves the field out. -/
def SendInput.frame (data : SendInput) (chatroomId : UUID) : RoomSend where
  chatroomId := chatroomId
  message := data.message
  clientMessageId := some data.clientMessageId
  replyTo := data.replyTo
  expiresIn := data.expiresIn
  mentions := if data.mentions = [] then none else some data.mentions

/-- What `send` puts into the queue. -/
def SendInput.payload (data : SendInput) : ChatroomQueuePayload where
  message := data.message
  replyTo := data.replyTo
  expiresIn := data.expiresIn

def SendInput.queued (data : SendInput) (chatroomId : UUID) : QueuedItem where
  clientMessageId := some data.clientMessageId
  targetId := chatroomId
  payload := .chatroom data.payload

/-- The item of the frame that `drain` sends. -/
def drainFrame (clientMessageId : Option UUID) (targetId : UUID) (payload : ChatroomQueuePayload) :
    RoomSend where
  chatroomId := targetId
  message := payload.message
  clientMessageId := clientMessageId
  replyTo := none
  expiresIn := none
  mentions := none

/-- The body that `flushOutbox` posts to a room. -/
def flushBody (clientMessageId : Option UUID) (payload : ChatroomQueuePayload) :
    SendMessageRequest where
  message := payload.message
  clientMessageId := clientMessageId
  replyTo := payload.replyTo
  expiresIn := payload.expiresIn
  mentions := none

/-! The constraints on the fields. -/

/-- `@NotBlank @Size(max = 2000)` -/
def validText (message : JavaString) : Bool :=
  trim message ≠ [] && message.length ≤ 2000

/-- `@Size(max = 10)` -/
def validMentions : Option (List UUID) → Bool
  | none => true
  | some ids => ids.length ≤ 10

/-- `@Min(5) @Max(604800)` -/
def validExpiry : Option Int → Bool
  | none => true
  | some seconds => 5 ≤ seconds && seconds ≤ 604800

/-- What fits into an `Integer`. -/
def isInteger : Option Int → Bool
  | none => true
  | some n => -2 ^ 31 ≤ n && n < 2 ^ 31

def validFrame (frame : RoomSend) : Bool :=
  validText frame.message && isInteger frame.expiresIn && validMentions frame.mentions

def validRequest (req : SendMessageRequest) : Bool :=
  validText req.message && validExpiry req.expiresIn && validMentions req.mentions

/-- `VARCHAR(size)`: characters, of which none is NUL. -/
def fitsColumn (size : Nat) (text : JavaString) : Bool :=
  (Utf.points text).length ≤ size && !text.contains 0

/-- Whether the table takes a row, with the messages `known` to be there. -/
def fits (known : Int → Bool) (d : Draft) : Bool :=
  fitsColumn 2000 d.body && d.replyToId.all known && d.replyPreview.all (fitsColumn 200) &&
    d.replySenderName.all (fitsColumn 50)

end Client
