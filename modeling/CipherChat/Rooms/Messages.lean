import CipherChat.Text.Utf

/-!
Room messages and the requests and answers about them: `chatroom/Message.java`,
`chatroom/ChatroomDtos.java` and `gateway/WsPayloads.java`.
-/

namespace Rooms

abbrev UUID := BitVec 128

instance : LawfulBEq UUID := inferInstance

instance : LawfulBEq (UUID × UUID) := inferInstance

/-- A string of the server, as its code units. -/
abbrev JavaString := List UInt16

/-- Milliseconds since the epoch. -/
abbrev Instant := Int

inductive MessageType
  | text
  | image
  | audio
  | file
  | location
  deriving DecidableEq

/-- A `Message` before the database has given it an id; a `Double` is kept as its bits. -/
structure Draft where
  chatroomId : UUID
  senderId : UUID
  type : MessageType
  body : JavaString
  sequenceNumber : Nat
  clientMessageId : Option UUID
  fileUrl : Option JavaString := none
  fileName : Option JavaString := none
  mimeType : Option JavaString := none
  fileSize : Option Int := none
  lat : Option UInt64 := none
  lng : Option UInt64 := none
  replyToId : Option Int := none
  replyPreview : Option JavaString := none
  replySenderName : Option JavaString := none
  mentions : List UUID := []
  edited : Bool := false
  expiresAt : Option Instant := none
  deriving DecidableEq

structure Message extends Draft where
  id : Nat
  createdAt : Instant
  deriving DecidableEq

namespace Draft

def create (roomId senderId : UUID) (type : MessageType) (body : Option JavaString)
    (sequenceNumber : Nat) (clientMessageId : Option UUID) : Draft where
  chatroomId := roomId
  senderId := senderId
  type := type
  body := body.getD []
  sequenceNumber := sequenceNumber
  clientMessageId := clientMessageId

def attachFile (m : Draft) (url name mime : Option JavaString) (size : Option Int) : Draft :=
  { m with fileUrl := url, fileName := name, mimeType := mime, fileSize := size }

def locate (m : Draft) (lat lng : Option UInt64) : Draft :=
  { m with lat := lat, lng := lng }

def replyTo (m : Draft) (messageId : Option Int) (preview senderName : Option JavaString) : Draft :=
  { m with
    replyToId := messageId
    replyPreview := preview.map (List.take 200)
    replySenderName := senderName }

def mention (m : Draft) (ids : List UUID) : Draft :=
  { m with mentions := ids }

def expireAt (m : Draft) (at' : Option Instant) : Draft :=
  { m with expiresAt := at' }

/-- `MessageService.withSequence` -/
def withSequence (draft : Draft) (seq : Nat) : Draft :=
  ((((create draft.chatroomId draft.senderId draft.type (some draft.body) seq
      draft.clientMessageId).attachFile draft.fileUrl draft.fileName draft.mimeType
      draft.fileSize).locate draft.lat draft.lng).replyTo draft.replyToId draft.replyPreview
      draft.replySenderName).mention draft.mentions |>.expireAt draft.expiresAt

@[simp] theorem withSequence_chatroomId (draft : Draft) (seq : Nat) :
    (draft.withSequence seq).chatroomId = draft.chatroomId := by
  rfl

@[simp] theorem withSequence_sequenceNumber (draft : Draft) (seq : Nat) :
    (draft.withSequence seq).sequenceNumber = seq := by
  rfl

@[simp] theorem withSequence_senderId (draft : Draft) (seq : Nat) :
    (draft.withSequence seq).senderId = draft.senderId := by
  rfl

@[simp] theorem withSequence_clientMessageId (draft : Draft) (seq : Nat) :
    (draft.withSequence seq).clientMessageId = draft.clientMessageId := by
  rfl

end Draft

/-- `String.trim` -/
def trim (text : JavaString) : JavaString :=
  ((text.dropWhile (· ≤ 0x20)).reverse.dropWhile (· ≤ 0x20)).reverse

structure ReplyRef where
  messageId : Int
  preview : Option JavaString
  senderName : Option JavaString
  deriving DecidableEq

structure SendMessageRequest where
  message : JavaString
  clientMessageId : Option UUID
  replyTo : Option ReplyRef
  expiresIn : Option Int
  mentions : Option (List UUID)
  deriving DecidableEq

structure SendFileMessageRequest where
  type : MessageType
  message : Option JavaString
  fileUrl : Option JavaString
  fileName : Option JavaString
  mimeType : Option JavaString
  fileSize : Option Int
  lat : Option UInt64
  lng : Option UInt64
  clientMessageId : Option UUID
  replyTo : Option ReplyRef
  deriving DecidableEq

structure RoomSend where
  chatroomId : UUID
  message : JavaString
  clientMessageId : Option UUID
  replyTo : Option ReplyRef
  expiresIn : Option Int
  mentions : Option (List UUID)
  deriving DecidableEq

/-- `send`'s draft of a request, given the clock. -/
def SendMessageRequest.draft (req : SendMessageRequest) (senderId roomId : UUID) (now : Instant) :
    Draft :=
  let draft := Draft.create roomId senderId .text (some (trim req.message)) 0 req.clientMessageId
  let draft := match req.replyTo with
    | none => draft
    | some ref => draft.replyTo (some ref.messageId) ref.preview ref.senderName
  let draft := match req.expiresIn with
    | none => draft
    | some seconds => draft.expireAt (some (now + 1000 * seconds))
  match req.mentions with
    | none | some [] => draft
    | some ids => draft.mention ids

/-- `sendFile`'s draft of a request. -/
def SendFileMessageRequest.draft (req : SendFileMessageRequest) (senderId roomId : UUID) : Draft :=
  let draft := Draft.create roomId senderId req.type req.message 0 req.clientMessageId
  let draft := draft.attachFile req.fileUrl req.fileName req.mimeType req.fileSize
  let draft := draft.locate req.lat req.lng
  match req.replyTo with
    | none => draft
    | some ref => draft.replyTo (some ref.messageId) ref.preview ref.senderName

@[simp] theorem SendMessageRequest.draft_chatroomId (req : SendMessageRequest)
    (senderId roomId : UUID) (now : Instant) :
    (req.draft senderId roomId now).chatroomId = roomId := by
  unfold draft
  cases req.replyTo <;> cases req.expiresIn <;> rcases req.mentions with _ | _ | _ <;> rfl

@[simp] theorem SendMessageRequest.draft_senderId (req : SendMessageRequest)
    (senderId roomId : UUID) (now : Instant) :
    (req.draft senderId roomId now).senderId = senderId := by
  unfold draft
  cases req.replyTo <;> cases req.expiresIn <;> rcases req.mentions with _ | _ | _ <;> rfl

@[simp] theorem SendMessageRequest.draft_clientMessageId (req : SendMessageRequest)
    (senderId roomId : UUID) (now : Instant) :
    (req.draft senderId roomId now).clientMessageId = req.clientMessageId := by
  unfold draft
  cases req.replyTo <;> cases req.expiresIn <;> rcases req.mentions with _ | _ | _ <;> rfl

@[simp] theorem SendFileMessageRequest.draft_chatroomId (req : SendFileMessageRequest)
    (senderId roomId : UUID) : (req.draft senderId roomId).chatroomId = roomId := by
  unfold draft
  cases req.replyTo <;> rfl

@[simp] theorem SendFileMessageRequest.draft_senderId (req : SendFileMessageRequest)
    (senderId roomId : UUID) : (req.draft senderId roomId).senderId = senderId := by
  unfold draft
  cases req.replyTo <;> rfl

@[simp] theorem SendFileMessageRequest.draft_clientMessageId (req : SendFileMessageRequest)
    (senderId roomId : UUID) :
    (req.draft senderId roomId).clientMessageId = req.clientMessageId := by
  unfold draft
  cases req.replyTo <;> rfl

/-- `MessagePersistence.preview` -/
def Message.preview (m : Message) : JavaString :=
  match m.type with
  | .text => if 120 < m.body.length then m.body.take 120 ++ Utf.ofString "…" else m.body
  | .image => Utf.ofString "📷 Photo"
  | .audio => Utf.ofString "🎤 Voice message"
  | .file => Utf.ofString "📎 " ++ m.fileName.getD (Utf.ofString "File")
  | .location => Utf.ofString "📍 Location"

structure MessageSent where
  chatroomId : UUID
  messageId : Nat
  sequenceNumber : Nat
  senderId : UUID
  senderName : JavaString
  preview : JavaString
  mentions : List UUID
  deriving DecidableEq

structure SendResult where
  ok : Bool
  messageId : Nat
  sequenceNumber : Nat
  duplicate : Bool
  deriving DecidableEq

structure Ack where
  ok : Bool
  messageId : Option Nat
  sequenceNumber : Option Nat
  duplicate : Bool
  error : Option String
  clientMessageId : Option UUID
  deriving DecidableEq

namespace Ack

def success (messageId seq : Nat) (duplicate : Bool) (clientId : Option UUID) : Ack where
  ok := true
  messageId := some messageId
  sequenceNumber := some seq
  duplicate := duplicate
  error := none
  clientMessageId := clientId

def fail (error : String) (clientId : Option UUID) : Ack where
  ok := false
  messageId := none
  sequenceNumber := none
  duplicate := false
  error := some error
  clientMessageId := clientId

end Ack

structure DeltaMessage where
  seq : Nat
  id : Nat
  userId : UUID
  name : JavaString
  tsMillis : Instant
  type : MessageType
  body : JavaString
  replyToId : Option Int
  edited : Bool
  clientMessageId : Option UUID
  deriving DecidableEq

structure RoomDelta where
  roomId : UUID
  messages : List DeltaMessage
  watermark : Nat
  more : Bool
  denied : Bool
  deriving DecidableEq

end Rooms
