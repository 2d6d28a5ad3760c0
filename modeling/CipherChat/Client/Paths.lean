import CipherChat.Client.Queue
import CipherChat.Rooms.Content

/-!
The three ways of a composed room message to the server: `useMessageDelivery.send` over the
socket, `OfflineQueue.drain` of the page, and `flushOutbox` of the service worker.
-/

namespace Client

open Rooms

section Paths

variable (data : SendInput) (senderId roomId : UUID) (now : Instant) (seq : Nat) (known : Int → Bool)

/-- What the table keeps of a request, if it takes the row. -/
def kept (req : SendMessageRequest) : Option Draft :=
  let draft := stored senderId roomId now seq req
  if fits known draft then some draft else none

/-- `/app/rooms/send` -/
def online : Option Draft :=
  let frame := data.frame roomId
  if validFrame frame then kept senderId frame.chatroomId now seq known frame.request else none

/-- `/app/rooms/sync`, which checks the list of the items and not the items. -/
def drained : Option Draft :=
  let frame := drainFrame (some data.clientMessageId) roomId data.payload
  kept senderId frame.chatroomId now seq known frame.request

/-- `POST /api/v1/chatrooms/{roomId}/messages` -/
def flushed : Option Draft :=
  let req := flushBody (some data.clientMessageId) data.payload
  if validRequest req then kept senderId roomId now seq known req else none

end Paths

/-- The server keeps the same message on every path. -/
def Agrees (data : SendInput) : Prop :=
  ∀ senderId roomId now seq known,
    online data senderId roomId now seq known = drained data senderId roomId now seq known ∧
      online data senderId roomId now seq known = flushed data senderId roomId now seq known

/-- A text with nothing else. -/
structure Plain (data : SendInput) : Prop where
  replyTo : data.replyTo = none
  expiresIn : data.expiresIn = none
  mentions : data.mentions = []

/-- The text fits into its column. -/
def Fitting (data : SendInput) : Prop :=
  fitsColumn 2000 (trim data.message)

section Stored

variable (senderId roomId : UUID) (now : Instant) (seq : Nat) (known : Int → Bool)

/-- Nothing but the text of a drained message has to fit. -/
theorem kept_drainFrame (clientMessageId : Option UUID) (payload : ChatroomQueuePayload)
    (fitting : fitsColumn 2000 (trim payload.message)) :
    kept senderId roomId now seq known (drainFrame clientMessageId roomId payload).request =
      some (stored senderId roomId now seq (drainFrame clientMessageId roomId payload).request) := by
  have isDraft : fits known
      (stored senderId roomId now seq (drainFrame clientMessageId roomId payload).request) = true := by
    simp only [fits, stored_body, stored_replyToId, Bool.and_eq_true]
    exact ⟨⟨⟨fitting, rfl⟩, rfl⟩, rfl⟩
  simp only [kept, isDraft, if_true]

theorem kept_of_not_fitting {req : SendMessageRequest}
    (overlong : ¬fitsColumn 2000 (trim req.message)) :
    kept senderId roomId now seq known req = none := by
  simp only [Bool.not_eq_true] at overlong
  simp [kept, fits, overlong]

end Stored

theorem agrees_of_not_fitting {data : SendInput} (overlong : ¬Fitting data) : Agrees data := by
  intro senderId roomId now seq known
  have nothing : ∀ req : SendMessageRequest, req.message = data.message →
      kept senderId roomId now seq known req = none := by
    intro req same
    apply kept_of_not_fitting
    rw [same]
    exact overlong
  have isOnline : online data senderId roomId now seq known = none := by
    simp only [online]
    split
    · exact nothing _ rfl
    · rfl
  have isFlushed : flushed data senderId roomId now seq known = none := by
    simp only [flushed]
    split
    · exact nothing _ rfl
    · rfl
  have isDrained : drained data senderId roomId now seq known = none := nothing _ rfl
  rw [isOnline, isDrained, isFlushed]
  simp

theorem agrees_of_plain {data : SendInput} (plain : Plain data) (text : validText data.message) :
    Agrees data := by
  intro senderId roomId now seq known
  have frame : validFrame (data.frame roomId) = true := by
    simp [validFrame, SendInput.frame, plain.expiresIn, plain.mentions, isInteger, validMentions, text]
  have request : validRequest (flushBody (some data.clientMessageId) data.payload) = true := by
    simp [validRequest, flushBody, SendInput.payload, plain.expiresIn, validExpiry, validMentions, text]
  simp only [online, drained, flushed, frame, request, if_true]
  constructor
  · simp [SendInput.frame, drainFrame, SendInput.payload, plain.replyTo, plain.expiresIn, plain.mentions]
  · simp [SendInput.frame, RoomSend.request, flushBody, SendInput.payload, plain.replyTo,
      plain.expiresIn, plain.mentions]

theorem plain_of_agrees {data : SendInput} (agrees : Agrees data) (fitting : Fitting data) :
    Plain data ∧ validText data.message := by
  have same := (agrees 0 0 0 0 fun _ => true).1
  simp only [online, drained, drainFrame] at same
  have isKept := kept_drainFrame 0 0 0 0 (fun _ => true) (some data.clientMessageId) data.payload fitting
  simp only [drainFrame] at isKept
  rw [isKept] at same
  split at same
  next valid =>
    simp only [kept] at same
    split at same
    next =>
      have equal := Option.some.inj same
      have replies := congrArg Draft.replyToId equal
      have expires := congrArg Draft.expiresAt equal
      have mentions := congrArg Draft.mentions equal
      simp only [stored_replyToId, stored_expiresAt, stored_mentions, RoomSend.request,
        SendInput.frame, Option.map_none, Option.map_eq_none_iff] at replies expires mentions
      simp only [validFrame, SendInput.frame, Bool.and_eq_true] at valid
      refine ⟨⟨replies, expires, ?_⟩, valid.1.1⟩
      by_contra some
      simp [some] at mentions
    next => cases same
  next => cases same

/-- The three paths agree on plain texts and on those that none of them keeps. -/
theorem agrees_iff (data : SendInput) :
    Agrees data ↔ ¬Fitting data ∨ (Plain data ∧ validText data.message) := by
  constructor
  · intro agrees
    by_cases fitting : Fitting data
    · exact .inr (plain_of_agrees agrees fitting)
    · exact .inl fitting
  · rintro (overlong | ⟨plain, text⟩)
    · exact agrees_of_not_fitting overlong
    · exact agrees_of_plain plain text

section Runs

open Async

variable {admits : History → Call → Prop} {permits : History → Event → Prop} {s : Server}
  {j : History} {e : Event} {m : Message} {known : Int → Bool}

end Runs

/-- A reply that mentions somebody and expires after a minute. -/
def reply : SendInput where
  message := [0x68, 0x69]
  replyTo := some ⟨1, none, none⟩
  expiresIn := some 60
  clientMessageId := 7
  mentions := [2]

theorem reply_differs : ¬∀ data, Agrees data := by
  intro claim
  have agrees := claim reply 1 1 0 1 fun _ => true
  revert agrees
  decide

end Client
