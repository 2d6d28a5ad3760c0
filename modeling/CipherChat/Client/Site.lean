import CipherChat.Client.Queue
import CipherChat.Dm.Storage
import CipherChat.Rooms.Content

/-!
The server as the drainers of the queue meet it: each request of `MessageService.send` and
`DmService.send` as one step, with what may go wrong in it, and whatever else changes there.
-/

namespace Client

open Rooms

structure DmMessage where
  conversationId : UUID
  senderId : UUID
  clientMessageId : Option UUID
  body : JavaString
  envelope : Option Dm.JsonMap

/-- `named` keeps the ids that a request has named: no room or conversation gets one of them. -/
structure Site where
  users : List UUID
  chatrooms : List (UUID × Chatroom)
  members : List (UUID × UUID)
  messages : List Message
  conversations : List (UUID × UUID × UUID)
  dms : List DmMessage
  named : List UUID

/-- What goes wrong in a request: something is unavailable, or an exception is thrown before or
after the row has been committed. -/
inductive Mishap
  | unavailable
  | failed
  | interrupted (cause : Cause)

/-- What the run decides about a request. -/
structure Chance where
  id : Nat := 1
  seq : Nat := 1
  now : Instant := 0
  allowed : Bool := true
  known : Int → Bool := fun _ => true
  mishap : Option Mishap := none

namespace DmMessage

/-- The entry of the replay index, for the rows it covers. -/
def slot (m : DmMessage) : Option (UUID × UUID × Option JavaString × Option Int) :=
  m.envelope.map fun e => (m.conversationId, m.senderId, Dm.storedSession e, Dm.storedCounter e)

/-- Whether the table takes the row at all. -/
def fits (m : DmMessage) : Bool :=
  match m.envelope with
  | none => fitsColumn 2000 m.body
  | some e => (Dm.storedCounter e).isSome && Dm.storableFields e

end DmMessage

/-- `DmSend` and `SendRequest` -/
structure DmRequest where
  clientMessageId : Option UUID
  message : Option JavaString
  envelope : Option Dm.JsonMap

/-- `@Size(max = 2000)` -/
def validDm (req : DmRequest) : Bool :=
  req.message.all fun message => message.length ≤ 2000

/-- `Character.isWhitespace` -/
def isWhitespace (unit : UInt16) : Bool :=
  (0x09 ≤ unit && unit ≤ 0x0D) || (0x1C ≤ unit && unit ≤ 0x20) || unit = 0x1680 ||
    (0x2000 ≤ unit && unit ≤ 0x200A && unit ≠ 0x2007) || unit = 0x2028 || unit = 0x2029 ||
    unit = 0x205F || unit = 0x3000

def isBlank (text : JavaString) : Bool :=
  text.all isWhitespace

namespace DmRequest

def hasText (req : DmRequest) : Bool :=
  req.message.any fun message => !isBlank message

/-- The checks on the content, after those on the conversation. -/
def check (req : DmRequest) : Except JavaError Unit :=
  if req.hasText = req.envelope.isSome then
    .error (.badRequest "invalid_message" "Exactly one of message or envelope is required.")
  else match req.envelope with
    | none => .ok ()
    | some e => Dm.EnvelopeValidator.validate e

def draft (req : DmRequest) (conversationId senderId : UUID) : DmMessage where
  conversationId := conversationId
  senderId := senderId
  clientMessageId := req.clientMessageId
  body := match req.envelope with
    | none => trim (req.message.getD [])
    | some _ => []
  envelope := req.envelope

end DmRequest

namespace Site

def name (s : Site) (id : UUID) : Site :=
  { s with named := id :: s.named }

def seen (s : Site) (roomId : UUID) (clientMessageId : Option UUID) : Option Message :=
  clientMessageId.bind fun cid =>
    s.messages.find? fun m => m.chatroomId = roomId && m.clientMessageId = some cid

def insert (s : Site) (m : Message) : Site :=
  { s with messages := m :: s.messages }

def insertDm (s : Site) (m : DmMessage) : Site :=
  { s with dms := m :: s.dms }

def join (s : Site) (roomId userId : UUID) : Site :=
  { s with members := (roomId, userId) :: s.members }

/-- `MessageService.send` -/
def send (s : Site) (senderId roomId : UUID) (req : SendMessageRequest) (a : Chance) :
    Except JavaError SendResult × Site :=
  let s := s.name roomId
  let refuse (e : JavaError) : Except JavaError SendResult × Site := (.error e, s)
  match a.mishap with
  | some .unavailable => refuse (.api 503 "dependency_unavailable"
      "A backing service is temporarily unavailable — retry shortly.")
  | some .failed => refuse (.thrown .runtime)
  | mishap =>
    match s.chatrooms.lookup roomId with
    | none => refuse (.notFound "chatroom_not_found" "Chatroom not found.")
    | some room =>
      if room.privateRoom && (roomId, senderId) ∉ s.members then
        refuse (.forbidden "not_member" "This is a private room.")
      else if !a.allowed then
        refuse (.tooManyRequests "Slow down — you're sending too fast.")
      else match s.seen roomId req.clientMessageId with
        | some m => (.ok { ok := true, messageId := m.id, sequenceNumber := m.sequenceNumber, duplicate := true }, s)
        | none =>
          if senderId ∉ s.users then refuse (.notFound "user_not_found" "User not found.")
          else
            let m : Message :=
              { stored senderId roomId a.now a.seq req with id := a.id, createdAt := a.now }
            if !fits a.known m.toDraft then refuse (.illegalState "Could not persist message")
            else match mishap with
              | some (.interrupted cause) => (.error (.thrown cause), s.insert m)
              | _ => (.ok { ok := true, messageId := m.id, sequenceNumber := m.sequenceNumber, duplicate := false },
                  (s.insert m).join roomId senderId)

def seenDm (s : Site) (conversationId : UUID) (clientMessageId : Option UUID) : Option DmMessage :=
  clientMessageId.bind fun cid =>
    s.dms.find? fun m => m.conversationId = conversationId && m.clientMessageId = some cid

/-- The row cannot stand beside those there are, or not in the table at all. -/
def rejects (s : Site) (m : DmMessage) : Bool :=
  !m.fits || s.dms.any fun m' => m.slot.isSome && m'.slot = m.slot

/-- `DmService.send`; whether the message was there already. -/
def sendDm (s : Site) (senderId conversationId : UUID) (req : DmRequest) (a : Chance) :
    Except JavaError Bool × Site :=
  let s := s.name conversationId
  let refuse (e : JavaError) : Except JavaError Bool × Site := (.error e, s)
  match a.mishap with
  | some .unavailable => refuse (.api 503 "dependency_unavailable"
      "A backing service is temporarily unavailable — retry shortly.")
  | some .failed => refuse (.thrown .runtime)
  | mishap =>
    match s.conversations.lookup conversationId with
    | none => refuse (.notFound "conversation_not_found" "Conversation not found.")
    | some (low, high) =>
      if senderId ≠ low ∧ senderId ≠ high then
        refuse (.forbidden "not_participant" "You are not part of this conversation.")
      else match req.check with
        | .error e => refuse e
        | .ok _ =>
          if !a.allowed then refuse (.tooManyRequests "Slow down — you're sending too fast.")
          else match s.seenDm conversationId req.clientMessageId with
            | some _ => (.ok true, s)
            | none =>
              let m := req.draft conversationId senderId
              if senderId ∉ s.users then refuse (.notFound "user_not_found" "User not found.")
              else if s.rejects m then
                refuse (.api 409 "replayed_counter" "This message counter was already used.")
              else match mishap with
                | some (.interrupted cause) => (.error (.thrown cause), s.insertDm m)
                | _ => (.ok false, s.insertDm m)

/-- `GlobalExceptionHandler` -/
def errorStatus : JavaError → Nat
  | .api status _ _ => status
  | .thrown .dataIntegrity => 409
  | .thrown .dataAccess => 503
  | _ => 500

def status {α : Type} : Except JavaError α → Nat
  | .ok _ => 201
  | .error e => errorStatus e

theorem errorStatus_thrown (cause : Cause) : 400 ≤ errorStatus (.thrown cause) := by
  cases cause <;> decide

/-- What a request to a room comes to. -/
inductive Sent (s : Site) (senderId roomId : UUID) (req : SendMessageRequest) :
    Except JavaError SendResult → Site → Prop
  | refused (e) : 500 ≤ errorStatus e ∨ errorStatus e = 429 →
      Sent s senderId roomId req (.error e) (s.name roomId)
  | missing (e) : s.chatrooms.lookup roomId = none ∨ senderId ∉ s.users → errorStatus e = 404 →
      Sent s senderId roomId req (.error e) (s.name roomId)
  | barred (e room) : s.chatrooms.lookup roomId = some room → room.privateRoom →
      (roomId, senderId) ∉ s.members → errorStatus e = 403 →
      Sent s senderId roomId req (.error e) (s.name roomId)
  | duplicate (m r cid) : s.chatrooms.lookup roomId ≠ none → m ∈ s.messages → m.chatroomId = roomId → m.clientMessageId = some cid →
      req.clientMessageId = some cid → Sent s senderId roomId req (.ok r) (s.name roomId)
  | inserted (m r members) : s.chatrooms.lookup roomId ≠ none → m.chatroomId = roomId → m.senderId = senderId →
      m.clientMessageId = req.clientMessageId → m.body = trim req.message → fitsColumn 2000 m.body →
      senderId ∈ s.users → (∀ e, r = .error e → 400 ≤ errorStatus e) →
      Sent s senderId roomId req r { (s.name roomId).insert m with members }

theorem send_sent (s : Site) (senderId roomId : UUID) (req : SendMessageRequest) (a : Chance) :
    Sent s senderId roomId req (s.send senderId roomId req a).1 (s.send senderId roomId req a).2 := by
  unfold send
  dsimp only
  split
  · exact .refused _ (.inl (by decide))
  · exact .refused _ (.inl (by decide))
  split
  next absent => exact .missing _ (.inl absent) rfl
  next room present =>
    have there : s.chatrooms.lookup roomId ≠ none := by
      rw [show s.chatrooms.lookup roomId = some room from present]
      simp
    split
    next outside =>
      simp only [Bool.and_eq_true, decide_eq_true_eq] at outside
      exact .barred _ room present outside.1 outside.2 rfl
    split
    · exact .refused _ (.inr rfl)
    split
    next m found =>
      obtain ⟨cid, isId, isFirst⟩ := Option.bind_eq_some_iff.mp found
      have named := List.find?_some isFirst
      simp only [Bool.and_eq_true, decide_eq_true_eq] at named
      exact .duplicate m _ cid there (List.mem_of_find?_eq_some isFirst) named.1 named.2 isId
    split
    next unknown => exact .missing _ (.inr unknown) rfl
    next user =>
      split
      · exact .refused _ (.inl (by decide))
      next taken =>
        simp only [Bool.not_eq_true', Bool.not_eq_false, fits, Bool.and_eq_true] at taken
        simp only [not_not] at user
        have room : (stored senderId roomId a.now a.seq req).chatroomId = roomId := by
          simp [stored]
        have named : (stored senderId roomId a.now a.seq req).clientMessageId = req.clientMessageId := by
          simp [stored]
        split
        · refine .inserted _ _ _ there room (stored_senderId ..) named (stored_body ..) taken.1.1.1 user ?_
          intro e isError
          obtain rfl := Except.error.inj isError
          exact errorStatus_thrown _
        · refine .inserted _ _ _ there room (stored_senderId ..) named (stored_body ..) taken.1.1.1 user ?_
          intro e isError
          cases isError

/-- What a request to a conversation asks of it before anything else. -/
def Enters (s : Site) (senderId conversationId : UUID) (req : DmRequest) : Prop :=
  req.check = .ok () ∧ ∃ low high, s.conversations.lookup conversationId = some (low, high) ∧
    (senderId = low ∨ senderId = high)

/-- What a request to a conversation comes to. -/
inductive SentDm (s : Site) (senderId conversationId : UUID) (req : DmRequest) :
    Except JavaError Bool → Site → Prop
  | refused (e) : 500 ≤ errorStatus e ∨ errorStatus e = 429 →
      SentDm s senderId conversationId req (.error e) (s.name conversationId)
  | barred (e) : ¬s.Enters senderId conversationId req ∨ senderId ∉ s.users → 400 ≤ errorStatus e →
      SentDm s senderId conversationId req (.error e) (s.name conversationId)
  | rejected (e) : s.seenDm conversationId req.clientMessageId = none →
      s.rejects (req.draft conversationId senderId) → 400 ≤ errorStatus e →
      SentDm s senderId conversationId req (.error e) (s.name conversationId)
  | duplicate (m cid) : s.Enters senderId conversationId req → m ∈ s.dms →
      m.conversationId = conversationId → m.clientMessageId = some cid →
      req.clientMessageId = some cid →
      SentDm s senderId conversationId req (.ok true) (s.name conversationId)
  | inserted (r) : s.Enters senderId conversationId req → senderId ∈ s.users →
      ¬s.rejects (req.draft conversationId senderId) → (∀ e, r = .error e → 400 ≤ errorStatus e) →
      SentDm s senderId conversationId req r
        ((s.name conversationId).insertDm (req.draft conversationId senderId))

theorem DmRequest.check_status {req : DmRequest} {e : JavaError} (refusal : req.check = .error e) :
    400 ≤ errorStatus e := by
  unfold DmRequest.check at refusal
  split at refusal
  · obtain rfl := Except.error.inj refusal
    decide
  split at refusal
  · cases refusal
  next envelope _ =>
    obtain ⟨message, rfl⟩ := Dm.EnvelopeValidator.plain_validate envelope e refusal
    exact le_rfl

theorem sendDm_sent (s : Site) (senderId conversationId : UUID) (req : DmRequest) (a : Chance) :
    SentDm s senderId conversationId req (s.sendDm senderId conversationId req a).1
      (s.sendDm senderId conversationId req a).2 := by
  unfold sendDm
  dsimp only
  split
  · exact .refused _ (.inl (by decide))
  · exact .refused _ (.inl (by decide))
  split
  next absent =>
    refine .barred _ (.inl ?_) (by decide)
    rintro ⟨_, low, high, present, _⟩
    exact Option.some_ne_none _ (present.symm.trans absent)
  next low high present =>
    split
    next outside =>
      refine .barred _ (.inl ?_) (by decide)
      rintro ⟨_, low', high', present', inside⟩
      obtain ⟨rfl, rfl⟩ := Prod.mk.inj (Option.some.inj (present'.symm.trans present))
      exact inside.elim outside.1 outside.2
    next inside =>
      split
      next e refusal =>
        refine .barred e (.inl fun enters => ?_) (DmRequest.check_status refusal)
        rw [enters.1] at refusal
        cases refusal
      next fine =>
        have enters : s.Enters senderId conversationId req :=
          ⟨fine, low, high, present, by
            by_contra neither
            exact inside (not_or.mp neither)⟩
        split
        · exact .refused _ (.inr rfl)
        split
        next m found =>
          obtain ⟨cid, isId, isFirst⟩ := Option.bind_eq_some_iff.mp found
          have named := List.find?_some isFirst
          simp only [Bool.and_eq_true, decide_eq_true_eq] at named
          exact .duplicate m cid enters (List.mem_of_find?_eq_some isFirst) named.1 named.2 isId
        next unseen =>
          split
          next unknown => exact .barred _ (.inr unknown) (by decide)
          next user =>
            split
            next rejected => exact .rejected _ unseen rejected (by decide)
            next taken =>
              simp only [not_not] at user
              split
              · refine .inserted _ enters user taken fun e isError => ?_
                obtain rfl := Except.error.inj isError
                exact errorStatus_thrown _
              · refine .inserted _ enters user taken fun e isError => ?_
                cases isError

end Site

end Client
