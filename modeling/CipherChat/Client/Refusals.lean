import CipherChat.Client.Site
import Mathlib.Logic.Relation

/-!
Items the server will never accept: whatever happens at the server later, it refuses them again.
-/

namespace Client

open Rooms

inductive Content
  | text (message : JavaString)
  | file
  | dm (message : Option JavaString) (envelope : Option Dm.JsonMap)

/-- The message a client id was drawn for. -/
structure Origin where
  senderId : UUID
  targetId : UUID
  content : Content

/-- A client id is used for its own message only. -/
def Owns (owner : UUID → Origin) (clientMessageId : Option UUID) (origin : Origin) : Prop :=
  ∀ cid, clientMessageId = some cid → owner cid = origin

def DmQueuePayload.request (clientMessageId : Option UUID) (payload : DmQueuePayload) : DmRequest where
  clientMessageId := clientMessageId
  message := payload.message
  envelope := payload.envelope

namespace QueuedItem

def origin (item : QueuedItem) (userId : UUID) : Origin where
  senderId := userId
  targetId := item.targetId
  content := match item.payload with
    | .chatroom p => .text p.message
    | .dm p => .dm p.message p.envelope

end QueuedItem

/-- Of an acknowledgement, what the drainers read. -/
structure WireAck where
  ok : Bool
  duplicate : Bool
  clientMessageId : Option UUID

namespace WireAck

def success (duplicate : Bool) (clientMessageId : Option UUID) : WireAck where
  ok := true
  duplicate := duplicate
  clientMessageId := clientMessageId

def fail (clientMessageId : Option UUID) : WireAck where
  ok := false
  duplicate := false
  clientMessageId := clientMessageId

/-- `ack.ok || ack.duplicate` -/
def settles (ack : WireAck) : Bool :=
  ack.ok || ack.duplicate

end WireAck

namespace Site

/-- What the service worker posts, with the status of the answer. -/
def post (s : Site) (userId : UUID) (item : QueuedItem) (a : Chance) : Nat × Site :=
  match item.payload with
  | .chatroom p =>
      let req := flushBody item.clientMessageId p
      if validRequest req then
        let (result, s') := s.send userId item.targetId req a
        (status result, s')
      else (400, s)
  | .dm p =>
      let req := p.request item.clientMessageId
      if validDm req then
        let (result, s') := s.sendDm userId item.targetId req a
        (status result, s')
      else (400, s)

/-- An item of the batch of `drain`. -/
def attempt (s : Site) (userId : UUID) (frame : RoomSend) (a : Chance) : WireAck × Site :=
  match s.send userId frame.chatroomId frame.request a with
  | (.ok r, s') => (.success r.duplicate frame.clientMessageId, s')
  | (.error _, s') => (.fail frame.clientMessageId, s')

def attemptDm (s : Site) (userId conversationId : UUID) (req : DmRequest) (a : Chance) :
    WireAck × Site :=
  match s.sendDm userId conversationId req a with
  | (.ok duplicate, s') => (.success duplicate req.clientMessageId, s')
  | (.error _, s') => (.fail req.clientMessageId, s')

/-- Whether a drainer that sends the item is told that the server has it. -/
def Accepts (s : Site) (userId : UUID) (item : QueuedItem) (a : Chance) : Prop :=
  (200 ≤ (s.post userId item a).1 ∧ (s.post userId item a).1 < 300) ∨
  match item.payload with
  | .chatroom p => (s.attempt userId (drainFrame item.clientMessageId item.targetId p) a).1.settles
  | .dm p => validDm (p.request item.clientMessageId) ∧
      (s.attemptDm userId item.targetId (p.request item.clientMessageId) a).1.settles

/-- Whatever may happen at the server. -/
inductive Step (owner : UUID → Origin) (s : Site) : Site → Prop
  | send (senderId roomId req a) : Owns owner req.clientMessageId ⟨senderId, roomId, .text req.message⟩ →
      Step owner s (s.send senderId roomId req a).2
  | sendDm (senderId conversationId req a) :
      Owns owner req.clientMessageId ⟨senderId, conversationId, .dm req.message req.envelope⟩ →
      Step owner s (s.sendDm senderId conversationId req a).2
  | register (userId) : Step owner s { s with users := userId :: s.users }
  | create (roomId room) : roomId ∉ s.named →
      Step owner s { s with chatrooms := (roomId, room) :: s.chatrooms }
  | converse (conversationId low high) : conversationId ∉ s.named →
      Step owner s { s with conversations := (conversationId, low, high) :: s.conversations }
  | file (m : Message) (members) : Owns owner m.clientMessageId ⟨m.senderId, m.chatroomId, .file⟩ →
      Step owner s { (s.name m.chatroomId).insert m with members }
  | members (members) : Step owner s { s with members }
  | edit (body : Message → JavaString) :
      Step owner s { s with messages := s.messages.map fun m => { m with body := body m } }
  | delete (kept : Message → Bool) : Step owner s { s with messages := s.messages.filter kept }

def Later (owner : UUID → Origin) : Site → Site → Prop :=
  Relation.ReflTransGen (Step owner)

/-- The server refuses the item now and whatever happens. -/
def Doomed (owner : UUID → Origin) (s : Site) (userId : UUID) (item : QueuedItem) : Prop :=
  ∀ s', Later owner s s' → ∀ a, ¬s'.Accepts userId item a

/-- Why an item is refused for good. -/
inductive Shut (s : Site) (userId : UUID) (item : QueuedItem) : Prop
  | missing (p) : item.payload = .chatroom p → item.targetId ∈ s.named →
      s.chatrooms.lookup item.targetId = none → Shut s userId item
  | overlong (p) : item.payload = .chatroom p → ¬fitsColumn 2000 (trim p.message) →
      (∀ m ∈ s.messages, ∀ cid, item.clientMessageId = some cid → m.chatroomId = item.targetId →
        m.clientMessageId ≠ some cid) → Shut s userId item
  | invalid (p) : item.payload = .dm p → ¬validDm (p.request item.clientMessageId) →
      Shut s userId item
  | outside (p) : item.payload = .dm p → item.targetId ∈ s.named →
      ¬s.Enters userId item.targetId (p.request item.clientMessageId) → Shut s userId item
  | taken (p) : item.payload = .dm p →
      s.rejects ((p.request item.clientMessageId).draft item.targetId userId) →
      (∀ m ∈ s.dms, ∀ cid, item.clientMessageId = some cid → m.conversationId = item.targetId →
        m.clientMessageId ≠ some cid) → Shut s userId item

theorem Sent.accepted {s s' : Site} {senderId roomId : UUID} {req : SendMessageRequest}
    {r : Except JavaError SendResult} (sent : Sent s senderId roomId req r s')
    (below : status r < 300) : ∃ v, r = .ok v := by
  cases sent with
  | refused e cause => exact absurd below (by simp only [status]; omega)
  | missing e _ code => exact absurd below (by simp only [status]; omega)
  | barred e _ _ _ _ code => exact absurd below (by simp only [status]; omega)
  | duplicate m v => exact ⟨v, rfl⟩
  | inserted m r _ _ _ _ _ _ _ _ failed =>
      cases r with
      | ok v => exact ⟨v, rfl⟩
      | error e =>
          have code := failed e rfl
          exact absurd below (by simp only [status]; omega)

theorem SentDm.accepted {s s' : Site} {senderId conversationId : UUID} {req : DmRequest}
    {r : Except JavaError Bool} (sent : SentDm s senderId conversationId req r s')
    (below : status r < 300) : ∃ v, r = .ok v := by
  cases sent with
  | refused e cause => exact absurd below (by simp only [status]; omega)
  | barred e _ code => exact absurd below (by simp only [status]; omega)
  | rejected e _ _ code => exact absurd below (by simp only [status]; omega)
  | duplicate => exact ⟨true, rfl⟩
  | inserted r _ _ _ failed =>
      cases r with
      | ok v => exact ⟨v, rfl⟩
      | error e =>
          have code := failed e rfl
          exact absurd below (by simp only [status]; omega)

/-- A room message that is accepted was there or fits, and its room is there. -/
theorem Sent.of_ok {s s' : Site} {senderId roomId : UUID} {req : SendMessageRequest} {v : SendResult}
    (sent : Sent s senderId roomId req (.ok v) s') :
    s.chatrooms.lookup roomId ≠ none ∧ (fitsColumn 2000 (trim req.message) ∨
      ∃ m ∈ s.messages, ∃ cid, req.clientMessageId = some cid ∧ m.chatroomId = roomId ∧
        m.clientMessageId = some cid) := by
  cases sent with
  | duplicate m _ cid there member room named isId =>
      exact ⟨there, .inr ⟨m, member, cid, isId, room, named⟩⟩
  | inserted m _ members there room sender named body fits => exact ⟨there, .inl (body ▸ fits)⟩

theorem SentDm.of_ok {s s' : Site} {senderId conversationId : UUID} {req : DmRequest} {v : Bool}
    (sent : SentDm s senderId conversationId req (.ok v) s') :
    s.Enters senderId conversationId req ∧ (¬s.rejects (req.draft conversationId senderId) ∨
      ∃ m ∈ s.dms, ∃ cid, req.clientMessageId = some cid ∧ m.conversationId = conversationId ∧
        m.clientMessageId = some cid) := by
  cases sent with
  | duplicate m cid enters member conversation named isId =>
      exact ⟨enters, .inr ⟨m, member, cid, isId, conversation, named⟩⟩
  | inserted _ enters user taken => exact ⟨enters, .inl taken⟩

theorem attempt_ok {s : Site} {userId : UUID} {frame : RoomSend} {a : Chance}
    (settled : (s.attempt userId frame a).1.settles) : ∃ v,
      Sent s userId frame.chatroomId frame.request (.ok v) (s.attempt userId frame a).2 := by
  have sent := send_sent s userId frame.chatroomId frame.request a
  unfold attempt at settled ⊢
  split at settled
  next r s' isSent =>
    rw [isSent] at sent
    exact ⟨r, sent⟩
  · cases settled

theorem attemptDm_ok {s : Site} {userId conversationId : UUID} {req : DmRequest} {a : Chance}
    (settled : (s.attemptDm userId conversationId req a).1.settles) : ∃ v,
      SentDm s userId conversationId req (.ok v) (s.attemptDm userId conversationId req a).2 := by
  have sent := sendDm_sent s userId conversationId req a
  unfold attemptDm at settled ⊢
  split at settled
  next r s' isSent =>
    rw [isSent] at sent
    exact ⟨r, sent⟩
  · cases settled

/-- Whoever accepts an item has sent it with success. -/
theorem Accepts.sent {s : Site} {userId : UUID} {item : QueuedItem} {a : Chance}
    (accepts : s.Accepts userId item a) :
    (∃ p req v s', item.payload = .chatroom p ∧ req.message = p.message ∧
      req.clientMessageId = item.clientMessageId ∧ Sent s userId item.targetId req (.ok v) s') ∨
    ∃ p v s', item.payload = .dm p ∧ validDm (p.request item.clientMessageId) ∧
      SentDm s userId item.targetId (p.request item.clientMessageId) (.ok v) s' := by
  unfold Accepts post at accepts
  cases isPayload : item.payload with
  | chatroom p =>
      simp only [isPayload] at accepts
      rcases accepts with ⟨_, below⟩ | acked
      · split at below
        · have sent := send_sent s userId item.targetId (flushBody item.clientMessageId p) a
          obtain ⟨v, isOk⟩ := sent.accepted below
          rw [isOk] at sent
          exact .inl ⟨p, _, v, _, rfl, rfl, rfl, sent⟩
        · exact absurd below (by simp)
      · obtain ⟨v, sent⟩ := attempt_ok acked
        exact .inl ⟨p, _, v, _, rfl, rfl, rfl, sent⟩
  | dm p =>
      simp only [isPayload] at accepts
      rcases accepts with ⟨_, below⟩ | ⟨valid, acked⟩
      · split at below
        next valid =>
          have sent := sendDm_sent s userId item.targetId (p.request item.clientMessageId) a
          obtain ⟨v, isOk⟩ := sent.accepted below
          rw [isOk] at sent
          exact .inr ⟨p, v, _, rfl, valid, sent⟩
        · exact absurd below (by simp)
      · obtain ⟨v, sent⟩ := attemptDm_ok acked
        exact .inr ⟨p, v, _, rfl, valid, sent⟩

theorem Shut.refuses {s : Site} {userId : UUID} {item : QueuedItem} (shut : s.Shut userId item)
    (a : Chance) : ¬s.Accepts userId item a := by
  intro accepts
  rcases accepts.sent with ⟨p, req, v, s', isPayload, isMessage, isId, sent⟩ |
    ⟨p, v, s', isPayload, valid, sent⟩
  · obtain ⟨there, content⟩ := sent.of_ok
    cases shut with
    | missing p' _ _ absent => exact there absent
    | overlong p' isPayload' wide unseen =>
        obtain rfl : p' = p := by simpa [isPayload] using isPayload'.symm
        rcases content with fits | ⟨m, member, cid, isCid, room, named⟩
        · exact wide (isMessage ▸ fits)
        · exact unseen m member cid (isId ▸ isCid) room named
    | invalid p' isPayload' => simp [isPayload] at isPayload'
    | outside p' isPayload' => simp [isPayload] at isPayload'
    | taken p' isPayload' => simp [isPayload] at isPayload'
  · obtain ⟨enters, content⟩ := sent.of_ok
    cases shut with
    | missing p' isPayload' => simp [isPayload] at isPayload'
    | overlong p' isPayload' => simp [isPayload] at isPayload'
    | invalid p' isPayload' refused =>
        obtain rfl : p' = p := by simpa [isPayload] using isPayload'.symm
        exact refused valid
    | outside p' isPayload' _ barred =>
        obtain rfl : p' = p := by simpa [isPayload] using isPayload'.symm
        exact barred enters
    | taken p' isPayload' rejected unseen =>
        obtain rfl : p' = p := by simpa [isPayload] using isPayload'.symm
        rcases content with free | ⟨m, member, cid, isCid, conversation, named⟩
        · exact free rejected
        · exact unseen m member cid isCid conversation named

/-- What a step at the server leaves, and what it may add. -/
structure Grows (owner : UUID → Origin) (s s' : Site) : Prop where
  users : ∀ id ∈ s.users, id ∈ s'.users
  named : ∀ id ∈ s.named, id ∈ s'.named
  chatrooms : ∀ id ∈ s.named, s'.chatrooms.lookup id = s.chatrooms.lookup id
  conversations : ∀ id ∈ s.named, s'.conversations.lookup id = s.conversations.lookup id
  messages : ∀ m ∈ s'.messages,
    (∃ m₀ ∈ s.messages, m₀.senderId = m.senderId ∧ m₀.chatroomId = m.chatroomId ∧
      m₀.clientMessageId = m.clientMessageId) ∨
    ∃ content, Owns owner m.clientMessageId ⟨m.senderId, m.chatroomId, content⟩ ∧
      ∀ message, content = .text message → fitsColumn 2000 (trim message)
  kept : ∀ m ∈ s.dms, m ∈ s'.dms
  dms : ∀ m ∈ s'.dms, m ∈ s.dms ∨ ∃ req, m = DmRequest.draft req m.conversationId m.senderId ∧
    ¬s.rejects m ∧ Owns owner m.clientMessageId ⟨m.senderId, m.conversationId, .dm req.message req.envelope⟩

theorem Grows.of_name {owner : UUID → Origin} (s : Site) (id : UUID) : Grows owner s (s.name id) where
  users _ old := old
  named _ old := List.mem_cons_of_mem _ old
  chatrooms _ _ := rfl
  conversations _ _ := rfl
  messages m old := .inl ⟨m, old, rfl, rfl, rfl⟩
  kept _ old := old
  dms _ old := .inl old

theorem Sent.grows {owner : UUID → Origin} {s s' : Site} {senderId roomId : UUID}
    {req : SendMessageRequest} {r : Except JavaError SendResult} (sent : Sent s senderId roomId req r s')
    (owns : Owns owner req.clientMessageId ⟨senderId, roomId, .text req.message⟩) :
    Grows owner s s' := by
  cases sent with
  | refused | missing | barred | duplicate => exact .of_name s roomId
  | inserted m r members _ room sender named body fits =>
      have grows : Grows owner s (s.name roomId) := .of_name s roomId
      refine { grows with messages := fun m' member => ?_ }
      rcases List.mem_cons.mp member with rfl | old
      · refine .inr ⟨.text req.message, ?_, fun message same => ?_⟩
        · rw [room, sender, named]
          exact owns
        · obtain rfl := Content.text.inj same
          exact body ▸ fits
      · exact .inl ⟨m', old, rfl, rfl, rfl⟩

theorem SentDm.grows {owner : UUID → Origin} {s s' : Site} {senderId conversationId : UUID}
    {req : DmRequest} {r : Except JavaError Bool} (sent : SentDm s senderId conversationId req r s')
    (owns : Owns owner req.clientMessageId ⟨senderId, conversationId, .dm req.message req.envelope⟩) :
    Grows owner s s' := by
  cases sent with
  | refused | barred | rejected | duplicate => exact .of_name s conversationId
  | inserted r _ _ free =>
      have grows : Grows owner s (s.name conversationId) := .of_name s conversationId
      refine { grows with kept := fun m old => List.mem_cons_of_mem _ old, dms := fun m member => ?_ }
      rcases List.mem_cons.mp member with rfl | old
      · exact .inr ⟨req, rfl, free, owns⟩
      · exact .inl old

theorem lookup_fresh {α : Type} {rows : List (UUID × α)} {id new : UUID} {value : α}
    (other : id ≠ new) : ((new, value) :: rows).lookup id = rows.lookup id := by
  simp [List.lookup_cons, beq_false_of_ne other]

theorem Step.grows {owner : UUID → Origin} {s s' : Site} (step : Step owner s s') :
    Grows owner s s' := by
  cases step with
  | send senderId roomId req a owns => exact (send_sent s senderId roomId req a).grows owns
  | sendDm senderId conversationId req a owns =>
      exact (sendDm_sent s senderId conversationId req a).grows owns
  | register userId =>
      exact { Grows.of_name s 0 with named := fun _ => id, users := fun _ => List.mem_cons_of_mem _ }
  | create roomId room fresh =>
      refine { Grows.of_name s roomId with named := fun _ => id, chatrooms := fun id old => ?_ }
      exact lookup_fresh (ne_of_mem_of_not_mem old fresh)
  | converse conversationId low high fresh =>
      refine { Grows.of_name s conversationId with named := fun _ => id, conversations := fun id old => ?_ }
      exact lookup_fresh (ne_of_mem_of_not_mem old fresh)
  | file m members owns =>
      have grows : Grows owner s (s.name m.chatroomId) := .of_name s m.chatroomId
      refine { grows with messages := fun m' member => ?_ }
      rcases List.mem_cons.mp member with rfl | old
      · exact .inr ⟨.file, owns, nofun⟩
      · exact .inl ⟨m', old, rfl, rfl, rfl⟩
  | members members => exact { Grows.of_name s 0 with named := fun _ => id }
  | edit body =>
      refine { Grows.of_name s 0 with named := fun _ => id, messages := fun m member => ?_ }
      obtain ⟨m₀, old, rfl⟩ := List.mem_map.mp member
      exact .inl ⟨m₀, old, rfl, rfl, rfl⟩
  | delete kept =>
      refine { Grows.of_name s 0 with named := fun _ => id, messages := fun m member => ?_ }
      exact .inl ⟨m, List.mem_of_mem_filter member, rfl, rfl, rfl⟩

theorem Grows.rejects {owner : UUID → Origin} {s s' : Site} (grows : Grows owner s s') {m : DmMessage}
    (rejected : s.rejects m) : s'.rejects m := by
  simp only [Site.rejects, Bool.or_eq_true, List.any_eq_true, Bool.not_eq_true'] at rejected ⊢
  rcases rejected with unfit | ⟨m', old, same⟩
  · exact .inl unfit
  · exact .inr ⟨m', grows.kept m' old, same⟩

theorem Shut.step {owner : UUID → Origin} {s s' : Site} {userId : UUID} {item : QueuedItem}
    (owns : Owns owner item.clientMessageId (item.origin userId)) (grows : Grows owner s s')
    (shut : s.Shut userId item) : s'.Shut userId item := by
  cases shut with
  | missing p isPayload named absent =>
      refine .missing p isPayload (grows.named _ named) ?_
      rw [grows.chatrooms _ named]
      exact absent
  | overlong p isPayload wide unseen =>
      refine .overlong p isPayload wide fun m member cid isId room isCid => ?_
      rcases grows.messages m member with ⟨m₀, old, _, room₀, named₀⟩ | ⟨content, owned, fits⟩
      · exact unseen m₀ old cid isId (room₀.trans room) (named₀.trans isCid)
      · -- A message with this client id is the item's own, and that one does not fit.
        have same := (owned cid isCid).symm.trans (owns cid isId)
        simp only [QueuedItem.origin, isPayload, Origin.mk.injEq] at same
        exact wide (fits p.message same.2.2)
  | invalid p isPayload refused => exact .invalid p isPayload refused
  | outside p isPayload named barred =>
      refine .outside p isPayload (grows.named _ named) fun enters => barred ?_
      unfold Enters at enters
      rw [grows.conversations _ named] at enters
      exact enters
  | taken p isPayload rejected unseen =>
      refine .taken p isPayload (grows.rejects rejected) fun m member cid isId conversation isCid => ?_
      rcases grows.dms m member with old | ⟨req, isDraft, free, owned⟩
      · exact unseen m old cid isId conversation isCid
      · have same := (owned cid isCid).symm.trans (owns cid isId)
        simp only [QueuedItem.origin, isPayload, Origin.mk.injEq, Content.dm.injEq] at same
        obtain ⟨sender, _, message, envelope⟩ := same
        have named : req.clientMessageId = some cid :=
          (congrArg DmMessage.clientMessageId isDraft).symm.trans isCid
        have isRow : m = (p.request item.clientMessageId).draft item.targetId userId := by
          refine isDraft.trans ?_
          simp only [DmRequest.draft, DmQueuePayload.request, named, isId, message, envelope,
            conversation, sender]
        exact free (isRow ▸ rejected)

theorem Shut.doomed {owner : UUID → Origin} {s : Site} {userId : UUID} {item : QueuedItem}
    (owns : Owns owner item.clientMessageId (item.origin userId)) (shut : s.Shut userId item) :
    Doomed owner s userId item := by
  intro s' later
  have shut' : s'.Shut userId item := by
    induction later with
    | refl => exact shut
    | tail _ step ih => exact ih.step owns step.grows
  exact shut'.refuses

end Site

end Client
