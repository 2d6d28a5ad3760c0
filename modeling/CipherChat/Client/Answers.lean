import CipherChat.Client.Refusals

/-!
What an answer that removes an item from the queue says about the server.
-/

namespace Client

open Rooms

namespace Site

/-- The message is there; one without a client id is told by its text. -/
def Stores (s : Site) (origin : Origin) (clientMessageId : Option UUID) : Prop :=
  match origin.content with
  | .text message => ∃ m ∈ s.messages, m.senderId = origin.senderId ∧ m.chatroomId = origin.targetId ∧
      m.clientMessageId = clientMessageId ∧ (clientMessageId = none → m.body = trim message)
  | .dm message envelope =>
      DmRequest.draft ⟨clientMessageId, message, envelope⟩ origin.targetId origin.senderId ∈ s.dms
  | .file => False

/-- An item without a client id may have been given one when it was sent. -/
def Persists (s : Site) (userId : UUID) (item : QueuedItem) : Prop :=
  ∃ cid, s.Stores (item.origin userId) cid ∧ (item.clientMessageId = none ∨ cid = item.clientMessageId)

/-- Whoever has a client id in the tables owns it. -/
structure Sound (owner : UUID → Origin) (s : Site) : Prop where
  messages : ∀ m ∈ s.messages, ∃ content, Owns owner m.clientMessageId ⟨m.senderId, m.chatroomId, content⟩
  dms : ∀ m ∈ s.dms, ∃ req, m = DmRequest.draft req m.conversationId m.senderId ∧
    Owns owner m.clientMessageId ⟨m.senderId, m.conversationId, .dm req.message req.envelope⟩

section

variable {owner : UUID → Origin} {s s' : Site} {userId : UUID} {item : QueuedItem}

theorem Sound.grow (sound : Sound owner s) (grows : Grows owner s s') : Sound owner s' := by
  refine ⟨fun m member => ?_, fun m member => ?_⟩
  · rcases grows.messages m member with ⟨m₀, old, sender, room, named⟩ | ⟨content, owned, _⟩
    · obtain ⟨content, owned⟩ := sound.messages m₀ old
      rw [sender, room, named] at owned
      exact ⟨content, owned⟩
    · exact ⟨content, owned⟩
  · rcases grows.dms m member with old | ⟨req, isDraft, _, owned⟩
    · exact sound.dms m old
    · exact ⟨req, isDraft, owned⟩

/-- A row with the client id of a message is that message. -/
theorem Sound.stores {origin : Origin} {message : JavaString} (sound : Sound owner s) {m : Message}
    {cid : UUID} (member : m ∈ s.messages) (named : m.clientMessageId = some cid)
    (owns : owner cid = origin) (isText : origin.content = .text message) :
    s.Stores origin (some cid) := by
  obtain ⟨content, owned⟩ := sound.messages m member
  obtain rfl := owns.symm.trans (owned cid named)
  obtain rfl : content = .text message := isText
  exact ⟨m, member, rfl, rfl, named, nofun⟩

theorem Sound.storesDm {origin : Origin} {message : Option JavaString} {envelope : Option Dm.JsonMap}
    (sound : Sound owner s) {m : DmMessage} {cid : UUID} (member : m ∈ s.dms)
    (named : m.clientMessageId = some cid) (owns : owner cid = origin)
    (isDm : origin.content = .dm message envelope) : s.Stores origin (some cid) := by
  obtain ⟨req, isDraft, owned⟩ := sound.dms m member
  obtain rfl := owns.symm.trans (owned cid named)
  obtain ⟨rfl, rfl⟩ := Content.dm.inj isDm
  have isId : req.clientMessageId = some cid :=
    (congrArg DmMessage.clientMessageId isDraft).symm.trans named
  have isRow : m = DmRequest.draft ⟨some cid, req.message, req.envelope⟩ m.conversationId m.senderId := by
    rw [← isId]
    exact isDraft
  unfold Stores
  exact isRow ▸ member

/-- A room message that was sent with success is there. -/
theorem Sent.stores {roomId : UUID} {req : SendMessageRequest} {v : SendResult} (sound : Sound owner s)
    (owns : Owns owner req.clientMessageId ⟨userId, roomId, .text req.message⟩)
    (sent : Sent s userId roomId req (.ok v) s') :
    s'.Stores ⟨userId, roomId, .text req.message⟩ req.clientMessageId := by
  cases sent with
  | duplicate m _ cid _ member room named isId =>
      rw [isId]
      exact (sound.grow (.of_name s roomId)).stores member named (owns cid isId) rfl
  | inserted m _ members _ room sender named body =>
      exact ⟨m, List.mem_cons_self, sender, room, named, fun _ => body⟩

theorem SentDm.stores {conversationId : UUID} {req : DmRequest} {v : Bool} (sound : Sound owner s)
    (owns : Owns owner req.clientMessageId ⟨userId, conversationId, .dm req.message req.envelope⟩)
    (sent : SentDm s userId conversationId req (.ok v) s') :
    s'.Stores ⟨userId, conversationId, .dm req.message req.envelope⟩ req.clientMessageId := by
  cases sent with
  | duplicate m cid _ member _ named isId =>
      rw [isId]
      exact (sound.grow (.of_name s conversationId)).storesDm member named (owns cid isId) rfl
  | inserted => exact List.mem_cons_self

theorem post_grows (a : Chance) (owns : Owns owner item.clientMessageId (item.origin userId)) :
    Grows owner s (s.post userId item a).2 := by
  unfold post
  unfold QueuedItem.origin at owns
  cases isPayload : item.payload with
  | chatroom p =>
      simp only [isPayload] at owns ⊢
      split
      · exact (send_sent s userId item.targetId (flushBody item.clientMessageId p) a).grows owns
      · exact { Grows.of_name s 0 with named := fun _ => id }
  | dm p =>
      simp only [isPayload] at owns ⊢
      split
      · exact (sendDm_sent s userId item.targetId (p.request item.clientMessageId) a).grows owns
      · exact { Grows.of_name s 0 with named := fun _ => id }

theorem attempt_grows {frame : RoomSend} (a : Chance)
    (owns : Owns owner frame.clientMessageId ⟨userId, frame.chatroomId, .text frame.message⟩) :
    Grows owner s (s.attempt userId frame a).2 := by
  have grows := (send_sent s userId frame.chatroomId frame.request a).grows owns
  unfold attempt
  split
  next isSent =>
    rw [isSent] at grows
    exact grows
  next isSent =>
    rw [isSent] at grows
    exact grows

theorem attemptDm_grows {conversationId : UUID} {req : DmRequest} (a : Chance)
    (owns : Owns owner req.clientMessageId ⟨userId, conversationId, .dm req.message req.envelope⟩) :
    Grows owner s (s.attemptDm userId conversationId req a).2 := by
  have grows := (sendDm_sent s userId conversationId req a).grows owns
  unfold attemptDm
  split
  next isSent =>
    rw [isSent] at grows
    exact grows
  next isSent =>
    rw [isSent] at grows
    exact grows

end

/-- The answers on which the service worker removes an item. -/
def removes (status : Nat) : Bool :=
  (200 ≤ status && status < 300 || status = 409) || (400 ≤ status && status < 500 && status ≠ 429)

theorem not_removes {st : Nat} (refused : 500 ≤ st ∨ st = 429) : ¬removes st := by
  simp only [removes, Bool.or_eq_true, Bool.and_eq_true, decide_eq_true_eq]
  omega

/-- The request is one that `send` would not refuse for this user at another time. -/
def Entitled (s : Site) (userId : UUID) (item : QueuedItem) : Prop :=
  match item.payload with
  | .chatroom p =>
      (validRequest (flushBody item.clientMessageId p) ∨ ¬fitsColumn 2000 (trim p.message)) ∧
        ∀ room, s.chatrooms.lookup item.targetId = some room → room.privateRoom →
          (item.targetId, userId) ∈ s.members
  | .dm _ => True

section

variable {owner : UUID → Origin} {s s' : Site} {userId : UUID} {item : QueuedItem}

theorem Sent.settles {p : ChatroomQueuePayload} {r : Except JavaError SendResult}
    (isPayload : item.payload = .chatroom p) (sound : Sound owner s) (user : userId ∈ s.users)
    (owns : Owns owner item.clientMessageId (item.origin userId)) (entitled : s.Entitled userId item)
    (sent : Sent s userId item.targetId (flushBody item.clientMessageId p) r s')
    (removed : removes (status r)) : s'.Persists userId item ∨ s'.Shut userId item := by
  have origin : item.origin userId = ⟨userId, item.targetId, .text p.message⟩ := by
    simp only [QueuedItem.origin, isPayload]
  rw [origin] at owns
  unfold Persists
  rw [origin]
  cases sent with
  | refused e refusal => exact absurd removed (not_removes refusal)
  | missing e why =>
      rcases why with absent | unknown
      · exact .inr (.missing p isPayload List.mem_cons_self absent)
      · exact absurd user unknown
  | barred e room present isPrivate outside =>
      simp only [Entitled, isPayload] at entitled
      exact absurd (entitled.2 room present isPrivate) outside
  | duplicate m v cid there member room named isId =>
      exact .inl ⟨_, (Sent.duplicate m v cid there member room named isId).stores sound owns, .inr rfl⟩
  | inserted m r members there room sender named body =>
      exact .inl ⟨_, ⟨m, List.mem_cons_self, sender, room, named, fun _ => body⟩, .inr rfl⟩

theorem SentDm.settles {p : DmQueuePayload} {r : Except JavaError Bool}
    (isPayload : item.payload = .dm p) (sound : Sound owner s) (user : userId ∈ s.users)
    (owns : Owns owner item.clientMessageId (item.origin userId))
    (sent : SentDm s userId item.targetId (p.request item.clientMessageId) r s')
    (removed : removes (status r)) : s'.Persists userId item ∨ s'.Shut userId item := by
  have origin : item.origin userId = ⟨userId, item.targetId, .dm p.message p.envelope⟩ := by
    simp only [QueuedItem.origin, isPayload]
  rw [origin] at owns
  unfold Persists
  rw [origin]
  cases sent with
  | refused e refusal => exact absurd removed (not_removes refusal)
  | barred e why =>
      rcases why with outside | unknown
      · exact .inr (.outside p isPayload List.mem_cons_self outside)
      · exact absurd user unknown
  | rejected e unseen rejected =>
      refine .inr (.taken p isPayload rejected fun m member cid isId conversation named => ?_)
      have none : (s.seenDm item.targetId (some cid)) = none := isId ▸ unseen
      have absent := List.find?_eq_none.mp none m member
      exact absent (by simp [conversation, named])
  | duplicate m cid enters member conversation named isId =>
      exact .inl ⟨_, (SentDm.duplicate m cid enters member conversation named isId).stores sound owns,
        .inr rfl⟩
  | inserted => exact .inl ⟨_, List.mem_cons_self, .inr rfl⟩

/-- The service worker is answered so only about an item that is there or refused for good. -/
theorem post_settles (sound : Sound owner s) (user : userId ∈ s.users)
    (owns : Owns owner item.clientMessageId (item.origin userId)) (entitled : s.Entitled userId item)
    (a : Chance) (removed : removes (s.post userId item a).1) :
    (s.post userId item a).2.Persists userId item ∨ (s.post userId item a).2.Shut userId item := by
  unfold post at removed ⊢
  cases isPayload : item.payload with
  | chatroom p =>
      simp only [isPayload] at removed ⊢
      split at removed
      next valid =>
        rw [if_pos valid]
        exact (send_sent s userId item.targetId (flushBody item.clientMessageId p) a).settles isPayload
          sound user owns entitled removed
      next invalid =>
        rw [if_neg invalid]
        simp only [Entitled, isPayload] at entitled
        by_cases there : ∃ m ∈ s.messages, ∃ cid, item.clientMessageId = some cid ∧
            m.clientMessageId = some cid
        · obtain ⟨m, member, cid, isId, named⟩ := there
          have isText : (item.origin userId).content = .text p.message := by
            simp only [QueuedItem.origin, isPayload]
          exact .inl ⟨some cid, sound.stores member named (owns cid isId) isText, .inr isId.symm⟩
        · refine .inr (.overlong p isPayload (entitled.1.resolve_left invalid) ?_)
          exact fun m member cid isId _ named => there ⟨m, member, cid, isId, named⟩
  | dm p =>
      simp only [isPayload] at removed ⊢
      split at removed
      next valid =>
        rw [if_pos valid]
        exact (sendDm_sent s userId item.targetId (p.request item.clientMessageId) a).settles isPayload
          sound user owns removed
      next invalid =>
        rw [if_neg invalid]
        exact .inr (.invalid p isPayload invalid)

/-- An acknowledgement of a client id: the message that owns it is there. -/
theorem attempt_settles {frame : RoomSend} {a : Chance} (sound : Sound owner s)
    (owns : Owns owner frame.clientMessageId ⟨userId, frame.chatroomId, .text frame.message⟩)
    (settled : (s.attempt userId frame a).1.settles) :
    (s.attempt userId frame a).2.Stores ⟨userId, frame.chatroomId, .text frame.message⟩
      frame.clientMessageId := by
  obtain ⟨v, sent⟩ := attempt_ok settled
  exact sent.stores sound owns

theorem attemptDm_settles {conversationId : UUID} {req : DmRequest} {a : Chance} (sound : Sound owner s)
    (owns : Owns owner req.clientMessageId ⟨userId, conversationId, .dm req.message req.envelope⟩)
    (settled : (s.attemptDm userId conversationId req a).1.settles) :
    (s.attemptDm userId conversationId req a).2.Stores
      ⟨userId, conversationId, .dm req.message req.envelope⟩ req.clientMessageId := by
  obtain ⟨v, sent⟩ := attemptDm_ok settled
  exact sent.stores sound owns

end

end Site

end Client
