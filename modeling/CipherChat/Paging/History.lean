import CipherChat.Dm.Service
import CipherChat.Paging.Seek
import CipherChat.Rooms.Service

/-!
`MessageService.history` and `DmService.history`: the pages of a room and of a conversation, each
as the database stands when it is asked for.
-/

namespace Paging

open Rooms (UUID JavaString JavaError)

def MAX_PAGE : Nat :=
  100

/-- `Math.min(Math.max(limit, 1), MAX_PAGE)` -/
def pageSize (limit : Int) : Nat :=
  (min (max limit 1) MAX_PAGE).toNat

theorem pageSize_pos (limit : Int) : 0 < pageSize limit := by
  simp only [pageSize, MAX_PAGE]
  omega

/-- The cursor of an answer; the text of a number is kept as the number. -/
structure Cursor where
  nextCursor : Option Nat
  hasMore : Bool
  limit : Nat
  deriving DecidableEq

/-! `chatroom/MessageService.java` -/

/-- A row stands for its view: `views` has one for each, in their order. -/
structure CursorPage where
  messages : List Rooms.Message
  chatroom : Rooms.Chatroom
  cursor : Cursor

def assertAccess (s : Rooms.Server) (roomId userId : UUID) : Except JavaError Rooms.Chatroom :=
  match s.chatrooms.lookup roomId with
  | none => .error (.notFound "chatroom_not_found" "Chatroom not found.")
  | some room =>
      if room.privateRoom && (roomId, userId) ∉ s.members then
        .error (.forbidden "not_member" "This is a private room.")
      else .ok room

def roomHistory (s : Rooms.Server) (roomId userId : UUID) (beforeSequence : Option Nat)
    (limit : Int) : Except JavaError CursorPage := do
  let room ← assertAccess s roomId userId
  let size := pageSize limit
  let page := seek (fun m => m.sequenceNumber) (s.inRoom roomId) beforeSequence size
  return {
    messages := page.rows
    chatroom := room
    cursor := { nextCursor := page.nextCursor, hasMore := page.hasMore, limit := size } }

/-! `dm/DmService.java` -/

structure HistoryPage where
  messages : List Dm.Message
  participant : Option JavaString
  cursor : Cursor

def requireParticipant (s : Dm.Server) (conversationId userId : UUID) :
    Except JavaError Dm.Conversation :=
  match s.conversations.find? fun c => c.id = conversationId with
  | none => .error (.notFound "conversation_not_found" "Conversation not found.")
  | some c =>
      if c.has userId then .ok c
      else .error (.forbidden "not_participant" "You are not part of this conversation.")

def inConversation (s : Dm.Server) (conversationId : UUID) : List Dm.Message :=
  s.messages.filter fun m => m.conversationId = conversationId

def dmHistory (s : Dm.Server) (conversationId userId : UUID) (beforeId : Option Nat)
    (limit : Int) : Except JavaError HistoryPage := do
  let c ← requireParticipant s conversationId userId
  let size := pageSize limit
  let page := seek Dm.Message.id (inConversation s conversationId) beforeId size
  return {
    messages := page.rows
    participant := s.users.lookup (c.other userId)
    cursor := { nextCursor := page.nextCursor, hasMore := page.hasMore, limit := size } }

/-! Following the cursors, while the tables change from one page to the next. -/

def CursorPage.page (p : CursorPage) : Page Rooms.Message where
  rows := p.messages
  nextCursor := p.cursor.nextCursor
  hasMore := p.cursor.hasMore

def HistoryPage.page (p : HistoryPage) : Page Dm.Message where
  rows := p.messages
  nextCursor := p.cursor.nextCursor
  hasMore := p.cursor.hasMore

def roomPages (tables : Nat → Rooms.Server) (roomId userId : UUID) (limit : Int) (i : Nat)
    (before : Option Nat) : Except JavaError (Page Rooms.Message) :=
  (roomHistory (tables i) roomId userId before limit).map CursorPage.page

def dmPages (tables : Nat → Dm.Server) (conversationId userId : UUID) (limit : Int) (i : Nat)
    (before : Option Nat) : Except JavaError (Page Dm.Message) :=
  (dmHistory (tables i) conversationId userId before limit).map HistoryPage.page

section Access

open Async

variable {t : Nat} {roomId conversationId userId : UUID}

end Access

/-- Whatever is inserted and deleted between the pages, following the cursors from the newest page
comes to an end, in one way only, and shows what was there all the time once and in order. -/
theorem history_exact :
    (∀ (tables : Nat → Rooms.Server) (roomId userId : UUID) (limit : Int),
      (∀ i, (((tables i).inRoom roomId).map fun m => m.sequenceNumber).Nodup) →
      (∀ i, ∃ room, assertAccess (tables i) roomId userId = .ok room) →
      ∃ pages, Follows (roomPages tables roomId userId limit) 0 none pages ∧
        (∀ pages', Follows (roomPages tables roomId userId limit) 0 none pages' → pages' = pages) ∧
        Exact (fun m => m.sequenceNumber) (fun i => (tables i).inRoom roomId) pages) ∧
    ∀ (tables : Nat → Dm.Server) (conversationId userId : UUID) (limit : Int),
      (∀ i, ((inConversation (tables i) conversationId).map Dm.Message.id).Nodup) →
      (∀ i, ∃ c, requireParticipant (tables i) conversationId userId = .ok c) →
      ∃ pages, Follows (dmPages tables conversationId userId limit) 0 none pages ∧
        (∀ pages', Follows (dmPages tables conversationId userId limit) 0 none pages' →
          pages' = pages) ∧
        Exact Dm.Message.id (fun i => inConversation (tables i) conversationId) pages := by
  constructor
  · intro tables roomId userId limit distinct readable
    have fetched : ∀ i before, roomPages tables roomId userId limit i before =
        .ok (seek (fun m => m.sequenceNumber) ((tables i).inRoom roomId) before (pageSize limit)) := by
      intro i before
      obtain ⟨room, access⟩ := readable i
      rw [roomPages, roomHistory, access]
      rfl
    exact exact_of_seek fetched distinct (pageSize_pos limit)
  · intro tables conversationId userId limit distinct readable
    have fetched : ∀ i before, dmPages tables conversationId userId limit i before =
        .ok (seek Dm.Message.id (inConversation (tables i) conversationId) before
          (pageSize limit)) := by
      intro i before
      obtain ⟨c, access⟩ := readable i
      rw [dmPages, dmHistory, access]
      rfl
    exact exact_of_seek fetched distinct (pageSize_pos limit)

/-- A room with three messages, of which the newest goes when the first page has been read. -/
def shrinking (i : Nat) : Rooms.Server where
  chatrooms := [(0, { privateRoom := false })]
  members := []
  users := []
  messages := ([1, 2, 3].filter fun n => n ≠ 3 || i = 0).map fun n =>
    { Rooms.Draft.create 0 0 .text none n none with id := n, createdAt := 0 }
  pending := []
  nextId := 4
  redis _ := none
  stopped := []

/-- A conversation to which a message is added with each page. -/
def growing (i : Nat) : Dm.Server where
  conversations := [{ id := 0, userLow := 0, userHigh := 1 }]
  users := []
  messages := (List.range (i + 3)).map fun n =>
    { conversationId := 0, senderId := 0, clientMessageId := none, body := [], envelope := none, id := n }
  pending := []
  nextId := i + 3

theorem history_exact_changing :
    (∃ pages, Follows (roomPages shrinking 0 0 1) 0 none pages ∧
      (∀ pages', Follows (roomPages shrinking 0 0 1) 0 none pages' → pages' = pages) ∧
      Exact (fun m => m.sequenceNumber) (fun i => (shrinking i).inRoom 0) pages) ∧
    ∃ pages, Follows (dmPages growing 0 1 2) 0 none pages ∧
      (∀ pages', Follows (dmPages growing 0 1 2) 0 none pages' → pages' = pages) ∧
      Exact Dm.Message.id (fun i => inConversation (growing i) 0) pages := by
  refine ⟨history_exact.1 shrinking 0 0 1 (fun i => ?_) (fun i => ⟨_, rfl⟩),
    history_exact.2 growing 0 1 2 (fun i => ?_) (fun i => ⟨_, rfl⟩)⟩
  · by_cases first : i = 0
    · subst first
      decide
    · have rows : (shrinking i).messages = (shrinking 1).messages := by simp [shrinking, first]
      rw [Rooms.Server.inRoom, rows]
      decide
  · have rows : (inConversation (growing i) 0).map Dm.Message.id = List.range (i + 3) := by
      simp [inConversation, growing, List.filter_map, Function.comp_def]
    rw [rows]
    exact List.nodup_range

end Paging
