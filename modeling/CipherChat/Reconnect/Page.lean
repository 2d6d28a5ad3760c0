import CipherChat.Rooms.Sync

/-!
`Pages/ChatroomPage.tsx` and `services/deltaSync.ts`: what an open room holds of its messages, the
frames that reach it, and how it catches up after its socket has reconnected.
-/

namespace Reconnect

open Async Rooms

/-- The bubble of a message that is being sent goes by its client id. -/
inductive MessageId
  | row (id : Nat)
  | client (id : UUID)
  deriving DecidableEq

structure ChatMessage where
  id : MessageId
  pending : Bool
  sequenceNumber : Nat
  clientMessageId : Option UUID
  deriving DecidableEq

structure Page where
  messages : List ChatMessage
  latestSeq : Nat
  deriving DecidableEq

/-- What `handleNewMessage` makes of a frame. -/
def mapNewMessage (msg : Message) : ChatMessage where
  id := .row msg.id
  pending := false
  sequenceNumber := msg.sequenceNumber
  clientMessageId := msg.clientMessageId

/-- What `catchUpAfterReconnect` makes of a row, whose client id it drops. -/
def mapRawMessage (m : DeltaMessage) : ChatMessage where
  id := .row m.id
  pending := false
  sequenceNumber := m.seq
  clientMessageId := none

namespace Page

/-- The place of a frame: `(cmid && m.clientMessageId === cmid) || m._id === mapped._id` -/
def place (p : Page) (mapped : ChatMessage) : Option Nat :=
  p.messages.findIdx? fun m =>
    (mapped.clientMessageId.isSome && m.clientMessageId = mapped.clientMessageId) || m.id = mapped.id

def handleNewMessage (p : Page) (msg : Message) : Page :=
  let mapped := mapNewMessage msg
  { latestSeq := if p.latestSeq < msg.sequenceNumber then msg.sequenceNumber else p.latestSeq
    messages :=
      if p.messages.any fun m => m.id = mapped.id && !m.pending then p.messages
      else match p.place mapped with
        | some i => p.messages.set i mapped
        | none => p.messages ++ [mapped] }

def handleDeleted (p : Page) (messageId : Nat) : Page :=
  { p with messages := p.messages.filter fun m => m.id ≠ .row messageId }

/-- The end of `catchUpAfterReconnect`. -/
def merge (p : Page) (delta : RoomDelta) : Page :=
  let fresh := (delta.messages.map mapRawMessage).filter fun m => m.id ∉ p.messages.map ChatMessage.id
  { latestSeq := max p.latestSeq delta.watermark
    messages :=
      if fresh = [] then p.messages
      else (p.messages ++ fresh).insertionSort fun a b => a.sequenceNumber ≤ b.sequenceNumber }

/-- The highest number among the messages it holds. -/
def highest (p : Page) : Nat :=
  p.messages.foldr (fun m => max m.sequenceNumber) 0

def Holds (p : Page) (m : Message) : Prop :=
  ∃ x ∈ p.messages, x.id = .row m.id

section Holds

variable {p : Page} {m msg : Message} {delta : RoomDelta}

/-- A frame replaces its own message only, or a bubble. -/
theorem Holds.handleNewMessage (own : ∀ x ∈ p.messages, x.clientMessageId.isSome →
      x.clientMessageId = msg.clientMessageId → x.id = .row msg.id ∨ ∃ cid, x.id = .client cid)
    (holds : p.Holds m) : (p.handleNewMessage msg).Holds m := by
  obtain ⟨x, member, isRow⟩ := holds
  simp only [Page.handleNewMessage]
  split
  · exact ⟨x, member, isRow⟩
  split
  next i isPlace =>
    obtain ⟨bound, here, _⟩ := List.findIdx?_eq_some_iff_getElem.mp isPlace
    obtain ⟨k, inside, isAt⟩ := List.getElem_of_mem member
    by_cases same : k = i
    · subst same
      simp only [isAt, Bool.or_eq_true, Bool.and_eq_true, decide_eq_true_eq] at here
      have isMsg : x.id = .row msg.id := by
        rcases here with ⟨some', isId⟩ | isId
        · rcases own x member (isId ▸ some') isId with isMsg | ⟨cid, isClient⟩
          · exact isMsg
          · rw [isRow] at isClient
            cases isClient
        · exact isId
      exact ⟨mapNewMessage msg, List.mem_set bound _, isMsg.symm.trans isRow⟩
    · refine ⟨x, List.mem_iff_getElem.mpr ⟨k, by simpa using inside, ?_⟩, isRow⟩
      rw [List.getElem_set_of_ne (Ne.symm same), isAt]
  · exact ⟨x, List.mem_append_left _ member, isRow⟩

/-- A message is held once its frame has come. -/
theorem handleNewMessage_holds : (p.handleNewMessage msg).Holds msg := by
  simp only [Page.handleNewMessage]
  split
  next held =>
    obtain ⟨x, member, isRow⟩ := List.any_eq_true.mp held
    rw [Bool.and_eq_true] at isRow
    exact ⟨x, member, of_decide_eq_true isRow.1⟩
  split
  next i isPlace =>
    obtain ⟨bound, _⟩ := List.findIdx?_eq_some_iff_getElem.mp isPlace
    exact ⟨mapNewMessage msg, List.mem_set bound _, rfl⟩
  · exact ⟨mapNewMessage msg, List.mem_append_right _ List.mem_cons_self, rfl⟩

theorem Holds.handleDeleted {messageId : Nat} (other : m.id ≠ messageId) (holds : p.Holds m) :
    (p.handleDeleted messageId).Holds m := by
  obtain ⟨x, member, isRow⟩ := holds
  refine ⟨x, List.mem_filter.mpr ⟨member, ?_⟩, isRow⟩
  simp [isRow, other]

theorem Holds.merge (holds : p.Holds m) : (p.merge delta).Holds m := by
  obtain ⟨x, member, isRow⟩ := holds
  simp only [Page.merge]
  split
  · exact ⟨x, member, isRow⟩
  · exact ⟨x, (List.mem_insertionSort _).mpr (List.mem_append_left _ member), isRow⟩

/-- What a delta has, the room holds from then on. -/
theorem merge_holds (brought : m.id ∈ delta.messages.map DeltaMessage.id) : (p.merge delta).Holds m := by
  by_cases known : MessageId.row m.id ∈ p.messages.map ChatMessage.id
  · obtain ⟨x, member, isRow⟩ := List.mem_map.mp known
    exact Holds.merge ⟨x, member, isRow⟩
  · obtain ⟨d, inDelta, isId⟩ := List.mem_map.mp brought
    have isRow : (mapRawMessage d).id = .row m.id := by rw [← isId]; rfl
    have fresh : mapRawMessage d ∈ (delta.messages.map mapRawMessage).filter
        fun x => x.id ∉ p.messages.map ChatMessage.id := by
      refine List.mem_filter.mpr ⟨List.mem_map_of_mem inDelta, ?_⟩
      rw [isRow]
      exact decide_eq_true known
    simp only [Page.merge]
    split
    next none =>
      rw [none] at fresh
      cases fresh
    · exact ⟨_, (List.mem_insertionSort _).mpr (List.mem_append_right _ fresh), isRow⟩

end Holds

end Page

structure World where
  server : Server
  page : Page

/-- `reached` and `finish` do nothing: they say what a catch-up has come to, and that it is over. -/
inductive Op
  | server (op : Rooms.Op)
  | drain
  | latestSeq
  | merge (delta : RoomDelta)
  | newMessage (msg : Message)
  | deleted (messageId : Nat)
  | elsewhere (server : Server)
  | reached (watermark : Nat)
  | finish

namespace Op

abbrev Val : Op → Type
  | server op => op.Val
  | latestSeq => Nat
  | _ => Unit

abbrev Res (op : Op) : Type :=
  Except JavaError op.Val

end Op

/-- The unique index on the numbers of a room. -/
def Indexed (s : Server) : Prop :=
  ∀ m ∈ s.messages, ∀ m' ∈ s.messages, m.chatroomId = m'.chatroomId →
    m.sequenceNumber = m'.sequenceNumber → m = m'

instance (s : Server) : Decidable (Indexed s) :=
  inferInstanceAs (Decidable (∀ m ∈ s.messages, ∀ m' ∈ s.messages, m.chatroomId = m'.chatroomId →
    m.sequenceNumber = m'.sequenceNumber → m = m'))

/-- What an operation comes to. -/
def perform (t : Nat) (s : World) (op : Op) (a : Answer) : Option (op.Res × World) :=
  match op with
  | .server op => (Rooms.perform t s.server op a).map fun after => (after.1, { s with server := after.2 })
  | .drain =>
      match a.fault with
      | none => some (.ok (), s)
      | some fault => some (.error (.thrown fault.cause), s)
  | .latestSeq => some (.ok s.page.latestSeq, s)
  | .merge delta => some (.ok (), { s with page := s.page.merge delta })
  | .newMessage msg => some (.ok (), { s with page := s.page.handleNewMessage msg })
  | .deleted messageId => some (.ok (), { s with page := s.page.handleDeleted messageId })
  | .elsewhere server => some (.ok (), { s with server })
  | .reached _ | .finish => some (.ok (), s)

/-- A frame about a deletion comes after it, and the index stands whatever happens. -/
def Exec (t : Nat) (s : World) (op : Op) (result : op.Res) (s' : World) : Prop :=
  (∃ a, perform t s op a = some (result, s')) ∧ Indexed s'.server ∧
    ∀ id, op = .deleted id → ∀ m ∈ s.server.messages, m.id ≠ id

abbrev Prog (α : Type) :=
  Throwing JavaError Op Op.Res α

def call (op : Op) : Prog op.Val :=
  ExceptT.mk (Program.call op)

/-- A request, as the server runs it. -/
def onServer {α : Type} (p : Rooms.Prog α) : Prog α :=
  ExceptT.mk (p.run.relabel Op.server fun _ answer => answer)

/-! `services/deltaSync.ts` -/

def PER_ROOM : Nat :=
  200

def MAX_PAGES : Nat :=
  20

/-- `syncRooms({ [roomId]: cursor })` -/
def syncRooms (userId roomId : UUID) (cursor : Nat) : Prog (List RoomDelta) :=
  onServer (Rooms.syncRooms userId [(roomId, some cursor)] (some PER_ROOM))

/-- The loop of `catchUpRoom`, with the pages that are left. -/
def pages (userId roomId : UUID) : Nat → Nat → RoomDelta → List DeltaMessage → Prog RoomDelta
  | 0, _, last, all => return { last with messages := all }
  | n + 1, cursor, last, all => do
      match ← syncRooms userId roomId cursor with
      | [] => return { last with messages := all }
      | delta :: _ =>
          if delta.denied then return { delta with messages := all }
          else match delta.more, delta.messages.getLast? with
            | true, some tail => pages userId roomId n tail.seq delta (all ++ delta.messages)
            | _, _ => return { delta with messages := all ++ delta.messages }

def catchUpRoom (userId roomId : UUID) (lastSeq : Nat) : Prog RoomDelta :=
  pages userId roomId MAX_PAGES lastSeq
    { roomId, messages := [], watermark := lastSeq, more := false, denied := false } []

/-! `Pages/ChatroomPage.tsx` -/

/-- What is done with the delta of a catch-up. -/
def take (delta : RoomDelta) : Prog Unit :=
  if delta.denied || delta.messages.isEmpty then return else call (.merge delta)

def catchUpAfterReconnect (userId roomId : UUID) : Prog Unit := do
  let latestSeq ← call .latestSeq
  if latestSeq = 0 then return
  else tryCatch (do
    let delta ← catchUpRoom userId roomId latestSeq
    call (.reached delta.watermark)
    take delta) fun _ => return

def handleConnect (userId roomId : UUID) : Prog Unit := do
  call .drain
  catchUpAfterReconnect userId roomId

/-- What happens: the socket connects, frames arrive, and the server goes its own way, also with
what the drain has sent. -/
inductive Call
  | connect
  | newMessage (msg : Message)
  | deleted (messageId : Nat)
  | elsewhere (server : Server)

namespace Call

def program (userId roomId : UUID) : Call → Prog Unit
  | .connect => do
      handleConnect userId roomId
      call .finish
  | .newMessage msg => call (.newMessage msg)
  | .deleted messageId => call (.deleted messageId)
  | .elsewhere server => call (.elsewhere server)

end Call

def service (userId roomId : UUID) : Service Op Op.Res World Call (Except JavaError Unit) where
  program request := (request.program userId roomId).run
  exec := Exec

abbrev Event := Entry Op Op.Res World Call

abbrev History := Journal Op Op.Res World Call

end Reconnect
