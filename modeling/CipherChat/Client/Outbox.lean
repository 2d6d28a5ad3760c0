import CipherChat.Client.Answers
import CipherChat.Async.Journal
import Mathlib.Data.List.Sort

/-!
`services/OfflineQueue.ts` and `public/sw.js`: the queue of one signed-in user, the programs that
drain it, and the way of what they send to the server and back.
-/

namespace Client

open Async Rooms

/-- An item as it is kept in the object store. -/
structure Row where
  id : Nat
  queuedAt : Option Instant
  item : QueuedItem

/-- A frame that the page has sent for one message, to be acknowledged on its own. -/
inductive Frame
  | room (frame : RoomSend)
  | dm (conversationId : UUID) (req : DmRequest)

namespace Frame

def clientMessageId : Frame → Option UUID
  | .room frame => frame.clientMessageId
  | .dm _ req => req.clientMessageId

def origin (userId : UUID) : Frame → Origin
  | .room frame => ⟨userId, frame.chatroomId, .text frame.message⟩
  | .dm conversationId req => ⟨userId, conversationId, .dm req.message req.envelope⟩

end Frame

/-- The items that are left of the frame of a drain, and the results so far. -/
structure Batch where
  left : List RoomSend
  results : List WireAck

/-- `gate` is the status with which requests are answered that do not get as far as the service. -/
structure World where
  userId : UUID
  rows : List Row
  nextId : Nat
  site : Site
  expired : List Nat
  nextToken : Nat
  gate : Option Nat
  sent : List Frame
  acks : List WireAck
  batches : List Batch

inductive Op
  | matchAll
  | getAll
  | add (item : QueuedItem)
  | remove (id : Nat)
  | refresh
  | post (token : Nat) (item : QueuedItem)
  | emitSync (frames : List RoomSend)
  | syncResult
  | directMessage (item : QueuedItem) (payload : DmQueuePayload)
  | ack (clientMessageId : UUID)
  | send (frame : Frame)
  | receive (index : Nat)
  | serve (index : Nat)
  | expire (token : Nat)
  | guard (gate : Option Nat)
  | elsewhere

namespace Op

/-- A message and its acknowledgement may get lost, and a result may not arrive in time. -/
abbrev Val : Op → Type
  | matchAll => Nat
  | getAll => List Row
  | add _ => Nat
  | refresh => Nat
  | post .. => Nat
  | syncResult => Option (List WireAck)
  | directMessage .. => UUID
  | ack _ => Option WireAck
  | _ => Unit

abbrev Res (op : Op) : Type :=
  Except Unit op.Val

end Op

/-- What the run decides about an operation; a lost answer is one of an operation that was
performed. -/
structure Choice where
  fails : Bool := false
  lost : Bool := false
  index : Option Nat := none
  windows : Nat := 0
  drawn : UUID := 0
  chance : Chance := {}

namespace World

/-- `@Size(max = 100)` -/
def MAX_BATCH : Nat :=
  100

def result (s : World) (a : Choice) : Option (Option (List WireAck)) :=
  match a.index with
  | none => some none
  | some i =>
      match s.batches[i]? with
      | some ⟨[], results⟩ => some (some results)
      | _ => none

def acknowledged (s : World) (clientMessageId : UUID) (a : Choice) : Option (Option WireAck) :=
  match a.index with
  | none => some none
  | some i =>
      match s.acks[i]? with
      | some ack => if ack.clientMessageId = some clientMessageId then some (some ack) else none
      | none => none

/-- `StompController.send` and `sendDm` -/
def handle (s : World) (frame : Frame) (a : Chance) : WireAck × Site :=
  match frame with
  | .room frame =>
      if validFrame frame then s.site.attempt s.userId frame a else (.fail frame.clientMessageId, s.site)
  | .dm conversationId req =>
      if validDm req then s.site.attemptDm s.userId conversationId req a
      else (.fail req.clientMessageId, s.site)

/-- What an operation comes to, unless it fails; `none` where there is nothing to be done. -/
def react (s : World) (op : Op) (a : Choice) : Option (op.Val × World) :=
  match op with
  | .matchAll => some (a.windows, s)
  | .getAll => some (s.rows, s)
  | .add item =>
      some (s.nextId, { s with rows := s.rows ++ [⟨s.nextId, some a.chance.now, item⟩], nextId := s.nextId + 1 })
  | .remove id => some ((), { s with rows := s.rows.filter fun row => row.id ≠ id })
  | .refresh => some (s.nextToken, { s with nextToken := s.nextToken + 1 })
  | .post token item =>
      match s.gate with
      | some status => some (status, s)
      | none =>
          if token ∈ s.expired then some (401, s)
          else
            let (status, site) := s.site.post s.userId item a.chance
            some (status, { s with site })
  | .emitSync frames =>
      some ((), if frames.length ≤ MAX_BATCH then { s with batches := s.batches ++ [⟨frames, []⟩] } else s)
  | .syncResult => (s.result a).map fun results => (results, s)
  | .directMessage item payload =>
      let cid := item.clientMessageId.getD a.drawn
      some (cid, { s with sent := s.sent ++ [.dm item.targetId (payload.request (some cid))] })
  | .ack clientMessageId => (s.acknowledged clientMessageId a).map fun ack => (ack, s)
  | .send frame => some ((), { s with sent := s.sent ++ [frame] })
  | .receive index =>
      match s.sent[index]? with
      | none => none
      | some frame =>
          let (ack, site) := s.handle frame a.chance
          some ((), { s with site, acks := s.acks ++ [ack], sent := s.sent.eraseIdx index })
  | .serve index =>
      match s.batches[index]? with
      | some ⟨frame :: left, results⟩ =>
          let (ack, site) := s.site.attempt s.userId frame a.chance
          some ((), { s with site, batches := s.batches.set index ⟨left, results ++ [ack]⟩ })
      | _ => none
  | .expire token => some ((), { s with expired := token :: s.expired })
  | .guard gate => some ((), { s with gate })
  | .elsewhere => none

def perform (s : World) (op : Op) (a : Choice) : Option (op.Res × World) :=
  if a.fails then some (.error (), s)
  else (s.react op a).map fun after => (if a.lost then .error () else .ok after.1, after.2)

end World

/-- An id that is drawn for a message belongs to it. -/
def Op.Drawn (owner : UUID → Origin) (userId : UUID) (a : Choice) : Op → Prop
  | .directMessage item payload => Owns owner (some (item.clientMessageId.getD a.drawn))
      ⟨userId, item.targetId, .dm payload.message payload.envelope⟩
  | _ => True

/-- Elsewhere the server goes its own way. -/
def Exec (owner : UUID → Origin) (s : World) (op : Op) (answer : op.Res) (s' : World) : Prop :=
  (∃ a, op.Drawn owner s.userId a ∧ s.perform op a = some (answer, s')) ∨
    (op = .elsewhere ∧ ∃ site, Site.Step owner s.site site ∧ s' = { s with site })

abbrev Prog (α : Type) :=
  Throwing Unit Op Op.Res α

def call (op : Op) : Prog op.Val :=
  ExceptT.mk (Program.call op)

/-! `services/OfflineQueue.ts` -/

/-- `await remove(item.id).catch(() => {})` -/
def discard (row : Row) : Prog Unit :=
  tryCatch (call (.remove row.id)) fun _ => pure ()

/-- `if (ack.ok || ack.duplicate)`, where there is an acknowledgement -/
def confirm (row : Row) : Option WireAck → Prog Unit
  | none => pure ()
  | some ack => if ack.settles then discard row else pure ()

/-- `x.clientMessageId === item.clientMessageId`: the server sends `null` where there is none, the
item has `undefined`. -/
def sameId (ack : WireAck) (item : QueuedItem) : Bool :=
  ack.clientMessageId.isSome && ack.clientMessageId = item.clientMessageId

def onResult (results : List WireAck) : List (Row × ChatroomQueuePayload) → Prog Unit
  | [] => pure ()
  | (row, _) :: rest => do
      confirm row (results.find? fun ack => sameId ack row.item)
      onResult results rest

def chatroomRow (row : Row) : Option (Row × ChatroomQueuePayload) :=
  match row.item.payload with
  | .chatroom payload => some (row, payload)
  | .dm _ => none

def dmRow (row : Row) : Option (Row × DmQueuePayload) :=
  match row.item.payload with
  | .dm payload => some (row, payload)
  | .chatroom _ => none

def drain : Prog Unit := do
  let items := (← call .getAll).filterMap chatroomRow
  if items.isEmpty then return
  call (.emitSync (items.map fun (row, payload) =>
    drainFrame row.item.clientMessageId row.item.targetId payload))
  match ← call .syncResult with
  | none => return
  | some results => onResult results items

def replay : List (Row × DmQueuePayload) → Prog Unit
  | [] => pure ()
  | (row, payload) :: rest => do
      let clientMessageId ← call (.directMessage row.item payload)
      let ack ← call (.ack clientMessageId)
      confirm row ack
      replay rest

def drainDms : Prog Unit := do
  let items := (← call .getAll).filterMap dmRow
  replay items

/-! `public/sw.js` -/

/-- `(a.queuedAt || 0) - (b.queuedAt || 0)` -/
def oldest (rows : List Row) : List Row :=
  rows.insertionSort fun a b => a.queuedAt.getD 0 ≤ b.queuedAt.getD 0

/-- What the status of the answer means for the row. -/
def settleRow (row : Row) (status : Nat) : Prog Unit :=
  if Site.removes status then call (.remove row.id) else throw ()

def flushItems (token : Nat) : List Row → Prog Unit
  | [] => pure ()
  | row :: rest => do
      let status ← call (.post token row.item)
      settleRow row status
      flushItems token rest

def flushOutbox : Prog Unit := do
  let windows ← call .matchAll
  if 0 < windows then return
  let items := oldest (← call .getAll)
  if items.isEmpty then return
  let token ← call .refresh
  flushItems token items

/-- What goes on: the programs of the page and of the service worker, the page's sends, the server
at its work, and what befalls them. -/
inductive Call
  | enqueue (item : QueuedItem)
  | drain
  | drainDms
  | flushOutbox
  | send (frame : Frame)
  | receive (index : Nat)
  | serve (index : Nat)
  | expire (token : Nat)
  | guard (gate : Option Nat)
  | elsewhere

namespace Call

def program : Call → Prog Unit
  | .enqueue item => do let _ ← call (.add item)
  | .drain => Client.drain
  | .drainDms => Client.drainDms
  | .flushOutbox => Client.flushOutbox
  | .send frame => call (.send frame)
  | .receive index => call (.receive index)
  | .serve index => call (.serve index)
  | .expire token => call (.expire token)
  | .guard gate => call (.guard gate)
  | .elsewhere => call .elsewhere

end Call

def service (owner : UUID → Origin) : Service Op Op.Res World Call (Except Unit Unit) where
  program request := request.program.run
  exec _ := Exec owner

abbrev Event := Entry Op Op.Res World Call

abbrev History := Journal Op Op.Res World Call

end Client
