import CipherChat.Client.Batch
import CipherChat.Client.Drains

/-!
The outbox, drained again and again: what one `drain` does to the rows, and which outboxes are
empty in the end.
-/

namespace Client

open Async Rooms

/-- The object store with the keys it gives out, the answers to the batches of this page, the last
one first, and the acknowledgements that it has read. -/
structure Outbox where
  rows : List Row
  distinct : (rows.map Row.id).Nodup
  answers : List (List WireAck)
  heard : List WireAck

/-- One `drain`: the server it meets, what befalls the messages there, and which of the answers
there are arrives within ten seconds. -/
structure Round where
  site : Site
  chances : Nat → Chance
  answer : Option Nat

/-- `StompController.sync` -/
def sync (userId : UUID) (chances : Nat → Chance) (k : Nat) (s : Site) : List RoomSend → List WireAck
  | [] => []
  | frame :: rest =>
      (s.attempt userId frame (chances k)).1 ::
        sync userId chances (k + 1) (s.attempt userId frame (chances k)).2 rest

def frameOf (item : Row × ChatroomQueuePayload) : RoomSend :=
  drainFrame item.1.item.clientMessageId item.1.item.targetId item.2

namespace Outbox

def items (s : Outbox) : List (Row × ChatroomQueuePayload) :=
  s.rows.filterMap chatroomRow

def frames (s : Outbox) : List RoomSend :=
  s.items.map frameOf

def filter (s : Outbox) (p : Row → Bool) : Outbox where
  rows := s.rows.filter p
  distinct := s.distinct.sublist (List.filter_sublist.map _)
  answers := s.answers
  heard := s.heard

end Outbox

section

variable (t : Transport) (userId : UUID) (round : Round)

/-- A frame that is not accepted is not answered. -/
def Outbox.send (s : Outbox) (frames : List RoomSend) : Outbox :=
  if t.accepts frames then
    { s with answers := sync userId round.chances 0 round.site frames :: s.answers }
  else s

def Outbox.result (s : Outbox) : Option (List WireAck) :=
  round.answer.bind fun k => s.answers[k]?

def Outbox.hear (s : Outbox) (results : Option (List WireAck)) : Outbox :=
  { s with heard := results.getD [] ++ s.heard }

/-- The operations of `drain`. -/
def react (s : Outbox) : (op : Op) → Option (op.Val × Outbox)
  | .getAll => some (s.rows, s)
  | .emitSync frames => some ((), s.send t userId round frames)
  | .syncResult => some (s.result round, s.hear (s.result round))
  | .remove id => some ((), s.filter fun row => row.id ≠ id)
  | _ => none

def Live (s : Outbox) (op : Op) (answer : op.Res) (s' : Outbox) : Prop :=
  ∃ value, react t userId round s op = some (value, s') ∧ answer = .ok value

end

/-! One drain. -/

def settled (results : List WireAck) (row : Row) : Bool :=
  (results.find? fun ack => sameId ack row.item).any WireAck.settles

/-- The rows that `onResult` removes. -/
def removed (results : List WireAck) (items : List (Row × ChatroomQueuePayload)) : List Nat :=
  (items.filter fun item => settled results item.1).map fun item => item.1.id

/-- What a drain leaves of the outbox. -/
def Outbox.drained (t : Transport) (userId : UUID) (round : Round) (s : Outbox) : Outbox :=
  if s.items.isEmpty then s
  else
    let sent := s.send t userId round s.frames
    match sent.result round with
    | none => sent.hear none
    | some results => (sent.hear (some results)).filter fun row => row.id ∉ removed results s.items

section

variable {t : Transport} {userId : UUID} {round : Round} {s s' : Outbox}

theorem ends_call {op : Op} {result : Except Unit op.Val} :
    Ends (Live t userId round) s (call op) result s' ↔
      ∃ value, react t userId round s op = some (value, s') ∧ result = .ok value :=
  runs_call

theorem ends_bind_call {β : Type} {op : Op} {s₁ : Outbox} {value : op.Val}
    (performed : react t userId round s op = some (value, s₁)) {f : op.Val → Prog β}
    {result : Except Unit β} :
    Ends (Live t userId round) s (call op >>= f) result s' ↔
      Ends (Live t userId round) s₁ (f value) result s' := by
  rw [ends_bind]
  constructor
  · rintro (⟨value', s₂, ended, rest⟩ | ⟨e, ended, _⟩)
    · obtain ⟨_, performed', isOk⟩ := ends_call.mp ended
      cases isOk
      cases performed.symm.trans performed'
      exact rest
    · obtain ⟨_, _, failed⟩ := ends_call.mp ended
      cases failed
  · intro rest
    exact .inl ⟨value, s₁, ends_call.mpr ⟨value, performed, rfl⟩, rest⟩

theorem filter_filter (p q : Row → Bool) :
    (s.filter p).filter q = s.filter fun row => p row && q row := by
  simp only [Outbox.filter, List.filter_filter, Outbox.mk.injEq, and_true]
  exact List.filter_congr fun row _ => Bool.and_comm _ _

theorem filter_true : s.filter (fun _ => true) = s := by
  simp [Outbox.filter]

theorem ends_discard {row : Row} {result : Except Unit Unit} :
    Ends (Live t userId round) s (discard row) result s' ↔
      result = .ok () ∧ s' = s.filter fun other => other.id ≠ row.id := by
  rw [discard, ends_tryCatch]
  constructor
  · rintro (⟨value, ended, rfl⟩ | ⟨e, s₁, ended, _⟩)
    · obtain ⟨_, performed, _⟩ := ends_call.mp ended
      simp only [react, Option.some.injEq, Prod.mk.injEq] at performed
      exact ⟨rfl, performed.2.symm⟩
    · obtain ⟨_, _, failed⟩ := ends_call.mp ended
      cases failed
  · rintro ⟨rfl, rfl⟩
    exact .inl ⟨(), ends_call.mpr ⟨(), rfl, rfl⟩, rfl⟩

theorem ends_confirm {results : List WireAck} {row : Row} {result : Except Unit Unit} :
    Ends (Live t userId round) s
        (confirm row (results.find? fun ack => sameId ack row.item)) result s' ↔
      result = .ok () ∧
        s' = s.filter fun other => !(settled results row && other.id = row.id) := by
  unfold settled
  cases results.find? fun ack => sameId ack row.item with
  | none =>
      simp only [confirm, ends_pure, Option.any_none, Bool.false_and, Bool.not_false, filter_true]
  | some ack =>
      simp only [confirm, Option.any_some]
      split
      next settles =>
        rw [ends_discard]
        simp only [settles, Bool.true_and, decide_not]
      next not =>
        simp only [not, Bool.false_and, Bool.not_false, filter_true, ends_pure]

theorem removed_cons (results : List WireAck) (row : Row) (payload : ChatroomQueuePayload)
    (rest : List (Row × ChatroomQueuePayload)) :
    removed results ((row, payload) :: rest) =
      if settled results row then row.id :: removed results rest else removed results rest := by
  unfold removed
  by_cases settles : settled results row <;> simp [settles]

theorem ends_onResult {results : List WireAck} {items : List (Row × ChatroomQueuePayload)}
    {result : Except Unit Unit} :
    Ends (Live t userId round) s (onResult results items) result s' ↔
      result = .ok () ∧ s' = s.filter fun row => row.id ∉ removed results items := by
  induction items generalizing s with
  | nil => simp [onResult, ends_pure, removed, filter_true]
  | cons item rest ih =>
      obtain ⟨row, payload⟩ := item
      have split : (fun other : Row => decide (other.id ∉ removed results ((row, payload) :: rest))) =
          fun other => !(settled results row && other.id = row.id) &&
            decide (other.id ∉ removed results rest) := by
        funext other
        rw [removed_cons, Bool.eq_iff_iff]
        by_cases settles : settled results row <;> simp [settles]
      rw [onResult, ends_bind, split, ← filter_filter]
      simp only [ends_confirm, ih]
      constructor
      · rintro (⟨_, _, ⟨_, rfl⟩, ended⟩ | ⟨_, ⟨failed, _⟩, _⟩)
        · exact ended
        · cases failed
      · intro ended
        exact .inl ⟨(), _, ⟨trivial, rfl⟩, ended⟩

/-- A drain comes to an end, and this is what it does. -/
theorem ends_drain {result : Except Unit Unit} :
    Ends (Live t userId round) s drain result s' ↔
      result = .ok () ∧ s' = s.drained t userId round := by
  rw [drain, ends_bind_call (rfl : react t userId round s .getAll = some (s.rows, s)),
    Outbox.drained]
  change Ends _ s (if s.items.isEmpty then _ else _) _ _ ↔ _
  split
  · exact ends_pure
  let sent := s.send t userId round s.frames
  refine (ends_bind_call (rfl : react t userId round s (.emitSync s.frames) = some ((), sent))).trans ?_
  refine (ends_bind_call (rfl : react t userId round sent .syncResult =
    some (sent.result round, sent.hear (sent.result round)))).trans ?_
  change Ends _ _ (match sent.result round with | none => _ | some results => _) _ _ ↔
    _ ∧ _ = match sent.result round with | none => _ | some results => _
  cases sent.result round with
  | none => exact ends_pure
  | some results => exact ends_onResult

end

/-! What a drain does to the items. -/

/-- The page has read that the server has the item. -/
def Outbox.Acknowledged (s : Outbox) (row : Row) : Prop :=
  ∃ ack ∈ s.heard, sameId ack row.item ∧ ack.settles

/-- The server would accept the frame on its own. -/
def Site.Takes (s : Site) (userId : UUID) (frame : RoomSend) : Prop :=
  ∀ a : Chance, a.allowed → a.mishap = none → (s.attempt userId frame a).1.settles

/-- The answer arrives, and nothing goes wrong with the first message. -/
structure Round.Good (round : Round) : Prop where
  arrives : round.answer = some 0
  allowed : (round.chances 0).allowed
  mishap : (round.chances 0).mishap = none

section

variable {t : Transport} {userId : UUID} {round : Round} {s : Outbox}
  {item : Row × ChatroomQueuePayload}

theorem mem_items : item ∈ s.items ↔ item.1 ∈ s.rows ∧ chatroomRow item.1 = some item := by
  unfold Outbox.items
  rw [List.mem_filterMap]
  constructor
  · rintro ⟨row, member, isItem⟩
    rw [(chatroomRow_eq isItem).1]
    exact ⟨member, isItem⟩
  · rintro ⟨member, isItem⟩
    exact ⟨item.1, member, isItem⟩

/-- What the page reads in a drain. -/
def Outbox.got (t : Transport) (userId : UUID) (round : Round) (s : Outbox) : List WireAck :=
  if s.items.isEmpty then [] else ((s.send t userId round s.frames).result round).getD []

theorem send_rows (t : Transport) (userId : UUID) (round : Round) (s : Outbox)
    (frames : List RoomSend) :
    (s.send t userId round frames).rows = s.rows ∧ (s.send t userId round frames).heard = s.heard := by
  unfold Outbox.send
  split <;> exact ⟨rfl, rfl⟩

theorem removed_nil (items : List (Row × ChatroomQueuePayload)) : removed [] items = [] := by
  simp [removed, settled]

theorem drained_rows : (s.drained t userId round).rows =
    s.rows.filter fun row => row.id ∉ removed (s.got t userId round) s.items := by
  have same := (send_rows t userId round s s.frames).1
  unfold Outbox.drained Outbox.got
  split
  · simp [removed_nil]
  dsimp only
  cases (s.send t userId round s.frames).result round with
  | none => simpa [removed_nil, Outbox.hear] using same
  | some results =>
      dsimp only [Outbox.filter, Outbox.hear, Option.getD_some]
      rw [same]

theorem drained_heard : (s.drained t userId round).heard = s.got t userId round ++ s.heard := by
  have same := (send_rows t userId round s s.frames).2
  unfold Outbox.drained Outbox.got
  split
  · rfl
  dsimp only
  cases (s.send t userId round s.frames).result round with
  | none => simpa [Outbox.hear] using same
  | some results =>
      dsimp only [Outbox.filter, Outbox.hear, Option.getD_some]
      rw [same]

theorem drained_items : (s.drained t userId round).items.Sublist s.items := by
  unfold Outbox.items
  rw [drained_rows]
  exact (List.filter_sublist).filterMap chatroomRow

/-- A row is removed for its own id. -/
theorem mem_removed {results : List WireAck} (member : item ∈ s.items) :
    item.1.id ∈ removed results s.items ↔ settled results item.1 := by
  unfold removed
  rw [List.mem_map]
  constructor
  · rintro ⟨other, among, same⟩
    obtain ⟨inItems, settles⟩ := List.mem_filter.mp among
    have isRow : other.1 = item.1 :=
      List.inj_on_of_nodup_map s.distinct (mem_items.mp inItems).1 (mem_items.mp member).1 same
    rw [← isRow]
    exact settles
  · intro settles
    exact ⟨item, List.mem_filter.mpr ⟨member, settles⟩, rfl⟩

theorem drained_item (member : item ∈ s.items) :
    item ∈ (s.drained t userId round).items ↔ settled (s.got t userId round) item.1 = false := by
  rw [mem_items, drained_rows, List.mem_filter, decide_eq_true_eq, mem_removed member]
  simp [mem_items.mp member]

theorem settled_iff {results : List WireAck} {row : Row} (settles : settled results row) :
    ∃ ack ∈ results, sameId ack row.item ∧ ack.settles := by
  unfold settled at settles
  rw [Option.any_eq_true] at settles
  obtain ⟨ack, found, settles⟩ := settles
  have same := List.find?_some found
  exact ⟨ack, List.mem_of_find?_eq_some found, same, settles⟩

/-- An item leaves the outbox when it is acknowledged. -/
theorem drained_acknowledges (member : item ∈ s.items) :
    item ∈ (s.drained t userId round).items ∨
      (s.drained t userId round).Acknowledged item.1 := by
  rw [drained_item member]
  cases isSettled : settled (s.got t userId round) item.1 with
  | false => exact .inl rfl
  | true =>
      obtain ⟨ack, got, answers⟩ := settled_iff isSettled
      refine .inr ⟨ack, ?_, answers⟩
      rw [drained_heard]
      exact List.mem_append_left _ got

theorem Outbox.Acknowledged.drained {row : Row} (acknowledged : s.Acknowledged row) :
    (s.drained t userId round).Acknowledged row := by
  obtain ⟨ack, heard, answers⟩ := acknowledged
  refine ⟨ack, ?_, answers⟩
  rw [drained_heard]
  exact List.mem_append_right _ heard

/-- `null` is not `undefined`: an item without a client id stays. -/
theorem drained_unnamed (member : item ∈ s.items) (unnamed : item.1.item.clientMessageId = none) :
    item ∈ (s.drained t userId round).items := by
  rw [drained_item member, Bool.eq_false_iff]
  intro isSettled
  obtain ⟨ack, _, same, _⟩ := settled_iff isSettled
  simp only [sameId, unnamed, Bool.and_eq_true, decide_eq_true_eq] at same
  rw [same.2] at same
  simp at same

/-- Of a batch that is refused nothing goes. -/
theorem drained_refused (refused : t.accepts s.frames = false) (silent : s.answers = []) :
    s.drained t userId round = s := by
  unfold Outbox.drained
  split
  · rfl
  have unsent : s.send t userId round s.frames = s := by
    simp [Outbox.send, refused]
  have unheard : s.result round = none := by
    simp [Outbox.result, silent]
  simp only [unsent, unheard]
  rfl

theorem attempt_names (site : Site) (frame : RoomSend) (a : Chance) :
    (site.attempt userId frame a).1.clientMessageId = frame.clientMessageId := by
  unfold Site.attempt
  split <;> rfl

/-- A text that fits is taken from a user whom the room lets in. -/
theorem Site.takes {site : Site} {clientMessageId : Option UUID} {roomId : UUID}
    {payload : ChatroomQueuePayload} {room : Chatroom} (isRoom : site.chatrooms.lookup roomId = some room)
    (inside : room.privateRoom → (roomId, userId) ∈ site.members) (user : userId ∈ site.users)
    (fitting : fitsColumn 2000 (trim payload.message)) :
    site.Takes userId (drainFrame clientMessageId roomId payload) := by
  intro a allowed mishap
  let frame := drainFrame clientMessageId roomId payload
  suffices ok : ∃ result s', site.send userId roomId frame.request a = (.ok result, s') by
    obtain ⟨result, s', sent⟩ := ok
    simp only [Site.attempt, frame, drainFrame] at sent ⊢
    rw [sent]
    rfl
  have fine : fits a.known (stored userId roomId a.now a.seq frame.request) = true := by
    simp only [fits, stored_body, stored_replyToId, Bool.and_eq_true]
    exact ⟨⟨⟨fitting, rfl⟩, rfl⟩, rfl⟩
  unfold Site.send
  simp only [mishap, Site.name, isRoom, allowed]
  split
  next outside =>
    rw [Bool.and_eq_true] at outside
    exact absurd (inside outside.1) (of_decide_eq_true outside.2)
  cases Site.seen _ roomId frame.request.clientMessageId with
  | some m => exact ⟨_, _, rfl⟩
  | none => simp [fine, user]

/-- The first of the items goes in a good round. -/
theorem drained_good (accepted : t.accepts s.frames) (good : round.Good)
    {rest : List (Row × ChatroomQueuePayload)} (isItems : s.items = item :: rest)
    (named : item.1.item.clientMessageId ≠ none)
    (takes : round.site.Takes userId (frameOf item)) :
    item ∉ (s.drained t userId round).items := by
  have member : item ∈ s.items := isItems ▸ List.mem_cons_self
  rw [drained_item member]
  let first := round.site.attempt userId (frameOf item) (round.chances 0)
  have got : s.got t userId round =
      first.1 :: sync userId round.chances 1 first.2 (rest.map frameOf) := by
    unfold Outbox.got Outbox.send Outbox.result
    rw [isItems, accepted, good.arrives]
    have isFrames : s.frames = frameOf item :: rest.map frameOf := by
      rw [Outbox.frames, isItems, List.map_cons]
    rw [isFrames]
    rfl
  have same : sameId first.1 item.1.item := by
    have isId : first.1.clientMessageId = item.1.item.clientMessageId := attempt_names ..
    rw [sameId, isId, Option.isSome_iff_ne_none.mpr named]
    simp
  have settles : first.1.settles := takes _ good.allowed good.mishap
  simp [got, settled, same, settles]

end

/-! Drain after drain. -/

/-- A page that drains its outbox again and again. -/
structure Run (t : Transport) (userId : UUID) where
  box : Nat → Outbox
  round : Nat → Round
  fresh : (box 0).answers = [] ∧ (box 0).heard = []
  drains : ∀ i, Ends (Live t userId (round i)) (box i) drain (.ok ()) (box (i + 1))

/-- The items can be sent as one batch, and told from one another in the answer. -/
def Outbox.Sendable (t : Transport) (s : Outbox) : Prop :=
  s.items = [] ∨ (t.accepts s.frames ∧ ∀ item ∈ s.items, item.1.item.clientMessageId ≠ none)

namespace Run

section

variable {t : Transport} {userId : UUID} (run : Run t userId)

/-- Whenever it is asked, the server would accept every item on its own. -/
def Welcome : Prop :=
  ∀ i, ∀ item ∈ (run.box 0).items, (run.round i).site.Takes userId (frameOf item)

/-- The socket is alive: there is always a good round to come. -/
def Fair : Prop :=
  ∀ i, ∃ j, i ≤ j ∧ (run.round j).Good

/-- No batch is refused, and from some round on all items are acknowledged and gone. -/
def Drains : Prop :=
  (∀ i, (run.box i).items ≠ [] → t.accepts (run.box i).frames) ∧
    ∃ n, ∀ m, n ≤ m → (run.box m).items = [] ∧
      ∀ item ∈ (run.box 0).items, (run.box m).Acknowledged item.1

variable {run}

theorem box_succ (i : Nat) : run.box (i + 1) = (run.box i).drained t userId (run.round i) :=
  (ends_drain.mp (run.drains i)).2

theorem items_sublist {i j : Nat} (le : i ≤ j) : (run.box j).items.Sublist (run.box i).items := by
  induction le with
  | refl => exact .refl _
  | step _ ih =>
      rw [box_succ]
      exact drained_items.trans ih

theorem frames_sublist (i : Nat) : (run.box i).frames.Sublist (run.box 0).frames :=
  (items_sublist (Nat.zero_le i)).map frameOf

theorem acknowledged_or_there {item : Row × ChatroomQueuePayload} (member : item ∈ (run.box 0).items)
    (i : Nat) : item ∈ (run.box i).items ∨ (run.box i).Acknowledged item.1 := by
  induction i with
  | zero => exact .inl member
  | succ i ih =>
      rw [box_succ]
      cases ih with
      | inl there => exact drained_acknowledges there
      | inr acknowledged => exact .inr acknowledged.drained

theorem unnamed_stays {item : Row × ChatroomQueuePayload} (member : item ∈ (run.box 0).items)
    (unnamed : item.1.item.clientMessageId = none) (i : Nat) : item ∈ (run.box i).items := by
  induction i with
  | zero => exact member
  | succ i ih =>
      rw [box_succ]
      exact drained_unnamed ih unnamed

theorem refused_stays (refused : t.accepts (run.box 0).frames = false) (i : Nat) :
    run.box i = run.box 0 := by
  induction i with
  | zero => rfl
  | succ i ih =>
      rw [box_succ, ih]
      exact drained_refused refused run.fresh.1

/-- A good round makes the outbox shorter. -/
theorem shortens {j : Nat} (welcome : run.Welcome) (accepted : t.accepts (run.box 0).frames)
    (named : ∀ item ∈ (run.box 0).items, item.1.item.clientMessageId ≠ none)
    (good : (run.round j).Good) (some : (run.box j).items ≠ []) :
    (run.box (j + 1)).items.length < (run.box j).items.length := by
  obtain ⟨item, rest, isItems⟩ := List.exists_cons_of_ne_nil some
  have inBox : item ∈ (run.box j).items := isItems ▸ List.mem_cons_self
  have member := (items_sublist (Nat.zero_le j)).subset inBox
  have gone := drained_good (t.accepts_sublist accepted (frames_sublist j)) good isItems
    (named item member) (welcome j item member)
  rw [← box_succ] at gone
  have sub : (run.box (j + 1)).items.Sublist (run.box j).items := items_sublist (Nat.le_succ j)
  refine Nat.lt_of_le_of_ne sub.length_le fun same => gone ?_
  rw [sub.eq_of_length same]
  exact inBox

theorem empties (welcome : run.Welcome) (fair : run.Fair) (accepted : t.accepts (run.box 0).frames)
    (named : ∀ item ∈ (run.box 0).items, item.1.item.clientMessageId ≠ none) (count i : Nat)
    (fewer : (run.box i).items.length ≤ count) : ∃ n, (run.box n).items = [] := by
  induction count generalizing i with
  | zero => exact ⟨i, List.length_eq_zero_iff.mp (by omega)⟩
  | succ count ih =>
      obtain ⟨j, later, good⟩ := fair i
      by_cases empty : (run.box j).items = []
      · exact ⟨j, empty⟩
      have shorter := shortens welcome accepted named good empty
      have before : (run.box j).items.length ≤ (run.box i).items.length :=
        (items_sublist later).length_le
      exact ih (j + 1) (by omega)

theorem not_drains_of_refused (refused : t.accepts (run.box 0).frames = false)
    (some : (run.box 0).items ≠ []) : ¬run.Drains := by
  intro drains
  have accepted := drains.1 0 some
  rw [refused] at accepted
  cases accepted

end

section

variable (t : Transport) (userId : UUID) (s : Outbox) (rounds : Nat → Round)

def after : Nat → Outbox
  | 0 => s
  | i + 1 => (after i).drained t userId (rounds i)

/-- The page that opens with an outbox and drains it in these rounds. -/
def opened (fresh : s.answers = [] ∧ s.heard = []) : Run t userId where
  box := after t userId s rounds
  round := rounds
  fresh := fresh
  drains _ := ends_drain.mpr ⟨rfl, rfl⟩

end

/-- The outbox is emptied exactly when the server accepts all of it as one batch and every item
has a client id. -/
theorem drains_iff (t : Transport) (userId : UUID) (run : Run t userId) (welcome : run.Welcome)
    (fair : run.Fair) : run.Drains ↔ (run.box 0).Sendable t := by
  constructor
  · intro drains
    by_cases empty : (run.box 0).items = []
    · exact .inl empty
    refine .inr ⟨drains.1 0 empty, fun item member unnamed => ?_⟩
    obtain ⟨n, gone⟩ := drains.2
    have stays := unnamed_stays member unnamed n
    rw [(gone n le_rfl).1] at stays
    cases stays
  · intro sendable
    have ends : ∃ n, (run.box n).items = [] := by
      cases sendable with
      | inl empty => exact ⟨0, empty⟩
      | inr sendable => exact empties welcome fair sendable.1 sendable.2 _ 0 le_rfl
    refine ⟨fun i some => ?_, ?_⟩
    · cases sendable with
      | inl empty => exact absurd (List.eq_nil_of_sublist_nil (empty ▸ items_sublist (Nat.zero_le i))) some
      | inr sendable => exact t.accepts_sublist sendable.1 (frames_sublist i)
    · obtain ⟨n, empty⟩ := ends
      refine ⟨n, fun m later => ?_⟩
      have none : (run.box m).items = [] :=
        List.eq_nil_of_sublist_nil (empty ▸ items_sublist later)
      refine ⟨none, fun item member => ?_⟩
      have either := acknowledged_or_there member m
      rw [none] at either
      simpa using either

/-! One hundred and one messages, and one. -/

/-- Messages that were written without a connection. -/
def backlog (count : Nat) : Outbox where
  rows := (List.range count).map fun k =>
    ⟨k + 1, none, ⟨some (BitVec.ofNat 128 k), 1, .chatroom ⟨Utf.ofString "hi", none, none⟩⟩⟩
  distinct := by
    rw [List.map_map]
    exact List.nodup_range.map fun k k' same => Nat.succ.inj same
  answers := []
  heard := []

/-- A server with a room and a user. -/
def lobby : Site where
  users := [1]
  chatrooms := [(1, ⟨false⟩)]
  members := []
  messages := []
  conversations := []
  dms := []
  named := []

def plain : Transport where
  around _ := 100
  grows := monotone_const
  buffer := 65536

def written (count : Nat) : Run plain 1 :=
  opened plain 1 (backlog count) (fun _ => ⟨lobby, fun _ => {}, some 0⟩) ⟨rfl, rfl⟩

theorem backlog_items (count : Nat) : (backlog count).items = (List.range count).map fun k =>
    (⟨k + 1, none, ⟨some (BitVec.ofNat 128 k), 1, .chatroom ⟨Utf.ofString "hi", none, none⟩⟩⟩,
      ⟨Utf.ofString "hi", none, none⟩) := by
  rw [Outbox.items, backlog, List.filterMap_map]
  exact congrFun List.filterMap_eq_map' _

theorem welcome_written (count : Nat) : (written count).Welcome := by
  intro i item member
  obtain ⟨k, _, rfl⟩ := List.mem_map.mp (backlog_items count ▸ member)
  have fitting : fitsColumn 2000 (trim (Utf.ofString "hi")) := by decide
  have isRoom : lobby.chatrooms.lookup 1 = some ⟨false⟩ := rfl
  exact Site.takes isRoom nofun List.mem_cons_self fitting

theorem fair_written (count : Nat) : (written count).Fair :=
  fun i => ⟨i, le_rfl, rfl, rfl, rfl⟩

theorem drains_iff_one : (written 1).Drains := by
  refine (drains_iff plain 1 (written 1) (welcome_written 1) (fair_written 1)).mpr (.inr ⟨?_, ?_⟩)
  · decide +kernel
  · decide

/-- One hundred and one messages are refused as one batch, in every round. -/
theorem not_drains : (written 101).Welcome ∧ (written 101).Fair ∧ ¬(written 101).Drains ∧
    ∀ i, ((written 101).box i).items.length = 101 := by
  have count : ((written 101).box 0).items.length = 101 := by
    change (backlog 101).items.length = 101
    rw [backlog_items, List.length_map, List.length_range]
  have refused : plain.accepts ((written 101).box 0).frames = false := by
    have many : ((written 101).box 0).frames.length = 101 := by
      rw [Outbox.frames, List.length_map, count]
    rw [Transport.accepts, many]
    exact Bool.and_false _
  refine ⟨welcome_written 101, fair_written 101, not_drains_of_refused refused ?_, fun i => ?_⟩
  · intro empty
    rw [empty] at count
    cases count
  · rw [refused_stays refused, count]

end Run

end Client
