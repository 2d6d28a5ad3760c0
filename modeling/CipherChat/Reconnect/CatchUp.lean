import CipherChat.Reconnect.Reads

/-!
A reconnection misses no message, where its cursor has not run ahead of what the room holds.
-/

namespace Reconnect

open Async Rooms

/-- What a catch-up that reached a watermark has read, and done with it. -/
inductive Caught (roomId : UUID) (log : Log Op Op.Res) (watermark : Nat) : Prop
  | denied : watermark = 0 → Caught roomId log watermark
  | exhausted : Exhausted roomId log → Caught roomId log watermark
  | nothing (cursor) : (⟨.latestSeq, .ok cursor⟩ : Done) ∈ log → Pages roomId log 0 cursor watermark [] →
      Caught roomId log watermark
  | merged (cursor ms delta result later earlier) :
      log = later ++ (⟨.merge delta, result⟩ : Done) :: earlier → (⟨.latestSeq, .ok cursor⟩ : Done) ∈ earlier →
      Pages roomId earlier 0 cursor watermark ms → delta.messages.map DeltaMessage.id = ms.map Message.id →
      Caught roomId log watermark

/-- What a delta that is merged has been read by. -/
def Merges (roomId : UUID) (log : Log Op Op.Res) (delta : RoomDelta) : Prop :=
  Exhausted roomId log ∨ ∃ cursor ms, (⟨.latestSeq, .ok cursor⟩ : Done) ∈ log ∧
    Pages roomId log 0 cursor delta.watermark ms ∧ delta.messages.map DeltaMessage.id = ms.map Message.id

def law (roomId : UUID) (_ : Call) (log : Log Op Op.Res) (op : Op) : Prop :=
  (∀ delta, op = .merge delta → Merges roomId log delta) ∧
    (op = .finish → ∀ watermark, (⟨.reached watermark, .ok ()⟩ : Done) ∈ log → Caught roomId log watermark)

section Program

variable {userId roomId : UUID} {permits : History → Event → Prop} {request : Call}

/-- One operation that neither merges nor is the end. -/
theorem follows_step {op : Op} {pre : Log Op Op.Res → Prop} {post : op.Res → Log Op Op.Res → Prop}
    (quiet : op ≠ .finish) (idle : ∀ delta, op ≠ .merge delta)
    (after : ∀ log, pre log → ∀ result, post result (⟨op, result⟩ :: log)) :
    Follows (service userId roomId) permits (law roomId) request pre (call op) post := by
  intro t j start
  refine safe_op (fun log known => ⟨⟨fun delta isMerge => absurd isMerge (idle delta),
    fun isEnd => absurd isEnd quiet⟩, ?_⟩) start
  exact fun _ result _ _ => after log known result

/-- Nothing has been reached so far. -/
def Fresh (log : Log Op Op.Res) : Prop :=
  ∀ watermark, (⟨.reached watermark, .ok ()⟩ : Done) ∉ log

/-- What a catch-up knows at its end. -/
def Ended (roomId : UUID) (log : Log Op Op.Res) : Prop :=
  ∀ watermark, (⟨.reached watermark, .ok ()⟩ : Done) ∈ log → Caught roomId log watermark

theorem Fresh.ended {log : Log Op Op.Res} (fresh : Fresh log) : Ended roomId log :=
  fun watermark member => absurd member (fresh watermark)

theorem Fresh.cons {log : Log Op Op.Res} {x : Done} (fresh : Fresh log)
    (silent : ∀ watermark, x.1 ≠ .reached watermark) : Fresh (x :: log) := by
  intro watermark member
  rcases List.mem_cons.mp member with rfl | old
  · exact silent watermark rfl
  · exact fresh watermark old

/-- What is known between the read of the cursor and the end of the pages. -/
def Started (cursor : Nat) (log : Log Op Op.Res) : Prop :=
  Fresh log ∧ (⟨.latestSeq, .ok cursor⟩ : Done) ∈ log

theorem catchUpRoom_follows (cursor : Nat) :
    Follows (service userId roomId) permits (law roomId) request
      (fun log => Started cursor log ∧ reads log = 0) (catchUpRoom userId roomId cursor)
      fun result log => Started cursor log ∧ ∀ delta, result = .ok delta →
        (delta.denied ∧ delta.watermark = 0) ∨ Exhausted roomId log ∨ Brings roomId log 0 cursor [] delta := by
  refine (follows_ends (fun op isServer log started => ?_) (pages_uses userId _ _ _)).weaken
    (fun _ => id) fun result log holds => ⟨holds.1, ?_⟩
  · obtain ⟨request, rfl⟩ := isServer
    exact ⟨⟨nofun, nofun⟩, fun result => ⟨started.1.cons fun _ => nofun,
      List.mem_cons_of_mem _ started.2⟩⟩
  · rintro delta rfl
    obtain ⟨log₀, none, ends⟩ := holds.2
    have count : reads log₀ + 19 + 1 = MAX_PAGES := by rw [none]; rfl
    have brings := pages_brings count ends
    rw [none] at brings
    exact brings

/-- A watermark has been reached, and nothing been done about it. -/
def Reached (roomId : UUID) (cursor : Nat) (delta : RoomDelta) (log : Log Op Op.Res) : Prop :=
  ∃ result earlier, log = (⟨.reached delta.watermark, result⟩ : Done) :: earlier ∧ Started cursor earlier ∧
    ((delta.denied ∧ delta.watermark = 0) ∨ Exhausted roomId earlier ∨ Brings roomId earlier 0 cursor [] delta)

theorem Reached.watermark {cursor watermark : Nat} {delta : RoomDelta} {log : Log Op Op.Res}
    (reached : Reached roomId cursor delta log) (member : (⟨.reached watermark, .ok ()⟩ : Done) ∈ log) :
    watermark = delta.watermark := by
  obtain ⟨result, earlier, rfl, started, _⟩ := reached
  rcases List.mem_cons.mp member with here | old
  · exact Op.reached.inj (congrArg Sigma.fst here)
  · exact absurd old (started.1 watermark)

theorem Reached.read {cursor : Nat} {delta : RoomDelta} {log : Log Op Op.Res}
    (reached : Reached roomId cursor delta log) : (⟨.latestSeq, .ok cursor⟩ : Done) ∈ log := by
  obtain ⟨result, earlier, rfl, started, _⟩ := reached
  exact List.mem_cons_of_mem _ started.2

theorem Reached.outcome {cursor : Nat} {delta : RoomDelta} {log : Log Op Op.Res}
    (reached : Reached roomId cursor delta log) : (delta.denied ∧ delta.watermark = 0) ∨
      Exhausted roomId log ∨ delta.denied = false ∧ ∃ ms, Pages roomId log 0 cursor delta.watermark ms ∧
        delta.messages.map DeltaMessage.id = ms.map Message.id := by
  obtain ⟨result, earlier, rfl, _, denied | exhausted | brings⟩ := reached
  · exact .inl denied
  · exact .inr (.inl (exhausted.append [_]))
  · obtain ⟨ms, tail, pages, messages, ids⟩ := brings.pages
    refine .inr (.inr ⟨brings.opened, ms, pages.append [_], ?_⟩)
    rw [messages, List.nil_append]
    exact ids

/-- Without messages there is nothing to do. -/
theorem Reached.ended {cursor : Nat} {delta : RoomDelta} {log : Log Op Op.Res}
    (reached : Reached roomId cursor delta log) (idle : delta.denied || delta.messages.isEmpty) :
    Ended roomId log := by
  intro watermark member
  obtain rfl := reached.watermark member
  rcases reached.outcome with ⟨_, zero⟩ | exhausted | ⟨opened, ms, pages, ids⟩
  · exact .denied zero
  · exact .exhausted exhausted
  · have empty : delta.messages = [] := by simpa [opened] using idle
    rw [empty, List.map_nil] at ids
    obtain rfl : ms = [] := List.map_eq_nil_iff.mp ids.symm
    exact .nothing cursor reached.read pages

theorem Reached.merges {cursor : Nat} {delta : RoomDelta} {log : Log Op Op.Res}
    (reached : Reached roomId cursor delta log) (opened : delta.denied = false) :
    Merges roomId log delta := by
  rcases reached.outcome with ⟨denied, _⟩ | exhausted | ⟨_, ms, pages, ids⟩
  · rw [opened] at denied
    cases denied
  · exact .inl exhausted
  · exact .inr ⟨cursor, ms, reached.read, pages, ids⟩

theorem Reached.merged {cursor : Nat} {delta : RoomDelta} {log : Log Op Op.Res}
    (reached : Reached roomId cursor delta log) (result : Op.Res (.merge delta)) :
    Ended roomId (⟨.merge delta, result⟩ :: log) := by
  intro watermark member
  have old : (⟨.reached watermark, .ok ()⟩ : Done) ∈ log := by
    rcases List.mem_cons.mp member with here | old
    · cases congrArg Sigma.fst here
    · exact old
  obtain rfl := reached.watermark old
  rcases reached.outcome with ⟨_, zero⟩ | exhausted | ⟨_, ms, pages, ids⟩
  · exact .denied zero
  · exact .exhausted (exhausted.append [_])
  · exact .merged cursor ms delta result [] _ rfl reached.read pages ids

theorem take_follows (cursor : Nat) (delta : RoomDelta) :
    Follows (service userId roomId) permits (law roomId) request (Reached roomId cursor delta) (take delta)
      fun _ => Ended roomId := by
  unfold take
  split
  next idle => exact follows_pure fun log reached => reached.ended idle
  next busy =>
    have opened : delta.denied = false := by
      cases denied : delta.denied with
      | false => rfl
      | true => simp [denied] at busy
    intro t j start
    have lawful : ∀ log, Reached roomId cursor delta log → law roomId request log (.merge delta) := by
      refine fun log reached => ⟨fun delta' isMerge => ?_, nofun⟩
      obtain rfl := Op.merge.inj isMerge
      exact reached.merges opened
    exact safe_op (fun log reached => ⟨lawful log reached, fun _ result _ _ => reached.merged result⟩) start

theorem catchUp_follows : Follows (service userId roomId) permits (law roomId) request
    (fun log => Fresh log ∧ reads log = 0) (catchUpAfterReconnect userId roomId) fun _ => Ended roomId := by
  refine follows_bind (fun result log => Fresh log ∧ ∀ cursor, result = .ok cursor →
      Started cursor log ∧ reads log = 0)
    (follows_step nofun (fun _ => nofun) fun log fresh result => ?_) (fun cursor => ?_)
    fun _ _ holds => holds.1.ended
  · have after := fresh.1.cons (x := ⟨.latestSeq, result⟩) fun _ => nofun
    refine ⟨after, ?_⟩
    rintro cursor rfl
    exact ⟨⟨after, List.mem_cons_self⟩, fresh.2⟩
  split
  · exact follows_pure fun log holds => holds.1.ended
  refine follows_tryCatch (fun _ => Ended roomId) ?_ (fun _ _ => id) fun _ => follows_pure fun _ => id
  refine follows_bind (fun result log => Started cursor log ∧ ∀ delta, result = .ok delta →
      (delta.denied ∧ delta.watermark = 0) ∨ Exhausted roomId log ∨ Brings roomId log 0 cursor [] delta)
    ((catchUpRoom_follows cursor).weaken (fun _ holds => holds.2 cursor rfl) fun _ _ => id)
    (fun delta => ?_) fun _ _ holds => holds.1.1.ended
  refine follows_bind (fun result log => (result = .ok () → Reached roomId cursor delta log) ∧
      (result ≠ .ok () → Fresh log))
    (follows_step nofun (fun _ => nofun) fun log holds result => ?_) (fun value => ?_)
    fun e _ holds => (holds.2 nofun).ended
  · refine ⟨fun _ => ⟨result, log, rfl, holds.1, holds.2 delta rfl⟩, fun failed watermark member => ?_⟩
    rcases List.mem_cons.mp member with here | old
    · obtain ⟨isOp, isResult⟩ := Sigma.mk.inj here
      obtain rfl := Op.reached.inj isOp
      exact failed (eq_of_heq isResult).symm
    · exact holds.1.1 watermark old
  · exact (take_follows cursor delta).weaken (fun log holds => holds.1 rfl) fun _ _ => id

theorem finish_follows : Follows (service userId roomId) permits (law roomId) request (Ended roomId)
    (call .finish) fun _ _ => True := by
  intro t j begun
  let anything (_ : Op.Res .finish) (_ : Log Op Op.Res) : Prop := True
  have step : ∀ log, Ended roomId log → law roomId request log .finish ∧ ∀ s result s',
      (service userId roomId).exec t s .finish result s' → anything result (⟨.finish, result⟩ :: log) :=
    fun log ended => ⟨⟨nofun, fun _ => ended⟩, fun _ _ _ _ => trivial⟩
  exact safe_op step begun

theorem service_follows : (service userId roomId).Follows permits (law roomId) := by
  intro request
  cases request with
  | connect =>
      refine follows_bind (fun _ => Ended roomId) ?_ (fun _ => ?_) fun _ _ _ => trivial
      · refine follows_bind (fun _ log => Fresh log ∧ reads log = 0)
          (follows_step nofun (fun _ => nofun) fun log isEmpty result => ?_) (fun _ => catchUp_follows)
          fun _ _ holds => holds.1.ended
        obtain rfl := isEmpty
        have fresh : Fresh [] := fun _ member => by cases member
        exact ⟨fresh.cons fun _ => nofun, rfl⟩
      · exact finish_follows
  | newMessage | deleted | elsewhere =>
      exact follows_step nofun (fun _ => nofun) fun _ _ _ => trivial

end Program

/-- A page has every row between its cursor and its last row. -/
theorem mem_page {s : Server} {roomId : UUID} {cursor : Nat} {m : Message} (indexed : Indexed s)
    (member : m ∈ s.messages) (room : m.chatroomId = roomId) (beyond : cursor < m.sequenceNumber)
    (within : m.sequenceNumber ≤ lastSeq ((s.findAfter roomId cursor (PER_ROOM + 1)).take PER_ROOM) cursor) :
    m ∈ (s.findAfter roomId cursor (PER_ROOM + 1)).take PER_ROOM := by
  let sorted := ((s.inRoom roomId).filter fun m => cursor < m.sequenceNumber).insertionSort
    fun m m' => m.sequenceNumber ≤ m'.sequenceNumber
  have isPage : (s.findAfter roomId cursor (PER_ROOM + 1)).take PER_ROOM = sorted.take PER_ROOM := by
    rw [Server.findAfter, List.take_take]
    rfl
  rw [isPage] at within ⊢
  have inSorted : m ∈ sorted := by
    refine (List.mem_insertionSort _).mpr (List.mem_filter.mpr ⟨List.mem_filter.mpr ⟨member, ?_⟩, ?_⟩)
    · simpa using room
    · simpa using beyond
  have ordered : sorted.Pairwise fun m m' => m.sequenceNumber ≤ m'.sequenceNumber :=
    List.pairwise_insertionSort _ _
  by_contra outside
  have split := List.take_append_drop PER_ROOM sorted
  have dropped : m ∈ sorted.drop PER_ROOM :=
    (List.mem_append.mp (split.symm ▸ inSorted)).resolve_left outside
  cases isLast : (sorted.take PER_ROOM).getLast? with
  | none =>
      rw [lastSeq, isLast] at within
      exact absurd beyond (not_lt.mpr within)
  | some last =>
      rw [lastSeq, isLast] at within
      have inPage := List.mem_of_getLast? isLast
      rw [← split, List.pairwise_append] at ordered
      have below := ordered.2.2 last inPage m dropped
      have lastRow := List.mem_filter.mp ((List.mem_insertionSort _).mp (List.mem_of_mem_take inPage))
      have inRoom := List.mem_filter.mp lastRow.1
      have same : m = last := by
        refine indexed m member last inRoom.1 ?_ (le_antisymm within below)
        rw [room]
        exact (of_decide_eq_true inRoom.2).symm
      exact outside (same ▸ inPage)

/-- A page that goes past a number has a row with it or a higher one. -/
theorem row_of_lastSeq {page : List Message} {cursor n : Nat} (beyond : cursor < n)
    (within : n ≤ lastSeq page cursor) : ∃ row ∈ page, n ≤ row.sequenceNumber := by
  cases isLast : page.getLast? with
  | none =>
      rw [lastSeq, isLast] at within
      exact absurd beyond (not_lt.mpr within)
  | some row =>
      rw [lastSeq, isLast] at within
      exact ⟨row, List.mem_of_getLast? isLast, within⟩

def Event.Persists (e : Event) (roomId : UUID) (m : Message) : Prop :=
  m.chatroomId = roomId ∧ m ∈ e.after.server.messages ∧ m ∉ e.before.server.messages

def Event.Merges (e : Event) : Prop :=
  ∃ delta, e.op = .merge delta

/-- A page of a catch-up has a row with the number or a higher one. -/
def Event.Passes (e : Event) (roomId : UUID) (n : Nat) : Prop :=
  ∃ cursor rows, e.logged = ⟨.server (.findAfter roomId cursor (PER_ROOM + 1)), .ok rows⟩ ∧
    ∃ row ∈ rows.take PER_ROOM, n ≤ row.sequenceNumber

/-- A message that a catch-up does not ask for, or does not get. -/
inductive Overtaken (roomId : UUID) (seen : Nat) (t : Nat) (past : List Event) (m : Message) : Prop
  /-- The cursor of the page was not below it when the socket went down. -/
  | before : m.sequenceNumber ≤ seen → Overtaken roomId seen t past m
  /-- A frame or an echo with its number or a higher one came before the cursor was read. -/
  | frame (later e earlier x msg) : past = later ++ e :: earlier → e.thread = t → e.op = .latestSeq →
      x ∈ earlier → x.op = .newMessage msg → m.sequenceNumber ≤ msg.sequenceNumber →
      Overtaken roomId seen t past m
  /-- It was persisted after a page, since merged, that goes past it. -/
  | page (later e earlier) : past = later ++ e :: earlier → e.Passes roomId m.sequenceNumber →
      (∃ x ∈ later, x.Persists roomId m) → (∃ x ∈ later, x.thread = e.thread ∧ x.Merges) →
      Overtaken roomId seen t past m

/-- The message is brought by a frame of its own, or by a catch-up. -/
inductive Event.Brings (e : Event) (m : Message) : Prop
  | frame (msg) : e.op = .newMessage msg → msg.id = m.id → Event.Brings e m
  | merge (delta) : e.op = .merge delta → m.id ∈ delta.messages.map DeltaMessage.id → Event.Brings e m

/-- The message has come, and no frame about its deletion since. -/
def Came (past : List Event) (m : Message) : Prop :=
  ∃ later e earlier, past = later ++ e :: earlier ∧ e.Brings m ∧ ∀ x ∈ later, x.op ≠ .deleted m.id

/-- What the operations of a run must be like in which the socket went down at `s`. -/
structure Calm (roomId : UUID) (s : World) (j : History) (e : Event) : Prop where
  /-- When a catch-up ends that has reached a watermark, the messages have come that had been overtaken. -/
  overtaken : e.op = .finish → ∀ watermark, (⟨.reached watermark, .ok ()⟩ : Done) ∈ j.log e.thread →
    ∀ m ∈ e.before.server.messages, m.chatroomId = roomId → s.page.highest < m.sequenceNumber →
      Overtaken roomId s.page.latestSeq e.thread j.past m → Came j.past m
  /-- The last page that a catch-up asks for is not full. -/
  last : ∀ cursor, e.op = .server (.findAfter roomId cursor (PER_ROOM + 1)) →
    reads (j.log e.thread) + 1 = MAX_PAGES →
    (e.before.server.findAfter roomId cursor (PER_ROOM + 1)).length ≤ PER_ROOM
  /-- No frame has the client id of another message that the room holds. -/
  frames : ∀ msg, e.op = .newMessage msg → ∀ x ∈ e.before.page.messages, x.clientMessageId.isSome →
    x.clientMessageId = msg.clientMessageId → x.id = .row msg.id ∨ ∃ cid, x.id = .client cid

/-- In every run from `s`, where the socket is down, whose operations are those `permits`: once a
connect has been handled, the room holds all up to the watermark that it has reached. -/
def CatchesUp (userId roomId : UUID) (s : World)
    (permits : UUID → World → History → Event → Prop) : Prop :=
  ∀ j, (service userId roomId).Reaches (fun _ _ => True) (permits roomId s) s j →
    ∀ later e earlier, j.past = later ++ e :: earlier → e.op = .finish →
      ∀ watermark, (⟨.reached watermark, .ok ()⟩ : Done) ∈ own e.thread earlier →
        ∀ m ∈ e.before.server.messages, m.chatroomId = roomId → s.page.highest < m.sequenceNumber →
          m.sequenceNumber ≤ watermark → e.before.page.Holds m

section Run

variable {userId roomId : UUID} {s : World} {j : History} {e : Event} {m : Message}

theorem perform_page {t : Nat} {op : Rooms.Op} {result : op.Res} {w w' : World}
    (exec : Exec t w (.server op) result w') :
    w'.page = w.page ∧ Rooms.Exec t w.server op result w'.server := by
  obtain ⟨⟨a, performed⟩, _⟩ := exec
  obtain ⟨after, ran, isAfter⟩ := Option.map_eq_some_iff.mp performed
  obtain ⟨rfl, rfl⟩ := Prod.mk.inj isAfter
  exact ⟨rfl, a, ran⟩

theorem newMessage_page {t : Nat} {msg : Message} {result : Op.Res (.newMessage msg)} {w w' : World}
    (exec : Exec t w (.newMessage msg) result w') : w'.page = w.page.handleNewMessage msg := by
  obtain ⟨⟨a, performed⟩, _⟩ := exec
  obtain ⟨_, rfl⟩ := Prod.mk.inj (Option.some.inj performed)
  rfl

theorem merge_page {t : Nat} {delta : RoomDelta} {result : Op.Res (.merge delta)} {w w' : World}
    (exec : Exec t w (.merge delta) result w') : w'.page = w.page.merge delta := by
  obtain ⟨⟨a, performed⟩, _⟩ := exec
  obtain ⟨_, rfl⟩ := Prod.mk.inj (Option.some.inj performed)
  rfl

theorem deleted_world {t messageId : Nat} {result : Op.Res (.deleted messageId)} {w w' : World}
    (exec : Exec t w (.deleted messageId) result w') :
    w' = { w with page := w.page.handleDeleted messageId } := by
  obtain ⟨⟨a, performed⟩, _⟩ := exec
  obtain ⟨_, rfl⟩ := Prod.mk.inj (Option.some.inj performed)
  rfl

/-- What an operation does to the page. -/
theorem Exec.page {t : Nat} {op : Op} {result : op.Res} {w w' : World} (exec : Exec t w op result w') :
    w'.page = w.page ∨ (∃ msg, op = .newMessage msg ∧ w'.page = w.page.handleNewMessage msg) ∨
      (∃ delta, op = .merge delta ∧ w'.page = w.page.merge delta) ∨
      ∃ messageId, op = .deleted messageId ∧ w'.page = w.page.handleDeleted messageId := by
  cases op with
  | server op => exact .inl (perform_page exec).1
  | drain =>
      obtain ⟨⟨a, performed⟩, _⟩ := exec
      simp only [perform] at performed
      split at performed
      · obtain ⟨_, rfl⟩ := Prod.mk.inj (Option.some.inj performed)
        exact .inl rfl
      · obtain ⟨_, rfl⟩ := Prod.mk.inj (Option.some.inj performed)
        exact .inl rfl
  | merge delta => exact .inr (.inr (.inl ⟨delta, rfl, merge_page exec⟩))
  | newMessage msg => exact .inr (.inl ⟨msg, rfl, newMessage_page exec⟩)
  | deleted messageId => exact .inr (.inr (.inr ⟨messageId, rfl, by rw [deleted_world exec]⟩))
  | latestSeq | elsewhere | reached | finish =>
      obtain ⟨⟨a, performed⟩, _⟩ := exec
      obtain ⟨_, rfl⟩ := Prod.mk.inj (Option.some.inj performed)
      exact .inl rfl

/-- What the room holds it holds until a frame says that it is deleted. -/
theorem Exec.keeps {t : Nat} {op : Op} {result : op.Res} {w w' : World} (exec : Exec t w op result w')
    (frames : ∀ msg, op = .newMessage msg → ∀ x ∈ w.page.messages, x.clientMessageId.isSome →
      x.clientMessageId = msg.clientMessageId → x.id = .row msg.id ∨ ∃ cid, x.id = .client cid)
    (stays : op ≠ .deleted m.id) (holds : w.page.Holds m) : w'.page.Holds m := by
  rcases exec.page with same | ⟨msg, isOp, same⟩ | ⟨delta, _, same⟩ | ⟨messageId, isOp, same⟩
  · exact same ▸ holds
  · exact same ▸ holds.handleNewMessage (frames msg isOp)
  · exact same ▸ holds.merge
  · refine same ▸ holds.handleDeleted fun isId => stays ?_
    rw [isOp, isId]

/-- The cursor goes by the frames and by the watermarks. -/
theorem Exec.latestSeq {t n : Nat} {op : Op} {result : op.Res} {w w' : World} (exec : Exec t w op result w')
    (within : n ≤ w'.page.latestSeq) : n ≤ w.page.latestSeq ∨
      (∃ msg, op = .newMessage msg ∧ n ≤ msg.sequenceNumber) ∨
      ∃ delta, op = .merge delta ∧ n ≤ delta.watermark := by
  rcases exec.page with same | ⟨msg, isOp, same⟩ | ⟨delta, isOp, same⟩ | ⟨messageId, _, same⟩
  · exact .inl (same ▸ within)
  · rw [same] at within
    simp only [Page.handleNewMessage] at within
    split at within
    · exact .inr (.inl ⟨msg, isOp, within⟩)
    · exact .inl within
  · rw [same] at within
    by_cases old : n ≤ w.page.latestSeq
    · exact .inl old
    · refine .inr (.inr ⟨delta, isOp, ?_⟩)
      change n ≤ max w.page.latestSeq delta.watermark at within
      omega
  · rw [same] at within
    exact .inl within

/-! What an event has done whose operation and answer are known. -/

theorem logged_latestSeq {cursor : Nat} (exec : Exec e.thread e.before e.op e.result e.after)
    (isLogged : e.logged = ⟨.latestSeq, .ok cursor⟩) :
    e.op = .latestSeq ∧ cursor = e.before.page.latestSeq := by
  obtain ⟨t, request, op, result, before, after⟩ := e
  obtain ⟨rfl, same⟩ := Sigma.mk.inj isLogged
  obtain rfl := eq_of_heq same
  obtain ⟨⟨a, performed⟩, _⟩ := exec
  obtain ⟨isCursor, _⟩ := Prod.mk.inj (Option.some.inj performed)
  exact ⟨rfl, (Except.ok.inj isCursor).symm⟩

theorem logged_findAfter {cursor limit : Nat} {rows : List Message}
    (exec : Exec e.thread e.before e.op e.result e.after)
    (isLogged : e.logged = ⟨.server (.findAfter roomId cursor limit), .ok rows⟩) :
    e.op = .server (.findAfter roomId cursor limit) ∧ e.after.server.messages = e.before.server.messages ∧
      rows = e.before.server.findAfter roomId cursor limit := by
  obtain ⟨t, request, op, result, before, after⟩ := e
  obtain ⟨rfl, same⟩ := Sigma.mk.inj isLogged
  obtain rfl := eq_of_heq same
  obtain ⟨same, tells⟩ := (perform_page exec).2.outcome.of_reads trivial
  exact ⟨rfl, same.messages, tells⟩

/-- What has been brought is held. -/
theorem Event.Brings.holds (exec : Exec e.thread e.before e.op e.result e.after) (brings : e.Brings m) :
    e.after.page.Holds m := by
  obtain ⟨t, request, op, result, before, after⟩ := e
  cases brings with
  | frame msg isOp isId =>
      obtain rfl := isOp
      rw [newMessage_page exec]
      obtain ⟨x, member, isRow⟩ := Page.handleNewMessage_holds
      exact ⟨x, member, isId ▸ isRow⟩
  | merge delta isOp brought =>
      obtain rfl := isOp
      rw [merge_page exec]
      exact Page.merge_holds brought

/-- The runs in question. -/
abbrev Runs (userId roomId : UUID) (s : World) (j : History) : Prop :=
  (service userId roomId).Reaches (fun _ _ => True) (Calm roomId s) s j

theorem indexed_of (start : Indexed s.server) (runs : Runs userId roomId s j) : Indexed j.state.server := by
  refine runs.kept (fun j => Indexed j.state.server) start ?_ ?_
  · exact fun _ _ _ indexed _ _ => indexed
  · exact fun _ _ _ _ performs _ => performs.exec.2.1

/-- No catch-up runs out of pages. -/
theorem not_exhausted {t : Nat} (runs : Runs userId roomId s j) : ¬Exhausted roomId (j.log t) := by
  rintro ⟨cursor, rows, ⟨after, before, isLog, count⟩, full⟩
  obtain ⟨later, e', earlier, isPast, rfl, isLogged, _, isBefore⟩ := own_split isLog
  obtain ⟨j', _, isPast', performs⟩ := runs.at_entry isPast
  have counted : reads (j'.log e'.thread) + 1 = MAX_PAGES := by
    rw [Journal.log, isPast', isBefore, count]
    rfl
  obtain ⟨isOp, _, rfl⟩ := logged_findAfter performs.exec isLogged
  exact absurd full (not_lt.mpr (performs.permitted.last cursor isOp counted))

/-- What a number is in a run that the cursor of the page has gone past. -/
inductive Known (roomId : UUID) (seen : Nat) (past : List Event) (n : Nat) : Prop
  | before : n ≤ seen → Known roomId seen past n
  | frame (x msg) : x ∈ past → x.op = .newMessage msg → n ≤ msg.sequenceNumber → Known roomId seen past n
  | page (later e earlier cursor rows x delta) : past = later ++ e :: earlier →
      e.logged = ⟨.server (.findAfter roomId cursor (PER_ROOM + 1)), .ok rows⟩ → cursor < n →
      n ≤ lastSeq (rows.take PER_ROOM) cursor → x ∈ later → x.thread = e.thread → x.op = .merge delta →
      (∀ row ∈ rows.take PER_ROOM, row.id ∈ delta.messages.map DeltaMessage.id) →
      Known roomId seen past n

theorem Known.cons {seen n : Nat} {past : List Event} (known : Known roomId seen past n) (e : Event) :
    Known roomId seen (e :: past) n := by
  cases known with
  | before within => exact .before within
  | frame x msg member isOp within => exact .frame x msg (List.mem_cons_of_mem _ member) isOp within
  | page later e' earlier cursor rows x delta isPast isLogged beyond within member mine isOp brings =>
      refine .page (e :: later) e' earlier cursor rows x delta ?_ isLogged beyond within
        (List.mem_cons_of_mem _ member) mine isOp brings
      rw [isPast]
      rfl

/-- What a catch-up merges is known by the cursor it has read, or by its pages. -/
theorem Merges.known {seen n : Nat} {delta : RoomDelta} (merges : Merges roomId (j.log e.thread) delta)
    (isOp : e.op = .merge delta) (pages : ¬Exhausted roomId (j.log e.thread))
    (read : ∀ x ∈ j.past, ∀ cursor, x.logged = ⟨.latestSeq, .ok cursor⟩ → ∀ n ≤ cursor,
      Known roomId seen j.past n) (within : n ≤ delta.watermark) :
    Known roomId seen (e :: j.past) n := by
  rcases merges with exhausted | ⟨cursor, ms, isRead, pages, ids⟩
  · exact absurd exhausted pages
  by_cases taken : n ≤ cursor
  · obtain ⟨x, member, _, isLogged⟩ := mem_of_own isRead
    exact (read x member cursor isLogged n taken).cons e
  · obtain ⟨k, cursor', rows, ⟨after, before, isLog, _⟩, beyond, inside, inPages⟩ :=
      pages.within (not_le.mp taken) within
    obtain ⟨later, e', earlier, isPast, mine, isLogged, _⟩ := own_split isLog
    refine .page (e :: later) e' earlier cursor' rows e delta ?_ isLogged beyond inside List.mem_cons_self
      mine.symm isOp fun row member => ?_
    · rw [isPast]
      rfl
    · rw [ids]
      exact List.mem_map_of_mem (inPages row member)

/-- The cursor of the page goes past what is known only. -/
theorem known (runs : Runs userId roomId s j) :
    (∀ n ≤ j.state.page.latestSeq, Known roomId s.page.latestSeq j.past n) ∧
      ∀ x ∈ j.past, ∀ cursor, x.logged = ⟨.latestSeq, .ok cursor⟩ → ∀ n ≤ cursor,
        Known roomId s.page.latestSeq j.past n := by
  refine runs.kept (fun j => (∀ n ≤ j.state.page.latestSeq, Known roomId s.page.latestSeq j.past n) ∧
    ∀ x ∈ j.past, ∀ cursor, x.logged = ⟨.latestSeq, .ok cursor⟩ → ∀ n ≤ cursor,
      Known roomId s.page.latestSeq j.past n) ?_ ?_ ?_
  · exact ⟨fun n within => .before within, fun x old => by cases old⟩
  · exact fun _ _ _ holds _ _ => holds
  rintro j e ⟨holds, read⟩ before performs after
  refine ⟨fun n within => ?_, fun x member cursor isLogged n within => ?_⟩
  · rcases performs.exec.latestSeq within with old | ⟨msg, isOp, within⟩ | ⟨delta, isOp, within⟩
    · exact (holds n (performs.before ▸ old)).cons e
    · exact .frame e msg List.mem_cons_self isOp within
    · have running : (j.record e).calls e.thread = some e.call := performs.running
      have isPast : (j.record e).past = [] ++ e :: j.past := rfl
      have lawful := after.lawful_at service_follows isPast running
      exact (lawful.1 delta isOp).known isOp (not_exhausted before) read within
  · rcases List.mem_cons.mp member with rfl | old
    · obtain ⟨_, isCursor⟩ := logged_latestSeq performs.exec isLogged
      rw [isCursor, performs.before] at within
      exact (holds n within).cons x
    · exact (read x old cursor isLogged n within).cons e

section Passing

variable {later earlier : List Event} {e' : Event}

/-- A row that is there now, and was not persisted since, was there. -/
theorem was_there (runs : Runs userId roomId s j) (isPast : j.past = later ++ e' :: earlier)
    (room : m.chatroomId = roomId) (quiet : ∀ x ∈ later, ¬x.Persists roomId m)
    (here : m ∈ j.state.server.messages) : m ∈ e'.after.server.messages := by
  by_contra absent
  let gone (w : World) : Prop := m ∉ w.server.messages
  have start : gone e'.after := absent
  exact runs.stays isPast start (fun x member before visible => quiet x member ⟨room, visible, before⟩) here

/-- Nor was a frame about its deletion there. -/
theorem none_deleted (runs : Runs userId roomId s j) (isPast : j.past = later ++ earlier)
    (room : m.chatroomId = roomId) (quiet : ∀ x ∈ later, ¬x.Persists roomId m)
    (here : m ∈ j.state.server.messages) : ∀ x ∈ later, x.op ≠ .deleted m.id := by
  intro x member isOp
  obtain ⟨after, before, rfl⟩ := List.append_of_mem member
  rw [List.append_assoc] at isPast
  have there := was_there runs isPast room (fun y inAfter => quiet y (List.mem_append_left _ inAfter)) here
  obtain ⟨j', _, _, performs⟩ := runs.at_entry isPast
  obtain ⟨t, request, op, result, w, w'⟩ := x
  obtain rfl := isOp
  rw [deleted_world performs.exec] at there
  exact performs.exec.2.2 m.id rfl m there rfl

/-- What has come is held. -/
theorem Came.holds (runs : Runs userId roomId s j) (came : Came j.past m) : j.state.page.Holds m := by
  obtain ⟨later, e', earlier, isPast, brings, stays⟩ := came
  let holds (w : World) : Prop := w.page.Holds m
  obtain ⟨j', _, _, performs⟩ := runs.at_entry isPast
  have start : holds e'.after := brings.holds performs.exec
  refine runs.stays isPast start fun x member before => ?_
  have untouched := stays x member
  obtain ⟨after, before', rfl⟩ := List.append_of_mem member
  rw [List.append_assoc] at isPast
  obtain ⟨j'', _, _, performs'⟩ := runs.at_entry isPast
  exact performs'.exec.keeps performs'.permitted.frames untouched before

/-- A row within a page that has been merged has come with it, if it was not persisted since. -/
theorem came_with {cursor : Nat} {rows : List Message} {delta : RoomDelta} {x : Event}
    (start : Indexed s.server) (runs : Runs userId roomId s j) (isPast : j.past = later ++ e' :: earlier)
    (isLogged : e'.logged = ⟨.server (.findAfter roomId cursor (PER_ROOM + 1)), .ok rows⟩)
    (here : m ∈ j.state.server.messages) (room : m.chatroomId = roomId) (beyond : cursor < m.sequenceNumber)
    (within : m.sequenceNumber ≤ lastSeq (rows.take PER_ROOM) cursor)
    (quiet : ∀ x ∈ later, ¬x.Persists roomId m) (member : x ∈ later) (isOp : x.op = .merge delta)
    (brings : ∀ row ∈ rows.take PER_ROOM, row.id ∈ delta.messages.map DeltaMessage.id) : Came j.past m := by
  have visible := was_there runs isPast room quiet here
  obtain ⟨j', runs', _, performs⟩ := runs.at_entry isPast
  have indexed : Indexed e'.before.server := performs.before ▸ indexed_of start runs'
  obtain ⟨_, same, rfl⟩ := logged_findAfter performs.exec isLogged
  have inPage := mem_page indexed (same ▸ visible) room beyond within
  obtain ⟨after, before, rfl⟩ := List.append_of_mem member
  have isMerge : j.past = (after ++ [x]) ++ (before ++ e' :: earlier) := by
    rw [isPast]
    simp
  refine ⟨after, x, before ++ e' :: earlier, by rw [isMerge]; simp, .merge delta isOp (brings m inPage), ?_⟩
  have since : ∀ y ∈ after ++ [x], ¬y.Persists roomId m := by
    intro y inAfter
    refine quiet y ?_
    rcases List.mem_append.mp inAfter with old | last
    · exact List.mem_append_left _ old
    · exact List.mem_append_right _ (List.mem_singleton.mp last ▸ List.mem_cons_self)
  exact fun y inAfter => none_deleted runs isMerge room since here y (List.mem_append_left _ inAfter)

/-- A row within a merged page has come, unless it was overtaken. -/
theorem came_or_overtaken {cursor t : Nat} {rows : List Message} {delta : RoomDelta} {x : Event}
    (start : Indexed s.server) (runs : Runs userId roomId s j) (isPast : j.past = later ++ e' :: earlier)
    (isLogged : e'.logged = ⟨.server (.findAfter roomId cursor (PER_ROOM + 1)), .ok rows⟩)
    (here : m ∈ j.state.server.messages) (room : m.chatroomId = roomId) (beyond : cursor < m.sequenceNumber)
    (within : m.sequenceNumber ≤ lastSeq (rows.take PER_ROOM) cursor) (member : x ∈ later)
    (mine : x.thread = e'.thread) (isOp : x.op = .merge delta)
    (brings : ∀ row ∈ rows.take PER_ROOM, row.id ∈ delta.messages.map DeltaMessage.id) :
    Came j.past m ∨ Overtaken roomId s.page.latestSeq t j.past m := by
  by_cases late : ∃ y ∈ later, y.Persists roomId m
  · exact .inr (.page later e' earlier isPast ⟨cursor, rows, isLogged, row_of_lastSeq beyond within⟩ late ⟨x, member, mine, delta, isOp⟩)
  · have quiet : ∀ y ∈ later, ¬y.Persists roomId m := fun y inLater persists => late ⟨y, inLater, persists⟩
    exact .inl (came_with start runs isPast isLogged here room beyond within quiet member isOp brings)

/-- So has a row up to the cursor that a catch-up has read. -/
theorem came_of_cursor {t cursor : Nat} (start : Indexed s.server) (runs : Runs userId roomId s j)
    (read : (⟨.latestSeq, .ok cursor⟩ : Done) ∈ j.log t) (here : m ∈ j.state.server.messages)
    (room : m.chatroomId = roomId) (within : m.sequenceNumber ≤ cursor) :
    Came j.past m ∨ Overtaken roomId s.page.latestSeq t j.past m := by
  obtain ⟨e', member, rfl, isLogged⟩ := mem_of_own read
  obtain ⟨later, earlier, isPast⟩ := List.append_of_mem member
  obtain ⟨j', runs', rfl, performs⟩ := runs.at_entry isPast
  obtain ⟨isOp, rfl⟩ := logged_latestSeq performs.exec isLogged
  rw [performs.before] at within
  cases (known runs').1 _ within with
  | before within => exact .inr (.before within)
  | frame x msg inPast isFrame within =>
      exact .inr (.frame later e' j'.past x msg isPast rfl isOp inPast isFrame within)
  | page after e'' before cursor rows x delta isPast' isPage beyond inside inAfter mine isMerge brings =>
      have isSplit : j.past = (later ++ e' :: after) ++ e'' :: before := by
        rw [isPast, isPast']
        simp
      exact came_or_overtaken start runs isSplit isPage here room beyond inside
        (List.mem_append_right _ (List.mem_cons_of_mem _ inAfter)) mine isMerge brings

end Passing

end Run

theorem catches_up (userId roomId : UUID) (s : World) (start : Indexed s.server) :
    CatchesUp userId roomId s Calm := by
  intro j reaches later e earlier isPast isFinish watermark reached m here room beyond within
  obtain ⟨j', runs, rfl, performs⟩ := reaches.at_entry isPast
  have member : e ∈ j.past := by
    rw [isPast]
    exact List.mem_append_right _ List.mem_cons_self
  have lawful := reaches.lawful_at service_follows isPast (reaches.ran e member)
  have overtaken := performs.permitted.overtaken isFinish watermark reached m here room beyond
  rw [performs.before] at here ⊢
  suffices Came j'.past m ∨ Overtaken roomId s.page.latestSeq e.thread j'.past m from
    Came.holds runs (this.elim id overtaken)
  cases lawful.2 isFinish watermark reached with
  | denied zero => omega
  | exhausted exhausted => exact absurd exhausted (not_exhausted runs)
  | nothing cursor read pages =>
      by_cases taken : m.sequenceNumber ≤ cursor
      · exact came_of_cursor start runs read here room taken
      · obtain ⟨k, cursor', rows, _, past, inside, inPages⟩ := pages.within (not_le.mp taken) within
        obtain ⟨row, inRows, _⟩ := row_of_lastSeq past inside
        cases inPages row inRows
  | merged cursor ms delta result after before isLog read pages ids =>
      by_cases taken : m.sequenceNumber ≤ cursor
      · refine came_of_cursor start runs ?_ here room taken
        rw [Journal.log, isLog]
        exact List.mem_append_right _ (List.mem_cons_of_mem _ read)
      · obtain ⟨k, cursor', rows, ⟨after', before', isBefore, _⟩, past, inside, inPages⟩ :=
          pages.within (not_le.mp taken) within
        have isLog' : own e.thread j'.past =
            (after ++ (⟨.merge delta, result⟩ : Done) :: after') ++
              (⟨.server (.findAfter roomId cursor' (PER_ROOM + 1)), .ok rows⟩ : Done) :: before' := by
          rw [isLog, isBefore, List.append_assoc]
          rfl
        obtain ⟨since, e', before'', isSplit, mine, isLogged, isSince, _⟩ := own_split isLog'
        -- The merge stands between the page and the end.
        obtain ⟨last, x, first, rfl, isThread, isMerge, _, _⟩ := own_split isSince
        refine came_or_overtaken start runs isSplit isLogged here room past inside
          (List.mem_append_right _ List.mem_cons_self) (isThread.trans mine.symm)
          (congrArg Sigma.fst isMerge) fun row inRows => ?_
        rw [ids]
        exact List.mem_map_of_mem (inPages row inRows)

section Examples

/-- The message of the room 1 with a number, which is its id as well. -/
def line (n : Nat) : Message where
  chatroomId := 1
  senderId := 1
  type := .text
  body := [0x68]
  sequenceNumber := n
  clientMessageId := some n
  id := n
  createdAt := 0

def room (numbers : List Nat) : Server where
  chatrooms := [(1, ⟨false⟩)]
  members := []
  users := [(1, [])]
  messages := numbers.map line
  pending := []
  nextId := 9
  redis _ := none
  stopped := []

/-- The room held 5 when the socket went down, and has missed 6 and 7. -/
def away : World where
  server := room [5, 6, 7]
  page := { messages := [mapNewMessage (line 5)], latestSeq := 5 }

theorem away_indexed : Indexed away.server := by
  decide

theorem catches_up_away : CatchesUp 1 1 away Calm :=
  catches_up 1 1 away away_indexed

/-- What keeps the index, and is no deletion. -/
def answer (t : Nat) (s : World) (op : Op) (a : Answer) : Option (op.Res × World) :=
  match op with
  | .deleted _ => none
  | op => (perform t s op a).filter fun after => Indexed after.2.server

theorem answer_exec {t : Nat} {s s' : World} {op : Op} {a : Answer} {result : op.Res}
    (answered : answer t s op a = some (result, s')) : Exec t s op result s' := by
  cases op with
  | deleted => cases answered
  | _ =>
      simp only [answer] at answered
      obtain ⟨performed, indexed⟩ := Option.filter_eq_some_iff.mp answered
      exact ⟨⟨a, performed⟩, of_decide_eq_true indexed, nofun⟩

/-- The echo of a message that the drain has sent comes before the cursor is read. -/
def skipped : Option History :=
  (((service 1 1).schedule answer fun _ => true).follow (Service.unstarted away)
    ([.start 0 .connect, .await 0 {}, .start 1 (.elsewhere (room [5, 6, 7, 8])), .await 1 {},
      .start 2 (.newMessage (line 8)), .await 2 {}] ++ List.replicate 5 (.await 0 {}))).map Config.state

def hasReached (watermark : Nat) (x : Done) : Bool :=
  match x with
  | ⟨.reached w, .ok ()⟩ => w = watermark
  | _ => false

def finishes : Op → Bool
  | .finish => true
  | _ => false

/-- The end of a catch-up to 8, with 6 in the table and not in the room. -/
def misses (earlier : List Event) (e : Event) : Bool :=
  finishes e.op && (own e.thread earlier).any (hasReached 8) && line 6 ∈ e.before.server.messages &&
    e.before.page.messages.all fun x => x.id ≠ .row 6

theorem skipped_misses : skipped.map (fun j => j.past.head?.map (misses (j.past.drop 1))) = some (some true) := by
  decide +kernel

theorem catches_up_skips : ¬CatchesUp 1 1 away fun _ _ _ _ => True := by
  intro claim
  obtain ⟨j, ran, isLast⟩ := Option.map_eq_some_iff.mp skipped_misses
  obtain ⟨e, isHead, isMiss⟩ := Option.map_eq_some_iff.mp isLast
  obtain ⟨earlier, isPast⟩ := List.head?_eq_some_iff.mp isHead
  have reaches : (service 1 1).Reaches (fun _ _ => True) (fun _ _ => True) away j := by
    obtain ⟨config, followed, rfl⟩ := Option.map_eq_some_iff.mp ran
    exact Service.reaches_follow (fun _ _ _ => trivial) (fun _ _ _ _ _ _ => answer_exec)
      (fun _ _ => trivial) followed
  rw [isPast] at isMiss
  simp only [misses, List.drop_succ_cons, List.drop_zero, Bool.and_eq_true, decide_eq_true_eq] at isMiss
  obtain ⟨⟨⟨isFinish, isReached⟩, here⟩, absent⟩ := isMiss
  have finished : e.op = .finish := by
    unfold finishes at isFinish
    split at isFinish
    next isOp => exact isOp
    · cases isFinish
  have reached : (⟨.reached 8, .ok ()⟩ : Done) ∈ own e.thread earlier := by
    obtain ⟨x, member, isX⟩ := List.any_eq_true.mp isReached
    unfold hasReached at isX
    split at isX
    next w =>
      obtain rfl := of_decide_eq_true isX
      exact member
    · cases isX
  obtain ⟨x, member, isRow⟩ := claim j reaches [] e earlier isPast finished 8 reached (line 6) here rfl
    (by decide) (by decide)
  have other := List.all_eq_true.mp absent x member
  exact of_decide_eq_true other isRow

end Examples

end Reconnect
