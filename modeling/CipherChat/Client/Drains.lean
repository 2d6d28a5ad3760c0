import CipherChat.Client.Outbox

/-!
What the programs that empty the queue do: they send the rows they have read, and remove a row
when they have been answered about it.
-/

namespace Client

open Async Rooms

abbrev Done := (op : Op) × op.Res

/-- The row was in the queue when the program read it. -/
def Read (log : Log Op Op.Res) (row : Row) : Prop :=
  ∃ rows, (⟨.getAll, .ok rows⟩ : Done) ∈ log ∧ row ∈ rows

/-- The answers on which a row is removed. -/
inductive Answered (log : Log Op Op.Res) (row : Row) : Prop
  | posted (token status) : (⟨.post token row.item, .ok status⟩ : Done) ∈ log → Site.removes status →
      Answered log row
  | listed (results ack) : (⟨.syncResult, .ok (some results)⟩ : Done) ∈ log → ack ∈ results →
      sameId ack row.item → ack.settles → Answered log row
  | acked (payload cid ack) : (⟨.directMessage row.item payload, .ok cid⟩ : Done) ∈ log →
      (⟨.ack cid, .ok (some ack)⟩ : Done) ∈ log → ack.settles → Answered log row

def law (request : Call) (log : Log Op Op.Res) : Op → Prop
  | .add item => request = .enqueue item
  | .send frame => request = .send frame
  | .remove id => ∃ row, Read log row ∧ row.id = id ∧ Answered log row
  | .post _ item => ∃ row, Read log row ∧ row.item = item
  | .emitSync frames => ∀ frame ∈ frames, ∃ row payload, Read log row ∧
      row.item.payload = .chatroom payload ∧
        frame = drainFrame row.item.clientMessageId row.item.targetId payload
  | .directMessage item payload => item.payload = .dm payload ∧ ∃ row, Read log row ∧ row.item = item
  | _ => True

theorem Read.after {log : Log Op Op.Res} {row : Row} (read : Read log row) (x : Done) :
    Read (x :: log) row := by
  obtain ⟨rows, answered, member⟩ := read
  exact ⟨rows, List.mem_cons_of_mem _ answered, member⟩

section

variable {owner : UUID → Origin} {permits : History → Event → Prop} {request : Call} {α : Type}

/-- One operation, after which its answer is known. -/
theorem follows_call {op : Op} {pre : Log Op Op.Res → Prop} {post : op.Res → Log Op Op.Res → Prop}
    (lawful : ∀ log, pre log → law request log op)
    (after : ∀ log, pre log → ∀ result, post result (⟨op, result⟩ :: log)) :
    Follows (service owner) permits law request pre (call op) post := by
  intro t j start
  exact safe_op (fun log known => ⟨lawful log known, fun _ result _ _ => after log known result⟩) start

/-- The rows a program works on have been read. -/
def AllRead {β : Type} (items : List (Row × β)) (log : Log Op Op.Res) : Prop :=
  ∀ item ∈ items, Read log item.1

theorem AllRead.after {β : Type} {items : List (Row × β)} {log : Log Op Op.Res}
    (read : AllRead items log) (x : Done) : AllRead items (x :: log) :=
  fun item member => (read item member).after x

theorem discard_follows {row : Row} {known : Log Op Op.Res → Prop}
    (stays : ∀ x log, known log → known (x :: log)) (read : ∀ log, known log → Read log row)
    (answered : ∀ log, known log → Answered log row) :
    Follows (service owner) permits law request known (discard row) fun _ => known := by
  refine follows_tryCatch (fun _ => known) (follows_call (fun log holds => ?_) fun log holds _ => stays _ _ holds)
    (fun _ _ => id) fun _ => follows_pure fun _ => id
  exact ⟨row, read log holds, rfl, answered log holds⟩

theorem confirm_follows {row : Row} {found : Option WireAck} {known : Log Op Op.Res → Prop}
    (stays : ∀ x log, known log → known (x :: log)) (read : ∀ log, known log → Read log row)
    (answered : ∀ ack, found = some ack → ack.settles → ∀ log, known log → Answered log row) :
    Follows (service owner) permits law request known (confirm row found) fun _ => known := by
  cases found with
  | none => exact follows_pure fun _ => id
  | some ack =>
      simp only [confirm]
      split
      next settled => exact discard_follows stays read (answered ack rfl settled)
      · exact follows_pure fun _ => id

theorem onResult_follows (results : List WireAck) (items : List (Row × ChatroomQueuePayload)) :
    Follows (service owner) permits law request
      (fun log => (⟨.syncResult, .ok (some results)⟩ : Done) ∈ log ∧ AllRead items log)
      (onResult results items) fun _ _ => True := by
  induction items with
  | nil => exact follows_pure fun _ _ => trivial
  | cons item rest ih =>
      obtain ⟨row, payload⟩ := item
      let known (log : Log Op Op.Res) : Prop :=
        (⟨.syncResult, .ok (some results)⟩ : Done) ∈ log ∧ AllRead ((row, payload) :: rest) log
      have stays : ∀ x log, known log → known (x :: log) :=
        fun x log holds => ⟨List.mem_cons_of_mem _ holds.1, holds.2.after x⟩
      have next : Follows (service owner) permits law request known (onResult results rest)
          fun _ _ => True :=
        ih.weaken (fun log holds => ⟨holds.1, fun item member => holds.2 item (List.mem_cons_of_mem _ member)⟩)
          fun _ _ => id
      refine follows_bind (fun _ => known) (confirm_follows stays
        (fun log holds => holds.2 _ List.mem_cons_self) fun ack found settled log holds => ?_)
        (fun _ => next) fun _ _ _ => trivial
      have same := List.find?_some found
      exact .listed results ack holds.1 (List.mem_of_find?_eq_some found) same settled

theorem chatroomRow_eq {row : Row} {item : Row × ChatroomQueuePayload}
    (isItem : chatroomRow row = some item) : item.1 = row ∧ row.item.payload = .chatroom item.2 := by
  unfold chatroomRow at isItem
  split at isItem
  next payload isPayload =>
    obtain rfl := Option.some.inj isItem
    exact ⟨rfl, isPayload⟩
  · contradiction

theorem dmRow_eq {row : Row} {item : Row × DmQueuePayload}
    (isItem : dmRow row = some item) : item.1 = row ∧ row.item.payload = .dm item.2 := by
  unfold dmRow at isItem
  split at isItem
  next payload isPayload =>
    obtain rfl := Option.some.inj isItem
    exact ⟨rfl, isPayload⟩
  · contradiction

theorem drain_follows : Follows (service owner) permits law .drain (fun log => log = []) drain
    fun _ _ => True := by
  refine follows_bind (fun result log => ∀ rows, result = .ok rows → (⟨.getAll, .ok rows⟩ : Done) ∈ log)
    (follows_call (fun _ _ => trivial) fun log _ result rows isRows => ?_) (fun rows => ?_) fun _ _ _ => trivial
  · rw [isRows]
    exact List.mem_cons_self
  dsimp only
  split
  · exact follows_pure fun _ _ => trivial
  let known (log : Log Op Op.Res) : Prop := AllRead (rows.filterMap chatroomRow) log
  refine Follows.weaken (?_ : Follows _ _ _ _ known _ _) (fun log read item member => ?_) fun _ _ => id
  · refine follows_bind (fun _ => known) (follows_call (fun log read frame member => ?_)
      fun log read _ => read.after _) (fun _ => ?_) fun _ _ _ => trivial
    · obtain ⟨item, inItems, rfl⟩ := List.mem_map.mp member
      obtain ⟨row, inRows, isItem⟩ := List.mem_filterMap.mp inItems
      obtain ⟨rfl, isPayload⟩ := chatroomRow_eq isItem
      exact ⟨item.1, item.2, read item inItems, isPayload, rfl⟩
    refine follows_bind (fun result log => known log ∧ ∀ results, result = .ok (some results) →
        (⟨.syncResult, .ok (some results)⟩ : Done) ∈ log)
      (follows_call (fun _ _ => trivial) fun log read result => ⟨read.after _, fun results isResults => ?_⟩)
      (fun results => ?_) fun _ _ _ => trivial
    · rw [isResults]
      exact List.mem_cons_self
    cases results with
    | none => exact follows_pure fun _ _ => trivial
    | some results =>
        exact (onResult_follows results _).weaken (fun log holds => ⟨holds.2 results rfl, holds.1⟩) fun _ _ => id
  · obtain ⟨row, inRows, isItem⟩ := List.mem_filterMap.mp member
    obtain ⟨rfl, _⟩ := chatroomRow_eq isItem
    exact ⟨rows, read rows rfl, inRows⟩

theorem replay_follows (items : List (Row × DmQueuePayload))
    (kinds : ∀ item ∈ items, item.1.item.payload = .dm item.2) :
    Follows (service owner) permits law .drainDms (AllRead items) (replay items) fun _ _ => True := by
  induction items with
  | nil => exact follows_pure fun _ _ => trivial
  | cons item rest ih =>
      obtain ⟨row, payload⟩ := item
      have isPayload : row.item.payload = .dm payload := kinds _ List.mem_cons_self
      let read (log : Log Op Op.Res) : Prop := AllRead ((row, payload) :: rest) log
      have next : Follows (service owner) permits law .drainDms read (replay rest) fun _ _ => True :=
        (ih fun item member => kinds item (List.mem_cons_of_mem _ member)).weaken
          (fun log holds item member => holds item (List.mem_cons_of_mem _ member)) fun _ _ => id
      unfold replay
      refine follows_bind (fun result log => read log ∧ ∀ cid, result = .ok cid →
          (⟨.directMessage row.item payload, .ok cid⟩ : Done) ∈ log)
        (follows_call (fun log holds => ?_) fun log holds result => ⟨holds.after _, fun cid isId => ?_⟩)
        (fun cid => ?_) fun _ _ _ => trivial
      · exact ⟨isPayload, row, holds _ List.mem_cons_self, rfl⟩
      · rw [isId]
        exact List.mem_cons_self
      let sent (log : Log Op Op.Res) : Prop :=
        read log ∧ (⟨.directMessage row.item payload, .ok cid⟩ : Done) ∈ log
      refine Follows.weaken (?_ : Follows _ _ _ _ sent _ _) (fun log holds => ⟨holds.1, holds.2 cid rfl⟩) fun _ _ => id
      have stays : ∀ x log, sent log → sent (x :: log) :=
        fun x log holds => ⟨holds.1.after x, List.mem_cons_of_mem _ holds.2⟩
      refine follows_bind (fun result log => sent log ∧ ∀ ack, result = .ok (some ack) →
          (⟨.ack cid, .ok (some ack)⟩ : Done) ∈ log)
        (follows_call (fun _ _ => trivial) fun log holds result => ⟨stays _ _ holds, fun ack isAck => ?_⟩)
        (fun found => ?_) fun _ _ _ => trivial
      · rw [isAck]
        exact List.mem_cons_self
      let acked (log : Log Op Op.Res) : Prop :=
        sent log ∧ ∀ ack, found = some ack → (⟨.ack cid, .ok (some ack)⟩ : Done) ∈ log
      refine Follows.weaken (?_ : Follows _ _ _ _ acked _ _) (fun log holds => ⟨holds.1, fun ack isAck =>
        holds.2 ack (by rw [isAck])⟩) fun _ _ => id
      refine follows_bind (fun _ => acked) (confirm_follows (fun x log holds => ?_)
        (fun log holds => holds.1.1 _ List.mem_cons_self) fun ack isAck settled log holds => ?_)
        (fun _ => next.weaken (fun _ holds => holds.1.1) fun _ _ => id) fun _ _ _ => trivial
      · exact ⟨stays x log holds.1, fun ack isAck => List.mem_cons_of_mem _ (holds.2 ack isAck)⟩
      · exact .acked payload cid ack holds.1.2 (holds.2 ack isAck) settled

theorem drainDms_follows : Follows (service owner) permits law .drainDms (fun log => log = []) drainDms
    fun _ _ => True := by
  refine follows_bind (fun result log => ∀ rows, result = .ok rows → (⟨.getAll, .ok rows⟩ : Done) ∈ log)
    (follows_call (fun _ _ => trivial) fun log _ result rows isRows => ?_) (fun rows => ?_) fun _ _ _ => trivial
  · rw [isRows]
    exact List.mem_cons_self
  refine (replay_follows (rows.filterMap dmRow) fun item member => ?_).weaken (fun log read item member => ?_)
    fun _ _ => id
  · obtain ⟨row, inRows, isItem⟩ := List.mem_filterMap.mp member
    obtain ⟨rfl, isPayload⟩ := dmRow_eq isItem
    exact isPayload
  · obtain ⟨row, inRows, isItem⟩ := List.mem_filterMap.mp member
    obtain ⟨rfl, _⟩ := dmRow_eq isItem
    exact ⟨rows, read rows rfl, inRows⟩

theorem flushItems_follows (token : Nat) (rows : List Row) :
    Follows (service owner) permits law .flushOutbox (fun log => ∀ row ∈ rows, Read log row)
      (flushItems token rows) fun _ _ => True := by
  induction rows with
  | nil => exact follows_pure fun _ _ => trivial
  | cons row rest ih =>
      let read (log : Log Op Op.Res) : Prop := ∀ row' ∈ row :: rest, Read log row'
      have stays : ∀ x log, read log → read (x :: log) :=
        fun x log holds row' member => (holds row' member).after x
      unfold flushItems
      refine follows_bind (fun result log => read log ∧ ∀ status, result = .ok status →
          (⟨.post token row.item, .ok status⟩ : Done) ∈ log)
        (follows_call (fun log holds => ⟨row, holds row List.mem_cons_self, rfl⟩)
          fun log holds result => ⟨stays _ _ holds, fun status isStatus => ?_⟩)
        (fun status => ?_) fun _ _ _ => trivial
      · rw [isStatus]
        exact List.mem_cons_self
      refine follows_bind (fun _ => read) ?_ (fun _ => ?_) fun _ _ _ => trivial
      · unfold settleRow
        split
        next removed =>
          refine follows_call (fun log holds => ?_) fun log holds _ => stays _ _ holds.1
          exact ⟨row, holds.1 row List.mem_cons_self, rfl, .posted token status (holds.2 status rfl) removed⟩
        · exact follows_throw fun _ holds => holds.1
      · exact ih.weaken (fun log holds row' member => holds row' (List.mem_cons_of_mem _ member)) fun _ _ => id

theorem flushOutbox_follows : Follows (service owner) permits law .flushOutbox (fun log => log = [])
    flushOutbox fun _ _ => True := by
  refine follows_bind (fun _ _ => True)
    (follows_call (fun _ _ => trivial) fun _ _ _ => (trivial : True)) (fun windows => ?_) fun _ _ _ => trivial
  split
  · exact follows_pure fun _ _ => trivial
  refine follows_bind (fun result log => ∀ rows, result = .ok rows → (⟨.getAll, .ok rows⟩ : Done) ∈ log)
    (follows_call (fun _ _ => trivial) fun log _ result rows isRows => ?_) (fun rows => ?_) fun _ _ _ => trivial
  · rw [isRows]
    exact List.mem_cons_self
  dsimp only
  split
  · exact follows_pure fun _ _ => trivial
  let read (log : Log Op Op.Res) : Prop := ∀ row ∈ oldest rows, Read log row
  refine Follows.weaken (?_ : Follows _ _ _ _ read _ _) (fun log answered row member => ?_) fun _ _ => id
  · refine follows_bind (fun _ => read) (follows_call (fun _ _ => trivial)
      fun log holds _ row member => (holds row member).after _) (fun token => ?_) fun _ _ _ => trivial
    exact flushItems_follows token (oldest rows)
  · exact ⟨rows, answered rows rfl, (List.mem_insertionSort _).mp member⟩

theorem service_follows : (service owner).Follows permits law := by
  intro request
  cases request with
  | enqueue item =>
      exact follows_bind (fun _ _ => True) (follows_call (fun _ _ => rfl) fun _ _ _ => trivial)
        (fun _ => follows_pure fun _ _ => trivial) fun _ _ _ => trivial
  | drain => exact drain_follows
  | drainDms => exact drainDms_follows
  | flushOutbox => exact flushOutbox_follows
  | send frame => exact follows_call (fun _ _ => rfl) fun _ _ _ => trivial
  | receive | serve | expire | guard | elsewhere =>
      exact follows_call (fun _ _ => trivial) fun _ _ _ => trivial

end

end Client
