import CipherChat.Rooms.Ledger

/-!
Exactly-once persistence over at-least-once transport: while nothing is deleted, whatever
becomes of Redis and of the replicas, a client id of a room names one row.
-/

namespace Rooms

open Async

namespace Event

/-- The room, the client id, the row and the number of a successful send. -/
structure Acknowledges (e : Event) (roomId : UUID) (clientId : Option UUID) (id seq : Nat) :
    Prop where
  target : e.call.target = some (roomId, clientId)
  success : ∃ response, e.op = .respond response ∧ response.success = some (id, seq)

end Event

/-- Anything but a deletion. -/
def Call.keeps : Call → Bool
  | .delete .. | .sweepExpired => false
  | _ => true

section Step

variable {permits : History → Event → Prop} {j : History} {e : Event}

/-- Only a call to delete removes rows. -/
theorem mem_messages_of_keeps (performs : j.Performs service permits e)
    (lawful : law e.call (j.log e.thread) e.op) (keeps : e.call.keeps) {m : Message}
    (member : m ∈ j.state.messages) : m ∈ e.after.messages := by
  by_contra gone
  have deletes := (performs_outcome performs).of_not_mem_messages member gone
  obtain ⟨t, request, op, result, before, after⟩ := e
  cases request with
  | delete | sweepExpired => cases keeps
  | _ => rcases deletes with ⟨_, rfl⟩ | ⟨_, rfl⟩ <;> cases lawful

/-- A row that a send has found or committed. -/
theorem mem_of_after {roomId : UUID} {clientId : Option UUID} (kept : Kept j)
    (performs : j.Performs service permits e) (sending : Sending j e.thread roomId clientId)
    (stays : ∀ m ∈ j.state.messages, m ∈ e.after.messages)
    (known : ∀ m, (progress roomId (j.log e.thread)).seen = some m ∨
      (progress roomId (j.log e.thread)).committed = some m → m ∈ j.state.messages)
    {m : Message} (holds : ((progress roomId (j.log e.thread)).after roomId e.logged).seen = some m ∨
      ((progress roomId (j.log e.thread)).after roomId e.logged).committed = some m) :
    m ∈ e.after.messages := by
  have outcome := performs_outcome performs
  have running : e.thread ∉ j.state.stopped := performs.before ▸ Exec.running performs.exec
  have before := kept.sends _ _ _ sending
  generalize progress roomId (j.log e.thread) = p at before known holds
  obtain ⟨t, request, op, result, s, s'⟩ := e
  rcases holds with seen | committed
  · rcases Progress.after_seen seen with old | ⟨id, isOp⟩ | ⟨room, cid, isOp⟩
    · exact stays m (known m (.inl old))
    · obtain ⟨rfl, isResult⟩ := Sigma.mk.inj isOp
      obtain rfl := eq_of_heq isResult
      exact stays m ((outcome.of_reads trivial).2 m rfl).1
    · obtain ⟨rfl, isResult⟩ := Sigma.mk.inj isOp
      obtain rfl := eq_of_heq isResult
      exact stays m ((outcome.of_reads trivial).2.1 m rfl).1
  · rcases Progress.after_committed committed with old | ⟨isOp, inserted⟩
    · exact stays m (known m (.inr old))
    · obtain ⟨rfl, isResult⟩ := Sigma.mk.inj isOp
      obtain rfl := eq_of_heq isResult
      obtain ⟨m', isOpen, isAfter⟩ := outcome.commit_ok
      obtain rfl := Option.some.inj ((before.inserted m inserted running).symm.trans isOpen)
      simp only at isAfter
      rw [isAfter]
      exact List.mem_cons_self

end Step

/-- Rows found or committed, and rows acknowledged, are in the table. -/
structure Delivered (j : History) : Prop where
  kept : Kept j
  keeps : ∀ t request, j.calls t = some request → request.keeps
  known : ∀ t roomId clientId, Sending j t roomId clientId → ∀ m,
    (progress roomId (j.log t)).seen = some m ∨ (progress roomId (j.log t)).committed = some m →
      m ∈ j.state.messages
  acknowledged : ∀ e ∈ j.past, ∀ roomId clientId id seq,
    Event.Acknowledges e roomId clientId id seq → ∃ m ∈ j.state.messages,
      m.id = id ∧ m.sequenceNumber = seq ∧ m.chatroomId = roomId ∧ m.clientMessageId = clientId

theorem Delivered.record {permits : History → Event → Prop} {j : History} {e : Event}
    (delivered : Delivered j) (performs : j.Performs service permits e)
    (lawful : law e.call (j.log e.thread) e.op) : Delivered (j.record e) := by
  have stays : ∀ m ∈ j.state.messages, m ∈ e.after.messages := fun m =>
    mem_messages_of_keeps performs lawful (delivered.keeps _ _ performs.running)
  refine ⟨delivered.kept.record performs lawful, delivered.keeps, fun t roomId clientId sending m => ?_,
    fun e' member roomId clientId id seq acknowledges => ?_⟩
  · have before : Sending j t roomId clientId := sending
    by_cases mine : t = e.thread
    · subst mine
      rw [progress_self]
      exact mem_of_after delivered.kept performs before stays (delivered.known _ _ _ before)
    · rw [Journal.record_log_of_ne (Ne.symm mine)]
      exact fun known => stays m (delivered.known t roomId clientId before m known)
  · rcases List.mem_cons.mp member with rfl | old
    · obtain ⟨target, response, isOp, success⟩ := acknowledges
      have sending : Sending j e'.thread roomId clientId := ⟨e'.call, performs.running, target⟩
      have lawful := sending.lawful performs lawful
      rw [isOp] at lawful
      obtain ⟨m, isId, isSeq, holds⟩ := lawful.2.2 id seq success
      have sends := delivered.kept.sends _ _ _ sending
      refine ⟨m, stays m (delivered.known _ _ _ sending m holds), isId, isSeq, ?_⟩
      rcases holds with seen | committed
      · exact (sends.seen m seen).2
      · obtain ⟨_, room, named, _⟩ := sends.committed m committed
        exact ⟨room, named⟩
    · obtain ⟨m, member, rest⟩ := delivered.acknowledged e' old roomId clientId id seq acknowledges
      exact ⟨m, stays m member, rest⟩

theorem Delivered.begin {j : History} {t : Nat} {request : Call} (delivered : Delivered j)
    (idle : j.calls t = none) (unused : j.log t = []) (keeps : request.keeps) :
    Delivered (j.begin t request) := by
  refine ⟨delivered.kept.begin idle unused, fun u request' running => ?_,
    fun u roomId clientId sending m => ?_, delivered.acknowledged⟩
  · rcases Journal.of_calls_begin running with ⟨_, rfl⟩ | before
    · exact keeps
    · exact delivered.keeps u request' before
  · obtain ⟨request', running, target⟩ := sending
    rcases Journal.of_calls_begin running with ⟨rfl, _⟩ | before
    · rw [Journal.begin_log, unused]
      intro known
      simp [progress] at known
    · exact delivered.known u roomId clientId ⟨request', before, target⟩ m

section Runs

variable {permits : History → Event → Prop} {s : Server} {j : History}

theorem reaches_delivered (fresh : Fresh s)
    (reaches : service.Reaches (fun _ request => request.keeps) permits s j) : Delivered j := by
  refine reaches.invariant Delivered service_follows ⟨fresh.kept, ?_, ?_, ?_⟩
    (fun _ _ _ delivered idle unused keeps => delivered.begin idle unused keeps)
    fun _ _ delivered performs lawful => delivered.record performs lawful
  · intro t request running
    cases running
  · rintro t roomId clientId ⟨_, running, _⟩
    cases running
  · intro e old
    cases old

theorem Tidy.pairwise_messages {s : Server} (tidy : Tidy s) : s.messages.Pairwise Apart :=
  (List.pairwise_append.mp tidy.apart).1

theorem length_le_one {α : Type} {R : α → α → Prop} {l : List α} (pairwise : l.Pairwise R)
    (never : ∀ a ∈ l, ∀ b ∈ l, ¬R a b) : l.length ≤ 1 := by
  match l with
  | [] => exact Nat.zero_le _
  | [_] => exact le_rfl
  | a :: b :: rest =>
      have related := List.rel_of_pairwise_cons pairwise List.mem_cons_self
      exact absurd related (never a List.mem_cons_self b (by simp))

/-- One row, one number and one answer to each client id of a room. -/
structure ExactlyOnce (j : History) : Prop where
  one_row : ∀ roomId cid, (j.state.messages.filter fun m =>
    m.chatroomId = roomId ∧ m.clientMessageId = some cid).length ≤ 1
  one_number : ∀ roomId, (j.state.inRoom roomId).Pairwise fun m m' =>
    m.sequenceNumber ≠ m'.sequenceNumber
  one_answer : ∀ roomId cid, ∀ e ∈ j.past, ∀ e' ∈ j.past, ∀ id seq id' seq',
    Event.Acknowledges e roomId (some cid) id seq →
    Event.Acknowledges e' roomId (some cid) id' seq' →
      id = id' ∧ seq = seq' ∧ ∃ m ∈ j.state.messages, m.id = id ∧ m.sequenceNumber = seq ∧
        m.chatroomId = roomId ∧ m.clientMessageId = some cid

theorem exactly_once (fresh : Fresh s)
    (reaches : service.Reaches (fun _ request => request.keeps) permits s j) : ExactlyOnce j := by
  have delivered := reaches_delivered fresh reaches
  have tidy := delivered.kept.tidy
  refine ⟨fun roomId cid => ?_, fun roomId => ?_,
    fun roomId cid e member e' member' id seq id' seq' acknowledges acknowledges' => ?_⟩
  · refine length_le_one (tidy.pairwise_messages.filter _) fun m member m' member' apart => ?_
    have here : m.chatroomId = roomId ∧ m.clientMessageId = some cid := by
      simpa using (List.mem_filter.mp member).2
    have here' : m'.chatroomId = roomId ∧ m'.clientMessageId = some cid := by
      simpa using (List.mem_filter.mp member').2
    exact apart.2 (by simp [conflict, here, here'])
  · refine (tidy.pairwise_messages.filter fun m => m.chatroomId = roomId).imp_of_mem ?_
    intro m m' member member' apart same
    have room := (List.mem_filter.mp member).2
    have room' := (List.mem_filter.mp member').2
    simp only [decide_eq_true_eq] at room room'
    exact apart.2 (by simp [conflict, room, room', same])
  · obtain ⟨m, inTable, isId, isSeq, room, named⟩ :=
      delivered.acknowledged e member roomId (some cid) id seq acknowledges
    obtain ⟨m', inTable', isId', isSeq', room', named'⟩ :=
      delivered.acknowledged e' member' roomId (some cid) id' seq' acknowledges'
    have same : m = m' := by
      refine tidy.eq_of_conflict (Server.mem_rows_of_mem_messages inTable)
        (Server.mem_rows_of_mem_messages inTable') ?_
      simp [conflict, room, room', named, named']
    subst same
    exact ⟨isId.symm.trans isId', isSeq.symm.trans isSeq', m, inTable, isId, isSeq, room, named⟩

end Runs

section Examples

/-- A server with one public room and one user. -/
def blank : Server where
  chatrooms := [(1, ⟨false⟩)]
  members := []
  users := [(1, [])]
  messages := []
  pending := []
  nextId := 1
  redis _ := none
  stopped := []

theorem blank_fresh : Fresh blank :=
  ⟨rfl, rfl, fun _ => rfl⟩

/-- A text of the user for the room. -/
def post (clientId : UUID) : Call :=
  .post 1 1 {
    message := [0x68]
    clientMessageId := some clientId
    replyTo := none
    expiresIn := none
    mentions := none }

def follow (allows : Call → Bool) (plan : List (Move Call Answer)) : Option History :=
  ((service.schedule perform allows).follow (Service.unstarted blank) plan).map Config.state

theorem follow_reaches {allows : Call → Bool} {admits : History → Call → Prop}
    {plan : List (Move Call Answer)} {j : History}
    (admitted : ∀ j request, allows request → admits j request)
    (followed : follow allows plan = some j) :
    service.Reaches admits (fun _ _ => True) blank j := by
  obtain ⟨config, ran, rfl⟩ := Option.map_eq_some_iff.mp followed
  have performs : ∀ t s op a result s', perform t s op a = some (result, s') →
      service.exec t s op result s' := fun _ _ _ a _ _ performed => ⟨a, performed⟩
  exact Service.reaches_follow admitted performs (fun _ _ => trivial) ran

/-- The row and the number each send was answered with, the last one first. -/
def acknowledged (j : History) : List (Nat × Nat) :=
  j.past.filterMap fun e => match e.op with
    | .respond response => response.success
    | _ => none

/-- A send, and the same send again. -/
def retried : Option History :=
  follow Call.keeps (.start 0 (post 7) :: steps 0 17 ++ .start 1 (post 7) :: steps 1 6)

theorem retried_acknowledged : retried.map acknowledged = some [(1, 1), (1, 1)] := by
  decide +kernel

theorem exactly_once_retried :
    ∃ j : History, acknowledged j = [(1, 1), (1, 1)] ∧ ExactlyOnce j := by
  obtain ⟨j, ran, acknowledged⟩ := Option.map_eq_some_iff.mp retried_acknowledged
  exact ⟨j, acknowledged, exactly_once blank_fresh (follow_reaches (fun _ _ keeps => keeps) ran)⟩

end Examples

end Rooms
