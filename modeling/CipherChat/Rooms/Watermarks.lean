import CipherChat.Rooms.Readings
import CipherChat.Rooms.Table
import Mathlib.Order.MinMax

/-!
What a member has not read: the messages of others above a watermark that a request to mark
messages as read raises as far as it says, and a message of the member's own to its number.
-/

namespace Chatrooms

open Async ReadCommitted
open Rooms (UUID Message)

section Counts

variable (s : Server) (roomId userId : UUID)

/-- `coalesce(r.last_read_sequence, 0)` -/
def Server.watermark : Int :=
  match s.readStates.committed.get (inRoom roomId userId) with
  | some r => r.lastReadSequence
  | none => 0

/-- The messages that `unreadByRooms` counts for a room. -/
def Server.unread : List Message :=
  (s.messaging.inRoom roomId).filter fun m =>
    m.senderId ≠ userId && s.watermark roomId userId < m.sequenceNumber

end Counts

/-- What was in the table after some events. -/
def persisted (s : Server) : List Event → List Message
  | [] => s.messaging.messages
  | e :: _ => e.after.messaging.messages

/-- Each request has been issued before its first operation, when certain messages were there. -/
def IssuedAt (s : Server) (j : History) (issued : Nat → List Message) : Prop :=
  ∀ t, ∃ later earlier, j.past = later ++ earlier ∧ (∀ e ∈ earlier, e.thread ≠ t) ∧
    issued t = persisted s earlier

/-- The commit by which a request raises a watermark. -/
def Event.raises (e : Event) (roomId userId : UUID) : Prop :=
  e.op = .backend .commit ∧ ∃ r, e.before.readStates.held (inRoom roomId userId) = some (e.thread, some r) ∧
    e.after.readStates.committed.get (inRoom roomId userId) = some r

/-- The commit by which a message is persisted. -/
def Event.persists (e : Event) (m : Message) : Prop :=
  m ∈ e.after.messaging.messages ∧ m ∉ e.before.messaging.messages

/-- A request of the user that was issued when the message was there reads up to its number. -/
structure Covers (issued : Nat → List Message) (j : History) (userId : UUID) (m : Message) (t : Nat) :
    Prop where
  own : ∃ request n, j.calls t = some request ∧ ReadsTo request (j.log t) userId m.chatroomId n ∧
    (m.sequenceNumber : Int) ≤ n
  there : m ∈ issued t

/-- Such a request has committed, and with it a watermark that reaches the message. -/
def Covered (issued : Nat → List Message) (j : History) (userId : UUID) (m : Message) : Prop :=
  ∃ t, Covers issued j userId m t ∧ ∃ e ∈ j.past, e.thread = t ∧ Event.raises e m.chatroomId userId ∧
    (m.sequenceNumber : Int) ≤ e.after.watermark m.chatroomId userId

/-- In every run from `s` whose operations are those `permits`, a watermark never decreases and is
never above the highest number in the room, and a message of another member is unread until it
is covered. -/
def NothingLost (s : Server) (permits : (Nat → List Message) → History → Event → Prop) : Prop :=
  ∀ issued j, service.Reaches (fun _ _ => True) (permits issued) s j → IssuedAt s j issued →
    ∀ roomId userId, (∀ e ∈ j.past, e.before.watermark roomId userId ≤ e.after.watermark roomId userId) ∧
      j.state.watermark roomId userId ≤ j.state.messaging.maxSequence roomId ∧
        ∀ m ∈ j.state.messaging.inRoom roomId, m.senderId ≠ userId →
          m ∈ j.state.unread roomId userId ∨ Covered issued j userId m

/-- The number that a request to mark messages as read names is that of a message which is there,
and not negative where the user has read nothing; no message of another member that a request reads
up to is persisted between its issue and its commit; and what a committed request of another member
reads up to is not persisted any more. -/
structure InTime (issued : Nat → List Message) (j : History) (e : Event) : Prop where
  bounded : ∀ roomId userId upTo, Event.raises e roomId userId →
    e.call = .markRead roomId userId (some upTo) → upTo ≤ e.before.messaging.maxSequence roomId ∧
      (0 ≤ upTo ∨ (e.before.readStates.committed.get (inRoom roomId userId)).isSome)
  since : ∀ roomId userId n, Event.raises e roomId userId →
    ReadsTo e.call (j.log e.thread) userId roomId n → ∀ m ∈ e.before.messaging.inRoom roomId,
      m.senderId ≠ userId → (m.sequenceNumber : Int) ≤ n → m ∈ issued e.thread
  ahead : ∀ m, Event.persists e m → ∀ x ∈ j.past, ∀ userId n, userId ≠ m.senderId →
    Event.raises x m.chatroomId userId → ReadsTo x.call (j.log x.thread) userId m.chatroomId n →
      n < m.sequenceNumber

/-- Not above what is there, or what the transaction is sending. -/
def Within (j : History) (t : Nat) (roomId : UUID) (sequence : Int) : Prop :=
  sequence ≤ j.state.messaging.maxSequence roomId ∨
    ∃ m, (t, m) ∈ j.state.messaging.pending ∧ m.chatroomId = roomId ∧ sequence ≤ m.sequenceNumber

/-- The request of a thread reads up to a number, which it names or knows to be there. -/
structure ReadsUpTo (j : History) (t : Nat) (roomId userId : UUID) (n : Int) : Prop where
  reads : ∃ request, j.calls t = some request ∧ ReadsTo request (j.log t) userId roomId n
  known : j.calls t = some (.markRead roomId userId (some n)) ∨ 0 ≤ n ∧ Within j t roomId n

/-- What every run in time keeps. -/
structure Unlost (issued : Nat → List Message) (j : History) : Prop where
  rising : ∀ e ∈ j.past, ∀ roomId userId,
    e.before.watermark roomId userId ≤ e.after.watermark roomId userId
  bounded : ∀ roomId userId, j.state.watermark roomId userId ≤ j.state.messaging.maxSequence roomId
  covered : ∀ m ∈ j.state.messaging.messages, ∀ userId, m.senderId ≠ userId →
    (m.sequenceNumber : Int) ≤ j.state.watermark m.chatroomId userId → Covered issued j userId m
  sent : ∀ t m, (t, m) ∈ j.state.messaging.pending →
    0 < m.sequenceNumber ∧ ∃ request, j.calls t = some request ∧
      request.sends = some (m.senderId, m.chatroomId)
  latest : ∀ t roomId highest, (⟨.backend (.maxSequence roomId), .ok highest⟩ : Done) ∈ j.log t →
    highest ≤ j.state.messaging.maxSequence roomId
  raises : ∀ t roomId userId version, j.state.readStates.held (inRoom roomId userId) = some (t, version) →
    ∃ r, version = some r ∧ (∀ old, j.state.readStates.committed.get (inRoom roomId userId) = some old →
      old.lastReadSequence ≤ r.lastReadSequence) ∧
        ((∃ old, j.state.readStates.committed.get (inRoom roomId userId) = some old ∧
          old.lastReadSequence = r.lastReadSequence) ∨ ReadsUpTo j t roomId userId r.lastReadSequence)
  origin : ∀ roomId userId r, j.state.readStates.committed.get (inRoom roomId userId) = some r →
    ∃ x ∈ j.past, Event.raises x roomId userId ∧
      ReadsTo x.call (j.log x.thread) userId roomId r.lastReadSequence

section Sequences

variable {s s' : Rooms.Server} {roomId : UUID} {m : Message}

theorem foldr_le {rows : List Message} {bound : Nat} (below : ∀ m ∈ rows, m.sequenceNumber ≤ bound) :
    rows.foldr (fun m => max m.sequenceNumber) 0 ≤ bound := by
  induction rows with
  | nil => exact Nat.zero_le _
  | cons first rest ih =>
      rw [List.foldr_cons]
      exact max_le (below first List.mem_cons_self)
        (ih fun m member => below m (List.mem_cons_of_mem _ member))

/-- Nothing is deleted, so the highest number only grows. -/
theorem maxSequence_mono (grows : s.messages ⊆ s'.messages) :
    s.maxSequence roomId ≤ s'.maxSequence roomId := by
  refine foldr_le fun m member => ?_
  obtain ⟨stored, rfl⟩ := Rooms.Server.mem_inRoom.mp member
  exact Rooms.Server.le_maxSequence (grows stored)

end Sequences

section Outcomes

variable {t u : Nat} {s s' : Server} {op : Op} {result : op.Res}

theorem Outcome.held_readState (outcome : Outcome t s op result s') {k : ℕ ×ₗ ℕ}
    {version : Option RoomReadState} (isHeld : s'.readStates.held k = some (u, version)) :
    s.readStates.held k = some (u, version) ∨ u = t ∧ ∃ userId roomId sequence,
      op.advances = some (userId, roomId, sequence) ∧ inRoom roomId userId = k ∧
        version = some (.advanced userId roomId sequence (s.readStates.view t k)) := by
  cases outcome with
  | advanced advances _ =>
      rcases Database.held_of_write isHeld with old | ⟨isSelf, isKey, same⟩
      · exact .inl old
      · obtain rfl : inRoom _ _ = k := isKey
        exact .inr ⟨isSelf, _, _, _, advances, rfl, same⟩
  | committed => exact .inl (Database.held_of_commit isHeld).1
  | closed => exact .inl (Database.held_of_rollback isHeld).1
  | _ => exact .inl isHeld

/-- A message is pending once its transaction has saved it. -/
theorem Outcome.mem_pending (outcome : Outcome t s op result s') (own : op.foreign = false) {m : Message}
    (pends : (u, m) ∈ s'.messaging.pending) : (u, m) ∈ s.messaging.pending ∨
      u = t ∧ op = .backend (.save m.toDraft) := by
  cases outcome with
  | saved m' messaging isDraft _ isPending =>
      rw [isPending] at pends
      rcases List.mem_cons.mp pends with isNew | old
      · obtain ⟨rfl, rfl⟩ := Prod.mk.inj isNew
        exact .inr ⟨rfl, by rw [isDraft]⟩
      · exact .inl old
  | messaged _ _ _ same => exact .inl (same ▸ pends)
  | foreign _ isForeign => cases own.symm.trans isForeign
  | committed | closed => exact .inl (mem_close.mp pends).1
  | _ => exact .inl pends

/-- While its transaction goes on a message stays pending. -/
theorem Outcome.pending_stays (outcome : Outcome t s op result s') (own : op.foreign = false)
    (going : u = t → op.ends = false) {m : Message} (pends : (u, m) ∈ s.messaging.pending) :
    (u, m) ∈ s'.messaging.pending := by
  by_cases mine : u = t
  · cases outcome with
    | saved m' messaging isDraft _ isPending =>
        rw [isPending]
        exact List.mem_cons_of_mem _ pends
    | messaged _ _ _ same => exact same ▸ pends
    | foreign _ isForeign => cases own.symm.trans isForeign
    | committed => cases going mine
    | closed ends => cases (going mine).symm.trans ends
    | _ => exact pends
  · exact (outcome.pending_other own mine).mpr pends

theorem watermark_of_row {roomId userId : UUID} {r : RoomReadState}
    (here : s.readStates.committed.get (inRoom roomId userId) = some r) :
    s.watermark roomId userId = r.lastReadSequence := by
  rw [Server.watermark, here]

/-- A row that a transaction sees is one that it has raised, or that of the table. -/
theorem row_of_view {k : ℕ ×ₗ ℕ} {old : RoomReadState} (seen : s.readStates.view t k = some old) :
    s.readStates.held k = some (t, some old) ∨ s.readStates.committed.get k = some old := by
  by_cases isHeld : ∃ version, s.readStates.held k = some (t, version)
  · obtain ⟨version, isHeld⟩ := isHeld
    rw [Database.view_of_held isHeld] at seen
    exact .inl (seen ▸ isHeld)
  · rw [Database.view_of_not_held fun version mine => isHeld ⟨version, mine⟩] at seen
    exact .inr seen

theorem watermark_of_get {roomId userId : UUID}
    (same : s'.readStates.committed.get (inRoom roomId userId) =
      s.readStates.committed.get (inRoom roomId userId)) :
    s'.watermark roomId userId = s.watermark roomId userId := by
  rw [Server.watermark, same]
  rfl

/-- A watermark changes when the transaction that has raised it commits. -/
theorem Outcome.readState (outcome : Outcome t s op result s') (k : ℕ ×ₗ ℕ) :
    s'.readStates.committed.get k = s.readStates.committed.get k ∨
      op = .backend .commit ∧ ∃ version, s.readStates.held k = some (t, version) ∧
        s'.readStates.committed.get k = version := by
  rcases outcome.committed_eq with ⟨isOp, isAfter⟩ | ⟨_, _, same⟩
  · by_cases isHeld : ∃ version, s.readStates.held k = some (t, version)
    · obtain ⟨version, isHeld⟩ := isHeld
      refine .inr ⟨isOp, version, isHeld, ?_⟩
      rw [isAfter]
      exact Database.get_commit.trans (Database.view_of_held isHeld)
    · exact .inl (outcome.readStates.get_of_not_held fun version mine => isHeld ⟨version, mine⟩)
  · exact .inl (by rw [same])

theorem Outcome.mem_messages (outcome : Outcome t s op result s') (own : op.foreign = false) {m : Message}
    (stored : m ∈ s'.messaging.messages) : m ∈ s.messaging.messages ∨
      op = .backend .commit ∧ s' = s.commit t ∧ (t, m) ∈ s.messaging.pending := by
  rcases outcome.messages own with same | ⟨isOp, rfl⟩
  · exact .inl (same ▸ stored)
  · rcases List.mem_append.mp stored with isNew | old
    · obtain ⟨⟨u, m'⟩, member, rfl⟩ := List.mem_map.mp isNew
      obtain ⟨pends, isSelf⟩ := List.mem_filter.mp member
      obtain rfl : u = t := by simpa using isSelf
      exact .inr ⟨isOp, rfl, pends⟩
    · exact .inl old

theorem mem_commit {m : Message} (pends : (t, m) ∈ s.messaging.pending) :
    m ∈ (s.commit t).messaging.messages := by
  refine List.mem_append_left _ (List.mem_map.mpr ⟨(t, m), List.mem_filter.mpr ⟨pends, ?_⟩, rfl⟩)
  simp

/-- Who sends a message reads in its room for its sender. -/
theorem reader_of_sends {request : Call} {log : Log Op Op.Res} {senderId userId roomId roomId' : UUID} {n : Int}
    (isSend : request.sends = some (senderId, roomId')) (reads : ReadsTo request log userId roomId n) :
    userId = senderId := by
  cases reads with
  | named _ isRequest | latest _ isRequest =>
      rw [isRequest] at isSend
      cases isSend
  | sent _ _ isSend' => exact (Prod.mk.inj (Option.some.inj (isSend'.symm.trans isSend))).1

end Outcomes

section Later

variable {issued : Nat → List Message} {j : History} {e : Event} {userId roomId : UUID} {m : Message} {t : Nat}

theorem ReadsTo.later {request : Call} {n : Int} (reads : ReadsTo request (j.log t) userId roomId n)
    (e : Event) : ReadsTo request ((j.record e).log t) userId roomId n := by
  by_cases mine : e.thread = t
  · subst mine
    rw [Journal.record_log_self]
    exact reads.cons _
  · rw [Journal.record_log_of_ne mine]
    exact reads

theorem Covers.later (covers : Covers issued j userId m t) (e : Event) :
    Covers issued (j.record e) userId m t := by
  obtain ⟨⟨request, n, running, reads, reaches⟩, there⟩ := covers
  exact ⟨⟨request, n, running, reads.later e, reaches⟩, there⟩

theorem Covered.later (covered : Covered issued j userId m) (e : Event) :
    Covered issued (j.record e) userId m := by
  obtain ⟨t, covers, e', member, raises⟩ := covered
  exact ⟨t, covers.later e, e', List.mem_cons_of_mem _ member, raises⟩

theorem Covered.begun (covered : Covered issued j userId m) {t : Nat} {call : Call} (idle : j.calls t = none) :
    Covered issued (j.begin t call) userId m := by
  obtain ⟨u, ⟨⟨request, n, running, reads, reaches⟩, there⟩, raises⟩ := covered
  exact ⟨u, ⟨⟨request, n, Journal.calls_begin idle running, reads, reaches⟩, there⟩, raises⟩

theorem ReadsUpTo.begun {n : Int} (reading : ReadsUpTo j u roomId userId n) {call : Call} (idle : j.calls t = none) :
    ReadsUpTo (j.begin t call) u roomId userId n := by
  obtain ⟨⟨request, running, reads⟩, known⟩ := reading
  exact ⟨⟨request, Journal.calls_begin idle running, reads⟩, known.imp_left (Journal.calls_begin idle)⟩

end Later

section Step

variable {issued : Nat → List Message} {j : History} {e : Event} (unlost : Unlost issued j)
  (performs : j.Performs service (fun j e => InTime issued j e ∧ heeds e.call (j.log e.thread) e.op) e)
  (justified : Justified e.thread j e.op)

include performs in
/-- A request whose commit raises a watermark holds the row until then. -/
theorem raises_of_changed {roomId userId : UUID} (unlost : Unlost issued j)
    (changed : e.after.readStates.committed.get (inRoom roomId userId) ≠
      j.state.readStates.committed.get (inRoom roomId userId)) :
    Event.raises e roomId userId ∧ ∃ r, e.after.readStates.committed.get (inRoom roomId userId) = some r ∧
      (∀ old, j.state.readStates.committed.get (inRoom roomId userId) = some old →
        old.lastReadSequence ≤ r.lastReadSequence) ∧
      ((∃ old, j.state.readStates.committed.get (inRoom roomId userId) = some old ∧
        old.lastReadSequence = r.lastReadSequence) ∨ ReadsUpTo j e.thread roomId userId r.lastReadSequence) := by
  have outcome := performs_outcome performs
  obtain ⟨isOp, version, isHeld, here⟩ := (outcome.readState _).resolve_left changed
  obtain ⟨r, rfl, known⟩ := unlost.raises _ _ _ _ isHeld
  exact ⟨⟨isOp, r, performs.before ▸ isHeld, here⟩, r, here, known⟩

include unlost performs

theorem rising_record (roomId userId : UUID) :
    j.state.watermark roomId userId ≤ e.after.watermark roomId userId := by
  by_cases same : e.after.readStates.committed.get (inRoom roomId userId) =
      j.state.readStates.committed.get (inRoom roomId userId)
  · exact (watermark_of_get same).ge
  obtain ⟨raises, r, here, above, source⟩ := raises_of_changed performs unlost same
  rw [watermark_of_row here]
  cases before : j.state.readStates.committed.get (inRoom roomId userId) with
  | some old =>
      rw [watermark_of_row before]
      exact above old before
  | none =>
      rw [Server.watermark, before]
      obtain ⟨_, isSome, _⟩ | ⟨⟨request, running, reads⟩, named | ⟨positive, _⟩⟩ := source
      · cases before.symm.trans isSome
      · have isCall := Option.some.inj (performs.running.symm.trans named)
        have bounds := performs.permitted.1.bounded roomId userId _ raises isCall
        rw [performs.before, before] at bounds
        exact bounds.2.resolve_right (by simp)
      · exact positive

include justified

theorem bounded_record (roomId userId : UUID) :
    e.after.watermark roomId userId ≤ e.after.messaging.maxSequence roomId := by
  have outcome := performs_outcome performs
  have grows : j.state.messaging.maxSequence roomId ≤ e.after.messaging.maxSequence roomId :=
    maxSequence_mono (outcome.messages_subset justified.own)
  have below := (unlost.bounded roomId userId).trans (Int.ofNat_le.mpr grows)
  by_cases same : e.after.readStates.committed.get (inRoom roomId userId) =
      j.state.readStates.committed.get (inRoom roomId userId)
  · exact (watermark_of_get same).trans_le below
  obtain ⟨raises, r, here, _, source⟩ := raises_of_changed performs unlost same
  rw [watermark_of_row here]
  obtain ⟨old, before, isOld⟩ | ⟨_, named | ⟨_, within | ⟨m, pends, rfl, reaches⟩⟩⟩ := source
  · rw [watermark_of_row before, isOld] at below
    exact below
  · have isCall := Option.some.inj (performs.running.symm.trans named)
    have bounds := (performs.permitted.1.bounded roomId userId _ raises isCall).1
    rw [performs.before] at bounds
    exact bounds.trans (Int.ofNat_le.mpr grows)
  · exact within.trans (Int.ofNat_le.mpr grows)
  · rcases outcome.committed_eq with ⟨_, isAfter⟩ | ⟨_, _, unchanged⟩
    · have stored : m ∈ e.after.messaging.messages := isAfter ▸ mem_commit pends
      exact reaches.trans (Int.ofNat_le.mpr (Rooms.Server.le_maxSequence stored))
    · exact absurd (by rw [unchanged]) same

theorem sent_record (t : Nat) (m : Message) (pends : (t, m) ∈ e.after.messaging.pending) :
    0 < m.sequenceNumber ∧ ∃ request, j.calls t = some request ∧
      request.sends = some (m.senderId, m.chatroomId) := by
  have outcome := performs_outcome performs
  rcases outcome.mem_pending justified.own pends with old | ⟨rfl, isOp⟩
  · exact unlost.sent t m old
  · rw [isOp] at justified
    exact justified.2

theorem latest_record (t : Nat) (roomId : UUID) (highest : Nat)
    (found : (⟨.backend (.maxSequence roomId), .ok highest⟩ : Done) ∈ (j.record e).log t) :
    highest ≤ e.after.messaging.maxSequence roomId := by
  have outcome := performs_outcome performs
  have grows : j.state.messaging.maxSequence roomId ≤ e.after.messaging.maxSequence roomId :=
    maxSequence_mono (outcome.messages_subset justified.own)
  by_cases mine : e.thread = t
  · subst mine
    rw [Journal.record_log_self] at found
    rcases List.mem_cons.mp found with isNew | old
    · obtain ⟨t, call, op, result, before, after⟩ := e
      obtain ⟨rfl, same⟩ := Sigma.mk.inj isNew.symm
      obtain rfl := eq_of_heq same
      have exec : Exec t j.state (.backend (.maxSequence roomId)) (.ok highest) after :=
        performs.before ▸ performs.exec
      obtain ⟨answer, effected⟩ := exec.effect_of_ok
      obtain ⟨isHighest, _⟩ := Prod.mk.inj (Option.some.inj effected)
      exact (Except.ok.inj isHighest).symm.le.trans grows
    · exact (unlost.latest _ roomId highest old).trans grows
  · rw [Journal.record_log_of_ne mine] at found
    exact (unlost.latest t roomId highest found).trans grows

omit unlost in
theorem within_record {t : Nat} {roomId : UUID} {sequence : Int} (going : t = e.thread → e.op.ends = false)
    (within : Within j t roomId sequence) : Within (j.record e) t roomId sequence := by
  have outcome := performs_outcome performs
  rcases within with below | ⟨m, pends, isRoom, below⟩
  · exact .inl (below.trans (Int.ofNat_le.mpr (maxSequence_mono (outcome.messages_subset justified.own))))
  · exact .inr ⟨m, outcome.pending_stays justified.own going pends, isRoom, below⟩

omit unlost in
theorem reading_record {t : Nat} {roomId userId : UUID} {n : Int} (going : t = e.thread → e.op.ends = false)
    (reading : ReadsUpTo j t roomId userId n) : ReadsUpTo (j.record e) t roomId userId n := by
  obtain ⟨⟨request, running, reads⟩, known⟩ := reading
  exact ⟨⟨request, running, reads.later e⟩, known.imp_right fun within =>
    ⟨within.1, within_record performs justified going within.2⟩⟩

/-- The number to which a watermark is raised is the one that the request reads up to. -/
theorem reading_of_advances {userId roomId : UUID} {sequence : Int}
    (advances : e.op.advances = some (userId, roomId, sequence)) :
    ReadsUpTo j e.thread roomId userId sequence := by
  have reads := performs.permitted.2
  have running := performs.running
  obtain ⟨t, call, op, result, s, s'⟩ := e
  cases op with
  | advance userId' roomId' sequence' =>
      obtain ⟨rfl, rfl, rfl⟩ := Option.some.inj advances |> Prod.mk.inj |>.imp_right Prod.mk.inj
      refine ⟨⟨call, running, reads⟩, ?_⟩
      cases reads with
      | named _ isRequest => exact .inl (running.trans (congrArg some isRequest))
      | latest highest _ found =>
          exact .inr ⟨Int.natCast_nonneg _, .inl (Int.ofNat_le.mpr (unlost.latest t _ highest found))⟩
      | sent _ _ isSend =>
          obtain ⟨upTo, marks⟩ := justified
          rw [← Option.some.inj (marks.symm.trans running)] at isSend
          cases isSend
  | backend op =>
      cases op with
      | advance userId' roomId' sequence' =>
          obtain ⟨rfl, rfl, rfl⟩ := Option.some.inj advances |> Prod.mk.inj |>.imp_right Prod.mk.inj
          obtain ⟨m, pends, _, isRoom, isNumber⟩ := justified
          exact ⟨⟨call, running, reads⟩, .inr ⟨Int.natCast_nonneg _,
            .inr ⟨m, pends, isRoom, Int.ofNat_le.mpr isNumber.ge⟩⟩⟩
      | _ => cases advances
  | _ => cases advances

theorem raises_record (t : Nat) (roomId userId : UUID) (version : Option RoomReadState)
    (isHeld : e.after.readStates.held (inRoom roomId userId) = some (t, version)) :
    ∃ r, version = some r ∧ (∀ old, e.after.readStates.committed.get (inRoom roomId userId) = some old →
      old.lastReadSequence ≤ r.lastReadSequence) ∧
        ((∃ old, e.after.readStates.committed.get (inRoom roomId userId) = some old ∧
          old.lastReadSequence = r.lastReadSequence) ∨
            ReadsUpTo (j.record e) t roomId userId r.lastReadSequence) := by
  have outcome := performs_outcome performs
  have going (mine : t = e.thread) : e.op.ends = false :=
    Bool.eq_false_iff.mpr fun ends => (outcome.idle ends).readStates _ _ (mine ▸ isHeld)
  have same : e.after.readStates.committed.get (inRoom roomId userId) =
      j.state.readStates.committed.get (inRoom roomId userId) := by
    rcases outcome.readState (inRoom roomId userId) with same | ⟨isOp, version', before, _⟩
    · exact same
    · by_cases mine : t = e.thread
      · have ends := going mine
        rw [isOp] at ends
        cases ends
      · have before' := (outcome.readStates.held_other mine).mp isHeld
        exact absurd (Prod.mk.inj (Option.some.inj (before'.symm.trans before))).1 mine
  rw [same]
  have step {n : Int} (reading : ReadsUpTo j t roomId userId n) : ReadsUpTo (j.record e) t roomId userId n :=
    reading_record performs justified going reading
  rcases outcome.held_readState isHeld with old | ⟨rfl, userId', roomId', sequence, advances, isKey, isRow⟩
  · obtain ⟨r, isSome, above, source⟩ := unlost.raises _ _ _ _ old
    exact ⟨r, isSome, above, source.imp_right step⟩
  · obtain ⟨rfl, rfl⟩ := key_eq.mp isKey.symm
    have reading := reading_of_advances unlost performs justified advances
    refine ⟨_, isRow, ?_⟩
    cases seen : j.state.readStates.view e.thread (inRoom roomId userId) with
    | none =>
        have free (version : Option RoomReadState) :
            j.state.readStates.held (inRoom roomId userId) ≠ some (e.thread, version) := by
          intro isHeld
          obtain ⟨r, rfl, _⟩ := unlost.raises _ _ _ _ isHeld
          cases seen.symm.trans (Database.view_of_held isHeld)
        rw [Database.view_of_not_held free] at seen
        rw [seen]
        exact ⟨fun old isSome => (by cases isSome), .inr (step reading)⟩
    | some old =>
        have before : (∀ old', j.state.readStates.committed.get (inRoom roomId userId) = some old' →
            old'.lastReadSequence ≤ old.lastReadSequence) ∧
              ((∃ old', j.state.readStates.committed.get (inRoom roomId userId) = some old' ∧
                old'.lastReadSequence = old.lastReadSequence) ∨
                  ReadsUpTo j e.thread roomId userId old.lastReadSequence) := by
          rcases row_of_view seen with isHeld | here
          · obtain ⟨r, isSome, known⟩ := unlost.raises _ _ _ _ isHeld
            exact Option.some.inj isSome ▸ known
          · refine ⟨fun old' here' => ?_, .inl ⟨old, here, rfl⟩⟩
            exact (Option.some.inj (here'.symm.trans here)) ▸ le_rfl
        obtain ⟨above, source⟩ := before
        refine ⟨fun old' here => (above old' here).trans (le_max_left _ _), ?_⟩
        change (∃ old' : RoomReadState, _ ∧ old'.lastReadSequence = max old.lastReadSequence sequence) ∨
          ReadsUpTo _ _ _ _ (max old.lastReadSequence sequence)
        rcases le_total old.lastReadSequence sequence with le | le
        · rw [max_eq_right le]
          exact .inr (step reading)
        · rw [max_eq_left le]
          exact source.imp_right step

omit justified in
/-- A watermark goes back to a request of the user that reads up to it. -/
theorem source_of_row {roomId userId : UUID} {r : RoomReadState}
    (here : e.after.readStates.committed.get (inRoom roomId userId) = some r) :
    ∃ x ∈ e :: j.past, Event.raises x roomId userId ∧
      ReadsTo x.call (j.log x.thread) userId roomId r.lastReadSequence := by
  have older {old : RoomReadState}
      (before : j.state.readStates.committed.get (inRoom roomId userId) = some old) :
      ∃ x ∈ e :: j.past, Event.raises x roomId userId ∧
        ReadsTo x.call (j.log x.thread) userId roomId old.lastReadSequence := by
    obtain ⟨x, member, known⟩ := unlost.origin roomId userId old before
    exact ⟨x, List.mem_cons_of_mem _ member, known⟩
  by_cases same : e.after.readStates.committed.get (inRoom roomId userId) =
      j.state.readStates.committed.get (inRoom roomId userId)
  · exact older (same.symm.trans here)
  obtain ⟨raises, r', here', _, source⟩ := raises_of_changed performs unlost same
  obtain rfl := Option.some.inj (here.symm.trans here')
  obtain ⟨old, before, isOld⟩ | ⟨⟨request, running, reads⟩, _⟩ := source
  · exact isOld ▸ older before
  · obtain rfl := Option.some.inj (running.symm.trans performs.running)
    exact ⟨e, List.mem_cons_self, raises, reads⟩

omit justified in
/-- What was there is unread until a request that was issued since reads up to it. -/
theorem covered_old (m : Message) (stored : m ∈ j.state.messaging.messages) (userId : UUID)
    (other : m.senderId ≠ userId)
    (reaches : (m.sequenceNumber : Int) ≤ e.after.watermark m.chatroomId userId) :
    Covered issued (j.record e) userId m := by
  by_cases unread : (m.sequenceNumber : Int) ≤ j.state.watermark m.chatroomId userId
  · exact (unlost.covered m stored userId other unread).later e
  by_cases same : e.after.readStates.committed.get (inRoom m.chatroomId userId) =
      j.state.readStates.committed.get (inRoom m.chatroomId userId)
  · exact absurd (watermark_of_get same ▸ reaches) unread
  obtain ⟨raises, r, here, _, source⟩ := raises_of_changed performs unlost same
  have isRow := watermark_of_row here
  obtain ⟨old, before, isOld⟩ | ⟨⟨request, running, reads⟩, _⟩ := source
  · rw [watermark_of_row before, isOld] at unread
    exact absurd (isRow ▸ reaches) unread
  · obtain rfl := Option.some.inj (running.symm.trans performs.running)
    have inRoom' : m ∈ e.before.messaging.inRoom m.chatroomId :=
      performs.before ▸ Rooms.Server.mem_inRoom.mpr ⟨stored, rfl⟩
    have there := performs.permitted.1.since m.chatroomId userId _ raises reads m inRoom' other (isRow ▸ reaches)
    exact ⟨e.thread, ⟨⟨e.call, _, running, reads.later e, isRow ▸ reaches⟩, there⟩, e, List.mem_cons_self, rfl,
      raises, reaches⟩

/-- What is persisted nobody has read up to. -/
theorem unread_new (m : Message) (stored : m ∈ e.after.messaging.messages)
    (isNew : m ∉ j.state.messaging.messages) (userId : UUID) (other : m.senderId ≠ userId) :
    e.after.watermark m.chatroomId userId < m.sequenceNumber := by
  have outcome := performs_outcome performs
  obtain ⟨_, _, pends⟩ := (outcome.mem_messages justified.own stored).resolve_left isNew
  obtain ⟨positive, request, running, isSend⟩ := unlost.sent _ _ pends
  obtain rfl := Option.some.inj (running.symm.trans performs.running)
  cases here : e.after.readStates.committed.get (inRoom m.chatroomId userId) with
  | none =>
      rw [Server.watermark, here]
      exact Int.natCast_pos.mpr positive
  | some r =>
      rw [watermark_of_row here]
      obtain ⟨x, member, raises, reads⟩ := source_of_row unlost performs here
      rcases List.mem_cons.mp member with rfl | old
      · exact absurd (reader_of_sends isSend reads) other.symm
      · have persists : Event.persists e m := ⟨stored, performs.before ▸ isNew⟩
        exact performs.permitted.1.ahead m persists x old userId _ other.symm raises reads

end Step

def watermarks (issued : Nat → List Message) :
    Law fun j e => InTime issued j e ∧ heeds e.call (j.log e.thread) e.op where
  inv := Unlost issued
  begun j t call unlost idle := by
    refine ⟨unlost.rising, unlost.bounded, fun m stored userId other reaches => ?_, fun u m pends => ?_,
      unlost.latest, fun u roomId userId version isHeld => ?_, unlost.origin⟩
    · exact (unlost.covered m stored userId other reaches).begun idle
    · obtain ⟨positive, request, running, isSend⟩ := unlost.sent u m pends
      exact ⟨positive, request, Journal.calls_begin idle running, isSend⟩
    · obtain ⟨r, isSome, above, source⟩ := unlost.raises u roomId userId version isHeld
      exact ⟨r, isSome, above, source.imp_right fun reading => reading.begun idle⟩
  kept j e _ unlost performs justified := by
    refine ⟨fun e' member roomId userId => ?_, bounded_record unlost performs justified,
      fun m stored userId other reaches => ?_, fun t m pends => sent_record unlost performs justified t m pends,
      latest_record unlost performs justified, raises_record unlost performs justified,
      fun roomId userId r here => ?_⟩
    · rcases List.mem_cons.mp member with rfl | old
      · exact performs.before ▸ rising_record unlost performs roomId userId
      · exact unlost.rising e' old roomId userId
    · by_cases old : m ∈ j.state.messaging.messages
      · exact covered_old unlost performs m old userId other reaches
      · exact absurd reaches (not_le.mpr (unread_new unlost performs justified m stored old userId other))
    · obtain ⟨x, member, raises, reads⟩ := source_of_row unlost performs here
      exact ⟨x, member, raises, reads.later e⟩

theorem Blank.unlost {s : Server} (blank : Blank s) (issued : Nat → List Message) :
    Unlost issued (.empty s) := by
  have isZero (roomId userId : UUID) : s.watermark roomId userId = 0 := by
    rw [Server.watermark, blank.readStates]
    rfl
  refine ⟨fun e member => ?_, fun roomId userId => ?_, fun m stored => ?_, fun t m pends => ?_,
    fun t roomId highest found => ?_, fun t roomId userId version isHeld => ?_, fun roomId userId r here => ?_⟩
  · cases member
  · rw [Journal.empty_state, isZero]
    exact Int.natCast_nonneg _
  · rw [Journal.empty_state, blank.messages] at stored
    cases stored
  · rw [Journal.empty_state, blank.pending] at pends
    cases pends
  · cases found
  · rw [Journal.empty_state, blank.readStates] at isHeld
    cases isHeld
  · rw [Journal.empty_state, blank.readStates] at here
    cases here

theorem nothing_lost (s : Server) (blank : Blank s) : NothingLost s InTime := by
  intro issued j reaches _ roomId userId
  have heeding : service.Reaches (fun _ _ => True)
      (fun j e => InTime issued j e ∧ heeds e.call (j.log e.thread) e.op) s j :=
    reaches.strengthen fun _ _ _ _ performs after =>
      ⟨performs.permitted, heeds_of_reaches after performs.running⟩
  obtain ⟨_, unlost⟩ := law_of_reaches (watermarks issued) blank.sound (blank.unlost issued) heeding
  refine ⟨fun e member => unlost.rising e member roomId userId, unlost.bounded roomId userId,
    fun m member other => ?_⟩
  obtain ⟨stored, rfl⟩ := Rooms.Server.mem_inRoom.mp member
  by_cases unread : j.state.watermark m.chatroomId userId < m.sequenceNumber
  · exact .inl (List.mem_filter.mpr ⟨member, by simp [other, unread]⟩)
  · exact .inr (unlost.covered m stored userId other (not_lt.mp unread))

theorem nothing_lost_unopened : NothingLost unopened InTime :=
  nothing_lost unopened unopened_blank

section Ahead

/-- User 2 marks as read what has not been sent yet, and user 1 sends a message. -/
def marking : Option History :=
  follow (.start 0 (.create 1 [82] false) :: steps 0 1 ++ [.await 0 { id := 7 }] ++ steps 0 6 ++
    .start 1 (.markRead 7 2 (some 1000)) :: steps 1 6 ++ .start 2 (.send 1 7 greeting) :: steps 2 15)

structure Reading where
  watermark : Int
  highest : Nat
  senders : List UUID
  unread : List Message
  deriving DecidableEq

theorem marking_reads : marking.map (fun j => Reading.mk (j.state.watermark 7 2)
    (j.state.messaging.maxSequence 7) ((j.state.messaging.inRoom 7).map fun m => m.senderId)
    (j.state.unread 7 2)) = some {
      watermark := 1000
      highest := 1
      senders := [1]
      unread := [] } := by
  decide +kernel

theorem marked_ahead : ¬NothingLost unopened fun _ _ _ => True := by
  intro claim
  obtain ⟨j, ran, facts⟩ := Option.map_eq_some_iff.mp marking_reads
  obtain ⟨_, _, isSenders, isUnread⟩ := Reading.mk.inj facts
  have issuedFirst : IssuedAt unopened j fun _ => [] :=
    fun t => ⟨j.past, [], (List.append_nil _).symm, fun _ member => (nomatch member), rfl⟩
  have sent : 1 ∈ (j.state.messaging.inRoom 7).map fun m => m.senderId := by
    rw [isSenders]
    exact List.mem_singleton_self _
  obtain ⟨m, member, isSender⟩ := List.mem_map.mp sent
  have other : m.senderId ≠ 2 := by
    rw [isSender]
    decide
  rcases (claim (fun _ => []) j (follow_reaches ran) issuedFirst 7 2).2.2 m member other with
    unread | ⟨t, covers, _⟩
  · rw [isUnread] at unread
    cases unread
  · exact nomatch covers.there

end Ahead

end Chatrooms
