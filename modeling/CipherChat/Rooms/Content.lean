import CipherChat.Rooms.Ledger

/-!
What the rows of a run hold: what the request of the send that committed them asked for.
-/

namespace Rooms

open Async

/-- What is stored for a request, by whom and when it is. -/
def stored (senderId roomId : UUID) (now : Instant) (seq : Nat) (req : SendMessageRequest) : Draft :=
  (req.draft senderId roomId now).withSequence seq

section Fields

variable (senderId roomId : UUID) (now : Instant) (seq : Nat) (req : SendMessageRequest)

@[simp] theorem stored_senderId : (stored senderId roomId now seq req).senderId = senderId := by
  unfold stored SendMessageRequest.draft
  cases req.replyTo <;> cases req.expiresIn <;> rcases req.mentions with _ | _ | _ <;> rfl

@[simp] theorem stored_body : (stored senderId roomId now seq req).body = trim req.message := by
  unfold stored SendMessageRequest.draft
  cases req.replyTo <;> cases req.expiresIn <;> rcases req.mentions with _ | _ | _ <;> rfl

@[simp] theorem stored_replyToId :
    (stored senderId roomId now seq req).replyToId = req.replyTo.map ReplyRef.messageId := by
  unfold stored SendMessageRequest.draft
  cases req.replyTo <;> cases req.expiresIn <;> rcases req.mentions with _ | _ | _ <;> rfl

@[simp] theorem stored_expiresAt :
    (stored senderId roomId now seq req).expiresAt = req.expiresIn.map (now + 1000 * ·) := by
  unfold stored SendMessageRequest.draft
  cases req.replyTo <;> cases req.expiresIn <;> rcases req.mentions with _ | _ | _ <;> rfl

@[simp] theorem stored_mentions :
    (stored senderId roomId now seq req).mentions = req.mentions.getD [] := by
  unfold stored SendMessageRequest.draft
  cases req.replyTo <;> cases req.expiresIn <;> rcases req.mentions with _ | _ | _ <;> rfl

end Fields

/-- What a request may insert. -/
def Inserts : Call → Draft → Prop
  | .attempt userId frame, d => ∃ now seq, d = stored userId frame.chatroomId now seq frame.request
  | .post userId roomId req, d => ∃ now seq, d = stored userId roomId now seq req
  | .postFile userId roomId req, d => ∃ seq, d = (req.draft userId roomId).withSequence seq
  | _, _ => False

/-- Operations that insert nothing but what is wanted. -/
def Inserting (wanted : Draft → Prop) : Op → Prop
  | .save d => wanted d
  | _ => True

section Uses

variable {wanted : Draft → Prop}

theorem Quiet.inserting (op : Op) (quiet : Quiet op) : Inserting wanted op := by
  cases op <;> trivial

theorem next_inserting (roomId : UUID) :
    Uses (Inserting wanted) (RedisSequenceCounter.next roomId (call (.maxSequence roomId))).run := by
  refine uses_tryCatch ?_ fun e => ?_
  · refine uses_throwing_bind (uses_op (by trivial)) fun max => ?_
    refine uses_throwing_bind (uses_op (by trivial)) fun seeded => ?_
    refine uses_throwing_bind (uses_op (by trivial)) fun next => ?_
    split
    · exact uses_throwing_pure
    · exact uses_throwing_bind (uses_op (by trivial)) fun _ => uses_throwing_pure
  · split
    · exact uses_throw
    · exact uses_throw

theorem seen_inserting (roomId : UUID) (clientId : Option UUID) :
    Uses (Inserting wanted) (seen roomId clientId).run := by
  cases clientId with
  | none => exact uses_throwing_pure
  | some cid =>
      refine uses_throwing_bind ?_ fun cached => ?_
      · refine uses_tryCatch (uses_op (by trivial)) fun e => ?_
        split
        · exact uses_throwing_pure
        · exact uses_throw
      · refine uses_throwing_bind ?_ fun found => ?_
        · cases cached with
          | none => exact uses_throwing_pure
          | some id => exact uses_throwing_bind (uses_op (by trivial)) fun _ => uses_throwing_pure
        · cases found with
          | none => exact uses_op (by trivial)
          | some m => exact uses_throwing_pure

theorem persist_inserting {draft : Draft} (fine : wanted draft) (senderName : JavaString) :
    Uses (Inserting wanted) (persist draft senderName).run := by
  refine uses_throwing_bind (uses_tryCatch ?_ fun e => ?_) fun m => ?_
  · refine uses_throwing_bind (uses_op fine) fun saved => ?_
    refine uses_throwing_bind (uses_op (by trivial)) fun _ => ?_
    exact uses_throwing_bind (uses_op (by trivial)) fun _ => uses_throwing_pure
  · exact uses_throwing_bind (uses_op (by trivial)) fun _ => uses_throw
  · exact uses_throwing_bind (uses_op (by trivial)) fun _ => uses_throwing_pure

theorem absorb_inserting (roomId : UUID) (clientId : Option UUID) :
    Uses (Inserting wanted) (absorb roomId clientId).run := by
  refine uses_throwing_bind ?_ fun found => ?_
  · cases clientId with
    | none => exact uses_throwing_pure
    | some cid => exact uses_op (by trivial)
  · cases found with
    | none => exact uses_throw
    | some m => exact (result_quiet m true).mono Quiet.inserting

theorem mark_inserting (roomId : UUID) (messageId : Nat) (clientId : Option UUID) :
    Uses (Inserting wanted) (mark roomId messageId clientId).run := by
  cases clientId with
  | none => exact uses_throwing_pure
  | some cid =>
      refine uses_throwing_bind (uses_tryCatch (uses_op (by trivial)) fun e => ?_) fun _ =>
        uses_throwing_pure
      split
      · exact uses_throwing_pure
      · exact uses_throw

theorem sendDraft_inserting (senderId roomId : UUID) {draft : Draft}
    (fine : ∀ seq, wanted (draft.withSequence seq)) :
    Uses (Inserting wanted) (sendDraft senderId roomId draft).run := by
  refine uses_throwing_bind ((assertAccess_quiet roomId senderId).mono Quiet.inserting) fun _ => ?_
  refine uses_throwing_bind ((tryAcquire_quiet _).mono Quiet.inserting) fun allowed => ?_
  split
  · refine uses_throwing_bind (seen_inserting roomId _) fun found => ?_
    cases found with
    | some m => exact (result_quiet m true).mono Quiet.inserting
    | none =>
        refine uses_throwing_bind ((requireUser_quiet senderId).mono Quiet.inserting) fun sender => ?_
        refine uses_throwing_bind (next_inserting roomId) fun seq => ?_
        refine uses_throwing_bind (uses_settle (persist_inserting (fine seq) sender)) fun saved => ?_
        split
        · exact absorb_inserting roomId _
        · exact uses_throw
        next saved =>
          refine uses_throwing_bind (mark_inserting roomId saved.id _) fun _ => ?_
          refine uses_throwing_bind ((ensureMembership_quiet roomId senderId).mono Quiet.inserting) fun _ => ?_
          exact (result_quiet saved false).mono Quiet.inserting
  · exact uses_throw

theorem send_inserting (senderId roomId : UUID) (req : SendMessageRequest)
    (fine : ∀ now seq, wanted (stored senderId roomId now seq req)) :
    Uses (Inserting wanted) (send senderId roomId req).run := by
  unfold send
  split
  · exact sendDraft_inserting senderId roomId (fine 0)
  · exact uses_throwing_bind (uses_op (by trivial)) fun now =>
      sendDraft_inserting senderId roomId (fine now)

end Uses

section Runs

variable {permits : History → Event → Prop}

/-- Requests other than sends insert nothing. -/
theorem Inserting.of_law {request : Call} (target : request.target = none) (op : Op)
    (lawful : ∀ log, law request log op) : Inserting (Inserts request) op := by
  cases op with
  | save d =>
      have only : SendOnly (.save d) := trivial
      obtain ⟨roomId, clientId, sends⟩ := Call.target_of_sendOnly only (lawful [])
      rw [target] at sends
      cases sends
  | _ => trivial

/-- A request inserts only what it may insert. -/
theorem service_inserts : service.Follows permits fun request _ => Inserting (Inserts request) := by
  have follows : ∀ {request : Call}, Uses (Inserting (Inserts request)) request.program.run →
      Async.Follows service permits (fun request _ => Inserting (Inserts request)) request
        (fun log => log = []) request.program fun _ _ => True := by
    intro request uses
    have held : Async.Follows service permits (fun request _ => Inserting (Inserts request)) request
        (fun _ => True) request.program fun _ _ => True :=
      follows_uses (fun _ lawful _ _ => ⟨lawful, fun _ => trivial⟩) uses
    exact held.weaken (fun _ _ => trivial) fun _ _ => id
  intro request
  refine follows ?_
  cases request with
  | attempt userId frame =>
      refine uses_throwing_bind (uses_tryCatch ?_ fun e => ?_) fun a => uses_op (by trivial)
      · exact uses_throwing_bind (send_inserting userId _ _ fun now seq => ⟨now, seq, rfl⟩) fun r =>
          uses_throwing_pure
      · split
        · exact uses_throwing_pure
        · exact uses_throwing_pure
  | post userId roomId req =>
      exact uses_throwing_bind (uses_settle (send_inserting userId roomId req
        fun now seq => ⟨now, seq, rfl⟩)) fun r => uses_op (by trivial)
  | postFile userId roomId req =>
      refine uses_throwing_bind (uses_settle ?_) fun r => uses_op (by trivial)
      unfold sendFile
      split
      · exact uses_throw
      · exact sendDraft_inserting userId roomId fun seq => ⟨seq, rfl⟩
  | syncRooms userId rooms maxPerRoom =>
      exact (syncRooms_uses userId rooms maxPerRoom).mono (Inserting.of_law rfl)
  | delete messageId userId => exact (delete_uses messageId userId).mono (Inserting.of_law rfl)
  | sweepExpired => exact uses_throwing_bind (uses_op (by trivial)) fun now => uses_op (by trivial)
  | evict key => exact uses_op (by trivial)
  | crash thread => exact uses_op (by trivial)

/-- Rows, and rows of open transactions, are what their requests asked for. -/
structure Contents (j : History) : Prop where
  pending : ∀ t m, (t, m) ∈ j.state.pending →
    ∃ request, j.calls t = some request ∧ Inserts request m.toDraft
  persisted : ∀ e ∈ j.past, ∀ m, Event.Persists e m → Inserts e.call m.toDraft

variable {admits : History → Call → Prop} {s : Server} {j : History}

theorem Contents.record {e : Event} (contents : Contents j) (kept : Kept j)
    (performs : j.Performs service permits e) (lawful : Inserting (Inserts e.call) e.op) :
    Contents (j.record e) := by
  have outcome := performs_outcome performs
  have running : e.thread ∉ j.state.stopped := performs.before ▸ Exec.running performs.exec
  constructor
  · intro t m member
    obtain ⟨_, ⟨old, _⟩ | ⟨rfl, draft, isOp, isDraft⟩⟩ :=
      outcome.mem_pending member (fun old => (kept.pending t m old).1) running
    · exact contents.pending t m old
    · rw [isOp] at lawful
      exact ⟨e.call, performs.running, isDraft ▸ lawful⟩
  · intro e' member m persists
    rcases List.mem_cons.mp member with rfl | old
    · have new : m ∉ j.state.messages := performs.before ▸ persists.2
      have inserted := mem_of_lookup (outcome.of_mem_messages persists.1 new).2.1
      obtain ⟨request, runs, inserts⟩ := contents.pending _ m inserted
      obtain rfl := Option.some.inj (performs.running.symm.trans runs)
      exact inserts
    · exact contents.persisted e' old m persists

theorem Reaches.contents (fresh : Fresh s) (reaches : service.Reaches admits permits s j) :
    Contents j := by
  refine reaches.kept Contents ?_ ?_ ?_
  · refine ⟨fun t m member => ?_, fun e old => by cases old⟩
    rw [Journal.empty_state, fresh.pending] at member
    cases member
  · intro j t request contents idle _
    refine ⟨fun u m member => ?_, contents.persisted⟩
    obtain ⟨request', runs, inserts⟩ := contents.pending u m member
    exact ⟨request', Journal.calls_begin idle runs, inserts⟩
  · intro j e contents before performs after
    have isPast : (j.record e).past = [] ++ e :: j.past := rfl
    have lawful := after.lawful_at service_inserts isPast performs.running
    exact contents.record (Reaches.kept fresh before) performs lawful

end Runs

end Rooms
