import CipherChat.Rooms.Stale

/-!
Who is a member of a private room has opened it or was invited, and has not left since: a send
lets its sender in again, after an access check that was made earlier.
-/

namespace Chatrooms

open Async ReadCommitted
open Rooms (UUID)

/-- The request makes the user a member by right: it opens a room for them, or invites them. -/
def Call.grants (request : Call) (roomId userId : UUID) : Bool :=
  match request with
  | .create creatorId _ _ => creatorId = userId
  | .invite roomId' _ inviteeId => roomId' = roomId && inviteeId = userId
  | _ => false

/-- A commit that adds, or keeps, a member who was granted it. -/
def Event.admits (e : Event) (roomId userId : UUID) : Bool :=
  e.call.grants roomId userId && e.op = .backend .commit &&
    (e.before.members.held (inRoom roomId userId)).any (fun w => w.1 = e.thread) &&
    (e.after.members.committed.get (inRoom roomId userId)).isSome

def Event.departs (e : Event) (roomId userId : UUID) : Bool :=
  (e.before.members.committed.get (inRoom roomId userId)).isSome &&
    (e.after.members.committed.get (inRoom roomId userId)).isNone

/-- The user has opened the room or was invited, after their last departure. -/
def admitted : List Event → UUID → UUID → Bool
  | [], _, _ => false
  | e :: earlier, roomId, userId =>
      Event.admits e roomId userId || !Event.departs e roomId userId && admitted earlier roomId userId

/-- In every run from `s` whose operations are those `permits`, the members of a private room are
users who have opened it or were invited after their last departure. -/
def InvitedOnly (s : Server) (permits : History → Event → Prop) : Prop :=
  ∀ j, service.Reaches (fun _ _ => True) permits s j → ∀ m, j.state.members.Stored m →
    ∀ room, j.state.rooms.committed.get m.chatroomId.toNat = some room → room.privateRoom = true →
      admitted j.past m.chatroomId m.userId = true

/-- No departure of the sender is committed between the access check of a send and the commit of a
membership that it writes. -/
def Undisturbed (j : History) (e : Event) : Prop :=
  e.op = .backend .commit → ∀ senderId roomId, e.call.sends = some (senderId, roomId) →
    (∃ m, e.before.members.held (inRoom roomId senderId) = some (e.thread, some m)) →
      ∀ later check earlier m, j.past = later ++ check :: earlier → check.thread = e.thread →
        check.logged = (⟨.findMember roomId senderId, .ok (some m)⟩ : Done) →
          ∀ x ∈ later, Event.departs x roomId senderId = false

/-- A send that commits makes nobody a member of a private room. -/
def StillMember (_ : History) (e : Event) : Prop :=
  e.op = .backend .commit → e.call.sends.isSome → ∀ m room,
    e.before.members.held m.key = some (e.thread, some m) →
    e.before.members.committed.get m.key = none →
    e.before.rooms.committed.get m.chatroomId.toNat = some room → room.privateRoom = false

/-- How a row that is not in the table came to be written. -/
def Granted (t : Nat) (j : History) (m : ChatroomMember) : Prop :=
  ∃ call, j.calls t = some call ∧
    (call.grants m.chatroomId m.userId = true ∨ j.state.Open m.chatroomId ∧ Entitled call j.state m)

structure Admitted (j : History) : Prop where
  members : ∀ m, j.state.members.Stored m → ∀ room,
    j.state.rooms.committed.get m.chatroomId.toNat = some room → room.privateRoom = true →
      admitted j.past m.chatroomId m.userId = true
  pending : ∀ t k m, j.state.members.held k = some (t, some m) →
    j.state.members.committed.get k ≠ none ∨ Granted t j m

section Step

variable {j : History} {e : Event} (sound : Sound j) (kept : Admitted j)
  (performs : j.Performs service StillMember e) (justified : Justified e.thread j e.op)

theorem stored_of_key {m : ChatroomMember} {s : Server} {roomId userId : UUID}
    (here : s.members.committed.get (inRoom roomId userId) = some m) :
    s.members.Stored m ∧ m.chatroomId = roomId ∧ m.userId = userId := by
  have isKey : m.key = inRoom roomId userId := Table.key_of_get here
  exact ⟨Database.stored_of_get here, key_eq.mp isKey⟩

/-- A member who has not departed is a member by the same right. -/
theorem admitted_cons {past : List Event} {roomId userId : UUID}
    (here : (e.after.members.committed.get (inRoom roomId userId)).isSome)
    (before : admitted past roomId userId = true) : admitted (e :: past) roomId userId = true := by
  obtain ⟨m, isRow⟩ := Option.isSome_iff_exists.mp here
  have stays : Event.departs e roomId userId = false := by
    simp [Event.departs, isRow]
  rw [admitted, stays, before]
  simp

theorem Granted.step {t : Nat} {m : ChatroomMember} {j' : History} (granted : Granted t j m)
    (stays : ∀ k room, j.state.rooms.committed.get k = some room →
      j'.state.rooms.committed.get k = some room) (calls : j'.calls t = j.calls t) :
    Granted t j' m := by
  obtain ⟨call, running, rest⟩ := granted
  refine ⟨call, calls.trans running, rest.imp_right fun ⟨isOpen, entitled⟩ => ⟨isOpen.imp fun _ => stays _ _, ?_⟩⟩
  exact entitled.imp_right (Or.imp_left fun ⟨room, here, isPublic⟩ => ⟨room, stays _ _ here, isPublic⟩)

theorem Granted.of_same {t : Nat} {m m' : ChatroomMember} (granted : Granted t j m)
    (sameRoom : m.chatroomId = m'.chatroomId) (sameUser : m.userId = m'.userId) : Granted t j m' := by
  unfold Granted Entitled
  rw [← sameRoom, ← sameUser]
  exact granted

include sound performs

theorem opened_record (k : Nat) (room : Chatroom) (here : j.state.rooms.committed.get k = some room) :
    e.after.rooms.committed.get k = some room :=
  sound.opened (performs_outcome performs) here

/-- A room that has a member was there before. -/
theorem room_before {m : ChatroomMember} {room : Chatroom} (isOpen : j.state.Open m.chatroomId)
    (here : e.after.rooms.committed.get m.chatroomId.toNat = some room) :
    j.state.rooms.committed.get m.chatroomId.toNat = some room := by
  obtain ⟨old, before⟩ := isOpen
  have same := (opened_record sound performs _ _ before).symm.trans here
  exact Option.some.inj same ▸ before

include kept

theorem members_record (m : ChatroomMember) (stored : e.after.members.Stored m) (room : Chatroom)
    (here : e.after.rooms.committed.get m.chatroomId.toNat = some room)
    (hidden : room.privateRoom = true) : admitted (e :: j.past) m.chatroomId m.userId = true := by
  have outcome := performs_outcome performs
  have isRow : (e.after.members.committed.get (inRoom m.chatroomId m.userId)).isSome :=
    Option.isSome_iff_exists.mpr ⟨m, stored⟩
  have of_old {old : ChatroomMember} (before : j.state.members.Stored old)
      (sameRoom : old.chatroomId = m.chatroomId) (sameUser : old.userId = m.userId) :
      admitted (e :: j.past) m.chatroomId m.userId = true := by
    refine admitted_cons isRow ?_
    rw [← sameRoom, ← sameUser]
    rw [← sameRoom] at here
    exact kept.members old before room (room_before sound performs (sound.housed old before) here) hidden
  rcases outcome.committed_eq with ⟨isOp, isAfter⟩ | ⟨_, same, _⟩
  · rcases Server.commit_member (isAfter ▸ stored) with before | isHeld
    · exact of_old before rfl rfl
    · rcases kept.pending _ _ m isHeld with present | ⟨call, running, rest⟩
      · obtain ⟨old, before⟩ := Option.ne_none_iff_exists'.mp present
        obtain ⟨stored', sameRoom, sameUser⟩ := stored_of_key before
        exact of_old stored' sameRoom sameUser
      · obtain rfl : call = e.call := Option.some.inj (running.symm.trans performs.running)
        have by_grant (grants : e.call.grants m.chatroomId m.userId = true) :
            admitted (e :: j.past) m.chatroomId m.userId = true := by
          have admits : Event.admits e m.chatroomId m.userId = true := by
            have holder : e.before.members.held (inRoom m.chatroomId m.userId) =
                some (e.thread, some m) := performs.before ▸ isHeld
            simp [Event.admits, grants, isOp, holder, isRow]
          rw [admitted, admits]
          rfl
        rcases rest with grants | ⟨isOpen, ⟨inviterId, isInvite⟩ | ⟨open', before, isPublic⟩ | sends⟩
        · exact by_grant grants
        · exact by_grant (by rw [isInvite]; simp [Call.grants])
        · have same := Option.some.inj ((opened_record sound performs _ _ before).symm.trans here)
          exact absurd (same ▸ hidden) (by simp [isPublic])
        · by_cases absent : j.state.members.committed.get m.key = none
          · have permitted : StillMember j e := performs.permitted
            have isPublic := permitted isOp (by rw [sends]; rfl) m room (performs.before ▸ isHeld)
              (performs.before ▸ absent) (performs.before ▸ room_before sound performs isOpen here)
            exact absurd hidden (by simp [isPublic])
          · obtain ⟨old, before⟩ := Option.ne_none_iff_exists'.mp absent
            obtain ⟨stored', sameRoom, sameUser⟩ := stored_of_key before
            exact of_old stored' sameRoom sameUser
  · rw [Database.Stored, same] at stored
    exact of_old stored rfl rfl

include justified

theorem pending_record (t : Nat) (k : ℕ ×ₗ ℕ) (m : ChatroomMember)
    (isHeld : e.after.members.held k = some (t, some m)) :
    e.after.members.committed.get k ≠ none ∨ Granted t (j.record e) m := by
  have outcome := performs_outcome performs
  have step {m' : ChatroomMember} (granted : Granted t j m') : Granted t (j.record e) m' :=
    granted.step (opened_record sound performs) rfl
  rw [outcome.get_of_held isHeld]
  rcases outcome.held_member isHeld with old | ⟨rfl, wrote⟩
  · exact (kept.pending t k m old).imp_right step
  · obtain ⟨t, call, op, result, before, after⟩ := e
    have isKey : m.key = k := Database.named isHeld
    subst isKey
    have rewritten {old : ChatroomMember} (seen : j.state.members.view t m.key = some old) :
        j.state.members.committed.get m.key ≠ none ∨
          Granted t (j.record ⟨t, call, op, result, before, after⟩) m := by
      have sameKey : old.key = m.key := Database.key_of_view seen
      obtain ⟨sameRoom, sameUser⟩ := key_eq.mp sameKey
      by_cases mine : ∃ version, j.state.members.held m.key = some (t, version)
      · obtain ⟨version, isHeld'⟩ := mine
        rw [Database.view_of_held isHeld'] at seen
        subst seen
        exact (kept.pending _ _ old isHeld').imp_right fun granted =>
          step (granted.of_same sameRoom sameUser)
      · rw [Database.view_of_not_held fun version isHeld' => mine ⟨version, isHeld'⟩] at seen
        exact .inl (by rw [seen]; exact Option.some_ne_none old)
    cases wrote with
    | inserted =>
        refine .inr (step ?_)
        rcases justified with founds | admits
        · obtain ⟨name, privateRoom, running⟩ := founds.creates
          exact ⟨_, running, .inl (by simp [Call.grants])⟩
        · obtain ⟨call, running, entitled⟩ := admits.entitled
          exact ⟨call, running, .inr ⟨admits.isOpen, entitled⟩⟩
    | updated old seen => exact rewritten seen
    | ranked old seen =>
        have sameKey : old.key = inRoom _ _ := Database.key_of_view seen
        exact rewritten ((congrArg (j.state.members.view t) sameKey).trans seen)

end Step

theorem Admitted.begun {j : History} (kept : Admitted j) {t : Nat} {call : Call} (none : j.calls t = none) :
    Admitted (j.begin t call) := by
  refine ⟨by simpa using kept.members, fun u k m isHeld => ?_⟩
  rw [Journal.begin_state] at isHeld ⊢
  refine (kept.pending u k m isHeld).imp_right fun granted => granted.step (fun _ _ => ?_) ?_
  · rw [Journal.begin_state]
    exact id
  · refine Journal.begin_calls_of_ne ?_
    rintro rfl
    obtain ⟨call, running, _⟩ := granted
    cases none.symm.trans running

def admission : Law StillMember where
  inv := Admitted
  begun _ _ _ kept none := kept.begun none
  kept _ _ sound kept performs justified :=
    ⟨members_record sound kept performs, pending_record sound kept performs justified⟩

theorem Blank.admitted {s : Server} (blank : Blank s) : Admitted (.empty s) := by
  refine ⟨fun m stored => ?_, fun t k m isHeld => ?_⟩
  · rw [Journal.empty_state, blank.members] at stored
    cases stored
  · rw [Journal.empty_state, blank.members, Database.held_empty] at isHeld
    cases isHeld

section Undisturbed

variable {s : Server} {j : History} {e : Event} (blank : Blank s)
  (reaches : service.Reaches (fun _ _ => True) StillMember s j)
include blank reaches

/-- A sender who has passed the access check of a private room is still a member of it when nothing
has come between. -/
theorem member_of_passed {t : Nat} {request : Call} {senderId roomId : UUID} {room : Chatroom}
    (running : j.calls t = some request) (isSend : request.sends = some (senderId, roomId))
    (passed : Passed (j.log t) roomId senderId)
    (here : j.state.rooms.committed.get roomId.toNat = some room) (hidden : room.privateRoom = true)
    (undisturbed : ∀ later check earlier m, j.past = later ++ check :: earlier → check.thread = t →
      check.logged = (⟨.findMember roomId senderId, .ok (some m)⟩ : Done) →
        ∀ x ∈ later, Event.departs x roomId senderId = false) :
    (j.state.members.committed.get (inRoom roomId senderId)).isSome := by
  obtain ⟨later, earlier, isLog, untouched, room', isRoom, checks⟩ := passed
  have isRead : (⟨.findRoom roomId, .ok (some room')⟩ : Done) ∈ j.log t :=
    isLog ▸ List.mem_append_right _ isRoom
  have isOpen := room_of_read blank reaches running
    (fun _ _ _ isCreate => by rw [isCreate] at isSend; cases isSend) isRead
  obtain rfl : room' = room := Option.some.inj (isOpen.symm.trans here)
  obtain ⟨m, saw⟩ := checks hidden
  obtain ⟨between, first, rfl, fresh⟩ := saw.split untouched
  rw [← List.append_assoc] at isLog
  obtain ⟨after, check, before, isPast, rfl, isCheck, _, isFirst⟩ := own_split isLog
  refine reaches.stays (P := fun s => (s.members.committed.get (inRoom roomId senderId)).isSome) isPast ?_
    fun x member stays => ?_
  · rw [read_member blank reaches isPast isCheck (isFirst ▸ fresh)]
    rfl
  · have remains := undisturbed _ _ _ _ isPast rfl isCheck x member
    rw [Event.departs, stays, Bool.true_and] at remains
    simpa using remains

theorem still_member (performs : j.Performs service Undisturbed e)
    (after : service.Reaches (fun _ _ => True) Undisturbed s (j.record e)) : StillMember j e := by
  intro isOp sends m room isHeld absent here
  obtain ⟨⟨senderId, roomId⟩, isSend⟩ := Option.isSome_iff_exists.mp sends
  rw [performs.before] at isHeld absent here
  obtain ⟨sound, kept⟩ := law_of_reaches admission blank.sound blank.admitted reaches
  obtain ⟨request, running, right⟩ := (kept.pending _ _ m isHeld).resolve_left fun here => here absent
  obtain rfl : request = e.call := Option.some.inj (running.symm.trans performs.running)
  by_contra hidden
  rcases right with grants | ⟨_, ⟨inviterId, isInvite⟩ | ⟨room', here', isPublic⟩ | isSend'⟩
  · cases isRequest : e.call with
    | create | invite =>
        rw [isRequest] at isSend
        cases isSend
    | _ =>
        rw [isRequest] at grants
        cases grants
  · rw [isInvite] at isSend
    cases isSend
  · exact hidden (Option.some.inj (here'.symm.trans here) ▸ isPublic)
  · obtain ⟨isUser, isRoom⟩ := Prod.mk.inj (Option.some.inj (isSend'.symm.trans isSend))
    have isKey : m.key = inRoom roomId senderId := key_eq.mpr ⟨isRoom, isUser⟩
    have lawful := heeds_of_reaches after performs.running
    rw [isOp] at lawful
    rw [isKey] at isHeld absent
    rw [isRoom] at here
    have passed := (lawful senderId roomId isSend).resolve_left fun untouched =>
      unwritten_of_untouched blank reaches untouched _ _ isHeld
    have permitted : Undisturbed j e := performs.permitted
    have stays := member_of_passed blank reaches running isSend passed here (by simpa using hidden)
      (permitted isOp senderId roomId isSend ⟨m, performs.before ▸ isHeld⟩)
    rw [absent] at stays
    cases stays

end Undisturbed

theorem invited_only (s : Server) (blank : Blank s) : InvitedOnly s Undisturbed := by
  intro j reaches m stored room here hidden
  have still : service.Reaches (fun _ _ => True) StillMember s j :=
    reaches.strengthen fun _ _ _ before performs after => still_member blank before performs after
  exact (law_of_reaches admission blank.sound blank.admitted still).2.members m stored room here hidden

section Race

theorem invited_only_unopened : InvitedOnly unopened Undisturbed :=
  invited_only unopened unopened_blank

/-- User 2 is invited, and leaves while a message of theirs is being stored. -/
def leaving : Option History :=
  follow (opening ++ .start 1 (.invite 7 1 2) :: steps 1 9 ++ .start 2 (.send 2 7 greeting) ::
    steps 2 12 ++ .start 3 (.leave 7 2) :: steps 3 6 ++ steps 2 6)

structure Standing where
  rooms : List Chatroom
  members : List ChatroomMember
  admitted : Bool
  deriving DecidableEq

theorem leaving_member : leaving.map (fun j => Standing.mk j.state.rooms.committed.rows
    j.state.members.committed.rows (admitted j.past 7 2)) = some {
      rooms := [⟨7, [82], true, 1⟩]
      members := [⟨7, 1, .owner⟩, ⟨7, 2, .member⟩]
      admitted := false } := by
  decide +kernel

theorem let_in_again : ¬InvitedOnly unopened fun _ _ => True := by
  intro claim
  obtain ⟨j, ran, facts⟩ := Option.map_eq_some_iff.mp leaving_member
  obtain ⟨isRooms, isMembers, isAdmitted⟩ := Standing.mk.inj facts
  have stored : j.state.members.Stored ⟨7, 2, .member⟩ :=
    Database.mem_rows.mp (by rw [isMembers]; simp)
  have opened : j.state.rooms.Stored ⟨7, [82], true, 1⟩ := Database.mem_rows.mp (by rw [isRooms]; simp)
  have byRight := claim j (follow_reaches ran) ⟨7, 2, .member⟩ stored ⟨7, [82], true, 1⟩ opened rfl
  exact absurd (isAdmitted.symm.trans byRight) (by decide)

end Race

end Chatrooms
