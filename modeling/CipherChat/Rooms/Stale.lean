import CipherChat.Rooms.Readings

/-!
How long what a request has read is so.  Until it commits a change of its own, a row of a member
is as it was read unless another request commits a change of it; a room stays as it is.
-/

namespace Chatrooms

open Async ReadCommitted
open Rooms (UUID)

variable {permits : History → Event → Prop} {s : Server} {j : History}

section Logs

variable {log : Log Op Op.Res} {roomId userId : UUID}

/-- No change of a row about a member has been committed. -/
def Uncommitted (log : Log Op Op.Res) : Prop :=
  ∀ later earlier (result : (Op.backend .commit).Res),
    log = later ++ (⟨.backend .commit, result⟩ : Done) :: earlier → Untouched earlier

theorem Untouched.uncommitted (untouched : Untouched log) : Uncommitted log := by
  rintro later earlier result rfl x member
  exact untouched.of_append x (List.mem_cons_of_mem _ member)

/-- A change that comes last has not been committed. -/
theorem uncommitted_cons {x : Done} (changes : x.1.writesMember = true) (untouched : Untouched log) :
    Uncommitted (x :: log) := by
  intro later earlier result isLog
  cases later with
  | nil =>
      obtain ⟨rfl, _⟩ := List.cons.inj isLog
      cases changes
  | cons _ rest =>
      obtain ⟨_, rfl⟩ := List.cons.inj isLog
      exact untouched.uncommitted rest earlier result rfl

/-- A row that a log has read, where the log has it. -/
theorem Saw.split {row : Option ChatroomMember} (saw : Saw log roomId userId row) (untouched : Untouched log) :
    ∃ later earlier, log = later ++ (⟨.findMember roomId userId, .ok row⟩ : Done) :: earlier ∧
      Untouched earlier := by
  obtain ⟨later, earlier, rfl⟩ := List.append_of_mem saw
  exact ⟨later, earlier, rfl, fun x member => untouched.of_append x (List.mem_cons_of_mem _ member)⟩

end Logs

section Writes

variable {t : Nat} {s s' : Server} {op : Op} {result : op.Res}

theorem Outcome.unwritten (outcome : Outcome t s op result s') (quiet : op.writesMember = false)
    (unwritten : s.members.Unwritten t) : s'.members.Unwritten t := by
  cases outcome with
  | inserted | updated | removed | ranked => cases quiet
  | committed => exact fun _ _ isHeld => (Database.held_of_commit isHeld).2 rfl
  | closed => exact fun _ _ isHeld => (Database.held_of_rollback isHeld).2 rfl
  | _ => exact unwritten

/-- What a transaction that has written nothing does to the table. -/
theorem Outcome.get_of_unwritten (outcome : Outcome t s op result s') (unwritten : s.members.Unwritten t)
    (k : ℕ ×ₗ ℕ) : s'.members.committed.get k = s.members.committed.get k :=
  outcome.members.get_of_not_held (unwritten k)

theorem Outcome.get_of_going (outcome : Outcome t s op result s') (going : op ≠ .backend .commit) :
    s'.members.committed = s.members.committed := by
  rcases outcome.committed_eq with ⟨isOp, _⟩ | ⟨_, same, _⟩
  · exact absurd isOp going
  · exact same

end Writes

section Runs

variable (blank : Blank s) (reaches : service.Reaches (fun _ _ => True) permits s j)
include blank reaches

/-- A request holds no row of a member before it has changed one. -/
theorem unwritten_of_untouched {t : Nat} (untouched : Untouched (j.log t)) : j.state.members.Unwritten t := by
  revert t
  refine reaches.kept (fun j => ∀ {t}, Untouched (j.log t) → j.state.members.Unwritten t) ?_ ?_ ?_
  · intro t _ k version isHeld
    rw [Journal.empty_state, blank.members, Database.held_empty] at isHeld
    cases isHeld
  · exact fun _ _ _ holds _ _ => holds
  · intro j e holds _ performs _ t untouched
    have outcome := performs_outcome performs
    by_cases mine : t = e.thread
    · subst mine
      rw [Journal.record_log_self] at untouched
      exact outcome.unwritten (untouched _ List.mem_cons_self)
        (holds fun x member => untouched x (List.mem_cons_of_mem _ member))
    · rw [Journal.record_log_of_ne (Ne.symm mine)] at untouched
      exact fun k version isHeld => holds untouched k version ((outcome.members.held_other mine).mp isHeld)

/-- Who holds a room is opening it. -/
theorem opens_of_held {t k : Nat} {version : Option Chatroom}
    (isHeld : j.state.rooms.held k = some (t, version)) :
    ∃ creatorId name privateRoom, j.calls t = some (.create creatorId name privateRoom) := by
  let founders : Law permits := {
    inv := fun j => ∀ t k version, j.state.rooms.held k = some (t, version) →
      ∃ creatorId name privateRoom, j.calls t = some (.create creatorId name privateRoom)
    begun := fun j t call opens idle u k version isHeld => by
      obtain ⟨creatorId, name, privateRoom, running⟩ := opens u k version isHeld
      exact ⟨creatorId, name, privateRoom, Journal.calls_begin idle running⟩
    kept := fun j e _ opens performs justified u k version isHeld => by
      rcases (performs_outcome performs).held_room isHeld with old | ⟨rfl, room, isOp, _⟩
      · exact opens u k version old
      · rw [isOp] at justified
        obtain ⟨_, name, privateRoom, running⟩ := justified
        exact ⟨_, name, privateRoom, running⟩ }
  have initial : founders.inv (.empty s) := by
    intro t k version isHeld
    rw [Journal.empty_state, blank.rooms, Database.held_empty] at isHeld
    cases isHeld
  exact (law_of_reaches founders blank.sound initial reaches).2 t k version isHeld

theorem sound_of_reaches : Sound j := by
  let lawless : Law permits := {
    inv := fun _ => True
    begun := fun _ _ _ _ _ => trivial
    kept := fun _ _ _ _ _ _ => trivial }
  exact (law_of_reaches lawless blank.sound trivial reaches).1

/-- The query of a transaction that has written nothing finds what is in the table. -/
theorem read_member {later earlier : List Event} {a : Event} {roomId userId : UUID}
    {row : Option ChatroomMember} (isPast : j.past = later ++ a :: earlier)
    (isRead : a.logged = (⟨.findMember roomId userId, .ok row⟩ : Done))
    (untouched : Untouched (own a.thread earlier)) :
    a.after.members.committed.get (inRoom roomId userId) = row := by
  obtain ⟨j', reaches', rfl, performs⟩ := reaches.at_entry isPast
  obtain ⟨t, call, op, result, before, after⟩ := a
  obtain ⟨rfl, same⟩ := Sigma.mk.inj isRead
  obtain rfl := eq_of_heq same
  have exec : Exec t j'.state (.findMember roomId userId) (.ok row) after := performs.before ▸ performs.exec
  obtain ⟨answer, effected⟩ := exec.effect_of_ok
  obtain ⟨isRow, rfl⟩ := Prod.mk.inj (Option.some.inj effected)
  rw [← (unwritten_of_untouched blank reaches' untouched).view]
  exact Except.ok.inj isRow

/-- A room that somebody who opens none has read is in the table. -/
theorem room_of_read {t : Nat} {call : Call} {roomId : UUID} {room : Chatroom}
    (running : j.calls t = some call) (plain : ∀ creatorId name privateRoom,
      call ≠ .create creatorId name privateRoom)
    (isRead : (⟨.findRoom roomId, .ok (some room)⟩ : Done) ∈ j.log t) :
    j.state.rooms.committed.get roomId.toNat = some room := by
  obtain ⟨later, earlier, isLog⟩ := List.append_of_mem isRead
  obtain ⟨after, a, before, isPast, rfl, isLogged, _⟩ := own_split isLog
  refine reaches.stays (P := fun s => s.rooms.committed.get roomId.toNat = some room) isPast ?_
    fun x member here => ?_
  · obtain ⟨j', reaches', _, performs⟩ := reaches.at_entry isPast
    have ran := reaches.ran a (isPast ▸ List.mem_append_right _ List.mem_cons_self)
    have running' := performs.running
    obtain ⟨t, call', op, result, before, after⟩ := a
    obtain ⟨rfl, same⟩ := Sigma.mk.inj isLogged
    obtain rfl := eq_of_heq same
    obtain rfl : call = call' := Option.some.inj (running.symm.trans ran)
    have exec : Exec t j'.state (.findRoom roomId) (.ok (some room)) after :=
      performs.before ▸ performs.exec
    obtain ⟨answer, effected⟩ := exec.effect_of_ok
    obtain ⟨isRow, rfl⟩ := Prod.mk.inj (Option.some.inj effected)
    have unwritten : j'.state.rooms.Unwritten t := fun k version isHeld => by
      obtain ⟨_, _, _, creates⟩ := opens_of_held blank reaches' isHeld
      exact plain _ _ _ (Option.some.inj (running'.symm.trans creates))
    rw [← unwritten.view]
    exact Except.ok.inj isRow
  · obtain ⟨l₁, l₂, rfl⟩ := List.append_of_mem member
    rw [List.append_assoc, List.cons_append] at isPast
    obtain ⟨j', reaches', _, performs⟩ := reaches.at_entry isPast
    rw [performs.before] at here
    exact (sound_of_reaches blank reaches').opened (performs_outcome performs) here

/-- While others leave the row of a member alone, it is as it was read. -/
theorem stays_read {later earlier : List Event} {a : Event} {roomId userId : UUID}
    {row : Option ChatroomMember} (isPast : j.past = later ++ a :: earlier)
    (isRead : a.logged = (⟨.findMember roomId userId, .ok row⟩ : Done))
    (untouched : Untouched (own a.thread earlier)) (uncommitted : Uncommitted (j.log a.thread))
    (alone : ∀ x ∈ later, x.thread ≠ a.thread → x.after.members.committed.get (inRoom roomId userId) =
      x.before.members.committed.get (inRoom roomId userId)) :
    j.state.members.committed.get (inRoom roomId userId) = row := by
  refine reaches.stays (P := fun s => s.members.committed.get (inRoom roomId userId) = row) isPast
    (read_member blank reaches isPast isRead untouched) fun x member here => ?_
  by_cases mine : x.thread = a.thread
  · obtain ⟨l₁, l₂, rfl⟩ := List.append_of_mem member
    rw [List.append_assoc, List.cons_append] at isPast
    obtain ⟨j', reaches', isPast', performs⟩ := reaches.at_entry isPast
    have outcome := performs_outcome performs
    rw [performs.before] at here
    by_cases commits : x.op = .backend .commit
    · have isLog : j.log a.thread = own a.thread l₁ ++ x.logged :: j'.log a.thread := by
        rw [Journal.log, isPast, own_append, own, if_pos mine, Journal.log, isPast']
      have unwritten : j'.state.members.Unwritten x.thread := by
        refine unwritten_of_untouched blank reaches' ?_
        obtain ⟨t, call, op, result, before, after⟩ := x
        obtain rfl : op = .backend .commit := commits
        rw [mine]
        exact uncommitted _ _ _ isLog
      exact (outcome.get_of_unwritten unwritten _).trans here
    · rw [outcome.get_of_going commits]
      exact here
  · exact (alone x member mine).trans here

end Runs

end Chatrooms
