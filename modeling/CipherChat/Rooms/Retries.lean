import CipherChat.Rooms.Sequence

/-!
Retries of deleted messages: the row is the only lasting record of its client id, so a pair
is inserted once as long as none of its sends outlives the row.
-/

namespace Rooms

open Async

/-- A row of this room and client id has been removed. -/
def Removed (past : List Event) (roomId cid : UUID) : Prop :=
  ∃ e ∈ past, ∃ m, Event.Removes e m ∧ m.chatroomId = roomId ∧ m.clientMessageId = some cid

/-- The send will not insert any more: it has found a row, ended its transaction or answered. -/
def Over (p : Progress) : Prop :=
  p.seen ≠ none ∨ p.closed = true ∨ p.answered = true

def Ended (j : History) (roomId cid : UUID) : Prop :=
  ∀ t, Sending j t roomId (some cid) → t ∈ j.state.stopped ∨ Over (progress roomId (j.log t))

/-- No send of a client id begins after its row was removed. -/
def Unremoved (j : History) (request : Call) : Prop :=
  ∀ roomId cid, request.target = some (roomId, some cid) → ¬Removed j.past roomId cid

/-- No row is removed while a send of its client id may still insert one. -/
def Settled (j : History) (e : Event) : Prop :=
  ∀ m cid, Event.Removes e m → m.clientMessageId = some cid → Ended j m.chatroomId cid

def Once (past : List Event) : Prop :=
  ∀ roomId cid, ((persistedRows past).filter fun m =>
    m.chatroomId = roomId ∧ m.clientMessageId = some cid).length ≤ 1

theorem Over.after {p : Progress} (spent : Over p) (roomId : UUID) (x : Done) :
    Over (p.after roomId x) := by
  rcases spent with seen | closed | answered
  · refine .inl ?_
    have shows := Progress.after_shows roomId p x
    generalize p.after roomId x = q at shows
    cases shows with
    | found | named => exact Option.some_ne_none _
    | _ => exact seen
  · exact .inr (.inl (Progress.closed_after closed))
  · exact .inr (.inr (Progress.answered_after answered))

structure Single (j : History) : Prop where
  kept : Kept j
  traced : ∀ m, Persisted j.past m → m ∈ j.state.messages ∨ ∃ e ∈ j.past, Event.Removes e m
  ended : ∀ roomId cid, Removed j.past roomId cid → Ended j roomId cid
  once : Once j.past

section Step

variable {permits : History → Event → Prop} {j : History} {e : Event}

theorem persistedRows_record (performs : j.Performs service permits e) :
    persistedRows (e :: j.past) = persistedRows j.past ∨
      ∃ m, Event.Persists e m ∧ persistedRows (e :: j.past) = m :: persistedRows j.past := by
  have split : persistedRows (e :: j.past) =
      e.after.messages.filter (· ∉ e.before.messages) ++ persistedRows j.past := rfl
  cases new : e.after.messages.filter (· ∉ e.before.messages) with
  | nil => exact .inl (by rw [split, new]; rfl)
  | cons m rest =>
      have member : m ∈ e.after.messages.filter (· ∉ e.before.messages) := by
        rw [new]
        exact List.mem_cons_self
      have persists : Event.Persists e m := by simpa [Event.Persists] using member
      have isNew : m ∉ j.state.messages := performs.before ▸ persists.2
      obtain ⟨_, _, isAfter⟩ := (performs_outcome performs).of_mem_messages persists.1 isNew
      refine .inr ⟨m, persists, ?_⟩
      have others : e.before.messages.filter (· ∉ e.before.messages) = [] := by simp
      have alone : e.after.messages.filter (· ∉ e.before.messages) = [m] := by
        rw [isAfter, ← performs.before]
        simp only
        rw [List.filter_cons_of_pos (by simpa using persists.2), others]
      rw [split, alone]
      rfl

theorem Ended.record (performs : j.Performs service permits e) {roomId cid : UUID}
    (ended : Ended j roomId cid) : Ended (j.record e) roomId cid := by
  intro t sending
  by_cases running : t ∈ (j.record e).state.stopped
  · exact .inl running
  · refine .inr ?_
    have before := (performs_outcome performs).stopped_subset running
    have spent := (ended t sending).resolve_left before
    by_cases mine : t = e.thread
    · subst mine
      rw [progress_self]
      exact spent.after roomId _
    · rw [Journal.record_log_of_ne (Ne.symm mine)]
      exact spent

/-- A send commits its row while no row of its client id has been removed. -/
theorem Single.commits (single : Single j) (performs : j.Performs service permits e)
    (lawful : law e.call (j.log e.thread) e.op) {m m' : Message} {cid : UUID}
    (persists : Event.Persists e m) (named : m.clientMessageId = some cid)
    (persisted : Persisted j.past m') :
    ¬(m'.chatroomId = m.chatroomId ∧ m'.clientMessageId = some cid) := by
  rintro ⟨room', named'⟩
  obtain ⟨isOp, member, running, _⟩ := single.kept.persists performs persists
  have sending := (single.kept.pending _ _ member).2.1
  rw [named] at sending
  have isLawful := sending.lawful performs lawful
  rw [isOp] at isLawful
  obtain ⟨_, seen, closed, answered⟩ := isLawful
  have notOver : ¬Over (progress m.chatroomId (j.log e.thread)) := by
    rintro (found | spent | spent)
    · exact found seen
    · rw [closed] at spent
      cases spent
    · rw [answered] at spent
      cases spent
  rcases single.traced m' persisted with inTable | ⟨e', old, removes⟩
  · have apart := (List.pairwise_append.mp single.kept.tidy.apart).2.2 m' inTable m
      (List.mem_map_of_mem member)
    exact apart.2 (by simp [conflict, room', named', named])
  · have removed : Removed j.past m.chatroomId cid := ⟨e', old, m', removes, room', named'⟩
    exact (single.ended _ _ removed e.thread sending).elim running notOver

theorem Single.record (single : Single j) (performs : j.Performs service permits e)
    (lawful : law e.call (j.log e.thread) e.op) (settled : Settled j e) : Single (j.record e) := by
  refine ⟨single.kept.record performs lawful, fun m persisted => ?_, fun roomId cid removed => ?_,
    fun roomId cid => ?_⟩
  · by_cases here : m ∈ e.after.messages
    · exact .inl here
    · refine .inr ?_
      rcases persisted_cons persisted with old | new
      · rcases single.traced m old with inTable | ⟨e', member, removes⟩
        · exact ⟨e, List.mem_cons_self, performs.before ▸ inTable, here⟩
        · exact ⟨e', List.mem_cons_of_mem _ member, removes⟩
      · exact absurd new.1 here
  · obtain ⟨e', member, m, removes, room, named⟩ := removed
    rcases List.mem_cons.mp member with rfl | old
    · exact room ▸ (settled m cid removes named).record performs
    · exact (single.ended roomId cid ⟨e', old, m, removes, room, named⟩).record performs
  · rcases persistedRows_record performs with same | ⟨m, persists, isRows⟩
    · rw [Journal.record_past, same]
      exact single.once roomId cid
    · rw [Journal.record_past, isRows]
      by_cases here : m.chatroomId = roomId ∧ m.clientMessageId = some cid
      · have none : (persistedRows j.past).filter (fun m =>
            m.chatroomId = roomId ∧ m.clientMessageId = some cid) = [] := by
          refine List.filter_eq_nil_iff.mpr fun m' member clash => ?_
          have persisted := mem_persistedRows.mp member
          refine single.commits performs lawful persists here.2 persisted ?_
          simpa [here.1] using clash
        rw [List.filter_cons_of_pos (by simpa using here), none]
        exact le_rfl
      · rw [List.filter_cons_of_neg (by simpa using here)]
        exact single.once roomId cid

theorem Single.begin {t : Nat} {request : Call} (single : Single j) (idle : j.calls t = none)
    (unused : j.log t = []) (unremoved : Unremoved j request) : Single (j.begin t request) := by
  refine ⟨single.kept.begin idle unused, single.traced, fun roomId cid removed u sending => ?_,
    single.once⟩
  obtain ⟨request', running, target⟩ := sending
  rcases Journal.of_calls_begin running with ⟨rfl, rfl⟩ | before
  · exact absurd removed (unremoved roomId cid target)
  · exact single.ended roomId cid removed u ⟨request', before, target⟩

end Step

theorem Fresh.single {s : Server} (fresh : Fresh s) : Single (.empty s) := by
  refine ⟨fresh.kept, ?_, ?_, fun roomId cid => Nat.zero_le _⟩
  · rintro m ⟨e, old, _⟩
    cases old
  · rintro roomId cid ⟨e, old, _⟩
    cases old

/-- A client id of a room is inserted at most once, in every run from `s` in which the calls are
those `admits` and the operations those `permits`. -/
def NeverResurrects (s : Server) (admits : History → Call → Prop)
    (permits : History → Event → Prop) : Prop :=
  ∀ j, service.Reaches admits permits s j → Once j.past

theorem never_resurrects (s : Server) (fresh : Fresh s) : NeverResurrects s Unremoved Settled := by
  intro j reaches
  have single : Single j :=
    reaches.invariant Single service_follows fresh.single
      (fun _ _ _ single idle unused unremoved => single.begin idle unused unremoved)
      fun _ _ single performs lawful => single.record performs lawful performs.permitted
  exact single.once

theorem never_resurrects_blank : NeverResurrects blank Unremoved Settled :=
  never_resurrects blank blank_fresh

/-- A message is sent and deleted, and sent again while its dedup key is still there. -/
def resent : Option History :=
  follow (fun _ => true) (.start 0 (post 7) :: steps 0 17 ++ .start 1 (.delete 1 1) :: steps 1 3 ++
    .start 2 (post 7) :: steps 2 18)

theorem resent_twice : resent.map (fun j => ((persistedRows j.past).filter fun m =>
    m.chatroomId = 1 ∧ m.clientMessageId = some 7).length) = some 2 := by
  decide +kernel

theorem resurrected : ¬NeverResurrects blank (fun _ _ => True) fun _ _ => True := by
  intro claim
  obtain ⟨j, ran, isTwo⟩ := Option.map_eq_some_iff.mp resent_twice
  have once := claim j (follow_reaches (fun _ _ _ => trivial) ran) 1 7
  rw [isTwo] at once
  exact absurd once (by decide)

end Rooms
