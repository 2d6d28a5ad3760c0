import CipherChat.Rooms.Effects
import Mathlib.Data.List.Pairwise

/-!
The table of messages: no two rows, committed or not, have an id, a number of a room or a
client id of a room in common, and an id that has been given is never given again.
-/

namespace Rooms

/-- Rows that no constraint of the table keeps apart from each other. -/
def Apart (m m' : Message) : Prop :=
  m.id ≠ m'.id ∧ ¬conflict m m'

theorem conflict_comm (m m' : Message) : conflict m m' = conflict m' m := by
  simp only [conflict, eq_comm]
  cases h : m.clientMessageId with
  | none => cases m'.clientMessageId <;> simp
  | some cid => cases m'.clientMessageId <;> simp

theorem Apart.symm {m m' : Message} (apart : Apart m m') : Apart m' m :=
  ⟨apart.1.symm, by rw [conflict_comm]; exact apart.2⟩

instance : Std.Symm Apart :=
  ⟨fun _ _ => Apart.symm⟩

namespace Server

/-- The rows of the table, with those of open transactions. -/
def rows (s : Server) : List Message :=
  s.messages ++ s.pending.map Prod.snd

theorem mem_rows_of_mem_messages {s : Server} {m : Message} (member : m ∈ s.messages) :
    m ∈ s.rows :=
  List.mem_append_left _ member

theorem mem_rows_of_mem_pending {s : Server} {t : Nat} {m : Message} (member : (t, m) ∈ s.pending) :
    m ∈ s.rows :=
  List.mem_append_right _ (List.mem_map_of_mem member)

section

variable {s : Server} {roomId : UUID} {m : Message}

theorem mem_inRoom : m ∈ s.inRoom roomId ↔ m ∈ s.messages ∧ m.chatroomId = roomId := by
  simp [Rooms.Server.inRoom]

theorem le_foldr {rows : List Message} (member : m ∈ rows) :
    m.sequenceNumber ≤ rows.foldr (fun m => max m.sequenceNumber) 0 := by
  induction rows with
  | nil => cases member
  | cons first rest ih =>
      rw [List.foldr_cons]
      rcases List.mem_cons.mp member with rfl | later
      · exact le_max_left _ _
      · exact (ih later).trans (le_max_right _ _)

theorem le_maxSequence (member : m ∈ s.messages) : m.sequenceNumber ≤ s.maxSequence m.chatroomId :=
  le_foldr (mem_inRoom.mpr ⟨member, rfl⟩)

end

end Server

structure Tidy (s : Server) : Prop where
  apart : s.rows.Pairwise Apart
  below : ∀ m ∈ s.rows, m.id < s.nextId

open List in
theorem Tidy.shrink {s s' : Server} (tidy : Tidy s) (fewer : s'.rows <+~ s.rows)
    (later : s.nextId ≤ s'.nextId) : Tidy s' := by
  refine ⟨?_, fun m member => lt_of_lt_of_le (tidy.below m (fewer.subset member)) later⟩
  obtain ⟨l, same, sub⟩ := fewer
  exact (same.pairwise_iff Apart.symm).mp (tidy.apart.sublist sub)

theorem Tidy.eq_of_id {s : Server} (tidy : Tidy s) {m m' : Message} (member : m ∈ s.rows)
    (member' : m' ∈ s.rows) (same : m.id = m'.id) : m = m' := by
  by_contra differ
  exact (tidy.apart.forall member member' differ).1 same

theorem Tidy.eq_of_conflict {s : Server} (tidy : Tidy s) {m m' : Message} (member : m ∈ s.rows)
    (member' : m' ∈ s.rows) (clash : conflict m m') : m = m' := by
  by_contra differ
  exact (tidy.apart.forall member member' differ).2 clash

open List in
theorem close_rows (s : Server) (t : Nat) : (s.close t).rows <+~ s.rows := by
  refine (Sublist.append_left (List.Sublist.map _ ?_) s.messages).subperm
  exact filter_sublist

open List in
/-- Committing moves a row from its transaction to the table. -/
theorem commit_rows {s : Server} {t : Nat} {m : Message} (inserted : s.pending.lookup t = some m) :
    ({ s.close t with messages := m :: s.messages } : Server).rows <+~ s.rows := by
  obtain ⟨before, after, split, _⟩ := List.lookup_eq_some_iff.mp inserted
  have kept : (s.close t).pending <+ before ++ after := by
    simp only [Server.close, split, filter_append, filter_cons]
    simpa using filter_sublist.append filter_sublist
  have moved : (m :: s.messages) ++ (s.close t).pending.map Prod.snd <+
      (m :: s.messages) ++ (before ++ after).map Prod.snd := (kept.map Prod.snd).append_left _
  refine moved.subperm.trans (Perm.subperm ?_)
  simp only [Server.rows, split, map_append, map_cons, cons_append]
  refine (perm_middle.symm.trans ?_)
  simpa only [append_assoc] using Perm.append_left s.messages perm_middle.symm

theorem mem_of_lookup {s : Server} {t : Nat} {m : Message} (inserted : s.pending.lookup t = some m) :
    (t, m) ∈ s.pending := by
  obtain ⟨before, after, split, _⟩ := List.lookup_eq_some_iff.mp inserted
  rw [split]
  simp

theorem lookup_close {s : Server} {t u : Nat} (other : t ≠ u) :
    (s.close u).pending.lookup t = s.pending.lookup t := by
  simp only [Server.close]
  induction s.pending with
  | nil => rfl
  | cons row rest ih =>
      obtain ⟨v, m⟩ := row
      by_cases gone : v = u
      · subst gone
        simp only [ne_eq, not_true, decide_false, Bool.false_eq_true, not_false_eq_true,
          List.filter_cons_of_neg]
        rw [ih, List.lookup_cons, beq_false_of_ne other]
      · by_cases mine : t = v
        · subst mine
          simp [gone]
        · have differ : (t == v) = false := beq_false_of_ne mine
          simpa [List.lookup_cons, differ, gone] using ih

namespace Outcome

variable {t : Nat} {s s' : Server} {op : Op} {result : op.Res}

theorem tidy (outcome : Outcome t s op result s') (tidy : Tidy s) : Tidy s' := by
  cases outcome with
  | same same => exact tidy.shrink (by rw [Server.rows, same.messages, same.pending, ← Server.rows]) same.nextId
  | saved m isDraft isNew apart free isAfter =>
      subst isAfter
      have moved : ({ s with nextId := s.nextId + 1, pending := (t, m) :: s.pending } : Server).rows.Perm
          (m :: s.rows) := List.perm_middle
      refine ⟨(moved.pairwise_iff Apart.symm).mpr (List.pairwise_cons.mpr ⟨?_, tidy.apart⟩), ?_⟩
      · intro m' member
        refine ⟨by rw [isNew]; exact (tidy.below m' member).ne', ?_⟩
        rcases List.mem_append.mp member with old | open'
        · exact apart m' old
        · obtain ⟨row, isOpen, rfl⟩ := List.mem_map.mp open'
          exact free row isOpen
      · intro m' member
        rcases List.mem_cons.mp (moved.subset member) with rfl | old
        · exact isNew ▸ Nat.lt_succ_self _
        · exact Nat.lt_succ_of_lt (tidy.below m' old)
  | committed m inserted isAfter => exact isAfter ▸ tidy.shrink (commit_rows inserted) le_rfl
  | closed _ _ isAfter => exact isAfter ▸ tidy.shrink (close_rows s t) le_rfl
  | seeded _ isAfter => exact isAfter ▸ tidy.shrink (.refl _) le_rfl
  | counted isAfter => exact isAfter ▸ tidy.shrink (.refl _) le_rfl
  | removed kept _ isAfter =>
      exact isAfter ▸ tidy.shrink (List.filter_sublist.append_right _).subperm le_rfl
  | evicted isAfter => exact isAfter ▸ tidy.shrink (.refl _) le_rfl
  | @crashed u _ _ isAfter => exact isAfter ▸ tidy.shrink (close_rows s u) le_rfl

theorem nextId_le (outcome : Outcome t s op result s') : s.nextId ≤ s'.nextId := by
  cases outcome with
  | same same => exact same.nextId
  | saved _ _ _ _ _ isAfter => exact isAfter ▸ Nat.le_succ _
  | committed _ _ isAfter | closed _ _ isAfter | seeded _ isAfter | counted isAfter
  | removed _ _ isAfter | evicted isAfter | crashed isAfter => exact isAfter ▸ le_rfl

/-- A row that was not there before has a new id. -/
theorem mem_rows (outcome : Outcome t s op result s') {m : Message} (member : m ∈ s'.rows) :
    m ∈ s.rows ∨ m.id = s.nextId := by
  cases outcome with
  | same same =>
      rw [Server.rows, same.messages, same.pending, ← Server.rows] at member
      exact .inl member
  | saved m' isDraft isNew apart free isAfter =>
      subst isAfter
      rcases List.mem_cons.mp (List.perm_middle.subset member) with rfl | old
      · exact .inr isNew
      · exact .inl old
  | committed m inserted isAfter =>
      subst isAfter
      exact .inl ((commit_rows inserted).subset member)
  | closed _ _ isAfter =>
      subst isAfter
      exact .inl ((close_rows s t).subset member)
  | removed kept _ isAfter =>
      subst isAfter
      exact .inl ((List.filter_sublist.append_right _).subset member)
  | @crashed u _ _ isAfter =>
      subst isAfter
      exact .inl ((close_rows s u).subset member)
  | seeded _ isAfter | counted isAfter | evicted isAfter =>
      subst isAfter
      exact .inl member

end Outcome

/-- No row has the id, or ever will, but one of this room and client id. -/
def Names (s : Server) (roomId : UUID) (clientId : Option UUID) (id : Nat) : Prop :=
  id < s.nextId ∧ ∀ m ∈ s.rows, m.id = id → m.chatroomId = roomId ∧ m.clientMessageId = clientId

theorem Names.after {s s' : Server} {t : Nat} {op : Op} {result : op.Res} {roomId : UUID}
    {clientId : Option UUID} {id : Nat} (names : Names s roomId clientId id)
    (outcome : Outcome t s op result s') : Names s' roomId clientId id := by
  refine ⟨lt_of_lt_of_le names.1 outcome.nextId_le, fun m member isId => ?_⟩
  rcases outcome.mem_rows member with old | isNew
  · exact names.2 m old isId
  · exact absurd (isId.symm.trans isNew) names.1.ne

theorem Tidy.names {s : Server} (tidy : Tidy s) {m : Message} (member : m ∈ s.rows) :
    Names s m.chatroomId m.clientMessageId m.id := by
  refine ⟨tidy.below m member, fun m' member' isId => ?_⟩
  rw [tidy.eq_of_id member' member isId]
  exact ⟨rfl, rfl⟩

end Rooms
