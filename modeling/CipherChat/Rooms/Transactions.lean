import CipherChat.Rooms.Membership

/-!
What one operation on the rooms can do.  The tables change as a transaction changes them; the
messages change when one is saved, and when its transaction ends.
-/

namespace Chatrooms

open Async ReadCommitted
open Rooms (UUID JavaError Message)

/-- The watermark that a statement raises, and how far. -/
def Op.advances : Op → Option (UUID × UUID × Int)
  | .advance userId roomId sequence => some (userId, roomId, sequence)
  | .backend (.advance userId roomId sequence) => some (userId, roomId, sequence)
  | _ => none

/-- Operations on messages that a request to a room does not perform. -/
def Op.foreign : Op → Bool
  | .backend (.delete _) | .backend (.deleteExpired _) | .backend (.crash _) => true
  | _ => false

def Op.ends : Op → Bool
  | .backend .commit | .backend .rollback => true
  | _ => false

/-- What an operation can do, said once. -/
inductive Outcome (t : Nat) (s : Server) : (op : Op) → op.Res → Server → Prop
  | same {op result} : op.ends = false → Outcome t s op result s
  | opened {room result} : s.rooms.locked t room.key = false → s.rooms.view t room.key = none →
      Outcome t s (.insertRoom room) result { s with rooms := s.rooms.write t room }
  | inserted {m result} : s.members.locked t m.key = false → s.members.view t m.key = none →
      Outcome t s (.insertMember m) result { s with members := s.members.write t m }
  | updated {m result} (old : ChatroomMember) : s.members.locked t m.key = false →
      s.members.view t m.key = some old →
      Outcome t s (.updateMember m) result { s with members := s.members.write t m }
  | removed {roomId userId result} (old : ChatroomMember) :
      s.members.locked t (inRoom roomId userId) = false →
      s.members.view t (inRoom roomId userId) = some old →
      Outcome t s (.removeMember roomId userId) result
        { s with members := s.members.erase t (inRoom roomId userId) }
  | ranked {roomId userId role result} (old : ChatroomMember) :
      s.members.locked t (inRoom roomId userId) = false →
      s.members.view t (inRoom roomId userId) = some old →
      Outcome t s (.setRole roomId userId role) result
        { s with members := s.members.write t { old with role } }
  | advanced {op result userId roomId sequence} : op.advances = some (userId, roomId, sequence) →
      s.readStates.locked t (inRoom roomId userId) = false →
      Outcome t s op result {
        s with
        readStates := s.readStates.write t
          (.advanced userId roomId sequence (s.readStates.view t (inRoom roomId userId))) }
  | saved {draft result} (m : Message) (messaging : Rooms.Server) : m.toDraft = draft →
      messaging.messages = s.messaging.messages →
      messaging.pending = (t, m) :: s.messaging.pending →
      Outcome t s (.backend (.save draft)) result { s with messaging }
  | messaged {op result} (messaging : Rooms.Server) : (Op.backend op).ends = false →
      messaging.messages = s.messaging.messages → messaging.pending = s.messaging.pending →
      Outcome t s (.backend op) result { s with messaging }
  | foreign {op result} (messaging : Rooms.Server) : op.foreign = true →
      Outcome t s op result { s with messaging }
  | committed {result} : Outcome t s (.backend .commit) result (s.commit t)
  | closed {op result} : op.ends = true → Outcome t s op result (s.rollback t)

section Effect

variable {t : Nat} {s s' : Server} {op : Op}

/-- An operation on messages changes messages only. -/
theorem messaging_outcome {op : Rooms.Op} {a : Answer} {result answered : op.Res}
    (going : (Op.backend op).ends = false) {messaging : Rooms.Server}
    (effected : Rooms.effect t s.messaging op a.messaging = some (answered, messaging)) :
    Outcome t s (.backend op) result { s with messaging } := by
  cases op with
  | save draft =>
      simp only [Rooms.effect] at effected
      split at effected
      · obtain ⟨_, rfl⟩ := Prod.mk.inj (Option.some.inj effected)
        exact .messaged _ rfl rfl rfl
      · split at effected
        · contradiction
        · obtain ⟨_, rfl⟩ := Prod.mk.inj (Option.some.inj effected)
          exact .saved _ _ rfl rfl rfl
  | setIfAbsent key value =>
      simp only [Rooms.effect] at effected
      split at effected
      · obtain ⟨_, rfl⟩ := Prod.mk.inj (Option.some.inj effected)
        exact .messaged _ rfl rfl rfl
      · obtain ⟨_, rfl⟩ := Prod.mk.inj (Option.some.inj effected)
        exact .messaged _ rfl rfl rfl
  | commit | rollback => cases going
  | delete | deleteExpired | crash => exact .foreign _ rfl
  | _ =>
      obtain ⟨_, rfl⟩ := Prod.mk.inj (Option.some.inj effected)
      exact .messaged _ rfl rfl rfl

theorem backend_effect {op : Rooms.Op} {a : Answer} (plain : (Op.backend op).advances = none)
    (going : (Op.backend op).ends = false) : effect t s (.backend op) a =
      (Rooms.effect t s.messaging op a.messaging).map fun (answer, messaging) =>
        (answer, { s with messaging }) := by
  cases op with
  | advance => cases plain
  | commit | rollback => cases going
  | _ => rfl

theorem backend_outcome {op : Rooms.Op} {a : Answer} {result answered : op.Res}
    (plain : (Op.backend op).advances = none) (going : (Op.backend op).ends = false)
    (effected : effect t s (.backend op) a = some (answered, s')) :
    Outcome t s (.backend op) result s' := by
  rw [backend_effect plain going] at effected
  obtain ⟨⟨_, messaging⟩, effected', same⟩ := Option.map_eq_some_iff.mp effected
  obtain ⟨_, rfl⟩ := Prod.mk.inj same
  exact messaging_outcome going effected'

theorem advance_outcome {op : Op} {userId roomId : UUID} {sequence : Int} {result : op.Res}
    (advances : op.advances = some (userId, roomId, sequence)) {answered : Except JavaError Unit}
    (effected : s.advance t userId roomId sequence = some (answered, s')) :
    Outcome t s op result s' := by
  obtain ⟨row, reached, same⟩ := Option.map_eq_some_iff.mp effected
  obtain ⟨free, rfl⟩ := Database.reach_eq_some.mp reached
  obtain ⟨_, rfl⟩ := Prod.mk.inj same
  exact .advanced advances free

theorem effect_outcome {a : Answer} {result answered : op.Res}
    (effected : effect t s op a = some (answered, s')) : Outcome t s op result s' := by
  cases op with
  | findRoomByName | findRoom | findMember | generateId | markReadUpTo | publish | respond =>
      obtain ⟨_, rfl⟩ := Prod.mk.inj (Option.some.inj effected)
      exact .same rfl
  | insertRoom room =>
      simp only [effect, Server.insertRoom] at effected
      split at effected
      · contradiction
      · obtain ⟨row, reached, same⟩ := Option.map_eq_some_iff.mp effected
        obtain ⟨free, seen⟩ := Database.reach_eq_some.mp reached
        cases row with
        | some old =>
            obtain ⟨_, rfl⟩ := Prod.mk.inj same
            exact .same rfl
        | none =>
            dsimp only at same
            split at same
            · obtain ⟨_, rfl⟩ := Prod.mk.inj same
              exact .same rfl
            · obtain ⟨_, rfl⟩ := Prod.mk.inj same
              exact .opened free seen
  | insertMember m =>
      obtain ⟨row, reached, same⟩ := Option.map_eq_some_iff.mp effected
      obtain ⟨free, seen⟩ := Database.reach_eq_some.mp reached
      cases row with
      | some old =>
          obtain ⟨_, rfl⟩ := Prod.mk.inj same
          exact .same rfl
      | none =>
          obtain ⟨_, rfl⟩ := Prod.mk.inj same
          exact .inserted free seen
  | updateMember m =>
      obtain ⟨row, reached, same⟩ := Option.map_eq_some_iff.mp effected
      obtain ⟨free, seen⟩ := Database.reach_eq_some.mp reached
      cases row with
      | some old =>
          obtain ⟨_, rfl⟩ := Prod.mk.inj same
          exact .updated old free seen
      | none =>
          obtain ⟨_, rfl⟩ := Prod.mk.inj same
          exact .same rfl
  | removeMember roomId userId =>
      obtain ⟨row, reached, same⟩ := Option.map_eq_some_iff.mp effected
      obtain ⟨free, seen⟩ := Database.reach_eq_some.mp reached
      cases row with
      | some old =>
          obtain ⟨_, rfl⟩ := Prod.mk.inj same
          exact .removed old free seen
      | none =>
          obtain ⟨_, rfl⟩ := Prod.mk.inj same
          exact .same rfl
  | setRole roomId userId role =>
      obtain ⟨row, reached, same⟩ := Option.map_eq_some_iff.mp effected
      obtain ⟨free, seen⟩ := Database.reach_eq_some.mp reached
      cases row with
      | some old =>
          obtain ⟨_, rfl⟩ := Prod.mk.inj same
          exact .ranked old free seen
      | none =>
          obtain ⟨_, rfl⟩ := Prod.mk.inj same
          exact .same rfl
  | advance userId roomId sequence => exact advance_outcome rfl effected
  | backend op =>
      cases op with
      | advance userId roomId sequence => exact advance_outcome rfl effected
      | commit =>
          obtain ⟨_, rfl⟩ := Prod.mk.inj (Option.some.inj effected)
          exact .committed
      | rollback =>
          obtain ⟨_, rfl⟩ := Prod.mk.inj (Option.some.inj effected)
          exact .closed rfl
      | _ => exact backend_outcome rfl rfl effected

theorem failed_outcome {result : op.Res} : Outcome t s op result (failed t s op) := by
  cases ends : op.ends with
  | false =>
      have same : failed t s op = s := by
        unfold failed
        split
        · cases ends
        · cases ends
        · rfl
      rw [same]
      exact .same ends
  | true =>
      have same : failed t s op = s.rollback t := by
        unfold failed
        split
        · rfl
        · rfl
        next commit rollback =>
          unfold Op.ends at ends
          split at ends
          · exact absurd rfl commit
          · exact absurd rfl rollback
          · cases ends
      rw [same]
      exact .closed ends

theorem Exec.outcome {result : op.Res} (exec : Exec t s op result s') : Outcome t s op result s' := by
  obtain ⟨a, performed⟩ := exec
  exact faulty_leaves (fun _ _ => effect_outcome) failed_outcome performed

/-- An operation that answers has had its effect. -/
theorem Exec.effect_of_ok {value : op.Val} (exec : Exec t s op (.ok value) s') :
    ∃ a, effect t s op a = some (.ok value, s') :=
  exec.elim fun a performed => ⟨a, faulty_ok performed⟩

theorem Exec.insertRoom_ok {room : Chatroom} {value : Unit}
    (exec : Exec t s (.insertRoom room) (.ok value) s') :
    s.rooms.view t room.key = none ∧ s' = { s with rooms := s.rooms.write t room } := by
  obtain ⟨a, effected⟩ := exec.effect_of_ok
  simp only [effect, Server.insertRoom] at effected
  split at effected
  · contradiction
  · obtain ⟨row, reached, same⟩ := Option.map_eq_some_iff.mp effected
    obtain ⟨_, seen⟩ := Database.reach_eq_some.mp reached
    cases row with
    | some old => cases (Prod.mk.inj same).1
    | none =>
        dsimp only at same
        split at same
        · cases (Prod.mk.inj same).1
        · exact ⟨seen, (Prod.mk.inj same).2.symm⟩

theorem Exec.insertMember_ok {m : ChatroomMember} {value : Unit}
    (exec : Exec t s (.insertMember m) (.ok value) s') :
    s' = { s with members := s.members.write t m } := by
  obtain ⟨a, effected⟩ := exec.effect_of_ok
  obtain ⟨row, _, same⟩ := Option.map_eq_some_iff.mp effected
  cases row with
  | some old => cases (Prod.mk.inj same).1
  | none => exact (Prod.mk.inj same).2.symm

theorem Exec.save_ok {draft : Rooms.Draft} {m : Message}
    (exec : Exec t s (.backend (.save draft)) (.ok m) s') :
    m.toDraft = draft ∧ (t, m) ∈ s'.messaging.pending ∧ s'.rooms = s.rooms := by
  obtain ⟨a, effected⟩ := exec.effect_of_ok
  rw [backend_effect rfl rfl] at effected
  obtain ⟨⟨answered, messaging⟩, saved, same⟩ := Option.map_eq_some_iff.mp effected
  obtain ⟨rfl, rfl⟩ := Prod.mk.inj same
  simp only [Rooms.effect] at saved
  split at saved
  · cases (Prod.mk.inj (Option.some.inj saved)).1
  · split at saved
    · contradiction
    · obtain ⟨isSaved, rfl⟩ := Prod.mk.inj (Option.some.inj saved)
      obtain rfl := Except.ok.inj isSaved
      exact ⟨rfl, List.mem_cons_self, rfl⟩

end Effect

section Changes

variable {t u : Nat} {s s' : Server} {op : Op} {result : op.Res}

theorem Outcome.rooms (outcome : Outcome t s op result s') : Change t s.rooms s'.rooms := by
  cases outcome with
  | opened free _ => exact .write _ free
  | committed => exact .commit
  | closed => exact .rollback
  | _ => exact .none

theorem Outcome.members (outcome : Outcome t s op result s') : Change t s.members s'.members := by
  cases outcome with
  | inserted free _ | updated _ free _ => exact .write _ free
  | ranked old free seen =>
      refine .write _ ?_
      rw [← Database.key_of_view seen] at free
      exact free
  | removed _ free _ => exact .erase _ free
  | committed => exact .commit
  | closed => exact .rollback
  | _ => exact .none

theorem Outcome.readStates (outcome : Outcome t s op result s') :
    Change t s.readStates s'.readStates := by
  cases outcome with
  | advanced _ free => exact .write _ free
  | committed => exact .commit
  | closed => exact .rollback
  | _ => exact .none

/-- An open transaction changes the rooms by inserting one. -/
theorem Outcome.rooms_eq (outcome : Outcome t s op result s') (going : op.ends = false)
    (closed : ∀ room, op ≠ .insertRoom room) : s'.rooms = s.rooms := by
  cases outcome with
  | opened => exact absurd rfl (closed _)
  | committed => cases going
  | closed ends => cases going.symm.trans ends
  | _ => rfl

theorem Outcome.setRole {roomId userId : UUID} {role : Role} {answered : Except JavaError Unit}
    (outcome : Outcome t s (.setRole roomId userId role) answered s') :
    s' = s ∨ ∃ old, s.members.view t (inRoom roomId userId) = some old ∧
      s' = { s with members := s.members.write t { old with role } } := by
  cases outcome with
  | same => exact .inl rfl
  | ranked old _ seen => exact .inr ⟨old, seen, rfl⟩
  | advanced advances => cases advances
  | foreign _ isForeign => cases isForeign
  | closed ends => cases ends

/-- What is in the tables only a commit changes. -/
theorem Outcome.committed_eq (outcome : Outcome t s op result s') :
    op = .backend .commit ∧ s' = s.commit t ∨
      s'.rooms.committed = s.rooms.committed ∧ s'.members.committed = s.members.committed ∧
        s'.readStates.committed = s.readStates.committed := by
  cases outcome with
  | committed => exact .inl ⟨rfl, rfl⟩
  | _ => exact .inr ⟨rfl, rfl, rfl⟩

/-- A message is sent by the end of its transaction. -/
theorem Outcome.messages (outcome : Outcome t s op result s') (own : op.foreign = false) :
    s'.messaging.messages = s.messaging.messages ∨ op = .backend .commit ∧ s' = s.commit t := by
  cases outcome with
  | saved _ _ _ same _ => exact .inl same
  | messaged _ _ same _ => exact .inl same
  | foreign _ isForeign => cases own.symm.trans isForeign
  | committed => exact .inr ⟨rfl, rfl⟩
  | _ => exact .inl rfl

theorem Outcome.messages_subset (outcome : Outcome t s op result s') (own : op.foreign = false) :
    s.messaging.messages ⊆ s'.messaging.messages := by
  rcases outcome.messages own with same | ⟨_, rfl⟩
  · rw [same]
    exact List.Subset.refl _
  · exact List.subset_append_right _ _

theorem mem_close {messaging : Rooms.Server} {m : Message} :
    (u, m) ∈ (messaging.close t).pending ↔ (u, m) ∈ messaging.pending ∧ u ≠ t := by
  simp [Rooms.Server.close]

theorem Outcome.pending_other (outcome : Outcome t s op result s') (own : op.foreign = false)
    (other : u ≠ t) {m : Message} :
    (u, m) ∈ s'.messaging.pending ↔ (u, m) ∈ s.messaging.pending := by
  cases outcome with
  | saved _ _ _ _ same =>
      rw [same]
      simp [other]
  | messaged _ _ _ same => rw [same]
  | foreign _ isForeign => cases own.symm.trans isForeign
  | committed | closed => exact mem_close.trans (and_iff_left other)
  | _ => rfl

/-- A row about a member that a statement writes. -/
inductive Wrote (t : Nat) (s : Server) : Op → ChatroomMember → Prop
  | inserted {m} : s.members.view t m.key = none → Wrote t s (.insertMember m) m
  | updated {m} (old : ChatroomMember) : s.members.view t m.key = some old →
      Wrote t s (.updateMember m) m
  | ranked {roomId userId role} (old : ChatroomMember) :
      s.members.view t (inRoom roomId userId) = some old →
      Wrote t s (.setRole roomId userId role) { old with role }

theorem Outcome.held_member (outcome : Outcome t s op result s') {k : ℕ ×ₗ ℕ} {m : ChatroomMember}
    (isHeld : s'.members.held k = some (u, some m)) :
    s.members.held k = some (u, some m) ∨ u = t ∧ Wrote t s op m := by
  have written {m' : ChatroomMember} (wrote : Wrote t s op m')
      (isHeld : (s.members.write t m').held k = some (u, some m)) :
      s.members.held k = some (u, some m) ∨ u = t ∧ Wrote t s op m := by
    rcases Database.held_of_write isHeld with old | ⟨isSelf, _, same⟩
    · exact .inl old
    · exact .inr ⟨isSelf, Option.some.inj same ▸ wrote⟩
  cases outcome with
  | inserted _ seen => exact written (.inserted seen) isHeld
  | updated old _ seen => exact written (.updated old seen) isHeld
  | ranked old _ seen => exact written (.ranked old seen) isHeld
  | removed =>
      rcases Database.held_of_erase isHeld with old | ⟨_, _, none⟩
      · exact .inl old
      · cases none
  | committed => exact .inl (Database.held_of_commit isHeld).1
  | closed => exact .inl (Database.held_of_rollback isHeld).1
  | _ => exact .inl isHeld

theorem Outcome.held_room (outcome : Outcome t s op result s') {k : Nat} {version : Option Chatroom}
    (isHeld : s'.rooms.held k = some (u, version)) :
    s.rooms.held k = some (u, version) ∨
      u = t ∧ ∃ room, op = .insertRoom room ∧ room.key = k ∧ version = some room ∧
        s.rooms.view t room.key = none := by
  cases outcome with
  | opened _ seen =>
      rcases Database.held_of_write isHeld with old | ⟨isSelf, isKey, same⟩
      · exact .inl old
      · exact .inr ⟨isSelf, _, rfl, isKey, same, seen⟩
  | committed => exact .inl (Database.held_of_commit isHeld).1
  | closed => exact .inl (Database.held_of_rollback isHeld).1
  | _ => exact .inl isHeld

end Changes

end Chatrooms
