import CipherChat.Async.Contract
import CipherChat.Rooms.Transactions

/-!
What every request to a room keeps, and what it knows when it performs an operation: which rows
its transaction has written, and why.  A law is an invariant that such operations keep.
-/

namespace Chatrooms

open Async ReadCommitted
open Rooms (UUID JavaString JavaError Message Draft SendResult)

/-- The sender of a message, and its room. -/
def Call.sends : Call → Option (UUID × UUID)
  | send senderId roomId _ | sendFile senderId roomId _ => some (senderId, roomId)
  | _ => none

/-- The room is in the table. -/
def Server.Open (s : Server) (roomId : UUID) : Prop :=
  ∃ room, s.rooms.committed.get roomId.toNat = some room

/-- The transaction has written nothing. -/
structure Server.Idle (s : Server) (t : Nat) : Prop where
  rooms : s.rooms.Unwritten t
  members : s.members.Unwritten t
  readStates : s.readStates.Unwritten t
  pending : ∀ m, (t, m) ∉ s.messaging.pending

/-- A request lets a user in: by an invitation, because the room is public, or by sending. -/
def Entitled (request : Call) (s : Server) (m : ChatroomMember) : Prop :=
  (∃ inviterId, request = .invite m.chatroomId inviterId m.userId) ∨
    (∃ room, s.rooms.committed.get m.chatroomId.toNat = some room ∧ room.privateRoom = false) ∨
    request.sends = some (m.userId, m.chatroomId)

/-- The last change of a role was that of the target. -/
def handedOver (targetId : UUID) : Log Op Op.Res → Bool
  | [] => false
  | ⟨.setRole _ userId _, result⟩ :: earlier =>
      if userId = targetId then result.isOk || handedOver targetId earlier else false
  | _ :: earlier => handedOver targetId earlier

section Justified

variable (t : Nat) (j : History)

/-- The owner of a room that the transaction has inserted. -/
structure Founds (m : ChatroomMember) : Prop where
  isOwner : m.role = .owner
  opened : ∃ room, j.state.rooms.held m.chatroomId.toNat = some (t, some room) ∧
    room.createdBy = m.userId
  creates : ∃ name privateRoom, j.calls t = some (.create m.userId name privateRoom)

/-- A member who is let into a room. -/
structure Admits (m : ChatroomMember) : Prop where
  isMember : m.role = .member
  isOpen : j.state.Open m.chatroomId
  entitled : ∃ call, j.calls t = some call ∧ Entitled call j.state m

/-- The first change of a transfer, and the change that was asked for. -/
inductive Ranks (roomId actorId targetId : UUID) (role : Role) : UUID → Role → Prop
  | steps : role = .owner → j.state.members.Unwritten t →
      Ranks roomId actorId targetId role actorId .admin
  | asked : (∀ k version, j.state.members.held k = some (t, version) → role = .owner ∧
      k = inRoom roomId actorId ∧ ∃ m, version = some m ∧ m.role = .admin) →
      Ranks roomId actorId targetId role targetId role

/-- A room is opened with its owner. -/
def Founding : Prop :=
  ∀ k room, j.state.rooms.held k = some (t, some room) →
    j.state.members.held (inRoom room.id room.createdBy) =
      some (t, some ⟨room.id, room.createdBy, .owner⟩)

/-- A transfer has performed both its changes. -/
def Transferred : Prop :=
  ∀ roomId actorId targetId, j.calls t = some (.changeRole roomId actorId targetId .owner) →
    handedOver targetId (j.log t) = true

/-- What a request knows when it performs an operation. -/
def Justified : Op → Prop
  | .insertRoom room => j.state.Idle t ∧
      ∃ name privateRoom, j.calls t = some (.create room.createdBy name privateRoom)
  | .insertMember m => Founds t j m ∨ Admits t j m
  | .updateMember m => m.role = .member ∧ j.state.rooms.Unwritten t
  | .setRole roomId userId role => j.state.rooms.Unwritten t ∧
      ∃ actorId targetId asked, j.calls t = some (.changeRole roomId actorId targetId asked) ∧
        actorId ≠ targetId ∧ Ranks t j roomId actorId targetId asked userId role
  | .advance userId roomId _ => ∃ upTo, j.calls t = some (.markRead roomId userId upTo)
  | .backend (.save draft) => j.state.Idle t ∧ 0 < draft.sequenceNumber ∧
      ∃ call, j.calls t = some call ∧ call.sends = some (draft.senderId, draft.chatroomId)
  | .backend (.advance userId roomId sequence) => ∃ m, (t, m) ∈ j.state.messaging.pending ∧
      m.senderId = userId ∧ m.chatroomId = roomId ∧ m.sequenceNumber = sequence
  | .backend .commit => Founding t j ∧ Transferred t j
  | .backend op => (Op.backend op).foreign = false
  | _ => True

variable {t j}

theorem Justified.own {op : Op} (justified : Justified t j op) : op.foreign = false := by
  cases op with
  | backend op => cases op <;> first | rfl | exact justified
  | _ => rfl

end Justified

/-- What every run keeps. -/
structure Sound (j : History) : Prop where
  housed : ∀ m, j.state.members.Stored m → j.state.Open m.chatroomId
  hosting : ∀ t k m, j.state.members.held k = some (t, some m) → j.state.Open m.chatroomId ∨
    ∃ room, j.state.rooms.held m.chatroomId.toNat = some (t, some room)
  opening : ∀ t k version, j.state.rooms.held k = some (t, version) →
    j.state.rooms.committed.get k = none ∧ ∃ room, version = some room
  begun : ∀ t, j.log t = [] → j.state.Idle t

/-- What a step leaves unchanged for a transaction that does not perform it. -/
structure Stays (t : Nat) (s s' : Server) : Prop where
  rooms : ∀ k version, s'.rooms.held k = some (t, version) ↔ s.rooms.held k = some (t, version)
  members : ∀ k version, s'.members.held k = some (t, version) ↔ s.members.held k = some (t, version)
  readStates : ∀ k version, s'.readStates.held k = some (t, version) ↔
    s.readStates.held k = some (t, version)
  pending : ∀ m, (t, m) ∈ s'.messaging.pending ↔ (t, m) ∈ s.messaging.pending
  opened : ∀ k room, s.rooms.committed.get k = some room → s'.rooms.committed.get k = some room

namespace Stays

variable {t : Nat} {s s₁ s₂ : Server}

theorem refl (t : Nat) (s : Server) : Stays t s s :=
  ⟨fun _ _ => .rfl, fun _ _ => .rfl, fun _ _ => .rfl, fun _ => .rfl, fun _ _ => id⟩

theorem trans (first : Stays t s s₁) (second : Stays t s₁ s₂) : Stays t s s₂ :=
  ⟨fun k version => (second.rooms k version).trans (first.rooms k version),
    fun k version => (second.members k version).trans (first.members k version),
    fun k version => (second.readStates k version).trans (first.readStates k version),
    fun m => (second.pending m).trans (first.pending m),
    fun k room here => second.opened k room (first.opened k room here)⟩

theorem idle (stays : Stays t s s₁) (idle : s.Idle t) : s₁.Idle t :=
  ⟨fun k version isHeld => idle.rooms k version ((stays.rooms k version).mp isHeld),
    fun k version isHeld => idle.members k version ((stays.members k version).mp isHeld),
    fun k version isHeld => idle.readStates k version ((stays.readStates k version).mp isHeld),
    fun m pends => idle.pending m ((stays.pending m).mp pends)⟩

theorem isOpen (stays : Stays t s s₁) {roomId : UUID} (isOpen : s.Open roomId) : s₁.Open roomId :=
  isOpen.imp fun room => stays.opened _ room

end Stays

/-- What the others leave unchanged. -/
structure Rely (t : Nat) (j j' : History) : Prop extends Stays t j.state j'.state where
  log : j'.log t = j.log t

theorem Rely.trans {t : Nat} {j j₁ j₂ : History} (first : Rely t j j₁) (second : Rely t j₁ j₂) :
    Rely t j j₂ :=
  ⟨first.toStays.trans second.toStays, second.log.trans first.log⟩

section Step

variable {permits : History → Event → Prop} {j : History} {e : Event} (sound : Sound j)
  (performs : j.Performs service permits e)

include performs in
theorem performs_outcome : Outcome e.thread j.state e.op e.result e.after := by
  have exec := performs.exec
  rw [performs.before] at exec
  exact Exec.outcome exec

include sound in
/-- A room that is open stays as it is. -/
theorem Sound.opened {t : Nat} {op : Op} {result : op.Res} {s' : Server}
    (outcome : Outcome t j.state op result s') {k : Nat} {room : Chatroom}
    (here : j.state.rooms.committed.get k = some room) : s'.rooms.committed.get k = some room := by
  rw [outcome.rooms.get_of_not_held fun version isHeld => ?_]
  · exact here
  · cases (sound.opening _ k version isHeld).1.symm.trans here

include sound in
theorem Sound.stays_open {t : Nat} {op : Op} {result : op.Res} {s' : Server}
    (outcome : Outcome t j.state op result s') {roomId : UUID} (isOpen : j.state.Open roomId) :
    s'.Open roomId :=
  isOpen.imp fun _ => sound.opened outcome

include sound in
/-- The room of a row that is written back. -/
theorem Sound.open_of_view {t : Nat} (unwritten : j.state.rooms.Unwritten t) {k : ℕ ×ₗ ℕ}
    {m : ChatroomMember} (seen : j.state.members.view t k = some m) : j.state.Open m.chatroomId := by
  have isKey : m.key = k := Database.key_of_view seen
  by_cases mine : ∃ version, j.state.members.held k = some (t, version)
  · obtain ⟨version, isHeld⟩ := mine
    rw [Database.view_of_held isHeld] at seen
    subst seen
    rcases sound.hosting t k m isHeld with isOpen | ⟨room, isHeld'⟩
    · exact isOpen
    · exact absurd isHeld' (unwritten _ _)
  · rw [Database.view_of_not_held fun version isHeld => mine ⟨version, isHeld⟩] at seen
    exact sound.housed m (Database.stored_of_get seen)

theorem key_eq {roomId roomId' userId userId' : UUID} :
    inRoom roomId userId = inRoom roomId' userId' ↔ roomId = roomId' ∧ userId = userId' := by
  rw [inRoom, inRoom, toLex_inj, Prod.mk.injEq, BitVec.toNat_inj, BitVec.toNat_inj]

theorem Server.commit_member {s : Server} {t : Nat} {m : ChatroomMember}
    (stored : (s.commit t).members.Stored m) :
    s.members.Stored m ∨ s.members.held m.key = some (t, some m) := by
  rw [Database.Stored, show (s.commit t).members = s.members.commit t from rfl,
    Database.get_commit] at stored
  by_cases mine : ∃ version, s.members.held m.key = some (t, version)
  · obtain ⟨version, isHeld⟩ := mine
    rw [Database.view_of_held isHeld] at stored
    exact .inr (stored ▸ isHeld)
  · rw [Database.view_of_not_held fun version isHeld => mine ⟨version, isHeld⟩] at stored
    exact .inl stored

theorem Server.commit_room {s : Server} {t k : Nat} {room : Chatroom}
    (isHeld : s.rooms.held k = some (t, some room)) :
    (s.commit t).rooms.committed.get k = some room := by
  rw [show (s.commit t).rooms = s.rooms.commit t from rfl, Database.get_commit,
    Database.view_of_held isHeld]

/-- The end of a transaction leaves nothing of it. -/
theorem Outcome.idle {s s' : Server} {t : Nat} {op : Op} {result : op.Res}
    (outcome : Outcome t s op result s') (ends : op.ends = true) : s'.Idle t := by
  have closes (m : Message) : (t, m) ∉ (s.messaging.close t).pending :=
    fun pends => (mem_close.mp pends).2 rfl
  have isEnd : op = .backend .commit ∨ op = .backend .rollback := by
    unfold Op.ends at ends
    split at ends
    · exact .inl rfl
    · exact .inr rfl
    · cases ends
  have fromCommit : (s.commit t).Idle t :=
    ⟨fun _ _ isHeld => (Database.held_of_commit isHeld).2 rfl,
      fun _ _ isHeld => (Database.held_of_commit isHeld).2 rfl,
      fun _ _ isHeld => (Database.held_of_commit isHeld).2 rfl, closes⟩
  have fromRollback : (s.rollback t).Idle t :=
    ⟨fun _ _ isHeld => (Database.held_of_rollback isHeld).2 rfl,
      fun _ _ isHeld => (Database.held_of_rollback isHeld).2 rfl,
      fun _ _ isHeld => (Database.held_of_rollback isHeld).2 rfl, closes⟩
  cases outcome with
  | committed => exact fromCommit
  | closed => exact fromRollback
  | same going => cases going.symm.trans ends
  | messaged _ going => cases going.symm.trans ends
  | advanced advances => rcases isEnd with rfl | rfl <;> cases advances
  | foreign _ isForeign => rcases isEnd with rfl | rfl <;> cases isForeign
  | _ => cases ends

/-- A room that is inserted is held until its transaction ends. -/
theorem Outcome.keeps_room {s s' : Server} {t u : Nat} {op : Op} {result : op.Res}
    (outcome : Outcome t s op result s') {k : Nat} {room : Chatroom}
    (isHeld : s.rooms.held k = some (u, some room)) (going : u = t → op.ends = false) :
    s'.rooms.held k = some (u, some room) := by
  by_cases mine : u = t
  · subst mine
    cases outcome with
    | opened _ seen =>
        refine Database.held_write.trans ?_
        rw [if_neg, isHeld]
        rintro rfl
        cases seen.symm.trans (Database.view_of_held isHeld)
    | committed => cases going rfl
    | closed ends => cases (going rfl).symm.trans ends
    | _ => exact isHeld
  · exact (outcome.rooms.held_other mine).mpr isHeld

/-- What a transaction has written is not in the table before it commits. -/
theorem Outcome.get_of_held {s s' : Server} {t u : Nat} {op : Op} {result : op.Res}
    (outcome : Outcome t s op result s') {k : ℕ ×ₗ ℕ} {version : Option ChatroomMember}
    (isHeld : s'.members.held k = some (u, version)) :
    s'.members.committed.get k = s.members.committed.get k := by
  rcases outcome.committed_eq with ⟨_, rfl⟩ | ⟨_, same, _⟩
  · obtain ⟨before, other⟩ := Database.held_of_commit isHeld
    exact outcome.members.get_of_held_other other before
  · rw [same]

section Record

variable (justified : Justified e.thread j e.op)
include sound performs

theorem housed_record (m : ChatroomMember) (stored : e.after.members.Stored m) :
    e.after.Open m.chatroomId := by
  have outcome := performs_outcome performs
  rcases outcome.committed_eq with ⟨_, isAfter⟩ | ⟨_, same, _⟩
  · rw [isAfter] at stored ⊢
    rcases Server.commit_member stored with old | isHeld
    · exact isAfter ▸ sound.stays_open outcome (sound.housed m old)
    · rcases sound.hosting _ _ m isHeld with isOpen | ⟨room, isHeld'⟩
      · exact isAfter ▸ sound.stays_open outcome isOpen
      · exact ⟨room, Server.commit_room isHeld'⟩
  · rw [Database.Stored, same] at stored
    exact sound.stays_open outcome (sound.housed m stored)

include justified

theorem hosting_record (t : Nat) (k : ℕ ×ₗ ℕ) (m : ChatroomMember)
    (isHeld : e.after.members.held k = some (t, some m)) : e.after.Open m.chatroomId ∨
      ∃ room, e.after.rooms.held m.chatroomId.toNat = some (t, some room) := by
  have outcome := performs_outcome performs
  have keeps {k' : Nat} {room : Chatroom} (isHeld' : j.state.rooms.held k' = some (t, some room)) :
      e.after.rooms.held k' = some (t, some room) := by
    refine outcome.keeps_room isHeld' fun isSelf => Bool.eq_false_iff.mpr fun ends => ?_
    exact (outcome.idle ends).members k (some m) (isSelf ▸ isHeld)
  rcases outcome.held_member isHeld with old | ⟨rfl, wrote⟩
  · rcases sound.hosting t k m old with isOpen | ⟨room, isHeld'⟩
    · exact .inl (sound.stays_open outcome isOpen)
    · exact .inr ⟨room, keeps isHeld'⟩
  · obtain ⟨t, call, op, result, before, after⟩ := e
    cases wrote with
    | inserted =>
        rcases justified with founds | admits
        · obtain ⟨room, isHeld', _⟩ := founds.opened
          exact .inr ⟨room, keeps isHeld'⟩
        · exact .inl (sound.stays_open outcome admits.isOpen)
    | updated old seen =>
        have isOpen := sound.open_of_view justified.2 seen
        have sameKey : old.key = m.key := Database.key_of_view seen
        have sameRoom : old.chatroomId = m.chatroomId := (key_eq.mp sameKey).1
        exact .inl (sound.stays_open outcome (sameRoom ▸ isOpen))
    | ranked old seen =>
        have isOpen := sound.open_of_view justified.1 seen
        exact .inl (sound.stays_open outcome isOpen)

theorem opening_record (t k : Nat) (version : Option Chatroom)
    (isHeld : e.after.rooms.held k = some (t, version)) :
    e.after.rooms.committed.get k = none ∧ ∃ room, version = some room := by
  have outcome := performs_outcome performs
  have absent : j.state.rooms.committed.get k = none ∧ ∃ room, version = some room := by
    rcases outcome.held_room isHeld with old | ⟨rfl, room, isOp, rfl, rfl, seen⟩
    · exact sound.opening t k version old
    · rw [isOp] at justified
      rw [justified.1.rooms.view] at seen
      exact ⟨seen, room, rfl⟩
  refine ⟨?_, absent.2⟩
  rcases outcome.committed_eq with ⟨isOp, isAfter⟩ | ⟨same, _⟩
  · rw [isAfter] at isHeld ⊢
    obtain ⟨old, other⟩ := Database.held_of_commit isHeld
    refine Database.get_commit.trans ?_
    rw [Database.view_of_not_held fun version' mine => ?_]
    · exact absent.1
    · rw [old] at mine
      exact other (Prod.mk.inj (Option.some.inj mine)).1
  · rw [same]
    exact absent.1

theorem rely_record {t : Nat} (other : t ≠ e.thread) : Rely t j (j.record e) := by
  have outcome := performs_outcome performs
  refine ⟨⟨fun _ _ => outcome.rooms.held_other other, fun _ _ => outcome.members.held_other other,
    fun _ _ => outcome.readStates.held_other other,
    fun _ => outcome.pending_other justified.own other, fun _ _ => sound.opened outcome⟩, ?_⟩
  exact Journal.record_log_of_ne (Ne.symm other)

theorem sound_record : Sound (j.record e) := by
  refine ⟨housed_record sound performs, hosting_record sound performs justified,
    opening_record sound performs justified, fun t none => ?_⟩
  by_cases mine : t = e.thread
  · subst mine
    rw [Journal.record_log_self] at none
    cases none
  · rw [Journal.record_log_of_ne (Ne.symm mine)] at none
    exact (rely_record sound performs justified mine).idle (sound.begun t none)

end Record

end Step

/-- An invariant that operations keep when requests know what they know. -/
structure Law (permits : History → Event → Prop) where
  inv : History → Prop
  begun : ∀ j t call, inv j → j.calls t = none → inv (j.begin t call)
  kept : ∀ j e, Sound j → inv j → j.Performs service permits e → Justified e.thread j e.op →
    inv (j.record e)

/-- What every request keeps, under a law. -/
def contract {permits : History → Event → Prop} (law : Law permits) : Contract service permits where
  inv j := Sound j ∧ law.inv j
  rely := Rely
  justified := Justified
  refl t j := ⟨.refl t j.state, rfl⟩
  trans _ _ _ _ := Rely.trans
  kept j e inv performs justified :=
    ⟨sound_record inv.1 performs justified, law.kept j e inv.1 inv.2 performs justified⟩
  others _ _ _ inv performs justified other := rely_record inv.1 performs justified other

end Chatrooms
