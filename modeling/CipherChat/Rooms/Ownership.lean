import CipherChat.Rooms.Stale

/-!
A room has one owner.  The owner hands the room over in two changes, of which neither looks at
what it finds: the roles were read before, and may not be what they were.
-/

namespace Chatrooms

open Async ReadCommitted
open Rooms (UUID)

section Owners

variable (s : Server) (t : Nat) (k : ℕ ×ₗ ℕ)

/-- The row is that of an owner. -/
def Server.owned : Bool :=
  (s.members.committed.get k).any fun m => m.role = .owner

/-- The transaction sees the row of an owner. -/
def Server.seesOwner : Bool :=
  (s.members.view t k).any fun m => m.role = .owner

def Server.owners (roomId : UUID) : List ChatroomMember :=
  s.members.committed.rows.filter fun m => m.chatroomId = roomId && m.role = .owner

/-- The transaction has changed the row of an owner, who is none for it. -/
def Server.Taken : Prop :=
  s.owned k = true ∧ s.seesOwner t k = false

/-- The transaction has made the member of a row an owner. -/
def Server.Given : Prop :=
  s.owned k = false ∧ s.seesOwner t k = true

end Owners

/-- In every run from `s` whose operations are those `permits`, each room has exactly one owner
whenever no transaction is open. -/
def OneOwner (s : Server) (permits : History → Event → Prop) : Prop :=
  ∀ j, service.Reaches (fun _ _ => True) permits s j → (∀ t, j.state.Idle t) →
    ∀ room, j.state.rooms.Stored room → ∃ owner, j.state.owners room.id = [owner]

/-- The room of which a statement changes or removes a member that was there. -/
def Op.revises : Op → Option UUID
  | .updateMember m => some m.chatroomId
  | .removeMember roomId _ | .setRole roomId _ _ => some roomId
  | _ => none

/-- The commit of a change of the members of a room. -/
def Event.alters (e : Event) (roomId : UUID) : Prop :=
  ∃ userId, e.after.members.committed.get (inRoom roomId userId) ≠
    e.before.members.committed.get (inRoom roomId userId)

/-- Between what a request reads of the members of a room and a change that it makes to them, no
other request commits one. -/
def Alone (j : History) (e : Event) : Prop :=
  ∀ roomId, e.op.revises = some roomId → ∀ later read earlier userId, j.past = later ++ read :: earlier →
    read.thread = e.thread → read.op = .findMember roomId userId →
      ∀ x ∈ later, x.thread ≠ e.thread → ¬Event.alters x roomId

/-- The roles are still what the request has read: a row that is written over or removed is not an
owner's, and the target of a transfer is a member who is no owner exactly if the actor, whose row
comes first, was the owner. -/
def RolesStand (_ : History) (e : Event) : Prop :=
  match e.op with
  | .updateMember m => e.before.seesOwner e.thread m.key = false
  | .removeMember roomId userId => e.before.seesOwner e.thread (inRoom roomId userId) = false
  | .setRole roomId userId _ =>
      match e.call with
      | .changeRole _ actorId _ .owner => userId = actorId ∨
          (e.before.Taken e.thread (inRoom roomId actorId) ↔
            ∃ m, e.before.members.view e.thread (inRoom roomId userId) = some m ∧ m.role ≠ .owner)
      | _ => e.before.seesOwner e.thread (inRoom roomId userId) = false
  | _ => True

/-- What a transaction has done to the owners. -/
inductive Balanced (t : Nat) (j : History) : Prop
  | even : (∀ k, ¬j.state.Taken t k) →
      (∀ roomId userId, j.state.Given t (inRoom roomId userId) → ∃ room,
        j.state.rooms.held roomId.toNat = some (t, some room) ∧ room.createdBy = userId) →
      Balanced t j
  | between (roomId actorId targetId : UUID) :
      j.calls t = some (.changeRole roomId actorId targetId .owner) →
      handedOver targetId (j.log t) = false →
      (∀ k, j.state.Taken t k → k = inRoom roomId actorId) → (∀ k, ¬j.state.Given t k) → Balanced t j
  | handed (roomId actorId targetId : UUID) :
      j.calls t = some (.changeRole roomId actorId targetId .owner) →
      (∀ k, j.state.Taken t k ↔ k = inRoom roomId actorId) →
      (∀ k, j.state.Given t k ↔ k = inRoom roomId targetId) → Balanced t j

structure Owned (j : History) : Prop where
  single : ∀ roomId, j.state.Open roomId →
    ∃ ownerId, ∀ userId, j.state.owned (inRoom roomId userId) = true ↔ userId = ownerId
  balanced : ∀ t, Balanced t j

section View

variable {s s' : Server} {t u : Nat} {k : ℕ ×ₗ ℕ}

/-- What a transaction has not written it sees as it is. -/
theorem seesOwner_of_not_held (free : ∀ version, s.members.held k ≠ some (t, version)) :
    s.seesOwner t k = s.owned k := by
  rw [Server.seesOwner, Database.view_of_not_held free]
  rfl

theorem Server.Taken.held (taken : s.Taken t k) : ∃ version, s.members.held k = some (t, version) := by
  by_contra none
  have same := seesOwner_of_not_held fun version isHeld => none ⟨version, isHeld⟩
  cases taken.2.symm.trans (same.trans taken.1)

theorem Server.Given.held (given : s.Given t k) : ∃ version, s.members.held k = some (t, version) := by
  by_contra none
  have same := seesOwner_of_not_held fun version isHeld => none ⟨version, isHeld⟩
  cases given.1.symm.trans (same.symm.trans given.2)

theorem seesOwner_write {m : ChatroomMember} :
    Server.seesOwner { s with members := s.members.write t m } t k =
      if m.key = k then decide (m.role = .owner) else s.seesOwner t k := by
  unfold Server.seesOwner
  rw [Database.view_write]
  split
  · rfl
  · rfl

/-- Nobody becomes an owner by a row that is no owner's, where the transaction saw none. -/
theorem seesOwner_write_plain {m : ChatroomMember} (plain : m.role ≠ .owner)
    (none : s.seesOwner t m.key = false) :
    Server.seesOwner { s with members := s.members.write t m } t k = s.seesOwner t k := by
  rw [seesOwner_write]
  split
  next isKey => rw [← isKey, none, decide_eq_false plain]
  next => rfl

theorem seesOwner_erase {k' : ℕ ×ₗ ℕ} (none : s.seesOwner t k' = false) :
    Server.seesOwner { s with members := s.members.erase t k' } t k = s.seesOwner t k := by
  unfold Server.seesOwner at none ⊢
  rw [Database.view_erase]
  split
  next isKey =>
    rw [← isKey, none]
    rfl
  next => rfl

theorem seesOwner_of_absent (absent : s.members.view t k = none) : s.seesOwner t k = false := by
  rw [Server.seesOwner, absent]
  rfl

theorem taken_congr (same : s'.owned k = s.owned k) (sees : s'.seesOwner t k = s.seesOwner t k) :
    s'.Taken t k ↔ s.Taken t k := by
  rw [Server.Taken, Server.Taken, same, sees]

theorem given_congr (same : s'.owned k = s.owned k) (sees : s'.seesOwner t k = s.seesOwner t k) :
    s'.Given t k ↔ s.Given t k := by
  rw [Server.Given, Server.Given, same, sees]

/-- The changes of a transaction are not those of another. -/
theorem seesOwner_other {op : Op} {result : op.Res} (outcome : Outcome t s op result s')
    (other : u ≠ t) (isHeld : ∃ version, s.members.held k = some (u, version)) :
    s'.seesOwner u k = s.seesOwner u k ∧ s'.owned k = s.owned k := by
  obtain ⟨version, isHeld⟩ := isHeld
  constructor
  · unfold Server.seesOwner
    rw [Database.view_of_held isHeld,
      Database.view_of_held ((outcome.members.held_other other).mpr isHeld)]
  · unfold Server.owned
    rw [outcome.members.get_of_held_other other isHeld]

theorem taken_other {op : Op} {result : op.Res} (outcome : Outcome t s op result s') (other : u ≠ t) :
    s'.Taken u k ↔ s.Taken u k := by
  by_cases isHeld : ∃ version, s.members.held k = some (u, version)
  · obtain ⟨sees, same⟩ := seesOwner_other outcome other isHeld
    exact taken_congr same sees
  · refine iff_of_false (fun taken => isHeld ?_) fun taken => isHeld taken.held
    exact taken.held.imp fun _ => (outcome.members.held_other other).mp

theorem given_other {op : Op} {result : op.Res} (outcome : Outcome t s op result s') (other : u ≠ t) :
    s'.Given u k ↔ s.Given u k := by
  by_cases isHeld : ∃ version, s.members.held k = some (u, version)
  · obtain ⟨sees, same⟩ := seesOwner_other outcome other isHeld
    exact given_congr same sees
  · refine iff_of_false (fun given => isHeld ?_) fun given => isHeld given.held
    exact given.held.imp fun _ => (outcome.members.held_other other).mp

end View

section Own

variable {j j' : History} {t : Nat}

/-- What leaves the rows of the owners alone leaves the balance. -/
theorem Balanced.keeps (balanced : Balanced t j) (calls : j'.calls t = j.calls t)
    (log : ∀ targetId, handedOver targetId (j.log t) = false → handedOver targetId (j'.log t) = false)
    (taken : ∀ k, j'.state.Taken t k ↔ j.state.Taken t k)
    (given : ∀ k, j'.state.Given t k ↔ j.state.Given t k)
    (rooms : ∀ k room, j.state.rooms.held k = some (t, some room) →
      j'.state.rooms.held k = some (t, some room)) : Balanced t j' := by
  cases balanced with
  | even none founds =>
      refine .even (fun k isTaken => none k ((taken k).mp isTaken)) fun roomId userId isGiven => ?_
      obtain ⟨room, isHeld, isCreator⟩ := founds roomId userId ((given _).mp isGiven)
      exact ⟨room, rooms _ _ isHeld, isCreator⟩
  | between roomId actorId targetId running pends only none =>
      exact .between roomId actorId targetId (calls.trans running) (log targetId pends)
        (fun k isTaken => only k ((taken k).mp isTaken)) fun k isGiven => none k ((given k).mp isGiven)
  | handed roomId actorId targetId running actor target =>
      exact .handed roomId actorId targetId (calls.trans running) (fun k => (taken k).trans (actor k))
        fun k => (given k).trans (target k)

theorem Balanced.idle (idle : j.state.Idle t) : Balanced t j :=
  .even (fun _ taken => taken.held.elim fun _ => idle.members _ _)
    fun _ _ given => given.held.elim fun _ isHeld => absurd isHeld (idle.members _ _)

/-- A request that opens a room transfers none. -/
theorem Balanced.founding (balanced : Balanced t j) {creatorId : UUID} {name : Rooms.JavaString}
    {privateRoom : Bool} (running : j.calls t = some (.create creatorId name privateRoom)) :
    (∀ k, ¬j.state.Taken t k) ∧ ∀ roomId userId, j.state.Given t (inRoom roomId userId) → ∃ room,
      j.state.rooms.held roomId.toNat = some (t, some room) ∧ room.createdBy = userId := by
  cases balanced with
  | even none founds => exact ⟨none, founds⟩
  | between _ _ _ running' | handed _ _ _ running' => cases running.symm.trans running'

/-- An operation that changes no role leaves what its transaction sees of the owners. -/
theorem seesOwner_record {s s' : Server} {op : Op} {result : op.Res}
    (outcome : Outcome t s op result s') (going : op.ends = false)
    (unranked : ∀ roomId userId role, op ≠ .setRole roomId userId role)
    (inserts : ∀ m, op = .insertMember m → m.role ≠ .owner)
    (updates : ∀ m, op = .updateMember m → m.role ≠ .owner ∧ s.seesOwner t m.key = false)
    (removes : ∀ roomId userId, op = .removeMember roomId userId →
      s.seesOwner t (inRoom roomId userId) = false) (k : ℕ ×ₗ ℕ) :
    s'.seesOwner t k = s.seesOwner t k := by
  cases outcome with
  | inserted _ seen => exact seesOwner_write_plain (inserts _ rfl) (seesOwner_of_absent seen)
  | updated => exact seesOwner_write_plain (updates _ rfl).1 (updates _ rfl).2
  | removed => exact seesOwner_erase (removes _ _ rfl)
  | ranked => exact absurd rfl (unranked _ _ _)
  | committed => cases going
  | closed ends => cases going.symm.trans ends
  | _ => rfl

theorem owned_record {s s' : Server} {op : Op} {result : op.Res}
    (outcome : Outcome t s op result s') (going : op.ends = false) (k : ℕ ×ₗ ℕ) :
    s'.owned k = s.owned k := by
  unfold Server.owned
  rcases outcome.committed_eq with ⟨rfl, _⟩ | ⟨_, same, _⟩
  · cases going
  · rw [same]

/-- Any other operation leaves what a transfer has done. -/
theorem handedOver_cons {log : Log Op Op.Res} {op : Op} {result : op.Res} {targetId : UUID}
    (unranked : ∀ roomId userId role, op ≠ .setRole roomId userId role) :
    handedOver targetId (⟨op, result⟩ :: log) = handedOver targetId log := by
  cases op with
  | setRole => exact absurd rfl (unranked _ _ _)
  | _ => rfl

end Own

section Ranked

variable {j : History} {t : Nat} {call : Call} {roomId userId : UUID} {role : Role}
  {result : Except Rooms.JavaError Unit} {s s' : Server}

theorem Exec.setRole_ok {value : Unit} (exec : Exec t s (.setRole roomId userId role) (.ok value) s') :
    s.members.view t (inRoom roomId userId) = none ∧ s' = s ∨
      ∃ old, s.members.view t (inRoom roomId userId) = some old ∧
        s' = { s with members := s.members.write t { old with role } } := by
  obtain ⟨a, effected⟩ := exec.effect_of_ok
  obtain ⟨row, reached, same⟩ := Option.map_eq_some_iff.mp effected
  obtain ⟨_, seen⟩ := Database.reach_eq_some.mp reached
  cases row with
  | none => exact .inl ⟨seen, (Prod.mk.inj same).2.symm⟩
  | some old => exact .inr ⟨old, seen, (Prod.mk.inj same).2.symm⟩

/-- A change of a role fails, finds no row, or writes one. -/
theorem Exec.setRole (exec : Exec t s (.setRole roomId userId role) result s') :
    s' = s ∧ (result.isOk = true → s.members.view t (inRoom roomId userId) = none) ∨
      ∃ old, s.members.view t (inRoom roomId userId) = some old ∧ ∀ k, s'.seesOwner t k =
        if k = inRoom roomId userId then decide (role = .owner) else s.seesOwner t k := by
  have writes {old : ChatroomMember} (seen : s.members.view t (inRoom roomId userId) = some old)
      (isAfter : s' = { s with members := s.members.write t { old with role } }) (k : ℕ ×ₗ ℕ) :
      s'.seesOwner t k =
        if k = inRoom roomId userId then decide (role = .owner) else s.seesOwner t k := by
    have isKey : old.key = inRoom roomId userId := Database.key_of_view seen
    have sameKey : ({ old with role } : ChatroomMember).key = inRoom roomId userId := isKey
    rw [isAfter, seesOwner_write, sameKey]
    simp only [eq_comm]
  cases result with
  | ok value =>
      rcases exec.setRole_ok with ⟨absent, same⟩ | ⟨old, seen, isAfter⟩
      · exact .inl ⟨same, fun _ => absent⟩
      · exact .inr ⟨old, seen, writes seen isAfter⟩
  | error e =>
      rcases exec.outcome.setRole with same | ⟨old, seen, isAfter⟩
      · exact .inl ⟨same, nofun⟩
      · exact .inr ⟨old, seen, writes seen isAfter⟩

/-- A transaction that has written nothing, and writes no owner, is even. -/
theorem Balanced.unwritten {j : History} (clear : ∀ k, j.state.seesOwner t k = j.state.owned k) :
    Balanced t j :=
  .even (fun k taken => by cases taken.1.symm.trans ((clear k).symm.trans taken.2))
    fun _ _ given => by cases given.1.symm.trans ((clear _).symm.trans given.2)

variable (owned : Owned j)
  (performs : j.Performs service RolesStand ⟨t, call, .setRole roomId userId role, result, s, s'⟩)

include performs in
theorem owned_setRole (k : ℕ ×ₗ ℕ) : s'.owned k = j.state.owned k :=
  owned_record (performs_outcome performs) rfl k

include performs in
/-- The owner steps back: the transfer has not been completed. -/
theorem balanced_steps {actorId targetId : UUID}
    (running : j.calls t = some (.changeRole roomId actorId targetId .owner)) (distinct : actorId ≠ targetId)
    (free : j.state.members.Unwritten t) (isActor : userId = actorId) (isAdmin : role = .admin) :
    Balanced t (j.record ⟨t, call, .setRole roomId userId role, result, s, s'⟩) := by
  have exec : Exec t j.state (.setRole roomId userId role) result s' := by
    rw [← performs.before]
    exact performs.exec
  have clear (k : ℕ ×ₗ ℕ) : j.state.seesOwner t k = s'.owned k :=
    (seesOwner_of_not_held (free k)).trans (owned_setRole performs k).symm
  have changes (k : ℕ ×ₗ ℕ) : s'.seesOwner t k = s'.owned k ∨
      k = inRoom roomId actorId ∧ s'.seesOwner t k = false := by
    rcases exec.setRole with ⟨same, _⟩ | ⟨old, _, sees⟩
    · exact .inl (by rw [← clear, same])
    · rw [sees, isActor, isAdmin]
      split
      next isKey => exact .inr ⟨isKey, rfl⟩
      next => exact .inl (clear k)
  refine .between roomId actorId targetId running ?_ (fun k taken => ?_) fun k given => ?_
  · rw [Journal.log_record, handedOver, isActor, if_neg distinct]
  · rcases changes k with same | ⟨isKey, _⟩
    · cases taken.2.symm.trans (same.trans taken.1)
    · exact isKey
  · rcases changes k with same | ⟨_, none⟩
    · cases given.1.symm.trans (same.symm.trans given.2)
    · cases given.2.symm.trans none

include performs in
/-- A role that is no owner's, of a member who is no owner. -/
theorem balanced_asked (plain : role ≠ .owner) (free : j.state.members.Unwritten t)
    (none : j.state.seesOwner t (inRoom roomId userId) = false) :
    Balanced t (j.record ⟨t, call, .setRole roomId userId role, result, s, s'⟩) := by
  have exec : Exec t j.state (.setRole roomId userId role) result s' := by
    rw [← performs.before]
    exact performs.exec
  have clear (k : ℕ ×ₗ ℕ) : j.state.seesOwner t k = s'.owned k :=
    (seesOwner_of_not_held (free k)).trans (owned_setRole performs k).symm
  refine .unwritten fun k => ?_
  change s'.seesOwner t k = s'.owned k
  rw [← clear]
  rcases exec.setRole with ⟨same, _⟩ | ⟨old, _, sees⟩
  · rw [same]
  · rw [sees]
    split
    next isKey => rw [isKey, none, decide_eq_false plain]
    next => rfl

include owned performs in
/-- The target becomes the owner, exactly if the actor has stepped back. -/
theorem balanced_hands {actorId : UUID} (isOwner : role = .owner)
    (running : j.calls t = some (.changeRole roomId actorId userId .owner)) (distinct : actorId ≠ userId)
    (only : ∀ k version, j.state.members.held k = some (t, version) →
      k = inRoom roomId actorId ∧ ∃ m, version = some m ∧ m.role = .admin)
    (stands : j.state.Taken t (inRoom roomId actorId) ↔
      ∃ m, j.state.members.view t (inRoom roomId userId) = some m ∧ m.role ≠ .owner) :
    Balanced t (j.record ⟨t, call, .setRole roomId userId role, result, s, s'⟩) := by
  have exec : Exec t j.state (.setRole roomId userId role) result s' := by
    rw [← performs.before]
    exact performs.exec
  have ungiven (k : ℕ ×ₗ ℕ) : ¬j.state.Given t k := by
    intro given
    obtain ⟨version, isHeld⟩ := given.held
    obtain ⟨_, m, rfl, isAdmin⟩ := only k version isHeld
    have sees := given.2
    rw [Server.seesOwner, Database.view_of_held isHeld] at sees
    simp [isAdmin] at sees
  have isActor (k : ℕ ×ₗ ℕ) (taken : j.state.Taken t k) : k = inRoom roomId actorId :=
    taken.held.elim fun version isHeld => (only k version isHeld).1
  have apart : inRoom roomId userId ≠ inRoom roomId actorId :=
    fun same => distinct (key_eq.mp same).2.symm
  have seesTarget : j.state.seesOwner t (inRoom roomId userId) = j.state.owned (inRoom roomId userId) :=
    seesOwner_of_not_held fun version isHeld => apart (only _ version isHeld).1
  have same (k : ℕ ×ₗ ℕ) : s'.owned k = j.state.owned k := owned_setRole performs k
  have even_of (none : ¬j.state.Taken t (inRoom roomId actorId))
      (sees : ∀ k, s'.seesOwner t k = j.state.seesOwner t k) :
      Balanced t (j.record ⟨t, call, .setRole roomId userId role, result, s, s'⟩) := by
    refine .even (fun k taken => none ?_) fun roomId' userId' given => absurd ?_ (ungiven (inRoom roomId' userId'))
    · have before : j.state.Taken t k := ⟨(same k).symm.trans taken.1, (sees k).symm.trans taken.2⟩
      exact isActor k before ▸ before
    · exact ⟨(same _).symm.trans given.1, (sees _).symm.trans given.2⟩
  rcases exec.setRole with ⟨unchanged, absent⟩ | ⟨old, seen, sees⟩
  · cases isOk : result.isOk with
    | true =>
        refine even_of (fun taken => ?_) fun k => by rw [unchanged]
        obtain ⟨m, seen, _⟩ := stands.mp taken
        cases (absent isOk).symm.trans seen
    | false =>
        -- The change has failed, and may have been the first to find the row.
        by_cases taken : j.state.Taken t (inRoom roomId actorId)
        · refine .between roomId actorId userId running ?_ (fun k taken' => ?_) fun k given => ungiven k ?_
          · rw [Journal.log_record, handedOver, if_pos rfl, isOk, Bool.false_or]
            cases owned.balanced t with
            | even none => exact absurd taken (none _)
            | between _ _ _ running' pends =>
                obtain ⟨_, _, rfl, _⟩ := Call.changeRole.inj (Option.some.inj (running.symm.trans running'))
                exact pends
            | handed _ _ _ _ _ target => exact absurd ((target _).mpr rfl) (ungiven _)
          · exact isActor k ⟨(same k).symm.trans taken'.1, by rw [← unchanged]; exact taken'.2⟩
          · exact ⟨(same k).symm.trans given.1, by rw [← unchanged]; exact given.2⟩
        · exact even_of taken fun k => by rw [unchanged]
  · rw [isOwner] at sees
    by_cases taken : j.state.Taken t (inRoom roomId actorId)
    · obtain ⟨m, seen', isNone⟩ := stands.mp taken
      have unowned : j.state.owned (inRoom roomId userId) = false := by
        rw [← seesTarget, Server.seesOwner, seen']
        simp [isNone]
      refine .handed roomId actorId userId running (fun k => ⟨fun taken' => ?_, ?_⟩)
        fun k => ⟨fun given => ?_, ?_⟩
      · refine isActor k ⟨(same k).symm.trans taken'.1, ?_⟩
        have sees' : s'.seesOwner t k = false := taken'.2
        rw [sees] at sees'
        split at sees'
        next => cases sees'
        next => exact sees'
      · rintro rfl
        exact ⟨(same _).trans taken.1, by
          change s'.seesOwner t _ = false
          rw [sees, if_neg apart.symm]
          exact taken.2⟩
      · by_contra other
        refine ungiven k ⟨(same k).symm.trans given.1, ?_⟩
        have sees' : s'.seesOwner t k = true := given.2
        rw [sees, if_neg other] at sees'
        exact sees'
      · rintro rfl
        exact ⟨(same _).trans unowned, by
          change s'.seesOwner t _ = true
          rw [sees, if_pos rfl]
          rfl⟩
    · refine even_of taken fun k => ?_
      rw [sees]
      split
      next isKey =>
        have isOwned : old.role = .owner := by
          by_contra other
          exact taken (stands.mpr ⟨old, seen, other⟩)
        rw [isKey, Server.seesOwner, seen]
        simp [isOwned]
      next => rfl

end Ranked

section Step

variable {j : History} {e : Event} (sound : Sound j) (owned : Owned j)
  (performs : j.Performs service RolesStand e) (justified : Justified e.thread j e.op)

include owned performs justified in
theorem balanced_ranked {roomId userId : UUID} {role : Role} (isOp : e.op = .setRole roomId userId role) :
    Balanced e.thread (j.record e) := by
  obtain ⟨t, call, op, result, s, s'⟩ := e
  obtain rfl : op = .setRole roomId userId role := isOp
  obtain rfl : s = j.state := performs.before
  obtain ⟨_, actorId, targetId, asked, running, distinct, ranks⟩ := justified
  obtain rfl : call = .changeRole roomId actorId targetId asked :=
    Option.some.inj (performs.running.symm.trans running)
  have permitted := performs.permitted
  cases ranks with
  | steps isOwner free =>
      subst isOwner
      exact balanced_steps performs running distinct free rfl rfl
  | asked only =>
      by_cases isOwner : role = .owner
      · subst isOwner
        have stands := permitted.resolve_left distinct.symm
        exact balanced_hands owned performs rfl running distinct
          (fun k version isHeld => (only k version isHeld).2) stands
      · have free : j.state.members.Unwritten t := fun k version isHeld =>
          isOwner (only k version isHeld).1
        have none : j.state.seesOwner t (inRoom roomId userId) = false := by
          cases role with
          | owner => exact absurd rfl isOwner
          | admin | member => exact permitted
        exact balanced_asked performs isOwner free none

include owned performs in
/-- The first member of a new room is its owner. -/
theorem balanced_founds {m : ChatroomMember} (isOp : e.op = .insertMember m)
    (founds : Founds e.thread j m) : Balanced e.thread (j.record e) := by
  obtain ⟨t, call, op, result, s, s'⟩ := e
  obtain rfl : op = .insertMember m := isOp
  have outcome : Outcome t j.state (.insertMember m) result s' := performs_outcome performs
  have same (k : ℕ ×ₗ ℕ) : s'.owned k = j.state.owned k := owned_record outcome rfl k
  have sees (k : ℕ ×ₗ ℕ) : s'.seesOwner t k = j.state.seesOwner t k ∨
      k = m.key ∧ s'.seesOwner t k = true := by
    cases outcome with
    | inserted =>
        rw [seesOwner_write]
        split
        next isKey => exact .inr ⟨isKey.symm, decide_eq_true founds.isOwner⟩
        next => exact .inl rfl
    | closed ends => cases ends
    | _ => exact .inl rfl
  obtain ⟨name, privateRoom, running⟩ := founds.creates
  obtain ⟨none, opens⟩ := (owned.balanced t).founding running
  have keeps {k : Nat} {room : Chatroom} (isHeld : j.state.rooms.held k = some (t, some room)) :
      s'.rooms.held k = some (t, some room) := outcome.keeps_room isHeld fun _ => rfl
  refine .even (fun k taken => ?_) fun roomId userId given => ?_
  · rcases sees k with before | ⟨_, isOwner⟩
    · exact none k ⟨(same k).symm.trans taken.1, before.symm.trans taken.2⟩
    · cases taken.2.symm.trans isOwner
  · rcases sees (inRoom roomId userId) with before | ⟨isKey, _⟩
    · obtain ⟨room, isHeld, isCreator⟩ := opens roomId userId
        ⟨(same _).symm.trans given.1, before.symm.trans given.2⟩
      exact ⟨room, keeps isHeld, isCreator⟩
    · obtain ⟨rfl, rfl⟩ := key_eq.mp isKey
      obtain ⟨room, isHeld, isCreator⟩ := founds.opened
      exact ⟨room, keeps isHeld, isCreator⟩

include owned performs justified in
theorem balanced_self : Balanced e.thread (j.record e) := by
  have outcome := performs_outcome performs
  by_cases ends : e.op.ends = true
  · exact .idle (outcome.idle ends)
  have going : e.op.ends = false := by simpa using ends
  by_cases ranked : ∃ roomId userId role, e.op = .setRole roomId userId role
  · obtain ⟨_, _, _, isOp⟩ := ranked
    exact balanced_ranked owned performs justified isOp
  by_cases founded : ∃ m, e.op = .insertMember m ∧ Founds e.thread j m
  · obtain ⟨m, isOp, founds⟩ := founded
    exact balanced_founds owned performs isOp founds
  have unranked (roomId userId : UUID) (role : Role) : e.op ≠ .setRole roomId userId role :=
    fun isOp => ranked ⟨_, _, _, isOp⟩
  have permitted : RolesStand j e := performs.permitted
  have sees := seesOwner_record outcome going unranked (fun m isOp => ?_) (fun m isOp => ?_)
    fun roomId userId isOp => ?_
  · have same := owned_record outcome going
    refine (owned.balanced e.thread).keeps rfl (fun targetId pends => ?_)
      (fun k => taken_congr (same k) (sees k)) (fun k => given_congr (same k) (sees k))
      fun k room isHeld => outcome.keeps_room isHeld fun _ => going
    rw [Journal.record_log_self]
    exact (handedOver_cons unranked).trans pends
  · rw [isOp] at justified
    rcases justified with founds | admits
    · exact absurd ⟨m, isOp, founds⟩ founded
    · simp [admits.isMember]
  · rw [isOp] at justified
    rw [RolesStand, isOp] at permitted
    exact ⟨by simp [justified.1], performs.before ▸ permitted⟩
  · rw [RolesStand, isOp] at permitted
    exact performs.before ▸ permitted

include owned performs justified in
theorem balanced_record (t : Nat) : Balanced t (j.record e) := by
  by_cases mine : t = e.thread
  · exact mine ▸ balanced_self owned performs justified
  · have outcome := performs_outcome performs
    refine (owned.balanced t).keeps rfl (fun targetId pends => ?_) (fun k => taken_other outcome mine)
      (fun k => given_other outcome mine) fun k room => (outcome.rooms.held_other mine).mpr
    rw [Journal.record_log_of_ne (Ne.symm mine)]
    exact pends

theorem seesOwner_eq {s : Server} {t : Nat} {k : ℕ ×ₗ ℕ} (untaken : ¬s.Taken t k)
    (ungiven : ¬s.Given t k) : s.seesOwner t k = s.owned k := by
  unfold Server.Taken at untaken
  unfold Server.Given at ungiven
  cases isOwned : s.owned k with
  | true => simpa [isOwned] using untaken
  | false => simpa [isOwned] using ungiven

theorem owned_commit {s : Server} {t : Nat} {k : ℕ ×ₗ ℕ} : (s.commit t).owned k = s.seesOwner t k := by
  have committed : (s.commit t).members.committed.get k = s.members.view t k := Database.get_commit
  rw [Server.owned, committed]
  rfl

include sound in
theorem open_of_owned {roomId userId : UUID} (isOwned : j.state.owned (inRoom roomId userId) = true) :
    j.state.Open roomId := by
  obtain ⟨m, here, _⟩ := (Option.any_eq_true _ _).mp isOwned
  have isKey : m.key = inRoom roomId userId := Table.key_of_get here
  exact (key_eq.mp isKey).1 ▸ sound.housed m (Database.stored_of_get here)

include sound owned justified in
/-- A commit leaves a room its owner, or gives it to the one to whom it was handed over. -/
theorem single_commit (isOp : e.op = .backend .commit) {roomId : UUID} (isOpen : j.state.Open roomId) :
    ∃ ownerId, ∀ userId, j.state.seesOwner e.thread (inRoom roomId userId) = true ↔ userId = ownerId := by
  obtain ⟨ownerId, single⟩ := owned.single roomId isOpen
  rw [isOp] at justified
  cases owned.balanced e.thread with
  | even none opens =>
      refine ⟨ownerId, fun userId => ?_⟩
      rw [← single, seesOwner_eq (none _) fun given => ?_]
      obtain ⟨room, isHeld, _⟩ := opens roomId userId given
      obtain ⟨old, here⟩ := isOpen
      cases (sound.opening _ _ _ isHeld).1.symm.trans here
  | between roomId' actorId targetId running pends =>
      cases pends.symm.trans (justified.2 roomId' actorId targetId running)
  | handed roomId' actorId targetId running taken given =>
      by_cases here : roomId = roomId'
      · subst here
        have takes := (taken _).mpr rfl
        have isActor : actorId = ownerId := (single actorId).mp takes.1
        refine ⟨targetId, fun userId => ⟨fun sees => ?_, ?_⟩⟩
        · cases isOwned : j.state.owned (inRoom roomId userId) with
          | true =>
              have isUser : userId = actorId := ((single userId).mp isOwned).trans isActor.symm
              rw [isUser, takes.2] at sees
              cases sees
          | false => exact (key_eq.mp ((given _).mp ⟨isOwned, sees⟩)).2
        · rintro rfl
          exact ((given _).mpr rfl).2
      · refine ⟨ownerId, fun userId => ?_⟩
        rw [← single, seesOwner_eq (fun takes => ?_) fun gives => ?_]
        · exact here (key_eq.mp ((taken _).mp takes)).1
        · exact here (key_eq.mp ((given _).mp gives)).1

include sound owned justified in
/-- A room that is new has the owner that was inserted with it. -/
theorem single_opening (isOp : e.op = .backend .commit) {roomId : UUID} (isNew : ¬j.state.Open roomId)
    {room : Chatroom} (isHeld : j.state.rooms.held roomId.toNat = some (e.thread, some room)) :
    ∃ ownerId, ∀ userId, j.state.seesOwner e.thread (inRoom roomId userId) = true ↔ userId = ownerId := by
  have isKey : room.key = roomId.toNat := Database.named isHeld
  obtain rfl : room.id = roomId := BitVec.toNat_inj.mp isKey
  have unowned (userId : UUID) : j.state.owned (inRoom room.id userId) = false :=
    Bool.eq_false_iff.mpr fun isOwned => isNew (open_of_owned sound isOwned)
  rw [isOp] at justified
  have founder := justified.1 _ room isHeld
  have sees : j.state.seesOwner e.thread (inRoom room.id room.createdBy) = true := by
    rw [Server.seesOwner, Database.view_of_held founder]
    rfl
  refine ⟨room.createdBy, fun userId => ⟨fun sees' => ?_, fun isCreator => isCreator ▸ sees⟩⟩
  have gives : j.state.Given e.thread (inRoom room.id userId) := ⟨unowned userId, sees'⟩
  cases owned.balanced e.thread with
  | even _ opens =>
      obtain ⟨room', isHeld', isCreator⟩ := opens room.id userId gives
      rw [isHeld] at isHeld'
      cases isHeld'
      exact isCreator.symm
  | between _ _ _ _ _ _ none => exact absurd gives (none _)
  | handed roomId' actorId targetId _ taken given =>
      have isHere : room.id = roomId' := (key_eq.mp ((given _).mp gives)).1
      have takes : j.state.owned (inRoom roomId' actorId) = true := ((taken _).mpr rfl).1
      rw [← isHere, unowned] at takes
      cases takes

include sound owned performs justified in
theorem single_record (roomId : UUID) (isOpen : e.after.Open roomId) :
    ∃ ownerId, ∀ userId, e.after.owned (inRoom roomId userId) = true ↔ userId = ownerId := by
  have outcome := performs_outcome performs
  rcases outcome.committed_eq with ⟨isOp, isAfter⟩ | ⟨rooms, members, _⟩
  · rw [isAfter] at isOpen ⊢
    simp only [owned_commit]
    by_cases before : j.state.Open roomId
    · exact single_commit sound owned justified isOp before
    · obtain ⟨room, here⟩ := isOpen
      have seen : j.state.rooms.view e.thread roomId.toNat = some room :=
        Database.get_commit.symm.trans here
      by_cases isHeld : ∃ version, j.state.rooms.held roomId.toNat = some (e.thread, version)
      · obtain ⟨version, isHeld⟩ := isHeld
        rw [Database.view_of_held isHeld] at seen
        exact single_opening sound owned justified isOp before (seen ▸ isHeld)
      · rw [Database.view_of_not_held fun version mine => isHeld ⟨version, mine⟩] at seen
        exact absurd ⟨room, seen⟩ before
  · have before : j.state.Open roomId := by
      rw [Server.Open, ← rooms]
      exact isOpen
    have same (k : ℕ ×ₗ ℕ) : e.after.owned k = j.state.owned k := by
      rw [Server.owned, members]
      rfl
    simp only [same]
    exact owned.single roomId before

end Step

theorem Balanced.begun {j : History} {t u : Nat} {call : Call} (balanced : Balanced u j)
    (idle : j.calls t = none) : Balanced u (j.begin t call) := by
  cases balanced with
  | even none opens => exact .even none opens
  | between roomId actorId targetId running pends only none =>
      exact .between roomId actorId targetId (Journal.calls_begin idle running) pends only none
  | handed roomId actorId targetId running taken given =>
      exact .handed roomId actorId targetId (Journal.calls_begin idle running) taken given

def ownership : Law RolesStand where
  inv := Owned
  begun _ _ _ owned idle := ⟨owned.single, fun u => (owned.balanced u).begun idle⟩
  kept _ _ sound owned performs justified :=
    ⟨single_record sound owned performs justified, balanced_record owned performs justified⟩

theorem Blank.owned {s : Server} (blank : Blank s) : Owned (.empty s) := by
  refine ⟨fun roomId ⟨room, here⟩ => ?_, fun t => .idle (blank.sound.begun t rfl)⟩
  rw [Journal.empty_state, blank.rooms] at here
  cases here

theorem mem_owners {s : Server} {roomId : UUID} {m : ChatroomMember} :
    m ∈ s.owners roomId ↔ s.members.Stored m ∧ m.chatroomId = roomId ∧ m.role = .owner := by
  rw [Server.owners, List.mem_filter, Database.mem_rows]
  simp

theorem owners_nodup (s : Server) (roomId : UUID) : (s.owners roomId).Nodup := by
  have distinct : s.members.committed.rows.Nodup :=
    s.members.committed.ordered.imp fun before same => (ne_of_lt before) (congrArg _ same)
  exact distinct.filter _

/-- A room that one user owns has one row of an owner. -/
theorem owners_eq {s : Server} {roomId ownerId : UUID}
    (single : ∀ userId, s.owned (inRoom roomId userId) = true ↔ userId = ownerId) :
    ∃ owner, s.owners roomId = [owner] := by
  obtain ⟨owner, here, isOwner⟩ := (Option.any_eq_true _ _).mp ((single ownerId).mpr rfl)
  have isKey : owner.key = inRoom roomId ownerId := Table.key_of_get here
  have isRow : owner ∈ s.owners roomId :=
    mem_owners.mpr ⟨Database.stored_of_get here, (key_eq.mp isKey).1, by simpa using isOwner⟩
  refine ⟨owner, List.perm_singleton.mp ?_⟩
  refine (List.perm_ext_iff_of_nodup (owners_nodup s roomId) (List.nodup_singleton _)).mpr fun m => ?_
  rw [List.mem_singleton]
  refine ⟨fun isMember => ?_, fun same => same ▸ isRow⟩
  obtain ⟨stored, rfl, isOwner'⟩ := mem_owners.mp isMember
  have isOwned : s.owned (inRoom m.chatroomId m.userId) = true :=
    (Option.any_eq_true _ _).mpr ⟨m, stored, by simp [isOwner']⟩
  have sameUser : m.userId = ownerId := (single _).mp isOwned
  refine stored.unique (Database.stored_of_get here) ?_
  rw [isKey, ← sameUser]
  rfl

section Alone

variable {s : Server} {j : History} {e : Event} (blank : Blank s)
  (reaches : service.Reaches (fun _ _ => True) (fun j e => Alone j e ∧ RolesStand j e) s j)

include blank reaches in
theorem owned_of_reaches : Owned j := by
  have stands : service.Reaches (fun _ _ => True) RolesStand s j :=
    reaches.strengthen fun _ _ _ _ performs _ => performs.permitted.2
  exact (law_of_reaches ownership blank.sound blank.owned stands).2

include blank reaches in
/-- What a request that is alone has read of the members is so when it changes them. -/
theorem committed_of_saw {roomId userId : UUID} {row : Option ChatroomMember} {log : Log Op Op.Res}
    (alone : Alone j e) (revises : e.op.revises = some roomId) (saw : Saw log roomId userId row)
    (untouched : Untouched log) (isLog : ∃ later, j.log e.thread = later ++ log)
    (uncommitted : Uncommitted (j.log e.thread)) :
    j.state.members.committed.get (inRoom roomId userId) = row := by
  obtain ⟨later, isLog⟩ := isLog
  obtain ⟨between, first, rfl, fresh⟩ := saw.split untouched
  rw [← List.append_assoc] at isLog
  obtain ⟨after, read, before, isPast, isSelf, isRead, _, isFirst⟩ := own_split isLog
  rw [← isSelf] at isFirst uncommitted
  refine stays_read blank reaches isPast isRead (isFirst ▸ fresh) uncommitted fun x member other => ?_
  have isOp : read.op = .findMember roomId userId := congrArg Sigma.fst isRead
  by_contra changes
  exact alone roomId revises after read before userId isPast isSelf isOp x member (isSelf ▸ other)
    ⟨userId, changes⟩

/-- A request that has changed no member sees what is in the table. -/
theorem seesOwner_of_untouched (blank : Blank s)
    (reaches : service.Reaches (fun _ _ => True) (fun j e => Alone j e ∧ RolesStand j e) s j) {t : Nat}
    (untouched : Untouched (j.log t)) (k : ℕ ×ₗ ℕ) : j.state.seesOwner t k = j.state.owned k :=
  seesOwner_of_not_held (unwritten_of_untouched blank reaches untouched k)

/-- A room has one owner, so another member of it is none. -/
theorem owned_other (owned : Owned j) (sound : Sound j) {roomId ownerId userId : UUID} {owner : ChatroomMember}
    (here : j.state.members.committed.get (inRoom roomId ownerId) = some owner) (isOwner : owner.role = .owner)
    (other : ownerId ≠ userId) : j.state.owned (inRoom roomId userId) = false := by
  have owns : j.state.owned (inRoom roomId ownerId) = true := by
    rw [Server.owned, here]
    simp [isOwner]
  obtain ⟨only, single⟩ := owned.single roomId (open_of_owned sound owns)
  refine Bool.eq_false_iff.mpr fun isOwned => other ?_
  exact ((single ownerId).mp owns).trans ((single userId).mp isOwned).symm

theorem owned_of_row {k : ℕ ×ₗ ℕ} {m : ChatroomMember} (here : j.state.members.committed.get k = some m) :
    j.state.owned k = decide (m.role = .owner) := by
  rw [Server.owned, here]
  rfl

include blank reaches in
/-- Once the owner has stepped back the transaction holds their row, and that of nobody else. -/
theorem stepped_back {t : Nat} {roomId actorId targetId : UUID} {earlier : Log Op Op.Res}
    (isLog : j.log t = (⟨.setRole roomId actorId .admin, .ok ()⟩ : Done) :: earlier)
    (untouched : Untouched earlier) (checked : Checked earlier roomId actorId targetId) :
    j.state.seesOwner t (inRoom roomId actorId) = false ∧
      ∀ version, j.state.members.held (inRoom roomId targetId) ≠ some (t, version) := by
  let stepped (s : Server) : Prop := (∃ m, s.members.held (inRoom roomId actorId) = some (t, some m) ∧
    m.role = .admin) ∧ ∀ version, s.members.held (inRoom roomId targetId) ≠ some (t, version)
  rw [← List.nil_append (_ :: earlier)] at isLog
  obtain ⟨after, x, before, isPast, isSelf, isFirst, isLater, isEarlier⟩ := own_split isLog
  have others := own_eq_nil isLater
  suffices here : stepped j.state by
    obtain ⟨⟨m, isHeld, isAdmin⟩, free⟩ := here
    refine ⟨?_, free⟩
    rw [Server.seesOwner, Database.view_of_held isHeld]
    simp [isAdmin]
  refine reaches.stays isPast ?_ fun y member known => ?_
  · obtain ⟨j', reaches', isPast', performs⟩ := reaches.at_entry isPast
    obtain ⟨u, call, op, result, s₀, s'⟩ := x
    obtain rfl : u = t := isSelf
    obtain ⟨rfl, same⟩ := Sigma.mk.inj isFirst
    obtain rfl := eq_of_heq same
    have isLog' : j'.log u = earlier := (congrArg (own u) isPast').trans isEarlier
    obtain ⟨m, saw, _⟩ := checked.actor
    have alone : Alone j' ⟨u, call, .setRole roomId actorId .admin, .ok (), s₀, s'⟩ := performs.permitted.1
    have here := committed_of_saw blank reaches' alone rfl saw untouched ⟨[], isLog'⟩
      (isLog'.symm ▸ untouched.uncommitted)
    have unwritten := unwritten_of_untouched blank reaches' (isLog'.symm ▸ untouched)
    have exec : Exec u j'.state (.setRole roomId actorId .admin) (.ok ()) s' :=
      performs.before ▸ performs.exec
    rcases exec.setRole_ok with ⟨absent, _⟩ | ⟨old, seen, rfl⟩
    · rw [unwritten.view, here] at absent
      cases absent
    · have oldKey : old.key = inRoom roomId actorId := Database.key_of_view seen
      have isKey : ({ old with role := .admin } : ChatroomMember).key = inRoom roomId actorId := oldKey
      refine ⟨⟨{ old with role := .admin }, Database.held_write.trans (if_pos isKey), rfl⟩,
        fun version isHeld => ?_⟩
      rcases Database.held_of_write isHeld with before | ⟨_, sameKey, _⟩
      · exact unwritten _ _ before
      · exact checked.others (key_eq.mp (isKey.symm.trans sameKey)).2
  · obtain ⟨l₁, l₂, rfl⟩ := List.append_of_mem member
    rw [List.append_assoc, List.cons_append] at isPast
    obtain ⟨j', _, _, performs⟩ := reaches.at_entry isPast
    have outcome := performs_outcome performs
    have other : t ≠ y.thread := Ne.symm (others y member)
    rw [performs.before] at known
    obtain ⟨⟨m, isHeld, isAdmin⟩, free⟩ := known
    exact ⟨⟨m, (outcome.members.held_other other).mpr isHeld, isAdmin⟩,
      fun version isHeld' => free version ((outcome.members.held_other other).mp isHeld')⟩

/-- A row is written over only by a member's. -/
theorem updates_member {permits : History → Event → Prop} (blank : Blank s)
    (reaches : service.Reaches (fun _ _ => True) permits s j) {m : ChatroomMember} (member : e ∈ j.past)
    (isOp : e.op = .updateMember m) : m.role = .member := by
  let plainly : Law permits := {
    inv := fun j => ∀ e ∈ j.past, ∀ m, e.op = .updateMember m → m.role = .member
    begun := fun _ _ _ plain _ => plain
    kept := fun j e _ plain _ justified e' member m isOp => by
      rcases List.mem_cons.mp member with rfl | old
      · rw [isOp] at justified
        exact justified.1
      · exact plain e' old m isOp }
  have initial : plainly.inv (.empty s) := fun e member => by cases member
  exact (law_of_reaches plainly blank.sound initial reaches).2 e member m isOp

include blank reaches in
/-- The roles that a request which is alone has read still stand when it changes one. -/
theorem roles_stand (performs : j.Performs service Alone e)
    (after : service.Reaches (fun _ _ => True) Alone s (j.record e)) : RolesStand j e := by
  have lawful := heeds_of_reaches after performs.running
  have owned := owned_of_reaches blank reaches
  have sound := sound_of_reaches blank reaches
  have alone : Alone j e := performs.permitted
  have same : e.before = j.state := performs.before
  unfold RolesStand
  rw [same]
  cases isOp : e.op with
  | updateMember m =>
      rw [isOp] at lawful
      have isMember := updates_member blank after (e := e) List.mem_cons_self isOp
      obtain ⟨untouched, missed, row, found⟩ := lawful.resolve_left (by simp [isMember])
      have revises : e.op.revises = some m.chatroomId := by rw [isOp]; rfl
      have none := committed_of_saw blank reaches alone revises missed untouched ⟨[], rfl⟩ untouched.uncommitted
      have some := committed_of_saw blank reaches alone revises found untouched ⟨[], rfl⟩ untouched.uncommitted
      cases none.symm.trans some
  | removeMember roomId userId =>
      rw [isOp] at lawful
      obtain ⟨untouched, m, saw, plain⟩ := lawful
      have revises : e.op.revises = some roomId := by rw [isOp]; rfl
      have here := committed_of_saw blank reaches alone revises saw untouched ⟨[], rfl⟩ untouched.uncommitted
      exact (seesOwner_of_untouched blank reaches untouched _).trans
        ((owned_of_row here).trans (decide_eq_false plain))
  | setRole roomId userId role =>
      rw [isOp] at lawful
      obtain ⟨actorId, targetId, asked, isRequest, changes⟩ := lawful
      have revises : e.op.revises = some roomId := by rw [isOp]; rfl
      rw [isRequest]
      cases changes with
      | steps => exact .inl rfl
      | hands earlier isLog untouched checked =>
          have uncommitted : Uncommitted (j.log e.thread) := by
            rw [isLog]
            exact uncommitted_cons rfl untouched
          obtain ⟨m, saw, isOwner⟩ := checked.actor
          obtain ⟨target, sawTarget⟩ := checked.target
          have here := committed_of_saw blank reaches alone revises saw untouched ⟨_ :: [], isLog⟩ uncommitted
          have there := committed_of_saw blank reaches alone revises sawTarget untouched ⟨_ :: [], isLog⟩ uncommitted
          obtain ⟨sees, free⟩ := stepped_back blank reaches isLog untouched checked
          have plain := owned_other owned sound here isOwner checked.others
          rw [owned_of_row there] at plain
          refine .inr (iff_of_true ⟨(owned_of_row here).trans (decide_eq_true isOwner), sees⟩ ?_)
          exact ⟨target, (Database.view_of_not_held free).trans there, of_decide_eq_false plain⟩
      | asked _ other untouched checked =>
          obtain ⟨m, saw, isOwner⟩ := checked.actor
          have here := committed_of_saw blank reaches alone revises saw untouched ⟨[], rfl⟩ untouched.uncommitted
          have plain := (seesOwner_of_untouched blank reaches untouched _).trans
            (owned_other owned sound here isOwner checked.others)
          cases role with
          | owner => exact absurd rfl other
          | admin | member => exact plain
  | _ => trivial

end Alone

theorem one_owner (s : Server) (blank : Blank s) : OneOwner s Alone := by
  intro j reaches _ room stored
  have stands : service.Reaches (fun _ _ => True) (fun j e => Alone j e ∧ RolesStand j e) s j :=
    reaches.strengthen fun _ _ _ before performs after =>
      ⟨performs.permitted, roles_stand blank before performs after⟩
  have owned := owned_of_reaches blank stands
  obtain ⟨ownerId, single⟩ := owned.single room.id ⟨room, stored⟩
  exact owners_eq single

section Race

theorem one_owner_unopened : OneOwner unopened Alone :=
  one_owner unopened unopened_blank

/-- User 1 hands the room over to two members at once. -/
def handing : Option History :=
  follow (opening ++ .start 1 (.invite 7 1 2) :: steps 1 9 ++ .start 2 (.invite 7 1 3) :: steps 2 9 ++
    .start 3 (.changeRole 7 1 2 .owner) :: .start 4 (.changeRole 7 1 3 .owner) :: steps 4 4 ++
    steps 3 8 ++ steps 4 4)

def Server.quiet (s : Server) : Bool :=
  s.rooms.pending.rows.isEmpty && s.members.pending.rows.isEmpty &&
    s.readStates.pending.rows.isEmpty && s.messaging.pending.isEmpty

theorem Server.quiet_idle {s : Server} (quiet : s.quiet = true) (t : Nat) : s.Idle t := by
  simp only [Server.quiet, Bool.and_eq_true] at quiet
  obtain ⟨⟨⟨rooms, members⟩, readStates⟩, pending⟩ := quiet
  refine ⟨Database.unwritten_of_isEmpty rooms, Database.unwritten_of_isEmpty members,
    Database.unwritten_of_isEmpty readStates, fun m pends => ?_⟩
  rw [List.isEmpty_iff.mp pending] at pends
  cases pends

structure Roll where
  rooms : List Chatroom
  owners : List ChatroomMember
  quiet : Bool
  deriving DecidableEq

theorem handing_owners : handing.map (fun j => Roll.mk j.state.rooms.committed.rows
    (j.state.owners 7) j.state.quiet) = some {
      rooms := [⟨7, [82], true, 1⟩]
      owners := [⟨7, 2, .owner⟩, ⟨7, 3, .owner⟩]
      quiet := true } := by
  decide +kernel

theorem owned_twice : ¬OneOwner unopened fun _ _ => True := by
  intro claim
  obtain ⟨j, ran, facts⟩ := Option.map_eq_some_iff.mp handing_owners
  obtain ⟨isRooms, isOwners, isQuiet⟩ := Roll.mk.inj facts
  have stored : j.state.rooms.Stored ⟨7, [82], true, 1⟩ := Database.mem_rows.mp (by rw [isRooms]; simp)
  obtain ⟨owner, one⟩ := claim j (follow_reaches ran) (Server.quiet_idle isQuiet) _ stored
  rw [isOwners] at one
  cases one

end Race

end Chatrooms
