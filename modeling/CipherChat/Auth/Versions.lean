import CipherChat.Auth.RefreshTokens

/-!
The versions of the rows that are there or about to be, and what an operation can do to them,
said once.
-/

namespace Auth

open Async ReadCommitted
open Rooms (UUID Instant JavaError)

theorem RefreshToken.key_injective {r r' : RefreshToken} : r.key = r'.key ↔ r.id = r'.id :=
  BitVec.toNat_inj

namespace Server

variable (s : Server)

/-- The row is in the table. -/
def Stored (r : RefreshToken) : Prop :=
  s.db.committed.get r.key = some r

/-- An open transaction has written the row, and not committed it. -/
def Pends (tx : Tx) (r : RefreshToken) : Prop :=
  s.db.held r.key = some (tx, some r)

def Version (r : RefreshToken) : Prop :=
  s.Stored r ∨ ∃ tx, s.Pends tx r

/-- An open transaction has written the row there is under the key of this one. -/
def Holds (tx : Tx) (r : RefreshToken) : Prop :=
  ∃ version, s.db.held r.key = some (tx, version)

variable {s} {r r' : RefreshToken} {tx tx' : Tx}

theorem Stored.eq (stored : s.Stored r) (stored' : s.Stored r') (same : r.id = r'.id) : r = r' := by
  have keys : r.key = r'.key := RefreshToken.key_injective.mpr same
  rw [Stored, keys, stored'] at stored
  exact (Option.some.inj stored).symm

theorem Pends.holds (pends : s.Pends tx r) : s.Holds tx r :=
  ⟨_, pends⟩

theorem Holds.unique (holds : s.Holds tx r) (holds' : s.Holds tx' r') (same : r.id = r'.id) :
    tx = tx' := by
  obtain ⟨_, isHeld⟩ := holds
  obtain ⟨_, isHeld'⟩ := holds'
  rw [RefreshToken.key_injective.mpr same, isHeld'] at isHeld
  exact (Prod.mk.inj (Option.some.inj isHeld)).1.symm

theorem Pends.eq (pends : s.Pends tx r) (pends' : s.Pends tx' r') (same : r.id = r'.id) :
    r = r' := by
  rw [Pends, RefreshToken.key_injective.mpr same, pends'] at pends
  exact (Option.some.inj (Prod.mk.inj (Option.some.inj pends)).2).symm

theorem mem_rows : r ∈ s.db.committed.rows ↔ s.Stored r :=
  Table.mem_rows

theorem of_get {k : Nat} (found : s.db.committed.get k = some r) : s.Stored r := by
  rw [Stored, show r.key = k from Table.key_of_get found]
  exact found

/-- What a transaction sees is in the table, or written by itself. -/
theorem of_view {k : Nat} (seen : s.db.view tx k = some r) :
    r.key = k ∧ (s.Pends tx r ∨ s.Stored r ∧ ¬s.Holds tx r) := by
  have isKey : r.key = k := Database.key_of_view seen
  refine ⟨isKey, ?_⟩
  subst isKey
  unfold Database.view at seen
  split at seen
  next holder version isHeld =>
    split at seen
    next mine =>
      subst mine seen
      exact .inl isHeld
    next other =>
      refine .inr ⟨seen, fun holds => other ?_⟩
      obtain ⟨_, mine⟩ := holds
      rw [isHeld] at mine
      exact (Prod.mk.inj (Option.some.inj mine)).1
  next free =>
    refine .inr ⟨seen, fun holds => ?_⟩
    obtain ⟨_, mine⟩ := holds
    rw [free] at mine
    cases mine

/-- What is in the table is seen, unless the transaction itself has written it. -/
theorem Stored.seen (stored : s.Stored r) (free : ¬s.Holds tx r) : s.db.view tx r.key = some r := by
  unfold Database.view
  split
  next holder version isHeld =>
    have other : holder ≠ tx := by
      rintro rfl
      exact free ⟨version, isHeld⟩
    rw [if_neg other]
    exact stored
  next => exact stored

section Changes

variable {k : Nat} {uuids : List UUID} {raws : List RawToken} {s' : Server}

theorem stored_of_committed (same : s'.db.committed = s.db.committed) :
    s'.Stored r ↔ s.Stored r := by
  rw [Stored, Stored, same]

theorem pends_write (isDb : s'.db = s.db.write tx r) :
    s'.Pends tx' r' ↔ (tx' = tx ∧ r' = r) ∨ (r'.id ≠ r.id ∧ s.Pends tx' r') := by
  rw [Pends, isDb, Database.held_write]
  by_cases same : r.key = r'.key
  · have ids : r'.id = r.id := (RefreshToken.key_injective.mp same).symm
    simp only [same, if_true, Option.some.injEq, Prod.mk.injEq, ids, ne_eq, not_true, false_and,
      or_false, eq_comm]
  · have ids : r'.id ≠ r.id := fun ids => same (RefreshToken.key_injective.mpr ids.symm)
    have differ : r' ≠ r := fun equal => ids (congrArg RefreshToken.id equal)
    simp only [same, if_false, ids, differ, ne_eq, not_false_eq_true, true_and, and_false, false_or]
    rfl

theorem holds_write (isDb : s'.db = s.db.write tx r) :
    s'.Holds tx' r' ↔ (r'.id = r.id ∧ tx' = tx) ∨ (r'.id ≠ r.id ∧ s.Holds tx' r') := by
  rw [Holds, isDb]
  simp only [Database.held_write, RefreshToken.key_injective, Holds]
  by_cases same : r.id = r'.id
  · simp [same, eq_comm]
  · simp [same, Ne.symm same]

theorem pends_erase (isDb : s'.db = s.db.erase tx r.key) :
    s'.Pends tx' r' ↔ r'.id ≠ r.id ∧ s.Pends tx' r' := by
  rw [Pends, isDb]
  simp only [Database.held_erase, RefreshToken.key_injective, Pends]
  by_cases same : r.id = r'.id
  · simp [same]
  · simp [same, Ne.symm same]

theorem holds_erase (isDb : s'.db = s.db.erase tx r.key) :
    s'.Holds tx' r' ↔ (r'.id = r.id ∧ tx' = tx) ∨ (r'.id ≠ r.id ∧ s.Holds tx' r') := by
  rw [Holds, isDb]
  simp only [Database.held_erase, RefreshToken.key_injective, Holds]
  by_cases same : r.id = r'.id
  · simp [same, eq_comm]
  · simp [same, Ne.symm same]

/-- No write of the transaction stays when it has ended. -/
def Ended (s : Server) (tx : Tx) (s' : Server) : Prop :=
  ∀ k, s'.db.held k = (s.db.held k).filter fun w => w.1 ≠ tx

theorem ended_commit : s.Ended tx (s.setDb (s.db.commit tx)) :=
  fun _ => Database.held_commit

theorem ended_rollback : s.Ended tx (s.setDb (s.db.rollback tx)) :=
  fun _ => Database.held_rollback

theorem Ended.pends (ended : s.Ended tx s') : s'.Pends tx' r ↔ tx' ≠ tx ∧ s.Pends tx' r := by
  rw [Pends, ended, Option.filter_eq_some_iff, Pends, and_comm]
  simp

theorem Ended.holds (ended : s.Ended tx s') : s'.Holds tx' r ↔ tx' ≠ tx ∧ s.Holds tx' r := by
  simp only [Holds, ended r.key, Option.filter_eq_some_iff]
  constructor
  · rintro ⟨version, isHeld, other⟩
    exact ⟨by simpa using other, version, isHeld⟩
  · rintro ⟨other, version, isHeld⟩
    exact ⟨version, isHeld, by simpa using other⟩

theorem stored_commit :
    (s.setDb (s.db.commit tx)).Stored r ↔ s.Pends tx r ∨ s.Stored r ∧ ¬s.Holds tx r := by
  rw [Stored, setDb, Database.get_commit]
  constructor
  · exact fun seen => (of_view seen).2
  · rintro (pends | ⟨stored, free⟩)
    · unfold Database.view
      rw [show s.db.held r.key = _ from pends]
      simp
    · exact stored.seen free

end Changes

end Server

/-- The transaction an operation ends. -/
def Op.ends : Op → Option Scope
  | .commit scope | .rollback scope => some scope
  | _ => none

/-- What no open transaction and no row can tell apart. -/
structure Same (s s' : Server) : Prop where
  db : s'.db = s.db
  uuids : s'.uuids = s.uuids
  raws : s'.raws = s.raws

inductive Outcome (t : Nat) (s : Server) : (op : Op) → op.Res → Server → Prop
  | same {op result s'} : Same s s' → op.ends = none → Outcome t s op result s'
  | used {scope target now id result s'} (r : RefreshToken) : s.db.view (t, scope) r.key = some r →
      s.db.locked (t, scope) r.key = false → r.id = id → target.holds r = true →
      s' = s.setDb (s.db.write (t, scope) { r with usedAt := some now }) →
      Outcome t s (.modify scope target (.markUsed now) id) result s'
  | erased {scope target id result s'} (r : RefreshToken) : s.db.view (t, scope) r.key = some r →
      s.db.locked (t, scope) r.key = false → r.id = id → target.holds r = true →
      s' = s.setDb (s.db.erase (t, scope) r.key) →
      Outcome t s (.modify scope target .delete id) result s'
  | saved {userId expiresAt familyId result s'} (r : RefreshToken) (drawn : UUID) :
      r.usedAt = none → r.userId = userId → r.id ∉ s.uuids → r.tokenHash.raw ∉ s.raws →
      drawn ∉ s.uuids → r.familyId = familyId.getD drawn →
      s' = { s with
        db := s.db.write (t, .main) r
        uuids := r.id :: drawn :: s.uuids
        raws := r.tokenHash.raw :: s.raws } →
      Outcome t s (.save userId expiresAt familyId) result s'
  | committed {scope result s'} : s' = s.setDb (s.db.commit (t, scope)) →
      Outcome t s (.commit scope) result s'
  | closed {op result s'} (scope : Scope) : op.ends = some scope →
      s' = s.setDb (s.db.rollback (t, scope)) → Outcome t s op result s'

theorem Same.refl (s : Server) : Same s s :=
  ⟨rfl, rfl, rfl⟩

/-- A row that is reached is changed if it still is what the statement is about. -/
theorem modify_some {t : Nat} {s s' : Server} {scope : Scope} {target : Target} {change : Change}
    {id : UUID} {n : Nat} (modified : s.modify t scope target change id = some (n, s')) :
    s.db.locked (t, scope) id.toNat = false ∧
      ((n = 0 ∧ s' = s ∧ ∀ r, s.db.view (t, scope) r.key = some r → r.id = id →
        target.holds r = false) ∨
      (n = 1 ∧ ∃ r, s.db.view (t, scope) r.key = some r ∧ r.id = id ∧ target.holds r = true ∧
        s' = s.change (t, scope) r change)) := by
  simp only [Server.modify] at modified
  split at modified
  · contradiction
  next free =>
    refine ⟨by simpa using free, ?_⟩
    split at modified
    next missing =>
      obtain ⟨rfl, rfl⟩ := Prod.mk.inj (Option.some.inj modified)
      refine .inl ⟨rfl, rfl, fun r seen isId => ?_⟩
      rw [show r.key = id.toNat from BitVec.toNat_inj.mpr isId] at seen
      simpa [seen, Option.filter_some] using missing
    next r found =>
      obtain ⟨rfl, rfl⟩ := Prod.mk.inj (Option.some.inj modified)
      obtain ⟨seen, matched⟩ := Option.filter_eq_some_iff.mp found
      have isKey : r.key = id.toNat := Database.key_of_view seen
      exact .inr ⟨rfl, r, isKey ▸ seen, BitVec.toNat_inj.mp isKey, matched, rfl⟩

theorem effect_outcome {t : Nat} {s s' : Server} {op : Op} {a : Answer} {result answered : op.Res}
    (effected : effect t s op a = some (answered, s')) : Outcome t s op result s' := by
  cases op with
  | now | findByTokenHash | findByIdAndUserId | findLive | select | setOnline | publish | respond
  | setCookie =>
      obtain ⟨rfl, rfl⟩ := Prod.mk.inj (Option.some.inj effected)
      exact .same ⟨rfl, rfl, rfl⟩ rfl
  | requireUser userId =>
      simp only [effect] at effected
      split at effected
      · obtain ⟨rfl, rfl⟩ := Prod.mk.inj (Option.some.inj effected)
        exact .same (.refl s) rfl
      · obtain ⟨rfl, rfl⟩ := Prod.mk.inj (Option.some.inj effected)
        exact .same (.refl s) rfl
  | commit scope =>
      obtain ⟨rfl, rfl⟩ := Prod.mk.inj (Option.some.inj effected)
      exact .committed rfl
  | rollback scope =>
      obtain ⟨rfl, rfl⟩ := Prod.mk.inj (Option.some.inj effected)
      exact .closed scope rfl rfl
  | modify scope target change id =>
      obtain ⟨⟨n, s₁⟩, modified, isResult⟩ := Option.map_eq_some_iff.mp effected
      obtain ⟨-, rfl⟩ := Prod.mk.inj isResult
      obtain ⟨free, ⟨-, rfl, -⟩ | ⟨-, r, seen, isId, matched, rfl⟩⟩ := modify_some modified
      · exact .same (.refl _) rfl
      · have isKey : r.key = id.toNat := BitVec.toNat_inj.mpr isId
        rw [← isKey] at free
        cases change with
        | markUsed now => exact .used r seen free isId matched rfl
        | delete => exact .erased r seen free isId matched rfl
  | save userId expiresAt familyId =>
      obtain ⟨⟨raw, s₁⟩, saved, isResult⟩ := Option.map_eq_some_iff.mp effected
      obtain ⟨-, rfl⟩ := Prod.mk.inj isResult
      simp only [Server.save] at saved
      split at saved
      · contradiction
      next fresh =>
        obtain ⟨-, rfl⟩ := Prod.mk.inj (Option.some.inj saved)
        simp only [not_or] at fresh
        exact .saved _ a.family rfl rfl fresh.1 fresh.2.1 fresh.2.2.1 rfl rfl

theorem perform_outcome {t : Nat} {s s' : Server} {op : Op} {a : Answer} {result : op.Res}
    (performed : perform t s op a = some (result, s')) : Outcome t s op result s' := by
  refine faulty_leaves (fun _ _ => effect_outcome) ?_ performed
  cases op with
  | commit scope => exact .closed scope rfl rfl
  | rollback scope => exact .closed scope rfl rfl
  | _ => exact .same (.refl s) rfl

theorem Exec.outcome {t : Nat} {s s' : Server} {op : Op} {result : op.Res}
    (exec : Exec t s op result s') : Outcome t s op result s' :=
  exec.elim fun _ => perform_outcome

/-- An operation that answers has had its effect. -/
theorem Exec.effect_of_ok {t : Nat} {s s' : Server} {op : Op} {value : op.Val}
    (exec : Exec t s op (.ok value) s') : ∃ a, effect t s op a = some (.ok value, s') :=
  exec.elim fun a performed => ⟨a, faulty_ok performed⟩

theorem Exec.modify_ok {t : Nat} {s s' : Server} {scope : Scope} {target : Target} {change : Change}
    {id : UUID} {n : Nat} (exec : Exec t s (.modify scope target change id) (.ok n) s') :
    s.modify t scope target change id = some (n, s') := by
  obtain ⟨a, effected⟩ := exec.effect_of_ok
  obtain ⟨⟨m, s₁⟩, modified, isResult⟩ := Option.map_eq_some_iff.mp effected
  obtain ⟨isValue, rfl⟩ := Prod.mk.inj isResult
  obtain rfl := Except.ok.inj isValue
  exact modified

end Auth
