import CipherChat.Database.ReadCommitted

/-!
What one step of a transaction can do to a database, and what it leaves to the others: their own
writes, and the rows that they hold.
-/

namespace ReadCommitted

variable {ρ κ τ : Type} [LinearOrder κ] {key : ρ → κ}

namespace Database

variable (db : Database key τ)

/-- The row is in the table. -/
def Stored (r : ρ) : Prop :=
  db.committed.get (key r) = some r

/-- The row is in the table, or written by an open transaction. -/
def Version (r : ρ) : Prop :=
  db.Stored r ∨ ∃ t, db.held (key r) = some (t, some r)

/-- The transaction has written nothing. -/
def Unwritten (t : τ) : Prop :=
  ∀ k version, db.held k ≠ some (t, version)

variable {db} {t : τ} {r r' : ρ} {k : κ}

theorem mem_rows : r ∈ db.committed.rows ↔ db.Stored r :=
  Table.mem_rows

theorem stored_of_get (here : db.committed.get k = some r) : db.Stored r := by
  rw [Stored, show key r = k from Table.key_of_get here]
  exact here

theorem Stored.unique (stored : db.Stored r) (stored' : db.Stored r') (same : key r = key r') :
    r = r' := by
  rw [Stored, same, stored'] at stored
  exact (Option.some.inj stored).symm

theorem unwritten_of_isEmpty (isEmpty : db.pending.rows.isEmpty = true) : db.Unwritten t := by
  intro k version isHeld
  obtain ⟨w, found, _⟩ := Option.map_eq_some_iff.mp isHeld
  have member := Table.mem_of_get found
  rw [List.isEmpty_iff.mp isEmpty] at member
  cases member

theorem held_of_write {u : τ} {version : Option ρ} (isHeld : (db.write t r).held k = some (u, version)) :
    db.held k = some (u, version) ∨ u = t ∧ key r = k ∧ version = some r := by
  rw [held_write] at isHeld
  split at isHeld
  next isKey =>
    obtain ⟨rfl, rfl⟩ := Prod.mk.inj (Option.some.inj isHeld)
    exact .inr ⟨rfl, isKey, rfl⟩
  next => exact .inl isHeld

theorem held_of_erase {u : τ} {k' : κ} {version : Option ρ}
    (isHeld : (db.erase t k').held k = some (u, version)) :
    db.held k = some (u, version) ∨ u = t ∧ k' = k ∧ version = none := by
  rw [held_erase] at isHeld
  split at isHeld
  next isKey =>
    obtain ⟨rfl, rfl⟩ := Prod.mk.inj (Option.some.inj isHeld)
    exact .inr ⟨rfl, isKey, rfl⟩
  next => exact .inl isHeld

theorem version_write {r' : ρ} (version : (db.write t r').Version r) : r = r' ∨ db.Version r := by
  rcases version with stored | ⟨u, isHeld⟩
  · exact .inr (.inl stored)
  · rw [held_write] at isHeld
    split at isHeld
    · obtain ⟨_, same⟩ := Prod.mk.inj (Option.some.inj isHeld)
      exact .inl (Option.some.inj same).symm
    · exact .inr (.inr ⟨u, isHeld⟩)

theorem version_erase {k' : κ} (version : (db.erase t k').Version r) : db.Version r := by
  refine version.imp_right fun ⟨u, isHeld⟩ => ⟨u, ?_⟩
  rw [held_erase] at isHeld
  split at isHeld
  · cases isHeld
  · exact isHeld

variable [DecidableEq τ]

theorem held_of_commit {u : τ} {version : Option ρ} (isHeld : (db.commit t).held k = some (u, version)) :
    db.held k = some (u, version) ∧ u ≠ t := by
  rw [held_commit] at isHeld
  simpa using Option.filter_eq_some_iff.mp isHeld

theorem held_of_rollback {u : τ} {version : Option ρ}
    (isHeld : (db.rollback t).held k = some (u, version)) :
    db.held k = some (u, version) ∧ u ≠ t :=
  held_of_commit isHeld

/-- A transaction sees the table, but for what it has written itself. -/
theorem view_of_not_held (free : ∀ version, db.held k ≠ some (t, version)) :
    db.view t k = db.committed.get k := by
  unfold view
  split
  next holder version isHeld =>
    rw [if_neg]
    rintro rfl
    exact free version isHeld
  next => rfl

theorem view_of_held {version : Option ρ} (isHeld : db.held k = some (t, version)) :
    db.view t k = version := by
  simp [view, isHeld]

/-- What a transaction has written it sees. -/
theorem view_write : (db.write t r).view t k = if key r = k then some r else db.view t k := by
  unfold view
  rw [held_write]
  by_cases isKey : key r = k
  · simp [isKey]
  · rw [if_neg isKey, if_neg isKey]
    rfl

theorem view_erase {k' : κ} : (db.erase t k').view t k = if k' = k then none else db.view t k := by
  unfold view
  rw [held_erase]
  by_cases isKey : k' = k
  · simp [isKey]
  · rw [if_neg isKey, if_neg isKey]
    rfl

theorem Unwritten.view (unwritten : db.Unwritten t) (k : κ) : db.view t k = db.committed.get k :=
  view_of_not_held (unwritten k)

theorem version_of_view (seen : db.view t k = some r) : db.Version r := by
  have isKey : key r = k := key_of_view seen
  subst isKey
  unfold Database.view at seen
  split at seen
  next holder version isHeld =>
    split at seen
    · subst seen
      exact .inr ⟨holder, isHeld⟩
    · exact .inl seen
  next => exact .inl seen

theorem version_commit (version : (db.commit t).Version r) : db.Version r := by
  rcases version with stored | ⟨u, isHeld⟩
  · rw [Stored, get_commit] at stored
    exact version_of_view stored
  · rw [held_commit] at isHeld
    exact .inr ⟨u, (Option.filter_eq_some_iff.mp isHeld).1⟩

theorem version_rollback (version : (db.rollback t).Version r) : db.Version r := by
  refine version.imp_right fun ⟨u, isHeld⟩ => ⟨u, ?_⟩
  rw [held_rollback] at isHeld
  exact (Option.filter_eq_some_iff.mp isHeld).1

variable (db t) in
/-- The row as a statement that changes it finds it, once nobody else holds it. -/
def reach (k : κ) : Option (Option ρ) :=
  if db.locked t k then none else some (db.view t k)

theorem reach_eq_some {row : Option ρ} :
    db.reach t k = some row ↔ db.locked t k = false ∧ db.view t k = row := by
  rw [reach]
  cases db.locked t k with
  | true => simp
  | false => simp

theorem unlocked {u : τ} {version : Option ρ} (free : db.locked t k = false)
    (isHeld : db.held k = some (u, version)) : u = t := by
  rw [locked, isHeld] at free
  simpa using free

end Database

variable [DecidableEq τ]

/-- One step of a transaction. -/
inductive Change (t : τ) (db : Database key τ) : Database key τ → Prop
  | none : Change t db db
  | write (r : ρ) : db.locked t (key r) = false → Change t db (db.write t r)
  | erase (k : κ) : db.locked t k = false → Change t db (db.erase t k)
  | commit : Change t db (db.commit t)
  | rollback : Change t db (db.rollback t)

namespace Change

variable {t u : τ} {db db' : Database key τ} {k : κ} {version : Option ρ}

/-- A transaction does not touch what another has written. -/
theorem held_other (change : Change t db db') (other : u ≠ t) :
    db'.held k = some (u, version) ↔ db.held k = some (u, version) := by
  have overwritten {k' : κ} {new : Option ρ} (free : db.locked t k' = false) :
      (if k' = k then some (t, new) else db.held k) = some (u, version) ↔
        db.held k = some (u, version) := by
    split
    next isKey =>
      subst isKey
      exact ⟨fun same => absurd (Prod.mk.inj (Option.some.inj same)).1.symm other,
        fun isHeld => absurd (Database.unlocked free isHeld) other⟩
    next => rfl
  have ended : (db.held k).filter (fun w => w.1 ≠ t) = some (u, version) ↔
      db.held k = some (u, version) := by
    rw [Option.filter_eq_some_iff]
    simp [other]
  cases change with
  | none => rfl
  | write r free =>
      rw [Database.held_write]
      exact overwritten free
  | erase k' free =>
      rw [Database.held_erase]
      exact overwritten free
  | commit =>
      rw [Database.held_commit]
      exact ended
  | rollback =>
      rw [Database.held_rollback]
      exact ended

/-- A row changes only when the transaction that holds it commits. -/
theorem get_of_not_held (change : Change t db db') (free : ∀ version, db.held k ≠ some (t, version)) :
    db'.committed.get k = db.committed.get k := by
  cases change with
  | commit => rw [Database.get_commit, Database.view_of_not_held free]
  | _ => rfl

theorem get_of_held_other (change : Change t db db') (other : u ≠ t)
    (isHeld : db.held k = some (u, version)) : db'.committed.get k = db.committed.get k := by
  refine change.get_of_not_held fun version' mine => other ?_
  rw [isHeld] at mine
  exact (Prod.mk.inj (Option.some.inj mine)).1

theorem of_changed (change : Change t db db') (changed : db'.committed.get k ≠ db.committed.get k) :
    db' = db.commit t ∧ ∃ version, db.held k = some (t, version) := by
  have isHeld : ∃ version, db.held k = some (t, version) := by
    by_contra none
    exact changed (change.get_of_not_held fun version isHeld => none ⟨version, isHeld⟩)
  cases change with
  | commit => exact ⟨rfl, isHeld⟩
  | _ => exact absurd rfl changed

end Change

end ReadCommitted
