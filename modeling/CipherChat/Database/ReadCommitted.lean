import CipherChat.Store.Table
import Mathlib.Data.List.Dedup

/-!
Transactions on a table at READ COMMITTED: what a statement of an open transaction sees,
the rows it locks by writing them, and what its end leaves.  A row is written by one open
transaction at a time, so the versions that are pending are a table of their own.
-/

namespace ReadCommitted

variable {ρ κ τ : Type} [LinearOrder κ] {key : ρ → κ}

/-- What an open transaction has written last under a key: a row, or nothing if it deleted it. -/
structure Write (key : ρ → κ) (τ : Type) where
  holder : τ
  target : κ
  version : Option ρ
  named : ∀ r, version = some r → key r = target

/-- The rows as the last commits left them, and what the open transactions have written. -/
structure Database (key : ρ → κ) (τ : Type) where
  committed : Table key
  pending : Table (Write.target : Write key τ → κ)

namespace Write

/-- The table once the transaction has committed. -/
def apply (table : Table key) (w : Write key τ) : Table key :=
  match w.version with
  | some r => table.put r
  | none => table.remove fun r => key r = w.target

theorem get_apply (table : Table key) (w : Write key τ) (k : κ) :
    (w.apply table).get k = if w.target = k then w.version else table.get k := by
  unfold apply
  cases written : w.version with
  | some r =>
      have named : key r = w.target := w.named r written
      rw [Table.get_put, named]
  | none =>
      rw [Table.get_remove]
      by_cases same : w.target = k
      · rw [if_pos same]
        cases found : table.get k with
        | none => rfl
        | some r =>
            have named : key r = w.target := (Table.key_of_get found).trans same.symm
            simp [named]
      · rw [if_neg same]
        cases found : table.get k with
        | none => rfl
        | some r =>
            have other : key r ≠ w.target := fun named => same (named.symm.trans (Table.key_of_get found))
            simp [other]

theorem get_foldl (table : Table key) (writes : List (Write key τ)) (k : κ)
    (distinct : writes.Pairwise fun w w' => w.target ≠ w'.target) :
    (writes.foldl apply table).get k =
      match writes.find? fun w => w.target = k with
      | some w => w.version
      | none => table.get k := by
  induction writes generalizing table with
  | nil => rfl
  | cons w rest ih =>
      obtain ⟨apart, later⟩ := List.pairwise_cons.mp distinct
      rw [List.foldl_cons, ih _ later]
      by_cases same : w.target = k
      · have none : rest.find? (fun w' => w'.target = k) = none := by
          refine List.find?_eq_none.mpr fun w' member => ?_
          simpa using fun same' => apart w' member (same.trans same'.symm)
        simp [none, same, get_apply]
      · simp [same, get_apply]

end Write

namespace Database

section Rows

variable (db : Database key τ) (t : τ)

def empty : Database key τ where
  committed := .empty
  pending := .empty

/-- Who has written the row under a key, and what it will be. -/
def held (k : κ) : Option (τ × Option ρ) :=
  (db.pending.get k).map fun w => (w.holder, w.version)

def write (r : ρ) : Database key τ :=
  { db with pending := db.pending.put ⟨t, key r, some r, fun _ same => congrArg key (Option.some.inj same).symm⟩ }

def erase (k : κ) : Database key τ :=
  { db with pending := db.pending.put ⟨t, k, none, nofun⟩ }

variable {db t} {k : κ} {r : ρ}

theorem named {holder : τ} (isHeld : db.held k = some (holder, some r)) : key r = k := by
  obtain ⟨w, found, same⟩ := Option.map_eq_some_iff.mp isHeld
  obtain ⟨_, isVersion⟩ := Prod.mk.inj same
  exact (w.named r isVersion).trans (Table.key_of_get found)

@[simp] theorem held_empty : (empty : Database key τ).held k = none := by
  rfl

@[simp] theorem committed_write : (db.write t r).committed = db.committed := by
  rfl

@[simp] theorem committed_erase {k : κ} : (db.erase t k).committed = db.committed := by
  rfl

theorem held_write : (db.write t r).held k = if key r = k then some (t, some r) else db.held k := by
  rw [held, write, Table.get_put]
  split
  · rfl
  · rfl

theorem held_erase {k' : κ} :
    (db.erase t k').held k = if k' = k then some (t, none) else db.held k := by
  rw [held, erase, Table.get_put]
  split
  · rfl
  · rfl

end Rows

section Transactions

variable [DecidableEq τ] (db : Database key τ) (t : τ)

/-- The row a statement of the transaction sees under a key. -/
def view (k : κ) : Option ρ :=
  match db.held k with
  | some (holder, version) => if holder = t then version else db.committed.get k
  | none => db.committed.get k

/-- Another transaction has written the row, and has not ended. -/
def locked (k : κ) : Bool :=
  match db.held k with
  | some (holder, _) => holder ≠ t
  | none => false

/-- The rows a statement of the transaction sees. -/
def visible : List ρ :=
  ((db.committed.rows.map key ++ db.pending.rows.map Write.target).dedup).filterMap (db.view t)

/-- The transaction is over, and nothing of it stays. -/
def rollback : Database key τ :=
  { db with pending := db.pending.remove fun w => w.holder = t }

def commit : Database key τ where
  committed := (db.pending.remove fun w => w.holder ≠ t).rows.foldl (fun table w => w.apply table)
    db.committed
  pending := db.pending.remove fun w => w.holder = t

variable {db t} {k : κ} {r : ρ}

theorem key_of_view (seen : db.view t k = some r) : key r = k := by
  unfold view at seen
  split at seen
  next holder version isHeld =>
    split at seen
    · subst seen
      exact named isHeld
    · exact Table.key_of_get seen
  next => exact Table.key_of_get seen

theorem mem_visible : r ∈ db.visible t ↔ db.view t (key r) = some r := by
  rw [visible, List.mem_filterMap]
  constructor
  · rintro ⟨k, _, seen⟩
    obtain rfl := key_of_view seen
    exact seen
  · intro seen
    refine ⟨key r, List.mem_dedup.mpr (List.mem_append.mpr ?_), seen⟩
    cases isHeld : db.held (key r) with
    | none =>
        have inTable : db.committed.get (key r) = some r := by simpa [view, isHeld] using seen
        exact .inl (List.mem_map_of_mem (Table.mem_of_get inTable))
    | some _ =>
        obtain ⟨w, found, _⟩ := Option.map_eq_some_iff.mp isHeld
        have target : w.target = key r := Table.key_of_get found
        exact .inr (target ▸ List.mem_map_of_mem (Table.mem_of_get found))

@[simp] theorem committed_rollback : (db.rollback t).committed = db.committed := by
  rfl

theorem held_rollback : (db.rollback t).held k = (db.held k).filter fun w => w.1 ≠ t := by
  rw [held, rollback, Table.get_remove, held, Option.filter_map]
  simp [Function.comp_def]

theorem held_commit : (db.commit t).held k = (db.held k).filter fun w => w.1 ≠ t :=
  held_rollback

/-- A commit leaves what its transaction saw last. -/
theorem get_commit : (db.commit t).committed.get k = db.view t k := by
  have distinct : (db.pending.remove fun w => w.holder ≠ t).rows.Pairwise
      fun w w' => w.target ≠ w'.target :=
    (db.pending.remove fun w => w.holder ≠ t).ordered.imp fun less => ne_of_lt less
  have found : (db.pending.remove fun w => w.holder ≠ t).rows.find? (fun w => w.target = k) =
      (db.pending.get k).filter fun w => w.holder = t := by
    rw [← Table.get, Table.get_remove]
    simp
  rw [commit, Write.get_foldl _ _ _ distinct, found, view, held]
  cases db.pending.get k with
  | none => rfl
  | some w =>
      by_cases mine : w.holder = t
      · simp [Option.filter_some, mine]
      · simp [Option.filter_some, mine]

end Transactions

end Database

end ReadCommitted
