import Mathlib.Data.List.Sort
import Mathlib.Order.Basic
import Mathlib.Tactic.Common

/-!
Tables of records in the order of their keys: what an object store with a primary key
holds.  Records are found, replaced and removed by key; every law is stated through `get`.
-/

variable {α κ : Type} [LinearOrder κ] {key : α → κ}

structure Table (key : α → κ) where
  rows : List α
  ordered : rows.Pairwise fun a b => key a < key b

namespace Table

def empty : Table key where
  rows := []
  ordered := List.Pairwise.nil

def get (t : Table key) (k : κ) : Option α :=
  t.rows.find? fun a => key a = k

def insertRow (key : α → κ) (a : α) : List α → List α
  | [] => [a]
  | b :: rest =>
      if key a < key b then a :: b :: rest
      else if key a = key b then a :: rest
      else b :: insertRow key a rest

theorem mem_insertRow {a b : α} {rows : List α} (member : b ∈ insertRow key a rows) :
    b = a ∨ b ∈ rows := by
  induction rows with
  | nil => simpa [insertRow] using member
  | cons c rest ih =>
      simp only [insertRow] at member
      split_ifs at member with before same
      · simpa using member
      · rcases List.mem_cons.mp member with isNew | old
        · exact .inl isNew
        · exact .inr (List.mem_cons_of_mem _ old)
      · rcases List.mem_cons.mp member with isFirst | later
        · exact .inr (by simp [isFirst])
        · exact (ih later).imp_right (List.mem_cons_of_mem _)

theorem insertRow_ordered (a : α) {rows : List α}
    (ordered : rows.Pairwise fun a b => key a < key b) :
    (insertRow key a rows).Pairwise fun a b => key a < key b := by
  induction rows with
  | nil => simp [insertRow]
  | cons b rest ih =>
      rw [List.pairwise_cons] at ordered
      simp only [insertRow]
      split_ifs with before same
      · refine List.pairwise_cons.mpr ⟨fun c member => ?_, List.pairwise_cons.mpr ordered⟩
        rcases List.mem_cons.mp member with rfl | later
        · exact before
        · exact before.trans (ordered.1 c later)
      · exact List.pairwise_cons.mpr ⟨fun c member => same ▸ ordered.1 c member, ordered.2⟩
      · refine List.pairwise_cons.mpr ⟨fun c member => ?_, ih ordered.2⟩
        rcases mem_insertRow member with rfl | old
        · exact lt_of_le_of_ne (not_lt.mp before) (Ne.symm same)
        · exact ordered.1 c old

def put (t : Table key) (a : α) : Table key where
  rows := insertRow key a t.rows
  ordered := insertRow_ordered a t.ordered

def remove (t : Table key) (gone : α → Bool) : Table key where
  rows := t.rows.filter fun a => !gone a
  ordered := t.ordered.filter _

theorem key_of_get {t : Table key} {k : κ} {a : α} (found : t.get k = some a) : key a = k := by
  simpa using List.find?_some found

theorem mem_of_get {t : Table key} {k : κ} {a : α} (found : t.get k = some a) : a ∈ t.rows :=
  List.mem_of_find?_eq_some found

theorem get_of_mem {t : Table key} {a : α} (member : a ∈ t.rows) : t.get (key a) = some a := by
  obtain ⟨rows, ordered⟩ := t
  unfold get
  induction rows with
  | nil => simp at member
  | cons b rest ih =>
      rw [List.pairwise_cons] at ordered
      rcases List.mem_cons.mp member with rfl | later
      · simp
      · have differs : key b ≠ key a := ne_of_lt (ordered.1 a later)
        simpa [List.find?_cons, differs] using ih ordered.2 later

theorem mem_rows {t : Table key} {a : α} : a ∈ t.rows ↔ t.get (key a) = some a :=
  ⟨get_of_mem, mem_of_get⟩

theorem mem_put {t : Table key} {a b : α} (member : b ∈ (t.put a).rows) : b = a ∨ b ∈ t.rows :=
  mem_insertRow member

theorem mem_remove {t : Table key} {gone : α → Bool} {a : α} :
    a ∈ (t.remove gone).rows ↔ a ∈ t.rows ∧ gone a = false := by
  simp [remove]

theorem find?_insertRow (a : α) (k : κ) (rows : List α) :
    (insertRow key a rows).find? (fun b => key b = k) =
      if key a = k then some a else rows.find? (fun b => key b = k) := by
  induction rows with
  | nil => by_cases hit : key a = k <;> simp [insertRow, hit]
  | cons b rest ih =>
      simp only [insertRow]
      by_cases before : key a < key b
      · rw [if_pos before]
        by_cases hit : key a = k <;> simp [hit]
      by_cases same : key a = key b
      · rw [if_neg before, if_pos same]
        by_cases hit : key a = k
        · simp [hit]
        · have other : key b ≠ k := same ▸ hit
          simp [hit, other]
      · rw [if_neg before, if_neg same]
        by_cases first : key b = k
        · have other : key a ≠ k := fun hit => same (hit.trans first.symm)
          simp [first, other]
        · simp [first, ih]

theorem get_put (t : Table key) (a : α) (k : κ) :
    (t.put a).get k = if key a = k then some a else t.get k :=
  find?_insertRow a k t.rows

@[simp] theorem get_put_self (t : Table key) (a : α) : (t.put a).get (key a) = some a := by
  simp [get_put]

theorem get_put_of_ne {t : Table key} {a : α} {k : κ} (other : key a ≠ k) :
    (t.put a).get k = t.get k := by
  simp [get_put, other]

theorem mem_put_iff {t : Table key} {a b : α} :
    b ∈ (t.put a).rows ↔ b = a ∨ (b ∈ t.rows ∧ key b ≠ key a) := by
  rw [mem_rows, get_put]
  constructor
  · intro found
    split at found
    · exact .inl (Option.some.inj found).symm
    next other => exact .inr ⟨mem_rows.mpr found, Ne.symm other⟩
  · rintro (rfl | ⟨member, other⟩)
    · rw [if_pos rfl]
    · rw [if_neg (Ne.symm other)]
      exact get_of_mem member

theorem get_remove (t : Table key) (gone : α → Bool) (k : κ) :
    (t.remove gone).get k = (t.get k).filter fun a => !gone a := by
  cases found : t.get k with
  | none =>
      cases kept : (t.remove gone).get k with
      | none => rfl
      | some a =>
          have member : a ∈ t.rows := (List.mem_filter.mp (mem_of_get kept)).1
          have same : key a = k := key_of_get kept
          rw [← same, get_of_mem member] at found
          exact absurd found (by simp)
  | some a =>
      have same : key a = k := key_of_get found
      by_cases dropped : gone a = true
      · rw [Option.filter_some, if_neg (by simp [dropped])]
        cases kept : (t.remove gone).get k with
        | none => rfl
        | some b =>
            have filtered := List.mem_filter.mp (mem_of_get kept)
            have again := get_of_mem filtered.1
            rw [key_of_get kept, found, Option.some.injEq] at again
            subst b
            simp [dropped] at filtered
      · rw [Option.filter_some, if_pos (by simpa using dropped)]
        have member : a ∈ (t.remove gone).rows :=
          List.mem_filter.mpr ⟨mem_of_get found, by simpa using dropped⟩
        rw [← same]
        exact get_of_mem member

@[ext] theorem ext_get {t u : Table key} (same : ∀ k, t.get k = u.get k) : t = u := by
  have rowsEq : t.rows = u.rows := by
    have members : ∀ a, a ∈ t.rows ↔ a ∈ u.rows := fun a => by rw [mem_rows, mem_rows, same]
    have sorted := t.ordered
    have sorted' := u.ordered
    have distinct : ∀ {l : List α}, (l.Pairwise fun a b => key a < key b) → l.Nodup :=
      fun pairs => pairs.imp fun less same => absurd (same ▸ less) (lt_irrefl _)
    refine List.Perm.eq_of_pairwise (fun a b _ _ first second => absurd first
      (not_lt_of_gt second)) sorted sorted' ?_
    exact (List.perm_ext_iff_of_nodup (distinct sorted) (distinct sorted')).mpr members
  cases t
  cases u
  simpa using rowsEq

end Table
