import Mathlib.Tactic.Common

/-!
Computations that write a log of what they do, may fail, and run out of fuel when a loop
goes round more often than allowed.
-/

def Metered (ε event α : Type) : Type :=
  List event → Option (Except ε α × List event)

namespace Metered

variable {ε event α β : Type}

instance : Monad (Metered ε event) where
  pure a := fun log => some (.ok a, log)
  bind x f := fun log =>
    match x log with
    | none => none
    | some (.error e, log) => some (.error e, log)
    | some (.ok a, log) => f a log

def fail (e : ε) : Metered ε event α :=
  fun log => some (.error e, log)

def lift (result : Except ε α) : Metered ε event α :=
  fun log => some (result, log)

def record (e : event) : Metered ε event Unit :=
  fun log => some (.ok (), log ++ [e])

def exhausted : Metered ε event α :=
  fun _ => none

/-- The computation ends, and `work` is what it adds to any log. -/
def Runs (x : Metered ε event α) (result : Except ε α) (work : List event) : Prop :=
  ∀ log, x log = some (result, log ++ work)

theorem runs_pure (a : α) : Runs (pure a : Metered ε event α) (.ok a) [] := by
  intro log
  simp [pure]

theorem runs_fail (e : ε) : Runs (fail e : Metered ε event α) (.error e) [] := by
  intro log
  simp [fail]

theorem runs_lift (result : Except ε α) : Runs (lift result : Metered ε event α) result [] := by
  intro log
  simp [lift]

theorem runs_record (e : event) : Runs (record e : Metered ε event Unit) (.ok ()) [e] := by
  intro log
  simp [record]

section

variable {x : Metered ε event α} {f : α → Metered ε event β}

theorem Runs.bind {a : α} {result : Except ε β} {work later : List event}
    (runs : Runs x (.ok a) work) (next : Runs (f a) result later) :
    Runs (x >>= f) result (work ++ later) := by
  intro log
  simp only [Bind.bind, runs log, next _, List.append_assoc]

theorem Runs.fails {e : ε} {work : List event} (runs : Runs x (.error e) work) :
    Runs (x >>= f) (.error e) work := by
  intro log
  simp only [Bind.bind, runs log]

/-- After a computation that adds nothing, the rest runs as it does alone. -/
theorem Runs.after {a : α} {result : Except ε β} {later : List event}
    (runs : Runs x (.ok a) []) (next : Runs (f a) result later) : Runs (x >>= f) result later :=
  runs.bind next

/-- A computation without a log of its own, followed by another one. -/
theorem Runs.lift_bind {result : Except ε α} {g : α → Except ε β}
    (next : ∀ a, result = .ok a → Runs (f a) (g a) []) : Runs (lift result >>= f) (result >>= g) [] := by
  cases result with
  | error e => exact (runs_lift _).fails
  | ok a => exact (runs_lift _).after (next a rfl)

/-- Step by step it does what a computation without a log does. -/
theorem Runs.bind_of {result : Except ε α} {g : α → Except ε β} {work : List event}
    (runs : Runs x result work) (next : ∀ a, ∃ later, Runs (f a) (g a) later) :
    ∃ later, Runs (x >>= f) (result >>= g) later := by
  cases result with
  | error e => exact ⟨work, runs.fails⟩
  | ok a =>
      obtain ⟨later, after⟩ := next a
      exact ⟨work ++ later, runs.bind after⟩

theorem Runs.unique {first second : Except ε α} {work other : List event}
    (runs : Runs x first work) (again : Runs x second other) : first = second ∧ work = other := by
  have same := (runs []).symm.trans (again [])
  simpa using same

end

end Metered
