import Mathlib.Tactic.Common

/-!
Operations that fail, either before their effect or after it, when only the answer is lost.
-/

namespace Async

structure Failure (γ : Type) where
  cause : γ
  /-- Whether the operation had its effect before its answer was lost. -/
  applied : Bool

variable {γ ε σ α : Type}

/-- An operation with this effect, which leaves `failed` where it has failed without. -/
def faulty (thrown : γ → ε) (failure : Option (Failure γ)) (effect : Option (Except ε α × σ))
    (failed : σ) : Option (Except ε α × σ) :=
  match failure with
  | none => effect
  | some ⟨cause, false⟩ => some (.error (thrown cause), failed)
  | some ⟨cause, true⟩ => effect.map fun after => (.error (thrown cause), after.2)

variable {thrown : γ → ε} {failure : Option (Failure γ)} {effect : Option (Except ε α × σ)}
  {failed s : σ} {result : Except ε α}

theorem faulty_cases (performed : faulty thrown failure effect failed = some (result, s)) :
    effect = some (result, s) ∨ ∃ cause, result = .error (thrown cause) ∧
      (s = failed ∨ ∃ answered, effect = some (answered, s)) := by
  unfold faulty at performed
  split at performed
  next => exact .inl performed
  next cause =>
    obtain ⟨rfl, rfl⟩ := Prod.mk.inj (Option.some.inj performed)
    exact .inr ⟨cause, rfl, .inl rfl⟩
  next cause =>
    obtain ⟨⟨answered, s'⟩, effected, same⟩ := Option.map_eq_some_iff.mp performed
    obtain ⟨rfl, rfl⟩ := Prod.mk.inj same
    exact .inr ⟨cause, rfl, .inr ⟨answered, effected⟩⟩

/-- What an operation leaves, its effect or a failure, whatever it answers. -/
theorem faulty_leaves {P : σ → Prop}
    (effected : ∀ answered s, effect = some (answered, s) → P s) (isFailed : P failed)
    (performed : faulty thrown failure effect failed = some (result, s)) : P s := by
  rcases faulty_cases performed with effected' | ⟨_, _, rfl | ⟨_, effected'⟩⟩
  · exact effected _ _ effected'
  · exact isFailed
  · exact effected _ _ effected'

/-- An operation that answers has had its effect. -/
theorem faulty_ok {value : α} (performed : faulty thrown failure effect failed = some (.ok value, s)) :
    effect = some (.ok value, s) := by
  rcases faulty_cases performed with effected | ⟨_, isError, _⟩
  · exact effected
  · cases isError

end Async
