import Mathlib.Logic.Relation
import Mathlib.Order.Basic
import Mathlib.Order.Nat
import Mathlib.Tactic.Common

/-!
The causal order on a list of events.  Every event belongs to a process and may have
received what one earlier event sent; events are named by their positions, so a list only
ever grows at its end and the order among the old events stays as it is.
-/

namespace Causality

variable {ε ρ : Type}

structure Pattern (ε ρ : Type) where
  process : ε → ρ
  received : ε → Option Nat

variable (pattern : Pattern ε ρ) (events : List ε)

def Direct (i j : Nat) : Prop :=
  i < j ∧ ∃ a b, events[i]? = some a ∧ events[j]? = some b ∧
    (pattern.process a = pattern.process b ∨ pattern.received b = some i)

def Before : Nat → Nat → Prop :=
  Relation.TransGen (Direct pattern events)

/-- The causal past of an event, the event itself included. -/
def Past (i j : Nat) : Prop :=
  i = j ∨ Before pattern events i j

variable {pattern} {events}

theorem bound_of_getElem? {i : Nat} {a : ε} (found : events[i]? = some a) :
    i < events.length := by
  obtain ⟨bound, _⟩ := List.getElem?_eq_some_iff.mp found
  exact bound

theorem Direct.less {i j : Nat} (direct : Direct pattern events i j) : i < j :=
  direct.1

theorem Direct.bound {i j : Nat} (direct : Direct pattern events i j) : j < events.length := by
  obtain ⟨_, _, b, _, found, _⟩ := direct
  exact bound_of_getElem? found

theorem Before.less {i j : Nat} (before : Before pattern events i j) : i < j := by
  induction before with
  | single direct => exact direct.less
  | tail _ direct ih => exact ih.trans direct.less

theorem Before.bound {i j : Nat} (before : Before pattern events i j) : j < events.length := by
  cases before with
  | single direct => exact direct.bound
  | tail _ direct => exact direct.bound

theorem Past.le {i j : Nat} (past : Past pattern events i j) : i ≤ j := by
  rcases past with rfl | before
  · exact le_rfl
  · exact before.less.le

theorem Past.trans {i j k : Nat} (first : Past pattern events i j)
    (second : Past pattern events j k) : Past pattern events i k := by
  rcases first with rfl | before
  · exact second
  rcases second with rfl | later
  · exact .inr before
  · exact .inr (Relation.TransGen.trans before later)

theorem past_of_process {i j : Nat} {a b : ε} (first : events[i]? = some a)
    (second : events[j]? = some b) (same : pattern.process a = pattern.process b)
    (le : i ≤ j) : Past pattern events i j := by
  rcases Nat.eq_or_lt_of_le le with rfl | less
  · exact .inl rfl
  · exact .inr (.single ⟨less, a, b, first, second, .inl same⟩)

/-- What strictly increases along the direct edges strictly increases along the order. -/
theorem Before.increases {τ : Type} [Preorder τ] {i j : Nat} (before : Before pattern events i j)
    (value : Nat → τ) (step : ∀ i j, Direct pattern events i j → value i < value j) :
    value i < value j := by
  induction before with
  | single direct => exact step _ _ direct
  | tail _ direct ih => exact ih.trans (step _ _ direct)

section Append

variable {e : ε}

theorem getElem?_append_old {i : Nat} (bound : i < events.length) :
    (events ++ [e])[i]? = events[i]? :=
  List.getElem?_append_left bound

theorem found_append {i : Nat} {a : ε} (found : (events ++ [e])[i]? = some a) :
    events[i]? = some a ∨ i = events.length ∧ a = e := by
  have bound := bound_of_getElem? found
  simp only [List.length_append, List.length_singleton] at bound
  rcases Nat.lt_succ_iff_lt_or_eq.mp bound with old | rfl
  · exact .inl ((getElem?_append_old old).symm.trans found)
  · simp only [List.getElem?_concat_length, Option.some.injEq] at found
    exact .inr ⟨rfl, found.symm⟩

theorem direct_append {i j : Nat} (bound : j < events.length) :
    Direct pattern (events ++ [e]) i j ↔ Direct pattern events i j := by
  unfold Direct
  rw [getElem?_append_old bound]
  refine and_congr_right fun less => ?_
  rw [getElem?_append_old (less.trans bound)]

theorem before_append {i j : Nat} (bound : j < events.length) :
    Before pattern (events ++ [e]) i j ↔ Before pattern events i j := by
  constructor
  · intro before
    induction before with
    | single direct => exact .single ((direct_append bound).mp direct)
    | tail _ direct ih =>
        have old := (direct_append bound).mp direct
        exact .tail (ih (old.less.trans bound)) old
  · intro before
    induction before with
    | single direct => exact .single ((direct_append bound).mpr direct)
    | tail _ direct ih =>
        exact .tail (ih (direct.less.trans bound)) ((direct_append bound).mpr direct)

theorem past_append {i j : Nat} (bound : j < events.length) :
    Past pattern (events ++ [e]) i j ↔ Past pattern events i j :=
  or_congr_right (before_append bound)

theorem direct_last {i : Nat} :
    Direct pattern (events ++ [e]) i events.length ↔
      ∃ a, events[i]? = some a ∧
        (pattern.process a = pattern.process e ∨ pattern.received e = some i) := by
  unfold Direct
  constructor
  · rintro ⟨less, a, b, first, second, edge⟩
    rw [getElem?_append_old less] at first
    simp only [List.getElem?_concat_length, Option.some.injEq] at second
    subst b
    exact ⟨a, first, edge⟩
  · rintro ⟨a, first, edge⟩
    have less := bound_of_getElem? first
    exact ⟨less, a, e, (getElem?_append_old less).trans first, by simp, edge⟩

theorem before_last {i : Nat} :
    Before pattern (events ++ [e]) i events.length ↔
      ∃ k a, events[k]? = some a ∧
        (pattern.process a = pattern.process e ∨ pattern.received e = some k) ∧
        Past pattern events i k := by
  constructor
  · intro before
    obtain ⟨k, chain, direct⟩ := Relation.TransGen.tail'_iff.mp before
    obtain ⟨a, found, edge⟩ := direct_last.mp direct
    refine ⟨k, a, found, edge, ?_⟩
    rcases Relation.reflTransGen_iff_eq_or_transGen.mp chain with rfl | earlier
    · exact .inl rfl
    · exact .inr ((before_append (bound_of_getElem? found)).mp earlier)
  · rintro ⟨k, a, found, edge, past⟩
    have direct := direct_last.mpr ⟨a, found, edge⟩
    rcases past with rfl | earlier
    · exact .single direct
    · exact .tail ((before_append (bound_of_getElem? found)).mpr earlier) direct

/-- An event knows what the last event of its own process knew and what it received. -/
theorem past_last {i : Nat} :
    Past pattern (events ++ [e]) i events.length ↔
      i = events.length ∨
      (∃ k a, events[k]? = some a ∧ pattern.process a = pattern.process e ∧
        Past pattern events i k) ∨
      ∃ k a, events[k]? = some a ∧ pattern.received e = some k ∧ Past pattern events i k := by
  unfold Past
  rw [before_last]
  refine or_congr_right ⟨?_, ?_⟩
  · rintro ⟨k, a, found, same | sent, past⟩
    · exact .inl ⟨k, a, found, same, past⟩
    · exact .inr ⟨k, a, found, sent, past⟩
  · rintro (⟨k, a, found, same, past⟩ | ⟨k, a, found, sent, past⟩)
    · exact ⟨k, a, found, .inl same, past⟩
    · exact ⟨k, a, found, .inr sent, past⟩

end Append

end Causality
