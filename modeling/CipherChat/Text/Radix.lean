import Mathlib.Data.List.Induction
import Mathlib.Data.Nat.Basic
import Mathlib.Tactic.Ring
import Mathlib.Tactic.Common

/-!
Numbers as lists of a fixed number of digits, the most significant first: how they are read, how
they are cut and joined, and the order of lists that are compared item by item.
-/

namespace Radix

/-- The last `width` digits of a number. -/
def digits (base : Nat) : Nat → Nat → List Nat
  | 0, _ => []
  | width + 1, n => digits base width (n / base) ++ [n % base]

def value (base : Nat) (items : List Nat) : Nat :=
  items.foldl (fun n item => n * base + item) 0

@[simp] theorem length_digits (base width n : Nat) : (digits base width n).length = width := by
  induction width generalizing n with
  | zero => rfl
  | succ width ih => simp [digits, ih]

theorem digits_lt {base : Nat} (positive : 0 < base) (width n : Nat) :
    ∀ item ∈ digits base width n, item < base := by
  induction width generalizing n with
  | zero => simp [digits]
  | succ width ih =>
      intro item member
      simp only [digits, List.mem_append, List.mem_singleton] at member
      cases member with
      | inl earlier => exact ih (n / base) item earlier
      | inr last =>
          rw [last]
          exact Nat.mod_lt n positive

@[simp] theorem value_nil (base : Nat) : value base [] = 0 := rfl

@[simp] theorem value_concat (base : Nat) (items : List Nat) (item : Nat) :
    value base (items ++ [item]) = value base items * base + item := by
  simp [value]

theorem value_lt {base : Nat} (items : List Nat) (small : ∀ item ∈ items, item < base) :
    value base items < base ^ items.length := by
  induction items using List.reverseRecOn with
  | nil => simp
  | append_singleton items item ih =>
      have earlier := ih fun other member => small other (by simp [member])
      have last := small item (by simp)
      have room := Nat.mul_le_mul_right base (Nat.succ_le_of_lt earlier)
      rw [value_concat, List.length_append, List.length_singleton, pow_succ]
      rw [Nat.succ_eq_add_one, Nat.add_mul] at room
      omega

/-- Reading digits gives the number back, as far as there were digits for it. -/
theorem value_digits (base width n : Nat) : value base (digits base width n) = n % base ^ width := by
  induction width generalizing n with
  | zero => simp [digits, Nat.mod_one]
  | succ width ih =>
      rw [digits, value_concat, ih, pow_succ, mul_comm (base ^ width) base, Nat.mod_mul]
      ring

theorem digits_value {base : Nat} (items : List Nat) (small : ∀ item ∈ items, item < base) :
    digits base items.length (value base items) = items := by
  induction items using List.reverseRecOn with
  | nil => rfl
  | append_singleton items item ih =>
      have last := small item (by simp)
      have earlier := ih fun other member => small other (by simp [member])
      have quotient : (value base items * base + item) / base = value base items := by
        rw [mul_comm, Nat.mul_add_div (by omega), Nat.div_eq_of_lt last, Nat.add_zero]
      have remainder : (value base items * base + item) % base = item := by
        rw [mul_comm, Nat.mul_add_mod, Nat.mod_eq_of_lt last]
      rw [List.length_append, List.length_singleton, value_concat, digits, quotient, remainder,
        earlier]

/-! Lists compared item by item -/

section Comparison

variable {α : Type*} (rank : α → Nat)

/-- The difference of the first items that differ, of the lengths where none does. -/
def difference : List α → List α → Int
  | [], right => -right.length
  | left, [] => left.length
  | first :: left, second :: right =>
      if rank first = rank second then difference left right
      else rank first - rank second

theorem difference_self (items : List α) : difference rank items items = 0 := by
  induction items with
  | nil => rfl
  | cons first rest ih => simp [difference, ih]

theorem difference_append {left right : List α} (lengths : left.length = right.length)
    (leftRest rightRest : List α) :
    difference rank (left ++ leftRest) (right ++ rightRest) =
      if difference rank left right = 0 then difference rank leftRest rightRest
      else difference rank left right := by
  induction left generalizing right with
  | nil =>
      have empty : right = [] := List.length_eq_zero_iff.mp lengths.symm
      simp [empty, difference]
  | cons first left ih =>
      cases right with
      | nil => simp at lengths
      | cons second right =>
          simp only [List.cons_append, difference]
          by_cases same : rank first = rank second
          · simp only [same, if_true]
            exact ih (by simpa using lengths)
          · have nonzero : (rank first : Int) - rank second ≠ 0 := by omega
            simp only [same, if_false, nonzero]

private theorem lexicographic {base low low' high high' : Nat} (small : low < base)
    (small' : low' < base) (differ : high ≠ high') :
    (low + base * high < low' + base * high' ↔ high < high') ∧
      low + base * high ≠ low' + base * high' := by
  by_cases less : high < high'
  · have room := Nat.mul_le_mul_left base (Nat.succ_le_of_lt less)
    rw [Nat.succ_eq_add_one, Nat.mul_add] at room
    exact ⟨iff_of_true (by omega) less, by omega⟩
  · have more : high' < high := by omega
    have room := Nat.mul_le_mul_left base (Nat.succ_le_of_lt more)
    rw [Nat.succ_eq_add_one, Nat.mul_add] at room
    exact ⟨iff_of_false (by omega) less, by omega⟩

/-- What stands above a place decides, then what stands below it. -/
theorem mod_lt_mod_iff (place : Nat) (positive : 0 < place) (base m n : Nat) :
    (m / place % base < n / place % base ∨
        m / place % base = n / place % base ∧ m % place < n % place) ↔
      m % (base * place) < n % (base * place) := by
  have split : ∀ k, k % (base * place) = k % place + place * (k / place % base) := by
    intro k
    rw [mul_comm, Nat.mod_mul]
  rw [split m, split n]
  by_cases equal : m / place % base = n / place % base
  · rw [equal]
    omega
  · have order := lexicographic (Nat.mod_lt m positive) (Nat.mod_lt n positive) equal
    exact ⟨fun either => order.1.mpr (either.resolve_right fun both => equal both.1),
      fun less => Or.inl (order.1.mp less)⟩

/-- Of two lists of digits, that of the smaller number comes first. -/
theorem difference_digits {base : Nat} (positive : 0 < base) (symbol : Nat → α)
    (ordered : ∀ m < base, ∀ n < base, rank (symbol m) < rank (symbol n) ↔ m < n)
    (width m n : Nat) :
    let result := difference rank ((digits base width m).map symbol)
      ((digits base width n).map symbol)
    (result < 0 ↔ m % base ^ width < n % base ^ width) ∧
      (result = 0 ↔ m % base ^ width = n % base ^ width) := by
  induction width generalizing m n with
  | zero => simp [digits, difference, Nat.mod_one]
  | succ width ih =>
      have earlier := ih (m / base) (n / base)
      have below := ordered (m % base) (Nat.mod_lt m positive) (n % base) (Nat.mod_lt n positive)
      have above := ordered (n % base) (Nat.mod_lt n positive) (m % base) (Nat.mod_lt m positive)
      have split : ∀ k, k % base ^ (width + 1) = k % base + base * (k / base % base ^ width) := by
        intro k
        rw [pow_succ, mul_comm (base ^ width) base, Nat.mod_mul]
      have small : ∀ k, k % base < base := fun k => Nat.mod_lt k positive
      simp only [digits, List.map_append, List.map_cons, List.map_nil]
      rw [difference_append rank (by simp), split m, split n]
      by_cases equal : m / base % base ^ width = n / base % base ^ width
      · rw [if_pos (earlier.2.mpr equal), equal]
        simp only [difference]
        by_cases same : rank (symbol (m % base)) = rank (symbol (n % base))
        · have last : m % base = n % base := by omega
          simp [last]
        · simp only [same, if_false]
          omega
      · have nonzero := mt earlier.2.mp equal
        have order := lexicographic (small m) (small n) equal
        rw [if_neg nonzero]
        exact ⟨earlier.1.trans order.1.symm, iff_of_false nonzero order.2⟩

end Comparison

end Radix
