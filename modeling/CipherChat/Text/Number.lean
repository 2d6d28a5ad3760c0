import Mathlib.Data.Int.Log
import Mathlib.Data.Rat.Floor
import Mathlib.Tactic.Common

/-!
Finite JavaScript numbers and their decimal form in a template string.
-/

namespace Number

/-- A finite number; what JSON can carry. -/
abbrev JsNumber := ℚ

def roundHalfEven (x : ℚ) : ℤ :=
  let below := ⌊x⌋
  let part := x - below
  if part < 1 / 2 then below
  else if 1 / 2 < part then below + 1
  else if below % 2 = 0 then below else below + 1

/-- The double nearest to a positive rational. -/
def toDouble (x : ℚ) : ℚ :=
  let ulp : ℚ := 2 ^ max (Int.log 2 x - 52) (-1074)
  roundHalfEven (x / ulp) * ulp

/-- Of the two decimals of `k` digits around `x`, the nearer one that reads back as `x`. -/
def decimal (x : ℚ) (k : ℕ) : Option ℕ :=
  let unit : ℚ := 10 ^ (Int.log 10 x + 1 - k)
  let low := ⌊x / unit⌋₊
  let high := low + 1
  let first := if x - low * unit ≤ high * unit - x then low else high
  let second := if first = low then high else low
  if toDouble (first * unit) = x then some first
  else if toDouble (second * unit) = x then some second else none

/-- The fewest digits that read back as `x`, and how many of them stand before the decimal
point.  A double is a multiple of 2⁻¹⁰⁷⁴, so its exact digits are among those tried. -/
def shortest (x : ℚ) : ℕ × ℤ :=
  ((List.range' 1 (Int.log 10 x + 1075).toNat).findSome? fun k =>
    (decimal x k).map fun s =>
      if s = 10 ^ k then (1, Int.log 10 x + 2) else (s, Int.log 10 x + 1)).getD (0, 0)

/-- A positive number in the layout of `Number::toString`: `point` digits stand before
the decimal point. -/
def layout (digits : List Char) (point : ℤ) : List Char :=
  if digits.length ≤ point ∧ point ≤ 21 then
    digits ++ List.replicate (point.toNat - digits.length) '0'
  else if 0 < point ∧ point ≤ 21 then
    digits.take point.toNat ++ '.' :: digits.drop point.toNat
  else if -6 < point ∧ point ≤ 0 then
    '0' :: '.' :: List.replicate (-point).toNat '0' ++ digits
  else
    let fraction := if digits.length = 1 then [] else '.' :: digits.drop 1
    let sign := if point < 1 then '-' else '+'
    digits.take 1 ++ fraction ++ 'e' :: sign :: Nat.toDigits 10 (point - 1).natAbs

def positive (x : ℚ) : List Char :=
  if x.den = 1 ∧ x.num ≤ 2 ^ 53 then Nat.toDigits 10 x.num.natAbs
  else layout (Nat.toDigits 10 (shortest (toDouble x)).1) (shortest (toDouble x)).2

def chars (x : JsNumber) : List Char :=
  if x < 0 then '-' :: positive (-x) else positive x

/-- `${x}` -/
def text (x : JsNumber) : String :=
  String.ofList (chars x)

/-- The characters of a printed number. -/
def Numeric (c : Char) : Prop :=
  c.isDigit ∨ c ∈ ['.', 'e', '-', '+']

theorem toDigits_numeric {n : ℕ} {c : Char} (member : c ∈ Nat.toDigits 10 n) : Numeric c :=
  .inl (Nat.isDigit_of_mem_toDigits (by decide) (by decide) member)

theorem layout_numeric {digits : List Char} (numeric : ∀ c ∈ digits, Numeric c) {point : ℤ}
    {c : Char} (member : c ∈ layout digits point) : Numeric c := by
  have mark : ∀ d ∈ ['.', 'e', '-', '+'], Numeric d := fun d listed => .inr listed
  have zero : Numeric '0' := .inl (by decide)
  unfold layout at member
  split at member
  · rcases List.mem_append.mp member with first | second
    · exact numeric c first
    · exact List.eq_of_mem_replicate second ▸ zero
  split at member
  · rcases List.mem_append.mp member with first | second
    · exact numeric c (List.mem_of_mem_take first)
    · rcases List.mem_cons.mp second with rfl | rest
      · exact mark _ (by simp)
      · exact numeric c (List.mem_of_mem_drop rest)
  split at member
  · rcases List.mem_append.mp member with first | second
    · simp only [List.mem_cons, List.mem_replicate] at first
      rcases first with rfl | rfl | ⟨_, rfl⟩
      · exact zero
      · exact mark _ (by simp)
      · exact zero
    · exact numeric c second
  · simp only [List.mem_append, List.mem_cons] at member
    rcases member with (first | second) | rfl | rfl | exponent
    · exact numeric c (List.mem_of_mem_take first)
    · split at second
      · simp at second
      · rcases List.mem_cons.mp second with rfl | rest
        · exact mark _ (by simp)
        · exact numeric c (List.mem_of_mem_drop rest)
    · exact mark _ (by simp)
    · split <;> exact mark _ (by simp)
    · exact toDigits_numeric exponent

theorem positive_numeric {x : ℚ} {c : Char} (member : c ∈ positive x) : Numeric c := by
  unfold positive at member
  split_ifs at member with whole
  · exact toDigits_numeric member
  · exact layout_numeric (fun _ => toDigits_numeric) member

theorem text_numeric {x : JsNumber} {c : Char} (member : c ∈ (text x).toList) : Numeric c := by
  simp only [text, String.toList_ofList, chars] at member
  split_ifs at member with negative
  · rcases List.mem_cons.mp member with rfl | rest
    · exact .inr (by simp)
    · exact positive_numeric rest
  · exact positive_numeric member

example : text (3 / 2) = "1.5" ∧ text (-41) = "-41" := by decide +kernel

end Number
