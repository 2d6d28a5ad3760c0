import CipherChat.Text.Number
import Mathlib.Algebra.Order.Floor.Semiring
import Mathlib.Tactic.FieldSimp
import Mathlib.Tactic.Linarith
import Mathlib.Tactic.Ring

/-!
Printed numbers read back: the text of a double says which double it is.
-/

namespace Number

/-- A number that is a double already. -/
def IsDouble (x : JsNumber) : Prop :=
  toDouble |x| = |x|

def exponentOf : List Char → ℤ
  | 'e' :: '-' :: digits => -Nat.ofDigitChars 10 digits 0
  | 'e' :: _ :: digits => Nat.ofDigitChars 10 digits 0
  | _ => 0

/-- What a decimal text says: its digits, moved by the fraction and the exponent. -/
def read (cs : List Char) : ℚ :=
  let mantissa := cs.takeWhile (· ≠ 'e')
  let whole := mantissa.takeWhile (· ≠ '.')
  let fraction := (mantissa.dropWhile (· ≠ '.')).drop 1
  Nat.ofDigitChars 10 (whole ++ fraction) 0 *
    10 ^ (exponentOf (cs.dropWhile (· ≠ 'e')) - fraction.length)

section Reading

/-- A fraction behind its point, when there is one. -/
def pointed : List Char → List Char
  | [] => []
  | c :: cs => '.' :: c :: cs

theorem ne_mark_of_isDigit {c : Char} (isDigit : c.isDigit) : c ≠ '.' ∧ c ≠ 'e' := by
  constructor <;> rintro rfl <;> revert isDigit <;> decide

theorem read_parts (whole fraction tail : List Char) (isWhole : ∀ c ∈ whole, c.isDigit)
    (isFraction : ∀ c ∈ fraction, c.isDigit) (isTail : tail = [] ∨ ∃ rest, tail = 'e' :: rest) :
    read (whole ++ pointed fraction ++ tail) =
      Nat.ofDigitChars 10 (whole ++ fraction) 0 * 10 ^ (exponentOf tail - fraction.length) := by
  have plain : ∀ c ∈ whole ++ pointed fraction, decide (c ≠ 'e') = true := by
    intro c member
    rcases List.mem_append.mp member with inWhole | inFraction
    · simpa using (ne_mark_of_isDigit (isWhole c inWhole)).2
    · cases fraction with
      | nil => simp [pointed] at inFraction
      | cons first rest =>
          rcases List.mem_cons.mp inFraction with rfl | later
          · decide
          · simpa using (ne_mark_of_isDigit (isFraction c later)).2
  have stops : tail.takeWhile (· ≠ 'e') = [] ∧ tail.dropWhile (· ≠ 'e') = tail := by
    rcases isTail with rfl | ⟨rest, rfl⟩ <;> simp
  have unpointed : ∀ c ∈ whole, decide (c ≠ '.') = true := by
    intro c member
    simpa using (ne_mark_of_isDigit (isWhole c member)).1
  have split : (pointed fraction).takeWhile (· ≠ '.') = [] ∧
      ((pointed fraction).dropWhile (· ≠ '.')).drop 1 = fraction := by
    cases fraction <;> simp [pointed]
  simp only [read, List.takeWhile_append_of_pos plain, List.dropWhile_append_of_pos plain, stops,
    List.append_nil, List.takeWhile_append_of_pos unpointed,
    List.dropWhile_append_of_pos unpointed, split]

theorem isDigit_toDigits {n : ℕ} {c : Char} (member : c ∈ Nat.toDigits 10 n) : c.isDigit :=
  Nat.isDigit_of_mem_toDigits (by decide) (by decide) member

theorem isDigit_zeros {n : ℕ} {c : Char} (member : c ∈ List.replicate n '0') : c.isDigit := by
  rw [List.eq_of_mem_replicate member]
  decide

theorem exponentOf_scientific (exponent : ℤ) :
    exponentOf ('e' :: (if exponent < 0 then '-' else '+') :: Nat.toDigits 10 exponent.natAbs) =
      exponent := by
  by_cases negative : exponent < 0
  · simp only [negative, if_true, exponentOf, Nat.ofDigitChars_ten_toDigits]
    omega
  · simp only [negative, if_false]
    change ((Nat.ofDigitChars 10 (Nat.toDigits 10 exponent.natAbs) 0 : ℕ) : ℤ) = exponent
    rw [Nat.ofDigitChars_ten_toDigits]
    omega

variable {digits : List Char} (some : digits ≠ []) (isDigit : ∀ c ∈ digits, c.isDigit) (point : ℤ)
include isDigit

/-- An integer, filled up with zeros. -/
theorem read_whole (fits : digits.length ≤ point) :
    read (digits ++ List.replicate (point.toNat - digits.length) '0') =
      Nat.ofDigitChars 10 digits 0 * 10 ^ (point - digits.length) := by
  have parts := read_parts (digits ++ List.replicate (point.toNat - digits.length) '0') [] []
    (fun c member => by
      rcases List.mem_append.mp member with own | filled
      · exact isDigit c own
      · exact isDigit_zeros filled) (by simp) (.inl rfl)
  have distance : point - digits.length = (point.toNat - digits.length : ℕ) := by omega
  rw [distance, zpow_natCast]
  simpa [pointed, exponentOf, Nat.ofDigitChars_append, Nat.ofDigitChars_replicate_zero,
    mul_comm] using parts

theorem read_split (inside : point < digits.length) (positive : 0 < point) :
    read (digits.take point.toNat ++ '.' :: digits.drop point.toNat) =
      Nat.ofDigitChars 10 digits 0 * 10 ^ (point - digits.length) := by
  have parts := read_parts (digits.take point.toNat) (digits.drop point.toNat)
    [] (fun c member => isDigit c (List.mem_of_mem_take member))
    (fun c member => isDigit c (List.mem_of_mem_drop member)) (.inl rfl)
  have shape : pointed (digits.drop point.toNat) = '.' :: digits.drop point.toNat := by
    cases rest : digits.drop point.toNat with
    | nil =>
        have short := List.drop_eq_nil_iff.mp rest
        omega
    | cons c cs => rfl
  have distance : exponentOf [] - ((digits.drop point.toNat).length : ℤ) = point - digits.length := by
    simp only [exponentOf, List.length_drop]
    omega
  rw [shape, List.append_nil, List.take_append_drop, distance] at parts
  exact parts

include some

theorem read_small (small : point ≤ 0) :
    read ('0' :: '.' :: List.replicate (-point).toNat '0' ++ digits) =
      Nat.ofDigitChars 10 digits 0 * 10 ^ (point - digits.length) := by
  have parts := read_parts ['0'] (List.replicate (-point).toNat '0' ++ digits)
    [] (by simp) (fun c member => by
      rcases List.mem_append.mp member with filled | own
      · exact isDigit_zeros filled
      · exact isDigit c own) (.inl rfl)
  have shape : pointed (List.replicate (-point).toNat '0' ++ digits) =
      '.' :: (List.replicate (-point).toNat '0' ++ digits) := by
    cases rest : List.replicate (-point).toNat '0' ++ digits with
    | nil => exact absurd (List.append_eq_nil_iff.mp rest).2 some
    | cons c cs => rfl
  have distance : exponentOf [] -
      ((List.replicate (-point).toNat '0' ++ digits).length : ℤ) = point - digits.length := by
    simp only [exponentOf, List.length_append, List.length_replicate]
    omega
  have value : Nat.ofDigitChars 10 (['0'] ++ (List.replicate (-point).toNat '0' ++ digits)) 0 =
      Nat.ofDigitChars 10 digits 0 := by
    simp [Nat.ofDigitChars_cons, Nat.ofDigitChars_append, Nat.ofDigitChars_replicate_zero]
  rw [shape, List.append_nil, distance, value] at parts
  exact parts

theorem read_scientific :
    read (digits.take 1 ++ (if digits.length = 1 then [] else '.' :: digits.drop 1) ++
        'e' :: (if point < 1 then '-' else '+') :: Nat.toDigits 10 (point - 1).natAbs) =
      Nat.ofDigitChars 10 digits 0 * 10 ^ (point - digits.length) := by
  have parts := read_parts (digits.take 1) (digits.drop 1)
    ('e' :: (if point - 1 < 0 then '-' else '+') :: Nat.toDigits 10 (point - 1).natAbs)
    (fun c member => isDigit c (List.mem_of_mem_take member))
    (fun c member => isDigit c (List.mem_of_mem_drop member)) (.inr ⟨_, rfl⟩)
  have one : 1 ≤ digits.length := List.length_pos_iff.mpr some
  have shape : pointed (digits.drop 1) = if digits.length = 1 then [] else '.' :: digits.drop 1 := by
    cases rest : digits.drop 1 with
    | nil =>
        have short := List.drop_eq_nil_iff.mp rest
        rw [if_pos (by omega)]
        rfl
    | cons c cs =>
        have long : digits.length ≠ 1 := by
          intro single
          have none : digits.drop 1 = [] := List.drop_eq_nil_iff.mpr single.le
          rw [none] at rest
          cases rest
        rw [if_neg long]
        rfl
  have distance : point - 1 - ((digits.drop 1).length : ℤ) = point - digits.length := by
    simp only [List.length_drop]
    omega
  have sign : point - 1 < 0 ↔ point < 1 := by omega
  rw [shape, List.take_append_drop, exponentOf_scientific, distance] at parts
  simpa only [sign] using parts

theorem read_layout : read (layout digits point) =
    Nat.ofDigitChars 10 digits 0 * 10 ^ (point - digits.length) := by
  unfold layout
  by_cases whole : digits.length ≤ point ∧ point ≤ 21
  · rw [if_pos whole]
    exact read_whole isDigit point whole.1
  by_cases split : 0 < point ∧ point ≤ 21
  · rw [if_neg whole, if_pos split]
    exact read_split isDigit point (by omega) split.1
  by_cases small : -6 < point ∧ point ≤ 0
  · rw [if_neg whole, if_neg split, if_pos small]
    exact read_small some isDigit point small.2
  · rw [if_neg whole, if_neg split, if_neg small]
    exact read_scientific some isDigit point

end Reading

section Shortest

variable {x : ℚ} {k s : ℕ}

/-- The decimals of `k` digits that are tried lie around `x`, and read back as it. -/
theorem decimal_some (positive : 0 < x) (some : 1 ≤ k) (found : decimal x k = Option.some s) :
    10 ^ (k - 1) ≤ s ∧ s ≤ 10 ^ k ∧ toDouble (s * 10 ^ (Int.log 10 x + 1 - k)) = x := by
  have unitPos : (0 : ℚ) < 10 ^ (Int.log 10 x + 1 - k) := zpow_pos (by norm_num) _
  have scaled : 0 ≤ x / 10 ^ (Int.log 10 x + 1 - k) := (div_pos positive unitPos).le
  have least : 10 ^ (k - 1) ≤ ⌊x / 10 ^ (Int.log 10 x + 1 - k)⌋₊ := by
    rw [Nat.le_floor_iff scaled, le_div_iff₀ unitPos]
    have bound : ((10 : ℕ) : ℚ) ^ Int.log 10 x ≤ x := Int.zpow_log_le_self (by norm_num) positive
    refine le_trans (le_of_eq ?_) bound
    push_cast
    rw [← zpow_natCast, ← zpow_add₀ (by norm_num)]
    congr 1
    omega
  have most : ⌊x / 10 ^ (Int.log 10 x + 1 - k)⌋₊ < 10 ^ k := by
    rw [Nat.floor_lt scaled, div_lt_iff₀ unitPos]
    have bound : x < ((10 : ℕ) : ℚ) ^ (Int.log 10 x + 1) := Int.lt_zpow_succ_log_self (by norm_num) x
    refine lt_of_lt_of_eq bound ?_
    push_cast
    rw [← zpow_natCast, ← zpow_add₀ (by norm_num)]
    congr 1
    omega
  simp only [decimal] at found
  have reads {c : ℕ} (near : c = ⌊x / 10 ^ (Int.log 10 x + 1 - k)⌋₊ ∨
      c = ⌊x / 10 ^ (Int.log 10 x + 1 - k)⌋₊ + 1)
      (back : toDouble (c * 10 ^ (Int.log 10 x + 1 - k)) = x) :
      10 ^ (k - 1) ≤ c ∧ c ≤ 10 ^ k ∧ toDouble (c * 10 ^ (Int.log 10 x + 1 - k)) = x := by
    refine ⟨?_, ?_, back⟩ <;> rcases near with rfl | rfl <;> omega
  split_ifs at found <;> cases found <;> exact reads (by simp) (by assumption)

theorem decimal_exact {m : ℕ} (exact' : x = m * 10 ^ (Int.log 10 x + 1 - k)) (isDouble : toDouble x = x) :
    (decimal x k).isSome := by
  have unitPos : (0 : ℚ) < 10 ^ (Int.log 10 x + 1 - k) := zpow_pos (by norm_num) _
  have low : ⌊x / 10 ^ (Int.log 10 x + 1 - k)⌋₊ = m := by
    rw [(div_eq_iff unitPos.ne').mpr exact', Nat.floor_natCast]
  simp only [decimal, low]
  rw [if_pos (show x - m * 10 ^ (Int.log 10 x + 1 - k) ≤
    ((m + 1 : ℕ) : ℚ) * 10 ^ (Int.log 10 x + 1 - k) - x by push_cast; linarith)]
  rw [if_pos (show toDouble (m * 10 ^ (Int.log 10 x + 1 - k)) = x by rw [← exact', isDouble])]
  rfl

theorem two_zpow_neg (n : ℕ) : ∃ m : ℕ, (2 : ℚ) ^ (-n : ℤ) = m * 10 ^ (-n : ℤ) := by
  refine ⟨5 ^ n, ?_⟩
  rw [show (10 : ℚ) = 2 * 5 by norm_num, mul_zpow, zpow_neg 5, zpow_natCast]
  push_cast
  field_simp

/-- A positive double is an integer number of times 10⁻¹⁰⁷⁴. -/
theorem double_scaled (positive : 0 < x) (isDouble : toDouble x = x) :
    ∃ m : ℕ, 0 < m ∧ x = m * 10 ^ (-1074 : ℤ) := by
  obtain ⟨r, e, bounded, isScaled⟩ : ∃ (r : ℤ) (e : ℤ), -1074 ≤ e ∧ x = r * 2 ^ e :=
    ⟨_, _, le_max_right _ _, isDouble.symm⟩
  obtain ⟨j, isPower⟩ : ∃ j : ℕ, e = j + -1074 := ⟨(e + 1074).toNat, by omega⟩
  obtain ⟨five, both⟩ : ∃ five : ℕ, (2 : ℚ) ^ (-1074 : ℤ) = five * 10 ^ (-1074 : ℤ) :=
    two_zpow_neg 1074
  have unitPos : (0 : ℚ) < 10 ^ (-1074 : ℤ) := zpow_pos (by norm_num) _
  have whole : x = ((r * 2 ^ j * five : ℤ) : ℚ) * 10 ^ (-1074 : ℤ) := by
    rw [isScaled, isPower, zpow_add₀ (by norm_num), zpow_natCast, both]
    generalize (10 : ℚ) ^ (-1074 : ℤ) = unit
    push_cast
    ring
  have some : 0 < r * 2 ^ j * five := by
    rw [whole] at positive
    exact_mod_cast pos_of_mul_pos_left positive unitPos.le
  obtain ⟨m, isNat⟩ := Int.eq_ofNat_of_zero_le some.le
  refine ⟨m, by omega, ?_⟩
  rw [whole, isNat, Int.cast_natCast]

theorem shortest_found (positive : 0 < x) (isDouble : toDouble x = x) :
    ∃ k s, 1 ≤ k ∧ decimal x k = some s ∧ shortest x =
      if s = 10 ^ k then (1, Int.log 10 x + 2) else (s, Int.log 10 x + 1) := by
  obtain ⟨m, some, isScaled⟩ := double_scaled positive isDouble
  have low : -1074 ≤ Int.log 10 x := by
    rw [← Int.zpow_le_iff_le_log (by norm_num) positive, Nat.cast_ofNat, isScaled]
    have one : (1 : ℚ) ≤ m := by exact_mod_cast some
    exact le_mul_of_one_le_left (zpow_pos (by norm_num) _).le one
  have last : (decimal x (Int.log 10 x + 1075).toNat).isSome := by
    refine decimal_exact (m := m) ?_ isDouble
    have distance : Int.log 10 x + 1 - ((Int.log 10 x + 1075).toNat : ℤ) = -1074 := by omega
    rw [distance]
    exact isScaled
  have isSome : ((List.range' 1 (Int.log 10 x + 1075).toNat).findSome? fun k =>
      (decimal x k).map fun s =>
        if s = 10 ^ k then (1, Int.log 10 x + 2) else (s, Int.log 10 x + 1)).isSome := by
    rw [List.isSome_findSome?, List.any_eq_true]
    refine ⟨(Int.log 10 x + 1075).toNat, List.mem_range'_1.mpr ⟨by omega, by omega⟩, ?_⟩
    simpa using last
  obtain ⟨result, found⟩ := Option.isSome_iff_exists.mp isSome
  obtain ⟨k, member, mapped⟩ := List.exists_of_findSome?_eq_some found
  obtain ⟨s, isDecimal, rfl⟩ := Option.map_eq_some_iff.mp mapped
  refine ⟨k, s, (List.mem_range'_1.mp member).1, isDecimal, ?_⟩
  rw [shortest, found, Option.getD_some]

/-- What is printed has as many digits as it says, and reads back as the number. -/
theorem shortest_reads (positive : 0 < x) (isDouble : toDouble x = x) :
    ∃ k : ℕ, 1 ≤ k ∧ 10 ^ (k - 1) ≤ (shortest x).1 ∧ (shortest x).1 < 10 ^ k ∧
      toDouble ((shortest x).1 * 10 ^ ((shortest x).2 - k)) = x := by
  obtain ⟨k, s, some, isDecimal, isShortest⟩ := shortest_found positive isDouble
  obtain ⟨least, most, reads⟩ := decimal_some positive some isDecimal
  by_cases carried : s = 10 ^ k
  · refine ⟨1, le_rfl, ?_, ?_, ?_⟩ <;> rw [isShortest, if_pos carried]
    · simp
    · norm_num
    · rw [carried] at reads
      push_cast at reads ⊢
      rw [← zpow_natCast, ← zpow_add₀ (by norm_num)] at reads
      rw [one_mul]
      convert reads using 3
      omega
  · rw [if_neg carried] at isShortest
    refine ⟨k, some, ?_, ?_, ?_⟩ <;> rw [isShortest]
    · exact least
    · exact lt_of_le_of_ne most carried
    · exact reads

end Shortest

theorem length_toDigits {s k : ℕ} (some : 1 ≤ k) (least : 10 ^ (k - 1) ≤ s) (most : s < 10 ^ k) :
    (Nat.toDigits 10 s).length = k := by
  have upper := (Nat.length_toDigits_le_iff (by decide) some).mpr most
  have lower : ¬(Nat.toDigits 10 s).length ≤ k - 1 := by
    by_cases single : k = 1
    · have one := Nat.length_toDigits_pos (b := 10) (n := s)
      omega
    · rw [Nat.length_toDigits_le_iff (by decide) (by omega)]
      omega
  omega

theorem layout_head {c : Char} {cs : List Char} (isDigit : c.isDigit) (point : ℤ) :
    ∃ d rest, layout (c :: cs) point = d :: rest ∧ d.isDigit := by
  unfold layout
  by_cases whole : (c :: cs).length ≤ point ∧ point ≤ 21
  · rw [if_pos whole]
    exact ⟨c, _, rfl, isDigit⟩
  by_cases split : 0 < point ∧ point ≤ 21
  · rw [if_neg whole, if_pos split]
    obtain ⟨n, isPoint⟩ : ∃ n, point.toNat = n + 1 := ⟨point.toNat - 1, by omega⟩
    rw [isPoint]
    exact ⟨c, _, rfl, isDigit⟩
  by_cases small : -6 < point ∧ point ≤ 0
  · rw [if_neg whole, if_neg split, if_pos small]
    exact ⟨'0', _, rfl, by decide⟩
  · rw [if_neg whole, if_neg split, if_neg small]
    exact ⟨c, _, rfl, isDigit⟩

theorem toDigits_head (n : ℕ) : ∃ c cs, Nat.toDigits 10 n = c :: cs ∧ c.isDigit := by
  cases isText : Nat.toDigits 10 n with
  | nil => exact absurd isText Nat.toDigits_ne_nil
  | cons c cs => exact ⟨c, cs, rfl, isDigit_toDigits (isText ▸ List.mem_cons_self)⟩

theorem positive_head (x : ℚ) : ∃ c rest, positive x = c :: rest ∧ c.isDigit := by
  unfold positive
  split_ifs
  · exact toDigits_head _
  · obtain ⟨c, cs, isText, isDigit⟩ := toDigits_head (shortest (toDouble x)).1
    rw [isText]
    exact layout_head isDigit _

theorem read_positive {x : ℚ} (nonneg : 0 ≤ x) (isDouble : toDouble x = x) :
    toDouble (read (positive x)) = x := by
  unfold positive
  by_cases whole : x.den = 1 ∧ x.num ≤ 2 ^ 53
  · rw [if_pos whole]
    have parts := read_parts (Nat.toDigits 10 x.num.natAbs) [] []
      (fun _ => isDigit_toDigits) (by simp) (.inl rfl)
    have isInteger : ((x.num.natAbs : ℕ) : ℚ) = x := by
      rw [Nat.cast_natAbs, abs_of_nonneg (Rat.num_nonneg.mpr nonneg)]
      exact Rat.coe_int_num_of_den_eq_one whole.1
    have isRead : read (Nat.toDigits 10 x.num.natAbs) = x := by
      simpa [pointed, exponentOf, isInteger] using parts
    rw [isRead, isDouble]
  · rw [if_neg whole, isDouble]
    have positive : 0 < x := by
      refine lt_of_le_of_ne nonneg fun zero => whole ?_
      rw [← zero]
      decide
    obtain ⟨k, some, least, most, reads⟩ := shortest_reads positive isDouble
    rw [read_layout Nat.toDigits_ne_nil (fun _ => isDigit_toDigits), Nat.ofDigitChars_ten_toDigits,
      length_toDigits some least most]
    exact reads

/-- Two doubles of one text are the same. -/
theorem text_injective {x y : JsNumber} (isX : IsDouble x) (isY : IsDouble y)
    (same : text x = text y) : x = y := by
  have chars_eq : chars x = chars y := String.ofList_injective same
  have unsigned {a b : ℚ} (notNegative : ¬a < 0) (negative : b < 0) : chars a ≠ chars b := by
    obtain ⟨c, rest, isText, isDigit⟩ := positive_head a
    simp only [chars, if_neg notNegative, if_pos negative, isText]
    intro equal
    rw [(List.cons.inj equal).1] at isDigit
    exact absurd isDigit (by decide)
  unfold IsDouble at isX isY
  by_cases negativeX : x < 0 <;> by_cases negativeY : y < 0
  · simp only [chars, if_pos negativeX, if_pos negativeY, List.cons.injEq, true_and] at chars_eq
    rw [abs_of_neg negativeX] at isX
    rw [abs_of_neg negativeY] at isY
    have readX := read_positive (by linarith) isX
    rw [chars_eq, read_positive (by linarith) isY] at readX
    linarith
  · exact absurd chars_eq.symm (unsigned negativeY negativeX)
  · exact absurd chars_eq (unsigned negativeX negativeY)
  · simp only [chars, if_neg negativeX, if_neg negativeY] at chars_eq
    rw [abs_of_nonneg (not_lt.mp negativeX)] at isX
    rw [abs_of_nonneg (not_lt.mp negativeY)] at isY
    have readX := read_positive (not_lt.mp negativeX) isX
    rw [chars_eq, read_positive (not_lt.mp negativeY) isY] at readX
    exact readX.symm

end Number
