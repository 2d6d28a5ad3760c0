import CipherChat.Client.Batch
import CipherChat.Text.Decimal

/-!
`JSON.stringify` and `JSON.parse`. What the first prints the second reads back, if its numbers are
finite.
-/

namespace Client

open Rooms (JavaString)
open Number (JsNumber)

/-- A value that can be sent; the fields of an object are in the order of its text. -/
inductive Value
  | null
  | bool (value : Bool)
  | number (x : JsNumber)
  | infinite (negative : Bool)
  | string (text : JavaString)
  | array (values : List Value)
  | object (members : List (JavaString × Value))

namespace Value

def nullText : JavaString := [0x6E, 0x75, 0x6C, 0x6C]

def trueText : JavaString := [0x74, 0x72, 0x75, 0x65]

def falseText : JavaString := [0x66, 0x61, 0x6C, 0x73, 0x65]

def units (cs : List Char) : JavaString :=
  cs.map fun c => UInt16.ofNat c.toNat

mutual

def stringify : Value → JavaString
  | .null | .infinite _ => nullText
  | .bool true => trueText
  | .bool false => falseText
  | .number x => units (Number.chars x)
  | .string text => quoted text
  | .array values => 0x5B :: (elementTexts values ++ [0x5D])
  | .object members => 0x7B :: (memberTexts members ++ [0x7D])

def elementTexts : List Value → JavaString
  | [] => []
  | [value] => value.stringify
  | value :: next :: rest => value.stringify ++ 0x2C :: elementTexts (next :: rest)

def memberTexts : List (JavaString × Value) → JavaString
  | [] => []
  | [(key, value)] => quoted key ++ 0x3A :: value.stringify
  | (key, value) :: next :: rest =>
      quoted key ++ 0x3A :: (value.stringify ++ 0x2C :: memberTexts (next :: rest))

end

/-! `JSON.parse` -/

def isSpace (unit : UInt16) : Bool :=
  unit = 0x20 || unit = 0x09 || unit = 0x0A || unit = 0x0D

def skip (text : JavaString) : JavaString :=
  text.dropWhile isSpace

def hexValue (unit : UInt16) : Option Nat :=
  let n := unit.toNat
  if 48 ≤ n ∧ n ≤ 57 then some (n - 48)
  else if 65 ≤ n ∧ n ≤ 70 then some (n - 55)
  else if 97 ≤ n ∧ n ≤ 102 then some (n - 87)
  else none

/-- A backslash and a letter. -/
def simpleEscape (letter : UInt16) : Option UInt16 :=
  if letter = 0x22 ∨ letter = 0x5C ∨ letter = 0x2F then some letter
  else if letter = 0x62 then some 0x08
  else if letter = 0x66 then some 0x0C
  else if letter = 0x6E then some 0x0A
  else if letter = 0x72 then some 0x0D
  else if letter = 0x74 then some 0x09
  else none

/-- One unit of the string in front of what is read later. -/
def prepend (unit : UInt16) : Option (JavaString × JavaString) → Option (JavaString × JavaString)
  | some (text, rest) => some (unit :: text, rest)
  | none => none

/-- The string after its first quotation mark, and what follows it. -/
def parseString : JavaString → Option (JavaString × JavaString)
  | [] => none
  | unit :: rest =>
      if unit = 0x22 then some ([], rest)
      else if unit = 0x5C then
        match rest with
        | [] => none
        | letter :: rest =>
            if letter = 0x75 then
              match rest with
              | a :: b :: c :: d :: rest =>
                  match hexValue a, hexValue b, hexValue c, hexValue d with
                  | some a, some b, some c, some d =>
                      prepend (UInt16.ofNat (((a * 16 + b) * 16 + c) * 16 + d)) (parseString rest)
                  | _, _, _, _ => none
              | _ => none
            else
              match simpleEscape letter with
              | some unit => prepend unit (parseString rest)
              | none => none
      else if unit < 0x20 then none
      else prepend unit (parseString rest)

def isNumeric (unit : UInt16) : Bool :=
  (48 ≤ unit.toNat && unit.toNat ≤ 57) || unit = 0x2E || unit = 0x65 || unit = 0x45 ||
    unit = 0x2B || unit = 0x2D

def digitsOnly (cs : List Char) : Option Nat :=
  if cs ≠ [] ∧ cs.all Char.isDigit then some (Nat.ofDigitChars 10 cs 0) else none

def exponent : List Char → Option Int
  | [] => some 0
  | mark :: '-' :: digits =>
      if mark = 'e' ∨ mark = 'E' then (digitsOnly digits).map fun n => -(n : Int) else none
  | mark :: '+' :: digits =>
      if mark = 'e' ∨ mark = 'E' then (digitsOnly digits).map fun n => (n : Int) else none
  | mark :: digits =>
      if mark = 'e' ∨ mark = 'E' then (digitsOnly digits).map fun n => (n : Int) else none

/-- The digits behind the point, and what follows them. -/
def fraction : List Char → Option (List Char × List Char)
  | '.' :: cs =>
      let digits := cs.takeWhile Char.isDigit
      if digits = [] then none else some (digits, cs.dropWhile Char.isDigit)
  | cs => some ([], cs)

/-- A number without a sign, exactly. -/
def decimalValue (cs : List Char) : Option ℚ :=
  let whole := cs.takeWhile Char.isDigit
  if whole = [] ∨ (whole.head? = some '0' ∧ whole ≠ ['0']) then none
  else
    match fraction (cs.dropWhile Char.isDigit) with
    | none => none
    | some (digits, tail) =>
        (exponent tail).map fun e =>
          (Nat.ofDigitChars 10 (whole ++ digits) 0 : ℚ) * 10 ^ (e - (digits.length : Int))

/-- The number nearest to what is written. -/
def nearest (negative : Bool) (x : ℚ) : Value :=
  let rounded := Number.toDouble x
  if 2 ^ 1024 ≤ rounded then .infinite negative
  else .number (if negative then -rounded else rounded)

def numberValue : List Char → Option Value
  | '-' :: cs => (decimalValue cs).map (nearest true)
  | cs => (decimalValue cs).map (nearest false)

/-- No character that may stand in a number may follow one. -/
def parseNumber (text : JavaString) : Option (Value × JavaString) :=
  (numberValue ((text.takeWhile isNumeric).map fun unit => Char.ofNat unit.toNat)).map fun value =>
    (value, text.dropWhile isNumeric)

/-- What follows a text that is expected. -/
def after? (expected text : JavaString) : Option JavaString :=
  if expected.isPrefixOf text then some (text.drop expected.length) else none

def parseAtom (text : JavaString) : Option (Value × JavaString) :=
  match after? nullText text, after? trueText text, after? falseText text with
  | some rest, _, _ => some (.null, rest)
  | _, some rest, _ => some (.bool true, rest)
  | _, _, some rest => some (.bool false, rest)
  | none, none, none => parseNumber text

mutual

/-- One value, and what follows it. -/
def parseValue : Nat → JavaString → Option (Value × JavaString)
  | 0, _ => none
  | fuel + 1, text =>
      match skip text with
      | [] => none
      | unit :: rest =>
          if unit = 0x22 then (parseString rest).map fun (text, rest) => (.string text, rest)
          else if unit = 0x5B then
            match skip rest with
            | [] => none
            | next :: inner =>
                if next = 0x5D then some (.array [], inner)
                else (parseElements fuel (next :: inner)).map fun (values, rest) =>
                  (.array values, rest)
          else if unit = 0x7B then
            match skip rest with
            | [] => none
            | next :: inner =>
                if next = 0x7D then some (.object [], inner)
                else (parseMembers fuel (next :: inner)).map fun (members, rest) =>
                  (.object members, rest)
          else parseAtom (unit :: rest)

/-- Values up to the closing bracket. -/
def parseElements : Nat → JavaString → Option (List Value × JavaString)
  | 0, _ => none
  | fuel + 1, text =>
      match parseValue fuel text with
      | none => none
      | some (value, rest) =>
          match skip rest with
          | [] => none
          | unit :: rest =>
              if unit = 0x5D then some ([value], rest)
              else if unit = 0x2C then
                (parseElements fuel rest).map fun (values, rest) => (value :: values, rest)
              else none

/-- Fields up to the closing brace. -/
def parseMembers : Nat → JavaString → Option (List (JavaString × Value) × JavaString)
  | 0, _ => none
  | fuel + 1, text =>
      match skip text with
      | [] => none
      | quote :: rest =>
          if quote ≠ 0x22 then none
          else
            match parseString rest with
            | none => none
            | some (key, rest) =>
                match skip rest with
                | [] => none
                | colon :: rest =>
                    if colon ≠ 0x3A then none
                    else
                      match parseValue fuel rest with
                      | none => none
                      | some (value, rest) =>
                          match skip rest with
                          | [] => none
                          | unit :: rest =>
                              if unit = 0x7D then some ([(key, value)], rest)
                              else if unit = 0x2C then
                                (parseMembers fuel rest).map fun (members, rest) =>
                                  ((key, value) :: members, rest)
                              else none

end

/-- No character takes more than two steps. -/
def parse (text : JavaString) : Option Value :=
  match parseValue (2 * text.length + 1) text with
  | some (value, rest) => if skip rest = [] then some value else none
  | none => none

section Strings

theorem hexValue_digitChar (n : Nat) (small : n < 16) :
    hexValue (UInt16.ofNat (Nat.digitChar n).toNat) = some n := by
  revert n
  decide

/-- The digits before the last are those of the quotient. -/
theorem hex_succ (width n : Nat) (some : 0 < width) :
    hex (width + 1) n = hex width (n / 16) ++ [UInt16.ofNat (Nat.digitChar (n % 16)).toNat] := by
  by_cases small : n < 16
  · have zeros : List.replicate width '0' = List.replicate (width - 1) '0' ++ ['0'] := by
      rw [← List.replicate_succ', Nat.sub_add_cancel some]
    simp [hex, Nat.toDigits_of_lt_base small, Nat.div_eq_of_lt small, Nat.mod_eq_of_lt small, zeros]
  · rw [hex, Nat.toDigits_of_base_le (by omega) (by omega)]
    simp [hex]

theorem hex_four (n : Nat) (small : n < 16 ^ 4) :
    hex 4 n = [n / 4096, n / 256 % 16, n / 16 % 16, n % 16].map
      fun digit => UInt16.ofNat (Nat.digitChar digit).toNat := by
  have first : hex 1 (n / 16 / 16 / 16) = [UInt16.ofNat (Nat.digitChar (n / 4096)).toNat] := by
    have same : n / 16 / 16 / 16 = n / 4096 := by omega
    rw [same, hex, Nat.toDigits_of_lt_base (by omega)]
    rfl
  have second : n / 16 / 16 % 16 = n / 256 % 16 := by omega
  rw [hex_succ 3 n (by omega), hex_succ 2 _ (by omega), hex_succ 1 _ (by omega), first, second]
  rfl

theorem parseString_raw {unit : UInt16} (plain : unit ≠ 0x22 ∧ unit ≠ 0x5C ∧ ¬unit < 0x20)
    (rest : JavaString) : parseString (unit :: rest) = prepend unit (parseString rest) := by
  rw [parseString.eq_def]
  simp only [if_neg plain.1, if_neg plain.2.1, if_neg plain.2.2]

theorem parseString_simple (letter : UInt16) {unit : UInt16} (escapes : simpleEscape letter = some unit)
    (other : letter ≠ 0x75) (rest : JavaString) :
    parseString (0x5C :: letter :: rest) = prepend unit (parseString rest) := by
  rw [parseString.eq_def]
  simp only [if_neg (show (0x5C : UInt16) ≠ 0x22 by decide), if_true, if_neg other, escapes]

theorem parseString_hex {a b c d : UInt16} {w x y z : Nat} (isA : hexValue a = some w)
    (isB : hexValue b = some x) (isC : hexValue c = some y) (isD : hexValue d = some z)
    (rest : JavaString) : parseString (0x5C :: 0x75 :: a :: b :: c :: d :: rest) =
      prepend (UInt16.ofNat (((w * 16 + x) * 16 + y) * 16 + z)) (parseString rest) := by
  rw [parseString.eq_def]
  simp only [if_neg (show (0x5C : UInt16) ≠ 0x22 by decide), if_true, isA, isB, isC, isD]

theorem parseString_unicode (unit : UInt16) (rest : JavaString) :
    parseString (unicodeEscape unit ++ rest) = prepend unit (parseString rest) := by
  have small : unit.toNat < 16 ^ 4 := unit.toNat_lt
  have marks : Utf.ofString "\\u" = [0x5C, 0x75] := by decide
  have whole : ((unit.toNat / 4096 * 16 + unit.toNat / 256 % 16) * 16 + unit.toNat / 16 % 16) * 16 +
      unit.toNat % 16 = unit.toNat := by omega
  have read := parseString_hex (hexValue_digitChar (unit.toNat / 4096) (by omega))
    (hexValue_digitChar (unit.toNat / 256 % 16) (by omega))
    (hexValue_digitChar (unit.toNat / 16 % 16) (by omega))
    (hexValue_digitChar (unit.toNat % 16) (by omega)) rest
  rw [whole, UInt16.ofNat_toNat] at read
  rw [unicodeEscape, marks, hex_four unit.toNat small]
  exact read

theorem parseString_escape (unit : UInt16) (rest : JavaString) :
    parseString (escape unit ++ rest) = prepend unit (parseString rest) := by
  unfold escape
  split_ifs with quote slash back tab line form ret other
  · subst quote
    exact parseString_simple 0x22 (by decide) (by decide) rest
  · subst slash
    exact parseString_simple 0x5C (by decide) (by decide) rest
  · subst back
    exact parseString_simple 0x62 (by decide) (by decide) rest
  · subst tab
    exact parseString_simple 0x74 (by decide) (by decide) rest
  · subst line
    exact parseString_simple 0x6E (by decide) (by decide) rest
  · subst form
    exact parseString_simple 0x66 (by decide) (by decide) rest
  · subst ret
    exact parseString_simple 0x72 (by decide) (by decide) rest
  · exact parseString_unicode unit rest
  · rw [Bool.or_eq_true, Bool.or_eq_true, decide_eq_true_eq] at other
    exact parseString_raw ⟨quote, slash, fun control => other (Or.inl (Or.inl control))⟩ rest

/-- Half of a pair stands for itself. -/
theorem raw_of_surrogate {unit : UInt16} (surrogate : 0xD800 ≤ unit.toNat) :
    unit ≠ 0x22 ∧ unit ≠ 0x5C ∧ ¬unit < 0x20 := by
  simp only [ne_eq, ← UInt16.toNat_inj, UInt16.lt_iff_toNat_lt, UInt16.reduceToNat]
  omega

theorem parseString_escaped (text rest : JavaString) :
    parseString (escaped text ++ 0x22 :: rest) = some (text, rest) := by
  have ends : parseString (0x22 :: rest) = some ([], rest) := by
    rw [parseString.eq_def]
    rfl
  induction text using escaped.induct with
  | case1 => exact ends
  | case2 unit =>
      rw [escaped, parseString_escape, ends]
      rfl
  | case3 first second later pair ih =>
      have isPair := pair
      simp only [Utf.isHigh, Utf.isLow, Bool.and_eq_true, decide_eq_true_eq] at isPair
      rw [escaped, if_pos pair, List.cons_append, List.cons_append,
        parseString_raw (raw_of_surrogate isPair.1.1),
        parseString_raw (raw_of_surrogate (by omega)), ih]
      rfl
  | case4 first second later notPair ih =>
      rw [escaped, if_neg notPair, List.append_assoc, parseString_escape, ih]
      rfl

theorem parseString_quoted (text rest : JavaString) : ∃ tail, quoted text ++ rest = 0x22 :: tail ∧
    parseString tail = some (text, rest) := by
  refine ⟨escaped text ++ 0x22 :: rest, ?_, parseString_escaped text rest⟩
  have mark : Utf.ofString "\"" = [0x22] := by decide
  rw [quoted, mark]
  simp

end Strings

section Numbers

/-- The shape of every number that is printed. -/
structure Printed (cs : List Char) : Prop where
  parts : ∃ whole digits tail, cs = whole ++ (Number.pointed digits ++ tail) ∧
    (∀ c ∈ whole, c.isDigit) ∧ (∀ c ∈ digits, c.isDigit) ∧ whole ≠ [] ∧
    (whole.head? = some '0' → whole = ['0']) ∧
    (tail = [] ∨ ∃ sign n, tail = 'e' :: sign :: Nat.toDigits 10 n ∧ (sign = '-' ∨ sign = '+'))

theorem exponent_tail {tail : List Char} (isTail : tail = [] ∨ ∃ sign n,
    tail = 'e' :: sign :: Nat.toDigits 10 n ∧ (sign = '-' ∨ sign = '+')) :
    exponent tail = some (Number.exponentOf tail) := by
  have digits : ∀ n, digitsOnly (Nat.toDigits 10 n) = some n := by
    intro n
    have all : (Nat.toDigits 10 n).all Char.isDigit = true :=
      List.all_eq_true.mpr fun c => Number.isDigit_toDigits
    rw [digitsOnly, if_pos ⟨Nat.toDigits_ne_nil, all⟩, Nat.ofDigitChars_ten_toDigits]
  rcases isTail with rfl | ⟨sign, n, rfl, rfl | rfl⟩
  · rfl
  · simp [exponent, digits, Number.exponentOf, Nat.ofDigitChars_ten_toDigits]
  · simp [exponent, digits, Number.exponentOf, Nat.ofDigitChars_ten_toDigits]

/-- What is printed is read as it is meant. -/
theorem decimalValue_printed {cs : List Char} (printed : Printed cs) :
    decimalValue cs = some (Number.read cs) := by
  obtain ⟨whole, digits, tail, rfl, isWhole, isDigits, some, zero, isTail⟩ := printed
  have isRead := Number.read_parts whole digits tail isWhole isDigits
    (isTail.imp id fun ⟨sign, n, isText, _⟩ => ⟨_, isText⟩)
  have marked : tail.takeWhile Char.isDigit = [] ∧ tail.dropWhile Char.isDigit = tail := by
    rcases isTail with rfl | ⟨sign, n, rfl, -⟩ <;> simp
  have pointed : (Number.pointed digits ++ tail).takeWhile Char.isDigit = [] ∧
      (Number.pointed digits ++ tail).dropWhile Char.isDigit = Number.pointed digits ++ tail := by
    cases digits with
    | nil => exact marked
    | cons d ds => simp [Number.pointed]
  have fractional : fraction (Number.pointed digits ++ tail) = Option.some (digits, tail) := by
    cases digits with
    | nil =>
        rcases isTail with rfl | ⟨sign, n, rfl, -⟩ <;> rfl
    | cons d ds =>
        simp only [Number.pointed, List.cons_append, fraction]
        rw [← List.cons_append, List.takeWhile_append_of_pos isDigits,
          List.dropWhile_append_of_pos isDigits, marked.1, marked.2, List.append_nil, if_neg (by simp)]
  have first : (whole ++ (Number.pointed digits ++ tail)).takeWhile Char.isDigit = whole ∧
      (whole ++ (Number.pointed digits ++ tail)).dropWhile Char.isDigit =
        Number.pointed digits ++ tail := by
    rw [List.takeWhile_append_of_pos isWhole, List.dropWhile_append_of_pos isWhole, pointed.1,
      pointed.2, List.append_nil]
    exact ⟨rfl, rfl⟩
  rw [decimalValue, first.1, first.2, fractional, if_neg (by tauto)]
  simp only [exponent_tail isTail, Option.map_some]
  rw [← List.append_assoc, isRead]

theorem numeric_unit {c : Char} (numeric : Number.Numeric c) :
    isNumeric (UInt16.ofNat c.toNat) = true ∧
      Char.ofNat (UInt16.ofNat c.toNat).toNat = c := by
  rcases numeric with isDigit | mark
  · have bounds : 48 ≤ c.toNat ∧ c.toNat ≤ 57 := by
      rwa [Char.isDigit, Bool.and_eq_true, decide_eq_true_eq, decide_eq_true_eq] at isDigit
    have same : (UInt16.ofNat c.toNat).toNat = c.toNat :=
      UInt16.toNat_ofNat_of_lt (lt_of_le_of_lt bounds.2 (by decide))
    constructor
    · simp [isNumeric, same, bounds]
    · rw [same, Char.ofNat_toNat]
  · simp only [List.mem_cons, List.not_mem_nil, or_false] at mark
    rcases mark with rfl | rfl | rfl | rfl <;> decide

theorem printed_layout {digits : List Char} (some : digits ≠ [])
    (isDigit : ∀ c ∈ digits, c.isDigit) (leads : digits.head? ≠ Option.some '0') (point : Int) :
    Printed (Number.layout digits point) := by
  have pointed {cs : List Char} (some : cs ≠ []) : Number.pointed cs = '.' :: cs := by
    cases cs with
    | nil => exact absurd rfl some
    | cons c cs => rfl
  have headed {n : Nat} (pos : 0 < n) : digits.take n ≠ [] ∧ (digits.take n).head? ≠ Option.some '0' := by
    constructor
    · simp only [ne_eq, List.take_eq_nil_iff, not_or]
      exact ⟨pos.ne', some⟩
    · rwa [List.head?_take, if_neg pos.ne']
  unfold Number.layout
  by_cases whole : digits.length ≤ point ∧ point ≤ 21
  · rw [if_pos whole]
    refine ⟨_, [], [], (List.append_nil _).symm, ?_, by simp, by simp [some], ?_, Or.inl rfl⟩
    · intro c member
      rcases List.mem_append.mp member with own | filled
      · exact isDigit c own
      · exact Number.isDigit_zeros filled
    · intro zero
      rw [List.head?_append_of_ne_nil _ some] at zero
      exact absurd zero leads
  by_cases split : 0 < point ∧ point ≤ 21
  · rw [if_neg whole, if_pos split]
    have short : digits.drop point.toNat ≠ [] := by
      simp only [ne_eq, List.drop_eq_nil_iff]
      omega
    refine ⟨digits.take point.toNat, digits.drop point.toNat, [], ?_,
      fun c member => isDigit c (List.mem_of_mem_take member),
      fun c member => isDigit c (List.mem_of_mem_drop member), (headed (by omega)).1,
      fun zero => absurd zero (headed (by omega)).2, Or.inl rfl⟩
    rw [pointed short, List.append_nil]
  by_cases small : -6 < point ∧ point ≤ 0
  · rw [if_neg whole, if_neg split, if_pos small]
    refine ⟨['0'], List.replicate (-point).toNat '0' ++ digits, [], ?_, by simp, ?_, by simp,
      fun _ => rfl, Or.inl rfl⟩
    · rw [pointed (by simp [some]), List.append_nil]
      rfl
    · intro c member
      rcases List.mem_append.mp member with filled | own
      · exact Number.isDigit_zeros filled
      · exact isDigit c own
  · rw [if_neg whole, if_neg split, if_neg small]
    have one : 1 ≤ digits.length := List.length_pos_iff.mpr some
    have shape : Number.pointed (digits.drop 1) =
        if digits.length = 1 then [] else '.' :: digits.drop 1 := by
      split_ifs with single
      · rw [List.drop_eq_nil_of_le single.le]
        rfl
      · refine pointed ?_
        simp only [ne_eq, List.drop_eq_nil_iff]
        omega
    refine ⟨digits.take 1, digits.drop 1,
      'e' :: (if point < 1 then '-' else '+') :: Nat.toDigits 10 (point - 1).natAbs, ?_,
      fun c member => isDigit c (List.mem_of_mem_take member),
      fun c member => isDigit c (List.mem_of_mem_drop member), (headed (by omega)).1,
      fun zero => absurd zero (headed (by omega)).2, Or.inr ⟨_, _, rfl, ?_⟩⟩
    · rw [shape, ← List.append_assoc]
    · split_ifs <;> simp

/-- No number but zero begins with a zero. -/
theorem toDigits_leads {n : Nat} (zero : (Nat.toDigits 10 n).head? = some '0') : n = 0 := by
  induction n using Nat.strong_induction_on with
  | _ n ih =>
      by_cases single : n < 10
      · have digits : ∀ d < 10, [Nat.digitChar d].head? = some '0' → d = 0 := by decide
        rw [Nat.toDigits_of_lt_base single] at zero
        exact digits n single zero
      · rw [Nat.toDigits_of_base_le (by decide) (not_lt.mp single),
          List.head?_append_of_ne_nil _ Nat.toDigits_ne_nil] at zero
        have quotient := ih (n / 10) (by omega) zero
        omega

theorem printed_toDigits (n : Nat) : Printed (Nat.toDigits 10 n) := by
  refine ⟨_, [], [], (List.append_nil _).symm, fun _ => Number.isDigit_toDigits, by simp,
    Nat.toDigits_ne_nil, ?_, Or.inl rfl⟩
  intro zero
  rw [toDigits_leads zero]
  rfl

theorem printed_positive {x : ℚ} (nonneg : 0 ≤ x) (isDouble : Number.toDouble x = x) :
    Printed (Number.positive x) := by
  unfold Number.positive
  split_ifs with whole
  · exact printed_toDigits _
  · have pos : 0 < x := by
      refine lt_of_le_of_ne nonneg fun zero => whole ?_
      rw [← zero]
      decide
    obtain ⟨k, some, least, most, reads⟩ := Number.shortest_reads pos isDouble
    rw [isDouble]
    refine printed_layout Nat.toDigits_ne_nil (fun _ => Number.isDigit_toDigits) ?_ _
    intro zero
    have isZero := toDigits_leads zero
    have pos : 0 < 10 ^ (k - 1) := by positivity
    omega

/-- A number as JSON has it. -/
def Finite (x : JsNumber) : Prop :=
  Number.IsDouble x ∧ |x| < 2 ^ 1024

theorem numberValue_chars {x : JsNumber} (finite : Finite x) :
    numberValue (Number.chars x) = some (.number x) := by
  have unsigned {y : ℚ} (nonneg : 0 ≤ y) (isDouble : Number.toDouble y = y) (small : y < 2 ^ 1024)
      (negative : Bool) : (decimalValue (Number.positive y)).map (nearest negative) =
        some (.number (if negative then -y else y)) := by
    rw [decimalValue_printed (printed_positive nonneg isDouble), Option.map_some, nearest,
      Number.read_positive nonneg isDouble, if_neg (not_le.mpr small)]
  obtain ⟨isDouble, small⟩ := finite
  unfold Number.IsDouble at isDouble
  by_cases negative : x < 0
  · rw [abs_of_neg negative] at isDouble small
    rw [Number.chars, if_pos negative, numberValue, unsigned (by linarith) isDouble small]
    simp
  · rw [abs_of_nonneg (not_lt.mp negative)] at isDouble small
    obtain ⟨c, cs, isText, isDigit⟩ := Number.positive_head x
    have read := unsigned (not_lt.mp negative) isDouble small false
    rw [Number.chars, if_neg negative]
    rw [isText] at read ⊢
    rw [numberValue.eq_def]
    split
    · next sign => exact absurd ((List.cons.inj sign).1 ▸ isDigit) (by decide)
    · exact read

theorem parseNumber_units {x : JsNumber} (finite : Finite x) {rest : JavaString}
    (stops : ∀ unit ∈ rest.head?, isNumeric unit = false) :
    parseNumber (units (Number.chars x) ++ rest) = some (.number x, rest) := by
  have numeric : ∀ c ∈ Number.chars x, Number.Numeric c := by
    intro c member
    exact Number.text_numeric (x := x) (by rwa [Number.text, String.toList_ofList])
  have all : ∀ unit ∈ units (Number.chars x), isNumeric unit = true := by
    intro unit member
    obtain ⟨c, listed, rfl⟩ := List.mem_map.mp member
    exact (numeric_unit (numeric c listed)).1
  have ends : rest.takeWhile isNumeric = [] ∧ rest.dropWhile isNumeric = rest := by
    cases rest with
    | nil => exact ⟨rfl, rfl⟩
    | cons unit later =>
        have stop := stops unit rfl
        simp [stop]
  have back : (units (Number.chars x)).map (fun unit => Char.ofNat unit.toNat) = Number.chars x := by
    rw [units, List.map_map]
    refine (List.map_congr_left fun c member => ?_).trans (List.map_id _)
    exact (numeric_unit (numeric c member)).2
  rw [parseNumber, List.takeWhile_append_of_pos all, List.dropWhile_append_of_pos all, ends.1,
    ends.2, List.append_nil, back, numberValue_chars finite]
  rfl

end Numbers

section Values

mutual

/-- JSON has no infinite number. -/
def Sendable : Value → Prop
  | .null | .bool _ | .string _ => True
  | .number x => Finite x
  | .infinite _ => False
  | .array values => SendableValues values
  | .object members => SendableMembers members

def SendableValues : List Value → Prop
  | [] => True
  | value :: rest => value.Sendable ∧ SendableValues rest

def SendableMembers : List (JavaString × Value) → Prop
  | [] => True
  | (_, value) :: rest => value.Sendable ∧ SendableMembers rest

end

theorem skip_cons {unit : UInt16} (mark : isSpace unit = false) (rest : JavaString) :
    skip (unit :: rest) = unit :: rest := by
  simp [skip, mark]

theorem after_append (expected rest : JavaString) : after? expected (expected ++ rest) = some rest := by
  simp [after?]

theorem after_none {unit first : UInt16} (other : first ≠ unit) (expected rest : JavaString) :
    after? (first :: expected) (unit :: rest) = none := by
  simp [after?, List.isPrefixOf, other]

/-- The first character of a number that is printed. -/
theorem chars_head (x : JsNumber) : ∃ c cs, Number.chars x = c :: cs ∧ (c.isDigit ∨ c = '-') := by
  by_cases negative : x < 0
  · exact ⟨'-', _, if_pos negative, Or.inr rfl⟩
  · obtain ⟨c, cs, isText, isDigit⟩ := Number.positive_head x
    exact ⟨c, cs, (if_neg negative).trans isText, Or.inl isDigit⟩

/-- What a digit or a sign cannot be taken for. -/
theorem units_head (x : JsNumber) : ∃ unit rest, units (Number.chars x) = unit :: rest ∧
    (unit.toNat = 45 ∨ 48 ≤ unit.toNat ∧ unit.toNat ≤ 57) := by
  obtain ⟨c, cs, isText, isDigit | rfl⟩ := chars_head x
  · have bounds : 48 ≤ c.toNat ∧ c.toNat ≤ 57 := by
      rwa [Char.isDigit, Bool.and_eq_true, decide_eq_true_eq, decide_eq_true_eq] at isDigit
    have same : (UInt16.ofNat c.toNat).toNat = c.toNat :=
      UInt16.toNat_ofNat_of_lt (lt_of_le_of_lt bounds.2 (by decide))
    refine ⟨_, _, by rw [isText]; rfl, Or.inr ?_⟩
    rwa [same]
  · exact ⟨_, _, by rw [isText]; rfl, Or.inl rfl⟩

theorem stringify_head (value : Value) : ∃ unit rest, value.stringify = unit :: rest ∧
    isSpace unit = false ∧ unit ≠ 0x5D := by
  cases value with
  | null => exact ⟨_, _, rfl, by decide, by decide⟩
  | bool value => cases value <;> exact ⟨_, _, rfl, by decide, by decide⟩
  | infinite negative => exact ⟨_, _, rfl, by decide, by decide⟩
  | number x =>
      obtain ⟨unit, rest, isText, bounds⟩ := units_head x
      refine ⟨unit, rest, isText, ?_, ?_⟩
      · simp only [isSpace, Bool.or_eq_false_iff, decide_eq_false_iff_not, ← UInt16.toNat_inj,
          UInt16.reduceToNat]
        omega
      · simp only [ne_eq, ← UInt16.toNat_inj, UInt16.reduceToNat]
        omega
  | string text =>
      obtain ⟨tail, isText, -⟩ := parseString_quoted text []
      rw [List.append_nil] at isText
      exact ⟨_, _, isText, by decide, by decide⟩
  | array values => exact ⟨_, _, rfl, by decide, by decide⟩
  | object members => exact ⟨_, _, rfl, by decide, by decide⟩

theorem parseAtom_number {x : JsNumber} (finite : Finite x) {rest : JavaString}
    (stops : ∀ unit ∈ rest.head?, isNumeric unit = false) :
    parseAtom (units (Number.chars x) ++ rest) = some (.number x, rest) := by
  obtain ⟨unit, later, isText, bounds⟩ := units_head x
  have read := parseNumber_units finite stops
  have other {letter : UInt16} (large : 57 < letter.toNat) : letter ≠ unit := by
    rintro rfl
    omega
  rw [isText, List.cons_append] at read ⊢
  rw [parseAtom, nullText, trueText, falseText, after_none (other (by decide)),
    after_none (other (by decide)), after_none (other (by decide))]
  exact read

section Steps

variable (fuel : Nat)

theorem parseValue_atom {unit : UInt16} (mark : isSpace unit = false)
    (plain : unit ≠ 0x22 ∧ unit ≠ 0x5B ∧ unit ≠ 0x7B) (rest : JavaString) :
    parseValue (fuel + 1) (unit :: rest) = parseAtom (unit :: rest) := by
  rw [parseValue, skip_cons mark]
  simp only [if_neg plain.1, if_neg plain.2.1, if_neg plain.2.2]

theorem parseValue_quoted (text rest : JavaString) :
    parseValue (fuel + 1) (quoted text ++ rest) = some (.string text, rest) := by
  obtain ⟨tail, isText, isString⟩ := parseString_quoted text rest
  rw [isText, parseValue, skip_cons (by decide)]
  simp only [if_true, isString, Option.map_some]

theorem parseValue_elements {next : UInt16} (mark : isSpace next = false) (more : next ≠ 0x5D)
    (inner : JavaString) : parseValue (fuel + 1) (0x5B :: next :: inner) =
      (parseElements fuel (next :: inner)).map fun (values, rest) => (.array values, rest) := by
  rw [parseValue, skip_cons (by decide)]
  simp only [if_neg (show (0x5B : UInt16) ≠ 0x22 by decide), if_true, skip_cons mark, if_neg more]

theorem parseValue_members {next : UInt16} (mark : isSpace next = false) (more : next ≠ 0x7D)
    (inner : JavaString) : parseValue (fuel + 1) (0x7B :: next :: inner) =
      (parseMembers fuel (next :: inner)).map fun (members, rest) => (.object members, rest) := by
  rw [parseValue, skip_cons (by decide)]
  simp only [if_neg (show (0x7B : UInt16) ≠ 0x22 by decide),
    if_neg (show (0x7B : UInt16) ≠ 0x5B by decide), if_true, skip_cons mark, if_neg more]

variable {fuel} {value : Value} {text rest : JavaString}

theorem parseElements_last (isValue : parseValue fuel text = some (value, 0x5D :: rest)) :
    parseElements (fuel + 1) text = some ([value], rest) := by
  rw [parseElements, isValue]
  simp only [skip_cons (show isSpace 0x5D = false by decide), if_true]

theorem parseElements_more (isValue : parseValue fuel text = some (value, 0x2C :: rest)) :
    parseElements (fuel + 1) text =
      (parseElements fuel rest).map fun (values, rest) => (value :: values, rest) := by
  rw [parseElements, isValue]
  simp only [skip_cons (show isSpace 0x2C = false by decide), if_true,
    if_neg (show (0x2C : UInt16) ≠ 0x5D by decide)]

/-- The field in front of a mark. -/
theorem parseMembers_field (key : JavaString) {mark : UInt16} (unspaced : isSpace mark = false)
    (isValue : parseValue fuel text = some (value, mark :: rest)) :
    parseMembers (fuel + 1) (quoted key ++ 0x3A :: text) =
      if mark = 0x7D then some ([(key, value)], rest)
      else if mark = 0x2C then
        (parseMembers fuel rest).map fun (members, rest) => ((key, value) :: members, rest)
      else none := by
  obtain ⟨tail, isText, isString⟩ := parseString_quoted key (0x3A :: text)
  rw [isText, parseMembers, skip_cons (by decide)]
  simp only [ne_eq, not_true, if_false, isString, skip_cons (show isSpace 0x3A = false by decide),
    isValue, skip_cons unspaced]

end Steps

theorem stringify_length (value : Value) : 1 ≤ value.stringify.length := by
  obtain ⟨unit, rest, isText, -⟩ := value.stringify_head
  rw [isText]
  simp

/-- Nothing that ends a value stands in a number. -/
theorem stops_mark {mark : UInt16} (notNumeric : isNumeric mark = false) (rest : JavaString) :
    ∀ unit ∈ (mark :: rest).head?, isNumeric unit = false := by
  intro unit member
  cases member
  exact notNumeric

theorem elementTexts_cons (value next : Value) (values : List Value) :
    elementTexts (value :: next :: values) =
      value.stringify ++ 0x2C :: elementTexts (next :: values) := by
  rw [elementTexts]

/-- The first character in a list is that of its first value. -/
theorem elementTexts_head (value : Value) (values : List Value) : ∃ unit rest,
    elementTexts (value :: values) = unit :: rest ∧ isSpace unit = false ∧ unit ≠ 0x5D := by
  obtain ⟨unit, rest, isText, mark, more⟩ := value.stringify_head
  cases values with
  | nil => exact ⟨unit, rest, by rw [elementTexts, isText], mark, more⟩
  | cons next values =>
      exact ⟨unit, _, by rw [elementTexts_cons, isText, List.cons_append], mark, more⟩

theorem memberTexts_single (key : JavaString) (value : Value) :
    memberTexts [(key, value)] = quoted key ++ 0x3A :: value.stringify := by
  rw [memberTexts]

theorem memberTexts_cons (key : JavaString) (value : Value) (next : JavaString × Value)
    (members : List (JavaString × Value)) : memberTexts ((key, value) :: next :: members) =
      quoted key ++ 0x3A :: (value.stringify ++ 0x2C :: memberTexts (next :: members)) := by
  rw [memberTexts]

theorem memberTexts_head (key : JavaString) (value : Value) (members : List (JavaString × Value)) :
    ∃ rest, memberTexts ((key, value) :: members) = 0x22 :: rest := by
  cases members with
  | nil =>
      obtain ⟨tail, isText, -⟩ := parseString_quoted key (0x3A :: value.stringify)
      exact ⟨tail, by rw [memberTexts_single, isText]⟩
  | cons next members =>
      obtain ⟨tail, isText, -⟩ := parseString_quoted key
        (0x3A :: (value.stringify ++ 0x2C :: memberTexts (next :: members)))
      exact ⟨tail, by rw [memberTexts_cons, isText]⟩

mutual

/-- What is printed is read back, whatever follows it. -/
theorem parseValue_stringify : ∀ (value : Value) (fuel : Nat) (rest : JavaString), value.Sendable →
    2 * value.stringify.length ≤ fuel → (∀ unit ∈ rest.head?, isNumeric unit = false) →
    parseValue fuel (value.stringify ++ rest) = some (value, rest)
  | value, 0, _, _, enough, _ => by
      have some := value.stringify_length
      omega
  | .null, fuel + 1, rest, _, _, _ => by
      exact parseValue_atom fuel (show isSpace 0x6E = false by decide) (by decide) _
  | .bool true, fuel + 1, rest, _, _, _ => by
      exact parseValue_atom fuel (show isSpace 0x74 = false by decide) (by decide) _
  | .bool false, fuel + 1, rest, _, _, _ => by
      exact parseValue_atom fuel (show isSpace 0x66 = false by decide) (by decide) _
  | .number x, fuel + 1, rest, finite, _, stops => by
      obtain ⟨unit, later, isText, bounds⟩ := units_head x
      have read := parseAtom_number finite stops
      rw [stringify]
      rw [isText, List.cons_append] at read ⊢
      rw [parseValue_atom fuel _ _ _, read]
      · simp only [isSpace, Bool.or_eq_false_iff, decide_eq_false_iff_not, ← UInt16.toNat_inj,
          UInt16.reduceToNat]
        omega
      · simp only [ne_eq, ← UInt16.toNat_inj, UInt16.reduceToNat]
        omega
  | .string text, fuel + 1, rest, _, _, _ => parseValue_quoted fuel text rest
  | .array [], fuel + 1, rest, _, _, _ => by
      rw [stringify, elementTexts, parseValue.eq_def]
      rfl
  | .array (value :: values), fuel + 1, rest, sendable, enough, _ => by
      simp only [stringify, List.length_cons, List.length_append, List.length_nil] at enough
      have read := parseElements_elementTexts value values fuel rest sendable (by omega)
      obtain ⟨unit, later, isText, mark, more⟩ := elementTexts_head value values
      rw [stringify, List.cons_append, List.append_assoc, List.singleton_append]
      rw [isText, List.cons_append] at read ⊢
      rw [parseValue_elements fuel mark more, read]
      rfl
  | .object [], fuel + 1, rest, _, _, _ => by
      rw [stringify, memberTexts, parseValue.eq_def]
      rfl
  | .object ((key, value) :: members), fuel + 1, rest, sendable, enough, _ => by
      simp only [stringify, List.length_cons, List.length_append, List.length_nil] at enough
      have read := parseMembers_memberTexts key value members fuel rest sendable (by omega)
      obtain ⟨later, isText⟩ := memberTexts_head key value members
      rw [stringify, List.cons_append, List.append_assoc, List.singleton_append]
      rw [isText, List.cons_append] at read ⊢
      rw [parseValue_members fuel (by decide) (by decide), read]
      rfl

theorem parseElements_elementTexts : ∀ (value : Value) (values : List Value) (fuel : Nat)
    (rest : JavaString), SendableValues (value :: values) →
    2 * (elementTexts (value :: values)).length + 1 ≤ fuel →
    parseElements fuel (elementTexts (value :: values) ++ 0x5D :: rest) =
      some (value :: values, rest)
  | value, values, 0, rest, sendable, enough => by omega
  | value, [], fuel + 1, rest, sendable, enough => by
      rw [elementTexts] at enough ⊢
      exact parseElements_last (parseValue_stringify value fuel (0x5D :: rest) sendable.1
        (by omega) (stops_mark (by decide) rest))
  | value, next :: values, fuel + 1, rest, sendable, enough => by
      rw [elementTexts_cons] at enough ⊢
      rw [List.length_append, List.length_cons] at enough
      have read := parseValue_stringify value fuel
        (0x2C :: (elementTexts (next :: values) ++ 0x5D :: rest)) sendable.1 (by omega)
        (stops_mark (by decide) _)
      have later := parseElements_elementTexts next values fuel rest sendable.2 (by omega)
      rw [List.append_assoc, List.cons_append, parseElements_more read, later]
      rfl

theorem parseMembers_memberTexts : ∀ (key : JavaString) (value : Value)
    (members : List (JavaString × Value)) (fuel : Nat) (rest : JavaString),
    SendableMembers ((key, value) :: members) →
    2 * (memberTexts ((key, value) :: members)).length + 1 ≤ fuel →
    parseMembers fuel (memberTexts ((key, value) :: members) ++ 0x7D :: rest) =
      some ((key, value) :: members, rest)
  | key, value, members, 0, rest, sendable, enough => by omega
  | key, value, [], fuel + 1, rest, sendable, enough => by
      rw [memberTexts_single] at enough ⊢
      rw [List.length_append, List.length_cons] at enough
      have read := parseValue_stringify value fuel (0x7D :: rest) sendable.1 (by omega)
        (stops_mark (by decide) rest)
      rw [List.append_assoc, List.cons_append, parseMembers_field key (by decide) read]
      rfl
  | key, value, (name, next) :: members, fuel + 1, rest, sendable, enough => by
      rw [memberTexts_cons] at enough ⊢
      rw [List.length_append, List.length_cons, List.length_append, List.length_cons] at enough
      have read := parseValue_stringify value fuel
        (0x2C :: (memberTexts ((name, next) :: members) ++ 0x7D :: rest)) sendable.1 (by omega)
        (stops_mark (by decide) _)
      have later := parseMembers_memberTexts name next members fuel rest sendable.2 (by omega)
      rw [List.append_assoc, List.cons_append, List.append_assoc, List.cons_append,
        parseMembers_field key (by decide) read, later]
      rfl

end

theorem parse_stringify {value : Value} (sendable : value.Sendable) :
    parse value.stringify = some value := by
  have read := parseValue_stringify value (2 * value.stringify.length + 1) [] sendable (by omega)
    (by simp)
  rw [List.append_nil] at read
  rw [parse, read]
  rfl

end Values

end Value

end Client
