import Mathlib.Data.List.Basic
import Mathlib.Tactic.Common

/-!
Strings of UTF-16 code units and their UTF-8 form: the encoder that replaces lone
surrogates, the decoder that replaces malformed bytes and drops a byte order mark,
and the texts that survive the two.
-/

namespace Utf

abbrev replacement : Nat := 0xFFFD

def isHigh (unit : UInt16) : Bool :=
  0xD800 ≤ unit.toNat && unit.toNat ≤ 0xDBFF

def isLow (unit : UInt16) : Bool :=
  0xDC00 ≤ unit.toNat && unit.toNat ≤ 0xDFFF

/-- The white space of JavaScript, which `trim` takes away and `\s` matches. -/
def isSpace (unit : UInt16) : Bool :=
  (9 ≤ unit.toNat && unit.toNat ≤ 13) || (0x2000 ≤ unit.toNat && unit.toNat ≤ 0x200A) ||
    [0x20, 0xA0, 0x1680, 0x2028, 0x2029, 0x202F, 0x205F, 0x3000, 0xFEFF].contains unit.toNat

/-- A code unit that is no part of a pair. -/
def lone (unit : UInt16) : Nat :=
  if isHigh unit || isLow unit then replacement else unit.toNat

def points : List UInt16 → List Nat
  | [] => []
  | [unit] => [lone unit]
  | first :: second :: rest =>
      if isHigh first && isLow second then
        (0x10000 + (first.toNat - 0xD800) * 0x400 + (second.toNat - 0xDC00)) :: points rest
      else lone first :: points (second :: rest)

/-- The code units of one code point. -/
def unitsOf (point : Nat) : List UInt16 :=
  if point < 0x10000 then [UInt16.ofNat point]
  else [UInt16.ofNat (0xD800 + (point - 0x10000) / 0x400),
    UInt16.ofNat (0xDC00 + (point - 0x10000) % 0x400)]

def ofString (s : String) : List UInt16 :=
  s.toList.flatMap fun c => unitsOf c.toNat

def encodePoint (point : Nat) : List UInt8 :=
  if point < 0x80 then [UInt8.ofNat point]
  else if point < 0x800 then
    [UInt8.ofNat (0xC0 + point / 0x40), UInt8.ofNat (0x80 + point % 0x40)]
  else if point < 0x10000 then
    [UInt8.ofNat (0xE0 + point / 0x1000), UInt8.ofNat (0x80 + point / 0x40 % 0x40),
      UInt8.ofNat (0x80 + point % 0x40)]
  else
    [UInt8.ofNat (0xF0 + point / 0x40000), UInt8.ofNat (0x80 + point / 0x1000 % 0x40),
      UInt8.ofNat (0x80 + point / 0x40 % 0x40), UInt8.ofNat (0x80 + point % 0x40)]

def encode (text : List UInt16) : List UInt8 :=
  (points text).flatMap encodePoint

theorem length_encodePoint_le (point : Nat) : (encodePoint point).length ≤ 4 := by
  unfold encodePoint
  split_ifs <;> simp

theorem length_encodePoint_lone (unit : UInt16) : (encodePoint (lone unit)).length ≤ 3 := by
  have small : lone unit < 0x10000 := by
    have bound := unit.toNat_lt
    unfold lone replacement
    split_ifs <;> omega
  unfold encodePoint
  split_ifs <;> simp

/-- A code unit takes three bytes at most; a pair takes four. -/
theorem length_encode_le (text : List UInt16) : (encode text).length ≤ 3 * text.length := by
  unfold encode
  induction text using points.induct with
  | case1 => simp [points]
  | case2 unit =>
      have one := length_encodePoint_lone unit
      simp only [points, List.flatMap_cons, List.flatMap_nil, List.append_nil, List.length_cons,
        List.length_nil]
      omega
  | case3 first second rest pair ih =>
      have four := length_encodePoint_le
        (0x10000 + (first.toNat - 0xD800) * 0x400 + (second.toNat - 0xDC00))
      simp only [points, pair, if_true, List.flatMap_cons, List.length_append, List.length_cons]
      omega
  | case4 first second rest apart ih =>
      have one := length_encodePoint_lone first
      simp only [points, apart, Bool.false_eq_true, if_false, List.flatMap_cons,
        List.length_append, List.length_cons] at ih ⊢
      omega
/-- A sequence that has begun: the bytes it still needs, its value so far, and the
range of its next byte. -/
structure Pending where
  needed : Nat
  value : Nat
  lower : Nat := 0x80
  upper : Nat := 0xBF

def lead (byte : UInt8) : List Nat × Option Pending :=
  let b := byte.toNat
  if b < 0x80 then ([b], none)
  else if b < 0xC2 then ([replacement], none)
  else if b < 0xE0 then ([], some { needed := 1, value := b - 0xC0 })
  else if b < 0xF0 then
    ([], some ⟨2, b - 0xE0, if b = 0xE0 then 0xA0 else 0x80, if b = 0xED then 0x9F else 0xBF⟩)
  else if b < 0xF5 then
    ([], some ⟨3, b - 0xF0, if b = 0xF0 then 0x90 else 0x80, if b = 0xF4 then 0x8F else 0xBF⟩)
  else ([replacement], none)

def step : Option Pending → UInt8 → List Nat × Option Pending
  | none, byte => lead byte
  | some pending, byte =>
      if pending.lower ≤ byte.toNat ∧ byte.toNat ≤ pending.upper then
        let value := pending.value * 0x40 + (byte.toNat - 0x80)
        if pending.needed = 1 then ([value], none)
        else ([], some { needed := pending.needed - 1, value })
      else
        -- the byte that ends a sequence early is read again as a first byte
        let (out, next) := lead byte
        (replacement :: out, next)

def decodeFrom : Option Pending → List UInt8 → List Nat
  | none, [] => []
  | some _, [] => [replacement]
  | state, byte :: rest =>
      let (out, next) := step state byte
      out ++ decodeFrom next rest

def dropMark : List UInt8 → List UInt8
  | 0xEF :: 0xBB :: 0xBF :: rest => rest
  | bytes => bytes

def decode (bytes : List UInt8) : List UInt16 :=
  (decodeFrom none (dropMark bytes)).flatMap unitsOf

section RoundTrip

def Scalar (point : Nat) : Prop :=
  point < 0xD800 ∨ (0xE000 ≤ point ∧ point < 0x110000)

/-- The texts that UTF-8 carries unchanged: no lone surrogate, no leading byte order mark. -/
def Survives (text : List UInt16) : Prop :=
  ∃ scalars : List Nat, (∀ p ∈ scalars, Scalar p) ∧ scalars.head? ≠ some 0xFEFF ∧
    text = scalars.flatMap unitsOf

theorem points_unitsOf {p : Nat} (scalar : Scalar p) (rest : List UInt16) :
    points (unitsOf p ++ rest) = p :: points rest := by
  unfold Scalar at scalar
  by_cases small : p < 0x10000
  · have bound : (UInt16.ofNat p).toNat = p := by simp [UInt16.toNat_ofNat']; omega
    have notHigh : isHigh (UInt16.ofNat p) = false := by simp [isHigh, bound]; omega
    have alone : lone (UInt16.ofNat p) = p := by simp [lone, isHigh, isLow, bound]; omega
    cases rest with
    | nil => simp [unitsOf, small, points, alone]
    | cons next rest => simp [unitsOf, small, points, notHigh, alone]
  · have high : (UInt16.ofNat (0xD800 + (p - 0x10000) / 0x400)).toNat
        = 0xD800 + (p - 0x10000) / 0x400 := by simp [UInt16.toNat_ofNat']; omega
    have low : (UInt16.ofNat (0xDC00 + (p - 0x10000) % 0x400)).toNat
        = 0xDC00 + (p - 0x10000) % 0x400 := by simp [UInt16.toNat_ofNat']; omega
    have isPair : isHigh (UInt16.ofNat (0xD800 + (p - 0x10000) / 0x400)) &&
        isLow (UInt16.ofNat (0xDC00 + (p - 0x10000) % 0x400)) := by
      simp only [isHigh, isLow, high, low, Bool.and_eq_true, decide_eq_true_eq]
      omega
    simp only [unitsOf, small, if_false, List.cons_append, List.nil_append, points, isPair,
      if_true, high, low, List.cons.injEq, and_true]
    omega

theorem points_flatMap {scalars : List Nat} (valid : ∀ p ∈ scalars, Scalar p) :
    points (scalars.flatMap unitsOf) = scalars := by
  induction scalars with
  | nil => rfl
  | cons p rest ih =>
      rw [List.flatMap_cons, points_unitsOf (valid p (by simp)),
        ih fun q member => valid q (by simp [member])]

theorem decodeFrom_encodePoint {p : Nat} (scalar : Scalar p) (rest : List UInt8) :
    decodeFrom none (encodePoint p ++ rest) = p :: decodeFrom none rest := by
  unfold Scalar at scalar
  have byte : ∀ n, n < 256 → (UInt8.ofNat n).toNat = n := fun n bound => by
    simp [UInt8.toNat_ofNat']; omega
  have low : (UInt8.ofNat (0x80 + p % 0x40)).toNat = 0x80 + p % 0x40 := byte _ (by omega)
  have middle : (UInt8.ofNat (0x80 + p / 0x40 % 0x40)).toNat = 0x80 + p / 0x40 % 0x40 :=
    byte _ (by omega)
  have high : (UInt8.ofNat (0x80 + p / 0x1000 % 0x40)).toNat = 0x80 + p / 0x1000 % 0x40 :=
    byte _ (by omega)
  unfold encodePoint
  split_ifs with one two three
  · have first := byte p (by omega)
    simp [decodeFrom, step, lead, first, one]
  · have first := byte (0xC0 + p / 0x40) (by omega)
    have start : lead (UInt8.ofNat (0xC0 + p / 0x40)) =
        ([], some { needed := 1, value := p / 0x40 }) := by
      unfold lead
      rw [first, if_neg (by omega), if_neg (by omega), if_pos (by omega)]
      simp
    simp only [List.cons_append, List.nil_append, decodeFrom, step, start, low, if_true]
    rw [if_pos (by omega)]
    simp only [List.cons_append, List.nil_append, List.cons.injEq, and_true]
    omega
  · have first := byte (0xE0 + p / 0x1000) (by omega)
    have start : lead (UInt8.ofNat (0xE0 + p / 0x1000)) =
        ([], some ⟨2, p / 0x1000, if 0xE0 + p / 0x1000 = 0xE0 then 0xA0 else 0x80,
          if 0xE0 + p / 0x1000 = 0xED then 0x9F else 0xBF⟩) := by
      unfold lead
      rw [first, if_neg (by omega), if_neg (by omega), if_neg (by omega), if_pos (by omega)]
      simp
    simp only [List.cons_append, List.nil_append, decodeFrom, step, start, middle]
    rw [if_pos (by split_ifs <;> omega)]
    simp only [Nat.reduceEqDiff, if_false, Nat.reduceSub, if_true, List.nil_append]
    rw [if_pos (by omega)]
    simp only [List.cons_append, List.nil_append, List.cons.injEq, and_true]
    omega
  · have first := byte (0xF0 + p / 0x40000) (by omega)
    have start : lead (UInt8.ofNat (0xF0 + p / 0x40000)) =
        ([], some ⟨3, p / 0x40000, if 0xF0 + p / 0x40000 = 0xF0 then 0x90 else 0x80,
          if 0xF0 + p / 0x40000 = 0xF4 then 0x8F else 0xBF⟩) := by
      unfold lead
      rw [first, if_neg (by omega), if_neg (by omega), if_neg (by omega), if_neg (by omega),
        if_pos (by omega)]
      simp
    simp only [List.cons_append, List.nil_append, decodeFrom, step, start, high]
    rw [if_pos (by split_ifs <;> omega)]
    simp only [Nat.reduceEqDiff, if_false, Nat.reduceSub, List.nil_append]
    rw [if_pos (by omega)]
    simp only [Nat.reduceSub, if_true, List.nil_append]
    rw [if_pos (by omega)]
    simp only [List.cons_append, List.nil_append, List.cons.injEq, and_true]
    omega

theorem decodeFrom_flatMap {scalars : List Nat} (valid : ∀ p ∈ scalars, Scalar p) :
    decodeFrom none (scalars.flatMap encodePoint) = scalars := by
  induction scalars with
  | nil => rfl
  | cons p rest ih =>
      rw [List.flatMap_cons, decodeFrom_encodePoint (valid p (by simp)),
        ih fun q member => valid q (by simp [member])]

theorem dropMark_encodePoint {p : Nat} (scalar : Scalar p) (noMark : p ≠ 0xFEFF)
    (rest : List UInt8) : dropMark (encodePoint p ++ rest) = encodePoint p ++ rest := by
  unfold Scalar at scalar
  have byte : ∀ {n m}, n < 256 → m < 256 → UInt8.ofNat n = UInt8.ofNat m → n = m :=
    fun small large same => by
      have := congrArg UInt8.toNat same
      simp only [UInt8.toNat_ofNat'] at this
      omega
  unfold dropMark
  split
  next tail marked =>
    exfalso
    unfold encodePoint at marked
    split_ifs at marked with one two three <;>
      simp only [List.cons_append, List.nil_append, List.cons.injEq] at marked
    · have := byte (m := 0xEF) (by omega) (by omega) marked.1
      omega
    · have := byte (m := 0xEF) (by omega) (by omega) marked.1
      omega
    · have first := byte (m := 0xEF) (by omega) (by omega) marked.1
      have second := byte (m := 0xBB) (by omega) (by omega) marked.2.1
      have third := byte (m := 0xBF) (by omega) (by omega) marked.2.2.1
      omega
    · have := byte (m := 0xEF) (by omega) (by omega) marked.1
      omega
  next => rfl

theorem dropMark_flatMap {scalars : List Nat} (valid : ∀ p ∈ scalars, Scalar p)
    (noMark : scalars.head? ≠ some 0xFEFF) :
    dropMark (scalars.flatMap encodePoint) = scalars.flatMap encodePoint := by
  cases scalars with
  | nil => rfl
  | cons p rest =>
      rw [List.flatMap_cons]
      exact dropMark_encodePoint (valid p (by simp)) (by simpa using noMark) _

theorem scalar_lone (unit : UInt16) : Scalar (lone unit) := by
  have bound := unit.toNat_lt
  unfold lone
  split_ifs with surrogate
  · exact .inr (by decide)
  · simp only [isHigh, isLow, Bool.or_eq_true, Bool.and_eq_true, decide_eq_true_eq] at surrogate
    unfold Scalar
    omega

/-- Lone surrogates are gone from what is encoded. -/
theorem scalar_of_mem_points {text : List UInt16} {p : Nat} (member : p ∈ points text) :
    Scalar p := by
  induction text using points.induct with
  | case1 => simp [points] at member
  | case2 unit =>
      simp only [points, List.mem_singleton] at member
      exact member ▸ scalar_lone unit
  | case3 first second rest pair ih =>
      simp only [points, pair, if_true, List.mem_cons] at member
      rcases member with isPair | later
      · simp only [isHigh, isLow, Bool.and_eq_true, decide_eq_true_eq] at pair
        unfold Scalar
        omega
      · exact ih later
  | case4 first second rest apart ih =>
      simp only [points, apart, Bool.false_eq_true, if_false, List.mem_cons] at member
      rcases member with isLone | later
      · exact isLone ▸ scalar_lone first
      · exact ih later

/-- Texts of one encoding differ in lone surrogates at most. -/
theorem encode_inj {first second : List UInt16} :
    encode first = encode second ↔ points first = points second := by
  constructor
  · intro same
    have decoded := congrArg (decodeFrom none) same
    rwa [encode, encode, decodeFrom_flatMap fun p => scalar_of_mem_points,
      decodeFrom_flatMap fun p => scalar_of_mem_points] at decoded
  · intro same
    rw [encode, encode, same]

/-- A text that begins with no low surrogate is encoded on its own. -/
theorem points_append {text rest : List UInt16} (apart : ∀ u ∈ rest.head?, isLow u = false) :
    points (text ++ rest) = points text ++ points rest := by
  induction text using points.induct with
  | case1 => simp [points]
  | case2 unit =>
      cases rest with
      | nil => simp [points]
      | cons next rest => simp [points, apart next rfl]
  | case3 first second others pair ih => simp [points, pair, ih]
  | case4 first second others unpaired ih =>
      simp only [List.cons_append, points, unpaired, Bool.false_eq_true, if_false] at ih ⊢
      rw [ih]

theorem scalar_char (c : Char) : Scalar c.toNat := by
  have valid := c.valid
  simp only [UInt32.isValidChar, Nat.isValidChar] at valid
  unfold Scalar Char.toNat
  omega

theorem points_ofString_append (s : String) (rest : List UInt16) :
    points (ofString s ++ rest) = s.toList.map Char.toNat ++ points rest := by
  rw [ofString]
  induction s.toList with
  | nil => rfl
  | cons c cs ih =>
      rw [List.flatMap_cons, List.append_assoc, points_unitsOf (scalar_char c), ih]
      rfl

/-- The texts that survive are decoded as they were encoded. -/
theorem decode_encode {text : List UInt16} (survives : Survives text) :
    decode (encode text) = text := by
  obtain ⟨scalars, valid, noMark, rfl⟩ := survives
  rw [encode, points_flatMap valid, decode, dropMark_flatMap valid noMark,
    decodeFrom_flatMap valid]

end RoundTrip

end Utf
