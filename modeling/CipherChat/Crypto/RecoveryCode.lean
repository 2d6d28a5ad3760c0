import CipherChat.Rooms.Messages
import CipherChat.Text.Packing

/-!
The recovery code of `crypto/identity.ts`, as it is shown and as it is read back.
-/

namespace RecoveryCode

open Rooms (JavaString)
open Packing (Bits)

def B32 : JavaString :=
  "0123456789ABCDEFGHJKMNPQRSTVWXYZ".toList.map fun c => UInt16.ofNat c.toNat

/-- `B32[index]`, within the alphabet. -/
def symbol (index : Nat) : UInt16 :=
  B32.getD index 0

/-- What `.` matches: no line terminator. -/
def isDot (c : UInt16) : Bool :=
  c ≠ 0x0A && c ≠ 0x0D && c ≠ 0x2028 && c ≠ 0x2029

/-- `match(/.{4}/g)`. -/
def matchFour : JavaString → List JavaString
  | a :: b :: c :: d :: rest =>
      if isDot a && isDot b && isDot c && isDot d then [a, b, c, d] :: matchFour rest
      else matchFour (b :: c :: d :: rest)
  | _ => []

/-- `join("-")`. -/
def join : List JavaString → JavaString
  | [] => []
  | [group] => group
  | group :: next :: rest => group ++ 0x2D :: join (next :: rest)

/-- `none`: there is no match to join. -/
def generateRecoveryCode (bytes : List UInt8) : Option JavaString :=
  let out := (Bits.packBytes symbol 5 bytes).out.take 32
  match matchFour out with
  | [] => none
  | groups => some (join groups)

def asciiUpper (c : UInt16) : UInt16 :=
  if 97 ≤ c.toNat ∧ c.toNat ≤ 122 then c - 32 else c

/-- `toUpperCase`, letter by letter on ASCII. -/
structure Casing where
  toUpperCase : JavaString → JavaString
  ascii : ∀ text : JavaString, (∀ c ∈ text, c.toNat < 128) → toUpperCase text = text.map asciiUpper

/-- The letters outside ASCII whose upper case has letters of ASCII in it. -/
def special : List (Nat × String) := [
  (0xDF, "SS"), (0x131, "I"), (0x149, "\u02BCN"), (0x17F, "S"), (0x1F0, "J\u030C"),
  (0x1E96, "H\u0331"), (0x1E97, "T\u0308"), (0x1E98, "W\u030A"), (0x1E99, "Y\u030A"),
  (0x1E9A, "A\u02BE"), (0xFB00, "FF"), (0xFB01, "FI"), (0xFB02, "FL"), (0xFB03, "FFI"),
  (0xFB04, "FFL"), (0xFB05, "ST"), (0xFB06, "ST")]

def upper (c : UInt16) : JavaString :=
  if c.toNat < 128 then [asciiUpper c] else (special.lookup c.toNat).elim [c] Utf.ofString

/-- The upper case, as far as `normalizeCode` keeps any of it. -/
def Casing.latin : Casing where
  toUpperCase text := text.flatMap upper
  ascii text small := by
    have ascii : ∀ c ∈ text, upper c = [asciiUpper c] := fun c member => if_pos (small c member)
    rw [List.flatMap_congr ascii, List.map_eq_flatMap]

/-- `[0-9A-Z]`. -/
def isKept (c : UInt16) : Bool :=
  (48 ≤ c.toNat && c.toNat ≤ 57) || (65 ≤ c.toNat && c.toNat ≤ 90)

def normalizeCode (casing : Casing) (code : JavaString) : JavaString :=
  (casing.toUpperCase code).filter isKept

/-- The bytes in base 32. -/
def canonical (bytes : List UInt8) : JavaString :=
  (Radix.digits (2 ^ 5) 32 (Packing.number bytes)).map symbol

def IsSeparator (c : UInt16) : Prop :=
  c = 0x2D ∨ c = 0x20

/-- A code as somebody types it. -/
inductive Retyped : JavaString → JavaString → Prop
  | nil : Retyped [] []
  | letter {shown typed : JavaString} (c c' : UInt16) (same : asciiUpper c' = asciiUpper c)
      (rest : Retyped shown typed) : Retyped (c :: shown) (c' :: typed)
  | insert {shown typed : JavaString} (c : UInt16) (separator : IsSeparator c)
      (rest : Retyped shown typed) : Retyped shown (c :: typed)
  | remove {shown typed : JavaString} (c : UInt16) (separator : IsSeparator c)
      (rest : Retyped shown typed) : Retyped (c :: shown) typed

theorem symbol_plain (index : Nat) (inside : index < 32) :
    isKept (symbol index) = true ∧ isDot (symbol index) = true := by
  revert index
  decide

theorem idxOf_symbol (index : Nat) (inside : index < 32) : B32.idxOf (symbol index) = index := by
  revert index
  decide

section Groups

theorem flatten_matchFour (text : JavaString) (dots : ∀ c ∈ text, isDot c = true)
    (fours : 4 ∣ text.length) : (matchFour text).flatten = text := by
  fun_induction matchFour text with
  | case1 a b c d rest _ ih =>
      simp only [List.length_cons] at fours
      have tail := ih (fun c' member => dots c' (by simp [member])) (by omega)
      simp [tail]
  | case2 a b c d rest not _ =>
      simp [dots] at not
  | case3 text short =>
      match text with
      | [] => rfl
      | [_] | [_, _] | [_, _, _] => simp at fours
      | a :: b :: c :: d :: rest => exact absurd rfl (short a b c d rest)

theorem filter_join (groups : List JavaString) :
    (join groups).filter isKept = groups.flatten.filter isKept := by
  fun_induction join groups with
  | case1 => rfl
  | case2 group => simp
  | case3 group next rest ih =>
      have dropped : isKept 0x2D = false := by decide
      rw [List.flatten_cons, List.filter_append, List.filter_append,
        List.filter_cons_of_neg (by simp [dropped]), ih]

/-- The groups are of letters and digits, and only dashes come between them. -/
theorem join_plain (groups : List JavaString) (kept : ∀ c ∈ groups.flatten, isKept c = true) :
    ∀ c ∈ join groups, isKept c = true ∨ c = 0x2D := by
  fun_induction join groups with
  | case1 => simp
  | case2 group =>
      intro c member
      exact Or.inl (kept c (by simpa using member))
  | case3 group next rest ih =>
      intro c member
      rw [List.flatten_cons] at kept
      rcases List.mem_append.mp member with first | later
      · exact Or.inl (kept c (List.mem_append_left _ first))
      · rcases List.mem_cons.mp later with dash | later
        · exact Or.inr dash
        · exact ih (fun c' there => kept c' (List.mem_append_right _ there)) c later

end Groups

section Typing

theorem asciiUpper_small (c : UInt16) : (asciiUpper c).toNat < 128 ↔ c.toNat < 128 := by
  rw [asciiUpper]
  split
  · rename_i lower
    have less : (32 : UInt16) ≤ c := UInt16.le_iff_toNat_le.mpr (by simp; omega)
    rw [UInt16.toNat_sub_of_le _ _ less]
    omega
  · rfl

theorem asciiUpper_plain (c : UInt16) (plain : isKept c = true ∨ c = 0x2D) : asciiUpper c = c := by
  rw [asciiUpper, if_neg]
  rcases plain with kept | rfl
  · simp only [isKept, Bool.or_eq_true, Bool.and_eq_true, decide_eq_true_eq] at kept
    omega
  · decide

theorem separator_dropped (c : UInt16) (separator : IsSeparator c) :
    c.toNat < 128 ∧ isKept (asciiUpper c) = false := by
  rcases separator with rfl | rfl <;> decide

theorem Retyped.refl (shown : JavaString) : Retyped shown shown := by
  induction shown with
  | nil => exact .nil
  | cons c shown ih => exact .letter c c rfl ih

theorem Retyped.ascii {shown typed : JavaString} (retyped : Retyped shown typed)
    (small : ∀ c ∈ shown, c.toNat < 128) : ∀ c ∈ typed, c.toNat < 128 := by
  induction retyped with
  | nil => simp
  | letter c c' same _ ih =>
      have first : c'.toNat < 128 := by
        rw [← asciiUpper_small, same, asciiUpper_small]
        exact small c (by simp)
      exact List.forall_mem_cons.mpr ⟨first, ih fun c member => small c (by simp [member])⟩
  | insert c separator _ ih =>
      exact List.forall_mem_cons.mpr ⟨(separator_dropped c separator).1, ih small⟩
  | remove c _ _ ih => exact ih fun c member => small c (by simp [member])

theorem Retyped.filter {shown typed : JavaString} (retyped : Retyped shown typed) :
    (typed.map asciiUpper).filter isKept = (shown.map asciiUpper).filter isKept := by
  induction retyped with
  | nil => rfl
  | letter c c' same _ ih => simp only [List.map_cons, List.filter_cons, same, ih]
  | insert c separator _ ih =>
      rw [List.map_cons, List.filter_cons_of_neg (by simp [(separator_dropped c separator).2])]
      exact ih
  | remove c separator _ ih =>
      rw [List.map_cons, List.filter_cons_of_neg (by simp [(separator_dropped c separator).2])]
      exact ih

/-- However a code is typed, it is read as it is shown. -/
theorem normalizeCode_retyped (casing : Casing) {shown typed : JavaString}
    (plain : ∀ c ∈ shown, isKept c = true ∨ c = 0x2D) (retyped : Retyped shown typed) :
    normalizeCode casing typed = shown.filter isKept := by
  have small : ∀ c ∈ shown, c.toNat < 128 := by
    intro c member
    rcases plain c member with kept | rfl
    · simp only [isKept, Bool.or_eq_true, Bool.and_eq_true, decide_eq_true_eq] at kept
      omega
    · decide
  have same : shown.map asciiUpper = shown :=
    (List.map_congr_left fun c member => asciiUpper_plain c (plain c member)).trans
      (List.map_id' shown)
  rw [normalizeCode, casing.ascii typed (retyped.ascii small), retyped.filter, same]

end Typing

section Codes

variable {bytes : List UInt8}

/-- 160 bits are 32 characters: none is left over, and none is cut off. -/
theorem packBytes_out (twenty : bytes.length = 20) :
    (Bits.packBytes symbol 5 bytes).out = canonical bytes := by
  obtain ⟨packed, waiting⟩ := Packing.packed_bytes symbol 5 (by omega) bytes
  have balance := packed.balance
  have none : (Bits.packBytes symbol 5 bytes).bits = 0 := by omega
  have written := packed.whole none (by omega)
  rw [twenty] at written
  exact written

theorem canonical_kept (bytes : List UInt8) : ∀ c ∈ canonical bytes, isKept c = true ∧ isDot c = true := by
  intro c member
  obtain ⟨index, there, rfl⟩ := List.mem_map.mp member
  exact symbol_plain index (Radix.digits_lt (by omega) 32 _ index there)

/-- The bytes can be read off the characters. -/
theorem number_canonical (twenty : bytes.length = 20) :
    Radix.value (2 ^ 5) ((canonical bytes).map B32.idxOf) = Packing.number bytes := by
  have inside := Radix.digits_lt (Nat.two_pow_pos 5) 32 (Packing.number bytes)
  have digits : (canonical bytes).map B32.idxOf =
      Radix.digits (2 ^ 5) 32 (Packing.number bytes) := by
    rw [canonical, List.map_map]
    exact (List.map_congr_left fun index there => idxOf_symbol index (inside index there)).trans
      (List.map_id' _)
  have whole := Packing.number_lt bytes
  rw [twenty] at whole
  rw [digits, Radix.value_digits]
  exact Nat.mod_eq_of_lt whole

theorem canonical_injective {other : List UInt8} (twenty : bytes.length = 20)
    (twenty' : other.length = 20) (same : canonical bytes = canonical other) : bytes = other := by
  have numbers : Packing.number bytes = Packing.number other := by
    rw [← number_canonical twenty, same, number_canonical twenty']
  rw [← Packing.digits_number bytes, ← Packing.digits_number other, numbers, twenty, twenty']

theorem generateRecoveryCode_eq (twenty : bytes.length = 20) :
    ∃ groups, generateRecoveryCode bytes = some (join groups) ∧ groups.flatten = canonical bytes := by
  have length : (canonical bytes).length = 32 := by simp [canonical]
  have all := flatten_matchFour (canonical bytes) (fun c member => (canonical_kept bytes c member).2)
    (by omega)
  have cut : (canonical bytes).take 32 = canonical bytes := List.take_of_length_le (by omega)
  refine ⟨matchFour (canonical bytes), ?_, all⟩
  rw [generateRecoveryCode, packBytes_out twenty, cut]
  cases found : matchFour (canonical bytes) with
  | nil =>
      rw [found] at all
      simp [← all] at length
  | cons => rfl

/-- A code is all of its bytes, however it is typed. -/
theorem recoveryCode_keeps_entropy (casing : Casing) (bytes : List UInt8)
    (twenty : bytes.length = 20) :
    ∃ shown, generateRecoveryCode bytes = some shown ∧
      (Bits.packBytes symbol 5 bytes).out = canonical bytes ∧
        (∀ other, other.length = 20 → generateRecoveryCode other = some shown → other = bytes) ∧
          ∀ typed, Retyped shown typed → normalizeCode casing typed = canonical bytes := by
  have reads : ∀ b : List UInt8, b.length = 20 → ∀ shown, generateRecoveryCode b = some shown →
      ∀ typed, Retyped shown typed → normalizeCode casing typed = canonical b := by
    intro b length shown generated typed retyped
    obtain ⟨groups, code, flatten⟩ := generateRecoveryCode_eq length
    have isJoin : join groups = shown := Option.some.inj (code.symm.trans generated)
    have kept : ∀ c ∈ groups.flatten, isKept c = true := by
      rw [flatten]
      exact fun c member => (canonical_kept b c member).1
    rw [← isJoin] at retyped
    rw [normalizeCode_retyped casing (join_plain groups kept) retyped, filter_join,
      List.filter_eq_self.mpr kept, flatten]
  obtain ⟨groups, generated, -⟩ := generateRecoveryCode_eq twenty
  refine ⟨join groups, generated, packBytes_out twenty, ?_, reads bytes twenty _ generated⟩
  intro other twenty' same
  have first := reads other twenty' _ same _ (Retyped.refl _)
  have second := reads bytes twenty _ generated _ (Retyped.refl _)
  exact canonical_injective twenty' twenty (first.symm.trans second)

def mixed : List UInt8 :=
  [0xFF, 0x80, 0xC3, 0x7E, 0xA5, 0x5A, 0xE7, 0x18, 0x99, 0x66, 0xF0, 0x0F, 0xD2, 0x2D, 0xBB, 0x44,
    0xEE, 0x11, 0x81, 0xFE]

/-- The last bytes are written when the buffer has long lost the first. -/
theorem recoveryCode_keeps_entropy_mixed :
    ∃ shown, generateRecoveryCode mixed = some shown ∧
      (Bits.packBytes symbol 5 mixed).out = canonical mixed ∧
        (∀ other, other.length = 20 → generateRecoveryCode other = some shown → other = mixed) ∧
          ∀ typed, Retyped shown typed → normalizeCode Casing.latin typed = canonical mixed :=
  recoveryCode_keeps_entropy Casing.latin mixed (by decide)

end Codes

end RecoveryCode
