import CipherChat.Dm.Service
import CipherChat.Text.Radix

/-!
The two users of a conversation, in the order of the constraint `conversations_pair_ordered`.
-/

namespace Dm

open Rooms (UUID JavaString)

def hexDigit (digit : Nat) : UInt16 :=
  if digit < 10 then UInt16.ofNat (48 + digit) else UInt16.ofNat (87 + digit)

/-- The last hexadecimal digits of a number, in lower case. -/
def hexDigits (width n : Nat) : JavaString :=
  (Radix.digits 16 width n).map hexDigit

def dash : JavaString := [0x2D]

/-- `UUID.toString`: five groups of digits. -/
def uuidToString (id : UUID) : JavaString :=
  hexDigits 8 (id.toNat >>> 96) ++ (dash ++ (hexDigits 4 (id.toNat >>> 80) ++
    (dash ++ (hexDigits 4 (id.toNat >>> 64) ++ (dash ++ (hexDigits 4 (id.toNat >>> 48) ++
      (dash ++ hexDigits 12 id.toNat)))))))

/-- `String.compareTo`. -/
def compareTo (a b : JavaString) : Int :=
  Radix.difference UInt16.toNat a b

/-- The sixteen bytes of the column. -/
def uuidBytes (id : UUID) : List UInt8 :=
  (Radix.digits 256 16 id.toNat).map UInt8.ofNat

/-- `memcmp`: the order of the column's type. -/
def memcmp (a b : List UInt8) : Int :=
  Radix.difference UInt8.toNat a b

namespace Conversation

def compareUnsigned (a b : UUID) : Int :=
  compareTo (uuidToString a) (uuidToString b)

/-- `id` is the one that the row is given. -/
def between (id a b : UUID) : Conversation :=
  let cmp := compareUnsigned a b
  { id
    userLow := if cmp < 0 then a else b
    userHigh := if cmp < 0 then b else a }

/-- `CHECK (user_low < user_high)`. -/
def PairOrdered (c : Conversation) : Prop :=
  memcmp (uuidBytes c.userLow) (uuidBytes c.userHigh) < 0

instance (c : Conversation) : Decidable c.PairOrdered :=
  inferInstanceAs (Decidable (_ < _))

end Conversation

theorem hexDigit_lt (m : Nat) (mSmall : m < 16) (n : Nat) (nSmall : n < 16) :
    (hexDigit m).toNat < (hexDigit n).toNat ↔ m < n := by
  have value : ∀ k < 16, (hexDigit k).toNat = if k < 10 then 48 + k else 87 + k := by decide
  rw [value m mSmall, value n nSmall]
  split <;> split <;> omega

/-- A group decides unless the two have the same digits there. -/
theorem compareTo_group (width m n : Nat) (left right : JavaString) :
    (compareTo (hexDigits width m ++ left) (hexDigits width n ++ right) < 0 ↔
      m % 16 ^ width < n % 16 ^ width ∨
        m % 16 ^ width = n % 16 ^ width ∧ compareTo left right < 0) := by
  have group := Radix.difference_digits UInt16.toNat (by omega) hexDigit hexDigit_lt width m n
  change (Radix.difference _ (hexDigits width m) (hexDigits width n) < 0 ↔ _) ∧
    (Radix.difference _ (hexDigits width m) (hexDigits width n) = 0 ↔ _) at group
  have lengths : (hexDigits width m).length = (hexDigits width n).length := by simp [hexDigits]
  simp only [compareTo, Radix.difference_append UInt16.toNat lengths]
  by_cases same : m % 16 ^ width = n % 16 ^ width
  · rw [if_pos (group.2.mpr same)]
    omega
  · rw [if_neg (mt group.2.mp same)]
    exact group.1.trans ⟨Or.inl, fun either => either.resolve_right fun both => same both.1⟩

theorem compareTo_dash (left right : JavaString) :
    compareTo (dash ++ left) (dash ++ right) = compareTo left right := by
  simp only [compareTo, Radix.difference_append UInt16.toNat rfl, Radix.difference_self, if_true]

/-- The text of an id sorts as the number that it shows. -/
theorem compareUnsigned_lt (a b : UUID) : Conversation.compareUnsigned a b < 0 ↔ a.toNat < b.toNat := by
  have last : ∀ m n, compareTo (hexDigits 12 m) (hexDigits 12 n) < 0 ↔ m % 16 ^ 12 < n % 16 ^ 12 := by
    intro m n
    simpa [compareTo, Radix.difference] using compareTo_group 12 m n [] []
  rw [Conversation.compareUnsigned, uuidToString, uuidToString, compareTo_group, compareTo_dash,
    compareTo_group, compareTo_dash, compareTo_group, compareTo_dash, compareTo_group,
    compareTo_dash, last]
  simp only [Nat.shiftRight_eq_div_pow]
  have whole : ∀ id : UUID, id.toNat % (16 ^ 8 * 2 ^ 96) = id.toNat := fun id =>
    Nat.mod_eq_of_lt id.isLt
  calc _ ↔ _ := or_congr_right (and_congr_right fun _ => or_congr_right (and_congr_right fun _ =>
        or_congr_right (and_congr_right fun _ =>
          Radix.mod_lt_mod_iff (2 ^ 48) (by omega) (16 ^ 4) a.toNat b.toNat)))
    _ ↔ _ := or_congr_right (and_congr_right fun _ => or_congr_right (and_congr_right fun _ =>
        Radix.mod_lt_mod_iff (2 ^ 64) (by omega) (16 ^ 4) a.toNat b.toNat))
    _ ↔ _ := or_congr_right (and_congr_right fun _ =>
        Radix.mod_lt_mod_iff (2 ^ 80) (by omega) (16 ^ 4) a.toNat b.toNat)
    _ ↔ _ := Radix.mod_lt_mod_iff (2 ^ 96) (by omega) (16 ^ 8) a.toNat b.toNat
    _ ↔ _ := by rw [whole, whole]

/-- The bytes of an id sort as the number that they make. -/
theorem memcmp_lt (a b : UUID) : memcmp (uuidBytes a) (uuidBytes b) < 0 ↔ a.toNat < b.toNat := by
  have order : ∀ m < 256, ∀ n < 256, (UInt8.ofNat m).toNat < (UInt8.ofNat n).toNat ↔ m < n := by
    intro m mSmall n nSmall
    simp [Nat.mod_eq_of_lt, mSmall, nSmall]
  have bytes := Radix.difference_digits UInt8.toNat (by omega) UInt8.ofNat order 16 a.toNat b.toNat
  have aSmall := a.isLt
  have bSmall := b.isLt
  simp only [memcmp, uuidBytes, bytes.1]
  omega

namespace Conversation

theorem between_of_lt (id : UUID) {a b : UUID} (less : a.toNat < b.toNat) :
    between id a b = ⟨id, a, b⟩ ∧ between id b a = ⟨id, a, b⟩ := by
  have first := (compareUnsigned_lt a b).mpr less
  have second := mt (compareUnsigned_lt b a).mp (by omega)
  simp [between, first, second]

/-- Whoever starts it, a conversation has one pair, and the database takes it. -/
theorem between_canonical (id a b : UUID) (different : a ≠ b) :
    between id a b = between id b a ∧ (between id a b).PairOrdered ∧
      (between id a b).userLow < (between id a b).userHigh ∧
        (between id a b = ⟨id, a, b⟩ ∨ between id a b = ⟨id, b, a⟩) := by
  have apart : a.toNat ≠ b.toNat := fun same => different (BitVec.eq_of_toNat_eq same)
  rcases Nat.lt_or_gt_of_ne apart with less | less
  · have pair := between_of_lt id less
    rw [pair.1, pair.2]
    exact ⟨rfl, (memcmp_lt a b).mpr less, less, Or.inl rfl⟩
  · have pair := between_of_lt id less
    rw [pair.1, pair.2]
    exact ⟨rfl, (memcmp_lt b a).mpr less, less, Or.inr rfl⟩

/-- An id whose first bit is set comes after one whose first bit is not. -/
theorem between_canonical_signed :
    let a : UUID := 0x80000000000000000000000000000000#128
    let b : UUID := 0x7FFFFFFFFFFFFFFF8000000000000000#128
    between 0 a b = between 0 b a ∧ (between 0 a b).PairOrdered ∧
      (between 0 a b).userLow < (between 0 a b).userHigh ∧
        (between 0 a b = ⟨0, a, b⟩ ∨ between 0 a b = ⟨0, b, a⟩) :=
  between_canonical 0 _ _ (by decide)

end Conversation

end Dm
