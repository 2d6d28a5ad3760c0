import CipherChat.Crypto.HmacSha1
import CipherChat.Rooms.Messages
import CipherChat.Text.Packing

/-!
`auth/Totp.java`: the secrets in base 32, and the codes of a secret.
-/

namespace Totp

open Rooms (JavaString Instant)
open Packing (Bits Packed)

def ALPHABET : JavaString :=
  "ABCDEFGHIJKLMNOPQRSTUVWXYZ234567".toList.map fun c => UInt16.ofNat c.toNat

/-- `ALPHABET.charAt`, within the alphabet. -/
def charAt (index : Nat) : UInt16 :=
  ALPHABET.getD index 0

/-- `ALPHABET.indexOf`, without the -1. -/
def indexOf (c : UInt16) : Option Nat :=
  ALPHABET.idxOf? c

/-- The upper case of the default locale leaves alone what has no lower case. -/
structure Locale where
  toUpperCase : JavaString → JavaString
  keeps : ∀ text : JavaString,
    (∀ c ∈ text, c.toNat < 128 ∧ ¬(97 ≤ c.toNat ∧ c.toNat ≤ 122)) → toUpperCase text = text

/-- A locale whose upper case is that of ASCII. -/
def Locale.root : Locale where
  toUpperCase text := text.map fun c => if 97 ≤ c.toNat ∧ c.toNat ≤ 122 then c - 32 else c
  keeps text plain :=
    (List.map_congr_left fun c member => if_neg (plain c member).2).trans (List.map_id' text)

inductive Failure
  | illegalArgument (message : String)
  | bufferOverflow
  deriving DecidableEq

def base32Encode (data : List UInt8) : JavaString :=
  let s := Bits.packBytes charAt 5 data
  if 0 < s.bits then s.out ++ [charAt ((s.buffer <<< (5 - s.bits)) &&& 31#32).toNat] else s.out

/-- One character; `put` fails at the end of the buffer. -/
def decodeChar (capacity : Nat) (s : Bits UInt8) (c : UInt16) : Except Failure (Bits UInt8) :=
  match indexOf c with
  | none => .error (.illegalArgument "Invalid base32")
  | some val =>
      let s := s.push 5 val
      if 8 ≤ s.bits then
        if s.out.length < capacity then .ok (s.emit UInt8.ofNat 8) else .error .bufferOverflow
      else .ok s

/-- `clean.length() * 5 / 8` in 32 bits. -/
def capacity (length : Nat) : Int :=
  ((BitVec.ofNat 32 length * 5#32).sdiv 8#32).toInt

def base32Decode (locale : Locale) (s : JavaString) : Except Failure (List UInt8) := do
  let clean := ((locale.toUpperCase s).filter (· ≠ 0x3D)).filter (· ≠ 0x20)
  if capacity clean.length < 0 then throw (.illegalArgument "capacity < 0")
  else
    let s ← clean.foldlM (decodeChar (capacity clean.length).toNat) Bits.empty
    return s.out

def STEP_SECONDS : Int :=
  30

/-- `String.format("%06d", otp)`. -/
def format (otp : Nat) : JavaString :=
  (Radix.digits 10 6 otp).map fun digit => UInt16.ofNat (48 + digit)

/-- The sign bit of `binary` is clear. -/
def truncate (hash : List UInt8) : Nat :=
  let part := fun i => BitVec.ofNat 32 (hash.getD i 0).toNat
  let offset := (part (hash.length - 1) &&& 0x0F#32).toNat
  let binary := ((part offset &&& 0x7F#32) <<< 24) ||| (part (offset + 1) <<< 16) |||
    (part (offset + 2) <<< 8) ||| part (offset + 3)
  binary.toNat % 1000000

/-- There is no key of no bytes. -/
def code (locale : Locale) (secret : JavaString) (timeStep : Int) : Except Failure JavaString := do
  let key ← base32Decode locale secret
  if key = [] then throw (.illegalArgument "Empty key")
  else
    let hash := HmacSha1.hmac key (HmacSha1.bytesOf 8 (BitVec.ofInt 64 timeStep).toNat)
    return format (truncate hash)

/-- `code.matches("\\d{6}")`. -/
def isCode (code : JavaString) : Bool :=
  code.length = 6 && code.all fun c => 48 ≤ c.toNat && c.toNat ≤ 57

def constantTimeEquals (a b : JavaString) : Bool :=
  if a.length ≠ b.length then false
  else (a.zip b).foldl (fun diff pair => diff ||| (pair.1 ^^^ pair.2)) 0 = 0

/-- The steps whose codes are accepted. -/
def window (now : Instant) : List Int :=
  let step := now.tdiv STEP_SECONDS
  [step - 1, step, step + 1]

/-- The loop of `verify`. -/
def verifySteps (locale : Locale) (secret presented : JavaString) :
    List Int → Except Failure Bool
  | [] => return false
  | s :: later => do
      if constantTimeEquals (← code locale secret s) presented then return true
      else verifySteps locale secret presented later

def verify (locale : Locale) (secret presented : JavaString) (now : Instant) :
    Except Failure Bool :=
  if !isCode presented then return false
  else verifySteps locale secret presented (window now)

/-- The secret `12345678901234567890` in the second step. -/
example : code Locale.root ("GEZDGNBVGY3TQOJQGEZDGNBVGY3TQOJQ".toList.map fun c =>
    UInt16.ofNat c.toNat) 1 = .ok (format 287082) := by
  decide +kernel

theorem charAt_plain (index : Nat) (inside : index < 32) :
    (charAt index).toNat < 128 ∧ ¬(97 ≤ (charAt index).toNat ∧ (charAt index).toNat ≤ 122) ∧
      charAt index ≠ 0x3D ∧ charAt index ≠ 0x20 := by
  revert index
  decide

theorem indexOf_charAt (index : Nat) (inside : index < 32) : indexOf (charAt index) = some index := by
  revert index
  decide

/-- The bits that fill the last character. -/
def padding (length : Nat) : Nat :=
  (5 - 8 * length % 5) % 5

/-- The text is the number of the bytes, filled up to whole characters, in base 32. -/
theorem base32Encode_eq (data : List UInt8) :
    base32Encode data = (Radix.digits (2 ^ 5) ((8 * data.length + padding data.length) / 5)
      (Packing.number data * 2 ^ padding data.length)).map charAt := by
  obtain ⟨packed, waiting⟩ := Packing.packed_bytes charAt 5 (by omega) data
  rw [base32Encode]
  generalize Bits.packBytes charAt 5 data = s at packed waiting
  have balance := packed.balance
  by_cases more : 0 < s.bits
  · have fill : padding data.length = 5 - s.bits := by
      rw [padding]
      omega
    have last : ((s.buffer <<< (5 - s.bits)) &&& 31#32).toNat = (s.push (5 - s.bits) 0).next 5 := by
      have start : s.bits + (5 - s.bits) - 5 = 0 := by omega
      simp [Packing.Bits.next, Packing.Bits.push, start]
    have filled := packed.push (5 - s.bits) 0 (Nat.two_pow_pos _)
    have written := (filled.emit (by rw [Packing.Bits.bits_push]; omega)
      (by rw [Packing.Bits.bits_push]; omega)).whole (by simp; omega) (by omega)
    simp only [if_pos more, last, fill]
    exact written
  · have none : s.bits = 0 := by omega
    have fill : padding data.length = 0 := by
      rw [padding]
      omega
    simp only [if_neg more, fill, Nat.add_zero, pow_zero, Nat.mul_one]
    exact packed.whole none (by omega)

theorem decodeChar_charAt (room : Nat) (s : Bits UInt8) {val : Nat} (inside : val < 2 ^ 5) :
    decodeChar room s (charAt val) =
      if 8 ≤ s.bits + 5 then
        if s.out.length < room then .ok ((s.push 5 val).emit UInt8.ofNat 8)
        else .error .bufferOverflow
      else .ok (s.push 5 val) := by
  rw [decodeChar, indexOf_charAt val inside]
  rfl

/-- Of characters of the alphabet all are taken, and no byte is put beyond the buffer. -/
theorem decodeChars (room : Nat) (vals : List Nat) (inside : ∀ val ∈ vals, val < 2 ^ 5)
    (fits : 5 * vals.length / 8 ≤ room) :
    ∃ s, (vals.map charAt).foldlM (decodeChar room) Bits.empty = .ok s ∧
      Packed UInt8.ofNat 8 (5 * vals.length) (Radix.value (2 ^ 5) vals) s ∧ s.bits < 8 := by
  induction vals using List.reverseRecOn with
  | nil => exact ⟨Bits.empty, rfl, Packing.packed_empty, by decide⟩
  | append_singleton vals val ih =>
      rw [List.length_append, List.length_singleton] at fits
      obtain ⟨s, decoded, packed, waiting⟩ :=
        ih (fun other member => inside other (by simp [member])) (by omega)
      have small := inside val (by simp)
      have pushed := packed.push 5 val small
      have balance := packed.balance
      have step : ((vals ++ [val]).map charAt).foldlM (decodeChar room) Bits.empty =
          decodeChar room s (charAt val) := by
        rw [List.map_append, List.foldlM_append, decoded]
        exact bind_pure (decodeChar room s (charAt val))
      rw [step, decodeChar_charAt room s small, List.length_append, List.length_singleton,
        Radix.value_concat, Nat.mul_add]
      by_cases full : 8 ≤ s.bits + 5
      · rw [if_pos full, if_pos (by omega)]
        refine ⟨_, rfl, pushed.emit full ?_, ?_⟩
        · rw [Packing.Bits.bits_push]
          omega
        · rw [Packing.Bits.bits_emit, Packing.Bits.bits_push]
          omega
      · rw [if_neg full]
        refine ⟨_, rfl, pushed, ?_⟩
        rw [Packing.Bits.bits_push]
        omega

/-- The product stays below 2³¹. -/
theorem capacity_eq (length : Nat) (short : 5 * length < 2 ^ 31) :
    capacity length = ((5 * length / 8 : Nat) : Int) := by
  have product : (BitVec.ofNat 32 length * 5#32).toNat = 5 * length := by
    rw [BitVec.toNat_mul, BitVec.toNat_ofNat, Nat.mod_mul_mod, Nat.mul_comm, BitVec.toNat_ofNat]
    exact Nat.mod_eq_of_lt (by omega)
  have signed : (BitVec.ofNat 32 length * 5#32).toInt = (5 * length : Nat) := by
    rw [BitVec.toInt_eq_toNat_of_lt (by omega), product]
  rw [capacity, BitVec.toInt_sdiv_of_ne_or_ne _ _ (Or.inr (by decide)), signed]
  exact (Int.ofNat_tdiv (5 * length) 8).symm

/-- The padding makes the number of the bytes one of `count` characters. -/
theorem number_padded (d : List UInt8) {count : Nat}
    (total : 8 * d.length + padding d.length = 5 * count) :
    Packing.number d * 2 ^ padding d.length < (2 ^ 5) ^ count := by
  rw [← pow_mul, ← total, pow_add, Nat.pow_mul]
  exact Nat.mul_lt_mul_of_pos_right (Packing.number_lt d) (Nat.two_pow_pos _)

/-- Nothing of the encoder's text is taken away. -/
theorem clean_charAt (locale : Locale) (vals : List Nat) (inside : ∀ val ∈ vals, val < 2 ^ 5) :
    ((locale.toUpperCase (vals.map charAt)).filter (· ≠ 0x3D)).filter (· ≠ 0x20) =
      vals.map charAt := by
  have plain : ∀ c ∈ vals.map charAt, c.toNat < 128 ∧ ¬(97 ≤ c.toNat ∧ c.toNat ≤ 122) ∧
      c ≠ 0x3D ∧ c ≠ 0x20 := by
    intro c member
    obtain ⟨val, there, rfl⟩ := List.mem_map.mp member
    exact charAt_plain val (inside val there)
  rw [locale.keeps _ fun c member => ⟨(plain c member).1, (plain c member).2.1⟩, List.filter_filter]
  apply List.filter_eq_self.mpr
  intro c member
  simp [plain c member]

/-- The decoder reads the encoder's text back. -/
theorem base32Decode_base32Encode (locale : Locale) (d : List UInt8) (bounded : d.length ≤ 2 ^ 27) :
    base32Decode locale (base32Encode d) = .ok d := by
  obtain ⟨count, total⟩ : 5 ∣ 8 * d.length + padding d.length := by
    rw [padding]
    omega
  have fill : padding d.length < 5 := Nat.mod_lt _ (by omega)
  have text := base32Encode_eq d
  rw [total, Nat.mul_div_cancel_left count (by omega)] at text
  have whole := number_padded d total
  have value := Radix.value_digits (2 ^ 5) count (Packing.number d * 2 ^ padding d.length)
  have length := Radix.length_digits (2 ^ 5) count (Packing.number d * 2 ^ padding d.length)
  have inside := Radix.digits_lt (Nat.two_pow_pos 5) count
    (Packing.number d * 2 ^ padding d.length)
  rw [Nat.mod_eq_of_lt whole] at value
  rw [text]
  generalize Radix.digits (2 ^ 5) count (Packing.number d * 2 ^ padding d.length) = vals at *
  obtain ⟨s, decoded, packed, waiting⟩ := decodeChars (5 * count / 8) vals inside (by rw [length])
  have room : capacity (vals.map charAt).length = ((5 * count / 8 : Nat) : Int) := by
    rw [List.length_map, length]
    exact capacity_eq count (by omega)
  have bytes : s.out = d := by
    have balance := packed.balance
    have rest : s.bits = padding d.length := by omega
    have number : Radix.value (2 ^ 5) vals / 2 ^ s.bits = Packing.number d := by
      rw [value, rest, Nat.mul_div_cancel _ (Nat.two_pow_pos _)]
    have size : s.out.length = d.length := by omega
    rw [packed.written, number, size]
    exact Packing.digits_number d
  simp only [base32Decode, clean_charAt locale vals inside, room, Int.toNat_natCast]
  rw [if_neg (by omega), decoded]
  exact congrArg Except.ok bytes

/-- The buffer is negative after the fourth byte. -/
theorem base32Decode_base32Encode_root :
    base32Decode Locale.root (base32Encode [0xFF, 0x80, 0x00, 0xFF, 0xAA, 0x01]) =
      .ok [0xFF, 0x80, 0x00, 0xFF, 0xAA, 0x01] :=
  base32Decode_base32Encode Locale.root _ (by decide)

theorem foldl_differences (pairs : List (UInt16 × UInt16)) (diff : UInt16) :
    pairs.foldl (fun diff pair => diff ||| (pair.1 ^^^ pair.2)) diff = 0 ↔
      diff = 0 ∧ ∀ pair ∈ pairs, pair.1 = pair.2 := by
  induction pairs generalizing diff with
  | nil => simp
  | cons pair rest ih =>
      rw [List.foldl_cons, ih, UInt16.or_eq_zero_iff, UInt16.xor_eq_zero_iff, List.forall_mem_cons,
        and_assoc]

theorem constantTimeEquals_iff (a b : JavaString) : constantTimeEquals a b = true ↔ a = b := by
  by_cases lengths : a.length = b.length
  · rw [constantTimeEquals, if_neg (not_not.mpr lengths), decide_eq_true_eq, foldl_differences]
    constructor
    · intro equal
      apply List.ext_getElem lengths
      intro i first second
      exact equal.2 (a[i], b[i]) (List.mem_iff_getElem.mpr ⟨i, by simp; omega, by simp⟩)
    · rintro rfl
      refine ⟨rfl, fun pair member => ?_⟩
      obtain ⟨i, inside, isPair⟩ := List.mem_iff_getElem.mp member
      rw [← isPair, List.getElem_zip]
  · rw [constantTimeEquals, if_pos lengths]
    exact iff_of_false Bool.false_ne_true fun same => lengths (congrArg List.length same)

theorem verifySteps_ok {locale : Locale} {secret presented : JavaString} {steps : List Int}
    (accepted : verifySteps locale secret presented steps = .ok true) :
    ∃ step ∈ steps, code locale secret step = .ok presented := by
  induction steps with
  | nil => cases accepted
  | cons s later ih =>
      rw [verifySteps] at accepted
      cases found : code locale secret s with
      | error failure =>
          rw [found] at accepted
          cases accepted
      | ok text =>
          by_cases equal : constantTimeEquals text presented = true
          · exact ⟨s, List.mem_cons_self, found.trans
              (congrArg Except.ok ((constantTimeEquals_iff _ _).mp equal))⟩
          · have rest : verifySteps locale secret presented later = .ok true := by
              rw [found] at accepted
              exact (if_neg equal).symm.trans accepted
            obtain ⟨step, member, isCode⟩ := ih rest
            exact ⟨step, List.mem_cons_of_mem s member, isCode⟩

/-- A code that is accepted is that of a step around the time. -/
theorem verify_ok {locale : Locale} {secret presented : JavaString} {now : Instant}
    (accepted : verify locale secret presented now = .ok true) :
    ∃ step ∈ window now, code locale secret step = .ok presented := by
  rw [verify] at accepted
  split at accepted
  · cases accepted
  · exact verifySteps_ok accepted

theorem isCode_format (otp : Nat) : isCode (format otp) = true := by
  rw [isCode, Bool.and_eq_true]
  constructor
  · rw [format, List.length_map, Radix.length_digits]
    rfl
  · rw [List.all_eq_true]
    intro c member
    obtain ⟨digit, inDigits, rfl⟩ := List.mem_map.mp member
    have small : digit < 10 := Radix.digits_lt (by omega) 6 otp digit inDigits
    have plain : (UInt16.ofNat (48 + digit)).toNat = 48 + digit := by
      rw [UInt16.toNat_ofNat']
      omega
    rw [plain, Bool.and_eq_true, decide_eq_true_eq, decide_eq_true_eq]
    omega

/-- A secret that has a code of one step has one of each. -/
theorem code_all {locale : Locale} {secret presented : JavaString} {step : Int}
    (isCode : code locale secret step = .ok presented) (other : Int) :
    ∃ otp, code locale secret other = .ok (format otp) := by
  rw [code] at isCode ⊢
  cases decoded : base32Decode locale secret with
  | error failure =>
      rw [decoded] at isCode
      cases isCode
  | ok key =>
      rw [decoded] at isCode
      by_cases empty : key = []
      · subst empty
        cases isCode
      · exact ⟨_, if_neg empty⟩

theorem verifySteps_of_code {locale : Locale} {secret presented : JavaString} {steps : List Int}
    {step : Int} (member : step ∈ steps) (isCode : code locale secret step = .ok presented) :
    verifySteps locale secret presented steps = .ok true := by
  induction steps with
  | nil => cases member
  | cons first later ih =>
      obtain ⟨otp, isFirst⟩ := code_all isCode first
      rw [verifySteps, isFirst]
      by_cases equal : constantTimeEquals (format otp) presented = true
      · exact if_pos equal
      · refine (if_neg equal).trans (ih ?_)
        rcases List.mem_cons.mp member with rfl | old
        · rw [isFirst] at isCode
          exact absurd ((constantTimeEquals_iff _ _).mpr (Except.ok.inj isCode)) equal
        · exact old

/-- Every code of a step around the time is accepted. -/
theorem verify_of_code {locale : Locale} {secret presented : JavaString} {now : Instant} {step : Int}
    (inside : step ∈ window now) (isStep : code locale secret step = .ok presented) :
    verify locale secret presented now = .ok true := by
  obtain ⟨otp, isText⟩ := code_all isStep step
  rw [isStep] at isText
  rw [verify, Except.ok.inj isText, isCode_format, ← Except.ok.inj isText]
  exact verifySteps_of_code inside isStep

end Totp
