import CipherChat.Dm.Storage
import Mathlib.Algebra.Order.BigOperators.Group.List

/-!
How strict `EnvelopeValidator.validate` is: what an envelope can be that it lets through.
-/

namespace Dm

open Rooms (JavaString JavaError)

/-! The text of an envelope, as Jackson writes it -/

def writeChar (unit : UInt16) : JavaString :=
  if unit = 0x22 then [0x5C, 0x22]
  else if unit = 0x5C then [0x5C, 0x5C]
  else if unit = 0x08 then [0x5C, 0x62]
  else if unit = 0x09 then [0x5C, 0x74]
  else if unit = 0x0A then [0x5C, 0x6E]
  else if unit = 0x0C then [0x5C, 0x66]
  else if unit = 0x0D then [0x5C, 0x72]
  else if unit < 0x20 then
    let low := unit % 16
    [0x5C, 0x75, 0x30, 0x30, 0x30 + unit / 16, if low < 10 then 0x30 + low else 0x37 + low]
  else [unit]

def writeString (text : JavaString) : JavaString :=
  0x22 :: (text.flatMap writeChar ++ [0x22])

def digitText (n : Nat) : JavaString :=
  (Nat.toDigits 10 n).map fun c => UInt16.ofNat c.toNat

def writeInteger (n : Int) : JavaString :=
  if n < 0 then 0x2D :: digitText n.natAbs else digitText n.natAbs

section Writing

-- `Double.toString`
variable (writeDouble : Rat → JavaString)

def JsonNumber.write : JsonNumber → JavaString
  | .integer n => writeInteger n
  | .double x => writeDouble x

mutual

def Json.write : Json → JavaString
  | .null => Utf.ofString "null"
  | .bool true => Utf.ofString "true"
  | .bool false => Utf.ofString "false"
  | .number n => n.write writeDouble
  | .string text => writeString text
  | .array values => 0x5B :: (writeAll values ++ [0x5D])
  | .object fields => 0x7B :: (writeFields fields ++ [0x7D])

def writeAll : List Json → JavaString
  | [] => []
  | [value] => value.write
  | value :: next :: rest => value.write ++ 0x2C :: writeAll (next :: rest)

def writeFields : List (String × Json) → JavaString
  | [] => []
  | [(name, value)] => writeString (Utf.ofString name) ++ 0x3A :: value.write
  | (name, value) :: next :: rest =>
      writeString (Utf.ofString name) ++ 0x3A :: (value.write ++ 0x2C :: writeFields (next :: rest))

end

/-- How many bytes an envelope has in UTF-8. -/
def serialisedSize (e : JsonMap) : Nat :=
  (Utf.encode ((Json.object e).write writeDouble)).length

end Writing

mutual

/-- Where the fields of a value are, at every level. -/
def Json.paths : Json → List (List String)
  | .array values => pathsAll values
  | .object fields => pathsFields fields
  | _ => []

def pathsAll : List Json → List (List String)
  | [] => []
  | value :: rest => value.paths ++ pathsAll rest

def pathsFields : List (String × Json) → List (List String)
  | [] => []
  | (name, value) :: rest => [name] :: (value.paths.map (name :: ·) ++ pathsFields rest)

end

mutual

/-- What Jackson reads: a map has a key once, and no number has more than a thousand digits. -/
def Json.readable : Json → Bool
  | .number (.integer n) => (Nat.toDigits 10 n.natAbs).length ≤ 1000
  | .array values => readableAll values
  | .object fields => (fields.map Prod.fst).Nodup && readableFields fields
  | _ => true

def readableAll : List Json → Bool
  | [] => true
  | value :: rest => value.readable && readableAll rest

def readableFields : List (String × Json) → Bool
  | [] => true
  | (_, value) :: rest => value.readable && readableFields rest

end

def JsonNumber.value : JsonNumber → Rat
  | .integer n => n
  | .double x => x

/-- A whole number up to a thousand million. -/
def IsCounter (value : Json) : Prop :=
  ∃ (n : JsonNumber) (k : Int), value = .number n ∧ n.value = k ∧ 0 ≤ k ∧ k ≤ 1000000000

def IsVersion (k : Int) (value : Json) : Prop :=
  ∃ n : JsonNumber, value = .number n ∧ n.value = k

/-- The fields of each version. -/
def listed (ratchet : Bool) : List (List String) :=
  [["v"], ["sessionId"], ["ctr"], ["ct"], ["init"], ["init", "ephPub"], ["init", "ik"],
    ["init", "spkId"]] ++ if ratchet then [["dh"], ["pn"], ["n"]] else []

/-- The longest text of a field, with its name and what stands between it and the next. -/
def fieldLimit (name : String) : Nat :=
  if name = "sessionId" then 13 + 386
  else if name = "ct" then 6 + 21851
  else if name = "init" then 8 + 1124
  else if name = "spkId" then 9 + 1001
  else if name = "ephPub" ∨ name = "ik" ∨ name = "dh" then 10 + 46
  else 7 + 32

def names : List String :=
  ["v", "sessionId", "ctr", "ct", "init", "dh", "pn", "n"]

/-- No character has more than three bytes. -/
def LIMIT : Nat :=
  3 * (2 + (names.map fieldLimit).sum)

structure Strict (writeDouble : Rat → JavaString) (e : JsonMap) : Prop where
  version : IsVersion 1 (get e "v") ∨ IsVersion 2 (get e "v")
  counter : IsCounter (get e "ctr")
  header : IsVersion 2 (get e "v") → IsCounter (get e "pn") ∧ IsCounter (get e "n")
  size : serialisedSize writeDouble e ≤ LIMIT
  fields : ∀ path ∈ pathsFields e,
    path ∈ listed false ∨ IsVersion 2 (get e "v") ∧ path ∈ listed true
  castable : (storedCounter e).isSome = true

/-- Narrowing to so many bits changes nothing. -/
def JsonNumber.Exact (n : JsonNumber) (bits : Nat) : Prop :=
  (n.narrow bits : Rat) = n.value

/-- Jackson writes it without a decimal point. -/
def JsonNumber.Whole : JsonNumber → Prop
  | .integer _ => True
  | .double x => 10 ^ 7 ≤ |x|

/-- Nothing that the checks cannot see. -/
structure Plainly (e : JsonMap) : Prop where
  version : ∀ n, get e "v" = .number n → n.Exact 32
  counter : ∀ n, get e "ctr" = .number n → n.Exact 64 ∧ n.Whole
  header : ∀ key ∈ ["pn", "n"], ∀ n, get e key = .number n → n.Exact 64
  init : ∀ m, get e "init" = .object m → ∀ field ∈ m, field.1 ∈ ["ephPub", "ik", "spkId"]

/-! What the checks say -/

def KeyText (value : Json) : Prop :=
  ∃ text, value = .string text ∧ Base64.decodedLength text = some 32

def LongCounter (value : Json) : Prop :=
  ∃ n : JsonNumber, value = .number n ∧ 0 ≤ n.longValue ∧ n.longValue ≤ 1000000000

structure Accepted (e : JsonMap) (ratchet : Bool) : Prop where
  version : ∃ n : JsonNumber, get e "v" = .number n ∧ n.intValue = if ratchet then 2 else 1
  session : ∃ sid, get e "sessionId" = .string sid ∧ sid.length ≤ 64
  counter : LongCounter (get e "ctr")
  ciphertext : ∃ ct size, get e "ct" = .string ct ∧ ct.length ≤ 21849 ∧
    Base64.decodedLength ct = some size
  init : get e "init" = .null ∨ ∃ m, get e "init" = .object m ∧ KeyText (get m "ephPub") ∧
    KeyText (get m "ik") ∧ ∃ n, get m "spkId" = .number n
  header : ratchet = true →
    KeyText (get e "dh") ∧ LongCounter (get e "pn") ∧ LongCounter (get e "n")
  fields : ∀ field ∈ e, EnvelopeValidator.allowed ratchet field.1 = true

section Inversion

open EnvelopeValidator

variable {e : JsonMap}

theorem bind_ok {α β : Type} {check : Check α} {rest : α → Check β} {result : β}
    (ok : check >>= rest = .ok result) : ∃ value, check = .ok value ∧ rest value = .ok result := by
  cases found : check with
  | error e =>
      rw [found] at ok
      cases ok
  | ok value =>
      rw [found] at ok
      exact ⟨value, rfl, ok⟩

theorem not_bad {α : Type} {message : String} {value : α} (ok : (bad message : Check α) = .ok value) :
    False := by
  cases ok

theorem decodedLength_ok {b64 : JavaString} {length : Nat}
    (ok : decodedLength b64 = .ok length) : Base64.decodedLength b64 = some length := by
  unfold decodedLength at ok
  split at ok
  · exact absurd ok not_bad
  · rename_i found
    rw [found, Except.ok.inj ok]

theorem keyText_of_ok {value : Json} {message : String} (ok : key value message = .ok ()) :
    KeyText value := by
  unfold key at ok
  split at ok
  · rename_i text
    obtain ⟨length, decoded, rest⟩ := bind_ok ok
    refine ⟨text, rfl, ?_⟩
    rw [decodedLength_ok decoded]
    by_cases size : length = KEY_BYTES
    · exact congrArg some size
    · rw [if_pos size] at rest
      exact absurd rest not_bad
  · exact absurd ok not_bad

theorem longCounter_of_ok {value : Json} {message : String} (ok : counter value message = .ok ()) :
    LongCounter value := by
  unfold counter at ok
  split at ok
  · rename_i n
    by_cases outside : n.longValue < 0 ∨ 1000000000 < n.longValue
    · rw [if_pos outside] at ok
      exact absurd ok not_bad
    · exact ⟨n, rfl, by omega, by omega⟩
  · exact absurd ok not_bad

theorem version_of_ok {ratchet : Bool} (ok : version e = .ok ratchet) :
    ∃ n : JsonNumber, get e "v" = .number n ∧ n.intValue = if ratchet then 2 else 1 := by
  unfold version at ok
  split at ok
  · rename_i n found
    by_cases other : n.intValue ≠ 1 ∧ n.intValue ≠ 2
    · rw [if_pos other] at ok
      exact absurd ok not_bad
    · rw [if_neg other] at ok
      have isRatchet := Except.ok.inj ok
      refine ⟨n, found, ?_⟩
      rw [← isRatchet]
      by_cases two : n.intValue = 2
      · simp [two]
      · simp only [two, decide_false]
        simp
        omega
  · exact absurd ok not_bad

theorem session_of_ok (ok : session e = .ok ()) :
    ∃ sid, get e "sessionId" = .string sid ∧ sid.length ≤ 64 := by
  unfold session at ok
  split at ok
  · rename_i sid found
    by_cases outside : sid = [] ∨ 64 < sid.length
    · rw [if_pos outside] at ok
      exact absurd ok not_bad
    · exact ⟨sid, found, by omega⟩
  · exact absurd ok not_bad

theorem ciphertext_of_ok (ok : ciphertext e = .ok ()) :
    ∃ ct size, get e "ct" = .string ct ∧ ct.length ≤ 21849 ∧
      Base64.decodedLength ct = some size := by
  unfold ciphertext at ok
  split at ok
  · rename_i ct found
    by_cases outside : ct = [] ∨ MAX_CT_BYTES * 4 / 3 + 4 < ct.length
    · rw [if_pos outside] at ok
      exact absurd ok not_bad
    · rw [if_neg outside] at ok
      obtain ⟨size, decoded, -⟩ := bind_ok ok
      refine ⟨ct, size, found, ?_, decodedLength_ok decoded⟩
      rw [MAX_CT_BYTES] at outside
      omega
  · exact absurd ok not_bad

theorem init_of_ok (ok : init e = .ok ()) :
    get e "init" = .null ∨ ∃ m, get e "init" = .object m ∧ KeyText (get m "ephPub") ∧
      KeyText (get m "ik") ∧ ∃ n, get m "spkId" = .number n := by
  unfold init at ok
  split at ok
  · rename_i none
    exact Or.inl none
  · rename_i m found
    obtain ⟨_, ephPub, ok⟩ := bind_ok ok
    obtain ⟨_, ik, ok⟩ := bind_ok ok
    refine Or.inr ⟨m, found, keyText_of_ok ephPub, keyText_of_ok ik, ?_⟩
    split at ok
    · rename_i n isNumber
      exact ⟨n, isNumber⟩
    · exact absurd ok not_bad
  · exact absurd ok not_bad

theorem fields_of_ok {ratchet : Bool} (ok : fields ratchet e = .ok ()) :
    ∀ field ∈ e, allowed ratchet field.1 = true := by
  unfold fields at ok
  split at ok
  · rename_i none
    intro field member
    simpa using List.find?_eq_none.mp none field member
  · exact absurd ok not_bad

theorem accepted_of_ok (ok : validate e = .ok ()) : ∃ ratchet, Accepted e ratchet := by
  obtain ⟨ratchet, version, ok⟩ := bind_ok ok
  obtain ⟨_, session, ok⟩ := bind_ok ok
  obtain ⟨_, counter, ok⟩ := bind_ok ok
  obtain ⟨_, ciphertext, ok⟩ := bind_ok ok
  obtain ⟨_, init, ok⟩ := bind_ok ok
  have known : (ratchet = true → header e = .ok ()) ∧ fields ratchet e = .ok () := by
    cases ratchet with
    | false => exact ⟨nofun, ok⟩
    | true =>
        obtain ⟨_, header, fields⟩ := bind_ok ok
        exact ⟨fun _ => header, fields⟩
  refine ⟨ratchet, version_of_ok version, session_of_ok session, longCounter_of_ok counter,
    ciphertext_of_ok ciphertext, init_of_ok init, ?_, fields_of_ok known.2⟩
  intro isRatchet
  obtain ⟨_, dh, rest⟩ := bind_ok (known.1 isRatchet)
  obtain ⟨_, pn, n⟩ := bind_ok rest
  exact ⟨keyText_of_ok dh, longCounter_of_ok pn, longCounter_of_ok n⟩

end Inversion

section Numbers

variable {n : JsonNumber} {k : Int}

theorem truncate_intCast (k : Int) : JsonNumber.truncate k = k := by
  rw [JsonNumber.truncate]
  split
  · exact Rat.floor_intCast k
  · exact Rat.ceil_intCast k

theorem value_integer {n : Int} (value : (JsonNumber.integer n).value = k) : n = k := by
  have cast : (n : Rat) = k := value
  exact_mod_cast cast

theorem narrow_eq (bits : Nat) (positive : 0 < bits) (value : n.value = k)
    (low : -2 ^ (bits - 1) ≤ k) (high : k < 2 ^ (bits - 1)) : n.narrow bits = k := by
  cases n with
  | integer n =>
      have same : n = k := value_integer value
      have half : (2 : Int) ^ bits = 2 * 2 ^ (bits - 1) := by
        rw [← pow_succ', Nat.sub_add_cancel positive]
      rw [JsonNumber.narrow, same]
      apply Int.bmod_eq_of_le
      · push_cast
        omega
      · push_cast
        omega
  | double x =>
      have same : x = k := value
      rw [JsonNumber.narrow, same, truncate_intCast]
      omega

theorem exact_of_value (bits : Nat) (positive : 0 < bits) (value : n.value = k)
    (low : -2 ^ (bits - 1) ≤ k) (high : k < 2 ^ (bits - 1)) : n.Exact bits := by
  rw [JsonNumber.Exact, narrow_eq bits positive value low high, value]

theorem exact_of_counter {value : Json} (isCounter : IsCounter value) (isNumber : value = .number n) :
    n.Exact 64 := by
  obtain ⟨n', k, isNumber', isValue, low, high⟩ := isCounter
  rw [isNumber, Json.number.injEq] at isNumber'
  rw [← isNumber'] at isValue
  exact exact_of_value 64 (by omega) isValue (by omega) (by omega)

theorem exact_of_version {value : Json} (small : 0 ≤ k ∧ k ≤ 2) (isVersion : IsVersion k value)
    (isNumber : value = .number n) : n.Exact 32 := by
  obtain ⟨n', isNumber', isValue⟩ := isVersion
  rw [isNumber, Json.number.injEq] at isNumber'
  rw [← isNumber'] at isValue
  exact exact_of_value 32 (by omega) isValue (by omega) (by omega)

theorem isVersion_unique {value : Json} {k' : Int} (one : IsVersion k value)
    (other : IsVersion k' value) : k = k' := by
  obtain ⟨n, isNumber, isValue⟩ := one
  obtain ⟨n', isNumber', isValue'⟩ := other
  rw [isNumber, Json.number.injEq] at isNumber'
  rw [← isNumber', isValue] at isValue'
  exact_mod_cast isValue'

theorem isCounter_of_exact {value : Json} (long : LongCounter value)
    (exact_ : ∀ n, value = .number n → n.Exact 64) : IsCounter value := by
  obtain ⟨n, isNumber, low, high⟩ := long
  exact ⟨n, n.longValue, isNumber, (exact_ n isNumber).symm, low, high⟩

theorem whole_of_castable {e : JsonMap} (castable : (storedCounter e).isSome = true)
    (isNumber : get e "ctr" = .number n) : n.Whole := by
  cases n with
  | integer => exact trivial
  | double x =>
      simp only [storedCounter, isNumber] at castable
      by_contra fraction
      have small : ¬10 ^ 7 ≤ |x| := fraction
      simp [small] at castable

/-- A number of few digits whose text is whole can be cast. -/
theorem castable_of_whole {e : JsonMap} (isCounter : IsCounter (get e "ctr"))
    (whole : ∀ n, get e "ctr" = .number n → n.Whole) : (storedCounter e).isSome = true := by
  obtain ⟨n, k, isNumber, value, low, high⟩ := isCounter
  have big : isBigint k = true := by
    rw [isBigint, Bool.and_eq_true, decide_eq_true_eq, decide_eq_true_eq]
    omega
  rw [storedCounter, isNumber]
  cases n with
  | integer n =>
      have same : n = k := value_integer value
      simp [same, big]
  | double x =>
      have same : x = k := value
      have above : 10 ^ 7 ≤ |x| := whole _ isNumber
      rw [same] at above
      simp [same, above, big]

end Numbers

section Sizes

variable {writeDouble : Rat → JavaString}

theorem length_writeChar_le (unit : UInt16) : (writeChar unit).length ≤ 6 := by
  unfold writeChar
  split_ifs <;> simp

theorem length_writeString_le (text : JavaString) : (writeString text).length ≤ 6 * text.length + 2 := by
  have body : (text.flatMap writeChar).length ≤ 6 * text.length := by
    induction text with
    | nil => simp
    | cons unit rest ih =>
        have first := length_writeChar_le unit
        rw [List.flatMap_cons, List.length_append, List.length_cons]
        omega
  simp only [writeString, List.length_cons, List.length_append, List.length_nil]
  omega

def IsBase64 (unit : UInt16) : Prop :=
  Base64.isCharacter unit = true ∨ unit = 0x3D

theorem writeChar_base64 (unit : UInt16) (base64 : IsBase64 unit) : writeChar unit = [unit] := by
  have range : 0x2B ≤ unit.toNat ∧ unit.toNat ≠ 0x5C := by
    rcases base64 with character | rfl
    · simp only [Base64.isCharacter, Bool.or_eq_true, Bool.and_eq_true, decide_eq_true_eq,
        UInt16.le_iff_toNat_le, ← UInt16.toNat_inj, UInt16.reduceToNat] at character
      omega
    · decide
  simp only [writeChar, ← UInt16.toNat_inj, UInt16.lt_iff_toNat_lt, UInt16.reduceToNat]
  repeat rw [if_neg (by omega)]

theorem length_writeString_base64 (text : JavaString) (base64 : ∀ unit ∈ text, IsBase64 unit) :
    (writeString text).length = text.length + 2 := by
  have body : text.flatMap writeChar = text := by
    induction text with
    | nil => rfl
    | cons unit rest ih =>
        rw [List.flatMap_cons, writeChar_base64 unit (base64 unit (by simp)),
          ih fun other member => base64 other (by simp [member])]
        rfl
  rw [writeString, body]
  simp

/-- Base64 is of its characters and the padding, four for each three bytes. -/
theorem base64_of_decodedLength {text : JavaString} {n : Nat}
    (decoded : Base64.decodedLength text = some n) :
    (∀ unit ∈ text, IsBase64 unit) ∧ text.length ≤ (n + 2) / 3 * 4 := by
  have whole : text.takeWhile Base64.isCharacter ++
      text.drop (text.takeWhile Base64.isCharacter).length = text :=
    List.prefix_iff_eq_append.mp (List.takeWhile_prefix Base64.isCharacter)
  have characters : ∀ unit ∈ text.takeWhile Base64.isCharacter, IsBase64 unit :=
    fun unit member => Or.inl (List.all_eq_true.mp List.all_takeWhile unit member)
  rw [Base64.decodedLength] at decoded
  generalize text.takeWhile Base64.isCharacter = data at *
  generalize text.drop data.length = padding at *
  subst whole
  have joined : ∀ rest : JavaString, (∀ unit ∈ rest, unit = 0x3D) →
      ∀ unit ∈ data ++ rest, IsBase64 unit := by
    intro rest filling unit member
    rcases List.mem_append.mp member with first | last
    · exact characters unit first
    · exact Or.inr (filling unit last)
  split at decoded <;> simp only [Option.some.injEq, reduceCtorEq] at decoded <;>
    refine ⟨joined _ (by simp), ?_⟩ <;>
    simp only [List.length_append, List.length_cons, List.length_nil] <;> omega

/-- So many characters has a key. -/
theorem length_writeString_key {value : Json} (isKey : KeyText value) :
    (value.write writeDouble).length ≤ 46 := by
  obtain ⟨text, rfl, decoded⟩ := isKey
  obtain ⟨base64, few⟩ := base64_of_decodedLength decoded
  rw [Json.write, length_writeString_base64 text base64]
  omega

theorem length_writeInteger {n : Int} {digits : Nat}
    (few : (Nat.toDigits 10 n.natAbs).length ≤ digits) : (writeInteger n).length ≤ digits + 1 := by
  rw [writeInteger]
  split
  · simp only [List.length_cons, digitText, List.length_map]
    omega
  · simp only [digitText, List.length_map]
    omega

theorem length_writeFields_le (limit : String → Nat) (fields : JsonMap)
    (each : ∀ field ∈ fields, (writeString (Utf.ofString field.1)).length +
      (field.2.write writeDouble).length + 2 ≤ limit field.1) :
    (writeFields writeDouble fields).length ≤ (fields.map fun field => limit field.1).sum := by
  induction fields with
  | nil => simp [writeFields]
  | cons field rest ih =>
      have first := each field (by simp)
      have later := ih fun other member => each other (by simp [member])
      rw [List.map_cons, List.sum_cons]
      cases rest with
      | nil =>
          simp only [writeFields, List.length_append, List.length_cons]
          omega
      | cons next rest =>
          simp only [writeFields, List.length_append, List.length_cons]
          omega

/-- A map has no more of the names than there are. -/
theorem sum_names_le (limit : String → Nat) (known : List String) (fields : JsonMap)
    (once : (fields.map Prod.fst).Nodup) (named : ∀ field ∈ fields, field.1 ∈ known) :
    (fields.map fun field => limit field.1).sum ≤ (known.map limit).sum := by
  have sub : fields.map Prod.fst ⊆ known := by
    intro name member
    obtain ⟨field, there, rfl⟩ := List.mem_map.mp member
    exact named field there
  obtain ⟨some, perm, sublist⟩ := List.subperm_of_subset once sub
  calc (fields.map fun field => limit field.1).sum
      = ((fields.map Prod.fst).map limit).sum := by rw [List.map_map]; rfl
    _ = (some.map limit).sum := ((perm.map limit).sum_eq).symm
    _ ≤ (known.map limit).sum := (sublist.map limit).sum_le_sum fun _ _ => Nat.zero_le _

end Sizes

section Bounds

variable {writeDouble : Rat → JavaString} {e : JsonMap} {ratchet : Bool}

theorem get_of_mem (once : (e.map Prod.fst).Nodup) {field : String × Json} (member : field ∈ e) :
    get e field.1 = field.2 := by
  induction e with
  | nil => cases member
  | cons first rest ih =>
      rw [List.map_cons, List.nodup_cons] at once
      rcases List.mem_cons.mp member with rfl | later
      · cases field
        simp [get]
      · have apart : field.1 ≠ first.1 := by
          intro same
          exact once.1 (same ▸ List.mem_map_of_mem later)
        have tail := ih once.2 later
        rw [get, List.lookup_cons] at *
        simp only [beq_eq_false_iff_ne.mpr apart]
        exact tail

theorem mem_of_get {name : String} {value : Json} (found : get e name = value)
    (some : value ≠ .null) : (name, value) ∈ e := by
  induction e with
  | nil =>
      exact absurd found.symm some
  | cons first rest ih =>
      rw [get, List.lookup_cons] at found
      by_cases same : name = first.1
      · simp only [same, beq_self_eq_true, Option.getD_some] at found
        rw [← found, same]
        exact List.mem_cons_self
      · simp only [beq_eq_false_iff_ne.mpr same] at found
        exact List.mem_cons_of_mem first (ih found)

theorem readable_of_mem (readable : readableFields e = true) {field : String × Json}
    (member : field ∈ e) : field.2.readable = true := by
  induction e with
  | nil => cases member
  | cons first rest ih =>
      rw [readableFields, Bool.and_eq_true] at readable
      rcases List.mem_cons.mp member with rfl | later
      · exact readable.1
      · exact ih readable.2 later

theorem readable_object (readable : (Json.object e).readable = true) :
    (e.map Prod.fst).Nodup ∧ readableFields e = true := by
  rw [Json.readable, Bool.and_eq_true, decide_eq_true_eq] at readable
  exact readable

theorem length_write_number (short : ∀ x, (writeDouble x).length ≤ 32) {n : JsonNumber} {k : Int}
    (value : n.value = k) (low : 0 ≤ k) (high : k ≤ 1000000000) :
    ((Json.number n).write writeDouble).length ≤ 32 := by
  rw [Json.write]
  cases n with
  | integer n =>
      have same := value_integer value
      have few : (Nat.toDigits 10 n.natAbs).length ≤ 10 :=
        (Nat.length_toDigits_le_iff (by omega) (by omega)).mpr (by omega)
      exact (length_writeInteger few).trans (by omega)
  | double x => exact short x

theorem length_write_counter (short : ∀ x, (writeDouble x).length ≤ 32) {value : Json}
    (isCounter : IsCounter value) : (value.write writeDouble).length ≤ 32 := by
  obtain ⟨n, k, rfl, isValue, low, high⟩ := isCounter
  exact length_write_number short isValue low high

theorem length_write_readable (short : ∀ x, (writeDouble x).length ≤ 32) {n : JsonNumber}
    (readable : (Json.number n).readable = true) :
    ((Json.number n).write writeDouble).length ≤ 1001 := by
  rw [Json.write]
  cases n with
  | integer n =>
      rw [Json.readable, decide_eq_true_eq] at readable
      exact length_writeInteger readable
  | double x => exact (short x).trans (by omega)

theorem length_names : ∀ name ∈ "ephPub" :: "ik" :: "spkId" :: names,
    (writeString (Utf.ofString name)).length = name.length + 2 := by
  decide

theorem within {name : String} {length most : Nat} (few : length ≤ most)
    (room : name.length + 2 + most + 2 ≤ fieldLimit name) :
    name.length + 2 + length + 2 ≤ fieldLimit name := by
  omega

theorem length_write_init (short : ∀ x, (writeDouble x).length ≤ 32) {m : JsonMap}
    (readable : (Json.object m).readable = true) (ephPub : KeyText (get m "ephPub"))
    (ik : KeyText (get m "ik")) (spkId : ∃ n, get m "spkId" = .number n)
    (named : ∀ field ∈ m, field.1 ∈ ["ephPub", "ik", "spkId"]) :
    ((Json.object m).write writeDouble).length ≤ 1124 := by
  obtain ⟨once, each⟩ := readable_object readable
  have limits : ∀ field ∈ m, (writeString (Utf.ofString field.1)).length +
      (field.2.write writeDouble).length + 2 ≤ fieldLimit field.1 := by
    intro field member
    have value := get_of_mem once member
    have known := named field member
    have text := length_names field.1 (by simp only [List.mem_cons] at known ⊢; tauto)
    simp only [List.mem_cons, List.not_mem_nil, or_false] at known
    rcases known with name | name | name <;> rw [name] at value text ⊢ <;> rw [text, ← value]
    · exact within (length_writeString_key ephPub) (by decide)
    · exact within (length_writeString_key ik) (by decide)
    · obtain ⟨n, isNumber⟩ := spkId
      have digits := length_write_readable short (n := n) (by
        rw [← isNumber, value]
        exact readable_of_mem each member)
      rw [isNumber]
      exact within digits (by decide)
  have whole := (length_writeFields_le fieldLimit m limits).trans
    (sum_names_le fieldLimit _ m once named)
  have total : (["ephPub", "ik", "spkId"].map fieldLimit).sum = 1122 := by decide
  simp only [Json.write, List.length_cons, List.length_append, List.length_nil]
  omega

theorem names_of_allowed {name : String} (allowed : EnvelopeValidator.allowed ratchet name = true) :
    name ∈ names := by
  simp only [EnvelopeValidator.allowed, Bool.or_eq_true, Bool.and_eq_true, decide_eq_true_eq,
    List.mem_cons, List.not_mem_nil, or_false] at allowed
  simp only [names, List.mem_cons, List.not_mem_nil, or_false]
  tauto

theorem header_of_allowed {name : String} (allowed : EnvelopeValidator.allowed ratchet name = true)
    (header : name ∈ ["dh", "pn", "n"]) : ratchet = true := by
  simp only [EnvelopeValidator.allowed, Bool.or_eq_true, Bool.and_eq_true, decide_eq_true_eq] at allowed
  rcases allowed with common | both
  · simp only [List.mem_cons, List.not_mem_nil, or_false] at common header
    rcases header with rfl | rfl | rfl <;> simp at common
  · exact both.1

/-- The version that is checked is the one that is there. -/
theorem version_value (accepted : Accepted e ratchet)
    (fits : ∀ n, get e "v" = .number n → n.Exact 32) :
    IsVersion (if ratchet then 2 else 1) (get e "v") := by
  obtain ⟨n, isNumber, value⟩ := accepted.version
  refine ⟨n, isNumber, ?_⟩
  rw [← value]
  exact (fits n isNumber).symm

theorem counter_value (accepted : Accepted e ratchet) (plainly : Plainly e) :
    IsCounter (get e "ctr") :=
  isCounter_of_exact accepted.counter fun n isNumber => (plainly.counter n isNumber).1

theorem header_value (accepted : Accepted e ratchet) (plainly : Plainly e) (isRatchet : ratchet = true) :
    IsCounter (get e "pn") ∧ IsCounter (get e "n") :=
  ⟨isCounter_of_exact (accepted.header isRatchet).2.1 (plainly.header "pn" (by simp)),
    isCounter_of_exact (accepted.header isRatchet).2.2 (plainly.header "n" (by simp))⟩

theorem length_write_value (short : ∀ x, (writeDouble x).length ≤ 32) (accepted : Accepted e ratchet)
    (plainly : Plainly e) (readable : (Json.object e).readable = true) {field : String × Json}
    (member : field ∈ e) : (writeString (Utf.ofString field.1)).length +
      (field.2.write writeDouble).length + 2 ≤ fieldLimit field.1 := by
  obtain ⟨once, each⟩ := readable_object readable
  have value := get_of_mem once member
  have allowed := accepted.fields field member
  have known := names_of_allowed allowed
  have text := length_names field.1 (by simp [known])
  have isRatchet := header_of_allowed allowed
  simp only [names, List.mem_cons, List.not_mem_nil, or_false] at known
  rcases known with name | name | name | name | name | name | name | name <;>
    rw [name] at value text isRatchet ⊢ <;> rw [text, ← value]
  · obtain ⟨n, isNumber, isValue⟩ := version_value accepted plainly.version
    have few : ((get e "v").write writeDouble).length ≤ 32 := by
      rw [isNumber]
      exact length_write_number short isValue (by split <;> omega) (by split <;> omega)
    exact within few (by decide)
  · obtain ⟨sid, isText, few⟩ := accepted.session
    have size : ((get e "sessionId").write writeDouble).length ≤ 386 := by
      have escaped := length_writeString_le sid
      rw [isText, Json.write]
      omega
    exact within size (by decide)
  · exact within (length_write_counter short (counter_value accepted plainly)) (by decide)
  · obtain ⟨ct, bytes, isText, few, decoded⟩ := accepted.ciphertext
    have size : ((get e "ct").write writeDouble).length ≤ 21851 := by
      have plain := length_writeString_base64 ct (base64_of_decodedLength decoded).1
      rw [isText, Json.write]
      omega
    exact within size (by decide)
  · have size : ((get e "init").write writeDouble).length ≤ 1124 := by
      rcases accepted.init with none | ⟨m, isObject, ephPub, ik, spkId⟩
      · rw [none, Json.write]
        decide
      · have inside : (Json.object m).readable = true := by
          rw [← isObject, value]
          exact readable_of_mem each member
        rw [isObject]
        exact length_write_init short inside ephPub ik spkId (plainly.init m isObject)
    exact within size (by decide)
  · have header := accepted.header (isRatchet (by simp))
    exact within (length_writeString_key header.1) (by decide)
  · have header := header_value accepted plainly (isRatchet (by simp))
    exact within (length_write_counter short header.1) (by decide)
  · have header := header_value accepted plainly (isRatchet (by simp))
    exact within (length_write_counter short header.2) (by decide)

theorem serialisedSize_le (short : ∀ x, (writeDouble x).length ≤ 32) (accepted : Accepted e ratchet)
    (plainly : Plainly e) (readable : (Json.object e).readable = true) :
    serialisedSize writeDouble e ≤ LIMIT := by
  have fields := length_writeFields_le fieldLimit e fun _ member =>
    length_write_value short accepted plainly readable member
  have named := sum_names_le fieldLimit names e (readable_object readable).1 fun field member =>
    names_of_allowed (accepted.fields field member)
  have bytes := Utf.length_encode_le ((Json.object e).write writeDouble)
  have text : ((Json.object e).write writeDouble).length ≤ 2 + (names.map fieldLimit).sum := by
    simp only [Json.write, List.length_cons, List.length_append, List.length_nil]
    omega
  exact bytes.trans (Nat.mul_le_mul_left 3 text)

end Bounds

section Paths

variable {e : JsonMap} {ratchet : Bool}

theorem mem_pathsFields (path : List String) : path ∈ pathsFields e ↔
    ∃ field ∈ e, path = [field.1] ∨ ∃ rest ∈ field.2.paths, path = field.1 :: rest := by
  induction e with
  | nil => simp [pathsFields]
  | cons first rest ih =>
      simp only [pathsFields, List.mem_cons, List.mem_append, List.mem_map, ih, exists_eq_or_imp]
      constructor
      · rintro (here | ⟨inner, member, rfl⟩ | later)
        · exact Or.inl (Or.inl here)
        · exact Or.inl (Or.inr ⟨inner, member, rfl⟩)
        · exact Or.inr later
      · rintro ((here | ⟨inner, member, rfl⟩) | later)
        · exact Or.inl here
        · exact Or.inr (Or.inl ⟨inner, member, rfl⟩)
        · exact Or.inr (Or.inr later)

theorem listed_of_allowed {name : String} (allowed : EnvelopeValidator.allowed ratchet name = true) :
    [name] ∈ listed ratchet := by
  have known := names_of_allowed allowed
  have isRatchet := header_of_allowed allowed
  simp only [names, List.mem_cons, List.not_mem_nil, or_false] at known
  rcases known with rfl | rfl | rfl | rfl | rfl | rfl | rfl | rfl
  · simp [listed]
  · simp [listed]
  · simp [listed]
  · simp [listed]
  · simp [listed]
  · simp [listed, isRatchet (by simp)]
  · simp [listed, isRatchet (by simp)]
  · simp [listed, isRatchet (by simp)]

theorem no_paths {value : Json} (flat : (∃ n, value = .number n) ∨ ∃ text, value = .string text)
    {path : List String} : path ∉ value.paths := by
  rcases flat with ⟨n, rfl⟩ | ⟨text, rfl⟩ <;> simp [Json.paths]

theorem paths_of_init {m : JsonMap} (ephPub : KeyText (get m "ephPub")) (ik : KeyText (get m "ik"))
    (spkId : ∃ n, get m "spkId" = .number n)
    (named : ∀ field ∈ m, field.1 ∈ ["ephPub", "ik", "spkId"])
    (readable : (Json.object m).readable = true) {path : List String}
    (inside : path ∈ (Json.object m).paths) : "init" :: path ∈ listed ratchet := by
  obtain ⟨once, -⟩ := readable_object readable
  obtain ⟨field, member, rfl | ⟨rest, deeper, rfl⟩⟩ := (mem_pathsFields path).mp inside
  · have known := named field member
    simp only [List.mem_cons, List.not_mem_nil, or_false] at known
    rcases known with name | name | name <;> simp [name, listed]
  · have value := get_of_mem once member
    have known := named field member
    rw [← value] at deeper
    simp only [List.mem_cons, List.not_mem_nil, or_false] at known
    rcases known with name | name | name <;> rw [name] at deeper
    · obtain ⟨text, isText, -⟩ := ephPub
      exact absurd deeper (no_paths (Or.inr ⟨text, isText⟩))
    · obtain ⟨text, isText, -⟩ := ik
      exact absurd deeper (no_paths (Or.inr ⟨text, isText⟩))
    · exact absurd deeper (no_paths (Or.inl spkId))

/-- Only `init` has fields of its own. -/
theorem paths_of_accepted (accepted : Accepted e ratchet) (plainly : Plainly e)
    (readable : (Json.object e).readable = true) :
    ∀ path ∈ pathsFields e, path ∈ listed ratchet := by
  obtain ⟨once, each⟩ := readable_object readable
  intro path there
  obtain ⟨field, member, rfl | ⟨rest, inside, rfl⟩⟩ := (mem_pathsFields path).mp there
  · exact listed_of_allowed (accepted.fields field member)
  · have value := get_of_mem once member
    have allowed := accepted.fields field member
    have known := names_of_allowed allowed
    have isRatchet := header_of_allowed allowed
    rw [← value] at inside
    simp only [names, List.mem_cons, List.not_mem_nil, or_false] at known
    rcases known with name | name | name | name | name | name | name | name <;>
      rw [name] at inside isRatchet ⊢
    · obtain ⟨n, isNumber, -⟩ := accepted.version
      exact absurd inside (no_paths (Or.inl ⟨n, isNumber⟩))
    · obtain ⟨sid, isText, -⟩ := accepted.session
      exact absurd inside (no_paths (Or.inr ⟨sid, isText⟩))
    · obtain ⟨n, isNumber, -⟩ := accepted.counter
      exact absurd inside (no_paths (Or.inl ⟨n, isNumber⟩))
    · obtain ⟨ct, -, isText, -⟩ := accepted.ciphertext
      exact absurd inside (no_paths (Or.inr ⟨ct, isText⟩))
    · rcases accepted.init with none | ⟨m, isObject, ephPub, ik, spkId⟩
      · rw [none] at inside
        cases inside
      · have within : (Json.object m).readable = true := by
          rw [← isObject, ← name, value]
          exact readable_of_mem each member
        rw [isObject] at inside
        exact paths_of_init ephPub ik spkId (plainly.init m isObject) within inside
    · obtain ⟨dh, isText, -⟩ := (accepted.header (isRatchet (by simp))).1
      exact absurd inside (no_paths (Or.inr ⟨dh, isText⟩))
    · obtain ⟨n, isNumber, -⟩ := (accepted.header (isRatchet (by simp))).2.1
      exact absurd inside (no_paths (Or.inl ⟨n, isNumber⟩))
    · obtain ⟨n, isNumber, -⟩ := (accepted.header (isRatchet (by simp))).2.2
      exact absurd inside (no_paths (Or.inl ⟨n, isNumber⟩))

/-- What the fields of an envelope say of those of its `init`. -/
theorem init_of_paths (all : ∀ path ∈ pathsFields e, path ∈ listed false ∨ path ∈ listed true)
    {m : JsonMap} (isObject : get e "init" = .object m) :
    ∀ field ∈ m, field.1 ∈ ["ephPub", "ik", "spkId"] := by
  intro field member
  have inside : [field.1] ∈ (Json.object m).paths :=
    (mem_pathsFields [field.1]).mpr ⟨field, member, Or.inl rfl⟩
  have there : ["init", field.1] ∈ pathsFields e :=
    (mem_pathsFields _).mpr ⟨("init", .object m), mem_of_get isObject (by simp),
      Or.inr ⟨[field.1], inside, rfl⟩⟩
  have known := all _ there
  simp [listed] at known
  simpa using known

end Paths

variable {writeDouble : Rat → JavaString} {e : JsonMap}

theorem strict_of_plainly (short : ∀ x, (writeDouble x).length ≤ 32)
    (readable : (Json.object e).readable = true) {ratchet : Bool} (accepted : Accepted e ratchet)
    (plainly : Plainly e) : Strict writeDouble e where
  version := by
    have value := version_value accepted plainly.version
    cases ratchet with
    | false => exact Or.inl value
    | true => exact Or.inr value
  counter := counter_value accepted plainly
  header isTwo := by
    apply header_value accepted plainly
    have value := version_value accepted plainly.version
    cases ratchet with
    | true => rfl
    | false =>
        have same := isVersion_unique value isTwo
        simp at same
  size := serialisedSize_le short accepted plainly readable
  fields path there := by
    have known := paths_of_accepted accepted plainly readable path there
    have value := version_value accepted plainly.version
    cases ratchet with
    | false => exact Or.inl known
    | true => exact Or.inr ⟨value, known⟩
  castable := castable_of_whole (counter_value accepted plainly) fun n isNumber =>
    (plainly.counter n isNumber).2

theorem Strict.exact_version (strict : Strict writeDouble e) {n : JsonNumber}
    (isNumber : get e "v" = .number n) : n.Exact 32 := by
  rcases strict.version with one | two
  · exact exact_of_version (by omega) one isNumber
  · exact exact_of_version (by omega) two isNumber

theorem plainly_of_strict {ratchet : Bool} (accepted : Accepted e ratchet)
    (strict : Strict writeDouble e) : Plainly e where
  version _ isNumber := strict.exact_version isNumber
  counter n isNumber :=
    ⟨exact_of_counter strict.counter isNumber, whole_of_castable strict.castable isNumber⟩
  header name header n isNumber := by
    have allowed := accepted.fields (name, .number n) (mem_of_get isNumber (by simp))
    have isRatchet := header_of_allowed allowed (List.mem_cons_of_mem "dh" header)
    have isTwo := version_value accepted fun _ => strict.exact_version
    rw [isRatchet, if_pos rfl] at isTwo
    have both := strict.header isTwo
    simp only [List.mem_cons, List.not_mem_nil, or_false] at header
    rcases header with rfl | rfl
    · exact exact_of_counter both.1 isNumber
    · exact exact_of_counter both.2 isNumber
  init m isObject := init_of_paths
    (fun path there => (strict.fields path there).imp id And.right) isObject

/-- The checks are strict with exactly the envelopes that show them everything: whole numbers that
fit, and no more than the three fields in `init`. -/
theorem validate_strict_iff (writeDouble : Rat → JavaString)
    (short : ∀ x, (writeDouble x).length ≤ 32) (e : JsonMap)
    (readable : (Json.object e).readable = true) :
    (EnvelopeValidator.validate e = .ok () → Strict writeDouble e) ↔
      (EnvelopeValidator.validate e = .ok () → Plainly e) := by
  constructor
  · intro strict ok
    obtain ⟨ratchet, accepted⟩ := accepted_of_ok ok
    exact plainly_of_strict accepted (strict ok)
  · intro plainly ok
    obtain ⟨ratchet, accepted⟩ := accepted_of_ok ok
    exact strict_of_plainly short readable accepted (plainly ok)

/-- An envelope of the first version with a counter. -/
def envelope (ctr : JsonNumber) : JsonMap :=
  [("v", .number (.integer 1)), ("sessionId", .string [0x73]), ("ctr", .number ctr),
    ("ct", .string (List.replicate 22 0x41))]

theorem validate_strict_whole :
    (EnvelopeValidator.validate (envelope (.integer 7)) = .ok () →
        Strict (fun _ => []) (envelope (.integer 7))) ↔
      (EnvelopeValidator.validate (envelope (.integer 7)) = .ok () →
        Plainly (envelope (.integer 7))) :=
  validate_strict_iff (fun _ => []) (fun _ => by decide) _ (by decide)

/-- A counter of one half is let through, and cannot be cast. -/
theorem validate_half :
    ¬∀ writeDouble : Rat → JavaString, (∀ x, (writeDouble x).length ≤ 32) → ∀ e : JsonMap,
      (Json.object e).readable = true → EnvelopeValidator.validate e = .ok () →
        Strict writeDouble e := by
  intro always
  have strict := always (fun _ => [0x30, 0x2E, 0x35]) (fun _ => by decide) (envelope (.double (1 / 2))) (by decide)
    (by decide +kernel)
  have castable := strict.castable
  revert castable
  decide +kernel

end Dm
