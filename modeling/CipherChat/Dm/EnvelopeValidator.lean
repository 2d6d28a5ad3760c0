import CipherChat.Rooms.Backend
import Mathlib.Data.Rat.Floor

/-!
`dm/EnvelopeValidator.java`: the shape of an envelope, the only thing the server checks of it.
-/

namespace Dm

open Rooms

/-- What Jackson makes of a number: an `Integer`, a `Long` or a `BigInteger`, or a `Double`. -/
inductive JsonNumber
  | integer (value : Int)
  | double (value : Rat)
  deriving DecidableEq

namespace JsonNumber

/-- The integer part, towards zero. -/
def truncate (value : Rat) : Int :=
  if 0 ≤ value then value.floor else value.ceil

/-- `BigInteger` keeps the low bits, `Double` the nearest value there is. -/
def narrow (bits : Nat) : JsonNumber → Int
  | .integer value => value.bmod (2 ^ bits)
  | .double value => max (-2 ^ (bits - 1)) (min (truncate value) (2 ^ (bits - 1) - 1))

def intValue (n : JsonNumber) : Int :=
  n.narrow 32

def longValue (n : JsonNumber) : Int :=
  n.narrow 64

end JsonNumber

inductive Json
  | null
  | bool (value : Bool)
  | number (value : JsonNumber)
  | string (value : JavaString)
  | array (values : List Json)
  | object (fields : List (String × Json))

/-- A `Map<String, Object>`. -/
abbrev JsonMap := List (String × Json)

/-- `get`, which gives `null` for a key that is missing. -/
def get (fields : JsonMap) (key : String) : Json :=
  (fields.lookup key).getD .null

namespace Base64

def isCharacter (unit : UInt16) : Bool :=
  (0x41 ≤ unit && unit ≤ 0x5A) || (0x61 ≤ unit && unit ≤ 0x7A) || (0x30 ≤ unit && unit ≤ 0x39) ||
    unit = 0x2B || unit = 0x2F

/-- The length of what `Base64.getDecoder().decode` gives, if it throws nothing. -/
def decodedLength (text : JavaString) : Option Nat :=
  let data := text.takeWhile isCharacter
  match data.length % 4, text.drop data.length with
  | 0, [] => some (data.length / 4 * 3)
  | 2, [] | 2, [0x3D, 0x3D] => some (data.length / 4 * 3 + 1)
  | 3, [] | 3, [0x3D] => some (data.length / 4 * 3 + 2)
  | _, _ => none

end Base64

namespace EnvelopeValidator

def MAX_CT_BYTES : Nat :=
  16 * 1024

def KEY_BYTES : Nat :=
  32

abbrev Check := Except JavaError

def bad {α : Type} (message : String) : Check α :=
  throw (.badRequest "invalid_message" message)

def decodedLength (b64 : JavaString) : Check Nat :=
  match Base64.decodedLength b64 with
  | none => bad "Invalid base64 in envelope."
  | some length => return length

/-- A public key in Base64. -/
def key (value : Json) (message : String) : Check Unit :=
  match value with
  | .string text => do
      if (← decodedLength text) ≠ KEY_BYTES then bad message
  | _ => bad message

/-- A number of at most a thousand million, as a `long`. -/
def counter (value : Json) (message : String) : Check Unit :=
  match value with
  | .number n => if n.longValue < 0 ∨ 1000000000 < n.longValue then bad message else return ()
  | _ => bad message

/-- Whether the envelope is a ratchet's. -/
def version (e : JsonMap) : Check Bool :=
  match get e "v" with
  | .number v =>
      if v.intValue ≠ 1 ∧ v.intValue ≠ 2 then bad "Unsupported envelope version."
      else return v.intValue = 2
  | _ => bad "Unsupported envelope version."

def session (e : JsonMap) : Check Unit :=
  match get e "sessionId" with
  | .string sid => if sid = [] ∨ 64 < sid.length then bad "Malformed sessionId." else return ()
  | _ => bad "Malformed sessionId."

def ciphertext (e : JsonMap) : Check Unit :=
  match get e "ct" with
  | .string ct =>
      if ct = [] ∨ MAX_CT_BYTES * 4 / 3 + 4 < ct.length then bad "Ciphertext missing or too large."
      else do
        let length ← decodedLength ct
        if MAX_CT_BYTES < length ∨ length < 16 then bad "Ciphertext size out of range."
  | _ => bad "Ciphertext missing or too large."

def init (e : JsonMap) : Check Unit :=
  match get e "init" with
  | .null => return ()
  | .object m => do
      key (get m "ephPub") "Malformed ephemeral key."
      key (get m "ik") "Malformed identity key."
      match get m "spkId" with
      | .number _ => return ()
      | _ => bad "Malformed prekey id."
  | _ => bad "Malformed init block."

/-- The header of the double ratchet. -/
def header (e : JsonMap) : Check Unit := do
  key (get e "dh") "Malformed ratchet key."
  counter (get e "pn") "Malformed previous-chain length."
  counter (get e "n") "Malformed chain number."

def allowed (ratchet : Bool) (k : String) : Bool :=
  k ∈ ["v", "sessionId", "ctr", "ct", "init"] || (ratchet && k ∈ ["dh", "pn", "n"])

def fields (ratchet : Bool) (e : JsonMap) : Check Unit :=
  match e.find? fun field => !allowed ratchet field.1 with
  | none => return ()
  | some field => bad ("Unexpected envelope field: " ++ field.1)

def validate (e : JsonMap) : Check Unit := do
  let ratchet ← version e
  session e
  counter (get e "ctr") "Malformed counter."
  ciphertext e
  init e
  if ratchet then header e
  fields ratchet e

/-- Every refusal is a bad request. -/
def Plain {α : Type} (check : Check α) : Prop :=
  ∀ e, check = .error e → ∃ message, e = .badRequest "invalid_message" message

theorem plain_bad {α : Type} (message : String) : Plain (bad message : Check α) := by
  intro e isError
  exact ⟨message, (Except.error.inj isError).symm⟩

theorem plain_ok {α : Type} (value : α) : Plain (pure value : Check α) := by
  intro e isError
  cases isError

theorem plain_bind {α β : Type} {check : Check α} {rest : α → Check β} (first : Plain check)
    (others : ∀ value, Plain (rest value)) : Plain (check >>= rest) := by
  intro e isError
  cases result : check with
  | error e' =>
      rw [result] at isError
      obtain rfl : e' = e := Except.error.inj isError
      exact first e' result
  | ok value =>
      rw [result] at isError
      exact others value e isError

theorem plain_decodedLength (b64 : JavaString) : Plain (decodedLength b64) := by
  unfold decodedLength
  split
  · exact plain_bad _
  · exact plain_ok _

theorem plain_key (value : Json) (message : String) : Plain (key value message) := by
  unfold key
  split
  · refine plain_bind (plain_decodedLength _) fun length => ?_
    split
    · exact plain_bad _
    · exact plain_ok _
  · exact plain_bad _

theorem plain_counter (value : Json) (message : String) : Plain (counter value message) := by
  unfold counter
  split
  · split
    · exact plain_bad _
    · exact plain_ok _
  · exact plain_bad _

theorem plain_version (e : JsonMap) : Plain (version e) := by
  unfold version
  split
  · split
    · exact plain_bad _
    · exact plain_ok _
  · exact plain_bad _

theorem plain_session (e : JsonMap) : Plain (session e) := by
  unfold session
  split
  · split
    · exact plain_bad _
    · exact plain_ok _
  · exact plain_bad _

theorem plain_ciphertext (e : JsonMap) : Plain (ciphertext e) := by
  unfold ciphertext
  split
  · split
    · exact plain_bad _
    · refine plain_bind (plain_decodedLength _) fun length => ?_
      split
      · exact plain_bad _
      · exact plain_ok _
  · exact plain_bad _

theorem plain_init (e : JsonMap) : Plain (init e) := by
  unfold init
  split
  · exact plain_ok _
  · refine plain_bind (plain_key _ _) fun _ => plain_bind (plain_key _ _) fun _ => ?_
    split
    · exact plain_ok _
    · exact plain_bad _
  · exact plain_bad _

theorem plain_header (e : JsonMap) : Plain (header e) :=
  plain_bind (plain_key _ _) fun _ => plain_bind (plain_counter _ _) fun _ => plain_counter _ _

theorem plain_fields (ratchet : Bool) (e : JsonMap) : Plain (fields ratchet e) := by
  unfold fields
  split
  · exact plain_ok _
  · exact plain_bad _

theorem plain_validate (e : JsonMap) : Plain (validate e) := by
  refine plain_bind (plain_version e) fun ratchet => ?_
  refine plain_bind (plain_session e) fun _ => plain_bind (plain_counter _ _) fun _ => ?_
  refine plain_bind (plain_ciphertext e) fun _ => plain_bind (plain_init e) fun _ => ?_
  cases ratchet with
  | true => exact plain_bind (plain_header e) fun _ => plain_fields true e
  | false => exact plain_fields false e

end EnvelopeValidator

end Dm
