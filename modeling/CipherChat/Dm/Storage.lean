import CipherChat.Dm.EnvelopeValidator
import CipherChat.Text.Utf

/-!
What the table `dm_messages` makes of an envelope: the document that a `jsonb` column takes, and the
two texts in it that the index against replays reads.
-/

namespace Dm

open Rooms

/-- No `jsonb` has a NUL in one of its texts. -/
def hasNul (text : JavaString) : Bool :=
  text.contains 0

mutual

def Json.storable : Json → Bool
  | .string value => !hasNul value
  | .array values => storableAll values
  | .object fields => storableFields fields
  | _ => true

def storableAll : List Json → Bool
  | [] => true
  | value :: rest => value.storable && storableAll rest

def storableFields : List (String × Json) → Bool
  | [] => true
  | (name, value) :: rest => !name.contains '\x00' && value.storable && storableFields rest

end

/-- A text as it reaches the database: half a pair becomes a question mark. -/
def asStored : JavaString → JavaString
  | [] => []
  | [unit] => [if Utf.isHigh unit || Utf.isLow unit then 0x3F else unit]
  | first :: second :: rest =>
      if Utf.isHigh first && Utf.isLow second then first :: second :: asStored rest
      else (if Utf.isHigh first || Utf.isLow first then 0x3F else first) :: asStored (second :: rest)

/-- `envelope->>'sessionId'` -/
def storedSession (e : JsonMap) : Option JavaString :=
  match get e "sessionId" with
  | .string sid => some (asStored sid)
  | _ => none

def isBigint (n : Int) : Bool :=
  -2 ^ 63 ≤ n && n < 2 ^ 63

/-- `(envelope->>'ctr')::bigint`: a text with a decimal point is none, and a `Double` is written
with one below ten million. -/
def storedCounter (e : JsonMap) : Option Int :=
  match get e "ctr" with
  | .number (.integer n) => if isBigint n then some n else none
  | .number (.double x) =>
      if 10 ^ 7 ≤ |x| && x.den = 1 && isBigint x.num then some x.num else none
  | _ => none

end Dm
