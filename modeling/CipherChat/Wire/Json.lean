import CipherChat.Dm.EnvelopeValidator
import CipherChat.Service.Calls

/-!
The JSON a client posts for an envelope, and when the server accepts it.
-/

namespace Wire

open Symbolic Number Primitives KeyStore Envelope EnvelopeV2 E2EEService
open Rooms (JavaString)
open Dm (Json JsonMap JsonNumber EnvelopeValidator.validate)

section Printing

/-- The character of six bits. -/
def symbol (value : Nat) : UInt16 :=
  if value < 26 then UInt16.ofNat (0x41 + value)
  else if value < 52 then UInt16.ofNat (0x61 + (value - 26))
  else if value < 62 then UInt16.ofNat (0x30 + (value - 52))
  else if value = 62 then 0x2B else 0x2F

def btoa : List UInt8 → JavaString
  | [] => []
  | [a] => [symbol (a.toNat / 4), symbol (a.toNat % 4 * 16), 0x3D, 0x3D]
  | [a, b] =>
      [symbol (a.toNat / 4), symbol (a.toNat % 4 * 16 + b.toNat / 16),
        symbol (b.toNat % 16 * 4), 0x3D]
  | a :: b :: c :: rest =>
      symbol (a.toNat / 4) :: symbol (a.toNat % 4 * 16 + b.toNat / 16) ::
        symbol (b.toNat % 16 * 4 + c.toNat / 64) :: symbol (c.toNat % 64) :: btoa rest

theorem isCharacter_symbol (value : Nat) : Dm.Base64.isCharacter (symbol value) = true := by
  have listed : ∀ v : Fin 62, Dm.Base64.isCharacter (symbol v) = true := by decide
  by_cases small : value < 62
  · exact listed ⟨value, small⟩
  · simp only [symbol, show ¬value < 26 by omega, show ¬value < 52 by omega, small, if_false]
    split <;> decide

/-- The characters, then the padding. -/
theorem btoa_parts (bytes : List UInt8) : ∃ data padding k, btoa bytes = data ++ padding ∧
    (∀ unit ∈ data, Dm.Base64.isCharacter unit = true) ∧
    ((padding = [] ∧ data.length = 4 * k ∧ bytes.length = 3 * k) ∨
      (padding = [0x3D, 0x3D] ∧ data.length = 4 * k + 2 ∧ bytes.length = 3 * k + 1) ∨
      (padding = [0x3D] ∧ data.length = 4 * k + 3 ∧ bytes.length = 3 * k + 2)) := by
  induction bytes using btoa.induct with
  | case1 => exact ⟨[], [], 0, rfl, nofun, .inl ⟨rfl, rfl, rfl⟩⟩
  | case2 a =>
      refine ⟨[_, _], [0x3D, 0x3D], 0, rfl, ?_, .inr (.inl ⟨rfl, rfl, rfl⟩)⟩
      simp [isCharacter_symbol]
  | case3 a b =>
      refine ⟨[_, _, _], [0x3D], 0, rfl, ?_, .inr (.inr ⟨rfl, rfl, rfl⟩)⟩
      simp [isCharacter_symbol]
  | case4 a b c rest ih =>
      obtain ⟨data, padding, k, isText, characters, shape⟩ := ih
      let first : JavaString := [symbol (a.toNat / 4), symbol (a.toNat % 4 * 16 + b.toNat / 16),
        symbol (b.toNat % 16 * 4 + c.toNat / 64), symbol (c.toNat % 64)]
      have isFirst : ∀ unit ∈ first, Dm.Base64.isCharacter unit = true := by
        simp [first, isCharacter_symbol]
      refine ⟨first ++ data, padding, k + 1, ?_, ?_, ?_⟩
      · rw [List.append_assoc, ← isText]
        rfl
      · rintro unit member
        rcases List.mem_append.mp member with here | there
        · exact isFirst unit here
        · exact characters unit there
      · have four : first.length = 4 := rfl
        simp only [List.length_append, List.length_cons, four]
        rcases shape with ⟨rfl, isLength, count⟩ | ⟨rfl, isLength, count⟩ | ⟨rfl, isLength, count⟩
        · exact .inl ⟨rfl, by omega, by omega⟩
        · exact .inr (.inl ⟨rfl, by omega, by omega⟩)
        · exact .inr (.inr ⟨rfl, by omega, by omega⟩)

theorem decodedLength_btoa (bytes : List UInt8) :
    Dm.Base64.decodedLength (btoa bytes) = some bytes.length := by
  obtain ⟨data, padding, k, isText, characters, shape⟩ := btoa_parts bytes
  have stops : padding.takeWhile Dm.Base64.isCharacter = [] := by
    rcases shape with ⟨rfl, _⟩ | ⟨rfl, _⟩ | ⟨rfl, _⟩ <;> decide
  have isData : (btoa bytes).takeWhile Dm.Base64.isCharacter = data := by
    rw [isText, List.takeWhile_append_of_pos characters, stops, List.append_nil]
  have isRest : (btoa bytes).drop data.length = padding := by
    rw [isText, List.drop_left]
  simp only [Dm.Base64.decodedLength, isData, isRest]
  rcases shape with ⟨rfl, isLength, count⟩ | ⟨rfl, isLength, count⟩ | ⟨rfl, isLength, count⟩
  · have whole : data.length % 4 = 0 := by omega
    simp only [whole, Option.some.injEq]
    omega
  · have two : data.length % 4 = 2 := by omega
    simp only [two, Option.some.injEq]
    omega
  · have three : data.length % 4 = 3 := by omega
    simp only [three, Option.some.injEq]
    omega

theorem length_btoa (bytes : List UInt8) : (btoa bytes).length = (bytes.length + 2) / 3 * 4 := by
  obtain ⟨data, padding, k, isText, _, shape⟩ := btoa_parts bytes
  rw [isText, List.length_append]
  rcases shape with ⟨rfl, isLength, count⟩ | ⟨rfl, isLength, count⟩ | ⟨rfl, isLength, count⟩ <;>
    simp only [isLength, count, List.length_nil, List.length_cons] <;> omega

end Printing

/-- The bytes that the libraries of `primitives.ts` make of terms, and how else than with `btoa`
they may be spelt. -/
structure Libraries where
  bytes : Term → List UInt8
  respell : Nat → List UInt8 → JavaString
  bytes_data : ∀ data, bytes (.bytes data) = data
  length_pub : ∀ name, (bytes (.pub name)).length = 32
  length_aead : ∀ key iv plaintext aad,
    (bytes (.aead key iv plaintext aad)).length = (bytes plaintext).length + 16

namespace Libraries

variable (libraries : Libraries)

def text : Base64 → JavaString
  | .raw s => Utf.ofString s
  | .enc 0 t => btoa (libraries.bytes t)
  | .enc (spelling + 1) t => libraries.respell spelling (libraries.bytes t)

end Libraries

/-- `JSON.stringify` prints an integer below 10²¹ without a point or an exponent. -/
def number (x : JsNumber) : Json :=
  .number (if x.den = 1 ∧ |x| < 10 ^ 21 then .integer x.num else .double x)

def initBlock (libraries : Libraries) (init : Init) : Json :=
  .object [
    ("ephPub", .string (libraries.text init.ephPub)),
    ("ik", .string (libraries.text init.ik)),
    ("spkId", number init.spkId)]

/-- The field is left out where it is undefined. -/
def initField (libraries : Libraries) (init : Option Init) : JsonMap :=
  init.toList.map fun block => ("init", initBlock libraries block)

def json (libraries : Libraries) : AnyEnvelope → JsonMap
  | .v1 e => [
      ("v", number e.v),
      ("sessionId", .string (Utf.ofString e.sessionId)),
      ("ctr", number e.ctr),
      ("ct", .string (libraries.text e.ct))] ++ initField libraries e.init
  | .v2 e => [
      ("v", number 2),
      ("sessionId", .string (Utf.ofString e.sessionId)),
      ("ctr", number e.ctr),
      ("dh", .string (libraries.text e.dh)),
      ("pn", number e.pn),
      ("n", number e.n),
      ("ct", .string (libraries.text e.ct))] ++ initField libraries e.init

section Checks

open Dm.EnvelopeValidator

variable (libraries : Libraries)

theorem text_toBase64 (t : Term) : libraries.text (toBase64 t) = btoa (libraries.bytes t) := by
  rfl

theorem number_natCast {n : Nat} (small : n < 10 ^ 21) :
    number (n : JsNumber) = .number (.integer n) := by
  have bound : (n : ℚ) < 10 ^ 21 := by exact_mod_cast small
  simp [number, bound]

theorem counter_ok {n : Nat} (few : n < 10 ^ 9) (message : String) :
    counter (number (n : JsNumber)) message = .ok () := by
  rw [number_natCast (by omega), counter]
  have long : JsonNumber.longValue (.integer n) = n := by
    simp only [JsonNumber.longValue, JsonNumber.narrow]
    rw [Int.bmod_def]
    omega
  rw [long, if_neg (by omega)]
  rfl

/-- A public key, as `toBase64` prints it. -/
def PublicKey (b64 : Base64) : Prop :=
  ∃ name, b64 = toBase64 (.pub name)

theorem key_ok {b64 : Base64} (isKey : PublicKey b64) (message : String) :
    key (.string (libraries.text b64)) message = .ok () := by
  obtain ⟨name, rfl⟩ := isKey
  simp [key, text_toBase64, decodedLength, decodedLength_btoa, libraries.length_pub, KEY_BYTES]
  rfl

/-- What the server takes for a session id. -/
def Short (sessionId : String) : Prop :=
  Utf.ofString sessionId ≠ [] ∧ (Utf.ofString sessionId).length ≤ 64

/-- A ciphertext of so many bytes of plaintext. -/
def Sealed (length : Nat) (ct : Base64) : Prop :=
  ∃ key iv data aad, ct = toBase64 (.aead key iv (.bytes data) aad) ∧ data.length = length

def Keyed (init : Init) : Prop :=
  PublicKey init.ephPub ∧ PublicKey init.ik

theorem ciphertext_ok {fields : JsonMap} {ct : Base64} {length : Nat} (isSealed : Sealed length ct)
    (few : length ≤ 6144) (isCt : Dm.get fields "ct" = .string (libraries.text ct)) :
    ciphertext fields = .ok () := by
  obtain ⟨name, iv, data, aad, rfl, rfl⟩ := isSealed
  have size : (libraries.bytes (.aead name iv (.bytes data) aad)).length = data.length + 16 := by
    rw [libraries.length_aead, libraries.bytes_data]
  have printed := length_btoa (libraries.bytes (.aead name iv (.bytes data) aad))
  rw [size] at printed
  have some : btoa (libraries.bytes (.aead name iv (.bytes data) aad)) ≠ [] := by
    intro none
    rw [none, List.length_nil] at printed
    omega
  rw [ciphertext, isCt]
  simp only [text_toBase64, decodedLength, decodedLength_btoa, size]
  rw [if_neg (by rw [printed, MAX_CT_BYTES]; simp only [some, false_or]; omega)]
  simp only [pure_bind]
  rw [if_neg (by rw [MAX_CT_BYTES]; omega)]
  rfl

theorem init_ok {fields : JsonMap} {init : Option Init} (keyed : ∀ block, init = some block → Keyed block)
    (isInit : Dm.get fields "init" = ((init.map (initBlock libraries)).getD .null)) :
    Dm.EnvelopeValidator.init fields = .ok () := by
  rw [Dm.EnvelopeValidator.init, isInit]
  cases init with
  | none => rfl
  | some block =>
      obtain ⟨ephPub, ik⟩ := keyed block rfl
      have first := key_ok libraries ephPub "Malformed ephemeral key."
      have second := key_ok libraries ik "Malformed identity key."
      simp only [initBlock, Option.map_some, Option.getD_some, Dm.get, List.lookup_cons]
      simp [first, second, number]
      rfl

theorem session_ok {fields : JsonMap} {sessionId : String} (short : Short sessionId)
    (isId : Dm.get fields "sessionId" = .string (Utf.ofString sessionId)) :
    session fields = .ok () := by
  rw [session, isId]
  have fits : ¬(Utf.ofString sessionId = [] ∨ 64 < (Utf.ofString sessionId).length) := by
    have bound := short.2
    simp only [short.1, false_or]
    omega
  simp only [if_neg fits]
  rfl

/-- What a client may post, with a ciphertext of so many bytes. -/
inductive Fits (length : Nat) : AnyEnvelope → Prop
  | v1 {e : WireEnvelope} (ctr : Nat) (version : e.v = 1) (isCtr : e.ctr = ctr)
      (short : Short e.sessionId) (isSealed : Sealed length e.ct)
      (keyed : ∀ block, e.init = some block → Keyed block) : Fits length (.v1 e)
  | v2 {e : WireEnvelopeV2} (ctr pn n : Nat) (isCtr : e.ctr = ctr) (isPn : e.pn = pn)
      (isN : e.n = n) (before : pn ≤ ctr ∧ n ≤ ctr) (isKey : PublicKey e.dh)
      (short : Short e.sessionId) (isSealed : Sealed length e.ct)
      (keyed : ∀ block, e.init = some block → Keyed block) : Fits length (.v2 e)

theorem get_init (others : JsonMap) (init : Option Init) (none : others.lookup "init" = none) :
    Dm.get (others ++ initField libraries init) "init" =
      (init.map (initBlock libraries)).getD .null := by
  rw [Dm.get, List.lookup_append, none]
  cases init <;> rfl

theorem version_ok {e : JsonMap} (v : Nat) (isVersion : Dm.get e "v" = number (v : JsNumber))
    (known : v = 1 ∨ v = 2) : version e = .ok (v = 2) := by
  rw [version, isVersion]
  rcases known with rfl | rfl <;> rw [number_natCast (by decide)] <;> rfl

theorem fields_ok {own : JsonMap} {ratchet : Bool} (init : Option Init) (keys : List String)
    (isKeys : own.map Prod.fst = keys) (known : ∀ k ∈ keys, allowed ratchet k = true) :
    fields ratchet (own ++ initField libraries init) = .ok () := by
  have each : ∀ field ∈ own ++ initField libraries init, allowed ratchet field.1 = true := by
    intro field member
    rcases List.mem_append.mp member with named | optional
    · exact known field.1 (isKeys ▸ List.mem_map_of_mem named)
    · obtain ⟨block, _, rfl⟩ := List.mem_map.mp optional
      rfl
  have none : (own ++ initField libraries init).find? (fun field => !allowed ratchet field.1) =
      none := by
    rw [List.find?_eq_none]
    intro field member
    simp [each field member]
  rw [fields, none]
  rfl

theorem validate_ok {e : JsonMap} {ratchet : Bool} (isVersion : version e = .ok ratchet)
    (isSession : session e = .ok ()) (isCtr : counter (Dm.get e "ctr") "Malformed counter." = .ok ())
    (isCt : ciphertext e = .ok ()) (isInit : init e = .ok ()) (isHeader : ratchet = true → header e = .ok ())
    (isFields : fields ratchet e = .ok ()) : validate e = .ok () := by
  rw [validate, isVersion, isSession, isCtr, isCt, isInit]
  cases ratchet with
  | false => exact isFields
  | true =>
      rw [isHeader rfl]
      exact isFields

theorem accepted_of_fits {length : Nat} {envelope : AnyEnvelope} (fits : Fits length envelope)
    (fewBytes : length ≤ 6144) (fewSent : envelope.ctr < 10 ^ 9) :
    validate (json libraries envelope) = .ok () := by
  cases fits with
  | @v1 e ctr isVersion isCtr short isSealed keyed =>
      have few : ctr < 10 ^ 9 := by
        rw [AnyEnvelope.ctr, isCtr] at fewSent
        exact_mod_cast fewSent
      have one : e.v = (1 : Nat) := isVersion.trans (by norm_num)
      have first : version (json libraries (.v1 e)) = .ok false :=
        version_ok 1 (congrArg number one) (.inl rfl)
      have third : counter (Dm.get (json libraries (.v1 e)) "ctr") "Malformed counter." = .ok () := by
        rw [← counter_ok few "Malformed counter.", ← isCtr]
        rfl
      exact validate_ok first (session_ok short rfl) third
        (ciphertext_ok libraries isSealed fewBytes rfl)
        (init_ok libraries keyed (get_init libraries _ e.init rfl)) nofun
        (fields_ok libraries e.init ["v", "sessionId", "ctr", "ct"] rfl (by decide))
  | @v2 e ctr pn n isCtr isPn isN before isKey short isSealed keyed =>
      have few : ctr < 10 ^ 9 := by
        rw [AnyEnvelope.ctr, isCtr] at fewSent
        exact_mod_cast fewSent
      have first : version (json libraries (.v2 e)) = .ok true :=
        version_ok 2 rfl (.inr rfl)
      have third : counter (Dm.get (json libraries (.v2 e)) "ctr") "Malformed counter." = .ok () := by
        rw [← counter_ok few "Malformed counter.", ← isCtr]
        rfl
      have ratchetKey := key_ok libraries isKey "Malformed ratchet key."
      have previous := counter_ok (before.1.trans_lt few) "Malformed previous-chain length."
      have number := counter_ok (before.2.trans_lt few) "Malformed chain number."
      rw [← isPn] at previous
      rw [← isN] at number
      have heads : header (json libraries (.v2 e)) = .ok () := by
        have isDh : Dm.get (json libraries (.v2 e)) "dh" = .string (libraries.text e.dh) := rfl
        have isPn : Dm.get (json libraries (.v2 e)) "pn" = Wire.number e.pn := rfl
        have isN : Dm.get (json libraries (.v2 e)) "n" = Wire.number e.n := rfl
        rw [header, isDh, isPn, isN, ratchetKey, previous, number]
        rfl
      exact validate_ok first (session_ok short rfl) third
        (ciphertext_ok libraries isSealed fewBytes rfl)
        (init_ok libraries keyed (get_init libraries _ e.init rfl)) (fun _ => heads)
        (fields_ok libraries e.init ["v", "sessionId", "ctr", "dh", "pn", "n", "ct"] rfl (by decide))

end Checks

end Wire
