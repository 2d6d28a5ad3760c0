import CipherChat.Symbolic.Term
import CipherChat.Text.Number
import CipherChat.Text.Utf

/-!
`crypto/primitives.ts`, over symbolic terms.  Base64 texts are kept as texts, because
the program compares them as strings: one that `toBase64` printed, one of the other
spellings of the same bytes, or a literal.
-/

namespace Primitives

open Symbolic

inductive RatchetCode
  | tooManySkipped
  | authFailed
  | noSendingChain
  | duplicateOrExpired
  deriving DecidableEq

inductive JsError
  | error (message : String)
  | ratchet (code : RatchetCode) (message : String)
  | dom (name : String)
  | library
  deriving DecidableEq

inductive Base64
  | raw (s : String)
  | enc (spelling : Nat) (t : Term)
  deriving DecidableEq

def Base64.isEmpty : Base64 → Bool
  | .raw s => s.isEmpty
  | .enc _ _ => false

def sextet (c : Char) : Option Nat :=
  "ABCDEFGHIJKLMNOPQRSTUVWXYZabcdefghijklmnopqrstuvwxyz0123456789+/".toList.idxOf? c

def octets : List Nat → List UInt8
  | a :: b :: c :: d :: rest =>
      UInt8.ofNat (a * 4 + b / 16) :: UInt8.ofNat (b % 16 * 16 + c / 4) ::
        UInt8.ofNat (c % 4 * 64 + d) :: octets rest
  | [a, b, c] => [UInt8.ofNat (a * 4 + b / 16), UInt8.ofNat (b % 16 * 16 + c / 4)]
  | [a, b] => [UInt8.ofNat (a * 4 + b / 16)]
  | _ => []

def dropPadding (cs : List Char) : List Char :=
  if cs.length % 4 ≠ 0 then cs
  else match cs.reverse with
    | '=' :: '=' :: rest => rest.reverse
    | '=' :: rest => rest.reverse
    | _ => cs

/-- `atob`, after the forgiving-base64 decode of the specification. -/
def atob (s : String) : Except JsError (List UInt8) :=
  let cs := dropPadding (s.toList.filter fun c => c ∉ ['\t', '\n', '\x0c', '\r', ' '])
  if cs.length % 4 = 1 then .error (.dom "InvalidCharacterError")
  else match cs.mapM sextet with
    | some values => .ok (octets values)
    | none => .error (.dom "InvalidCharacterError")

def toBase64 (t : Term) : Base64 :=
  .enc 0 t

def fromBase64 : Base64 → Except JsError Term
  | .raw s => return .bytes (← atob s)
  | .enc _ t => .ok t

/-- A nullable string handed to `fromBase64`: `atob` coerces `null` to `"null"`. -/
def fromBase64OrNull (b64 : Option Base64) : Except JsError Term :=
  fromBase64 (b64.getD (.raw "null"))

def utf8Encode (text : List UInt16) : Term :=
  .bytes (Utf.encode text)

/-- `TextDecoder` never throws; bytes of an opaque term read as one replacement character. -/
def utf8Decode : Term → List UInt16
  | .bytes data => Utf.decode data
  | .text s => Utf.decode (Utf.encode (Utf.ofString s))
  | _ => [0xFFFD]

structure KeyPair where
  publicKey : Term
  privateKey : Term

/-- The key pair drawn under a name. -/
def generateX25519 (name : Nat) : KeyPair where
  publicKey := .pub name
  privateKey := .secret name

def dh (privateKey publicKey : Term) : Except JsError Term :=
  match Term.agree privateKey publicKey with
  | some t => .ok t
  | none => .error .library

def sign (privateKey message : Term) : Except JsError Term :=
  match privateKey with
  | .secret name => .ok (.sig name message)
  | _ => .error .library

def verify (publicKey signature message : Term) : Bool :=
  Term.verifies publicKey signature message

def hkdfSha256 (ikm : Term) (salt : Option Term) (info : String) (length : Nat) : Term :=
  .hkdf ikm (salt.getD (.bytes [])) info length

def hmacSha256 (key data : Term) : Term :=
  .hmac key data

def hashSha512 (data : Term) : Term :=
  .digest data

def aesGcmEncrypt (key iv plaintext aad : Term) : Term :=
  .aead key iv plaintext aad

def aesGcmDecrypt (key iv ciphertextWithTag aad : Term) : Except JsError Term :=
  match Term.openAead key iv ciphertextWithTag aad with
  | some plaintext => .ok plaintext
  | none => .error .library

def concatBytes : List Term → Term
  | [] => .bytes []
  | [t] => t
  | t :: rest => .cat t (concatBytes rest)

theorem bind_eq_ok {α β ε : Type} {x : Except ε α} {f : α → Except ε β} {b : β} :
    (x >>= f) = .ok b ↔ ∃ a, x = .ok a ∧ f a = .ok b := by
  cases x with
  | error e => simp [bind, Except.bind]
  | ok a => simp [bind, Except.bind]

theorem pure_eq_ok {α ε : Type} {a b : α} : (pure a : Except ε α) = .ok b ↔ a = b := by
  simp [pure, Except.pure]

theorem throw_eq_ok {α ε : Type} {e : ε} {b : α} : (throw e : Except ε α) = .ok b ↔ False := by
  simp [throw, throwThe, MonadExceptOf.throw]

@[simp] theorem fromBase64_toBase64 (t : Term) : fromBase64 (toBase64 t) = .ok t := by
  rfl

theorem fromBase64_null : fromBase64OrNull none = .ok (.bytes [0x9E, 0xE9, 0x65]) := by
  decide +kernel

theorem aesGcmDecrypt_eq_ok {key iv ciphertext aad plaintext : Term} :
    aesGcmDecrypt key iv ciphertext aad = .ok plaintext ↔
      ciphertext = .aead key iv plaintext aad := by
  rw [← Term.openAead_eq_some, aesGcmDecrypt]
  cases Term.openAead key iv ciphertext aad <;> simp

theorem dh_eq_ok {privateKey publicKey result : Term} :
    dh privateKey publicKey = .ok result ↔ Term.agree privateKey publicKey = some result := by
  rw [dh]
  cases Term.agree privateKey publicKey <;> simp

@[simp] theorem dh_pub (a b : Nat) :
    dh (.secret a) (.pub b) = .ok (.shared (min a b) (max a b)) := by
  rfl

example : dh (.secret 1) (.bytes (List.replicate 32 0)) = .error .library := by decide +kernel

example : atob "bnVsbA==" = .ok [0x6E, 0x75, 0x6C, 0x6C] := by decide +kernel

end Primitives
