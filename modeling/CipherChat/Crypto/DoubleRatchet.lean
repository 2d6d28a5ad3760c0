import CipherChat.Crypto.Primitives

/-!
`crypto/doubleRatchet.ts`.  The keys and the time the source draws are parameters; a
loop that counts up to a wire number runs once for every integer below it.
-/

namespace DoubleRatchet

open Symbolic Number Primitives

def MAX_SKIP : Nat := 1000

def MAX_STORED_SKIPPED : Nat := 2000

def INFO_ROOT : String := "cipherchat/dr/v2/root"

def INFO_MESSAGE : String := "cipherchat/dr/v2/message"

def CHAIN_MESSAGE : Term := .bytes [0x01]

def CHAIN_NEXT : Term := .bytes [0x02]

structure RatchetHeader where
  dh : Base64
  pn : JsNumber
  n : JsNumber
  deriving DecidableEq

structure SkippedKey where of ::
  dh : Option Base64
  n : Nat
  mk : Base64
  «at» : Nat
  deriving DecidableEq

structure RatchetState where
  dhsPriv : Base64
  dhsPub : Base64
  dhr : Option Base64
  rk : Base64
  cks : Option Base64
  ckr : Option Base64
  ns : Nat
  nr : Nat
  pn : Nat
  skipped : List SkippedKey
  deriving DecidableEq

structure RootStep where
  rk : Term
  ck : Term

def kdfRoot (rk dhOut : Term) : RootStep :=
  let okm := hkdfSha256 dhOut (some rk) INFO_ROOT 64
  { rk := .slice okm 0 32, ck := .slice okm 32 64 }

structure ChainStep where of ::
  ck : Term
  mk : Term

def kdfChain (ck : Term) : ChainStep where
  mk := hmacSha256 ck CHAIN_MESSAGE
  ck := hmacSha256 ck CHAIN_NEXT

structure CipherParams where
  key : Term
  iv : Term

def cipherParams (mk : Term) : CipherParams :=
  let okm := hkdfSha256 mk none INFO_MESSAGE 44
  { key := .slice okm 0 32, iv := .slice okm 32 44 }

/-- The text around the spelling of `dh` is fixed, and so is what stands between the numbers. -/
def headerBytes (h : RatchetHeader) : Term :=
  let counters := "\",\"pn\":" ++ Number.text h.pn ++ ",\"n\":" ++ Number.text h.n ++ "\x7d"
  match h.dh with
  | .raw s => .text ("\x7b\"dh\":\"" ++ s ++ counters)
  | .enc spelling t => .cat (.text "\x7b\"dh\":\"") (.cat t (.text (toString spelling ++ counters)))

def initInitiator (sharedSecret responderRatchetPub : Term) (dhs : Nat) :
    Except JsError RatchetState := do
  let dhs := generateX25519 dhs
  let { rk, ck } := kdfRoot sharedSecret (← dh dhs.privateKey responderRatchetPub)
  return {
    dhsPriv := toBase64 dhs.privateKey
    dhsPub := toBase64 dhs.publicKey
    dhr := some (toBase64 responderRatchetPub)
    rk := toBase64 rk
    cks := some (toBase64 ck)
    ckr := none
    ns := 0
    nr := 0
    pn := 0
    skipped := [] }

def initResponder (sharedSecret ratchetPriv ratchetPub : Term) : RatchetState where
  dhsPriv := toBase64 ratchetPriv
  dhsPub := toBase64 ratchetPub
  dhr := none
  rk := toBase64 sharedSecret
  cks := none
  ckr := none
  ns := 0
  nr := 0
  pn := 0
  skipped := []

structure RatchetMessage where
  header : RatchetHeader
  ciphertext : Term
  deriving DecidableEq

def ratchetEncrypt (state : RatchetState) (plaintext : List UInt16) (associatedData : Term) :
    Except JsError (RatchetMessage × RatchetState) :=
  match state.cks with
  | none => .error (.ratchet .noSendingChain
      "Responder cannot send before receiving the first message.")
  | some cks => do
      let { ck, mk } := kdfChain (← fromBase64 cks)
      let header : RatchetHeader := { dh := state.dhsPub, pn := state.pn, n := state.ns }
      let { key, iv } := cipherParams mk
      let ciphertext := aesGcmEncrypt key iv (utf8Encode plaintext)
        (concatBytes [associatedData, headerBytes header])
      return ({ header, ciphertext }, { state with cks := some (toBase64 ck), ns := state.ns + 1 })

def tryOpen (mk : Term) (message : RatchetMessage) (associatedData : Term) :
    Except JsError (List UInt16) :=
  let { key, iv } := cipherParams mk
  match aesGcmDecrypt key iv message.ciphertext
      (concatBytes [associatedData, headerBytes message.header]) with
  | .ok plaintext => .ok (utf8Decode plaintext)
  | .error _ => .error (.ratchet .authFailed "Message failed authentication.")

/-- The body of the loop in `skipUntil`, run `count` times from chain key `ck`. -/
def skipKeys (now : Nat) : Nat → RatchetState → Term → RatchetState × Term
  | 0, state, ck => (state, ck)
  | count + 1, state, ck =>
      let step := kdfChain ck
      let key : SkippedKey := { dh := state.dhr, n := state.nr, mk := toBase64 step.mk, «at» := now }
      skipKeys now count { state with skipped := state.skipped ++ [key], nr := state.nr + 1 } step.ck

def skipUntil (state : RatchetState) (until_ : JsNumber) (now : Nat) :
    Except JsError RatchetState :=
  match state.ckr with
  | none => .ok state
  | some ckr => do
      if until_ - state.nr > MAX_SKIP then
        throw (.ratchet .tooManySkipped ("Refusing to skip " ++ Number.text (until_ - state.nr) ++
          " message keys (limit 1000)."))
      let (state, ck) := skipKeys now (⌈until_⌉₊ - state.nr) state (← fromBase64 ckr)
      return { state with
        ckr := some (toBase64 ck)
        skipped := state.skipped.drop (state.skipped.length - MAX_STORED_SKIPPED) }

def dhRatchet (state : RatchetState) (header : RatchetHeader) (fresh : Nat) :
    Except JsError RatchetState := do
  let theirs ← fromBase64 header.dh
  let recv := kdfRoot (← fromBase64 state.rk) (← dh (← fromBase64 state.dhsPriv) theirs)
  let fresh := generateX25519 fresh
  let send := kdfRoot recv.rk (← dh fresh.privateKey theirs)
  return { state with
    pn := state.ns
    ns := 0
    nr := 0
    dhr := some header.dh
    ckr := some (toBase64 recv.ck)
    dhsPriv := toBase64 fresh.privateKey
    dhsPub := toBase64 fresh.publicKey
    rk := toBase64 send.rk
    cks := some (toBase64 send.ck) }

/-- The chain a frame belongs to: the next one, or the one being received. -/
def followHeader (state : RatchetState) (header : RatchetHeader) (now fresh : Nat) :
    Except JsError RatchetState :=
  if some header.dh ≠ state.dhr then do
    dhRatchet (← skipUntil state header.pn now) header fresh
  else if header.n < state.nr then
    .error (.ratchet .duplicateOrExpired "Message key already used or no longer held.")
  else .ok state

def isSkipped (header : RatchetHeader) (s : SkippedKey) : Bool :=
  s.dh = some header.dh && (s.n : JsNumber) = header.n

def ratchetDecrypt (state : RatchetState) (message : RatchetMessage) (associatedData : Term)
    (now fresh : Nat) : Except JsError (List UInt16 × RatchetState) := do
  let header := message.header
  match state.skipped.find? (isSkipped header) with
  | some held =>
      let plaintext ← tryOpen (← fromBase64 held.mk) message associatedData
      return (plaintext, { state with skipped := state.skipped.eraseP (isSkipped header) })
  | none =>
      let work ← skipUntil (← followHeader state header now fresh) header.n now
      let step := kdfChain (← fromBase64OrNull work.ckr)
      let plaintext ← tryOpen step.mk message associatedData
      return (plaintext, { work with ckr := some (toBase64 step.ck), nr := work.nr + 1 })

def expireSkipped (state : RatchetState) (maxAgeMs now : Nat) : RatchetState × Nat :=
  let kept := state.skipped.filter fun s => (now : Int) - s.«at» ≤ maxAgeMs
  ({ state with skipped := kept }, state.skipped.length - kept.length)

end DoubleRatchet
