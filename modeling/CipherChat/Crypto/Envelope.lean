import CipherChat.Crypto.Session

/-!
`crypto/envelope.ts`: sealing and opening under a chain session.
-/

namespace Envelope

open Symbolic Number Primitives KeyStore Session

structure WireEnvelope where
  v : JsNumber
  sessionId : String
  ctr : JsNumber
  ct : Base64
  init : Option Init
  deriving DecidableEq

def PAD_BUCKET : Nat := 256

def aadText (conversationId senderId sessionId : String) (ctr : JsNumber) : String :=
  "\x7b\"v\":1,\"conversationId\":\"" ++ conversationId ++ "\",\"senderId\":\"" ++ senderId ++
    "\",\"sessionId\":\"" ++ sessionId ++ "\",\"ctr\":" ++ Number.text ctr ++ "\x7d"

def buildAad (conversationId senderId sessionId : String) (ctr : JsNumber) : Term :=
  .text (aadText conversationId senderId sessionId ctr)

def pad (plaintext : List UInt16) : Except JsError Term :=
  let body := Utf.encode plaintext
  if body.length > 0xFFFF then .error (.error "Plaintext too long")
  else
    let total := max PAD_BUCKET ((body.length + 2 + (PAD_BUCKET - 1)) / PAD_BUCKET * PAD_BUCKET)
    .ok (.bytes (UInt8.ofNat (body.length / 256) :: UInt8.ofNat (body.length % 256) ::
      body ++ List.replicate (total - (body.length + 2)) 0))

/-- An opaque plaintext carries no readable length. -/
def unpad : Term → Except JsError (List UInt16)
  | .bytes (high :: low :: rest) =>
      let len := high.toNat * 256 + low.toNat
      if len > rest.length then .error (.error "Corrupt padding")
      else .ok (utf8Decode (.bytes (rest.take len)))
  | _ => .error (.error "Corrupt padding")

def «seal» (session : StoredSession) (conversationId senderId : String) (ctr : Nat)
    (plaintext : List UInt16) (init : Option Init) : Except JsError WireEnvelope := do
  let { key, iv } := messageKeyAt (← sendChainRoot session) ctr
  let aad := buildAad conversationId senderId session.sessionId ctr
  let ct := aesGcmEncrypt key iv (← pad plaintext) aad
  return {
    v := 1
    sessionId := session.sessionId
    ctr, ct := toBase64 ct
    init := if ctr = 0 then init else none }

/-- Opening under one of the two chains of a session: what `open` and `openOwn` share. -/
def openWith (chainRoot : StoredSession → Except JsError Term) (session : StoredSession)
    (conversationId senderId : String) (envelope : WireEnvelope) :
    Except JsError (List UInt16) := do
  if envelope.v ≠ 1 then
    throw (.error ("Unsupported envelope version " ++ Number.text envelope.v))
  if envelope.sessionId ≠ session.sessionId then
    throw (.error "Envelope/session mismatch")
  let { key, iv } := messageKeyAt (← chainRoot session) envelope.ctr
  let aad := buildAad conversationId senderId envelope.sessionId envelope.ctr
  let padded ← aesGcmDecrypt key iv (← fromBase64 envelope.ct) aad
  unpad padded

def «open» (session : StoredSession) (conversationId senderId : String)
    (envelope : WireEnvelope) : Except JsError (List UInt16) :=
  openWith receiveChainRoot session conversationId senderId envelope

def openOwn (session : StoredSession) (conversationId senderId : String)
    (envelope : WireEnvelope) : Except JsError (List UInt16) :=
  openWith sendChainRoot session conversationId senderId envelope

end Envelope
