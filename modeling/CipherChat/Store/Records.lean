import CipherChat.Crypto.Primitives

/-!
The records of `crypto/keyStore.ts`, and the key bundles and init blocks that travel.
-/

namespace KeyStore

open Number Primitives

structure StoredIdentity where
  edPriv : Base64
  edPub : Base64
  xPriv : Base64
  xPub : Base64
  spkId : JsNumber
  spkPriv : Base64
  spkPub : Base64
  createdAt : Nat
  deriving DecidableEq

inductive Role
  | init
  | resp
  deriving DecidableEq

structure StoredSession where
  sessionId : String
  conversationId : String
  peerId : String
  role : Role
  ckInit : Base64
  ckResp : Base64
  sendCtr : Nat
  peerMaxCtr : JsNumber
  createdAt : Nat
  retiredAt : Option Nat := none
  deriving DecidableEq

structure PeerPin where
  userId : String
  identityEd25519 : Base64
  keyVersion : JsNumber
  verified : Bool
  pinnedAt : Nat
  deriving DecidableEq

/-- The `init` block of an envelope. -/
structure Init where
  ephPub : Base64
  ik : Base64
  spkId : JsNumber
  deriving DecidableEq

structure SignedPreKey where
  keyId : JsNumber
  pubX25519 : Base64
  sig : Base64
  deriving DecidableEq

structure PeerBundle where
  identityEd25519 : Base64
  identityX25519 : Base64
  signedPreKey : SignedPreKey
  keyVersion : JsNumber
  deriving DecidableEq

end KeyStore
