import CipherChat.Crypto.EnvelopeV2
import CipherChat.Ratchet.Epochs

/-!
One Double Ratchet session between two honest parties: every order of `sealV2` by either of them, over
a network that loses, delays, reorders and repeats what was sent, and carries what was not.
-/

namespace RatchetPair

open Symbolic Number Primitives KeyStore DoubleRatchet EnvelopeV2

/-- Two identities, the bundle that is served for the responder, and the session started from it. -/
structure Setting where
  conversationId : String
  userId : Role → String
  initiator : StoredIdentity
  responder : StoredIdentity
  bundle : PeerBundle
  sessionId : String
  startedAt : Nat
  ikA : Nat
  ikB : Nat
  spk : Nat
  ek : Nat
  dhs : Nat
  session : RatchetSession
  xPriv : fromBase64 initiator.xPriv = .ok (.secret ikA)
  xPub : fromBase64 initiator.xPub = .ok (.pub ikA)
  responderPriv : fromBase64 responder.xPriv = .ok (.secret ikB)
  spkPriv : fromBase64 responder.spkPriv = .ok (.secret spk)
  spkPub : fromBase64 responder.spkPub = .ok (.pub spk)
  served : fromBase64 bundle.identityX25519 = .ok (.pub ikB)
  servedPreKey : fromBase64 bundle.signedPreKey.pubX25519 = .ok (.pub spk)
  keyId : bundle.signedPreKey.keyId = responder.spkId
  started : startInitiator conversationId (userId .resp) initiator bundle ek dhs sessionId startedAt =
    .ok session
  apart : [ikA, ikB, spk, ek, dhs].Nodup

def other : Role → Role
  | .init => .resp
  | .resp => .init

/-- An envelope on the network, what was sealed in it, and whether it has been opened. -/
structure Flight where
  sender : Role
  envelope : WireEnvelopeV2
  text : List UInt16
  opened : Bool := false

structure World where
  session : Role → Option RatchetSession
  flights : List Flight := []
  /-- The names of the keys drawn so far. -/
  drawn : List Nat

inductive Action
  | send (sender : Role) (text : List UInt16)
  /-- Envelope `n` is delivered; it may have been before. -/
  | deliver (n now fresh : Nat)
  /-- Something is delivered that was not sent. -/
  | forge (flight : Flight) (now fresh : Nat)

section Runs

variable (s : Setting)

/-- The session an envelope is opened with: the responder's is made from the init block of the first
envelope that arrives. -/
def receiving (w : World) (flight : Flight) (now : Nat) : Except JsError RatchetSession :=
  match w.session (other flight.sender), flight.sender, flight.envelope.init with
  | some session, _, _ => .ok session
  | none, .init, some init => startResponder s.conversationId (s.userId .init)
      flight.envelope.sessionId s.responder init now
  | none, _, _ => .error (.error "no session")

def receive (w : World) (flight : Flight) (now fresh : Nat) :
    Except JsError (List UInt16 × RatchetSession) := do
  openV2 (← receiving s w flight now) (s.userId flight.sender) flight.envelope now fresh

def step (w : World) : Action → World
  | .send sender text =>
      match w.session sender with
      | none => w
      | some session =>
          match sealV2 session (s.userId sender) text with
          | .error _ => w
          | .ok (envelope, next) => { w with
              session := Function.update w.session sender (some next)
              flights := w.flights ++ [{ sender, envelope, text }] }
  | .deliver n now fresh =>
      match w.flights[n]? with
      | none => w
      | some flight =>
          match receive s w flight now fresh with
          | .error _ => { w with drawn := fresh :: w.drawn }
          | .ok (_, next) => {
              session := Function.update w.session (other flight.sender) (some next)
              flights := w.flights.set n { flight with opened := true }
              drawn := fresh :: w.drawn }
  | .forge flight now fresh =>
      match receive s w flight now fresh with
      | .error _ => { w with drawn := fresh :: w.drawn }
      | .ok (_, next) => { w with
          session := Function.update w.session (other flight.sender) (some next)
          drawn := fresh :: w.drawn }

def run (w : World) (actions : List Action) : World :=
  actions.foldl (step s) w

def start : World where
  session
    | .init => some s.session
    | .resp => none
  drawn := [s.ikA, s.ikB, s.spk, s.ek, s.dhs]

def secret : Term :=
  sharedSecret (.shared (min s.ikA s.spk) (max s.ikA s.spk)) (.shared (min s.ek s.ikB) (max s.ek s.ikB))
    (.shared (min s.ek s.spk) (max s.ek s.spk))

/-- The state a party has, or will begin with. -/
def stateOf (w : World) (role : Role) : RatchetState :=
  match w.session role with
  | some session => session.state
  | none => initResponder (secret s) (.secret s.spk) (.pub s.spk)

/-- The envelope jumps neither chain by more than `MAX_SKIP`, and no more than `MAX_STORED_SKIPPED` keys
are stored then, unless its own key is one of those stored. -/
def Within (state : RatchetState) (envelope : WireEnvelopeV2) : Prop :=
  state.skipped.any (isSkipped { dh := envelope.dh, pn := envelope.pn, n := envelope.n }) = true ∨
    if some envelope.dh = state.dhr then
      ⌈envelope.n⌉₊ - state.nr ≤ MAX_SKIP ∧
        state.skipped.length + (⌈envelope.n⌉₊ - state.nr) ≤ MAX_STORED_SKIPPED
    else
      ⌈envelope.pn⌉₊ - state.nr ≤ MAX_SKIP ∧ ⌈envelope.n⌉₊ ≤ MAX_SKIP ∧
        state.skipped.length + (⌈envelope.pn⌉₊ - state.nr) + ⌈envelope.n⌉₊ ≤ MAX_STORED_SKIPPED

/-- No ratchet key is drawn twice, what arrives for the first time is within the bounds, and what was not
sent is rejected. -/
def Fair (w : World) : Action → Prop
  | .send _ _ => True
  | .deliver n _ fresh => fresh ∉ w.drawn ∧ ∀ flight, w.flights[n]? = some flight →
      flight.opened = false → Within (stateOf s w (other flight.sender)) flight.envelope
  | .forge flight now fresh => ∀ result, receive s w flight now fresh ≠ .ok result

def FairRun (w : World) : List Action → Prop
  | [] => True
  | action :: rest => Fair s w action ∧ FairRun (step s w action) rest

end Runs

end RatchetPair
