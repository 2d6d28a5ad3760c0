import CipherChat.Service.Footprint

/-!
The calls the application makes on one browser, from any number of tabs, as the threads of
a system: they switch at every await.
-/

namespace E2EEService

open Async Number Symbolic Primitives KeyStore Envelope EnvelopeV2 Store

inductive Call
  | encrypt (conversationId peerId : String) (text : List UInt16)
  | decrypt (conversationId senderId : String) (envelope : AnyEnvelope) (own : Bool)
  | shredConversation (conversationId : String)
  | safetyNumberFor (peerId : String)
  | markVerified (peerId : String)
  | uploadBackup (code : String)
  | refreshBackup
  | restoreFromBackup (code : String)

inductive Outcome
  | encrypted (result : Except JsError AnyEnvelope)
  | decrypted (result : Except JsError DecryptResult)
  | shredded (result : Except JsError Shredded)
  | numbered (result : Except JsError (Option SafetyNumberView))
  | marked (result : Except JsError Unit)
  | uploaded (result : Except JsError Unit)
  | refreshed (result : Except JsError Bool)
  | restored (result : Except JsError StoredIdentity)

/-- A call made from a tab. -/
structure Request where
  this : Tab
  call : Call

/-- A call that has ended. -/
structure Report extends Request where
  outcome : Outcome

def Request.report {α : Type} (request : Request) (outcome : Except JsError α → Outcome)
    (p : Prog α) : Program Op Op.Res Report := do
  return { request with outcome := outcome (← p.run) }

def Request.program (request : Request) : Program Op Op.Res Report :=
  match request.call with
  | .encrypt conversationId peerId text =>
      request.report .encrypted (encrypt request.this conversationId peerId text)
  | .decrypt conversationId senderId envelope own =>
      request.report .decrypted (decrypt request.this conversationId senderId envelope own)
  | .shredConversation conversationId =>
      request.report .shredded (shredConversation conversationId)
  | .safetyNumberFor peerId => request.report .numbered (safetyNumberFor request.this peerId)
  | .markVerified peerId => request.report .marked (markVerified peerId)
  | .uploadBackup code => request.report .uploaded (uploadBackup code)
  | .refreshBackup => request.report .refreshed refreshBackup
  | .restoreFromBackup code => request.report .restored (restoreFromBackup code)

/-- The calls `admits` are made at any time; the environment answers as `answers` allows. -/
def service (admits : Request → Prop) (answers : (op : Op) → op.Res → Prop) :
    System Op Op.Res Device Report where
  start _ d p d' := d' = d ∧ ∃ request, admits request ∧ p = request.program
  exec t d op result d' := Exec t d op result d' ∧ answers op result

theorem service_mono {admits admits' : Request → Prop}
    {answers answers' : (op : Op) → op.Res → Prop} (calls : ∀ r, admits r → admits' r)
    (replies : ∀ op result, answers op result → answers' op result) {start : Device}
    {config : Config Op Op.Res Device Report}
    (reachable : (service admits answers).Reachable start config) :
    (service admits' answers').Reachable start config := by
  refine reachable.mono ?_ ?_
  · rintro _ d p d' ⟨same, request, admitted, isProgram⟩
    exact ⟨same, request, calls request admitted, isProgram⟩
  · rintro _ d op result d' ⟨performed, answered⟩
    exact ⟨performed, replies op result answered⟩

def AnyEnvelope.sessionId : AnyEnvelope → String
  | .v1 envelope => envelope.sessionId
  | .v2 envelope => envelope.sessionId

def AnyEnvelope.ctr : AnyEnvelope → JsNumber
  | .v1 envelope => envelope.ctr
  | .v2 envelope => envelope.ctr

def AnyEnvelope.init : AnyEnvelope → Option Init
  | .v1 envelope => envelope.init
  | .v2 envelope => envelope.init

variable {α : Type} {exec : Nat → Device → (op : Op) → op.Res → Device → Prop}
  {inv : Device → Prop} {t : Nat}

theorem safe_report {request : Request} {outcome : Except JsError α → Outcome} {p : Prog α}
    {post : Except JsError α → Prop} {holds : Report → Prop} (keeps : Keeps exec inv t p post)
    (reports : ∀ result, post result → holds { request with outcome := outcome result })
    (d : Device) :
    (Discipline.free exec inv).Safe t (fun value _ => holds value)
      (request.report outcome p) d :=
  Discipline.safe_bind ((keeps d trivial).mono fun result _ => reports result)

theorem runs_report {exec : Device → (op : Op) → op.Res → Device → Prop} {d d' : Device}
    {request : Request} {outcome : Except JsError α → Outcome} {p : Prog α}
    {result : Except JsError α} (ends : Ends exec d p result d') :
    Runs exec d (request.report outcome p) { request with outcome := outcome result } d' :=
  runs_bind.mpr ⟨result, d', ends, .done⟩

/-- A browser that has stored nothing but its identity. -/
structure Blank (d : Device) : Prop where
  sessions : d.sessions = .empty
  peers : d.peers = .empty
  backupKey : d.backupKey = none
  deks : d.deks = .empty
  ratchets : d.ratchets = .empty
  messages : d.messages = .empty
  locks : d.locks = fun _ => none

def responder : StoredIdentity where
  edPriv := toBase64 (.secret 0)
  edPub := toBase64 (.pub 0)
  xPriv := toBase64 (.secret 1)
  xPub := toBase64 (.pub 1)
  spkId := 1
  spkPriv := toBase64 (.secret 2)
  spkPub := toBase64 (.pub 2)
  createdAt := 0

def freshDevice : Device where
  identity := some responder
  sessions := .empty
  peers := .empty
  backupKey := none
  deks := .empty
  ratchets := .empty
  messages := .empty
  v2Flag := false
  locks := fun _ => none

theorem freshDevice_blank : Blank freshDevice :=
  ⟨rfl, rfl, rfl, rfl, rfl, rfl, rfl⟩

/-- What `sender` shares with everybody. -/
def sender : StoredIdentity where
  edPriv := toBase64 (.secret 4)
  edPub := toBase64 (.pub 4)
  xPriv := toBase64 (.secret 5)
  xPub := toBase64 (.pub 5)
  spkId := 1
  spkPriv := toBase64 (.secret 7)
  spkPub := toBase64 (.pub 7)
  createdAt := 0

def responderBundle : PeerBundle where
  identityEd25519 := responder.edPub
  identityX25519 := responder.xPub
  signedPreKey := { keyId := 1, pubX25519 := responder.spkPub, sig := toBase64 (.sig 0 (.pub 2)) }
  keyVersion := 1

/-- An envelope of a session `sender` starts; the first one carries the init block. -/
def senderEnvelope (ctr : Nat) : Except JsError WireEnvelope := do
  let initiated ← Session.initiateSession "c" "b" sender responderBundle 6 "s" 0
  Envelope.seal initiated.session "c" "a" ctr (Utf.ofString "hi") (some initiated.init)

def tab : Tab where
  identity := some responder
  userId := some "b"

def senderBundle : PeerBundle where
  identityEd25519 := sender.edPub
  identityX25519 := sender.xPub
  signedPreKey := { keyId := 1, pubX25519 := sender.spkPub, sig := toBase64 (.sig 4 (.pub 7)) }
  keyVersion := 1

def directory : Answer where
  bundle := some senderBundle

end E2EEService
