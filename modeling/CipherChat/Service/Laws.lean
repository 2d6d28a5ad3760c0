import CipherChat.Service.Calls
import CipherChat.Service.Identifiers
import CipherChat.Service.Outcomes

/-!
Laws of the stored rows that depend on session ids and messages alone, and their
preservation by every call under every interleaving.
-/

namespace E2EEService

open Async Number Primitives KeyStore Envelope EnvelopeV2 Store Identifiers

/-- The session ids that may be stored, and the messages that may be stored; what a call
writes under such an id is such a message. -/
structure Law where
  names : String → Prop
  message : MessageRow → Prop
  written : ∀ {convId sessionId senderId : String} {ctr : JsNumber} {key : Nat}
    {text : List UInt16}, Plain convId → Plain senderId → names sessionId →
      message { id := messageId convId (messageKey sessionId senderId ctr), convId, key, text }

namespace Law

variable (law : Law)

structure Holds (d : Device) : Prop where
  sessions : ∀ s ∈ d.sessions.rows, law.names s.sessionId
  ratchets : ∀ row ∈ d.ratchets.rows,
    law.names row.sessionId ∧ row.session.sessionId = row.sessionId
  messages : ∀ row ∈ d.messages.rows, law.message row

/-- The writes the law allows. -/
def Allows : Op → Prop
  | .saveSession session => law.names session.sessionId
  | .putCommit ratchet message => law.names ratchet.sessionId ∧
      ratchet.session.sessionId = ratchet.sessionId ∧ ∀ row, message = some row → law.message row
  | _ => True

/-- The answers the law asks of the environment. -/
def Answers : (op : Op) → op.Res → Prop
  | .randomUUID, .ok sessionId => law.names sessionId
  | .getBackup, .ok blob => ∀ s ∈ blob.payload.sessions, law.names s.sessionId
  | _, _ => True

/-- The calls the law asks of the application. -/
def Admits (request : Request) : Prop :=
  match request.call with
  | .encrypt conversationId _ _ =>
      Plain conversationId ∧ ∀ me, request.this.userId = some me → Plain me
  | .decrypt conversationId senderId envelope own => Plain conversationId ∧ Plain senderId ∧
      (own = false → envelope.init.isSome → law.names envelope.sessionId)
  | _ => True

/-- What a call that has ended says about the law. -/
def Respects (report : Report) : Prop :=
  match report.call, report.outcome with
  | .encrypt .., .encrypted (.ok envelope) => law.names envelope.sessionId
  | .decrypt conversationId senderId envelope _, .decrypted (.ok result) => result.ok = true →
      law.names envelope.sessionId ∨ ∃ row, law.message row ∧
        row.id = messageId conversationId (messageKey envelope.sessionId senderId envelope.ctr)
  | _, _ => True

variable {law} {t : Nat} {d d' : Device} {α : Type}

theorem Holds.of_same (holds : law.Holds d) (same : SameStores d d') : law.Holds d' where
  sessions := same.sessions ▸ holds.sessions
  ratchets := same.ratchets ▸ holds.ratchets
  messages := same.messages ▸ holds.messages

theorem Holds.effect {op : Op} (holds : law.Holds d) (allows : law.Allows op) :
    law.Holds (Store.effect t op d) := by
  by_cases free : StoreFree op
  · exact holds.of_same (sameStores_effect t d free)
  cases op with
  | saveSession session =>
      refine ⟨fun s member => ?_, holds.ratchets, holds.messages⟩
      rcases Table.mem_put member with rfl | old
      · exact allows
      · exact holds.sessions s old
  | deleteConversationData conversationId =>
      exact ⟨fun s member => holds.sessions s (Table.mem_remove.mp member).1, holds.ratchets,
        holds.messages⟩
  | putCommit ratchet message =>
      obtain ⟨named, same, messages⟩ := allows
      refine ⟨holds.sessions, fun row member => ?_, fun row member => ?_⟩
      · rcases Table.mem_put member with rfl | old
        · exact ⟨named, same⟩
        · exact holds.ratchets row old
      · cases message with
        | none => exact holds.messages row member
        | some written =>
            rcases Table.mem_put member with rfl | old
            · exact messages _ rfl
            · exact holds.messages row old
  | deleteVault convId =>
      exact ⟨holds.sessions, fun row member => holds.ratchets row (Table.mem_remove.mp member).1,
        fun row member => holds.messages row (Table.mem_remove.mp member).1⟩
  | _ => exact absurd trivial free

abbrev system (law : Law) : System Op Op.Res Device Report :=
  service law.Admits law.Answers

/-- The program keeps the law under every interleaving. -/
abbrev Keeps (law : Law) (t : Nat) (p : Prog α) (post : Except JsError α → Prop) : Prop :=
  Async.Keeps law.system.exec law.Holds t p post

theorem keeps_call {op : Op} {post : op.Res → Prop} (allows : law.Allows op)
    (failed : ∀ e, post (.error e))
    (replied : ∀ d a value, law.Holds d → reply d op a = .ok value →
      law.Answers op (.ok value) → post (.ok value)) : law.Keeps t (call op) post := by
  refine fun s _ => Async.keeps_call (fun d answer d' holds performed => ?_) s
  obtain ⟨performed, answered⟩ := performed
  rcases exec_cases performed with ⟨e, rfl, rfl⟩ | ⟨value, rfl, rfl, a, reply⟩
  · exact ⟨holds, failed e⟩
  · exact ⟨Holds.effect holds allows, replied d a value holds reply answered⟩

/-- An operation whose answer says nothing. -/
theorem keeps_any {op : Op} (allows : law.Allows op) : law.Keeps t (call op) fun _ => True :=
  keeps_call allows (fun _ => trivial) fun _ _ _ _ _ _ => trivial

theorem keeps_free {p : Prog α} (uses : Uses StoreFree p.run) : law.Keeps t p fun _ => True :=
  keeps_uses (fun _ free _ _ _ holds performed =>
    Holds.of_same holds (sameStores_exec free performed.1)) uses

/-- A program that writes no row, then the rest. -/
theorem keeps_then {β : Type} {p : Prog α} {f : α → Prog β} {post : Except JsError β → Prop}
    (uses : Uses StoreFree p.run) (rest : ∀ value, law.Keeps t (f value) post)
    (failed : ∀ e, post (.error e)) : law.Keeps t (p >>= f) post :=
  keeps_bind (fun _ => True) (keeps_free uses) (fun value _ => rest value) fun e _ => failed e

theorem keeps_loadMessage (convId msgKey : String) :
    law.Keeps t (loadMessage convId msgKey) fun result => ∀ text, result = .ok (some text) →
      ∃ row, law.message row ∧ row.id = messageId convId msgKey := by
  refine keeps_then ((uses_existingDek convId).mono storeFree_of_lookupOp) (fun key => ?_)
    (fun _ _ impossible => by cases impossible)
  cases key with
  | none => exact keeps_pure fun _ impossible => by cases impossible
  | some key =>
      refine keeps_bind (fun result => ∀ row, result = .ok (some row) →
        law.message row ∧ row.id = messageId convId msgKey) ?_ (fun found known => ?_)
        (fun _ _ _ impossible => by cases impossible)
      · refine keeps_call trivial (fun _ _ impossible => by cases impossible) ?_
        intro d a value holds replied _ row same
        obtain rfl := Except.ok.inj same
        have found : d.messages.get (messageId convId msgKey) = some row := Except.ok.inj replied
        exact ⟨holds.messages row (Table.mem_of_get found), Table.key_of_get found⟩
      · cases found with
        | none => exact keeps_pure fun _ impossible => by cases impossible
        | some row => exact keeps_pure fun _ _ => ⟨row, known row rfl⟩

theorem keeps_loadRatchet (convId sessionId : String) :
    law.Keeps t (loadRatchet convId sessionId) fun result => ∀ session,
      result = .ok (some session) → law.names sessionId ∧ session.sessionId = sessionId := by
  refine keeps_then ((uses_existingDek convId).mono storeFree_of_lookupOp) (fun key => ?_)
    (fun _ _ impossible => by cases impossible)
  cases key with
  | none => exact keeps_pure fun _ impossible => by cases impossible
  | some key =>
      refine keeps_bind (fun result => ∀ row, result = .ok (some row) →
        law.names sessionId ∧ row.session.sessionId = sessionId) ?_ (fun found known => ?_)
        (fun _ _ _ impossible => by cases impossible)
      · refine keeps_call trivial (fun _ _ impossible => by cases impossible) ?_
        intro d a value holds replied _ row same
        obtain rfl := Except.ok.inj same
        have found : d.ratchets.get sessionId = some row := Except.ok.inj replied
        have key : row.sessionId = sessionId := Table.key_of_get found
        obtain ⟨named, same⟩ := holds.ratchets row (Table.mem_of_get found)
        exact ⟨key ▸ named, same.trans key⟩
      · cases found with
        | none => exact keeps_pure fun _ impossible => by cases impossible
        | some row =>
            dsimp only
            split
            · exact keeps_pure fun _ impossible => by cases impossible
            split
            · exact keeps_throw fun _ impossible => by cases impossible
            · refine keeps_pure fun session same => ?_
              obtain rfl := Option.some.inj (Except.ok.inj same)
              exact known row rfl

theorem keeps_latestRatchet (convId : String) :
    law.Keeps t (latestRatchet convId) fun result => ∀ session,
      result = .ok (some session) → law.names session.sessionId := by
  refine keeps_then ((uses_existingDek convId).mono storeFree_of_lookupOp) (fun key => ?_)
    (fun _ _ impossible => by cases impossible)
  cases key with
  | none => exact keeps_pure fun _ impossible => by cases impossible
  | some key =>
      refine keeps_bind (fun result => ∀ rows, result = .ok rows →
        ∀ row ∈ rows, law.names row.session.sessionId) ?_ (fun rows known => ?_)
        (fun _ _ _ impossible => by cases impossible)
      · refine keeps_call trivial (fun _ _ impossible => by cases impossible) ?_
        intro d a value holds replied _ rows same row member
        obtain rfl := Except.ok.inj same
        obtain rfl := Except.ok.inj replied
        obtain ⟨named, same⟩ := holds.ratchets row (List.mem_filter.mp member).1
        exact same ▸ named
      · refine keeps_pure fun session same => ?_
        have member := List.argmax_mem (Option.mem_def.mpr (Except.ok.inj same))
        obtain ⟨row, kept, rfl⟩ := List.mem_map.mp member
        exact known rows rfl row (List.mem_filter.mp kept).1

theorem keeps_commit {convId senderId : String} {session : RatchetSession} {ctr : JsNumber}
    {text : List UInt16} (named : law.names session.sessionId) (conversation : Plain convId)
    (sender : Plain senderId) :
    law.Keeps t (commit convId session (messageKey session.sessionId senderId ctr) text)
      fun _ => True := by
  refine keeps_then ((uses_ensureDek convId).mono storeFree_of_dekOp) (fun key => ?_)
    (fun _ => trivial)
  refine keeps_any ⟨named, rfl, fun row same => ?_⟩
  obtain rfl := Option.some.inj same
  exact law.written conversation sender named

theorem keeps_drawn :
    law.Keeps t (call .randomUUID) fun result => ∀ sessionId, result = .ok sessionId →
      law.names sessionId := by
  refine keeps_call trivial (fun _ _ impossible => by cases impossible) ?_
  intro d a value _ _ answered sessionId same
  obtain rfl := Except.ok.inj same
  exact answered

theorem keeps_startRatchet (conversationId peerId : String) (identity : StoredIdentity) :
    law.Keeps t (startRatchet conversationId peerId identity) fun result => ∀ session,
      result = .ok session → law.names session.sessionId := by
  refine keeps_then ((uses_fetchAndPinBundle peerId).mono storeFree_of_pinOp) (fun bundle => ?_)
    (fun _ _ impossible => by cases impossible)
  refine keeps_then (uses_op trivial) (fun ek => ?_) (fun _ _ impossible => by cases impossible)
  refine keeps_bind _ keeps_drawn (fun sessionId drawn => ?_)
    (fun _ _ _ impossible => by cases impossible)
  refine keeps_then (uses_op trivial) (fun now => ?_) (fun _ _ impossible => by cases impossible)
  refine keeps_then (uses_op trivial) (fun dhs => ?_) (fun _ _ impossible => by cases impossible)
  refine keeps_lift fun session started => ?_
  obtain ⟨_, _, _, _, _, _, _, _, _, _, _, _, _, _, _, rfl⟩ := startInitiator_ok started
  exact drawn sessionId rfl

theorem keeps_startSession (conversationId peerId : String) (identity : StoredIdentity) :
    law.Keeps t (startSession conversationId peerId identity) fun result => ∀ session init,
      result = .ok (session, init) → law.names session.sessionId := by
  refine keeps_then ((uses_fetchAndPinBundle peerId).mono storeFree_of_pinOp) (fun bundle => ?_)
    (fun _ _ _ impossible => by cases impossible)
  refine keeps_then (uses_op trivial) (fun ek => ?_) (fun _ _ _ impossible => by cases impossible)
  refine keeps_bind _ keeps_drawn (fun sessionId drawn => ?_)
    (fun _ _ _ _ impossible => by cases impossible)
  refine keeps_then (uses_op trivial) (fun now => ?_) (fun _ _ _ impossible => by cases impossible)
  refine keeps_bind (fun result => ∀ initiated, result = .ok initiated →
    initiated.session.sessionId = sessionId) (keeps_lift fun initiated started => ?_)
    (fun initiated named => keeps_pure fun session init same => ?_)
    (fun _ _ _ _ impossible => by cases impossible)
  · obtain ⟨_, _, _, _, _, _, _, _, _, _, _, _, _, _, _, rfl⟩ := Session.initiateSession_ok started
    rfl
  · obtain ⟨rfl, rfl⟩ := Prod.mk.inj (Except.ok.inj same)
    rw [named initiated rfl]
    exact drawn sessionId rfl

theorem keeps_sendingSession (conversationId peerId : String) (identity : StoredIdentity) :
    law.Keeps t (sendingSession conversationId peerId identity) fun result => ∀ session init,
      result = .ok (session, init) → law.names session.sessionId := by
  have chosen : law.Keeps t (activeSession conversationId) fun result => ∀ session,
      result = .ok (some session) → law.names session.sessionId := by
    refine keeps_bind (fun result => ∀ rows, result = .ok rows →
      ∀ s ∈ rows, law.names s.sessionId) ?_ (fun rows known => ?_)
      (fun _ _ _ impossible => by cases impossible)
    · refine keeps_call trivial (fun _ _ impossible => by cases impossible) ?_
      intro d a value holds replied _ rows same s member
      obtain rfl := Except.ok.inj same
      obtain rfl := Except.ok.inj replied
      exact holds.sessions s (List.mem_filter.mp member).1
    · exact keeps_pure fun session same =>
        known rows rfl session (chooseSession_mem (Except.ok.inj same))
  refine keeps_bind _ chosen (fun found known => ?_) (fun _ _ _ _ impossible => by cases impossible)
  cases found with
  | none => exact keeps_startSession _ _ _
  | some session =>
      refine keeps_then (uses_op trivial) (fun now => ?_)
        (fun _ _ _ impossible => by cases impossible)
      split
      · refine keeps_then (uses_op trivial) (fun retiredAt => ?_)
          (fun _ _ _ impossible => by cases impossible)
        exact keeps_bind _ (keeps_any (known session rfl)) (fun _ _ => keeps_startSession _ _ _)
          (fun _ _ _ _ impossible => by cases impossible)
      · refine keeps_pure fun session' init same => ?_
        obtain ⟨rfl, rfl⟩ := Prod.mk.inj (Except.ok.inj same)
        exact known session rfl

theorem keeps_encryptV1 (this : Tab) (conversationId peerId : String) (identity : StoredIdentity)
    (text : List UInt16) :
    law.Keeps t (encryptV1 this conversationId peerId identity text) fun result => ∀ envelope,
      result = .ok envelope → law.names envelope.sessionId := by
  refine keeps_bind _ (keeps_sendingSession _ _ _) (fun ⟨session, init⟩ known => ?_)
    (fun _ _ _ impossible => by cases impossible)
  have named := known session init rfl
  refine keeps_bind _ (keeps_any named) (fun _ _ => ?_) (fun _ _ _ impossible => by cases impossible)
  have finish : law.Keeps t (do
      let me ← myUserId this
      let envelope ← lift (Envelope.seal { session with sendCtr := session.sendCtr + 1 }
        conversationId me session.sendCtr text init)
      return AnyEnvelope.v1
        (if init.isSome ∧ session.sendCtr > 0 then { envelope with init } else envelope))
      fun result => ∀ envelope, result = .ok envelope → law.names envelope.sessionId := by
    refine keeps_then (uses_myUserId this) (fun me => ?_) (fun _ _ impossible => by cases impossible)
    refine keeps_bind (fun result => ∀ envelope, result = .ok envelope →
      envelope.sessionId = session.sessionId) (keeps_lift fun envelope sent => ?_)
      (fun envelope same => keeps_pure fun envelope' equal => ?_)
      (fun _ _ _ impossible => by cases impossible)
    · obtain ⟨_, _, _, _, rfl⟩ := seal_ok sent
      rfl
    · obtain rfl := Except.ok.inj equal
      have sameId := same envelope rfl
      rw [AnyEnvelope.sessionId]
      split <;> exact sameId ▸ named
  dsimp only
  split
  · exact keeps_then (uses_op trivial) (fun _ => finish) (fun _ _ impossible => by cases impossible)
  · exact finish

theorem keeps_encryptV2 {this : Tab} {conversationId : String} {session : RatchetSession}
    (named : law.names session.sessionId) (conversation : Plain conversationId)
    (user : ∀ me, this.userId = some me → Plain me) (text : List UInt16) :
    law.Keeps t (encryptV2 this conversationId session text) fun result => ∀ envelope,
      result = .ok envelope → law.names envelope.sessionId := by
  refine keeps_bind (fun result => ∀ me, result = .ok me → Plain me) ?_ (fun me known => ?_)
    (fun _ _ _ impossible => by cases impossible)
  · unfold myUserId
    split
    next me isMe =>
      refine keeps_pure fun me' same => ?_
      obtain rfl := Except.ok.inj same
      exact user me isMe
    next => exact keeps_throw fun _ impossible => by cases impossible
  refine keeps_bind (fun result => ∀ envelope next, result = .ok (envelope, next) →
    envelope.sessionId = session.sessionId ∧ next.sessionId = session.sessionId)
    (keeps_lift fun envelope next sent => ?_) (fun ⟨envelope, next⟩ same => ?_)
    (fun _ _ _ impossible => by cases impossible)
  · obtain ⟨_, _, _, rfl, rfl⟩ := sealV2_ok sent
    exact ⟨rfl, rfl⟩
  obtain ⟨sameEnvelope, sameNext⟩ := same envelope next rfl
  refine keeps_bind _ (keeps_commit (sameNext ▸ named) conversation (known me rfl))
    (fun _ _ => keeps_pure fun envelope' equal => ?_) (fun _ _ _ impossible => by cases impossible)
  obtain rfl := Except.ok.inj equal
  rw [AnyEnvelope.sessionId, sameEnvelope]
  exact named

theorem keeps_withLock {name : String} {body : Prog α} {post : Except JsError α → Prop}
    (keeps : law.Keeps t body post) (failed : ∀ e, post (.error e)) :
    law.Keeps t (withLock name body) post := by
  refine keeps_then (uses_op trivial) (fun _ => ?_) failed
  refine keeps_bind (fun settled => ∀ result, settled = .ok result → post result)
    (keeps_settle (keeps.mono fun result holds result' same => ?_)) (fun result settled => ?_)
    (fun e _ => failed e)
  · obtain rfl := Except.ok.inj same
    exact holds
  · exact keeps_then (uses_op trivial) (fun _ => keeps_lift (settled result rfl)) failed

theorem keeps_encrypt {this : Tab} {conversationId : String} (conversation : Plain conversationId)
    (user : ∀ me, this.userId = some me → Plain me) (peerId : String) (text : List UInt16) :
    law.Keeps t (encrypt this conversationId peerId text) fun result => ∀ envelope,
      result = .ok envelope → law.names envelope.sessionId := by
  have closed : ∀ e : JsError, ∀ envelope : AnyEnvelope, Except.error e = .ok envelope →
      law.names envelope.sessionId := fun _ _ impossible => by cases impossible
  refine keeps_then (uses_requireIdentity this) (fun identity => keeps_withLock ?_ closed) closed
  refine keeps_bind _ (keeps_latestRatchet conversationId) (fun found known => ?_)
    (fun e _ => closed e)
  cases found with
  | some session => exact keeps_encryptV2 (known session rfl) conversation user text
  | none =>
      refine keeps_then (uses_op trivial) (fun enabled => ?_) closed
      split
      · exact keeps_bind _ (keeps_startRatchet _ _ _)
          (fun session known => keeps_encryptV2 (known session rfl) conversation user text)
          (fun e _ => closed e)
      · exact keeps_encryptV1 _ _ _ _ _

/-- What a decryption says of the id in its envelope. -/
def Opens (law : Law) (conversationId senderId : String) (envelope : AnyEnvelope)
    (result : Except JsError DecryptResult) : Prop :=
  ∀ value, result = .ok value → value.ok = true → law.names envelope.sessionId ∨
    ∃ row, law.message row ∧
      row.id = messageId conversationId (messageKey envelope.sessionId senderId envelope.ctr)

theorem opens_error (conversationId senderId : String) (envelope : AnyEnvelope) (e : JsError) :
    law.Opens conversationId senderId envelope (.error e) :=
  fun _ impossible => by cases impossible

theorem opens_undecryptable (conversationId senderId : String) (envelope : AnyEnvelope)
    (placeholder : String) :
    law.Opens conversationId senderId envelope (.ok (undecryptable placeholder)) := by
  intro value same opened
  obtain rfl := Except.ok.inj same
  cases opened

theorem opens_named {conversationId senderId : String} {envelope : AnyEnvelope}
    (named : law.names envelope.sessionId) (result : Except JsError DecryptResult) :
    law.Opens conversationId senderId envelope result :=
  fun _ _ _ => .inl named

theorem keeps_receivingSession {conversationId senderId : String} {envelope : WireEnvelope}
    {own : Bool} {identity : StoredIdentity}
    (admitted : own = false → envelope.init.isSome → law.names envelope.sessionId) :
    law.Keeps t (receivingSession conversationId senderId envelope own identity) fun result =>
      ∀ session keyChanged, result = .ok (some session, keyChanged) →
        law.names envelope.sessionId ∧ session.sessionId = envelope.sessionId := by
  have closed : ∀ e : JsError, ∀ session keyChanged, (.error e : Except JsError
      (Option StoredSession × Bool)) = .ok (some session, keyChanged) →
      law.names envelope.sessionId ∧ session.sessionId = envelope.sessionId :=
    fun _ _ _ impossible => by cases impossible
  refine keeps_bind (fun result => ∀ session, result = .ok (some session) →
    law.names envelope.sessionId ∧ session.sessionId = envelope.sessionId) ?_
    (fun found known => ?_) (fun e _ => closed e)
  · refine keeps_call trivial (fun _ _ impossible => by cases impossible) ?_
    intro d a value holds replied _ session same
    obtain rfl := Except.ok.inj same
    have found : d.sessions.get envelope.sessionId = some session := Except.ok.inj replied
    have key : session.sessionId = envelope.sessionId := Table.key_of_get found
    exact ⟨key ▸ holds.sessions session (Table.mem_of_get found), key⟩
  cases found with
  | some session =>
      refine keeps_pure fun session' keyChanged same => ?_
      obtain ⟨same, _⟩ := Prod.mk.inj (Except.ok.inj same)
      exact known session' (congrArg Except.ok same)
  | none =>
      dsimp only
      split
      next init hasInit =>
        have named := admitted rfl (by simp [hasInit])
        refine keeps_then ((uses_checkPeerIdentity ..).mono storeFree_of_pinOp) (fun changed => ?_)
          closed
        refine keeps_then (uses_op trivial) (fun now => ?_) closed
        refine keeps_bind (fun result => ∀ session, result = .ok session →
          session.sessionId = envelope.sessionId) (keeps_lift fun session accepted => ?_)
          (fun session same => ?_) (fun e _ => closed e)
        · exact (Session.acceptSession_record accepted).1
        have key := same session rfl
        have allowed : law.names session.sessionId := key ▸ named
        refine keeps_bind _ (keeps_any allowed) (fun _ _ => ?_) (fun e _ => closed e)
        refine keeps_then (uses_op trivial) (fun _ => ?_) closed
        refine keeps_pure fun session' keyChanged same => ?_
        obtain ⟨same, _⟩ := Prod.mk.inj (Except.ok.inj same)
        obtain rfl := Option.some.inj same
        exact ⟨named, key⟩
      next => exact keeps_pure fun _ _ impossible => by cases impossible

theorem keeps_decryptV1 {conversationId senderId : String} {envelope : WireEnvelope}
    {own : Bool} {identity : StoredIdentity}
    (admitted : own = false → envelope.init.isSome → law.names envelope.sessionId) :
    law.Keeps t (decryptV1 conversationId senderId envelope own identity)
      (law.Opens conversationId senderId (.v1 envelope)) := by
  refine keeps_tryCatch (law.Opens conversationId senderId (.v1 envelope)) ?_
    (fun _ => id) (fun _ _ => keeps_pure (opens_undecryptable _ _ _ _))
  refine keeps_bind _ (keeps_receivingSession admitted) (fun ⟨found, keyChanged⟩ known => ?_)
    (fun e _ => opens_error _ _ _ e)
  cases found with
  | none => exact keeps_pure (opens_undecryptable _ _ _ _)
  | some session =>
      obtain ⟨named, key⟩ := known session keyChanged rfl
      have allowed : law.names session.sessionId := key ▸ named
      refine keeps_bind (fun _ => True) (keeps_lift trivial) (fun text _ => ?_)
        (fun e _ => opens_error _ _ _ e)
      dsimp only
      split
      · exact keeps_bind _ (keeps_any allowed) (fun _ _ => keeps_pure (opens_named named _))
          (fun e _ => opens_error _ _ _ e)
      · exact keeps_pure (opens_named named _)

theorem keeps_receivingRatchet {conversationId senderId : String} {envelope : WireEnvelopeV2}
    {identity : StoredIdentity}
    (admitted : envelope.init.isSome → law.names envelope.sessionId) :
    law.Keeps t (receivingRatchet conversationId senderId envelope identity) fun result =>
      ∀ session keyChanged, result = .ok (some session, keyChanged) →
        law.names envelope.sessionId ∧ session.sessionId = envelope.sessionId := by
  have closed : ∀ e : JsError, ∀ session keyChanged, (.error e : Except JsError
      (Option RatchetSession × Bool)) = .ok (some session, keyChanged) →
      law.names envelope.sessionId ∧ session.sessionId = envelope.sessionId :=
    fun _ _ _ impossible => by cases impossible
  refine keeps_bind _ (keeps_loadRatchet _ _) (fun found known => ?_) (fun e _ => closed e)
  cases found with
  | some session =>
      refine keeps_pure fun session' keyChanged same => ?_
      obtain ⟨same, _⟩ := Prod.mk.inj (Except.ok.inj same)
      exact known session' (congrArg Except.ok same)
  | none =>
      dsimp only
      split
      next => exact keeps_pure fun _ _ impossible => by cases impossible
      next init hasInit =>
        have named := admitted (by simp [hasInit])
        refine keeps_then ((uses_checkPeerIdentity ..).mono storeFree_of_pinOp) (fun changed => ?_)
          closed
        refine keeps_then (uses_op trivial) (fun now => ?_) closed
        refine keeps_bind (fun result => ∀ session, result = .ok session →
          session.sessionId = envelope.sessionId) (keeps_lift fun session accepted => ?_)
          (fun session same => keeps_pure fun session' keyChanged equal => ?_)
          (fun e _ => closed e)
        · obtain ⟨_, _, _, _, _, _, _, _, _, _, _, _, _, _, _, _, _, rfl⟩ :=
            startResponder_eq_ok.mp accepted
          rfl
        · obtain ⟨equal, _⟩ := Prod.mk.inj (Except.ok.inj equal)
          obtain rfl := Option.some.inj equal
          exact ⟨named, same session rfl⟩

theorem keeps_decryptV2Locked {conversationId senderId : String} {envelope : WireEnvelopeV2}
    {identity : StoredIdentity} (conversation : Plain conversationId) (sender : Plain senderId)
    (admitted : envelope.init.isSome → law.names envelope.sessionId) :
    law.Keeps t (decryptV2Locked conversationId senderId envelope identity)
      (law.Opens conversationId senderId (.v2 envelope)) := by
  refine keeps_bind _ (keeps_loadMessage _ _) (fun found known => ?_)
    (fun e _ => opens_error _ _ _ e)
  cases found with
  | some again => exact keeps_pure fun _ _ _ => .inr (known again rfl)
  | none =>
      refine keeps_bind _ (keeps_receivingRatchet admitted) (fun ⟨found, keyChanged⟩ known => ?_)
        (fun e _ => opens_error _ _ _ e)
      cases found with
      | none => exact keeps_pure (opens_undecryptable _ _ _ _)
      | some session =>
          obtain ⟨named, key⟩ := known session keyChanged rfl
          refine keeps_then (uses_op trivial) (fun now => ?_) (opens_error _ _ _)
          refine keeps_then (uses_op trivial) (fun fresh => ?_) (opens_error _ _ _)
          refine keeps_bind (fun result => ∀ text next, result = .ok (text, next) →
            next.sessionId = envelope.sessionId) (keeps_lift fun text next opened => ?_)
            (fun ⟨text, next⟩ same => ?_) (fun e _ => opens_error _ _ _ e)
          · obtain ⟨_, _, _, _, _, rfl⟩ := openV2_ok opened
            exact key
          have named' : law.names next.sessionId := same text next rfl ▸ named
          rw [← same text next rfl]
          exact keeps_bind _ (keeps_commit named' conversation sender)
            (fun _ _ => keeps_pure (opens_named named _)) (fun e _ => opens_error _ _ _ e)

theorem keeps_decryptV2 {conversationId senderId : String} {envelope : WireEnvelopeV2}
    {own : Bool} {identity : StoredIdentity} (conversation : Plain conversationId)
    (sender : Plain senderId)
    (admitted : own = false → envelope.init.isSome → law.names envelope.sessionId) :
    law.Keeps t (decryptV2 conversationId senderId envelope own identity)
      (law.Opens conversationId senderId (.v2 envelope)) := by
  refine keeps_tryCatch (law.Opens conversationId senderId (.v2 envelope)) ?_
    (fun _ => id) (fun _ _ => keeps_pure (opens_undecryptable _ _ _ _))
  refine keeps_bind _ (keeps_loadMessage _ _) (fun found known => ?_)
    (fun e _ => opens_error _ _ _ e)
  cases found with
  | some stored => exact keeps_pure fun _ _ _ => .inr (known stored rfl)
  | none =>
      dsimp only
      split
      next => exact keeps_pure (opens_undecryptable _ _ _ _)
      next foreign =>
        have foreign : own = false := by simpa using foreign
        exact keeps_withLock (keeps_decryptV2Locked conversation sender (admitted foreign))
          (opens_error _ _ _)

theorem keeps_decrypt {this : Tab} {conversationId senderId : String} {envelope : AnyEnvelope}
    {own : Bool} (conversation : Plain conversationId) (sender : Plain senderId)
    (admitted : own = false → envelope.init.isSome → law.names envelope.sessionId) :
    law.Keeps t (decrypt this conversationId senderId envelope own)
      (law.Opens conversationId senderId envelope) := by
  refine keeps_then ((uses_cachedIdentity this).mono ?_) (fun found => ?_) (opens_error _ _ _)
  · rintro _ rfl
    trivial
  cases found with
  | none => exact keeps_pure (opens_undecryptable _ _ _ _)
  | some identity =>
      cases envelope with
      | v1 envelope => exact keeps_decryptV1 admitted
      | v2 envelope => exact keeps_decryptV2 conversation sender admitted

theorem keeps_shredConversation (conversationId : String) :
    law.Keeps t (shredConversation conversationId) fun _ => True := by
  refine keeps_withLock ?_ (fun _ => trivial)
  refine keeps_bind _ (keeps_any trivial) (fun _ _ => ?_) (fun _ _ => trivial)
  refine keeps_bind _ (keeps_any trivial) (fun _ _ => ?_) (fun _ _ => trivial)
  refine keeps_bind _ (keeps_any trivial) (fun _ _ => ?_) (fun _ _ => trivial)
  exact keeps_bind _ (keeps_any trivial) (fun _ _ => keeps_pure trivial) (fun _ _ => trivial)

theorem keeps_saveSessions {sessions : List StoredSession}
    (named : ∀ s ∈ sessions, law.names s.sessionId) :
    law.Keeps t (saveSessions sessions) fun _ => True := by
  induction sessions with
  | nil => exact keeps_pure trivial
  | cons session rest ih =>
      have first := named session List.mem_cons_self
      exact keeps_bind _ (keeps_any first)
        (fun _ _ => ih fun s member => named s (List.mem_cons_of_mem _ member)) (fun _ _ => trivial)

theorem keeps_restoreFromBackup (code : String) :
    law.Keeps t (restoreFromBackup code) fun _ => True := by
  refine keeps_bind (fun result => ∀ blob, result = .ok blob →
    ∀ s ∈ blob.payload.sessions, law.names s.sessionId) ?_ (fun blob known => ?_)
    (fun _ _ => trivial)
  · refine keeps_call trivial (fun _ _ impossible => by cases impossible) ?_
    intro d a value _ _ answered blob same
    obtain rfl := Except.ok.inj same
    exact answered
  have finish : law.Keeps t (do
      call (.saveIdentity blob.payload.identity)
      saveSessions blob.payload.sessions
      call (.saveBackupKeyMaterial { salt := blob.salt, key := deriveBackupKey code blob.salt })
      return blob.payload.identity) fun _ => True := by
    refine keeps_bind _ (keeps_any trivial) (fun _ _ => ?_) (fun _ _ => trivial)
    refine keeps_bind _ (keeps_saveSessions (known blob rfl)) (fun _ _ => ?_) (fun _ _ => trivial)
    exact keeps_bind _ (keeps_any trivial) (fun _ _ => keeps_pure trivial) (fun _ _ => trivial)
  dsimp only
  split
  · exact keeps_bind (fun _ => True) (keeps_throw trivial) (fun _ _ => finish) (fun _ _ => trivial)
  · exact finish

theorem keeps_request (request : Request) (admitted : law.Admits request) (d : Device) :
    (Discipline.free law.system.exec law.Holds).Safe t
      (fun report _ => law.Admits report.toRequest ∧ law.Respects report)
      request.program d := by
  obtain ⟨this, called⟩ := request
  have silent : ∀ {α : Type} {p : Prog α} {outcome : Except JsError α → Outcome},
      law.Keeps t p (fun _ => True) →
      (∀ result, law.Respects { this, call := called, outcome := outcome result }) →
      (Discipline.free law.system.exec law.Holds).Safe t
        (fun report _ => law.Admits report.toRequest ∧ law.Respects report)
        (Request.report { this, call := called } outcome p) d :=
    fun keeps respects => safe_report keeps (fun result _ => ⟨admitted, respects result⟩) d
  cases called with
  | encrypt conversationId peerId text =>
      refine safe_report (keeps_encrypt admitted.1 admitted.2 peerId text)
        (fun result known => ⟨admitted, ?_⟩) d
      cases result with
      | error e => trivial
      | ok envelope => exact known envelope rfl
  | decrypt conversationId senderId envelope own =>
      refine safe_report (keeps_decrypt admitted.1 admitted.2.1 admitted.2.2)
        (fun result known => ⟨admitted, ?_⟩) d
      cases result with
      | error e => trivial
      | ok value => exact known value rfl
  | shredConversation conversationId =>
      exact silent (keeps_shredConversation conversationId) fun _ => trivial
  | safetyNumberFor peerId =>
      exact silent (keeps_free ((uses_safetyNumberFor this peerId).mono storeFree_of_identityOp))
        fun _ => trivial
  | markVerified peerId =>
      exact silent (keeps_free ((uses_markVerified peerId).mono storeFree_of_identityOp))
        fun _ => trivial
  | uploadBackup code => exact silent (keeps_free (storeFree_uploadBackup code)) fun _ => trivial
  | refreshBackup => exact silent (keeps_free storeFree_refreshBackup) fun _ => trivial
  | restoreFromBackup code => exact silent (keeps_restoreFromBackup code) fun _ => trivial

/-- In every interleaving of admitted calls the stored rows keep the law, and so does what
the calls report. -/
theorem reachable_holds {start : Device} (initial : law.Holds start)
    {config : Config Op Op.Res Device Report} (reachable : law.system.Reachable start config) :
    law.Holds config.state ∧ ∀ t report, config.threads t = some (.done report) →
      law.Admits report.toRequest ∧ law.Respects report := by
  refine System.Reachable.keeps initial (fun t d p d' holds started => ?_) reachable
  obtain ⟨rfl, request, admitted, rfl⟩ := started
  exact ⟨holds, keeps_request request admitted d'⟩

end Law

end E2EEService
