import CipherChat.Ratchet.Steps
import CipherChat.Service.Counters
import CipherChat.Wire.Json

/-!
Every envelope that `encrypt` returns is one the server accepts, whatever has happened on the
browsers of the account before.
-/

namespace Wire

open Async Symbolic Number Primitives KeyStore Envelope EnvelopeV2 DoubleRatchet Store E2EEService

/-- `generateIdentity` of `crypto/identity.ts`, with the names of the keys it draws. -/
def generateIdentity (ed x spk now : Nat) : StoredIdentity where
  edPriv := toBase64 (.secret ed)
  edPub := toBase64 (.pub ed)
  xPriv := toBase64 (.secret x)
  xPub := toBase64 (.pub x)
  spkId := 1
  spkPriv := toBase64 (.secret spk)
  spkPub := toBase64 (.pub spk)
  createdAt := now

def Generated (identity : StoredIdentity) : Prop :=
  ∃ ed x spk now, identity = generateIdentity ed x spk now

/-- What `crypto.randomUUID` prints. -/
def Uuid (id : String) : Prop :=
  id.toList.length = 36 ∧ ∀ c ∈ id.toList, c ∈ "0123456789abcdef-".toList

/-- A tab sends as an identity that was generated, and opens what the server has accepted. -/
def Admitted (libraries : Libraries) (_ : World) (client : Client) : Prop :=
  match client.call with
  | .encrypt .. => ∀ identity, client.this.identity = some identity → Generated identity
  | .decrypt _ _ envelope _ => Dm.EnvelopeValidator.validate (json libraries envelope) = .ok ()
  | _ => True

/-- A backup that is fetched was uploaded before. -/
structure Permitted (w : World) (e : Event) : Prop where
  drawn : ∀ id, e.drawn = some id → Uuid id
  fetched : ∀ blob, e.fetched = some blob → ∃ e' ∈ w.past, e'.uploaded = some blob

section Sessions

/-- A ratchet session that can only send what the server accepts. -/
structure Sendable (s : RatchetSession) : Prop where
  short : Short s.sessionId
  key : s.state.cks.isSome → PublicKey s.state.dhsPub
  sent : s.state.ns ≤ s.sendTotal
  previous : s.state.pn ≤ s.sendTotal
  keyed : ∀ block, s.init = some block → Keyed block

theorem short_of_uuid {id : String} (uuid : Uuid id) : Short id := by
  have all : ("0123456789abcdef-".toList.all fun c => decide ((Utf.unitsOf c.toNat).length = 1)) = true := by
    decide +kernel
  have one : ∀ c ∈ "0123456789abcdef-".toList, (Utf.unitsOf c.toNat).length = 1 :=
    fun c member => of_decide_eq_true (List.all_eq_true.mp all c member)
  have length : (Utf.ofString id).length = 36 := by
    rw [Utf.ofString, List.length_flatMap, ← uuid.1,
      List.map_congr_left fun c member => one c (uuid.2 c member)]
    simp
  refine ⟨fun none => ?_, by omega⟩
  rw [none] at length
  cases length

theorem short_of_accepted {libraries : Libraries} {envelope : AnyEnvelope}
    (accepted : Dm.EnvelopeValidator.validate (json libraries envelope) = .ok ()) :
    Short envelope.sessionId := by
  have checked : Dm.EnvelopeValidator.session (json libraries envelope) = .ok () := by
    simp only [Dm.EnvelopeValidator.validate, bind_eq_ok] at accepted
    obtain ⟨_, _, _, checked, _⟩ := accepted
    exact checked
  have isId : Dm.get (json libraries envelope) "sessionId" =
      .string (Utf.ofString envelope.sessionId) := by
    cases envelope <;> rfl
  rw [Dm.EnvelopeValidator.session, isId] at checked
  dsimp only at checked
  by_cases unfit : Utf.ofString envelope.sessionId = [] ∨
      64 < (Utf.ofString envelope.sessionId).length
  · rw [if_pos unfit] at checked
    cases checked
  · obtain ⟨some, few⟩ := not_or.mp unfit
    exact ⟨some, by omega⟩

theorem sendable_startInitiator {conversationId peerId sessionId : String} {identity : StoredIdentity}
    {bundle : PeerBundle} {ek dhs now : Nat} {session : RatchetSession} (short : Short sessionId)
    (generated : Generated identity)
    (started : startInitiator conversationId peerId identity bundle ek dhs sessionId now =
      .ok session) : Sendable session := by
  obtain ⟨_, spkB, _, _, dh1, dh2, dh3, state, _, _, _, _, _, _, begun, rfl⟩ :=
    startInitiator_ok started
  obtain ⟨_, _, rfl⟩ := initInitiator_ok begun
  obtain ⟨ed, x, spk, created, rfl⟩ := generated
  refine ⟨short, fun _ => ⟨dhs, rfl⟩, Nat.le_refl 0, Nat.le_refl 0, fun block isBlock => ?_⟩
  obtain rfl := Option.some.inj isBlock
  exact ⟨⟨ek, rfl⟩, x, rfl⟩

theorem sendable_startResponder {conversationId peerId sessionId : String} {identity : StoredIdentity}
    {init : Init} {now : Nat} {session : RatchetSession} (short : Short sessionId)
    (started : startResponder conversationId peerId sessionId identity init now = .ok session) :
    Sendable session := by
  obtain ⟨_, _, _, _, _, _, _, _, _, _, _, _, _, _, _, _, _, rfl⟩ :=
    startResponder_eq_ok.mp started
  exact ⟨short, nofun, Nat.le_refl 0, Nat.le_refl 0, nofun⟩

/-- A frame that is opened leaves the sending side alone, or turns it to a new chain. -/
theorem sending_after {state next : RatchetState} {message : RatchetMessage} {ad : Term}
    {now fresh : Nat} {text : List UInt16}
    (opened : ratchetDecrypt state message ad now fresh = .ok (text, next)) :
    (next.cks = state.cks ∧ next.dhsPub = state.dhsPub ∧ next.ns = state.ns ∧ next.pn = state.pn) ∨
      (PublicKey next.dhsPub ∧ next.ns = 0 ∧ next.pn = state.ns) := by
  have skips {before after : RatchetState} {limit : JsNumber}
      (skipped : skipUntil before limit now = .ok after) : after.cks = before.cks ∧
        after.dhsPub = before.dhsPub ∧ after.ns = before.ns ∧ after.pn = before.pn := by
    rcases skipUntil_ok skipped with ⟨_, rfl⟩ | ⟨_, _, _, _, _, rfl⟩ <;> exact ⟨rfl, rfl, rfl, rfl⟩
  rcases ratchetDecrypt_ok opened with ⟨_, _, _, _, _, rfl⟩ | ⟨_, followed, reached, _, isFollowed,
    isReached, _, _, rfl⟩
  · exact .inl ⟨rfl, rfl, rfl, rfl⟩
  · obtain ⟨chain, key, sent, previous⟩ := skips isReached
    rcases followHeader_ok isFollowed with ⟨_, closed, isClosed, turned⟩ | ⟨_, _, rfl⟩
    · obtain ⟨_, _, sentBefore, _⟩ := skips isClosed
      obtain ⟨_, _, _, _, _, _, _, _, _, _, rfl⟩ := dhRatchet_ok turned
      exact .inr ⟨⟨fresh, key⟩, sent, previous.trans sentBefore⟩
    · exact .inl ⟨chain, key, sent, previous⟩

theorem Sendable.opened {session next : RatchetSession} {senderId : String} {text : List UInt16}
    {envelope : WireEnvelopeV2} {now fresh : Nat} (sendable : Sendable session)
    (opened : openV2 session senderId envelope now fresh = .ok (text, next)) : Sendable next := by
  obtain ⟨_, _, state, _, decrypted, rfl⟩ := openV2_ok opened
  have sent := sendable.sent
  have previous := sendable.previous
  rcases sending_after decrypted with ⟨chain, key, isSent, isPrevious⟩ | ⟨key, isSent, isPrevious⟩
  · refine ⟨sendable.short, ?_, isSent ▸ sent, isPrevious ▸ previous, sendable.keyed⟩
    simp only [chain, key]
    exact sendable.key
  · exact ⟨sendable.short, fun _ => key, isSent ▸ Nat.zero_le _, isPrevious ▸ sent, sendable.keyed⟩

theorem Sendable.sealed {session next : RatchetSession} {senderId : String} {text : List UInt16}
    {envelope : WireEnvelopeV2} (sendable : Sendable session)
    (sent : sealV2 session senderId text = .ok (envelope, next)) :
    Sendable next ∧ Fits (Utf.encode text).length (.v2 envelope) := by
  obtain ⟨message, state, encrypted, rfl, rfl⟩ := sealV2_ok sent
  obtain ⟨cks, ck, isChain, _, isHeader, isCiphertext, rfl⟩ := ratchetEncrypt_ok encrypted
  have key : PublicKey session.state.dhsPub := sendable.key (by rw [isChain]; rfl)
  constructor
  · exact ⟨sendable.short, fun _ => key, Nat.succ_le_succ sendable.sent,
      Nat.le_succ_of_le sendable.previous, sendable.keyed⟩
  · refine .v2 session.sendTotal session.state.pn session.state.ns rfl ?_ ?_
      ⟨sendable.previous, sendable.sent⟩ ?_ sendable.short ?_ fun block isBlock => ?_
    · rw [isHeader]
    · rw [isHeader]
    · rw [isHeader]
      exact key
    · exact ⟨_, _, _, _, by rw [isCiphertext]; rfl, rfl⟩
    · by_cases attached : session.role = .init ∧ !session.peerReplied
      · rw [if_pos attached] at isBlock
        exact sendable.keyed block isBlock
      · rw [if_neg attached] at isBlock
        cases isBlock

end Sessions

section Invariant

/-- The writes that leave only sessions fit to send with. -/
def Allows : Op → Prop
  | .saveSession session => Short session.sessionId
  | .putCommit row _ => Sendable row.session
  | .putBackup blob => ∀ s ∈ blob.payload.sessions, Short s.sessionId
  | _ => True

/-- What is known of what is read. -/
def Answers : (op : Op) → op.Res → Prop
  | .randomUUID, .ok id => Short id
  | .loadSession _, .ok found => ∀ s, found = some s → Short s.sessionId
  | .loadConversationSessions _, .ok rows => ∀ s ∈ rows, Short s.sessionId
  | .allSessions, .ok rows => ∀ s ∈ rows, Short s.sessionId
  | .getRatchet _, .ok found => ∀ row, found = some row → Sendable row.session
  | .getRatchets _, .ok rows => ∀ row ∈ rows, Sendable row.session
  | .getBackup, .ok blob => ∀ s ∈ blob.payload.sessions, Short s.sessionId
  | _, _ => True

structure Inv (w : World) : Prop where
  sessions : ∀ n, ∀ s ∈ (w.devices n).sessions.rows, Short s.sessionId
  ratchets : ∀ n, ∀ row ∈ (w.devices n).ratchets.rows, Sendable row.session
  uploads : ∀ e ∈ w.past, ∀ blob, e.uploaded = some blob →
    ∀ s ∈ blob.payload.sessions, Short s.sessionId

variable {w : World} {e : Event} {d : Device}

theorem rows_after {t : Nat} {before : Device} {op : Op}
    (sessions : ∀ s ∈ before.sessions.rows, Short s.sessionId)
    (ratchets : ∀ row ∈ before.ratchets.rows, Sendable row.session) (allows : Allows op) :
    (∀ s ∈ (Store.effect t op before).sessions.rows, Short s.sessionId) ∧
      ∀ row ∈ (Store.effect t op before).ratchets.rows, Sendable row.session := by
  cases op with
  | saveSession session =>
      refine ⟨fun s member => ?_, ratchets⟩
      rcases Table.mem_put member with rfl | old
      · exact allows
      · exact sessions s old
  | putCommit written message =>
      refine ⟨sessions, fun row member => ?_⟩
      rcases Table.mem_put member with rfl | old
      · exact allows
      · exact ratchets row old
  | deleteConversationData conversationId =>
      exact ⟨fun s member => sessions s (Table.mem_remove.mp member).1, ratchets⟩
  | deleteVault convId =>
      exact ⟨sessions, fun row member => ratchets row (Table.mem_remove.mp member).1⟩
  | _ => exact ⟨sessions, ratchets⟩

theorem Inv.record (inv : Inv w) (performs : w.Performs Permitted e d) (allows : Allows e.op) :
    Inv (w.record e d) := by
  have isBefore : e.before = w.devices e.client.device := performs.before
  have rows : (∀ s ∈ d.sessions.rows, Short s.sessionId) ∧
      ∀ row ∈ d.ratchets.rows, Sendable row.session := by
    rcases exec_cases performs.exec with ⟨_, _, rfl⟩ | ⟨_, _, rfl, _⟩
    · rw [isBefore]
      exact ⟨inv.sessions _, inv.ratchets _⟩
    · rw [isBefore]
      exact rows_after (inv.sessions _) (inv.ratchets _) allows
  refine ⟨fun n => ?_, fun n => ?_, fun e' member blob uploaded => ?_⟩
  · by_cases same : n = e.client.device
    · rw [same, World.record_device_self]
      exact rows.1
    · rw [World.record_device_of_ne _ _ _ same]
      exact inv.sessions n
  · by_cases same : n = e.client.device
    · rw [same, World.record_device_self]
      exact rows.2
    · rw [World.record_device_of_ne _ _ _ same]
      exact inv.ratchets n
  · rcases List.mem_cons.mp member with rfl | old
    · obtain ⟨t, client, op, result, before⟩ := e'
      unfold Event.uploaded at uploaded
      split at uploaded
      next sent _ isPut _ =>
        obtain rfl : op = .putBackup sent := isPut
        obtain rfl := Option.some.inj uploaded
        exact allows
      next => cases uploaded
    · exact inv.uploads e' old blob uploaded

theorem answers_of_performs (inv : Inv w) (performs : w.Performs Permitted e d) :
    Answers e.op e.result := by
  obtain ⟨t, client, op, result, before⟩ := e
  have isBefore : before = w.devices client.device := performs.before
  have sessions := inv.sessions client.device
  have ratchets := inv.ratchets client.device
  rw [← isBefore] at sessions ratchets
  have exec : Exec t before op result d := performs.exec
  rcases exec_cases exec with ⟨e, isError, _⟩ | ⟨value, isValue, _, a, replied⟩
  · have silent : Answers op (.error e) := by cases op <;> trivial
    exact isError ▸ silent
  subst isValue
  cases op with
  | randomUUID => exact short_of_uuid (performs.permitted.drawn value rfl)
  | loadSession sessionId =>
      intro s found
      have stored : before.sessions.get sessionId = value := Except.ok.inj replied
      exact sessions s (Table.mem_of_get (stored.trans found))
  | loadConversationSessions conversationId =>
      intro s member
      obtain rfl := Except.ok.inj replied
      exact sessions s (List.mem_filter.mp member).1
  | allSessions =>
      intro s member
      obtain rfl := Except.ok.inj replied
      exact sessions s member
  | getRatchet sessionId =>
      intro row found
      have stored : before.ratchets.get sessionId = value := Except.ok.inj replied
      exact ratchets row (Table.mem_of_get (stored.trans found))
  | getRatchets convId =>
      intro row member
      obtain rfl := Except.ok.inj replied
      exact ratchets row (List.mem_filter.mp member).1
  | getBackup =>
      obtain ⟨e', member, uploaded⟩ := performs.permitted.fetched value rfl
      exact inv.uploads e' member value uploaded
  | _ => trivial

end Invariant

section Programs

variable {libraries : Libraries} {t : Nat} {α β : Type}

abbrev runs (libraries : Libraries) : System Op Op.Res World Report :=
  recorded (Admitted libraries) Permitted

/-- A part of a call keeps the invariant under every interleaving, and what it returns. -/
abbrev Keeps (libraries : Libraries) (t : Nat) (p : Prog α) (post : Except JsError α → Prop) : Prop :=
  Async.Keeps (runs libraries).exec Inv t p post

theorem keeps_op {op : Op} (allows : Allows op) : Keeps libraries t (call op) (Answers op) := by
  refine fun w _ => Async.keeps_call (fun w answer w' inv performed => ?_) w
  obtain ⟨client, d, performs, rfl⟩ := performed
  exact ⟨inv.record performs allows, answers_of_performs inv performs⟩

/-- Operations that write no session and upload nothing. -/
theorem keeps_uses {p : Prog α} (uses : Uses Allows p.run) : Keeps libraries t p fun _ => True := by
  refine Async.keeps_uses (fun op allows w answer w' inv performed => ?_) uses
  obtain ⟨client, d, performs, rfl⟩ := performed
  exact inv.record performs allows

def OnSuccess (post : α → Prop) : Except JsError α → Prop
  | .ok value => post value
  | .error _ => True

theorem keeps_then {p : Prog α} {f : α → Prog β} {middle : α → Prop} {post : β → Prop}
    (first : Keeps libraries t p (OnSuccess middle))
    (rest : ∀ value, middle value → Keeps libraries t (f value) (OnSuccess post)) :
    Keeps libraries t (p >>= f) (OnSuccess post) :=
  keeps_bind _ first rest fun _ _ => trivial

theorem keeps_known {op : Op} {post : op.Val → Prop} (allows : Allows op)
    (known : ∀ value, Answers op (.ok value) → post value) :
    Keeps libraries t (call op) (OnSuccess post) := by
  refine (keeps_op allows).mono fun result answers => ?_
  cases result with
  | error _ => trivial
  | ok value => exact known value answers

theorem keeps_aside {p : Prog α} {f : α → Prog β} {post : β → Prop} (uses : Uses Allows p.run)
    (rest : ∀ value, Keeps libraries t (f value) (OnSuccess post)) :
    Keeps libraries t (p >>= f) (OnSuccess post) :=
  keeps_bind _ (keeps_uses uses) (fun value _ => rest value) fun _ _ => trivial

theorem allows_storeFree (op : Op) (free : StoreFree op) (silent : ∀ blob, op ≠ .putBackup blob) :
    Allows op := by
  cases op with
  | putBackup blob => exact absurd rfl (silent blob)
  | saveSession | putCommit | deleteConversationData | deleteVault => exact absurd free id
  | _ => trivial

theorem allows_pinOp {peerId : String} (op : Op) (member : PinOp peerId op) : Allows op :=
  allows_storeFree op (storeFree_of_pinOp op member) fun _ isPut => by rw [isPut] at member; exact member

theorem allows_identityOp (op : Op) (member : IdentityOp op) : Allows op :=
  allows_storeFree op (storeFree_of_identityOp op member) fun _ isPut => by
    rw [isPut] at member; exact member

theorem allows_lookupOp (op : Op) (member : LookupOp op) : Allows op :=
  allows_storeFree op (storeFree_of_lookupOp op member) fun _ isPut => by
    rw [isPut] at member; exact member

theorem allows_dekOp (op : Op) (member : DekOp op) : Allows op :=
  allows_storeFree op (storeFree_of_dekOp op member) fun _ isPut => by
    rw [isPut] at member; exact member

theorem keeps_existingDek (convId : String) :
    Keeps libraries t (existingDek convId) (OnSuccess fun _ => True) :=
  (keeps_uses ((uses_existingDek convId).mono allows_lookupOp)).mono fun result _ => by
    cases result <;> trivial

theorem keeps_loadRatchet (convId sessionId : String) :
    Keeps libraries t (loadRatchet convId sessionId)
      (OnSuccess fun found => ∀ session, found = some session → Sendable session) := by
  refine keeps_then (keeps_existingDek convId) fun key _ => ?_
  cases key with
  | none => exact keeps_pure fun _ impossible => by cases impossible
  | some key =>
      have reads : Keeps libraries t (call (.getRatchet sessionId))
          (OnSuccess fun found => ∀ row, found = some row → Sendable row.session) :=
        keeps_known trivial fun _ => id
      refine keeps_then reads fun found known => ?_
      cases found with
      | none => exact keeps_pure fun _ impossible => by cases impossible
      | some row =>
          dsimp only
          split
          · exact keeps_pure fun _ impossible => by cases impossible
          split
          · exact keeps_throw trivial
          · refine keeps_pure fun session isSession => ?_
            obtain rfl := Option.some.inj isSession
            exact known row rfl

theorem keeps_latestRatchet (convId : String) :
    Keeps libraries t (latestRatchet convId)
      (OnSuccess fun found => ∀ session, found = some session → Sendable session) := by
  refine keeps_then (keeps_existingDek convId) fun key _ => ?_
  cases key with
  | none => exact keeps_pure fun _ impossible => by cases impossible
  | some key =>
      have reads : Keeps libraries t (call (.getRatchets convId))
          (OnSuccess fun rows => ∀ row ∈ rows, Sendable row.session) :=
        keeps_known trivial fun _ => id
      refine keeps_then reads fun rows known => keeps_pure fun session isNewest => ?_
      obtain ⟨row, member, rfl⟩ := List.mem_map.mp (List.argmax_mem isNewest)
      exact known row (List.mem_filter.mp member).1

theorem keeps_commit {convId msgKey : String} {session : RatchetSession} {text : List UInt16}
    (sendable : Sendable session) :
    Keeps libraries t (commit convId session msgKey text) (OnSuccess fun _ => True) := by
  refine keeps_aside ((uses_ensureDek convId).mono allows_dekOp) fun key => ?_
  exact keeps_known sendable fun _ _ => trivial

/-- The bytes that the padding makes of a text. -/
def padded (text : List UInt16) : Nat :=
  max PAD_BUCKET (((Utf.encode text).length + 2 + (PAD_BUCKET - 1)) / PAD_BUCKET * PAD_BUCKET)

theorem padded_le {text : List UInt16} (few : text.length ≤ 2000) : padded text ≤ 6144 := by
  have bound := Utf.length_encode_le text
  simp only [padded, PAD_BUCKET]
  omega

theorem pad_ok {text : List UInt16} {t : Term} (isPadded : pad text = .ok t) :
    ∃ data, t = .bytes data ∧ data.length = padded text := by
  unfold pad at isPadded
  dsimp only at isPadded
  split at isPadded
  · cases isPadded
  · obtain rfl := Except.ok.inj isPadded
    refine ⟨_, rfl, ?_⟩
    simp only [List.length_cons, List.length_append, List.length_replicate, padded, PAD_BUCKET]
    omega

/-- An envelope the server accepts, as long as the text is. -/
def Posted (text : List UInt16) (envelope : AnyEnvelope) : Prop :=
  ∃ length ≤ padded text, Fits length envelope

theorem posted_seal {session : StoredSession} {conversationId senderId : String} {ctr : Nat}
    {text : List UInt16} {init : Option Init} {envelope : WireEnvelope}
    (short : Short session.sessionId)
    (sent : Envelope.seal session conversationId senderId ctr text init = .ok envelope)
    (attached : Option Init) (keyed : ∀ block, attached = some block → Keyed block) :
    Posted text (.v1 { envelope with init := attached }) := by
  obtain ⟨chain, term, _, isPadded, rfl⟩ := seal_ok sent
  obtain ⟨data, rfl, isLength⟩ := pad_ok isPadded
  exact ⟨padded text, Nat.le_refl _, .v1 ctr rfl rfl short ⟨_, _, data, _, rfl, isLength⟩ keyed⟩

theorem allows_fetchAndPinBundle (peerId : String) :
    Uses Allows (fetchAndPinBundle peerId).run :=
  (uses_fetchAndPinBundle peerId).mono allows_pinOp

theorem keeps_drawn : Keeps libraries t (call .randomUUID) (OnSuccess Short) :=
  keeps_known trivial fun _ => id

theorem keeps_startRatchet {conversationId peerId : String} {identity : StoredIdentity}
    (generated : Generated identity) :
    Keeps libraries t (startRatchet conversationId peerId identity) (OnSuccess Sendable) := by
  refine keeps_aside (allows_fetchAndPinBundle peerId) fun bundle => ?_
  refine keeps_aside (uses_op trivial) fun ek => ?_
  refine keeps_then keeps_drawn fun sessionId short => ?_
  refine keeps_aside (uses_op trivial) fun now => ?_
  refine keeps_aside (uses_op trivial) fun dhs => keeps_lift ?_
  cases started : startInitiator conversationId peerId identity bundle ek dhs sessionId now with
  | error _ => trivial
  | ok session => exact sendable_startInitiator short generated started

theorem keeps_encryptV2 {this : Tab} {conversationId : String} {session : RatchetSession}
    {text : List UInt16} (sendable : Sendable session) :
    Keeps libraries t (encryptV2 this conversationId session text) (OnSuccess (Posted text)) := by
  refine keeps_aside (uses_myUserId this) fun me => ?_
  have seals : Keeps libraries t (lift (sealV2 session me text) : Prog (WireEnvelopeV2 × RatchetSession))
      (OnSuccess fun sent => Sendable sent.2 ∧ Fits (Utf.encode text).length (.v2 sent.1)) := by
    refine keeps_lift ?_
    cases sent : sealV2 session me text with
    | error _ => trivial
    | ok sent' => exact sendable.sealed sent
  refine keeps_then seals fun ⟨envelope, next⟩ ⟨sendable', fits⟩ => ?_
  refine keeps_then (keeps_commit sendable') fun _ _ => keeps_pure ⟨_, ?_, fits⟩
  simp only [padded, PAD_BUCKET]
  omega

/-- A v1 session to send on, with the init block of a new one. -/
def Ready (found : StoredSession × Option Init) : Prop :=
  Short found.1.sessionId ∧ ∀ block, found.2 = some block → Keyed block

theorem keeps_startSession {conversationId peerId : String} {identity : StoredIdentity}
    (generated : Generated identity) :
    Keeps libraries t (startSession conversationId peerId identity) (OnSuccess Ready) := by
  refine keeps_aside (allows_fetchAndPinBundle peerId) fun bundle => ?_
  refine keeps_aside (uses_op trivial) fun ek => ?_
  refine keeps_then keeps_drawn fun sessionId short => ?_
  refine keeps_aside (uses_op trivial) fun now => ?_
  have initiates : Keeps libraries t (lift (Session.initiateSession conversationId peerId identity
      bundle ek sessionId now) : Prog Session.InitiatedSession)
      (OnSuccess fun initiated => Short initiated.session.sessionId ∧ Keyed initiated.init) := by
    refine keeps_lift ?_
    cases started : Session.initiateSession conversationId peerId identity bundle ek sessionId now with
    | error _ => trivial
    | ok initiated =>
        obtain ⟨_, _, _, _, _, _, _, ik, _, _, _, _, _, _, isIk, rfl⟩ :=
          Session.initiateSession_ok started
        obtain ⟨ed, x, spk, created, rfl⟩ := generated
        obtain rfl : .pub x = ik := Except.ok.inj isIk
        exact ⟨short, ⟨ek, rfl⟩, x, rfl⟩
  refine keeps_then initiates fun initiated ⟨isShort, keyed⟩ => keeps_pure ⟨isShort, ?_⟩
  intro block isBlock
  exact Option.some.inj isBlock ▸ keyed

theorem keeps_sendingSession {conversationId peerId : String} {identity : StoredIdentity}
    (generated : Generated identity) :
    Keeps libraries t (sendingSession conversationId peerId identity) (OnSuccess Ready) := by
  have chosen : Keeps libraries t (activeSession conversationId)
      (OnSuccess fun found => ∀ session, found = some session → Short session.sessionId) := by
    have reads : Keeps libraries t (call (.loadConversationSessions conversationId))
        (OnSuccess fun rows => ∀ s ∈ rows, Short s.sessionId) :=
      keeps_known trivial fun _ => id
    exact keeps_then reads fun rows known => keeps_pure fun session isChosen =>
      known session (chooseSession_mem isChosen)
  refine keeps_then chosen fun found known => ?_
  cases found with
  | none => exact keeps_startSession generated
  | some session =>
      have short := known session rfl
      refine keeps_aside (uses_op trivial) fun now => ?_
      split
      · refine keeps_aside (uses_op trivial) fun retiredAt => ?_
        have saves : Keeps libraries t (call (.saveSession { session with retiredAt := some retiredAt }))
            (OnSuccess fun _ => True) := keeps_known short fun _ _ => trivial
        exact keeps_then saves fun _ _ => keeps_startSession generated
      · exact keeps_pure ⟨short, fun _ impossible => by cases impossible⟩

theorem keeps_encryptV1 {this : Tab} {conversationId peerId : String} {identity : StoredIdentity}
    {text : List UInt16} (generated : Generated identity) :
    Keeps libraries t (encryptV1 this conversationId peerId identity text)
      (OnSuccess (Posted text)) := by
  refine keeps_then (keeps_sendingSession generated) fun ⟨session, init⟩ ⟨short, keyed⟩ => ?_
  have saves : Keeps libraries t (call (.saveSession { session with sendCtr := session.sendCtr + 1 }))
      (OnSuccess fun _ => True) := keeps_known short fun _ _ => trivial
  refine keeps_then saves fun _ _ => ?_
  have finish : Keeps libraries t (do
      let me ← myUserId this
      let envelope ← lift (Envelope.seal { session with sendCtr := session.sendCtr + 1 }
        conversationId me session.sendCtr text init)
      return AnyEnvelope.v1
        (if init.isSome ∧ session.sendCtr > 0 then { envelope with init } else envelope))
      (OnSuccess (Posted text)) := by
    refine keeps_aside (uses_myUserId this) fun me => ?_
    have seals : Keeps libraries t (lift (Envelope.seal { session with sendCtr := session.sendCtr + 1 }
        conversationId me session.sendCtr text init) : Prog WireEnvelope)
        (OnSuccess fun envelope => (∀ block, envelope.init = some block → Keyed block) ∧
          ∀ attached : Option Init, (∀ block, attached = some block → Keyed block) →
            Posted text (.v1 { envelope with init := attached })) := by
      refine keeps_lift ?_
      cases sent : Envelope.seal { session with sendCtr := session.sendCtr + 1 } conversationId me
        session.sendCtr text init with
      | error _ => trivial
      | ok envelope =>
          refine ⟨?_, posted_seal short sent⟩
          obtain ⟨_, _, _, _, rfl⟩ := seal_ok sent
          intro block isBlock
          dsimp only at isBlock
          split at isBlock
          · exact keyed block isBlock
          · cases isBlock
    refine keeps_then seals fun envelope ⟨own, posted⟩ => keeps_pure ?_
    dsimp only [OnSuccess]
    split
    · exact posted init keyed
    · exact posted envelope.init own
  dsimp only
  split
  · exact keeps_aside (uses_op trivial) fun _ => finish
  · exact finish

theorem keeps_withLock {name : String} {body : Prog α} {post : α → Prop}
    (keeps : Keeps libraries t body (OnSuccess post)) :
    Keeps libraries t (withLock name body) (OnSuccess post) := by
  refine keeps_aside (uses_op trivial) fun _ => ?_
  have settles : Keeps libraries t (settle body) (OnSuccess (OnSuccess post)) := keeps_settle keeps
  refine keeps_then settles fun result known => ?_
  exact keeps_aside (uses_op trivial) fun _ => keeps_lift known

theorem keeps_encrypt {this : Tab} {conversationId peerId : String} {text : List UInt16}
    (generated : ∀ identity, this.identity = some identity → Generated identity) :
    Keeps libraries t (encrypt this conversationId peerId text) (OnSuccess (Posted text)) := by
  have requires : Keeps libraries t (requireIdentity this) (OnSuccess Generated) := by
    unfold requireIdentity
    split
    next identity isIdentity => exact keeps_pure (generated identity isIdentity)
    next => exact keeps_throw trivial
  refine keeps_then requires fun identity isGenerated => keeps_withLock ?_
  refine keeps_then (keeps_latestRatchet conversationId) fun found known => ?_
  cases found with
  | some session => exact keeps_encryptV2 (known session rfl)
  | none =>
      refine keeps_aside (uses_op trivial) fun enabled => ?_
      split
      · exact keeps_then (keeps_startRatchet isGenerated) fun session => keeps_encryptV2
      · exact keeps_encryptV1 isGenerated

theorem keeps_receivingSession {conversationId senderId : String} {envelope : WireEnvelope}
    {own : Bool} {identity : StoredIdentity} (short : Short envelope.sessionId) :
    Keeps libraries t (receivingSession conversationId senderId envelope own identity)
      (OnSuccess fun found => ∀ s, found.1 = some s → Short s.sessionId) := by
  have reads : Keeps libraries t (call (.loadSession envelope.sessionId))
      (OnSuccess fun found => ∀ s, found = some s → Short s.sessionId) :=
    keeps_known trivial fun _ => id
  refine keeps_then reads fun found known => ?_
  cases found with
  | some session => exact keeps_pure known
  | none =>
      dsimp only
      split
      next init _ =>
        refine keeps_aside ((uses_checkPeerIdentity ..).mono allows_pinOp) fun changed => ?_
        refine keeps_aside (uses_op trivial) fun now => ?_
        have accepts : Keeps libraries t (lift (Session.acceptSession conversationId senderId
            envelope.sessionId identity init now) : Prog StoredSession)
            (OnSuccess fun session => Short session.sessionId) := by
          refine keeps_lift ?_
          cases accepted : Session.acceptSession conversationId senderId envelope.sessionId identity
            init now with
          | error _ => trivial
          | ok session =>
              have isId := (Session.acceptSession_record accepted).1
              change Short session.sessionId
              rwa [isId]
        refine keeps_then accepts fun session isShort => ?_
        have saves : Keeps libraries t (call (.saveSession session)) (OnSuccess fun _ => True) :=
          keeps_known isShort fun _ _ => trivial
        refine keeps_then saves fun _ _ => ?_
        refine keeps_aside (uses_op trivial) fun _ => keeps_pure fun s isSession => ?_
        exact Option.some.inj isSession ▸ isShort
      next => exact keeps_pure fun _ impossible => by cases impossible

theorem keeps_decryptV1 {conversationId senderId : String} {envelope : WireEnvelope}
    {own : Bool} {identity : StoredIdentity} (short : Short envelope.sessionId) :
    Keeps libraries t (decryptV1 conversationId senderId envelope own identity)
      (OnSuccess fun _ => True) := by
  have body : Keeps libraries t (decryptV1Body conversationId senderId envelope own identity)
      (OnSuccess fun _ => True) := by
    refine keeps_then (keeps_receivingSession short) fun ⟨found, keyChanged⟩ known => ?_
    cases found with
    | none => exact keeps_pure trivial
    | some session =>
        refine keeps_aside uses_lift fun text => ?_
        dsimp only
        split
        · have saves : Keeps libraries t
              (call (.saveSession { session with peerMaxCtr := envelope.ctr }))
              (OnSuccess fun _ => True) := keeps_known (known session rfl) fun _ _ => trivial
          exact keeps_then saves fun _ _ => keeps_pure trivial
        · exact keeps_pure trivial
  exact keeps_tryCatch _ body (fun _ => id) fun _ _ => keeps_pure trivial

theorem keeps_receivingRatchet {conversationId senderId : String} {envelope : WireEnvelopeV2}
    {identity : StoredIdentity} (short : Short envelope.sessionId) :
    Keeps libraries t (receivingRatchet conversationId senderId envelope identity)
      (OnSuccess fun found => ∀ session, found.1 = some session → Sendable session) := by
  refine keeps_then (keeps_loadRatchet _ _) fun found known => ?_
  cases found with
  | some session => exact keeps_pure known
  | none =>
      dsimp only
      split
      next => exact keeps_pure fun _ impossible => by cases impossible
      next init _ =>
        refine keeps_aside ((uses_checkPeerIdentity ..).mono allows_pinOp) fun changed => ?_
        refine keeps_aside (uses_op trivial) fun now => ?_
        have starts : Keeps libraries t (lift (startResponder conversationId senderId
            envelope.sessionId identity init now) : Prog RatchetSession) (OnSuccess Sendable) := by
          refine keeps_lift ?_
          cases started : startResponder conversationId senderId envelope.sessionId identity init
            now with
          | error _ => trivial
          | ok session => exact sendable_startResponder short started
        refine keeps_then starts fun session sendable => keeps_pure fun s isSession => ?_
        exact Option.some.inj isSession ▸ sendable

theorem keeps_decryptV2Locked {conversationId senderId : String} {envelope : WireEnvelopeV2}
    {identity : StoredIdentity} (short : Short envelope.sessionId) :
    Keeps libraries t (decryptV2Locked conversationId senderId envelope identity)
      (OnSuccess fun _ => True) := by
  refine keeps_aside ((uses_loadMessage _ _).mono allows_lookupOp) fun found => ?_
  cases found with
  | some again => exact keeps_pure trivial
  | none =>
      refine keeps_then (keeps_receivingRatchet short) fun ⟨found, keyChanged⟩ known => ?_
      cases found with
      | none => exact keeps_pure trivial
      | some session =>
          refine keeps_aside (uses_op trivial) fun now => ?_
          refine keeps_aside (uses_op trivial) fun fresh => ?_
          have opens : Keeps libraries t (lift (openV2 session senderId envelope now fresh) :
              Prog (List UInt16 × RatchetSession)) (OnSuccess fun read => Sendable read.2) := by
            refine keeps_lift ?_
            cases opened : openV2 session senderId envelope now fresh with
            | error _ => trivial
            | ok read => exact (known session rfl).opened opened
          refine keeps_then opens fun ⟨text, next⟩ sendable => ?_
          exact keeps_then (keeps_commit sendable) fun _ _ => keeps_pure trivial

theorem keeps_decrypt {this : Tab} {conversationId senderId : String} {envelope : AnyEnvelope}
    {own : Bool} (short : Short envelope.sessionId) :
    Keeps libraries t (decrypt this conversationId senderId envelope own)
      (OnSuccess fun _ => True) := by
  refine keeps_aside ((uses_cachedIdentity this).mono ?_) fun found => ?_
  · rintro _ rfl
    trivial
  cases found with
  | none => exact keeps_pure trivial
  | some identity =>
      cases envelope with
      | v1 envelope => exact keeps_decryptV1 short
      | v2 envelope =>
          have body : Keeps libraries t (decryptV2Body conversationId senderId envelope own identity)
              (OnSuccess fun _ => True) := by
            refine keeps_aside ((uses_loadMessage _ _).mono allows_lookupOp) fun found => ?_
            cases found with
            | some stored => exact keeps_pure trivial
            | none =>
                dsimp only
                split
                · exact keeps_pure trivial
                · exact keeps_withLock (keeps_decryptV2Locked short)
          exact keeps_tryCatch _ body (fun _ => id) fun _ _ => keeps_pure trivial

theorem keeps_encryptAndUpload (salt : Nat) (key : BackupKey) :
    Keeps libraries t (encryptAndUpload salt key) (OnSuccess fun _ => True) := by
  refine keeps_aside (uses_op trivial) fun found => ?_
  cases found with
  | none => exact keeps_throw trivial
  | some identity =>
      have reads : Keeps libraries t (call .allSessions)
          (OnSuccess fun rows => ∀ s ∈ rows, Short s.sessionId) :=
        keeps_known trivial fun _ => id
      refine keeps_then reads fun sessions known => ?_
      refine keeps_aside (uses_op trivial) fun exportedAt => ?_
      exact keeps_known known fun _ _ => trivial

theorem keeps_uploadBackup (code : String) :
    Keeps libraries t (uploadBackup code) (OnSuccess fun _ => True) := by
  refine keeps_aside (uses_op trivial) fun salt => ?_
  refine keeps_then (keeps_encryptAndUpload _ _) fun _ _ => ?_
  exact keeps_known trivial fun _ _ => trivial

theorem keeps_refreshBackup : Keeps libraries t refreshBackup (OnSuccess fun _ => True) := by
  refine keeps_aside (uses_op trivial) fun found => ?_
  cases found with
  | none => exact keeps_pure trivial
  | some material =>
      exact keeps_then (keeps_encryptAndUpload _ _) fun _ _ => keeps_pure trivial

theorem keeps_saveSessions {sessions : List StoredSession}
    (short : ∀ s ∈ sessions, Short s.sessionId) :
    Keeps libraries t (saveSessions sessions) (OnSuccess fun _ => True) := by
  induction sessions with
  | nil => exact keeps_pure trivial
  | cons session rest ih =>
      have saves : Keeps libraries t (call (.saveSession session)) (OnSuccess fun _ => True) :=
        keeps_known (short session List.mem_cons_self) fun _ _ => trivial
      exact keeps_then saves fun _ _ => ih fun s member => short s (List.mem_cons_of_mem _ member)

theorem keeps_restoreFromBackup (code : String) :
    Keeps libraries t (restoreFromBackup code) (OnSuccess fun _ => True) := by
  have fetches : Keeps libraries t (call .getBackup)
      (OnSuccess fun blob => ∀ s ∈ blob.payload.sessions, Short s.sessionId) :=
    keeps_known trivial fun _ => id
  refine keeps_then fetches fun blob known => ?_
  have finish : Keeps libraries t (do
      call (.saveIdentity blob.payload.identity)
      saveSessions blob.payload.sessions
      call (.saveBackupKeyMaterial { salt := blob.salt, key := deriveBackupKey code blob.salt })
      return blob.payload.identity) (OnSuccess fun _ => True) := by
    refine keeps_aside (uses_op trivial) fun _ => ?_
    refine keeps_then (keeps_saveSessions known) fun _ _ => ?_
    exact keeps_aside (uses_op trivial) fun _ => keeps_pure trivial
  dsimp only
  split
  · exact keeps_bind (fun _ => True) (keeps_throw trivial) (fun _ _ => finish) (fun _ _ => trivial)
  · exact finish

theorem keeps_shredConversation (conversationId : String) :
    Keeps libraries t (shredConversation conversationId) (OnSuccess fun _ => True) := by
  refine keeps_withLock ?_
  refine keeps_aside (uses_op trivial) fun _ => ?_
  refine keeps_aside (uses_op trivial) fun _ => ?_
  refine keeps_aside (uses_op trivial) fun _ => ?_
  exact keeps_aside (uses_op trivial) fun _ => keeps_pure trivial

end Programs

section Runs

variable {libraries : Libraries}

/-- What the report of an encryption says. -/
def Delivers (report : Report) : Prop :=
  ∀ conversationId peerId text envelope, report.call = .encrypt conversationId peerId text →
    report.outcome = .encrypted (.ok envelope) → Posted text envelope

theorem safe_client {w : World} {t : Nat} {client : Client} (admitted : Admitted libraries w client)
    (w' : World) : (Discipline.free (runs libraries).exec Inv).Safe t (fun report _ => Delivers report)
      client.program w' := by
  obtain ⟨⟨this, called⟩, n⟩ := client
  have silent {α : Type} {p : Prog α} {outcome : Except JsError α → Outcome}
      (keeps : Keeps libraries t p (OnSuccess fun _ => True))
      (other : ∀ result envelope, outcome result ≠ .encrypted (.ok envelope)) :
      (Discipline.free (runs libraries).exec Inv).Safe t (fun report _ => Delivers report)
        (Request.report ⟨this, called⟩ outcome p) w' :=
    Discipline.safe_bind ((keeps w' trivial).mono fun result _ _ _ _ _ envelope _ isOutcome =>
      absurd isOutcome (other result envelope))
  have unknown {α : Type} {p : Prog α} (uses : Uses Allows p.run) :
      Keeps libraries t p (OnSuccess fun _ => True) :=
    (keeps_uses uses).mono fun result _ => by cases result <;> trivial
  cases called with
  | encrypt conversationId peerId text =>
      refine Discipline.safe_bind ((keeps_encrypt admitted w' trivial).mono ?_)
      rintro result _ known _ _ text' envelope isCall isOutcome
      obtain ⟨_, _, rfl⟩ := Call.encrypt.inj isCall
      obtain rfl := Outcome.encrypted.inj isOutcome
      exact known
  | decrypt conversationId senderId envelope own =>
      exact silent (keeps_decrypt (short_of_accepted admitted)) fun _ _ impossible => by cases impossible
  | shredConversation conversationId =>
      exact silent (keeps_shredConversation conversationId) fun _ _ impossible => by cases impossible
  | safetyNumberFor peerId =>
      exact silent (unknown ((uses_safetyNumberFor this peerId).mono allows_identityOp))
        fun _ _ impossible => by cases impossible
  | markVerified peerId =>
      exact silent (unknown ((uses_markVerified peerId).mono allows_identityOp))
        fun _ _ impossible => by cases impossible
  | uploadBackup code =>
      exact silent (keeps_uploadBackup code) fun _ _ impossible => by cases impossible
  | refreshBackup => exact silent keeps_refreshBackup fun _ _ impossible => by cases impossible
  | restoreFromBackup code =>
      exact silent (keeps_restoreFromBackup code) fun _ _ impossible => by cases impossible

theorem inv_fresh {start : World} (fresh : Counters.Fresh start) : Inv start where
  sessions n s member := by
    rw [(fresh.devices n).sessions] at member
    cases member
  ratchets n row member := by
    rw [(fresh.devices n).ratchets] at member
    cases member
  uploads e member := by
    rw [fresh.past] at member
    cases member

theorem envelopes_accepted (libraries : Libraries) {start : World} (fresh : Counters.Fresh start)
    {config : Config Op Op.Res World Report}
    (reachable : (recorded (Admitted libraries) Permitted).Reachable start config)
    {t : Nat} {report : Report} (ended : config.threads t = some (.done report))
    {conversationId peerId : String} {text : List UInt16} {envelope : AnyEnvelope}
    (isCall : report.call = .encrypt conversationId peerId text)
    (isEnvelope : report.outcome = .encrypted (.ok envelope)) (fewUnits : text.length ≤ 2000)
    (fewSent : envelope.ctr < 10 ^ 9) :
    Dm.EnvelopeValidator.validate (json libraries envelope) = .ok () := by
  have starts : ∀ t w p w', Inv w → (runs libraries).start t w p w' → Inv w' ∧
      (Discipline.free (runs libraries).exec Inv).Safe t (fun report _ => Delivers report) p w' := by
    rintro t w p w' inv ⟨_, client, admitted, rfl, rfl⟩
    exact ⟨⟨inv.sessions, inv.ratchets, inv.uploads⟩, safe_client admitted _⟩
  have delivered := System.Reachable.keeps (inv_fresh fresh) starts reachable
  obtain ⟨length, bound, fits⟩ := delivered.2 t report ended _ _ _ _ isCall isEnvelope
  exact accepted_of_fits libraries fits (bound.trans (padded_le fewUnits)) fewSent

/-- Terms as bytes of the right lengths. -/
def blankBytes : Term → List UInt8
  | .bytes data => data
  | .pub _ => List.replicate 32 0
  | .aead _ _ plaintext _ => blankBytes plaintext ++ List.replicate 16 0
  | _ => []

def blank : Libraries where
  bytes := blankBytes
  respell _ := btoa
  bytes_data _ := rfl
  length_pub _ := rfl
  length_aead _ _ _ _ := List.length_append

def uuid : String :=
  "01234567-89ab-4cde-8f01-23456789abcd"

/-- An encryption that starts a session, as the directory serves it. -/
def sending : Option (Config Op Op.Res World Report) :=
  (World.schedule (fun client => match client.call with
      | .encrypt .. => client.this.identity = some responder
      | _ => false)
    fun _ e => e.drawn.all (· = uuid) && e.fetched.isNone).follow idle <|
    begins 0 (tabClient 0 (.encrypt "c" "a" (Utf.ofString "hi"))) 14
      { bundle := some senderBundle, uuid }

/-- The envelope of so many messages sent before. -/
def sent (config : Config Op Op.Res World Report) : Option AnyEnvelope :=
  match config.threads 0 with
  | some (.done ⟨⟨_, .encrypt _ _ text⟩, .encrypted (.ok envelope)⟩) =>
      if text.length ≤ 2000 ∧ envelope.ctr < 10 ^ 9 then some envelope else none
  | _ => none

theorem sending_sent : (sending.bind sent).isSome = true := by
  decide +kernel

theorem envelopes_accepted_sending : ∃ config envelope, sending = some config ∧
    sent config = some envelope ∧
    Dm.EnvelopeValidator.validate (json blank envelope) = .ok () := by
  obtain ⟨envelope, isSent⟩ := Option.isSome_iff_exists.mp sending_sent
  obtain ⟨config, ran, isEnvelope⟩ := Option.bind_eq_some_iff.mp isSent
  refine ⟨config, envelope, ran, isEnvelope, ?_⟩
  have isGenerated : Generated responder := ⟨0, 1, 2, 0, rfl⟩
  have all : (uuid.toList.all fun c => decide (c ∈ "0123456789abcdef-".toList)) = true := by
    decide +kernel
  have isUuid : Uuid uuid :=
    ⟨by decide +kernel, fun c member => of_decide_eq_true (List.all_eq_true.mp all c member)⟩
  have reachable : (recorded (Admitted blank) Permitted).Reachable untouched config := by
    refine (Schedule.Sound.follow ?_ .initial untouched_few ran).1
    refine World.schedule_sound (fun w client allowed => ?_) fun w e _ allowed => ?_
    · unfold Admitted
      split at allowed
      next isCall =>
        rw [isCall]
        intro identity isIdentity
        rw [of_decide_eq_true allowed] at isIdentity
        exact Option.some.inj isIdentity ▸ isGenerated
      next => cases allowed
    · obtain ⟨drawn, fetched⟩ := Bool.and_eq_true_iff.mp allowed
      refine ⟨fun id isId => ?_, fun blob isBlob => ?_⟩
      · rw [isId] at drawn
        exact (of_decide_eq_true drawn) ▸ isUuid
      · rw [isBlob] at fetched
        cases fetched
  unfold sent at isEnvelope
  split at isEnvelope
  next ended =>
    split at isEnvelope
    next few =>
      obtain rfl := Option.some.inj isEnvelope
      have fresh : Counters.Fresh untouched := ⟨fun _ => freshDevice_blank, rfl, rfl⟩
      exact envelopes_accepted blank fresh reachable ended rfl rfl few.1 few.2
    next => cases isEnvelope
  next => cases isEnvelope

end Runs

end Wire
