import CipherChat.Service.Footprint

/-!
What an uninterrupted call of the service leaves in the key store and the vault, part by
part.  `exec` is any restriction of what a device may do.
-/

namespace E2EEService

open Async Number Primitives KeyStore Envelope EnvelopeV2 Store

variable {exec : Device → (op : Op) → op.Res → Device → Prop} {t : Nat} {d d' : Device}

theorem ends_saveSession
    (sound : ∀ d op result d', exec d op result d' → Exec t d op result d')
    {session : StoredSession} {result : Except JsError Unit}
    (ends : Ends exec d (call (.saveSession session)) result d') :
    (∃ e, result = .error e ∧ d' = d) ∨
      (result = .ok () ∧ d' = { d with sessions := d.sessions.put session }) := by
  rcases exec_cases (sound _ _ _ _ (ends_call.mp ends)) with failed | ⟨_, rfl, after, _⟩
  · exact .inl failed
  · exact .inr ⟨rfl, after⟩

theorem ends_loadSession
    (sound : ∀ d op result d', exec d op result d' → Exec t d op result d')
    {sessionId : String} {found : Option StoredSession}
    (ends : Ends exec d (call (.loadSession sessionId)) (.ok found) d') :
    found = d.sessions.get sessionId ∧ d' = d := by
  obtain ⟨_, ⟨_, replied⟩, after⟩ := exec_ok.mp (sound _ _ _ _ (ends_call.mp ends))
  simp only [reply, Except.ok.injEq] at replied
  exact ⟨replied.symm, after⟩

theorem sameStores_call
    (sound : ∀ d op result d', exec d op result d' → Exec t d op result d') {op : Op}
    {result : op.Res} (ends : Ends exec d (call op) result d') (free : StoreFree op) :
    SameStores d d' :=
  sameStores_exec free (sound _ _ _ _ (ends_call.mp ends))

theorem sameStores_checkPeerIdentity
    (sound : ∀ d op result d', exec d op result d' → Exec t d op result d') {peerId : String}
    {claimed directory : Option Base64} {keyVersion : JsNumber} {result : Except JsError Bool}
    (ends : Ends exec d (checkPeerIdentity peerId claimed directory keyVersion) result d') :
    SameStores d d' :=
  sameStores_ends sound
    ((uses_checkPeerIdentity peerId claimed directory keyVersion).mono storeFree_of_pinOp) ends

/-- A session derived from the init block of a v1 envelope and stored. -/
structure Accepted (conversationId senderId : String) (envelope : WireEnvelope)
    (identity : StoredIdentity) (d d' : Device) (session : StoredSession) : Prop where
  absent : d.sessions.get envelope.sessionId = none
  derived : ∃ init now, envelope.init = some init ∧
    Session.acceptSession conversationId senderId envelope.sessionId identity init now = .ok session
  sessions : d'.sessions = d.sessions.put session
  ratchets : d'.ratchets = d.ratchets
  messages : d'.messages = d.messages

theorem Accepted.named {conversationId senderId : String} {envelope : WireEnvelope}
    {identity : StoredIdentity} {session : StoredSession}
    (accepted : Accepted conversationId senderId envelope identity d d' session) :
    session.sessionId = envelope.sessionId := by
  obtain ⟨_, _, _, derived⟩ := accepted.derived
  exact (Session.acceptSession_record derived).1

theorem ends_receivingSession
    (sound : ∀ d op result d', exec d op result d' → Exec t d op result d')
    {conversationId senderId : String} {envelope : WireEnvelope} {own : Bool}
    {identity : StoredIdentity} {result : Except JsError (Option StoredSession × Bool)}
    (ends : Ends exec d (receivingSession conversationId senderId envelope own identity)
      result d') :
    (∃ e, result = .error e ∧ SameStores d d') ∨
      (result = .ok (none, false) ∧ d' = d) ∨
      (∃ session, result = .ok (some session, false) ∧ d' = d ∧
        d.sessions.get envelope.sessionId = some session) ∨
      ∃ session keyChanged, own = false ∧ result = .ok (some session, keyChanged) ∧
        Accepted conversationId senderId envelope identity d d' session := by
  rcases ends_bind.mp ends with ⟨found, d₁, loaded, rest⟩ | ⟨e, failed, rfl⟩
  swap
  · exact .inl ⟨e, rfl, sameStores_call sound failed trivial⟩
  obtain ⟨rfl, rfl⟩ := ends_loadSession sound loaded
  cases found : d₁.sessions.get envelope.sessionId with
  | some session =>
      rw [found] at rest
      obtain ⟨rfl, rfl⟩ := ends_pure.mp rest
      exact .inr (.inr (.inl ⟨session, rfl, rfl, rfl⟩))
  | none =>
      rw [found] at rest
      dsimp only at rest
      split at rest
      next init hasInit =>
        rcases ends_bind.mp rest with ⟨keyChanged, d₂, checked, rest₂⟩ | ⟨e, failed, rfl⟩
        swap
        · exact .inl ⟨e, rfl, sameStores_checkPeerIdentity sound failed⟩
        have same₂ := sameStores_checkPeerIdentity sound checked
        rcases ends_bind.mp rest₂ with ⟨now, d₃, timed, rest₃⟩ | ⟨e, failed, rfl⟩
        swap
        · exact .inl ⟨e, rfl, same₂.trans (sameStores_call sound failed trivial)⟩
        have same₃ := same₂.trans (sameStores_call sound timed trivial)
        rcases ends_bind.mp rest₃ with ⟨session, d₄, accepted, rest₄⟩ | ⟨e, failed, rfl⟩
        swap
        · exact .inl ⟨e, rfl, (ends_lift.mp failed).2 ▸ same₃⟩
        have derived := (ends_lift.mp accepted).1.symm
        have same₄ : SameStores d₁ d₄ := (ends_lift.mp accepted).2 ▸ same₃
        rcases ends_bind.mp rest₄ with ⟨_, d₅, saved, rest₅⟩ | ⟨e, failed, rfl⟩
        swap
        · rcases ends_saveSession sound failed with ⟨_, _, after⟩ | ⟨impossible, _⟩
          · exact .inl ⟨e, rfl, after ▸ same₄⟩
          · cases impossible
        rcases ends_saveSession sound saved with ⟨_, impossible, _⟩ | ⟨_, after⟩
        · cases impossible
        rcases ends_bind.mp rest₅ with ⟨_, d₆, refreshed, rest₆⟩ | ⟨e, failed, rfl⟩
        swap
        · obtain ⟨_, performed⟩ := sound _ _ _ _ (ends_call.mp failed)
          simp [perform, blocked, Op.canFail, reply] at performed
        obtain ⟨rfl, same₆⟩ := ends_pure.mp rest₆
        have same₅ := sameStores_call sound refreshed trivial
        refine .inr (.inr (.inr ⟨session, keyChanged, rfl, rfl, found,
          ⟨init, now, hasInit, derived⟩, ?_, ?_, ?_⟩))
        · rw [same₆, same₅.sessions, after, same₄.sessions]
        · rw [same₆, same₅.ratchets, after, same₄.ratchets]
        · rw [same₆, same₅.messages, after, same₄.messages]
      next =>
        obtain ⟨rfl, rfl⟩ := ends_pure.mp rest
        exact .inr (.inl ⟨rfl, rfl⟩)

/-- How a v1 decryption ends: with nothing changed, with an accepted session its envelope
does not open under, or with a text. -/
inductive V1Outcome (exec : Device → (op : Op) → op.Res → Device → Prop)
    (conversationId senderId : String) (envelope : WireEnvelope) (own : Bool)
    (identity : StoredIdentity) (d d' : Device) (result : DecryptResult) : Prop
  | intact (closed : result.ok = false) (same : SameStores d d')
  | unopened (session : StoredSession) (closed : result.ok = false) (foreign : own = false)
      (accepted : Accepted conversationId senderId envelope identity d d' session)
      (cause : (∃ e, Envelope.open session conversationId senderId envelope = .error e) ∨
        (session.peerMaxCtr < envelope.ctr ∧ ∃ d₁ e,
          exec d₁ (.saveSession { session with peerMaxCtr := envelope.ctr }) (.error e) d'))
  | opened (session : StoredSession) (d₁ : Device) (text : List UInt16) (keyChanged : Bool)
      (source : (d₁ = d ∧ d.sessions.get envelope.sessionId = some session) ∨
        (own = false ∧ Accepted conversationId senderId envelope identity d d₁ session))
      (opens : (if own then openOwn session conversationId senderId envelope
        else Envelope.open session conversationId senderId envelope) = .ok text)
      (value : result = { ok := true, text, keyChanged := some keyChanged })
      (sessions : d'.sessions = if own = false ∧ session.peerMaxCtr < envelope.ctr then
        d₁.sessions.put { session with peerMaxCtr := envelope.ctr } else d₁.sessions)
      (ratchets : d'.ratchets = d.ratchets) (messages : d'.messages = d.messages)

theorem ends_decryptV1
    (sound : ∀ d op result d', exec d op result d' → Exec t d op result d')
    {conversationId senderId : String} {envelope : WireEnvelope} {own : Bool}
    {identity : StoredIdentity} {result : Except JsError DecryptResult}
    (ends : Ends exec d (decryptV1 conversationId senderId envelope own identity) result d') :
    ∃ value, result = .ok value ∧
      V1Outcome exec conversationId senderId envelope own identity d d' value := by
  rcases ends_tryCatch.mp ends with ⟨value, body, rfl⟩ | ⟨e, d₁, body, handled⟩
  · refine ⟨value, rfl, ?_⟩
    obtain ⟨⟨found, keyChanged⟩, d₁, received, rest⟩ := ends_bind_ok.mp body
    have outcome := ends_receivingSession sound received
    cases found with
    | none =>
        obtain ⟨result, rfl⟩ := ends_pure.mp rest
        have closed : value.ok = false := by
          rw [Except.ok.injEq] at result
          rw [result]
          rfl
        refine .intact closed ?_
        rcases outcome with ⟨_, impossible, _⟩ | ⟨_, rfl⟩ | ⟨_, impossible, _⟩ |
          ⟨_, _, _, impossible, _⟩
        · cases impossible
        · exact .refl _
        · cases impossible
        · cases impossible
    | some session =>
        have source : (d₁ = d ∧ d.sessions.get envelope.sessionId = some session) ∨
            (own = false ∧ Accepted conversationId senderId envelope identity d d₁ session) := by
          rcases outcome with ⟨_, impossible, _⟩ | ⟨impossible, _⟩ | ⟨_, same, rfl, found⟩ |
            ⟨_, _, foreign, same, accepted⟩
          · cases impossible
          · cases impossible
          · obtain ⟨rfl, _⟩ := by simpa using same
            exact .inl ⟨rfl, found⟩
          · obtain ⟨rfl, _⟩ := by simpa using same
            exact .inr ⟨foreign, accepted⟩
        have kept : d₁.ratchets = d.ratchets ∧ d₁.messages = d.messages := by
          rcases source with ⟨rfl, _⟩ | ⟨_, accepted⟩
          · exact ⟨rfl, rfl⟩
          · exact ⟨accepted.ratchets, accepted.messages⟩
        obtain ⟨text, d₂, opened, rest₂⟩ := ends_bind_ok.mp rest
        obtain ⟨opens, rfl⟩ := ends_lift.mp opened
        dsimp only at rest₂
        split at rest₂
        next bump =>
          obtain ⟨_, d₃, saved, rest₃⟩ := ends_bind_ok.mp rest₂
          obtain ⟨value, rfl⟩ := ends_pure.mp rest₃
          rcases ends_saveSession sound saved with ⟨_, impossible, _⟩ | ⟨_, rfl⟩
          · cases impossible
          · have bump' : own = false ∧ session.peerMaxCtr < envelope.ctr := by simpa using bump
            exact .opened session d₂ text keyChanged source opens.symm (by simpa using value)
              (by rw [if_pos bump']) kept.1 kept.2
        next noBump =>
          obtain ⟨value, rfl⟩ := ends_pure.mp rest₂
          have noBump' : ¬(own = false ∧ session.peerMaxCtr < envelope.ctr) := by
            simpa using noBump
          exact .opened session _ text keyChanged source opens.symm (by simpa using value)
            (by rw [if_neg noBump']) kept.1 kept.2
  · obtain ⟨rfl, rfl⟩ := ends_pure.mp handled
    refine ⟨_, rfl, ?_⟩
    rcases ends_bind.mp body with ⟨⟨found, keyChanged⟩, d₁, received, rest⟩ | ⟨e, received, _⟩
    swap
    · rcases ends_receivingSession sound received with ⟨_, _, same⟩ | ⟨impossible, _⟩ |
        ⟨_, impossible, _⟩ | ⟨_, _, _, impossible, _⟩
      · exact .intact rfl same
      · cases impossible
      · cases impossible
      · cases impossible
    cases found with
    | none => simp [ends_pure] at rest
    | some session =>
        -- an error after the session is at hand comes from opening, or from the second save
        have late : d' = d₁ ∧ ((∃ e, (if own then openOwn session conversationId senderId envelope
              else Envelope.open session conversationId senderId envelope) = .error e) ∨
            ((own = false ∧ session.peerMaxCtr < envelope.ctr) ∧ ∃ e,
              exec d₁ (.saveSession { session with peerMaxCtr := envelope.ctr }) (.error e) d')) := by
          rcases ends_bind.mp rest with ⟨text, d₂, opened, rest₂⟩ | ⟨e', opened, _⟩
          swap
          · obtain ⟨failed, rfl⟩ := ends_lift.mp opened
            exact ⟨rfl, .inl ⟨e', failed.symm⟩⟩
          obtain ⟨_, rfl⟩ := ends_lift.mp opened
          dsimp only at rest₂
          split at rest₂
          next bump =>
            rcases ends_bind.mp rest₂ with ⟨_, d₃, _, rest₃⟩ | ⟨e', failed, _⟩
            · simp [ends_pure] at rest₃
            · rcases ends_saveSession sound failed with ⟨_, _, rfl⟩ | ⟨impossible, _⟩
              · exact ⟨rfl, .inr ⟨by simpa using bump, e', ends_call.mp failed⟩⟩
              · cases impossible
          next => simp [ends_pure] at rest₂
        obtain ⟨rfl, cause⟩ := late
        rcases ends_receivingSession sound received with ⟨_, impossible, _⟩ | ⟨impossible, _⟩ |
          ⟨_, _, rfl, _⟩ | ⟨session', _, foreign, same, accepted⟩
        · cases impossible
        · cases impossible
        · exact .intact rfl (.refl _)
        · obtain ⟨rfl, _⟩ := by simpa using same
          refine .unopened session rfl foreign accepted ?_
          subst foreign
          rcases cause with failed | ⟨bump, e', failed⟩
          · exact .inl (by simpa using failed)
          · exact .inr ⟨bump.2, d', e', failed⟩

theorem ends_existingDek
    (sound : ∀ d op result d', exec d op result d' → Exec t d op result d') {convId : String}
    {found : Option Nat} (ends : Ends exec d (existingDek convId) (.ok found) d') : d' = d := by
  obtain ⟨_, d₁, looked, rest⟩ := ends_bind_ok.mp ends
  obtain ⟨_, _, after⟩ := exec_ok.mp (sound _ _ _ _ (ends_call.mp looked))
  exact (ends_pure.mp rest).2.trans after

theorem ends_loadRatchet
    (sound : ∀ d op result d', exec d op result d' → Exec t d op result d')
    {convId sessionId : String} {session : RatchetSession}
    (ends : Ends exec d (loadRatchet convId sessionId) (.ok (some session)) d') :
    ∃ row, d.ratchets.get sessionId = some row ∧ row.convId = convId ∧ row.session = session := by
  obtain ⟨key, d₁, looked, rest⟩ := ends_bind_ok.mp ends
  have same := ends_existingDek sound looked
  subst same
  cases key with
  | none => simp [ends_pure] at rest
  | some key =>
      obtain ⟨found, d₂, looked', rest₂⟩ := ends_bind_ok.mp rest
      obtain ⟨_, ⟨_, replied⟩, _⟩ := exec_ok.mp (sound _ _ _ _ (ends_call.mp looked'))
      simp only [reply, Except.ok.injEq] at replied
      subst replied
      cases found : d₁.ratchets.get sessionId with
      | none => simp [found, ends_pure] at rest₂
      | some row =>
          rw [found] at rest₂
          dsimp only at rest₂
          split at rest₂
          · simp [ends_pure] at rest₂
          next here =>
          split at rest₂
          · simp [ends_throw] at rest₂
          · have value := (ends_pure.mp rest₂).1
            simp only [Except.ok.injEq, Option.some.injEq] at value
            exact ⟨row, rfl, not_not.mp here, value.symm⟩

theorem ends_loadMessage
    (sound : ∀ d op result d', exec d op result d' → Exec t d op result d')
    {convId msgKey : String} {text : List UInt16}
    (ends : Ends exec d (loadMessage convId msgKey) (.ok (some text)) d') :
    ∃ row, d.messages.get (messageId convId msgKey) = some row ∧ row.text = text := by
  obtain ⟨key, d₁, looked, rest⟩ := ends_bind_ok.mp ends
  have same := ends_existingDek sound looked
  subst same
  cases key with
  | none => simp [ends_pure] at rest
  | some key =>
      obtain ⟨found, d₂, looked', rest₂⟩ := ends_bind_ok.mp rest
      obtain ⟨_, ⟨_, replied⟩, _⟩ := exec_ok.mp (sound _ _ _ _ (ends_call.mp looked'))
      simp only [reply, Except.ok.injEq] at replied
      subst replied
      cases found : d₁.messages.get (messageId convId msgKey) with
      | none => simp [found, ends_pure] at rest₂
      | some row =>
          rw [found] at rest₂
          have value := (ends_pure.mp rest₂).1
          simp only [Except.ok.injEq] at value
          split at value
          · exact ⟨row, rfl, by simpa using value.symm⟩
          · cases value

theorem sameStores_lookup
    (sound : ∀ d op result d', exec d op result d' → Exec t d op result d') {α : Type} {p : Prog α}
    (uses : Uses LookupOp p.run) {result : Except JsError α} (ends : Ends exec d p result d') :
    SameStores d d' :=
  sameStores_ends sound (uses.mono storeFree_of_lookupOp) ends

/-- The rows that one `commit` writes. -/
structure Committed (convId : String) (session : RatchetSession) (msgKey : String)
    (text : List UInt16) (d d' : Device) : Prop where
  sessions : d'.sessions = d.sessions
  rows : ∃ key,
    d'.ratchets = d.ratchets.put { sessionId := session.sessionId, convId, key, session } ∧
    d'.messages = d.messages.put { id := messageId convId msgKey, convId, key, text }

theorem ends_commit
    (sound : ∀ d op result d', exec d op result d' → Exec t d op result d')
    {convId : String} {session : RatchetSession} {msgKey : String} {text : List UInt16}
    {result : Except JsError Unit}
    (ends : Ends exec d (commit convId session msgKey text) result d') :
    (∃ e, result = .error e ∧ SameStores d d') ∨
      (result = .ok () ∧ Committed convId session msgKey text d d') := by
  have dekFree : ∀ {result d'}, Ends exec d (ensureDek convId) result d' → SameStores d d' :=
    fun ends => sameStores_ends sound ((uses_ensureDek convId).mono storeFree_of_dekOp) ends
  rcases ends_bind.mp ends with ⟨key, d₁, keyed, rest⟩ | ⟨e, failed, rfl⟩
  swap
  · exact .inl ⟨e, rfl, dekFree failed⟩
  have same := dekFree keyed
  rcases exec_cases (sound _ _ _ _ (ends_call.mp rest)) with ⟨e, rfl, rfl⟩ | ⟨_, rfl, rfl, _⟩
  · exact .inl ⟨e, rfl, same⟩
  · refine .inr ⟨rfl, same.sessions, key, ?_, ?_⟩
    · simp only [effect, same.ratchets]
    · simp only [effect, same.messages]

/-- A program run under a lock runs between two changes of the lock alone. -/
theorem ends_withLock
    (sound : ∀ d op result d', exec d op result d' → Exec t d op result d') {α : Type}
    {name : String} {body : Prog α} {result : Except JsError α}
    (ends : Ends exec d (withLock name body) result d') :
    ∃ d₁ d₂, SameStores d d₁ ∧ Ends exec d₁ body result d₂ ∧ SameStores d₂ d' := by
  have unfailing : ∀ {op : Op} {d d' : Device} {e : JsError}, op.canFail = false →
      (∀ a, ∃ v, reply d op a = .ok v) → ¬exec d op (.error e) d' := by
    intro op d d' e never replies performed
    obtain ⟨a, performed⟩ := sound _ _ _ _ performed
    obtain ⟨v, replied⟩ := replies a
    simp only [perform, never, Bool.and_false, Bool.false_eq_true, if_false, replied] at performed
    split at performed <;> simp at performed
  rcases ends_bind.mp ends with ⟨_, d₁, acquired, rest⟩ | ⟨e, failed, _⟩
  swap
  · exact absurd (ends_call.mp failed) (unfailing rfl fun _ => ⟨_, rfl⟩)
  rcases ends_bind.mp rest with ⟨settled, d₂, ran, rest₂⟩ | ⟨e, failed, _⟩
  swap
  · obtain ⟨_, _, impossible⟩ := ends_settle.mp failed
    cases impossible
  obtain ⟨value, ran', same⟩ := ends_settle.mp ran
  rcases ends_bind.mp rest₂ with ⟨_, d₃, released, rest₃⟩ | ⟨e, failed, _⟩
  swap
  · exact absurd (ends_call.mp failed) (unfailing rfl fun _ => ⟨_, rfl⟩)
  obtain ⟨rfl, rfl⟩ := ends_lift.mp rest₃
  rw [Except.ok.injEq] at same
  subst same
  exact ⟨d₁, d₂, sameStores_call sound acquired trivial, ran',
    sameStores_call sound released trivial⟩

/-- The ratchet a v2 envelope is opened with: a stored one, or one derived from its init block. -/
inductive RatchetSource (conversationId senderId : String) (envelope : WireEnvelopeV2)
    (identity : StoredIdentity) (d : Device) (session : RatchetSession) : Prop
  | stored (row : RatchetRow) (found : d.ratchets.get envelope.sessionId = some row)
      (here : row.convId = conversationId) (value : row.session = session)
  | derived (init : Init) (now : Nat) (hasInit : envelope.init = some init)
      (started : startResponder conversationId senderId envelope.sessionId identity init now =
        .ok session)

theorem ends_receivingRatchet
    (sound : ∀ d op result d', exec d op result d' → Exec t d op result d')
    {conversationId senderId : String} {envelope : WireEnvelopeV2} {identity : StoredIdentity}
    {result : Except JsError (Option RatchetSession × Bool)}
    (ends : Ends exec d (receivingRatchet conversationId senderId envelope identity) result d') :
    SameStores d d' ∧ ∀ session keyChanged, result = .ok (some session, keyChanged) →
      RatchetSource conversationId senderId envelope identity d session := by
  have lookup : ∀ {result d'}, Ends exec d (loadRatchet conversationId envelope.sessionId) result d' →
      SameStores d d' := fun ends => sameStores_lookup sound (uses_loadRatchet _ _) ends
  rcases ends_bind.mp ends with ⟨found, d₁, looked, rest⟩ | ⟨e, failed, rfl⟩
  swap
  · exact ⟨lookup failed, fun _ _ impossible => by cases impossible⟩
  have same := lookup looked
  cases found with
  | some session =>
      obtain ⟨rfl, rfl⟩ := ends_pure.mp rest
      obtain ⟨row, found, here, value⟩ := ends_loadRatchet sound looked
      refine ⟨same, fun session' _ equal => ?_⟩
      simp only [Except.ok.injEq, Prod.mk.injEq, Option.some.injEq] at equal
      exact .stored row found here (value.trans equal.1)
  | none =>
      dsimp only at rest
      split at rest
      · obtain ⟨rfl, rfl⟩ := ends_pure.mp rest
        exact ⟨same, fun _ _ impossible => by cases impossible⟩
      next init hasInit =>
        rcases ends_bind.mp rest with ⟨changed, d₂, checked, rest₂⟩ | ⟨e, failed, rfl⟩
        swap
        · exact ⟨same.trans (sameStores_checkPeerIdentity sound failed),
            fun _ _ impossible => by cases impossible⟩
        have same₂ := same.trans (sameStores_checkPeerIdentity sound checked)
        rcases ends_bind.mp rest₂ with ⟨now, d₃, timed, rest₃⟩ | ⟨e, failed, rfl⟩
        swap
        · exact ⟨same₂.trans (sameStores_call sound failed trivial),
            fun _ _ impossible => by cases impossible⟩
        have same₃ := same₂.trans (sameStores_call sound timed trivial)
        rcases ends_bind.mp rest₃ with ⟨session, d₄, started, rest₄⟩ | ⟨e, failed, rfl⟩
        swap
        · exact ⟨(ends_lift.mp failed).2 ▸ same₃, fun _ _ impossible => by cases impossible⟩
        obtain ⟨derived, rfl⟩ := ends_lift.mp started
        obtain ⟨rfl, rfl⟩ := ends_pure.mp rest₄
        refine ⟨same₃, fun session' _ equal => ?_⟩
        simp only [Except.ok.injEq, Prod.mk.injEq, Option.some.injEq] at equal
        exact .derived init now hasInit (equal.1 ▸ derived.symm)

/-- How a v2 decryption ends: with nothing changed, with a stored text, or with a text that
was committed together with the advanced ratchet. -/
inductive V2Outcome (conversationId senderId : String) (envelope : WireEnvelopeV2) (own : Bool)
    (identity : StoredIdentity) (d d' : Device) (result : DecryptResult) : Prop
  | intact (closed : result.ok = false) (same : SameStores d d')
  | stored (row : MessageRow) (same : SameStores d d')
      (found : d.messages.get (messageId conversationId
        (messageKey envelope.sessionId senderId envelope.ctr)) = some row)
      (value : result = { ok := true, text := row.text })
  | opened (session next : RatchetSession) (text : List UInt16) (keyChanged : Bool)
      (now fresh : Nat) (foreign : own = false)
      (source : RatchetSource conversationId senderId envelope identity d session)
      (opens : openV2 session senderId envelope now fresh = .ok (text, next))
      (value : result = { ok := true, text, keyChanged := some keyChanged })
      (committed : Committed conversationId next
        (messageKey envelope.sessionId senderId envelope.ctr) text d d')

theorem Committed.before {convId : String} {session : RatchetSession} {msgKey : String}
    {text : List UInt16} {d₀ d d' : Device} (same : SameStores d₀ d)
    (committed : Committed convId session msgKey text d d') :
    Committed convId session msgKey text d₀ d' := by
  obtain ⟨sessions, key, ratchets, messages⟩ := committed
  refine ⟨sessions.trans same.sessions, key, ?_, ?_⟩
  · rw [ratchets, same.ratchets]
  · rw [messages, same.messages]

theorem Committed.after {convId : String} {session : RatchetSession} {msgKey : String}
    {text : List UInt16} {d d' d'' : Device} (committed : Committed convId session msgKey text d d')
    (same : SameStores d' d'') : Committed convId session msgKey text d d'' := by
  obtain ⟨sessions, key, ratchets, messages⟩ := committed
  exact ⟨same.sessions.trans sessions, key, same.ratchets.trans ratchets,
    same.messages.trans messages⟩

theorem RatchetSource.before {conversationId senderId : String} {envelope : WireEnvelopeV2}
    {identity : StoredIdentity} {d₀ d : Device} {session : RatchetSession}
    (same : SameStores d₀ d)
    (source : RatchetSource conversationId senderId envelope identity d session) :
    RatchetSource conversationId senderId envelope identity d₀ session := by
  cases source with
  | stored row found here value => exact .stored row (same.ratchets ▸ found) here value
  | derived init now hasInit started => exact .derived init now hasInit started

theorem ends_decryptV2Locked
    (sound : ∀ d op result d', exec d op result d' → Exec t d op result d')
    {conversationId senderId : String} {envelope : WireEnvelopeV2} {identity : StoredIdentity}
    {result : Except JsError DecryptResult}
    (ends : Ends exec d (decryptV2Locked conversationId senderId envelope identity) result d') :
    (∃ e, result = .error e ∧ SameStores d d') ∨
      ∃ value, result = .ok value ∧
        V2Outcome conversationId senderId envelope false identity d d' value := by
  have lookup : ∀ {result d'}, Ends exec d (loadMessage conversationId
      (messageKey envelope.sessionId senderId envelope.ctr)) result d' → SameStores d d' :=
    fun ends => sameStores_lookup sound (uses_loadMessage _ _) ends
  rcases ends_bind.mp ends with ⟨found, d₁, looked, rest⟩ | ⟨e, failed, rfl⟩
  swap
  · exact .inl ⟨e, rfl, lookup failed⟩
  have same := lookup looked
  cases found with
  | some again =>
      obtain ⟨rfl, rfl⟩ := ends_pure.mp rest
      obtain ⟨row, found, rfl⟩ := ends_loadMessage sound looked
      exact .inr ⟨_, rfl, .stored row same found rfl⟩
  | none =>
      rcases ends_bind.mp rest with ⟨⟨source, keyChanged⟩, d₂, received, rest₂⟩ | ⟨e, failed, rfl⟩
      swap
      · exact .inl ⟨e, rfl, same.trans (ends_receivingRatchet sound failed).1⟩
      have same₂ := same.trans (ends_receivingRatchet sound received).1
      cases source with
      | none =>
          obtain ⟨rfl, rfl⟩ := ends_pure.mp rest₂
          exact .inr ⟨_, rfl, .intact rfl same₂⟩
      | some session =>
          have source := ((ends_receivingRatchet sound received).2 session keyChanged rfl).before same
          rcases ends_bind.mp rest₂ with ⟨now, d₃, timed, rest₃⟩ | ⟨e, failed, rfl⟩
          swap
          · exact .inl ⟨e, rfl, same₂.trans (sameStores_call sound failed trivial)⟩
          have same₃ := same₂.trans (sameStores_call sound timed trivial)
          rcases ends_bind.mp rest₃ with ⟨fresh, d₄, drawn, rest₄⟩ | ⟨e, failed, rfl⟩
          swap
          · exact .inl ⟨e, rfl, same₃.trans (sameStores_call sound failed trivial)⟩
          have same₄ := same₃.trans (sameStores_call sound drawn trivial)
          rcases ends_bind.mp rest₄ with ⟨⟨text, next⟩, d₅, opened, rest₅⟩ | ⟨e, failed, rfl⟩
          swap
          · exact .inl ⟨e, rfl, (ends_lift.mp failed).2 ▸ same₄⟩
          obtain ⟨opens, rfl⟩ := ends_lift.mp opened
          rcases ends_bind.mp rest₅ with ⟨_, d₆, committed, rest₆⟩ | ⟨e, failed, rfl⟩
          swap
          · rcases ends_commit sound failed with ⟨_, _, same₅⟩ | ⟨impossible, _⟩
            · exact .inl ⟨e, rfl, same₄.trans same₅⟩
            · cases impossible
          obtain ⟨rfl, rfl⟩ := ends_pure.mp rest₆
          rcases ends_commit sound committed with ⟨_, impossible, _⟩ | ⟨_, rows⟩
          · cases impossible
          · exact .inr ⟨_, rfl, .opened session next text keyChanged now fresh rfl source
              opens.symm rfl (rows.before same₄)⟩

theorem ends_decryptV2
    (sound : ∀ d op result d', exec d op result d' → Exec t d op result d')
    {conversationId senderId : String} {envelope : WireEnvelopeV2} {own : Bool}
    {identity : StoredIdentity} {result : Except JsError DecryptResult}
    (ends : Ends exec d (decryptV2 conversationId senderId envelope own identity) result d') :
    ∃ value, result = .ok value ∧
      V2Outcome conversationId senderId envelope own identity d d' value := by
  have lookup : ∀ {result d'}, Ends exec d (loadMessage conversationId
      (messageKey envelope.sessionId senderId envelope.ctr)) result d' → SameStores d d' :=
    fun ends => sameStores_lookup sound (uses_loadMessage _ _) ends
  have body : ∀ {result d'},
      Ends exec d (decryptV2Body conversationId senderId envelope own identity) result d' →
      (∃ e, result = .error e ∧ SameStores d d') ∨
        ∃ value, result = .ok value ∧
          V2Outcome conversationId senderId envelope own identity d d' value := by
    intro result d' ends
    rcases ends_bind.mp ends with ⟨found, d₁, looked, rest⟩ | ⟨e, failed, rfl⟩
    swap
    · exact .inl ⟨e, rfl, lookup failed⟩
    have same := lookup looked
    cases found with
    | some again =>
        obtain ⟨rfl, rfl⟩ := ends_pure.mp rest
        obtain ⟨row, found, rfl⟩ := ends_loadMessage sound looked
        exact .inr ⟨_, rfl, .stored row same found rfl⟩
    | none =>
        cases own with
        | true =>
            obtain ⟨rfl, rfl⟩ := ends_pure.mp rest
            exact .inr ⟨_, rfl, .intact rfl same⟩
        | false =>
            obtain ⟨d₂, d₃, before, ran, after⟩ := ends_withLock sound rest
            have same₂ := same.trans before
            rcases ends_decryptV2Locked sound ran with ⟨e, rfl, same₃⟩ | ⟨value, rfl, outcome⟩
            · exact .inl ⟨e, rfl, (same₂.trans same₃).trans after⟩
            refine .inr ⟨value, rfl, ?_⟩
            cases outcome with
            | intact closed same₃ => exact .intact closed ((same₂.trans same₃).trans after)
            | stored row same₃ found value =>
                exact .stored row ((same₂.trans same₃).trans after) (same₂.messages ▸ found) value
            | opened session next text keyChanged now fresh foreign source opens value committed =>
                exact .opened session next text keyChanged now fresh foreign (source.before same₂)
                  opens value ((committed.before same₂).after after)
  rcases ends_tryCatch.mp ends with ⟨value, ran, rfl⟩ | ⟨e, d₁, ran, handled⟩
  · rcases body ran with ⟨_, impossible, _⟩ | ⟨value', same, outcome⟩
    · cases impossible
    · exact ⟨value', same, outcome⟩
  · obtain ⟨rfl, rfl⟩ := ends_pure.mp handled
    rcases body ran with ⟨_, _, same⟩ | ⟨_, impossible, _⟩
    · exact ⟨_, rfl, .intact rfl same⟩
    · cases impossible

theorem chooseSession_mem {sessions : List StoredSession} {session : StoredSession}
    (chosen : chooseSession sessions = some session) : session ∈ sessions := by
  simp only [chooseSession] at chosen
  split at chosen
  next s latest =>
    obtain rfl := Option.some.inj chosen
    exact (List.mem_filter.mp (List.argmax_mem (Option.mem_def.mpr latest))).1
  next => exact (List.mem_filter.mp (List.argmax_mem (Option.mem_def.mpr chosen))).1

theorem chooseSession_live {sessions : List StoredSession} {session : StoredSession}
    (chosen : chooseSession sessions = some session) : live session = true := by
  simp only [chooseSession] at chosen
  split at chosen
  next s latest =>
    obtain rfl := Option.some.inj chosen
    have kept := (List.mem_filter.mp (List.argmax_mem (Option.mem_def.mpr latest))).2
    rw [Bool.and_eq_true] at kept
    exact kept.1
  next => exact (List.mem_filter.mp (List.argmax_mem (Option.mem_def.mpr chosen))).2

theorem seal_ok {session : StoredSession} {conversationId senderId : String} {ctr : Nat}
    {plaintext : List UInt16} {init : Option Init} {envelope : WireEnvelope}
    (sent : Envelope.seal session conversationId senderId ctr plaintext init = .ok envelope) :
    ∃ chain padded, Session.sendChainRoot session = .ok chain ∧ pad plaintext = .ok padded ∧
      envelope = {
        v := 1
        sessionId := session.sessionId
        ctr
        ct := toBase64 (.aead (Session.messageKeyAt chain ctr).key
          (Session.messageKeyAt chain ctr).iv padded
          (buildAad conversationId senderId session.sessionId ctr))
        init := if ctr = 0 then init else none } := by
  simp only [Envelope.seal, bind_eq_ok, pure_eq_ok] at sent
  obtain ⟨chain, chainEq, padded, paddedEq, rfl⟩ := sent
  exact ⟨chain, padded, chainEq, paddedEq, rfl⟩

theorem ends_shredConversation
    (sound : ∀ d op result d', exec d op result d' → Exec t d op result d')
    {conversationId : String} {result : Shredded}
    (ends : Ends exec d (shredConversation conversationId) (.ok result) d') :
    d'.sessions = d.sessions.remove (fun s => s.conversationId = conversationId) ∧
      d'.ratchets = d.ratchets.remove (fun row => row.convId = conversationId) ∧
      d'.messages = d.messages.remove (fun row => row.convId = conversationId) := by
  obtain ⟨d₁, d₂, before, ran, after⟩ := ends_withLock sound ends
  obtain ⟨_, d₃, vaulted, rest⟩ := ends_bind_ok.mp ran
  obtain ⟨_, d₄, deleted, rest₂⟩ := ends_bind_ok.mp rest
  obtain ⟨_, d₅, indexed, rest₃⟩ := ends_bind_ok.mp rest₂
  obtain ⟨_, d₆, refreshed, rest₄⟩ := ends_bind_ok.mp rest₃
  obtain ⟨_, same₇⟩ := ends_pure.mp rest₄
  have vault := (exec_ok.mp (sound _ _ _ _ (ends_call.mp vaulted))).2.2
  have store := (exec_ok.mp (sound _ _ _ _ (ends_call.mp deleted))).2.2
  have same : SameStores d₄ d' := by
    have same₅ := sameStores_call sound indexed trivial
    have same₆ := sameStores_call sound refreshed trivial
    exact (same₅.trans same₆).trans (same₇ ▸ after)
  refine ⟨same.sessions.trans ?_, same.ratchets.trans ?_, same.messages.trans ?_⟩
  · rw [store, vault, ← before.sessions]
    rfl
  · rw [store, vault, ← before.ratchets]
    rfl
  · rw [store, vault, ← before.messages]
    rfl

end E2EEService
