import CipherChat.Service.Calls
import CipherChat.Service.Faultless
import CipherChat.Service.Outcomes

/-!
When a failed decryption leaves the stored sessions, ratchets and messages as they were.
-/

namespace Atomicity

open Async Number Symbolic Primitives KeyStore Envelope EnvelopeV2 Store E2EEService

/-- What a device may do while only operations in `fails` can fail. -/
def Within (fails : Op → Prop) (t : Nat) (d : Device) (op : Op) (result : op.Res)
    (d' : Device) : Prop :=
  Exec t d op result d' ∧ ∀ e, result = .error e → fails op

/-- The call derives a session from the init block of a v1 envelope, and then the envelope
does not open under it, or its counter cannot be written. -/
def AcceptsUnopened (fails : Op → Prop) (d : Device) (this : Tab) (conversationId senderId : String)
    (envelope : AnyEnvelope) (own : Bool) : Prop :=
  ∃ identity e init now session, this.identity.or d.identity = some identity ∧ own = false ∧
    envelope = .v1 e ∧ d.sessions.get e.sessionId = none ∧ e.init = some init ∧
    Session.acceptSession conversationId senderId e.sessionId identity init now = .ok session ∧
    ((∃ error, Envelope.open session conversationId senderId e = .error error) ∨
      (session.peerMaxCtr < e.ctr ∧ fails (.saveSession { session with peerMaxCtr := e.ctr })))

/-- A decryption that reports failure has changed no stored session, ratchet or message. -/
def LeavesStores (fails : Op → Prop) (t : Nat) (d : Device) (this : Tab)
    (conversationId senderId : String) (envelope : AnyEnvelope) (own : Bool) : Prop :=
  ∀ result d', Ends (Within fails t) d (decrypt this conversationId senderId envelope own)
    (.ok result) d' → result.ok = false → SameStores d d'

variable {fails : Op → Prop} {t : Nat} {d d' : Device} {this : Tab}
  {conversationId senderId : String} {envelope : AnyEnvelope} {own : Bool}

theorem within_sound (d : Device) (op : Op) (result : op.Res) (d' : Device)
    (performed : Within fails t d op result d') : Exec t d op result d' :=
  performed.1

/-- Unless a session is accepted and not opened, a failed decryption changes nothing. -/
theorem leavesStores_of_not_accepts
    (opened : ¬AcceptsUnopened fails d this conversationId senderId envelope own) :
    LeavesStores fails t d this conversationId senderId envelope own := by
  intro result d' ends closed
  obtain ⟨found, d₁, looked, rest⟩ := ends_bind_ok.mp ends
  obtain ⟨cached, same⟩ := ends_cachedIdentity within_sound looked
  subst same
  cases found with
  | none =>
      rw [(ends_pure.mp rest).2]
      exact .refl _
  | some identity =>
      cases envelope with
      | v2 e =>
          obtain ⟨value, result', outcome⟩ := ends_decryptV2 within_sound rest
          rw [Except.ok.injEq] at result'
          subst result'
          cases outcome with
          | intact _ same => exact same
          | stored _ same _ _ => exact same
          | opened _ _ _ _ _ _ _ _ _ value _ => simp [value] at closed
      | v1 e =>
          obtain ⟨value, result', outcome⟩ := ends_decryptV1 within_sound rest
          rw [Except.ok.injEq] at result'
          subst result'
          cases outcome with
          | intact _ same => exact same
          | opened _ _ _ _ _ _ value _ _ _ => simp [value] at closed
          | unopened session _ foreign accepted cause =>
              exfalso
              obtain ⟨init, now, hasInit, derived⟩ := accepted.derived
              refine opened ⟨identity, e, init, now, session, cached.symm, foreign, rfl,
                accepted.absent, hasInit, derived, cause.imp_right ?_⟩
              rintro ⟨bump, _, error, failed⟩
              exact ⟨bump, failed.2 error rfl⟩

theorem within_faultless : Faultless t (Within fails t) :=
  fun _ _ _ a free replied => ⟨exec_ok.mpr ⟨free, ⟨a, replied⟩, rfl⟩, nofun⟩

theorem within_fault {op : Op} (free : blocked op d = false) (faulty : op.canFail = true)
    (may : fails op) :
    Ends (Within fails t) d (call op) (.error (.dom "AbortError")) d := by
  refine ends_call.mpr ⟨⟨{ fault := true }, ?_⟩, fun _ _ => may⟩
  simp [perform, free, faulty]

/-- A call that accepts a session it does not open under has a run that leaves it behind. -/
theorem not_leavesStores_of_accepts
    (accepts : AcceptsUnopened fails d this conversationId senderId envelope own) :
    ¬LeavesStores fails t d this conversationId senderId envelope own := by
  intro leaves
  obtain ⟨identity, e, init, now, session, cached, rfl, rfl, absent, hasInit, derived, cause⟩ :=
    accepts
  obtain ⟨keyChanged, d₁, received⟩ : ∃ keyChanged d', Ends (Within fails t) d
      (receivingSession conversationId senderId e false identity)
      (.ok (some session, keyChanged)) d' :=
    within_faultless.receivingSession (.inr ⟨absent, rfl, init, now, hasInit, derived⟩)
  have failed : ∃ error, Ends (Within fails t) d
      (decryptV1Body conversationId senderId e false identity) (.error error) d₁ := by
    rcases cause with ⟨error, closed⟩ | ⟨bump, may⟩
    · exact ⟨error, received.andThen (Ends.stop (ends_lift.mpr ⟨by simp [closed], rfl⟩))⟩
    · cases opened : Envelope.open session conversationId senderId e with
      | error error =>
          exact ⟨error, received.andThen (Ends.stop (ends_lift.mpr ⟨by simp [opened], rfl⟩))⟩
      | ok text =>
          have lifted : Ends (Within fails t) d₁ (lift (if (false : Bool) = true then
              openOwn session conversationId senderId e
            else Envelope.open session conversationId senderId e)) (.ok text) d₁ :=
            ends_lift.mpr ⟨by simp [opened], rfl⟩
          refine ⟨.dom "AbortError", received.andThen (lifted.andThen ?_)⟩
          simp only [Bool.not_false, true_and, gt_iff_lt, bump, if_true]
          exact Ends.stop (within_fault rfl rfl may)
  obtain ⟨error, failed⟩ := failed
  have ends : Ends (Within fails t) d (decrypt this conversationId senderId (.v1 e) false)
      (.ok (undecryptable UNDECRYPTABLE)) d₁ :=
    (within_faultless.cachedIdentity cached).andThen
      (ends_tryCatch.mpr (.inr ⟨error, d₁, failed, ends_pure.mpr ⟨rfl, rfl⟩⟩))
  have unchanged := (leaves _ _ ends rfl).sessions
  rcases ends_receivingSession within_sound received with ⟨_, impossible, _⟩ | ⟨impossible, _⟩ |
    ⟨_, _, _, found⟩ | ⟨session', _, _, _, accepted⟩
  · cases impossible
  · cases impossible
  · rw [absent] at found
    cases found
  · rw [accepted.sessions] at unchanged
    have stored := Table.get_put_self d.sessions session'
    rw [unchanged, accepted.named, absent] at stored
    cases stored

/-- Any two public keys and three bytes that are no ciphertext. -/
def forgedEnvelope : WireEnvelope where
  v := 1
  sessionId := "s"
  ctr := 0
  ct := .raw "AAAA"
  init := some { ephPub := toBase64 (.pub 8), ik := toBase64 (.pub 9), spkId := 1 }

theorem forgedEnvelope_unopened {session : StoredSession} (named : session.sessionId = "s")
    {chain : Term} (root : Session.receiveChainRoot session = .ok chain) :
    Envelope.open session "c" "a" forgedEnvelope = .error .library := by
  have decoded : fromBase64 (.raw "AAAA") = .ok (.bytes [0, 0, 0]) := by decide +kernel
  simp only [Envelope.open, openWith, forgedEnvelope, named, root, decoded, ne_eq, not_true,
    if_false, bind, Except.bind, aesGcmDecrypt, Term.openAead]

theorem forgedEnvelope_leaves_session :
    ¬LeavesStores (fun _ => False) 0 freshDevice { identity := none, userId := some "b" } "c" "a"
      (.v1 forgedEnvelope) false := by
  apply not_leavesStores_of_accepts
  obtain ⟨session, derived⟩ : ∃ session, Session.acceptSession "c" "a" "s" responder
      { ephPub := toBase64 (.pub 8), ik := toBase64 (.pub 9), spkId := 1 } 0 = .ok session :=
    ⟨_, rfl⟩
  have named : session.sessionId = "s" := (Session.acceptSession_record derived).1
  have root : ∃ chain, Session.receiveChainRoot session = .ok chain := by
    obtain ⟨_, _, _, _, _, _, _, _, _, _, _, _, _, _, _, rfl⟩ :=
      Session.acceptSession_eq_ok.mp derived
    exact ⟨_, rfl⟩
  obtain ⟨chain, root⟩ := root
  exact ⟨responder, forgedEnvelope, _, 0, session, rfl, rfl, rfl, rfl, rfl, derived,
    .inl ⟨.library, forgedEnvelope_unopened named root⟩⟩

/-- A failed decryption leaves the stores intact exactly when it accepts no session that its
envelope then fails under. -/
theorem decrypt_leavesStores_iff (fails : Op → Prop) (t : Nat) (d : Device) (this : Tab)
    (conversationId senderId : String) (envelope : AnyEnvelope) (own : Bool) :
    LeavesStores fails t d this conversationId senderId envelope own ↔
      ¬AcceptsUnopened fails d this conversationId senderId envelope own :=
  ⟨fun leaves accepts => not_leavesStores_of_accepts accepts leaves, leavesStores_of_not_accepts⟩

end Atomicity
