import CipherChat.Async.Noted
import CipherChat.Service.Faultless
import CipherChat.Service.Outcomes
import CipherChat.Wire.Accepted

/-!
The chain-key steps that `E2EEService.decrypt` takes for a v1 envelope: its functions once
more, leaving a note of every step of the loop in `messageKeyAt`.
-/

namespace DecryptWork

open Async Symbolic Number Primitives KeyStore Session Envelope Store E2EEService

/-- A program that notes the chain keys it steps. -/
abbrev Counted (α : Type) := NotingThrowing JsError Term Op.Res α

/-- The loop in `messageKeyAt`. -/
def chainAt : Term → Nat → Counted Term
  | ck, 0 => pure ck
  | ck, n + 1 => do
      note ck
      chainAt (hmacSha256 ck CHAIN_STEP) n

def messageKeyAt (chainRoot : Term) (n : JsNumber) : Counted MessageKey := do
  let ck ← chainAt chainRoot ⌈n⌉₊
  let okm := hkdfSha256 ck none "msg" 44
  return { key := .slice okm 0 32, iv := .slice okm 32 44 }

def openWith (chainRoot : StoredSession → Except JsError Term) (session : StoredSession)
    (conversationId senderId : String) (envelope : WireEnvelope) : Counted (List UInt16) :=
  if envelope.v ≠ 1 then
    throw (.error ("Unsupported envelope version " ++ Number.text envelope.v))
  else if envelope.sessionId ≠ session.sessionId then
    throw (.error "Envelope/session mismatch")
  else do
    let { key, iv } ← messageKeyAt (← lift (chainRoot session)) envelope.ctr
    let aad := buildAad conversationId senderId envelope.sessionId envelope.ctr
    let padded ← lift (aesGcmDecrypt key iv (← lift (fromBase64 envelope.ct)) aad)
    lift (unpad padded)

def decryptV1Body (conversationId senderId : String) (envelope : WireEnvelope) (own : Bool)
    (identity : StoredIdentity) : Counted DecryptResult := do
  match ← Throwing.silent (receivingSession conversationId senderId envelope own identity) with
  | (none, _) => return undecryptable UNDECRYPTABLE
  | (some session, keyChanged) =>
      let text ← openWith (if own then sendChainRoot else receiveChainRoot) session
        conversationId senderId envelope
      if !own ∧ envelope.ctr > session.peerMaxCtr then
        Throwing.silent (call (.saveSession { session with peerMaxCtr := envelope.ctr }))
      return { ok := true, text, keyChanged := some keyChanged }

def decryptV1 (conversationId senderId : String) (envelope : WireEnvelope) (own : Bool)
    (identity : StoredIdentity) : Counted DecryptResult :=
  tryCatch (decryptV1Body conversationId senderId envelope own identity)
    fun _ => pure (undecryptable UNDECRYPTABLE)

/-- A v2 envelope steps no v1 chain. -/
def decrypt (this : Tab) (conversationId senderId : String) (envelope : AnyEnvelope)
    (own : Bool) : Counted DecryptResult := do
  match ← Throwing.silent (cachedIdentity this) with
  | none => return undecryptable UNDECRYPTABLE
  | some identity =>
      match envelope with
      | .v1 envelope => decryptV1 conversationId senderId envelope own identity
      | .v2 envelope =>
          Throwing.silent (decryptV2 conversationId senderId envelope own identity)

section Erasing

theorem erase_chainAt (ck : Term) (n : Nat) :
    Throwing.erase (chainAt ck n) = pure (Session.chainAt ck n) := by
  induction n generalizing ck with
  | zero => rfl
  | succ n ih =>
      change Throwing.erase (chainAt (hmacSha256 ck CHAIN_STEP) n) = _
      rw [ih]
      simp only [Session.chainAt, Function.iterate_succ_apply]

theorem erase_messageKeyAt (chainRoot : Term) (n : JsNumber) :
    Throwing.erase (messageKeyAt chainRoot n) = pure (Session.messageKeyAt chainRoot n) := by
  rw [messageKeyAt, erase_throwing_bind, erase_chainAt]
  rfl

theorem erase_lift_bind {α β : Type} (result : Except JsError α) (f : α → Counted β)
    (g : α → Except JsError β) (same : ∀ a, Throwing.erase (f a) = lift (g a)) :
    Throwing.erase (lift result >>= f) = lift (result >>= g) := by
  rw [erase_throwing_bind]
  cases result with
  | error e => rfl
  | ok a => exact same a

theorem erase_openWith (chainRoot : StoredSession → Except JsError Term) (session : StoredSession)
    (conversationId senderId : String) (envelope : WireEnvelope) :
    Throwing.erase (openWith chainRoot session conversationId senderId envelope) =
      lift (Envelope.openWith chainRoot session conversationId senderId envelope) := by
  unfold openWith Envelope.openWith
  by_cases version : envelope.v ≠ 1
  · simp only [version, if_true, ne_eq, not_false_eq_true]
    rfl
  by_cases other : envelope.sessionId ≠ session.sessionId
  · rw [if_neg version, if_neg version, if_pos other, if_pos other]
    rfl
  rw [if_neg version, if_neg version, if_neg other, if_neg other]
  refine erase_lift_bind _ _ _ fun root => ?_
  rw [erase_throwing_bind, erase_messageKeyAt]
  refine erase_lift_bind _ _ _ fun ct => ?_
  exact erase_lift_bind _ _ _ fun padded => rfl

theorem erase_decryptV1 (conversationId senderId : String) (envelope : WireEnvelope) (own : Bool)
    (identity : StoredIdentity) :
    Throwing.erase (decryptV1 conversationId senderId envelope own identity) =
      E2EEService.decryptV1 conversationId senderId envelope own identity := by
  rw [decryptV1, E2EEService.decryptV1, erase_tryCatch, decryptV1Body, E2EEService.decryptV1Body,
    erase_throwing_bind, erase_throwing_silent]
  congr 1
  refine congrArg _ (funext fun found => ?_)
  match found with
  | (none, _) => rfl
  | (some session, keyChanged) =>
      simp only [erase_throwing_bind, erase_openWith]
      have chosen : Envelope.openWith (if own = true then sendChainRoot else receiveChainRoot)
          session conversationId senderId envelope =
            if own = true then openOwn session conversationId senderId envelope
            else Envelope.open session conversationId senderId envelope := by
        cases own <;> rfl
      rw [chosen]
      refine congrArg _ (funext fun text => ?_)
      split
      · rw [erase_throwing_bind, erase_throwing_silent]
        rfl
      · rfl

/-- Without the notes it is `E2EEService.decrypt`. -/
theorem erase_decrypt (this : Tab) (conversationId senderId : String) (envelope : AnyEnvelope)
    (own : Bool) :
    Throwing.erase (decrypt this conversationId senderId envelope own) =
      E2EEService.decrypt this conversationId senderId envelope own := by
  rw [decrypt, E2EEService.decrypt, erase_throwing_bind, erase_throwing_silent]
  refine congrArg _ (funext fun found => ?_)
  cases found with
  | none => rfl
  | some identity =>
      cases envelope with
      | v1 envelope => exact erase_decryptV1 conversationId senderId envelope own identity
      | v2 envelope => exact erase_throwing_silent _

end Erasing

section Counting

variable {exec : Device → (op : Op) → op.Res → Device → Prop} {s s' : Device × List Term}

theorem ends_chainAt {ck : Term} {n : Nat} {result : Except JsError Term} :
    Ends (Logging exec) s (chainAt ck n) result s' ↔
      result = .ok (Session.chainAt ck n) ∧
        s' = (s.1, s.2 ++ (List.range n).map (Session.chainAt ck)) := by
  induction n generalizing ck s with
  | zero => simp [chainAt, ends_pure, Session.chainAt]
  | succ n ih =>
      have later : ∀ i, Session.chainAt (hmacSha256 ck CHAIN_STEP) i = Session.chainAt ck (i + 1) :=
        fun i => by simp only [Session.chainAt, Function.iterate_succ_apply]
      have steps : (List.range (n + 1)).map (Session.chainAt ck) =
          ck :: (List.range n).map (Session.chainAt (hmacSha256 ck CHAIN_STEP)) := by
        rw [List.range_succ_eq_map, List.map_cons, List.map_map]
        exact congrArg (List.cons ck) (List.map_congr_left fun i _ => (later i).symm)
      simp [chainAt, ends_bind, ends_note, ih, steps, later n]

theorem ends_messageKeyAt {root : Term} {n : JsNumber} {result : Except JsError MessageKey}
    (ends : Ends (Logging exec) s (messageKeyAt root n) result s') :
    (∃ key, result = .ok key) ∧ s'.2.length = s.2.length + ⌈n⌉₊ := by
  rcases ends_bind.mp ends with ⟨ck, s₁, stepped, rest⟩ | ⟨e, failed, rfl⟩
  · obtain ⟨_, rfl⟩ := ends_chainAt.mp stepped
    obtain ⟨rfl, rfl⟩ := ends_pure.mp rest
    exact ⟨⟨_, rfl⟩, by simp⟩
  · obtain ⟨impossible, _⟩ := ends_chainAt.mp failed
    cases impossible

/-- What follows the chain takes no step. -/
theorem ends_lift_bind {α β : Type} {value : Except JsError α} {f : α → Counted β}
    {result : Except JsError β} (ends : Ends (Logging exec) s (lift value >>= f) result s')
    (quiet : ∀ a, Ends (Logging exec) s (f a) result s' → s' = s) : s' = s := by
  rcases ends_bind.mp ends with ⟨a, s₁, lifted, rest⟩ | ⟨e, failed, rfl⟩
  · obtain ⟨_, rfl⟩ := ends_lift.mp lifted
    exact quiet a rest
  · exact (ends_lift.mp failed).2

/-- The loop in `messageKeyAt` is reached. -/
def Opens (own : Bool) (session : StoredSession) (envelope : WireEnvelope) : Prop :=
  envelope.v = 1 ∧ envelope.sessionId = session.sessionId ∧
    ∃ root, (if own then sendChainRoot else receiveChainRoot) session = .ok root

theorem ends_openWith {own : Bool} {session : StoredSession} {conversationId senderId : String}
    {envelope : WireEnvelope} {result : Except JsError (List UInt16)}
    (ends : Ends (Logging exec) s (openWith (if own then sendChainRoot else receiveChainRoot) session
      conversationId senderId envelope) result s') :
    (Opens own session envelope ∧ s'.2.length = s.2.length + ⌈envelope.ctr⌉₊) ∨
      (¬Opens own session envelope ∧ s'.2.length = s.2.length) := by
  unfold openWith at ends
  by_cases version : envelope.v ≠ 1
  · rw [if_pos version] at ends
    obtain ⟨_, rfl⟩ := ends_throw.mp ends
    exact .inr ⟨fun opens => version opens.1, rfl⟩
  by_cases other : envelope.sessionId ≠ session.sessionId
  · rw [if_neg version, if_pos other] at ends
    obtain ⟨_, rfl⟩ := ends_throw.mp ends
    exact .inr ⟨fun opens => other opens.2.1, rfl⟩
  rw [if_neg version, if_neg other] at ends
  rcases ends_bind.mp ends with ⟨root, s₁, isRoot, rest⟩ | ⟨e, failed, rfl⟩
  · obtain ⟨decoded, rfl⟩ := ends_lift.mp isRoot
    have opens : Opens own session envelope :=
      ⟨not_not.mp version, not_not.mp other, root, decoded.symm⟩
    rcases ends_bind.mp rest with ⟨key, s₂, stepped, rest₂⟩ | ⟨e, failed, rfl⟩
    · obtain ⟨_, counted⟩ := ends_messageKeyAt stepped
      have same : s' = s₂ := ends_lift_bind rest₂ fun ct rest₃ =>
        ends_lift_bind rest₃ fun padded last => (ends_lift.mp last).2
      exact .inl ⟨opens, same ▸ counted⟩
    · exact .inl ⟨opens, (ends_messageKeyAt failed).2⟩
  · obtain ⟨undecoded, rfl⟩ := ends_lift.mp failed
    refine .inr ⟨?_, rfl⟩
    rintro ⟨_, _, root, decoded⟩
    rw [decoded] at undecoded
    cases undecoded

/-- A v1 envelope is opened with the session that was found, or not at all. -/
theorem ends_decryptV1 {conversationId senderId : String} {envelope : WireEnvelope} {own : Bool}
    {identity : StoredIdentity} {result : Except JsError DecryptResult}
    (ends : Ends (Logging exec) s (decryptV1 conversationId senderId envelope own identity)
      result s') :
    s'.2.length = s.2.length ∨
      ∃ session keyChanged d, Ends exec s.1
          (receivingSession conversationId senderId envelope own identity)
          (.ok (some session, keyChanged)) d ∧
        Opens own session envelope ∧ s'.2.length = s.2.length + ⌈envelope.ctr⌉₊ := by
  have body : ∃ result, Ends (Logging exec) s
      (decryptV1Body conversationId senderId envelope own identity) result s' := by
    rcases ends_tryCatch.mp ends with ⟨value, ran, _⟩ | ⟨e, s₁, failed, handled⟩
    · exact ⟨_, ran⟩
    · obtain ⟨_, rfl⟩ := ends_pure.mp handled
      exact ⟨_, failed⟩
  obtain ⟨result, body⟩ := body
  rcases ends_bind.mp body with ⟨found, s₁, received, rest⟩ | ⟨e, failed, rfl⟩
  swap
  · exact .inl (congrArg List.length (ends_silent.mp failed).2)
  obtain ⟨received, same⟩ := ends_silent.mp received
  rw [← same]
  match found with
  | (none, _) =>
      obtain ⟨_, rfl⟩ := ends_pure.mp rest
      exact .inl rfl
  | (some session, keyChanged) =>
      have opened : ∃ result s₂, Ends (Logging exec) s₁
          (openWith (if own then sendChainRoot else receiveChainRoot) session conversationId senderId
            envelope) result s₂ ∧ s'.2 = s₂.2 := by
        rcases ends_bind.mp rest with ⟨text, s₂, opened, rest₂⟩ | ⟨e, failed, _⟩
        · refine ⟨_, s₂, opened, ?_⟩
          split at rest₂
          · rcases ends_bind.mp rest₂ with ⟨_, s₃, saved, rest₃⟩ | ⟨e, failed, _⟩
            · obtain ⟨_, rfl⟩ := ends_pure.mp rest₃
              exact (ends_silent.mp saved).2
            · exact (ends_silent.mp failed).2
          · obtain ⟨_, rfl⟩ := ends_pure.mp rest₂
            rfl
        · exact ⟨_, s', failed, rfl⟩
      obtain ⟨_, s₂, opened, last⟩ := opened
      rw [last]
      rcases ends_openWith opened with ⟨opens, counted⟩ | ⟨_, idle⟩
      · exact .inr ⟨session, keyChanged, s₁.1, received, opens, counted⟩
      · exact .inl idle

end Counting

/-- The envelope is opened with a session stored for it, or with one its init block sets up. -/
def Enters (this : Tab) (d : Device) (conversationId senderId : String) (envelope : WireEnvelope)
    (own : Bool) : Prop :=
  ∃ identity session,
    this.identity.or d.identity = some identity ∧ Opens own session envelope ∧
    (d.sessions.get envelope.sessionId = some session ∨
      d.sessions.get envelope.sessionId = none ∧ own = false ∧
        ∃ init now, envelope.init = some init ∧ Session.acceptSession conversationId senderId
          envelope.sessionId identity init now = .ok session)

section Runs

variable {t : Nat} {d d' : Device}

theorem faultless : Faultless t (Exec t) :=
  fun _ _ _ a free replied => exec_ok.mpr ⟨free, ⟨a, replied⟩, rfl⟩

/-- A session an envelope is opened with is run to its end, through the whole loop. -/
theorem decryptV1_ends {conversationId senderId : String} {envelope : WireEnvelope} {own : Bool}
    {identity : StoredIdentity} {session : StoredSession} (opens : Opens own session envelope)
    (found : d.sessions.get envelope.sessionId = some session ∨
      d.sessions.get envelope.sessionId = none ∧ own = false ∧
        ∃ init now, envelope.init = some init ∧ Session.acceptSession conversationId senderId
          envelope.sessionId identity init now = .ok session) :
    ∃ result d' steps, Ends (Logging (Exec t)) (d, [])
      (decryptV1 conversationId senderId envelope own identity) result (d', steps) ∧
        steps.length = ⌈envelope.ctr⌉₊ := by
  obtain ⟨keyChanged, d₁, received⟩ := faultless.receivingSession (t := t) found
  have ended : Ends (Exec t) d₁ (Throwing.erase (openWith
      (if own then sendChainRoot else receiveChainRoot) session conversationId senderId envelope))
      (Envelope.openWith (if own then sendChainRoot else receiveChainRoot) session
        conversationId senderId envelope) d₁ := by
    rw [erase_openWith]
    exact ends_lift.mpr ⟨rfl, rfl⟩
  obtain ⟨steps, opened⟩ := (ends_erase []).mp ended
  have counted : steps.length = ⌈envelope.ctr⌉₊ := by
    rcases ends_openWith opened with ⟨_, counted⟩ | ⟨closed, _⟩
    · simpa using counted
    · exact absurd opens closed
  have before : Ends (Logging (Exec t)) (d, []) (Throwing.silent
      (receivingSession conversationId senderId envelope own identity))
      (.ok (some session, keyChanged)) (d₁, ([] : List Term)) :=
    ends_silent.mpr ⟨received, rfl⟩
  cases text : Envelope.openWith (if own then sendChainRoot else receiveChainRoot) session
      conversationId senderId envelope with
  | error e =>
      rw [text] at opened
      refine ⟨.ok (undecryptable UNDECRYPTABLE), d₁, steps, ends_tryCatch.mpr (.inr ?_), counted⟩
      exact ⟨e, _, before.andThen opened.stop, ends_pure.mpr ⟨rfl, rfl⟩⟩
  | ok text' =>
      rw [text] at opened
      by_cases newer : !own ∧ envelope.ctr > session.peerMaxCtr
      · let moved := { session with peerMaxCtr := envelope.ctr }
        have saved : Ends (Logging (Exec t)) (d₁, steps)
            (Throwing.silent (call (.saveSession moved))) (.ok ())
            (effect t (.saveSession moved) d₁, steps) :=
          ends_silent.mpr ⟨faultless.call _ {} rfl rfl, rfl⟩
        refine ⟨.ok { ok := true, text := text', keyChanged := some keyChanged },
          effect t (.saveSession moved) d₁, steps,
          ends_tryCatch.mpr (.inl ⟨_, before.andThen (opened.andThen ?_), rfl⟩), counted⟩
        rw [if_pos newer]
        exact saved.andThen (ends_pure.mpr ⟨rfl, rfl⟩)
      · refine ⟨.ok { ok := true, text := text', keyChanged := some keyChanged }, d₁, steps,
          ends_tryCatch.mpr (.inl ⟨_, before.andThen (opened.andThen ?_), rfl⟩), counted⟩
        rw [if_neg newer]
        exact ends_pure.mpr ⟨rfl, rfl⟩

end Runs

/-- No run of `decrypt` steps the chain more than `ROTATE_AFTER_MESSAGES` times. -/
def Capped (t : Nat) (this : Tab) (d : Device) (conversationId senderId : String)
    (envelope : WireEnvelope) (own : Bool) : Prop :=
  ∀ result d' steps, Ends (Logging (Exec t)) (d, [])
    (decrypt this conversationId senderId (.v1 envelope) own) result (d', steps) →
      steps.length ≤ ROTATE_AFTER_MESSAGES

theorem decrypt_ends {t : Nat} {this : Tab} {d : Device} {conversationId senderId : String}
    {envelope : WireEnvelope} {own : Bool}
    (enters : Enters this d conversationId senderId envelope own) :
    ∃ result d' steps, Ends (Logging (Exec t)) (d, [])
      (decrypt this conversationId senderId (.v1 envelope) own) result (d', steps) ∧
        steps.length = ⌈envelope.ctr⌉₊ := by
  obtain ⟨identity, session, known, opens, found⟩ := enters
  obtain ⟨result, d', steps, ran, counted⟩ := decryptV1_ends (t := t) opens found
  have cached : Ends (Logging (Exec t)) (d, []) (Throwing.silent (cachedIdentity this))
      (.ok (some identity)) (d, ([] : List Term)) :=
    ends_silent.mpr ⟨faultless.cachedIdentity known, rfl⟩
  exact ⟨result, d', steps, cached.andThen ran, counted⟩

/-- A run steps no chain, or the envelope enters the loop with its counter. -/
theorem steps_of_ends {t : Nat} {this : Tab} {d d' : Device} {conversationId senderId : String}
    {envelope : WireEnvelope} {own : Bool} {result : Except JsError DecryptResult}
    {steps : List Term} (ends : Ends (Logging (Exec t)) (d, [])
      (decrypt this conversationId senderId (.v1 envelope) own) result (d', steps)) :
    steps.length = 0 ∨
      Enters this d conversationId senderId envelope own ∧ steps.length = ⌈envelope.ctr⌉₊ := by
  rcases ends_bind.mp ends with ⟨found, s₁, cached, rest⟩ | ⟨e, failed, rfl⟩
  swap
  · exact .inl (congrArg List.length (ends_silent.mp failed).2)
  obtain ⟨cached, same⟩ := ends_silent.mp cached
  cases found with
  | none =>
      obtain ⟨_, rfl⟩ := ends_pure.mp rest
      exact .inl (congrArg List.length same)
  | some identity =>
      obtain ⟨known, unchanged⟩ := ends_cachedIdentity (fun _ _ _ _ performed => performed) cached
      rcases ends_decryptV1 rest with idle | ⟨session, keyChanged, d₂, received, opens, counted⟩
      · exact .inl (by simpa [same] using idle)
      · refine .inr ⟨⟨identity, session, known.symm, opens, ?_⟩, by simpa [same] using counted⟩
        rw [unchanged] at received
        rcases ends_receivingSession (fun _ _ _ _ performed => performed) received with
          ⟨_, impossible, _⟩ | ⟨impossible, _⟩ | ⟨stored, isSession, _, found⟩ |
          ⟨accepted, _, notOwn, isSession, accepts⟩
        · cases impossible
        · cases impossible
        · cases isSession
          exact .inl found
        · cases isSession
          exact .inr ⟨accepts.absent, notOwn, accepts.derived⟩

theorem decrypt_capped_iff (t : Nat) (this : Tab) (d : Device) (conversationId senderId : String)
    (envelope : WireEnvelope) (own : Bool) :
    Capped t this d conversationId senderId envelope own ↔
      (Enters this d conversationId senderId envelope own →
        envelope.ctr ≤ ROTATE_AFTER_MESSAGES) := by
  constructor
  · intro capped enters
    obtain ⟨result, d', steps, ran, counted⟩ := decrypt_ends (t := t) enters
    have bound := capped result d' steps ran
    rw [counted] at bound
    exact Nat.ceil_le.mp bound
  · intro small result d' steps ran
    rcases steps_of_ends ran with none | ⟨enters, counted⟩
    · omega
    · rw [counted]
      exact Nat.ceil_le.mpr (small enters)

def heldSession : StoredSession where
  sessionId := "s"
  conversationId := "c"
  peerId := "a"
  role := .resp
  ckInit := toBase64 (.secret 3)
  ckResp := toBase64 (.secret 4)
  sendCtr := 0
  peerMaxCtr := -1
  createdAt := 0

/-- Nothing but its counter sets it apart from what a client posts. -/
def farEnvelope : WireEnvelope where
  v := 1
  sessionId := "s"
  ctr := (999999999 : Nat)
  ct := toBase64 (.aead (.bytes []) (.bytes []) (.bytes []) (.bytes []))
  init := none

theorem not_decrypt_capped :
    ¬∀ (libraries : Wire.Libraries) (t : Nat) (this : Tab) (d : Device)
        (conversationId senderId : String) (envelope : WireEnvelope) (own : Bool),
      Dm.EnvelopeValidator.validate (Wire.json libraries (.v1 envelope)) = .ok () →
      (d.sessions.get envelope.sessionId).isSome →
      Capped t this d conversationId senderId envelope own := by
  intro claimed
  have accepted : Dm.EnvelopeValidator.validate (Wire.json Wire.blank (.v1 farEnvelope)) = .ok () := by
    refine Wire.accepted_of_fits Wire.blank (.v1 999999999 rfl rfl ?_ ?_ nofun) (Nat.zero_le _) ?_
    · exact ⟨by decide, by decide⟩
    · exact ⟨_, _, [], _, rfl, rfl⟩
    · simp only [AnyEnvelope.ctr, farEnvelope]
      norm_num
  let device := { freshDevice with sessions := Table.empty.put heldSession }
  have stored : device.sessions.get farEnvelope.sessionId = some heldSession :=
    Table.get_put_self _ _
  have enters : Enters tab device "c" "a" farEnvelope false :=
    ⟨responder, heldSession, rfl, ⟨rfl, rfl, _, rfl⟩, .inl stored⟩
  obtain ⟨result, d', steps, ran, counted⟩ := decrypt_ends (t := 0) enters
  have bound := claimed Wire.blank 0 tab device "c" "a" farEnvelope false accepted
    (by rw [stored]; rfl) result d' steps ran
  rw [counted, farEnvelope, Nat.ceil_natCast, ROTATE_AFTER_MESSAGES] at bound
  omega

end DecryptWork
