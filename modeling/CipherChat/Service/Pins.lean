import CipherChat.Service.World

/-!
Whether a call that replaces the pinned identity key of a peer tells its caller.
-/

namespace Pins

open Async Number Symbolic Primitives KeyStore Envelope EnvelopeV2 Store E2EEService

/-- The pin a successful operation wrote. -/
def pinned (e : Event) : Option PeerPin :=
  match e.op, e.result with
  | .savePeerPin pin, .ok _ => some pin
  | _, _ => none

/-- The operation put another identity key in the place of the one that was pinned. -/
def Replaces (e : Event) : Prop :=
  ∃ pin held, pinned e = some pin ∧ e.before.peers.get pin.userId = some held ∧
    held.identityEd25519 ≠ pin.identityEd25519

/-- The operation found no pin. -/
def foundNone (e : Event) : Bool :=
  match e.op, e.result with
  | .getPeerPin _, .ok none => true
  | _, _ => false

def loaded (e : Event) : Option StoredIdentity :=
  match e.op, e.result with
  | .loadIdentity, .ok found => found
  | _, _ => none

def failed (e : Event) : Bool :=
  match e.result with
  | .ok _ => false
  | .error _ => true

/-- Thread `t` has replaced a pin. -/
def Replaced (t : Nat) (past : List Event) : Prop :=
  ∃ e ∈ past, e.thread = t ∧ Replaces e

/-- The identity keys a call works with: those of its tab, or those it has loaded. -/
def WorksWith (t : Nat) (client : Client) (identity : StoredIdentity) (past : List Event) : Prop :=
  client.this.identity = some identity ∨ ∃ e ∈ past, e.thread = t ∧ loaded e = some identity

/-- The envelope opens under the session its init block starts. -/
def Opens (conversationId senderId : String) (identity : StoredIdentity) : AnyEnvelope → Prop
  | .v1 envelope => ∀ init, envelope.init = some init → ∀ now, ∃ session,
      Session.acceptSession conversationId senderId envelope.sessionId identity init now =
        .ok session ∧ ∃ text, Envelope.open session conversationId senderId envelope = .ok text
  | .v2 envelope => ∀ init, envelope.init = some init → ∀ now, ∃ session,
      startResponder conversationId senderId envelope.sessionId identity init now =
        .ok session ∧ ∀ now fresh, ∃ opened, openV2 session senderId envelope now fresh = .ok opened

/-- A pin is replaced only by a decryption of an envelope that then opens, which had not
found the peer unpinned, and of which no later operation fails. -/
structure Told (w : World) (e : Event) : Prop where
  opens : Replaces e → ∃ conversationId senderId envelope own,
    e.client.call = .decrypt conversationId senderId envelope own ∧
      ∀ identity, WorksWith e.thread e.client identity w.past →
        Opens conversationId senderId identity envelope
  found : Replaces e → ∀ e' ∈ w.past, e'.thread = e.thread → foundNone e' = false
  succeeds : Replaced e.thread w.past → (∀ row, e.op ≠ .addDek row) → failed e = false

/-- The calls that look at identity keys. -/
def identityCall : Call → Bool
  | .encrypt .. | .decrypt .. | .safetyNumberFor _ | .markVerified _ => true
  | _ => false

/-- The caller learns of the change: from `keyChanged`, or from an error that names it. -/
def Reported (names : JsError → Prop) (report : Report) : Prop :=
  match report.outcome with
  | .decrypted (.ok result) => result.keyChanged = some true
  | .encrypted (.error e) => names e
  | .decrypted (.error e) => names e
  | .numbered (.error e) => names e
  | .marked (.error e) => names e
  | _ => False

/-- In every run every call that has replaced a pin has reported it when it ends. -/
def NoSilentChange (names : JsError → Prop) (permits : World → Event → Prop) : Prop :=
  ∀ start config, start.calls = (fun _ => none) → start.past = [] →
    (recorded (fun _ client => identityCall client.call) permits).Reachable start config →
    ∀ t report, config.threads t = some (.done report) → Replaced t config.state.past →
      Reported names report

/-- Operations belong to the calls that are under way. -/
def Traced (w : World) : Prop :=
  ∀ e ∈ w.past, w.calls e.thread = some e.client

abbrev discipline : Discipline Op Op.Res World :=
  histories Told (fun _ _ => True) Traced

theorem traced_record (w : World) (e : Event) (d : Device) (traced : Traced w)
    (performs : w.Performs Told e d) (_ : True) : Traced (w.record e d) := by
  intro e' member
  rcases List.mem_cons.mp member with rfl | old
  · exact performs.running
  · exact traced e' old

/-- The thread is under way, has seen what is `known`, and if it has replaced a pin then
`fact` holds. -/
structure Bound (t : Nat) (client : Client) (known : List Event → Prop) (fact : Prop)
    (w : World) : Prop where
  running : w.calls t = some client
  known : known w.past
  told : Replaced t w.past → fact

/-- A thread that has replaced a pin under `fact` goes on to a value with `after`. -/
def Tells (t : Nat) (client : Client) (known : List Event → Prop) (fact : Prop) {α : Type}
    (p : Prog α) (after : α → Prop) : Prop :=
  discipline.Triple t (Bound t client known fact) p fun result =>
    Bound t client known (∃ value, result = .ok value ∧ after value)

/-- The operations that write no pin and may not fail. -/
def Silent : Op → Prop
  | .savePeerPin _ | .addDek _ => False
  | _ => True

section Rules

variable {t : Nat} {client : Client} {known : List Event → Prop} {fact fact' : Prop}
  {α β : Type}

theorem Bound.mono {w : World} (bound : Bound t client known fact w) (weaken : fact → fact') :
    Bound t client known fact' w :=
  ⟨bound.running, bound.known, fun replaced => weaken (bound.told replaced)⟩

theorem replaced_cons {e : Event} {past : List Event} (replaced : Replaced t (e :: past)) :
    Replaced t past ∨ (e.thread = t ∧ Replaces e) := by
  obtain ⟨e', member, mine, replaces⟩ := replaced
  rcases List.mem_cons.mp member with rfl | old
  · exact .inr ⟨mine, replaces⟩
  · exact .inl ⟨e', old, mine, replaces⟩

theorem Bound.cons {w : World} {e : Event} {d : Device}
    (grows : ∀ e past, known past → known (e :: past)) (bound : Bound t client known fact w)
    (new : e.thread = t → Replaces e → fact) : Bound t client known fact (w.record e d) := by
  refine ⟨bound.running, grows e _ bound.known, fun replaced => ?_⟩
  rcases replaced_cons replaced with before | ⟨mine, replaces⟩
  · exact bound.told before
  · exact new mine replaces

theorem lasts_bound (grows : ∀ e past, known past → known (e :: past)) :
    Lasts Told (fun _ _ => True) Traced t (Bound t client known fact) := by
  intro w w' _ bound step
  cases step with
  | begin _ idle => exact ⟨World.calls_begin idle bound.running, bound.known, bound.told⟩
  | event other _ _ => exact bound.cons grows fun mine => absurd mine other

/-- An operation that writes no pin goes well once a pin was replaced. -/
theorem tells_call {op : Op} (grows : ∀ e past, known past → known (e :: past))
    (silent : Silent op) :
    Tells t client known fact (call op) fun _ => fact := by
  refine triple_call (lasts_bound grows) (fun _ bound => bound.running) traced_record ?_
  intro w result d _ bound performs
  refine ⟨trivial, bound.running, grows _ _ bound.known, fun replaced => ?_⟩
  rcases replaced_cons replaced with before | ⟨_, pin, held, isPinned, _⟩
  · have succeeds := performs.permitted.succeeds before fun row isAdd => by
      rw [show op = .addDek row from isAdd] at silent
      exact silent
    cases result with
    | ok value => exact ⟨value, rfl, bound.told before⟩
    | error e => cases succeeds
  · exfalso
    unfold pinned at isPinned
    split at isPinned
    next saved _ isSave _ =>
      rw [show op = .savePeerPin saved from isSave] at silent
      exact silent
    next => cases isPinned

theorem tells_pure {value : α} {after : α → Prop} (holds : fact → after value) :
    Tells t client known fact (pure value) after :=
  Discipline.triple_pure fun _ bound => bound.mono fun isFact => ⟨value, rfl, holds isFact⟩

theorem tells_throw {e : JsError} {after : α → Prop} (never : ¬fact) :
    Tells t client known fact (throw e) after :=
  Discipline.triple_throw fun _ bound => bound.mono fun isFact => absurd isFact never

theorem tells_lift {result : Except JsError α} {after : α → Prop}
    (holds : fact → ∃ value, result = .ok value ∧ after value) :
    Tells t client known fact (lift result) after :=
  Discipline.triple_lift fun _ bound => bound.mono holds

theorem tells_bind {p : Prog α} {f : α → Prog β} {after : β → Prop} (middle : α → Prop)
    (first : Tells t client known fact p middle)
    (rest : ∀ value, Tells t client known (middle value) (f value) after) :
    Tells t client known fact (p >>= f) after := by
  refine Discipline.triple_bind _ first (fun value => ?_) (fun e w bound => ?_)
  · refine Discipline.Triple.weaken (rest value) (fun w bound => ?_) (fun _ _ => id)
    exact bound.mono fun ⟨_, same, holds⟩ => Except.ok.inj same ▸ holds
  · exact bound.mono fun ⟨_, impossible, _⟩ => by cases impossible

theorem tells_tryCatch {p : Prog α} {handler : JsError → Prog α} {after : α → Prop}
    (first : Tells t client known fact p after)
    (handled : ∀ e, Tells t client known False (handler e) after) :
    Tells t client known fact (tryCatch p handler) after := by
  refine Discipline.triple_tryCatch _ first (fun _ _ => id) (fun e => ?_)
  refine Discipline.Triple.weaken (handled e) (fun w bound => ?_) (fun _ _ => id)
  exact bound.mono fun ⟨_, impossible, _⟩ => by cases impossible

theorem tells_settle {p : Prog α} {after : α → Prop} (body : Tells t client known fact p after) :
    Tells t client known fact (settle p) fun result => ∃ value, result = .ok value ∧ after value :=
  Discipline.triple_settle (body.weaken (fun _ => id) fun result _ bound =>
    bound.mono fun holds => ⟨result, rfl, holds⟩)

theorem tells_withLock {name : String} {body : Prog α} {after : α → Prop}
    (grows : ∀ e past, known past → known (e :: past))
    (tells : Tells t client known fact body after) :
    Tells t client known fact (withLock name body) after := by
  refine tells_bind (fun _ => fact) (tells_call grows trivial) (fun _ => ?_)
  refine tells_bind _ (tells_settle tells) (fun result => ?_)
  refine tells_bind (fun _ => ∃ value, result = .ok value ∧ after value) ?_ (fun _ => tells_lift id)
  exact tells_call grows trivial

/-- Nothing but the pin may fail; `addDek` may, and is caught. -/
theorem tells_ensureDek (grows : ∀ e past, known past → known (e :: past)) (convId : String) :
    Tells t client known fact (ensureDek convId) fun _ => fact := by
  have look : Tells t client known fact (existingDek convId) fun _ => fact := by
    refine tells_bind (fun _ => fact) ?_ (fun _ => tells_pure id)
    exact tells_call grows trivial
  refine tells_bind _ look (fun found => ?_)
  cases found with
  | some key => exact tells_pure id
  | none =>
      refine tells_bind (fun _ => fact) ?_ (fun key => ?_)
      · exact tells_call grows trivial
      · refine Discipline.triple_tryCatch (fun _ => Bound t client known fact) ?_
          (fun value w bound => bound.mono fun holds => ⟨value, rfl, holds⟩) (fun e => ?_)
        · refine Discipline.triple_bind (fun _ => Bound t client known fact) ?_
            (fun _ => Discipline.triple_pure fun _ => id) (fun _ _ => id)
          refine triple_call (lasts_bound grows) (fun _ bound => bound.running) traced_record ?_
          intro w result d _ bound performs
          refine ⟨trivial, bound.cons grows fun _ replaces => ?_⟩
          obtain ⟨_, _, impossible, _⟩ := replaces
          cases impossible
        · exact tells_bind _ look fun _ => tells_pure id

end Rules

section Calls

variable {t : Nat} {client : Client} {identity : StoredIdentity}
  {conversationId senderId : String} {envelope : AnyEnvelope} {own : Bool}

theorem worksWith_grows (e : Event) (past : List Event)
    (works : WorksWith t client identity past) : WorksWith t client identity (e :: past) := by
  refine works.imp_right ?_
  rintro ⟨e', old, rest⟩
  exact ⟨e', List.mem_cons_of_mem _ old, rest⟩

/-- The thread has found the peer unpinned. -/
def Unpinned (t : Nat) (client : Client) (identity : StoredIdentity) (past : List Event) : Prop :=
  WorksWith t client identity past ∧ ∃ e ∈ past, e.thread = t ∧ foundNone e = true

theorem unpinned_grows (e : Event) (past : List Event)
    (unpinned : Unpinned t client identity past) : Unpinned t client identity (e :: past) := by
  obtain ⟨works, e', old, rest⟩ := unpinned
  exact ⟨worksWith_grows e past works, e', List.mem_cons_of_mem _ old, rest⟩

/-- A write of the pin, when what it replaces lets `fact` hold. -/
theorem tells_pin {known : List Event → Prop} {fact : Prop} (peerId : String) (ed : Base64)
    (keyVersion : JsNumber) (grows : ∀ e past, known past → known (e :: past))
    (reason : ∀ w e, w.calls t = some client → known w.past → Told w e → e.thread = t →
      e.client = client → Replaces e → fact) :
    Tells t client known False (pin peerId ed keyVersion) fun _ => fact := by
  refine tells_bind (fun _ => False) ?_ (fun pinnedAt => ?_)
  · exact tells_call grows trivial
  refine triple_call (lasts_bound grows) (fun _ bound => bound.running) traced_record ?_
  intro w result d _ bound performs
  refine ⟨trivial, bound.running, grows _ _ bound.known, fun replaced => ?_⟩
  rcases replaced_cons replaced with before | ⟨_, replaces⟩
  · exact absurd (bound.told before) id
  · have holds := reason w _ bound.running bound.known performs.permitted rfl rfl replaces
    cases result with
    | ok value => exact ⟨value, rfl, holds⟩
    | error e =>
        obtain ⟨_, _, impossible, _⟩ := replaces
        cases impossible

variable (decrypts : client.call = .decrypt conversationId senderId envelope own)

include decrypts

theorem opens_of_replaces (w : World) (e : Event) (_ : w.calls t = some client)
    (works : WorksWith t client identity w.past) (told : Told w e) (mine : e.thread = t)
    (same : e.client = client) (replaces : Replaces e) :
    Opens conversationId senderId identity envelope := by
  obtain ⟨_, _, _, _, isCall, opens⟩ := told.opens replaces
  rw [same, decrypts] at isCall
  cases isCall
  refine opens identity ?_
  rw [mine, same]
  exact works

theorem tells_comparePin (peerId : String) (ed : Base64) (keyVersion : JsNumber) :
    Tells t client (WorksWith t client identity) False (comparePin peerId ed keyVersion)
      fun changed => changed = true ∧ Opens conversationId senderId identity envelope := by
  refine Discipline.triple_bind (fun result w => Bound t client (WorksWith t client identity)
      False w ∧ (result = .ok none → Unpinned t client identity w.past))
    (triple_call (lasts_bound worksWith_grows) (fun _ bound => bound.running) traced_record ?_)
    (fun found => ?_) (fun e w known => known.1.mono False.elim)
  · intro w result d _ bound performs
    refine ⟨trivial, bound.cons worksWith_grows fun _ replaces => ?_, fun same => ?_⟩
    · obtain ⟨_, _, impossible, _⟩ := replaces
      cases impossible
    · subst same
      exact ⟨worksWith_grows _ _ bound.known, _, List.mem_cons_self, rfl, rfl⟩
  cases found with
  | none =>
      -- a pin found missing is not one that is replaced
      have first : Tells t client (Unpinned t client identity) False
          (do pin peerId ed keyVersion; return false) fun _ => False := by
        refine tells_bind (fun _ => False) (tells_pin peerId ed keyVersion unpinned_grows ?_)
          (fun _ => tells_pure id)
        rintro w e _ ⟨_, e', old, mine', isNone⟩ told mine _ replaces
        have never := told.found replaces e' old (mine'.trans mine.symm)
        rw [isNone] at never
        cases never
      refine Discipline.Triple.weaken first (fun w known => ?_) (fun result w bound => ?_)
      · exact ⟨known.1.running, known.2 rfl, known.1.told⟩
      · exact ⟨bound.running, bound.known.1, fun replaced =>
          (bound.told replaced).elim fun _ impossible => impossible.2.elim⟩
  | some held =>
      refine Discipline.Triple.weaken ?_ (fun w known => known.1) (fun _ _ => id)
      dsimp only
      split
      · refine tells_bind _ (tells_pin peerId ed keyVersion worksWith_grows
          (opens_of_replaces decrypts)) (fun _ => tells_pure fun opens => ⟨rfl, opens⟩)
      · exact tells_pure False.elim

theorem tells_checkPeerIdentity (peerId : String) (claimed directory : Option Base64)
    (keyVersion : JsNumber) :
    Tells t client (WorksWith t client identity) False
      (checkPeerIdentity peerId claimed directory keyVersion)
      fun changed => changed = true ∧ Opens conversationId senderId identity envelope := by
  unfold checkPeerIdentity
  split
  · exact tells_comparePin decrypts _ _ _
  · refine tells_bind (fun _ => False) ?_ (fun keys => ?_)
    · exact tells_call worksWith_grows trivial
    split
    · split
      · exact tells_bind _ (tells_pin _ _ _ worksWith_grows (opens_of_replaces decrypts))
          (fun _ => tells_pure fun opens => ⟨rfl, opens⟩)
      · exact tells_comparePin decrypts _ _ _
    · exact tells_comparePin decrypts _ _ _

end Calls

section Decryptions

variable {t : Nat} {client : Client} {identity : StoredIdentity}
  {conversationId senderId : String} {own : Bool}

theorem tells_receivingSession {envelope : WireEnvelope}
    (decrypts : client.call = .decrypt conversationId senderId (.v1 envelope) own) :
    Tells t client (WorksWith t client identity) False
      (receivingSession conversationId senderId envelope own identity)
      fun received => own = false ∧ received.2 = true ∧ ∃ session, received.1 = some session ∧
        ∃ text, Envelope.open session conversationId senderId envelope = .ok text := by
  refine tells_bind (fun _ => False) (tells_call worksWith_grows trivial) (fun found => ?_)
  cases found with
  | some session => exact tells_pure False.elim
  | none =>
      dsimp only
      split
      next init hasInit =>
        refine tells_bind _ (tells_checkPeerIdentity decrypts senderId (some init.ik) none 1)
          (fun changed => ?_)
        refine tells_bind _ (tells_call worksWith_grows trivial) (fun now => ?_)
        refine tells_bind (fun session => changed = true ∧ ∃ text,
          Envelope.open session conversationId senderId envelope = .ok text)
          (tells_lift fun ⟨isChanged, opens⟩ => ?_) (fun session => ?_)
        · obtain ⟨session, accepted, opened⟩ := opens init hasInit now
          exact ⟨session, accepted, isChanged, opened⟩
        refine tells_bind _ (tells_call worksWith_grows trivial) (fun _ => ?_)
        refine tells_bind _ (tells_call worksWith_grows trivial) (fun _ => ?_)
        exact tells_pure fun ⟨isChanged, opened⟩ => ⟨rfl, isChanged, session, rfl, opened⟩
      next => exact tells_pure False.elim

theorem tells_decryptV1 {envelope : WireEnvelope}
    (decrypts : client.call = .decrypt conversationId senderId (.v1 envelope) own) :
    Tells t client (WorksWith t client identity) False
      (decryptV1 conversationId senderId envelope own identity)
      fun result => result.keyChanged = some true := by
  refine tells_tryCatch ?_ (fun _ => tells_pure False.elim)
  refine tells_bind _ (tells_receivingSession decrypts) (fun ⟨found, keyChanged⟩ => ?_)
  cases found with
  | none => exact tells_pure fun ⟨_, _, _, impossible, _⟩ => by cases impossible
  | some session =>
      refine tells_bind (fun _ => keyChanged = true) (tells_lift ?_) (fun text => ?_)
      · rintro ⟨isPeers, isChanged, _, same, text, opened⟩
        obtain rfl := Option.some.inj same
        exact ⟨text, by simpa [isPeers] using opened, isChanged⟩
      have finish : Tells t client (WorksWith t client identity) (keyChanged = true)
          (pure { ok := true, text, keyChanged := some keyChanged } : Prog DecryptResult)
          fun result => result.keyChanged = some true :=
        tells_pure fun isChanged => by rw [isChanged]
      dsimp only
      split
      · exact tells_bind _ (tells_call worksWith_grows trivial) (fun _ => finish)
      · exact finish

theorem tells_existingDek {fact : Prop} (convId : String) :
    Tells t client (WorksWith t client identity) fact (existingDek convId) fun _ => fact :=
  tells_bind (fun _ => fact) (tells_call worksWith_grows trivial) fun _ => tells_pure id

theorem tells_loadMessage (convId msgKey : String) :
    Tells t client (WorksWith t client identity) False (loadMessage convId msgKey)
      fun _ => False := by
  refine tells_bind _ (tells_existingDek convId) (fun key => ?_)
  cases key with
  | none => exact tells_pure id
  | some key =>
      refine tells_bind _ (tells_call worksWith_grows trivial) (fun row => ?_)
      cases row with
      | none => exact tells_pure id
      | some row => exact tells_pure id

theorem tells_loadRatchet (convId sessionId : String) :
    Tells t client (WorksWith t client identity) False (loadRatchet convId sessionId)
      fun _ => False := by
  refine tells_bind _ (tells_existingDek convId) (fun key => ?_)
  cases key with
  | none => exact tells_pure id
  | some key =>
      refine tells_bind _ (tells_call worksWith_grows trivial) (fun row => ?_)
      cases row with
      | none => exact tells_pure id
      | some row =>
          dsimp only
          split
          · exact tells_pure id
          split
          · exact tells_throw id
          · exact tells_pure id

theorem tells_receivingRatchet {envelope : WireEnvelopeV2}
    (decrypts : client.call = .decrypt conversationId senderId (.v2 envelope) own) :
    Tells t client (WorksWith t client identity) False
      (receivingRatchet conversationId senderId envelope identity)
      fun received => received.2 = true ∧ ∃ session, received.1 = some session ∧
        ∀ now fresh, ∃ opened, openV2 session senderId envelope now fresh = .ok opened := by
  refine tells_bind _ (tells_loadRatchet _ _) (fun found => ?_)
  cases found with
  | some session => exact tells_pure False.elim
  | none =>
      dsimp only
      split
      next => exact tells_pure False.elim
      next init hasInit =>
        refine tells_bind _ (tells_checkPeerIdentity decrypts senderId (some init.ik) none 1)
          (fun changed => ?_)
        refine tells_bind _ (tells_call worksWith_grows trivial) (fun now => ?_)
        refine tells_bind (fun session => changed = true ∧
          ∀ now fresh, ∃ opened, openV2 session senderId envelope now fresh = .ok opened)
          (tells_lift fun ⟨isChanged, opens⟩ => ?_) (fun session => ?_)
        · obtain ⟨session, started, opened⟩ := opens init hasInit now
          exact ⟨session, started, isChanged, opened⟩
        · exact tells_pure fun ⟨isChanged, opened⟩ => ⟨isChanged, session, rfl, opened⟩

theorem tells_decryptV2 {envelope : WireEnvelopeV2}
    (decrypts : client.call = .decrypt conversationId senderId (.v2 envelope) own) :
    Tells t client (WorksWith t client identity) False
      (decryptV2 conversationId senderId envelope own identity)
      fun result => result.keyChanged = some true := by
  refine tells_tryCatch ?_ (fun _ => tells_pure False.elim)
  refine tells_bind _ (tells_loadMessage _ _) (fun found => ?_)
  cases found with
  | some stored => exact tells_pure False.elim
  | none =>
      dsimp only
      split
      · exact tells_pure False.elim
      refine tells_withLock worksWith_grows ?_
      refine tells_bind _ (tells_loadMessage _ _) (fun found => ?_)
      cases found with
      | some again => exact tells_pure False.elim
      | none =>
          refine tells_bind _ (tells_receivingRatchet decrypts) (fun ⟨found, keyChanged⟩ => ?_)
          cases found with
          | none => exact tells_pure fun ⟨_, _, impossible, _⟩ => by cases impossible
          | some session =>
              refine tells_bind _ (tells_call worksWith_grows trivial) (fun now => ?_)
              refine tells_bind _ (tells_call worksWith_grows trivial) (fun fresh => ?_)
              refine tells_bind (fun _ => keyChanged = true) (tells_lift ?_)
                (fun ⟨text, next⟩ => ?_)
              · rintro ⟨isChanged, _, same, opens⟩
                obtain rfl := Option.some.inj same
                obtain ⟨opened, isOpened⟩ := opens now fresh
                exact ⟨opened, isOpened, isChanged⟩
              refine tells_bind (fun _ => keyChanged = true) ?_
                (fun _ => tells_pure fun isChanged => by rw [isChanged])
              exact tells_bind _ (tells_ensureDek worksWith_grows _)
                fun key => tells_call worksWith_grows trivial

theorem tells_decrypt {this : Tab} {envelope : AnyEnvelope} (isTab : client.this = this)
    (decrypts : client.call = .decrypt conversationId senderId envelope own) :
    discipline.Triple t (Bound t client (fun _ => True) False)
      (decrypt this conversationId senderId envelope own) fun result =>
        Bound t client (fun _ => True)
          (∃ value, result = .ok value ∧ value.keyChanged = some true) := by
  have finish : ∀ identity, discipline.Triple t (Bound t client (WorksWith t client identity) False)
      (match envelope with
        | .v1 envelope => decryptV1 conversationId senderId envelope own identity
        | .v2 envelope => decryptV2 conversationId senderId envelope own identity) fun result =>
          Bound t client (fun _ => True)
            (∃ value, result = .ok value ∧ value.keyChanged = some true) := by
    intro identity
    have forget : ∀ fact w, Bound t client (WorksWith t client identity) fact w →
        Bound t client (fun _ => True) fact w := fun _ _ bound => ⟨bound.running, trivial, bound.told⟩
    cases envelope with
    | v1 envelope => exact (tells_decryptV1 decrypts).weaken (fun _ => id) fun _ => forget _
    | v2 envelope => exact (tells_decryptV2 decrypts).weaken (fun _ => id) fun _ => forget _
  refine Discipline.triple_bind (fun result w => Bound t client (fun _ => True) False w ∧
    ∀ identity, result = .ok (some identity) → WorksWith t client identity w.past) ?_
    (fun found => ?_) (fun _ _ known => known.1.mono False.elim)
  · unfold cachedIdentity
    split
    next identity isCached =>
      refine Discipline.triple_pure fun w bound => ⟨bound, fun identity' same => ?_⟩
      obtain rfl := Option.some.inj (Except.ok.inj same)
      exact .inl (isTab ▸ isCached)
    next =>
      refine triple_call (lasts_bound fun _ _ _ => trivial) (fun _ bound => bound.running)
        traced_record ?_
      intro w result d _ bound performs
      refine ⟨trivial, bound.cons (fun _ _ _ => trivial) fun _ replaces => ?_,
        fun identity same => ?_⟩
      · obtain ⟨_, _, impossible, _⟩ := replaces
        cases impossible
      · subst same
        exact .inr ⟨_, List.mem_cons_self, rfl, rfl⟩
  cases found with
  | none => exact Discipline.triple_pure fun _ known => known.1.mono False.elim
  | some identity =>
      refine Discipline.Triple.weaken (finish identity) (fun w known => ?_) (fun _ _ => id)
      exact ⟨known.1.running, known.2 identity rfl, known.1.told⟩

end Decryptions

section Runs

variable {t : Nat} {client : Client}

theorem uses_anything {α : Type} (p : Program Op Op.Res α) :
    Async.Uses (fun _ : Op => True) p := by
  induction p with
  | done value => trivial
  | await op next ih => exact ⟨trivial, ih⟩

/-- Whatever the program does, only a decryption replaces a pin. -/
theorem bound_decrypts {α : Type} (p : Prog α) :
    discipline.Triple t (Bound t client (fun _ => True) False) p fun _ =>
      Bound t client (fun _ => True) (∃ conversationId senderId envelope own,
        client.call = .decrypt conversationId senderId envelope own) := by
  refine Discipline.Triple.weaken (triple_inert (lasts_bound fun _ _ _ => trivial)
    (fun _ bound => bound.running) traced_record ?_ (uses_anything p.run))
    (fun _ bound => bound.mono False.elim) (fun _ _ => id)
  intro op _ w result d _ bound performs
  refine ⟨trivial, bound.cons (fun _ _ _ => trivial) fun _ replaces => ?_⟩
  obtain ⟨conversationId, senderId, envelope, own, decrypts, _⟩ := performs.permitted.opens replaces
  exact ⟨conversationId, senderId, envelope, own, decrypts⟩

theorem safe_client {names : JsError → Prop} {w : World}
    (bound : Bound t client (fun _ => True) False w) (admitted : identityCall client.call) :
    discipline.Safe t (fun report w => Replaced t w.past → Reported names report)
      client.program w := by
  obtain ⟨⟨this, called⟩, n⟩ := client
  have silent : ∀ {β : Type} {p : Prog β} {outcome : Except JsError β → Outcome},
      (∀ conversationId senderId envelope own,
        called ≠ .decrypt conversationId senderId envelope own) →
      discipline.Safe t (fun report w => Replaced t w.past → Reported names report)
        (Request.report ⟨this, called⟩ outcome p) w := by
    intro β p outcome other
    refine safe_request (bound_decrypts p) (fun result w bound replaced => ?_) bound
    obtain ⟨_, _, _, _, decrypts⟩ := bound.told replaced
    exact absurd decrypts (other _ _ _ _)
  cases called with
  | encrypt => exact silent fun _ _ _ _ impossible => by cases impossible
  | safetyNumberFor => exact silent fun _ _ _ _ impossible => by cases impossible
  | markVerified => exact silent fun _ _ _ _ impossible => by cases impossible
  | decrypt conversationId senderId envelope own =>
      refine safe_request (tells_decrypt rfl rfl) (fun result w bound replaced => ?_) bound
      obtain ⟨value, rfl, told⟩ := bound.told replaced
      exact told
  | _ => cases admitted

/-- What the server serves once it has put other keys in the place of the sender's. -/
def changedBundle : PeerBundle where
  identityEd25519 := toBase64 (.pub 8)
  identityX25519 := toBase64 (.pub 9)
  signedPreKey := { keyId := 1, pubX25519 := toBase64 (.pub 10), sig := toBase64 (.sig 8 (.pub 10)) }
  keyVersion := 2

/-- A session is started, and rotated after its week, when the directory has changed. -/
def rotation : Option (Config Op Op.Res World Report) :=
  (World.schedule (fun client => identityCall client.call) fun _ _ => true).follow idle <|
    begins 0 (tabClient 0 (.encrypt "c" "a" (Utf.ofString "hi"))) 14
      { bundle := some senderBundle, uuid := "s" } ++
    begins 1 (tabClient 0 (.encrypt "c" "a" (Utf.ofString "hi again"))) 17
      { bundle := some changedBundle, uuid := "s'", time := Session.ROTATE_AFTER_MS + 1 }

def replaces (e : Event) : Bool :=
  match pinned e with
  | some pin => match e.before.peers.get pin.userId with
      | some held => held.identityEd25519 ≠ pin.identityEd25519
      | none => false
  | none => false

theorem replaces_iff {e : Event} : replaces e = true ↔ Replaces e := by
  unfold replaces Replaces
  cases pinned e with
  | none => simp
  | some pin => cases found : e.before.peers.get pin.userId <;> simp [found]

/-- Thread `t` has replaced a pin, and its encryption returned an envelope. -/
def silent (t : Nat) (config : Config Op Op.Res World Report) : Bool :=
  (config.state.past.any fun e => e.thread = t && replaces e) &&
  match config.threads t with
  | some (.done report) => match report.outcome with
      | .encrypted (.ok _) => true
      | _ => false
  | _ => false

theorem rotation_silent : rotation.map (silent 1) = some true := by
  decide +kernel

theorem silent_rotation : ¬NoSilentChange (fun _ => True) fun _ _ => True := by
  intro claim
  obtain ⟨config, ran, isSilent⟩ := Option.map_eq_some_iff.mp rotation_silent
  have sound : (World.schedule (fun client => identityCall client.call) fun _ _ => true).Sound
      (recorded (fun _ client => identityCall client.call) fun _ _ => True) World.Few :=
    World.schedule_sound (fun _ _ allowed => allowed) fun _ _ _ _ => trivial
  have begun : (recorded (fun _ client => identityCall client.call)
      fun _ _ => True).Reachable untouched idle := .initial
  obtain ⟨reachable, _⟩ := sound.follow begun untouched_few ran
  simp only [silent, Bool.and_eq_true, List.any_eq_true, decide_eq_true_eq] at isSilent
  obtain ⟨⟨e, member, mine, isReplaced⟩, ended⟩ := isSilent
  have replaced : Replaced 1 config.state.past := ⟨e, member, mine, replaces_iff.mp isReplaced⟩
  split at ended
  next report finished =>
    have reported := claim untouched config rfl rfl reachable 1 report finished replaced
    obtain ⟨request, outcome⟩ := report
    cases outcome with
    | encrypted result =>
        cases result with
        | error e => cases ended
        | ok envelope => exact reported
    | _ => cases ended
  next => cases ended

/-- When pins are replaced only by decryptions that go well, every change is reported. -/
theorem change_reported (names : JsError → Prop) : NoSilentChange names Told := by
  intro start config calls past reachable t report finished replaced
  have ready : ∀ t w p w', Traced w → (recorded (fun _ client => identityCall client.call)
      Told).start t w p w' → Traced w' ∧ (∀ u, u ≠ t → discipline.rely u w w') ∧
        discipline.Safe t (fun report w => Replaced t w.past → Reported names report) p w' := by
    rintro t w p w' traced ⟨idle, client, admitted, rfl, rfl⟩
    refine ⟨fun e member => World.calls_begin idle (traced e member),
      fun u other => .single ⟨traced, .begin (Ne.symm other) idle⟩, ?_⟩
    refine safe_client ⟨w.begin_calls_self t client, trivial, ?_⟩ admitted
    rintro ⟨e, member, mine, _⟩
    have running := traced e member
    rw [mine, idle] at running
    cases running
  have initial : Traced start := by
    intro e member
    rw [past] at member
    cases member
  obtain ⟨_, safe⟩ := reachable.safe (D := discipline) rfl initial ready
  obtain ⟨w, relied, reports⟩ := safe t _ finished
  have lasts : Lasts Told (fun _ _ => True) Traced t
      fun w => Replaced t w.past → Reported names report := by
    intro w w' _ holds step
    cases step with
    | begin => exact holds
    | event other _ _ =>
        intro replaced
        rcases replaced_cons replaced with before | ⟨mine, _⟩
        · exact holds before
        · exact absurd mine other
  exact lasts.rely w config.state reports relied replaced

/-- The sender on a new device. -/
def changed : StoredIdentity where
  edPriv := toBase64 (.secret 8)
  edPub := toBase64 (.pub 8)
  xPriv := toBase64 (.secret 9)
  xPub := toBase64 (.pub 9)
  spkId := 1
  spkPriv := toBase64 (.secret 10)
  spkPub := toBase64 (.pub 10)
  createdAt := 0

def changedEnvelope : Except JsError WireEnvelope := do
  let initiated ← Session.initiateSession "c" "b" changed responderBundle 11 "s'" 0
  Envelope.seal initiated.session "c" "a" 0 (Utf.ofString "hi") (some initiated.init)

/-- The time of arrival does not matter to what is read. -/
theorem opens_changed {envelope : WireEnvelope} (isChanged : changedEnvelope.toOption = some envelope) :
    Opens "c" "a" responder (.v1 envelope) := by
  have read : ((do
      let envelope ← changedEnvelope.toOption
      let init ← envelope.init
      let session ← (Session.acceptSession "c" "a" envelope.sessionId responder init 0).toOption
      (Envelope.open session "c" "a" envelope).toOption) : Option (List UInt16)).isSome = true := by
    decide +kernel
  intro init isInit now
  simp only [isChanged, isInit, Option.bind_eq_bind, Option.bind_some] at read
  cases accepted : Session.acceptSession "c" "a" envelope.sessionId responder init 0 with
  | error e => simp [accepted, Except.toOption] at read
  | ok session =>
      cases result : Envelope.open session "c" "a" envelope with
      | error e => simp [accepted, result, Except.toOption] at read
      | ok text =>
          obtain ⟨known, spkPriv, ikPriv, ikA, ekA, dh1, dh2, dh3, spk, ik, first, second, isDh1, isDh2,
            isDh3, rfl⟩ := Session.acceptSession_eq_ok.mp accepted
          refine ⟨_, Session.acceptSession_eq_ok.mpr ⟨known, spkPriv, ikPriv, ikA, ekA, dh1, dh2, dh3, spk,
            ik, first, second, isDh1, isDh2, isDh3, rfl⟩, text, ?_⟩
          exact result

def renews (client : Client) : Bool :=
  client.this.identity = some responder &&
    match client.call with
    | .decrypt "c" "a" (.v1 envelope) _ => changedEnvelope.toOption = some envelope
    | _ => false

/-- Nothing fails, and a pin is replaced by the decryption of the envelope from the new device. -/
def tells (w : World) (e : Event) : Bool :=
  !failed e && (!replaces e || (renews e.client &&
    w.past.all fun e' => e'.thread ≠ e.thread || (!foundNone e' && (loaded e').isNone)))

theorem told_of_tells {w : World} {e : Event} (isTold : tells w e = true) : Told w e := by
  simp only [tells, Bool.and_eq_true, Bool.or_eq_true, Bool.not_eq_true', List.all_eq_true,
    decide_eq_true_eq] at isTold
  obtain ⟨succeeds, isTold⟩ := isTold
  have renewed (isReplaced : Replaces e) := isTold.resolve_left (by simp [replaces_iff.mpr isReplaced])
  refine ⟨fun isReplaced => ?_, fun isReplaced e' member mine => ?_, fun _ _ => succeeds⟩
  · obtain ⟨isRenewal, quiet⟩ := renewed isReplaced
    simp only [renews, Bool.and_eq_true, decide_eq_true_eq] at isRenewal
    obtain ⟨isTab, isCall⟩ := isRenewal
    split at isCall
    next envelope own called =>
      refine ⟨_, _, _, _, called, fun identity works => ?_⟩
      have isResponder : identity = responder := by
        rcases works with isHeld | ⟨e', member, mine, isLoaded⟩
        · exact Option.some.inj (isHeld.symm.trans isTab)
        · have none := ((quiet e' member).resolve_left (not_not_intro mine)).2
          rw [isLoaded] at none
          cases none
      exact isResponder ▸ opens_changed (of_decide_eq_true isCall)
    next => cases isCall
  · exact ((renewed isReplaced).2 e' member |>.resolve_left (not_not_intro mine)).1

/-- An envelope of the sender is opened, and then the first one from the new device. -/
def renewal : Option (Config Op Op.Res World Report) := do
  let first ← (senderEnvelope 0).toOption
  let second ← changedEnvelope.toOption
  (World.schedule (fun client => identityCall client.call) tells).follow idle <|
    begins 0 (tabClient 0 (.decrypt "c" "a" (.v1 first) false)) 9 directory ++
    begins 1 (tabClient 0 (.decrypt "c" "a" (.v1 second) false)) 9 { bundle := some changedBundle }

/-- Thread `t` has replaced a pin and is done. -/
def replacedBy (t : Nat) (config : Config Op Op.Res World Report) : Bool :=
  (config.state.past.any fun e => e.thread = t && replaces e) &&
  match config.threads t with
  | some (.done _) => true
  | _ => false

theorem renewal_replaces : renewal.map (replacedBy 1) = some true := by
  decide +kernel

/-- The condition is met by a run in which a pin is replaced. -/
theorem change_reported_renewal : ∃ (config : Config Op Op.Res World Report) (report : Report),
    config.threads 1 = some (.done report) ∧ Replaced 1 config.state.past ∧
      Reported (fun _ => False) report := by
  obtain ⟨config, ran, isReplaced⟩ := Option.map_eq_some_iff.mp renewal_replaces
  simp only [renewal, Option.bind_eq_bind, Option.bind_eq_some_iff] at ran
  obtain ⟨first, _, second, _, followed⟩ := ran
  have sound : (World.schedule (fun client => identityCall client.call) tells).Sound
      (recorded (fun _ client => identityCall client.call) Told) World.Few :=
    World.schedule_sound (fun _ _ allowed => allowed) fun _ _ _ isTold => told_of_tells isTold
  have begun : (recorded (fun _ client => identityCall client.call) Told).Reachable untouched idle :=
    .initial
  have reachable := (sound.follow begun untouched_few followed).1
  simp only [replacedBy, Bool.and_eq_true, List.any_eq_true, decide_eq_true_eq] at isReplaced
  obtain ⟨⟨e, member, mine, changes⟩, ended⟩ := isReplaced
  have replaced : Replaced 1 config.state.past := ⟨e, member, mine, replaces_iff.mp changes⟩
  split at ended
  next report finished =>
    exact ⟨config, report, finished, replaced,
      change_reported (fun _ => False) untouched config rfl rfl reachable 1 report finished replaced⟩
  next => cases ended

end Runs

end Pins
