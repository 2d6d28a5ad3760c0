import CipherChat.Service.Counters
import CipherChat.Service.Pins

/-!
Which identity key a confirmed safety number stands for, when other calls write the pin
between the display and the confirmation.
-/

namespace Verification

open Async Number Symbolic Primitives KeyStore Store E2EEService Pins

/-- The identity key pinned for a peer in browser `n`. -/
def pinnedKey (w : World) (n : Nat) (peerId : String) : Option Base64 :=
  ((w.devices n).peers.get peerId).map PeerPin.identityEd25519

/-- The operation wrote the pin of a peer in browser `n`. -/
def writes (n : Nat) (peerId : String) (e : Event) : Bool :=
  e.client.device = n && match pinned e with
    | some pin => pin.userId = peerId
    | none => false

/-- The operation wrote a pin with another identity key than the one stored, if any. -/
def Changes (n : Nat) (peerId : String) (e : Event) : Prop :=
  e.client.device = n ∧ ∃ pin, pinned e = some pin ∧ pin.userId = peerId ∧
    (e.before.peers.get peerId).map PeerPin.identityEd25519 ≠ some pin.identityEd25519

/-- Since thread `d` performed its first operation no other one has changed the pinned key. -/
def Undisturbed (d n : Nat) (peerId : String) : List Event → Prop
  | [] => True
  | e :: earlier => (Changes n peerId e → e.thread = d ∨ ∀ e' ∈ earlier, e'.thread ≠ d) ∧
      Undisturbed d n peerId earlier

/-- The identity key an operation read: of a stored pin, or of the directory. -/
def keyRead (e : Event) : Option Base64 :=
  match e.op, e.result with
  | .getPeerPin _, .ok (some held) => some held.identityEd25519
  | .getKeys _, .ok bundle => some bundle.identityEd25519
  | _, _ => none

/-- The call of thread `d` has shown a safety number of the peer in a tab of browser `n`. -/
def Displayed (config : Config Op Op.Res World Report) (d n : Nat) (peerId : String) (tab : Tab)
    (view : SafetyNumberView) : Prop :=
  (∃ client, config.state.calls d = some client ∧ client.device = n) ∧
    config.threads d = some (.done ⟨⟨tab, .safetyNumberFor peerId⟩, .numbered (.ok (some view))⟩)

/-- No safety number of the peer was shown in browser `n` after this one. -/
def LastDisplay (config : Config Op Op.Res World Report) (d n : Nat) (peerId : String) (tab : Tab)
    (view : SafetyNumberView) : Prop :=
  Displayed config d n peerId tab view ∧ ∃ later e earlier,
    config.state.past = later ++ e :: earlier ∧ e.thread = d ∧
      ∀ e' ∈ later, ∀ tab' view', ¬Displayed config e'.thread n peerId tab' view'

/-- The digits shown are those of this identity key of the peer. -/
def NumberOf (tab : Tab) (peerId : String) (view : SafetyNumberView) (key : Base64) : Prop :=
  ∃ me my, tab.userId = some me ∧
    SafetyNumber.computeSafetyNumber me my peerId key = .ok view.digits

/-- Calls of the service in any interleaving, on any number of browsers. -/
abbrev calls : System Op Op.Res World Report :=
  recorded (fun _ client => identityCall client.call) fun _ _ => True

/-- In every run from `start`, a pin found verified was confirmed by the call that wrote it last, and holds
the key of the number last displayed before that call began, provided the run is `calm`. -/
def Binds (start : World) (calm : Nat → Nat → Nat → String → List Event → Prop) : Prop :=
  ∀ c₀ c₀' c₁ n peerId pin e, calls.Reachable start c₀ →
    calls.Step c₀ c₀' → c₀.threads e.thread = none → c₀'.threads e.thread ≠ none →
    Relation.ReflTransGen calls.Step c₀' c₁ →
    (c₁.state.devices n).peers.get peerId = some pin → pin.verified = true →
    c₁.state.past.find? (writes n peerId) = some e →
    e.client.call = .markVerified peerId ∧ ∀ d tab view, LastDisplay c₀ d n peerId tab view →
      calm d e.thread n peerId c₁.state.past → NumberOf tab peerId view pin.identityEd25519

/-- The directory gave the display no empty identity key, and from the first operation of the
display until the confirmation read the pin no other call changed the key in it. -/
def Calm (d t n : Nat) (peerId : String) (past : List Event) : Prop :=
  (∀ e ∈ past, e.thread = d → ∀ key, keyRead e = some key → key.isEmpty = false) ∧
    ∀ later e earlier, past = later ++ e :: earlier → e.thread = t → e.op = .getPeerPin peerId →
      Undisturbed d n peerId earlier

section Writes

variable {n : Nat} {peerId : String} {w : World} {e : Event} {d : Device}
  {permits : World → Event → Prop}

/-- An operation writes one pin or leaves all pins as they are. -/
theorem peers_after (performs : w.Performs permits e d) :
    (∃ pin, pinned e = some pin ∧ d.peers = e.before.peers.put pin) ∨
      (pinned e = none ∧ d.peers = e.before.peers) := by
  obtain ⟨t, client, op, result, before⟩ := e
  have exec : Exec t before op result d := performs.exec
  rcases exec_cases exec with ⟨error, rfl, rfl⟩ | ⟨value, rfl, rfl, _⟩
  · refine .inr ⟨?_, rfl⟩
    cases op <;> rfl
  · cases op with
    | savePeerPin pin => exact .inl ⟨pin, rfl, rfl⟩
    | _ => exact .inr ⟨rfl, rfl⟩

theorem get_peers_after (n : Nat) (peerId : String) (performs : w.Performs permits e d) :
    (∃ pin, pinned e = some pin ∧ writes n peerId e = true ∧
      ((w.record e d).devices n).peers.get peerId = some pin) ∨
    (writes n peerId e = false ∧
      ((w.record e d).devices n).peers.get peerId = (w.devices n).peers.get peerId) := by
  by_cases here : e.client.device = n
  · subst here
    rw [World.record_device_self, ← performs.before]
    rcases peers_after performs with ⟨pin, isPinned, after⟩ | ⟨none, after⟩
    · by_cases same : pin.userId = peerId
      · subst same
        exact .inl ⟨pin, isPinned, by simp [writes, isPinned], by rw [after, Table.get_put_self]⟩
      · exact .inr ⟨by simp [writes, isPinned, same], by rw [after, Table.get_put_of_ne same]⟩
    · exact .inr ⟨by simp [writes, none], by rw [after]⟩
  · exact .inr ⟨by simp [writes, here], by rw [World.record_device_of_ne _ _ _ (Ne.symm here)]⟩

theorem pinnedKey_record (performs : w.Performs permits e d) (unchanged : ¬Changes n peerId e) :
    pinnedKey (w.record e d) n peerId = pinnedKey w n peerId := by
  rw [pinnedKey, pinnedKey]
  rcases get_peers_after n peerId performs with
    ⟨pin, isPinned, isWrite, after⟩ | ⟨_, after⟩
  · simp only [writes, isPinned, Bool.and_eq_true, decide_eq_true_eq] at isWrite
    obtain ⟨here, named⟩ := isWrite
    rw [after, Option.map_some]
    by_contra differs
    refine unchanged ⟨here, pin, isPinned, named, fun same => differs ?_⟩
    rw [← here, ← performs.before]
    exact same.symm
  · rw [after]

end Writes

section Confirmations

/-- Only a confirmation writes a pin as verified. -/
def Confirms (_ : World) (e : Event) : Prop :=
  ∀ pin, pinned e = some pin → pin.verified = true → e.client.call = .markVerified pin.userId

/-- Operations belong to the calls under way, and every pin is as it was last written. -/
structure Kept (w : World) : Prop where
  traced : Traced w
  confirms : ∀ e ∈ w.past, Confirms w e
  stored : ∀ n peerId pin, (w.devices n).peers.get peerId = some pin →
    ∃ e, w.past.find? (writes n peerId) = some e ∧ pinned e = some pin

abbrev discipline : Discipline Op Op.Res World :=
  histories (fun _ _ => True) Confirms Kept

theorem kept_record (w : World) (e : Event) (d : Device) (kept : Kept w)
    (performs : w.Performs (fun _ _ => True) e d) (confirms : Confirms w e) :
    Kept (w.record e d) := by
  refine ⟨fun e' member => ?_, fun e' member => ?_, fun n peerId pin found => ?_⟩
  · rcases List.mem_cons.mp member with rfl | old
    · exact performs.running
    · exact kept.traced e' old
  · rcases List.mem_cons.mp member with rfl | old
    · exact confirms
    · exact kept.confirms e' old
  · rcases get_peers_after n peerId performs with
      ⟨pin', isPinned, isWrite, after⟩ | ⟨isOther, after⟩
    · rw [after, Option.some.injEq] at found
      exact ⟨e, by simp [isWrite], found ▸ isPinned⟩
    · rw [after] at found
      obtain ⟨e', last, isPinned⟩ := kept.stored n peerId pin found
      exact ⟨e', by simp [isOther, last], isPinned⟩

/-- The operations that confirm nothing. -/
def Unconfirming : Op → Prop
  | .savePeerPin pin => pin.verified = false
  | _ => True

theorem confirms_unconfirming {w : World} {e : Event} (unconfirming : Unconfirming e.op) :
    Confirms w e := by
  intro pin isPinned verified
  unfold pinned at isPinned
  split at isPinned
  next written _ isSave _ =>
    rw [isSave] at unconfirming
    obtain rfl := Option.some.inj isPinned
    rw [show written.verified = false from unconfirming] at verified
    cases verified
  next => cases isPinned

theorem unconfirming_pin (peerId : String) (ed : Base64) (keyVersion : JsNumber) :
    Uses Unconfirming (pin peerId ed keyVersion).run :=
  uses_throwing_bind (uses_op trivial) fun _ => uses_op rfl

theorem unconfirming_other (op : Op) (other : ∀ held, op ≠ .savePeerPin held) :
    Unconfirming op := by
  cases op with
  | savePeerPin held => exact absurd rfl (other held)
  | _ => trivial

variable {t : Nat} {client : Client}

/-- What thread `t` knows from the history lasts if no other operation can end it. -/
structure Steady (t : Nat) (client : Client) (known : World → Prop) : Prop where
  running : ∀ {w}, known w → w.calls t = some client
  begin : ∀ {w u other}, known w → w.calls u = none → known (w.begin u other)
  record : ∀ {w e d}, known w → w.Performs (fun _ _ => True) e d →
    e.thread ≠ t ∨ (∀ held, e.op ≠ .savePeerPin held) → known (w.record e d)

variable {known : World → Prop} {α : Type}

theorem Steady.lasts (steady : Steady t client known) :
    Lasts (fun _ _ => True) Confirms Kept t known := by
  intro w w' _ holds step
  cases step with
  | begin _ idle => exact steady.begin holds idle
  | event other performs _ => exact steady.record holds performs (.inl other)

theorem Steady.call (steady : Steady t client known) {op : Op} {post : op.Res → World → Prop}
    (unconfirming : Unconfirming op)
    (step : ∀ w result d, known w → w.Performs (fun _ _ => True) (w.event t client op result) d →
      post result (w.record (w.event t client op result) d)) :
    discipline.Triple t known (E2EEService.call op) post :=
  triple_call steady.lasts (fun _ => steady.running) kept_record
    fun w result d _ holds performs =>
      ⟨confirms_unconfirming unconfirming, step w result d holds performs⟩

/-- An operation that writes no pin. -/
theorem Steady.other (steady : Steady t client known) {op : Op}
    (other : ∀ held, op ≠ .savePeerPin held) :
    discipline.Triple t known (E2EEService.call op) fun _ => known :=
  steady.call (unconfirming_other op other) fun _ _ _ holds performs =>
    steady.record holds performs (.inr other)

end Confirmations

section Display

variable {t : Nat} {client : Client} {peerId : String} {key : Base64}

/-- Thread `t` has read this identity key. -/
def HasRead (t : Nat) (key : Base64) (past : List Event) : Prop :=
  ∃ e ∈ past, e.thread = t ∧ keyRead e = some key

structure Fetched (t : Nat) (client : Client) (key : Base64) (w : World) : Prop where
  running : w.calls t = some client
  read : HasRead t key w.past

/-- The key the thread has read is the one pinned, while nobody else has changed it. -/
structure Agreed (t : Nat) (client : Client) (peerId : String) (key : Base64) (w : World) :
    Prop where
  fetched : Fetched t client key w
  agrees : key.isEmpty = false → Undisturbed t client.device peerId w.past →
    pinnedKey w client.device peerId = some key

theorem HasRead.cons {past : List Event} (e : Event) (read : HasRead t key past) :
    HasRead t key (e :: past) := by
  obtain ⟨e', old, rest⟩ := read
  exact ⟨e', List.mem_cons_of_mem _ old, rest⟩

theorem steady_running : Steady t client fun w => w.calls t = some client where
  running := id
  begin running idle := World.calls_begin idle running
  record running _ _ := running

theorem steady_fetched : Steady t client (Fetched t client key) where
  running holds := holds.running
  begin holds idle := ⟨World.calls_begin idle holds.running, holds.read⟩
  record holds _ _ := ⟨holds.running, holds.read.cons _⟩

theorem Agreed.record {w : World} {e : Event} {d : Device} (holds : Agreed t client peerId key w)
    (performs : w.Performs (fun _ _ => True) e d)
    (other : e.thread ≠ t ∨ ∀ held, e.op ≠ .savePeerPin held) :
    Agreed t client peerId key (w.record e d) := by
  refine ⟨steady_fetched.record holds.fetched performs other, fun nonempty undisturbed => ?_⟩
  have unchanged : ¬Changes client.device peerId e := by
    intro changes
    rcases other with other | other
    · obtain ⟨e', old, mine, _⟩ := holds.fetched.read
      exact (undisturbed.1 changes).elim other fun none => none e' old mine
    · obtain ⟨_, pin, isPinned, _⟩ := changes
      unfold pinned at isPinned
      split at isPinned
      next written _ isSave _ => exact other written isSave
      next => cases isPinned
  rw [pinnedKey_record performs unchanged]
  exact holds.agrees nonempty undisturbed.2

theorem steady_agreed : Steady t client (Agreed t client peerId key) where
  running holds := holds.fetched.running
  begin holds idle := ⟨steady_fetched.begin holds.fetched idle, holds.agrees⟩
  record := Agreed.record

theorem triple_pin (keyVersion : JsNumber) :
    discipline.Triple t (Fetched t client key) (pin peerId key keyVersion) fun result w =>
      result = .ok () → Agreed t client peerId key w := by
  refine Discipline.triple_bind _ (steady_fetched.other fun _ same => by cases same)
    (fun pinnedAt => ?_) (fun _ _ _ impossible => by cases impossible)
  refine steady_fetched.call rfl fun w result d holds performs written => ?_
  refine ⟨⟨holds.running, holds.read.cons _⟩, fun _ _ => ?_⟩
  subst written
  rw [pinnedKey]
  rcases get_peers_after client.device peerId performs with
    ⟨pin, isPinned, _, after⟩ | ⟨isOther, _⟩
  · rw [after, ← Option.some.inj isPinned]
    rfl
  · simp [writes, World.event, pinned] at isOther

theorem triple_comparePin (keyVersion : JsNumber) :
    discipline.Triple t (Fetched t client key) (comparePin peerId key keyVersion) fun result w =>
      ∀ changed, result = .ok changed → Agreed t client peerId key w := by
  have pinning : ∀ changed : Bool, discipline.Triple t (Fetched t client key)
      (do pin peerId key keyVersion; return changed) fun result w =>
        ∀ changed, result = .ok changed → Agreed t client peerId key w := by
    intro changed
    refine Discipline.triple_bind _ (triple_pin keyVersion) (fun _ => ?_)
      (fun _ _ _ _ impossible => by cases impossible)
    exact Discipline.triple_pure fun w agreed _ _ => agreed rfl
  refine Discipline.triple_bind (fun result w => Fetched t client key w ∧ ∀ held,
      result = .ok (some held) → held.identityEd25519 = key → Agreed t client peerId key w)
    (steady_fetched.call trivial fun w result d holds performs => ?_) (fun found => ?_)
    (fun _ _ _ _ impossible => by cases impossible)
  · refine ⟨⟨holds.running, holds.read.cons _⟩, fun held same isKey =>
      ⟨⟨holds.running, holds.read.cons _⟩, fun _ _ => ?_⟩⟩
    subst same
    obtain ⟨_, ⟨_, replied⟩, _⟩ := exec_ok.mp performs.exec
    have unchanged : ¬Changes client.device peerId (w.event t client (.getPeerPin peerId)
        (.ok (some held))) := by
      rintro ⟨_, _, impossible, _⟩
      cases impossible
    rw [pinnedKey_record performs unchanged, pinnedKey, ← isKey]
    have stored : (w.devices client.device).peers.get peerId = some held := Except.ok.inj replied
    rw [stored]
    rfl
  cases found with
  | none => exact (pinning false).weaken (fun _ known => known.1) (fun _ _ => id)
  | some held =>
      dsimp only
      split
      · exact (pinning true).weaken (fun _ known => known.1) (fun _ _ => id)
      next same =>
        exact Discipline.triple_pure fun w known _ _ => known.2 held rfl (not_not.mp same)

/-- A directory key is compared with the pin; an empty one is not. -/
theorem triple_checkPeerIdentity (keyVersion : JsNumber) :
    discipline.Triple t (Fetched t client key)
      (checkPeerIdentity peerId none (some key) keyVersion) fun result w =>
        ∀ changed, result = .ok changed → Agreed t client peerId key w := by
  unfold checkPeerIdentity
  split
  next ed given =>
    obtain ⟨same, _⟩ := Option.filter_eq_some_iff.mp given
    obtain rfl := Option.some.inj same
    exact triple_comparePin keyVersion
  next empty =>
    have isEmpty : key.isEmpty = true := by
      simpa [Option.filter_eq_none_iff] using empty
    have anything : ∀ {p : Prog Bool}, Uses Unconfirming p.run →
        discipline.Triple t (Fetched t client key) p fun result w =>
          ∀ changed, result = .ok changed → Agreed t client peerId key w := by
      intro p uses
      refine Discipline.Triple.weaken (triple_inert steady_fetched.lasts
        (fun _ => steady_fetched.running) kept_record ?_ uses) (fun _ => id) ?_
      · intro op unconfirming w result d _ holds _
        exact ⟨confirms_unconfirming unconfirming, holds.running, holds.read.cons _⟩
      · intro _ w fetched _ _
        exact ⟨fetched, fun nonempty => by rw [isEmpty] at nonempty; cases nonempty⟩
    refine anything ?_
    refine uses_throwing_bind (uses_op trivial) fun keys => ?_
    exact uses_comparePin_of unconfirming_pin (plain_of unconfirming_other) ..

theorem triple_fetchAndPinBundle :
    discipline.Triple t (fun w => w.calls t = some client) (fetchAndPinBundle peerId)
      fun result w => ∀ bundle, result = .ok bundle →
        Agreed t client peerId bundle.identityEd25519 w := by
  refine Discipline.triple_bind (fun result w => ∀ bundle, result = .ok bundle →
      Fetched t client bundle.identityEd25519 w)
    (steady_running.call trivial fun w result d running _ bundle same => ?_) (fun bundle => ?_)
    (fun _ _ _ _ impossible => by cases impossible)
  · subst same
    exact ⟨running, _, List.mem_cons_self, rfl, rfl⟩
  refine Discipline.Triple.weaken ?_ (fun w known => known bundle rfl) (fun _ _ => id)
  refine Discipline.triple_bind _ (triple_checkPeerIdentity bundle.keyVersion) (fun _ => ?_)
    (fun _ _ _ _ impossible => by cases impossible)
  refine Discipline.triple_pure fun w agreed bundle' same => ?_
  obtain rfl := Except.ok.inj same
  exact agreed _ rfl

/-- What a display shows: the number of a key that is the pinned one while nobody else
changes it. -/
def Shown (t : Nat) (client : Client) (peerId : String) (view : SafetyNumberView) (w : World) :
    Prop :=
  ∃ key, Agreed t client peerId key w ∧ NumberOf client.this peerId view key

theorem triple_safetyNumberFor (t : Nat) (client : Client) (peerId : String) :
    discipline.Triple t (fun w => w.calls t = some client) (safetyNumberFor client.this peerId)
      fun result w => ∀ view, result = .ok (some view) → Shown t client peerId view w := by
  refine Discipline.triple_bind (fun _ w => w.calls t = some client) ?_ (fun found => ?_)
    (fun _ _ _ _ impossible => by cases impossible)
  · refine triple_inert steady_running.lasts (fun _ => steady_running.running) kept_record ?_
      (uses_cachedIdentity client.this)
    rintro _ rfl w result d _ running _
    exact ⟨confirms_unconfirming trivial, running⟩
  cases found with
  | none => exact Discipline.triple_pure fun _ _ _ impossible => by cases impossible
  | some identity =>
      have finish : ∀ (held : Option PeerPin) (key : Base64),
          discipline.Triple t (Agreed t client peerId key) (do
            let me ← myUserId client.this
            let digits ← lift (SafetyNumber.computeSafetyNumber me identity.edPub peerId key)
            let freshPin ← match held with
              | some held => pure (some held)
              | none => call (.getPeerPin peerId)
            return some ({ digits, verified := (freshPin.map PeerPin.verified).getD false } :
              SafetyNumberView)) fun result w =>
            ∀ view, result = .ok (some view) → Shown t client peerId view w := by
        intro held key
        refine Discipline.triple_bind (fun result w => Agreed t client peerId key w ∧ ∀ me,
          result = .ok me → client.this.userId = some me) ?_ (fun me => ?_)
          (fun _ _ _ _ impossible => by cases impossible)
        · unfold myUserId
          split
          next userId isUser =>
            refine Discipline.triple_pure fun w agreed => ⟨agreed, fun me same => ?_⟩
            rw [isUser, Except.ok.inj same]
          next => exact Discipline.triple_throw fun w agreed =>
            ⟨agreed, fun _ impossible => by cases impossible⟩
        refine Discipline.Triple.weaken (Discipline.triple_assuming fun isUser => ?_)
          (fun w known => ⟨known.2 me rfl, known.1⟩) (fun _ _ => id)
        refine Discipline.triple_bind (fun result w => Agreed t client peerId key w ∧ ∀ digits,
          result = .ok digits →
            SafetyNumber.computeSafetyNumber me identity.edPub peerId key = .ok digits)
          (Discipline.triple_lift fun w agreed => ⟨agreed, fun _ => id⟩) (fun digits => ?_)
          (fun _ _ _ _ impossible => by cases impossible)
        refine Discipline.Triple.weaken (Discipline.triple_assuming fun computed => ?_)
          (fun w known => ⟨known.2 digits rfl, known.1⟩) (fun _ _ => id)
        have shows : ∀ freshPin : Option PeerPin, discipline.Triple t (Agreed t client peerId key)
            (pure (some ({ digits, verified := (freshPin.map PeerPin.verified).getD false } :
              SafetyNumberView)) : Prog (Option SafetyNumberView)) fun result w =>
            ∀ view, result = .ok (some view) → Shown t client peerId view w := by
          intro freshPin
          refine Discipline.triple_pure fun w agreed view same =>
            ⟨key, agreed, me, identity.edPub, isUser, ?_⟩
          simp only [Except.ok.injEq, Option.some.injEq] at same
          subst same
          exact computed
        cases held with
        | some held =>
            exact Discipline.triple_bind (fun _ => Agreed t client peerId key)
              (Discipline.triple_pure fun _ => id) shows
              (fun _ _ _ _ impossible => by cases impossible)
        | none =>
            exact Discipline.triple_bind (fun _ => Agreed t client peerId key)
              (steady_agreed.other fun _ same => by cases same) shows
              (fun _ _ _ _ impossible => by cases impossible)
      refine Discipline.triple_bind (fun result w => w.calls t = some client ∧ ∀ held,
          result = .ok (some held) → Agreed t client peerId held.identityEd25519 w)
        (steady_running.call trivial fun w result d running performs => ?_) (fun held => ?_)
        (fun _ _ _ _ impossible => by cases impossible)
      · refine ⟨running, fun held same => ?_⟩
        subst same
        obtain ⟨_, ⟨_, replied⟩, _⟩ := exec_ok.mp performs.exec
        have stored : (w.devices client.device).peers.get peerId = some held :=
          Except.ok.inj replied
        have unchanged : ¬Changes client.device peerId (w.event t client (.getPeerPin peerId)
            (.ok (some held))) := by
          rintro ⟨_, _, impossible, _⟩
          cases impossible
        refine ⟨⟨running, _, List.mem_cons_self, rfl, rfl⟩, fun _ _ => ?_⟩
        rw [pinnedKey_record performs unchanged, pinnedKey, stored]
        rfl
      cases held with
      | some held =>
          refine Discipline.triple_bind (fun result w => ∀ key, result = .ok key →
              Agreed t client peerId key w)
            (Discipline.triple_pure fun w known key same => ?_) (fun key => ?_)
            (fun _ _ _ _ impossible => by cases impossible)
          · exact Except.ok.inj same ▸ known.2 held rfl
          · exact (finish (some held) key).weaken (fun w known => known key rfl) (fun _ _ => id)
      | none =>
          refine Discipline.triple_bind (fun result w => ∀ key, result = .ok key →
              Agreed t client peerId key w)
            (Discipline.triple_map (triple_fetchAndPinBundle.weaken (fun w known => known.1)
              fun result w known key same => ?_)) (fun key => ?_)
            (fun _ _ _ _ impossible => by cases impossible)
          · cases result with
            | error e => cases same
            | ok bundle => exact Except.ok.inj same ▸ known bundle rfl
          · exact (finish none key).weaken (fun w known => known key rfl) (fun _ _ => id)

end Display

section Runs

variable {t : Nat} {client : Client} {peerId : String} {key : Base64}

/-- A call that has shown a number has shown that of the key it agreed on. -/
def Told (t : Nat) (report : Report) (w : World) : Prop :=
  ∀ client tab peerId view, w.calls t = some client →
    report = ⟨⟨tab, .safetyNumberFor peerId⟩, .numbered (.ok (some view))⟩ →
      client.this = tab ∧ Shown t client peerId view w

/-- The confirmation writes the pin it has read, with its user verified. -/
theorem triple_markVerified (confirms : client.call = .markVerified peerId) :
    discipline.Triple t (fun w => w.calls t = some client) (markVerified peerId)
      fun _ _ => True := by
  refine Discipline.triple_bind (fun result w => w.calls t = some client ∧ ∀ held,
      result = .ok (some held) → held.userId = peerId)
    (steady_running.call trivial fun w result d running performs => ?_) (fun found => ?_)
    (fun _ _ _ => trivial)
  · refine ⟨running, fun held same => ?_⟩
    subst same
    obtain ⟨_, ⟨_, replied⟩, _⟩ := exec_ok.mp performs.exec
    exact Table.key_of_get (Except.ok.inj replied)
  cases found with
  | none => exact Discipline.triple_throw fun _ _ => trivial
  | some held =>
      refine Discipline.Triple.weaken (Discipline.triple_assuming fun named => ?_)
        (fun w known => ⟨known.2 held rfl, known.1⟩) (fun _ _ => id)
      refine triple_call steady_running.lasts (fun _ => id) kept_record
        fun w result d _ running performs => ⟨fun pin isPinned _ => ?_, trivial⟩
      have isWritten : pin.userId = held.userId := by
        unfold pinned at isPinned
        split at isPinned
        next written _ isSave _ =>
          obtain rfl := Option.some.inj isPinned
          rw [← Op.savePeerPin.inj isSave]
        next => cases isPinned
      rw [isWritten, named]
      exact confirms

theorem safe_client {w : World} (running : w.calls t = some client)
    (admitted : identityCall client.call) : discipline.Safe t (Told t) client.program w := by
  obtain ⟨⟨this, called⟩, n⟩ := client
  have unconfirming : ∀ {β : Type} {p : Prog β} {outcome : Except JsError β → Outcome},
      (∀ result view, outcome result ≠ .numbered (.ok (some view))) → Uses Unconfirming p.run →
      discipline.Safe t (Told t) (Request.report ⟨this, called⟩ outcome p) w := by
    intro β p outcome other uses
    refine safe_request (triple_inert steady_running.lasts (fun _ => id) kept_record ?_ uses)
      (fun result w _ client tab peerId view _ same => ?_) running
    · intro op unconfirming w result d _ running _
      exact ⟨confirms_unconfirming unconfirming, running⟩
    · exact absurd (congrArg Report.outcome same) (other result view)
  cases called with
  | encrypt conversationId peerId text =>
      exact unconfirming (fun _ _ impossible => by cases impossible)
        (uses_encrypt_of unconfirming_pin unconfirming_other ..)
  | decrypt conversationId senderId envelope own =>
      exact unconfirming (fun _ _ impossible => by cases impossible)
        (uses_decrypt_of unconfirming_pin unconfirming_other ..)
  | safetyNumberFor peerId =>
      have shows := triple_safetyNumberFor t ⟨⟨this, .safetyNumberFor peerId⟩, n⟩ peerId
      refine safe_request (shows.weaken (fun _ => id) fun result w shown =>
        (show ∀ view, result = .ok (some view) → Shown t _ peerId view w from shown))
        (fun result w shown client tab peerId' view called same => ?_) running
      simp only [Report.mk.injEq, Request.mk.injEq, Call.safetyNumberFor.injEq,
        Outcome.numbered.injEq] at same
      obtain ⟨⟨rfl, rfl⟩, same⟩ := same
      have known := shown view same
      obtain ⟨key, agreed, number⟩ := known
      have isClient := agreed.fetched.running.symm.trans called
      obtain rfl := Option.some.inj isClient
      exact ⟨rfl, key, agreed, number⟩
  | markVerified peerId =>
      refine safe_request (triple_markVerified rfl)
        (fun result w _ client tab peerId view _ same => ?_) running
      cases congrArg Report.outcome same
  | _ => cases admitted

theorem kept_fresh {start : World} (fresh : Counters.Fresh start) : Kept start := by
  refine ⟨fun e member => ?_, fun e member => ?_, fun n peerId pin found => ?_⟩
  · rw [fresh.past] at member
    cases member
  · rw [fresh.past] at member
    cases member
  · rw [(fresh.devices n).peers] at found
    cases found

/-- In every run only confirmations verify pins, and every number shown is that of the key the
display agreed on. -/
theorem reachable_kept {start : World} (fresh : Counters.Fresh start)
    {config : Config Op Op.Res World Report} (reachable : calls.Reachable start config) :
    Kept config.state ∧ ∀ d n peerId tab view, Displayed config d n peerId tab view →
      ∃ client, client.device = n ∧ client.this = tab ∧ Shown d client peerId view config.state := by
  have ready : ∀ t w p w', Kept w → calls.start t w p w' →
      Kept w' ∧ (∀ u, u ≠ t → discipline.rely u w w') ∧ discipline.Safe t (Told t) p w' := by
    rintro t w p w' kept ⟨idle, client, admitted, rfl, rfl⟩
    refine ⟨⟨fun e member => World.calls_begin idle (kept.traced e member), kept.confirms,
      kept.stored⟩, fun u other => .single ⟨kept, .begin (Ne.symm other) idle⟩, ?_⟩
    exact safe_client (w.begin_calls_self t client) admitted
  obtain ⟨kept, safe⟩ := reachable.safe (D := discipline) rfl (kept_fresh fresh) ready
  refine ⟨kept, fun d n peerId tab view displayed => ?_⟩
  obtain ⟨⟨client, called, here⟩, finished⟩ := displayed
  obtain ⟨w, relied, told⟩ := safe d _ finished
  have lasts : Lasts (fun _ _ => True) Confirms Kept d fun w => Told d
      ⟨⟨tab, .safetyNumberFor peerId⟩, .numbered (.ok (some view))⟩ w := by
    intro w w' _ told step client tab' peerId' view' called same
    cases step with
    | begin other idle =>
        rw [World.begin_calls_of_ne _ _ _ _ (Ne.symm other)] at called
        obtain ⟨isTab, key, agreed, number⟩ := told client tab' peerId' view' called same
        exact ⟨isTab, key, steady_agreed.begin agreed idle, number⟩
    | event other performs _ =>
        obtain ⟨isTab, key, agreed, number⟩ := told client tab' peerId' view' called same
        exact ⟨isTab, key, steady_agreed.record agreed performs (.inl other), number⟩
  have told' := lasts.rely w config.state told relied
  obtain ⟨isTab, shown⟩ := told' client tab peerId view called rfl
  exact ⟨client, here, isTab, shown⟩

end Runs

section Confirmation

variable {d t : Nat} {shower client : Client} {peerId : String} {key : Base64}

/-- How far the confirmation of thread `t` is: it has read nothing, it is about to write back
the key that was shown, or it has ended, and what it wrote last holds that key. -/
inductive Confirming (t n : Nat) (client : Client) (peerId : String) (key : Base64)
    (config : Config Op Op.Res World Report) : Prop
  | waiting : config.threads t = some client.program → (∀ e ∈ config.state.past, e.thread ≠ t) →
      Confirming t n client peerId key config
  | reading (held next) : config.threads t = some (.await (.savePeerPin held) next) →
      held.identityEd25519 = key → (∀ answer, ∃ report, next answer = .done report) →
      (∀ e ∈ config.state.past, e.thread = t → writes n peerId e = false) →
      Confirming t n client peerId key config
  | finished (report) : config.threads t = some (.done report) →
      (∀ e, config.state.past.find? (writes n peerId) = some e → e.thread = t →
        pinnedKey config.state n peerId = some key) →
      Confirming t n client peerId key config

/-- What the steps after the confirmation began preserve. -/
structure Following (d t n : Nat) (shower client : Client) (peerId : String) (key : Base64)
    (config : Config Op Op.Res World Report) : Prop where
  running : config.state.calls t = some client
  shown : ∃ report, config.threads d = some (.done report)
  agreed : Agreed d shower peerId key config.state
  confirming : Calm d t n peerId config.state.past → Confirming t n client peerId key config

theorem Calm.earlier {n : Nat} {e : Event} {past : List Event} (calm : Calm d t n peerId (e :: past)) :
    Calm d t n peerId past := by
  refine ⟨fun e' old => calm.1 e' (List.mem_cons_of_mem _ old), fun later e' earlier same => ?_⟩
  exact calm.2 (e :: later) e' earlier (by rw [same, List.cons_append])

theorem Confirming.record {n u : Nat} {other : Client} {op : Op} {result : op.Res} {dev : Device}
    {config : Config Op Op.Res World Report} {next : op.Res → Program Op Op.Res Report}
    (confirming : Confirming t n client peerId key config) (foreign : u ≠ t)
    (performs : config.state.Performs (fun _ _ => True) (config.state.event u other op result) dev) :
    Confirming t n client peerId key
      ⟨config.state.record (config.state.event u other op result) dev,
        Function.update config.threads u (some (next result))⟩ := by
  cases confirming with
  | waiting threads unread =>
      refine .waiting (by simpa [Ne.symm foreign] using threads) fun e member => ?_
      rcases List.mem_cons.mp member with rfl | old
      · exact foreign
      · exact unread e old
  | reading held next' threads isKey ends unwritten =>
      refine .reading held next' (by simpa [Ne.symm foreign] using threads) isKey ends ?_
      intro e member mine
      rcases List.mem_cons.mp member with rfl | old
      · exact absurd mine foreign
      · exact unwritten e old mine
  | finished report threads wrote =>
      refine .finished report (by simpa [Ne.symm foreign] using threads) fun e last mine => ?_
      cases isWrite : writes n peerId (config.state.event u other op result) with
      | true =>
          rw [World.record_past, List.find?_cons_of_pos isWrite, Option.some.injEq] at last
          rw [← last] at mine
          exact absurd mine foreign
      | false =>
          rw [World.record_past, List.find?_cons_of_neg (by simp [isWrite])] at last
          rw [← wrote e last mine]
          refine pinnedKey_record performs ?_
          rintro ⟨here, pin, isPinned, named, _⟩
          simp [writes, here, isPinned, named] at isWrite

/-- A confirmation that reads the pin in a calm run reads the key that was shown, and writes it
back. -/
theorem Confirming.own {n : Nat} {op : Op} {result : op.Res} {dev : Device}
    {config : Config Op Op.Res World Report} {next : op.Res → Program Op Op.Res Report}
    (confirming : Confirming t n client peerId key config)
    (confirms : client.call = .markVerified peerId) (same : client.device = n)
    (agreed : Agreed d shower peerId key config.state) (here : shower.device = n)
    (threads : config.threads t = some (.await op next))
    (performs : config.state.Performs (fun _ _ => True)
      (config.state.event t client op result) dev)
    (calm : Calm d t n peerId (config.state.event t client op result :: config.state.past)) :
    Confirming t n client peerId key
      ⟨config.state.record (config.state.event t client op result) dev,
        Function.update config.threads t (some (next result))⟩ := by
  have unwrittenOver : (∀ e ∈ config.state.past, e.thread = t → writes n peerId e = false) →
      writes n peerId (config.state.event t client op result) = false →
      ∀ e, (config.state.record (config.state.event t client op result) dev).past.find?
        (writes n peerId) = some e → e.thread = t →
          pinnedKey (config.state.record (config.state.event t client op result) dev) n peerId =
            some key := by
    intro unwritten notWrite e last mine
    rw [World.record_past, List.find?_cons_of_neg (by simp [notWrite])] at last
    have isWrite := List.find?_some last
    rw [unwritten e (List.mem_of_find?_eq_some last) mine] at isWrite
    cases isWrite
  cases confirming with
  | waiting isProgram unread =>
      have unwritten : ∀ e ∈ config.state.past, e.thread = t → writes n peerId e = false :=
        fun e member mine => absurd mine (unread e member)
      obtain ⟨⟨this, called⟩, m⟩ := client
      subst confirms same
      rw [threads, Option.some.injEq] at isProgram
      change Program.await op next = .await (.getPeerPin peerId) _ at isProgram
      cases isProgram
      have notWrite : writes m peerId (config.state.event t ⟨⟨this, .markVerified peerId⟩, m⟩
          (.getPeerPin peerId) result) = false := by
        simp [writes, World.event, pinned]
      cases result with
      | error e =>
          exact .finished _ ((Function.update_self ..).trans rfl) (unwrittenOver unwritten notWrite)
      | ok found =>
          cases found with
          | none =>
              exact .finished _ ((Function.update_self ..).trans rfl) (unwrittenOver unwritten notWrite)
          | some held =>
              refine .reading { held with verified := true } _
                ((Function.update_self ..).trans rfl) ?_ (fun answer => ?_) ?_
              · obtain ⟨_, ⟨_, replied⟩, _⟩ := exec_ok.mp performs.exec
                have stored : (config.state.devices m).peers.get peerId = some held :=
                  Except.ok.inj replied
                have undisturbed := calm.2 [] _ _ rfl rfl rfl
                obtain ⟨e, member, mine, read⟩ := agreed.fetched.read
                have nonempty := calm.1 e (List.mem_cons_of_mem _ member) mine key read
                have pinned := agreed.agrees nonempty (here ▸ undisturbed)
                rw [here, pinnedKey, stored, Option.map_some, Option.some.injEq] at pinned
                exact pinned
              · cases answer with
                | error e => exact ⟨_, rfl⟩
                | ok value => exact ⟨_, rfl⟩
              · intro e member mine
                rcases List.mem_cons.mp member with rfl | old
                · exact notWrite
                · exact unwritten e old mine
  | reading held next' threads' isKey ends unwritten =>
      rw [threads, Option.some.injEq] at threads'
      cases threads'
      obtain ⟨report, ended⟩ := ends result
      refine .finished report ((Function.update_self ..).trans (by rw [ended])) ?_
      cases isWrite : writes n peerId (config.state.event t client (.savePeerPin held) result) with
      | false => exact unwrittenOver unwritten isWrite
      | true =>
          intro e _ _
          rcases get_peers_after n peerId performs with
            ⟨pin, isPinned, _, after⟩ | ⟨isOther, _⟩
          · rw [pinnedKey, after, Option.map_some, Option.some.injEq, ← isKey]
            cases result with
            | error e => cases isPinned
            | ok value => rw [← Option.some.inj isPinned]
          · rw [isOther] at isWrite
            cases isWrite
  | finished report threads' =>
      rw [threads] at threads'
      cases threads'

theorem Following.step {n : Nat} {c c' : Config Op Op.Res World Report}
    (following : Following d t n shower client peerId key c)
    (confirms : client.call = .markVerified peerId) (same : client.device = n)
    (here : shower.device = n) (step : calls.Step c c') :
    Following d t n shower client peerId key c' := by
  obtain ⟨shownReport, finished⟩ := following.shown
  cases step with
  | @start u p w' idle started =>
      obtain ⟨idle', other, admitted, rfl, rfl⟩ := started
      have notShower : u ≠ d := by
        rintro rfl
        rw [finished] at idle
        cases idle
      refine ⟨World.calls_begin idle' following.running,
        ⟨shownReport, by simpa [Ne.symm notShower] using finished⟩,
        steady_agreed.begin following.agreed idle', fun calm => ?_⟩
      have notMine : u ≠ t := by
        rintro rfl
        have running := following.running
        rw [idle'] at running
        cases running
      cases following.confirming calm with
      | waiting threads unread =>
          exact .waiting (by simpa [Ne.symm notMine] using threads) unread
      | reading held next threads isKey ends unwritten =>
          exact .reading held next (by simpa [Ne.symm notMine] using threads) isKey ends unwritten
      | finished report threads wrote =>
          exact .finished report (by simpa [Ne.symm notMine] using threads) wrote
  | @await u op next result w' waiting performed =>
      obtain ⟨other, dev, performs, rfl⟩ := performed
      have notShower : u ≠ d := by
        rintro rfl
        rw [finished] at waiting
        cases waiting
      refine ⟨following.running,
        ⟨shownReport, by simpa [Ne.symm notShower] using finished⟩,
        steady_agreed.record following.agreed performs (.inl notShower), fun calm => ?_⟩
      have before := following.confirming calm.earlier
      by_cases mine : u = t
      · subst mine
        have isClient : other = client := by
          have running : c.state.calls u = some other := performs.running
          rw [following.running] at running
          exact (Option.some.inj running).symm
        subst isClient
        exact before.own confirms same following.agreed here waiting performs calm
      · exact before.record mine performs

theorem Following.steps {n : Nat} {c c' : Config Op Op.Res World Report}
    (following : Following d t n shower client peerId key c)
    (confirms : client.call = .markVerified peerId) (same : client.device = n)
    (here : shower.device = n) (steps : Relation.ReflTransGen calls.Step c c') :
    Following d t n shower client peerId key c' := by
  induction steps with
  | refl => exact following
  | tail _ step ih => exact ih.step confirms same here step

theorem reachable_steps {start : World} {c c' : Config Op Op.Res World Report}
    (reachable : calls.Reachable start c) (steps : Relation.ReflTransGen calls.Step c c') :
    calls.Reachable start c' := by
  induction steps with
  | refl => exact reachable
  | tail _ step ih => exact ih.step step

/-- The confirmation has just begun. -/
theorem Following.begun {n : Nat} {start w' : World} {p : Program Op Op.Res Report}
    {c : Config Op Op.Res World Report} {tab : Tab} {view : SafetyNumberView}
    (fresh : Counters.Fresh start) (reachable : calls.Reachable start c)
    (displayed : Displayed c d n peerId tab view) (agreed : Agreed d shower peerId key c.state)
    (idle : c.threads t = none) (started : calls.start t c.state p w')
    (running : w'.calls t = some client) :
    Following d t n shower client peerId key ⟨w', Function.update c.threads t (some p)⟩ := by
  obtain ⟨idle', other, _, rfl, rfl⟩ := started
  rw [World.begin_calls_self, Option.some.injEq] at running
  subst running
  have notShower : d ≠ t := by
    rintro rfl
    rw [displayed.2] at idle
    cases idle
  refine ⟨World.begin_calls_self _ _ _, ⟨_, by simpa [notShower] using displayed.2⟩,
    steady_agreed.begin agreed idle', fun _ => .waiting (Function.update_self ..) ?_⟩
  intro e member mine
  have running := (reachable_kept fresh reachable).1.traced e member
  rw [mine, idle'] at running
  cases running

/-- A number is shown, another call pins other keys, and the user confirms. -/
def repinned : Option (Config Op Op.Res World Report × Config Op Op.Res World Report ×
    Config Op Op.Res World Report) := do
  let schedule := World.schedule (fun client => identityCall client.call) fun _ _ => true
  let shown ← schedule.follow idle <|
    begins 0 (tabClient 0 (.safetyNumberFor "a")) 6 directory ++
    begins 1 (tabClient 0 (.encrypt "c" "a" (Utf.ofString "hi"))) 14
      { bundle := some changedBundle, uuid := "s" }
  let begun ← schedule.advance shown (.start 2 (tabClient 0 (.markVerified "a")))
  let ended ← schedule.follow begun [.await 2 directory, .await 2 directory]
  return (shown, begun, ended)

/-- Thread 0 shows the number of the sender's key, and thread 1 is an encryption. -/
def showsSender (config : Config Op Op.Res World Report) : Bool :=
  (match config.state.calls 0, config.threads 0 with
    | some client, some (.done ⟨⟨this, .safetyNumberFor peerId⟩, .numbered (.ok (some _))⟩) =>
        client.device = 0 && peerId = "a" && this.userId = some "b"
    | _, _ => false) &&
  (match config.threads 1 with
    | some (.done ⟨⟨_, .encrypt ..⟩, _⟩) => true
    | _ => false) &&
  config.state.past.all fun e => e.thread = 1 ||
    e.thread = 0 && (keyRead e = none || keyRead e = some sender.edPub)

/-- The changed key is stored as verified, written last by thread 2. -/
def verifiesChanged (begun ended : Config Op Op.Res World Report) : Bool :=
  (begun.threads 2).isSome &&
  (match (ended.state.devices 0).peers.get "a" with
    | some pin => pin.verified && pin.identityEd25519 = changedBundle.identityEd25519
    | none => false) &&
  match ended.state.past.find? (writes 0 "a") with
    | some e => e.thread = 2
    | none => false

theorem repinned_shows : (repinned.map fun run => showsSender run.1 && (run.1.threads 2).isNone &&
    run.1.state.past.any (fun e => e.thread = 0) && verifiesChanged run.2.1 run.2.2) =
    some true := by
  decide +kernel

/-- The number the sender's key was shown with is not that of the changed key. -/
theorem lastDisplay_repinned {config : Config Op Op.Res World Report}
    (reachable : calls.Reachable untouched config) (isShown : showsSender config = true)
    (nonempty : config.state.past.any (fun e => e.thread = 0) = true) :
    ∃ tab view, LastDisplay config 0 0 "a" tab view ∧
      ¬NumberOf tab "a" view changedBundle.identityEd25519 := by
  simp only [showsSender, Bool.and_eq_true] at isShown
  obtain ⟨⟨isDisplay, isEncrypt⟩, reads⟩ := isShown
  split at isDisplay
  next client this peerId view called finished =>
    simp only [Bool.and_eq_true, decide_eq_true_eq] at isDisplay
    obtain ⟨⟨here, rfl⟩, user⟩ := isDisplay
    have displayed : Displayed config 0 0 "a" this view := ⟨⟨client, called, here⟩, finished⟩
    refine ⟨this, view, ⟨displayed, ?_⟩, ?_⟩
    · obtain ⟨e, found⟩ := Option.isSome_iff_exists.mp
        (List.find?_isSome.mpr (List.any_eq_true.mp nonempty))
      obtain ⟨isMine, later, earlier, split, others⟩ := List.find?_eq_some_iff_append.mp found
      refine ⟨later, e, earlier, split, by simpa using isMine, fun e' member tab' view' displayed' => ?_⟩
      have known := List.all_eq_true.mp reads e' (by rw [split]; simp [member])
      have other : e'.thread ≠ 0 := by simpa using others e' member
      have isOne : e'.thread = 1 := by simpa [other] using known
      rw [isOne] at displayed'
      rw [displayed'.2] at isEncrypt
      cases isEncrypt
    · rintro ⟨me, my, isMe, changed⟩
      obtain ⟨client', _, isTab, key, agreed, me', my', isMe', computed⟩ :=
        (reachable_kept ⟨fun _ => freshDevice_blank, rfl, rfl⟩ reachable).2 0 0 "a" this view
          displayed
      obtain ⟨e, member, mine, read⟩ := agreed.fetched.read
      have isSender : key = sender.edPub := by
        simpa [mine, read] using List.all_eq_true.mp reads e member
      rw [isTab, isMe, Option.some.injEq] at isMe'
      rw [user, Option.some.injEq] at isMe
      subst isMe' isMe isSender
      have same := SafetyNumber.computeSafetyNumber_inj (by decide) computed changed
      revert same
      decide
  next => cases isDisplay

theorem confirmed_after_change : ¬Binds untouched fun _ _ _ _ _ => True := by
  intro claim
  obtain ⟨⟨shown, begun, ended⟩, ran, holds⟩ := Option.map_eq_some_iff.mp repinned_shows
  simp only [Bool.and_eq_true] at holds
  obtain ⟨⟨⟨isShown, idleBefore⟩, nonempty⟩, verifies⟩ := holds
  simp only [repinned, Option.bind_eq_bind, Option.bind_eq_some_iff] at ran
  obtain ⟨shown', followed, begun', advanced, ended', followed', same⟩ := ran
  simp only [pure, Option.some.injEq, Prod.mk.injEq] at same
  obtain ⟨rfl, rfl, rfl⟩ := same
  have sound : (World.schedule (fun client => identityCall client.call) fun _ _ => true).Sound
      calls World.Few :=
    World.schedule_sound (fun _ _ allowed => allowed) fun _ _ _ _ => trivial
  have start : calls.Reachable untouched E2EEService.idle := .initial
  obtain ⟨reachable, few⟩ := sound.follow start untouched_few followed
  obtain ⟨step, few'⟩ := sound.advance few advanced
  have steps := sound.steps few' followed'
  obtain ⟨tab, view, display, differs⟩ := lastDisplay_repinned reachable isShown nonempty
  simp only [verifiesChanged, Bool.and_eq_true] at verifies
  obtain ⟨⟨isRunning, isStored⟩, isLast⟩ := verifies
  split at isStored
  next pin found =>
    simp only [Bool.and_eq_true, decide_eq_true_eq] at isStored
    split at isLast
    next e last =>
      have two : e.thread = 2 := by simpa using isLast
      have binds := claim shown' begun' ended' 0 "a" pin e reachable step
        (by simpa [two] using idleBefore) (by rw [two]; exact Option.isSome_iff_ne_none.mp isRunning)
        steps found isStored.1 last
      have number := binds.2 0 tab view display trivial
      rw [isStored.2] at number
      exact differs number
    next => cases isLast
  next => cases isStored

/-- In calm runs a verified pin holds the key that was shown. -/
theorem binds_calm (start : World) (fresh : Counters.Fresh start) : Binds start Calm := by
  intro c₀ c₀' c₁ n peerId pin e reachable begun idle isRunning steps found verified last
  have kept := (reachable_kept fresh (reachable_steps (reachable.step begun) steps)).1
  have member := List.mem_of_find?_eq_some last
  have isWrite := List.find?_some last
  obtain ⟨e', last', isPinned⟩ := kept.stored n peerId pin found
  obtain rfl := Option.some.inj (last.symm.trans last')
  have named : pin.userId = peerId := Table.key_of_get found
  have confirms : e.client.call = .markVerified peerId :=
    named ▸ kept.confirms e member pin isPinned verified
  refine ⟨confirms, fun d tab view display calm => ?_⟩
  obtain ⟨shower, here, isTab, key, agreed, number⟩ :=
    (reachable_kept fresh reachable).2 d n peerId tab view display.1
  have same : e.client.device = n := by
    simp only [writes, Bool.and_eq_true, decide_eq_true_eq] at isWrite
    exact isWrite.1
  have following : Following d e.thread n shower e.client peerId key c₀' := by
    cases begun with
    | @start u p w' idle' started =>
        by_cases mine : u = e.thread
        · subst mine
          obtain ⟨_, other, _, _, isBegun⟩ := id started
          have running : w'.calls e.thread = some other := isBegun ▸ World.begin_calls_self ..
          have after := calls_steps steps running
          obtain rfl := Option.some.inj ((kept.traced e member).symm.trans after)
          exact Following.begun fresh reachable display.1 agreed idle started running
        · exact absurd (by simpa [Ne.symm mine] using idle) isRunning
    | @await u op next result w' waiting _ =>
        by_cases mine : e.thread = u
        · rw [mine, waiting] at idle
          cases idle
        · exact absurd (by simpa [mine] using idle) isRunning
  have pinned : pinnedKey c₁.state n peerId = some key := by
    cases (following.steps confirms same here steps).confirming calm with
    | waiting _ unread => exact absurd rfl (unread e member)
    | reading _ _ _ _ _ unwritten =>
        rw [unwritten e member rfl] at isWrite
        cases isWrite
    | finished _ _ wrote => exact wrote e last rfl
  rw [pinnedKey, found, Option.map_some, Option.some.injEq] at pinned
  rw [pinned, ← isTab]
  exact number

theorem binds_calm_untouched : Binds untouched Calm :=
  binds_calm untouched ⟨fun _ => freshDevice_blank, rfl, rfl⟩

end Confirmation

end Verification
