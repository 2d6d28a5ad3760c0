import CipherChat.Async.Interleaving
import CipherChat.Service.E2EE

/-!
Which operations each part of the service performs, and which of them leave the stored
sessions, ratchets and messages alone.
-/

namespace E2EEService

open Async Number Primitives KeyStore Envelope EnvelopeV2 Store

variable {allowed : Op → Prop} {α : Type}

theorem uses_op {op : Op} (fine : allowed op) : Uses allowed (call op).run :=
  uses_call fine

theorem ends_call {exec : Device → (op : Op) → op.Res → Device → Prop} {d d' : Device} {op : Op}
    {result : op.Res} : Ends exec d (call op) result d' ↔ exec d op result d' :=
  runs_call

/-- The operations of a check of one peer's identity. -/
def PinOp (peerId : String) : Op → Prop
  | .getKeys id => id = peerId
  | .getPeerPin id => id = peerId
  | .savePeerPin held => held.userId = peerId
  | .now => True
  | _ => False

/-- The operations that look records of the vault up. -/
def LookupOp : Op → Prop
  | .getDek _ | .getRatchet _ | .getRatchets _ | .getMessage _ => True
  | _ => False

def DekOp : Op → Prop
  | .getDek _ | .generateDek | .addDek _ => True
  | _ => False

/-- The operations on the identity keys of the account and its peers. -/
def IdentityOp : Op → Prop
  | .loadIdentity | .getKeys _ | .getPeerPin _ | .savePeerPin _ | .now => True
  | _ => False

/-- The operations that write no session, ratchet or message. -/
def StoreFree : Op → Prop
  | .saveSession _ | .deleteConversationData _ | .putCommit _ _ | .deleteVault _ => False
  | _ => True

/-- The operations of v1 sessions that write no pin. -/
def SessionOp : Op → Prop
  | .getKeys _ | .getPeerPin _ | .now | .generateX25519 | .randomUUID | .loadSession _
  | .loadConversationSessions _ | .saveSession _ | .refreshBackup => True
  | _ => False

theorem plain_of (others : ∀ op, (∀ held, op ≠ .savePeerPin held) → allowed op) (op : Op)
    (member : SessionOp op) : allowed op := by
  refine others op ?_
  rintro held rfl
  exact member

theorem uses_pin (peerId : String) (ed : Base64) (keyVersion : JsNumber) :
    Uses (PinOp peerId) (pin peerId ed keyVersion).run :=
  uses_throwing_bind (uses_op trivial) fun _ => uses_op rfl

theorem uses_comparePin (peerId : String) (ed : Base64) (keyVersion : JsNumber) :
    Uses (PinOp peerId) (comparePin peerId ed keyVersion).run := by
  refine uses_throwing_bind (uses_op rfl) fun held => ?_
  cases held with
  | none => exact uses_throwing_bind (uses_pin peerId ed keyVersion) fun _ => trivial
  | some held =>
      dsimp only
      split
      · exact uses_throwing_bind (uses_pin peerId ed keyVersion) fun _ => trivial
      · exact uses_throwing_pure

theorem uses_checkPeerIdentity (peerId : String) (claimed directory : Option Base64)
    (keyVersion : JsNumber) :
    Uses (PinOp peerId) (checkPeerIdentity peerId claimed directory keyVersion).run := by
  unfold checkPeerIdentity
  split
  · exact uses_comparePin ..
  · refine uses_throwing_bind (uses_op rfl) fun keys => ?_
    split
    · split
      · exact uses_throwing_bind (uses_pin ..) fun _ => trivial
      · exact uses_comparePin ..
    · exact uses_comparePin ..

theorem uses_fetchAndPinBundle (peerId : String) :
    Uses (PinOp peerId) (fetchAndPinBundle peerId).run :=
  uses_throwing_bind (uses_op rfl) fun _ =>
    uses_throwing_bind (uses_checkPeerIdentity ..) fun _ => trivial

theorem uses_existingDek (convId : String) : Uses LookupOp (existingDek convId).run :=
  uses_throwing_bind (uses_op trivial) fun _ => trivial

theorem uses_loadMessage (convId msgKey : String) : Uses LookupOp (loadMessage convId msgKey).run := by
  refine uses_throwing_bind (uses_existingDek convId) fun key => ?_
  cases key with
  | none => exact uses_throwing_pure
  | some key =>
      refine uses_throwing_bind (uses_op trivial) fun row => ?_
      cases row with
      | none => exact uses_throwing_pure
      | some row => exact uses_throwing_pure

theorem uses_loadRatchet (convId sessionId : String) :
    Uses LookupOp (loadRatchet convId sessionId).run := by
  refine uses_throwing_bind (uses_existingDek convId) fun key => ?_
  cases key with
  | none => exact uses_throwing_pure
  | some key =>
      refine uses_throwing_bind (uses_op trivial) fun row => ?_
      cases row with
      | none => exact uses_throwing_pure
      | some row =>
          dsimp only
          split
          · exact uses_throwing_pure
          split
          · exact uses_throw
          · exact uses_throwing_pure

theorem uses_latestRatchet (convId : String) : Uses LookupOp (latestRatchet convId).run := by
  refine uses_throwing_bind (uses_existingDek convId) fun key => ?_
  cases key with
  | none => exact uses_throwing_pure
  | some key => exact uses_throwing_bind (uses_op trivial) fun _ => trivial

theorem uses_ensureDek (convId : String) : Uses DekOp (ensureDek convId).run := by
  have look : Uses DekOp (existingDek convId).run :=
    uses_throwing_bind (uses_op trivial) fun _ => trivial
  refine uses_throwing_bind look fun key => ?_
  cases key with
  | some key => exact uses_throwing_pure
  | none =>
      refine uses_throwing_bind (uses_op trivial) fun key => ?_
      refine uses_tryCatch (uses_throwing_bind (uses_op trivial) fun _ => trivial) fun _ => ?_
      exact uses_throwing_bind look fun _ => trivial

theorem uses_cachedIdentity (this : Tab) :
    Uses (fun op => op = .loadIdentity) (cachedIdentity this).run := by
  unfold cachedIdentity
  split
  · exact uses_throwing_pure
  · exact uses_op rfl

theorem uses_myUserId (this : Tab) : Uses allowed (myUserId this).run := by
  unfold myUserId
  split
  · exact uses_throwing_pure
  · exact uses_throw

theorem uses_requireIdentity (this : Tab) : Uses allowed (requireIdentity this).run := by
  unfold requireIdentity
  split
  · exact uses_throwing_pure
  · exact uses_throw

theorem storeFree_of_pinOp {peerId : String} (op : Op) (member : PinOp peerId op) :
    StoreFree op := by
  cases op <;> simp_all [PinOp, StoreFree]

theorem storeFree_of_lookupOp (op : Op) (member : LookupOp op) : StoreFree op := by
  cases op <;> simp_all [LookupOp, StoreFree]

theorem storeFree_of_dekOp (op : Op) (member : DekOp op) : StoreFree op := by
  cases op <;> simp_all [DekOp, StoreFree]

theorem identityOp_of_pinOp {peerId : String} (op : Op) (member : PinOp peerId op) :
    IdentityOp op := by
  cases op <;> simp_all [PinOp, IdentityOp]

theorem storeFree_of_identityOp (op : Op) (member : IdentityOp op) : StoreFree op := by
  cases op <;> simp_all [IdentityOp, StoreFree]

theorem uses_safetyNumberFor (this : Tab) (peerId : String) :
    Uses IdentityOp (safetyNumberFor this peerId).run := by
  refine uses_throwing_bind ((uses_cachedIdentity this).mono ?_) fun found => ?_
  · rintro _ rfl
    trivial
  cases found with
  | none => exact uses_throwing_pure
  | some identity =>
      refine uses_throwing_bind (uses_op trivial) fun held => ?_
      have display : ∀ peerKey, Uses IdentityOp (do
          let me ← myUserId this
          let digits ← lift (SafetyNumber.computeSafetyNumber me identity.edPub peerId peerKey)
          let freshPin ← held.elim (call (.getPeerPin peerId)) fun held => pure (some held)
          return some ({ digits, verified := (freshPin.map PeerPin.verified).getD false } :
            SafetyNumberView) : Prog (Option SafetyNumberView)).run := by
        intro peerKey
        refine uses_throwing_bind (uses_myUserId this) fun me => ?_
        refine uses_throwing_bind uses_lift fun digits => ?_
        cases held with
        | none => exact uses_throwing_bind (uses_op trivial) fun _ => uses_throwing_pure
        | some held => exact uses_throwing_bind uses_throwing_pure fun _ => uses_throwing_pure
      cases held with
      | some held => exact uses_throwing_bind uses_throwing_pure fun peerKey => display peerKey
      | none =>
          refine uses_throwing_bind (uses_throwing_map ?_) fun peerKey => display peerKey
          exact (uses_fetchAndPinBundle peerId).mono identityOp_of_pinOp

theorem uses_markVerified (peerId : String) : Uses IdentityOp (markVerified peerId).run := by
  refine uses_throwing_bind (uses_op trivial) fun found => ?_
  cases found with
  | none => exact uses_throw
  | some held => exact uses_op trivial

theorem storeFree_encryptAndUpload (salt : Nat) (key : BackupKey) :
    Uses StoreFree (encryptAndUpload salt key).run := by
  refine uses_throwing_bind (uses_op trivial) fun found => ?_
  cases found with
  | none => exact uses_throw
  | some identity =>
      refine uses_throwing_bind (uses_op trivial) fun sessions => ?_
      exact uses_throwing_bind (uses_op trivial) fun exportedAt => uses_op trivial

theorem storeFree_uploadBackup (code : String) : Uses StoreFree (uploadBackup code).run := by
  refine uses_throwing_bind (uses_op trivial) fun salt => ?_
  exact uses_throwing_bind (storeFree_encryptAndUpload _ _) fun _ => uses_op trivial

theorem storeFree_refreshBackup : Uses StoreFree refreshBackup.run := by
  refine uses_throwing_bind (uses_op trivial) fun found => ?_
  cases found with
  | none => exact uses_throwing_pure
  | some material =>
      exact uses_throwing_bind (storeFree_encryptAndUpload _ _) fun _ => uses_throwing_pure

section PinWrites

/-! Predicates that limit the pins written, for the calls that look at them. -/

variable (pins : ∀ peerId ed keyVersion, Uses allowed (pin peerId ed keyVersion).run)

section Sessions

variable (plain : ∀ op, SessionOp op → allowed op)

include pins plain

theorem uses_comparePin_of (peerId : String) (ed : Base64) (keyVersion : JsNumber) :
    Uses allowed (comparePin peerId ed keyVersion).run := by
  refine uses_throwing_bind (uses_op (plain _ trivial)) fun held => ?_
  cases held with
  | none => exact uses_throwing_bind (pins ..) fun _ => uses_throwing_pure
  | some held =>
      dsimp only
      split
      · exact uses_throwing_bind (pins ..) fun _ => uses_throwing_pure
      · exact uses_throwing_pure

theorem uses_checkPeerIdentity_of (peerId : String) (claimed directory : Option Base64)
    (keyVersion : JsNumber) :
    Uses allowed (checkPeerIdentity peerId claimed directory keyVersion).run := by
  unfold checkPeerIdentity
  split
  · exact uses_comparePin_of pins plain ..
  · refine uses_throwing_bind (uses_op (plain _ trivial)) fun keys => ?_
    split
    · split
      · exact uses_throwing_bind (pins ..) fun _ => uses_throwing_pure
      · exact uses_comparePin_of pins plain ..
    · exact uses_comparePin_of pins plain ..

theorem uses_fetchAndPinBundle_of (peerId : String) :
    Uses allowed (fetchAndPinBundle peerId).run := by
  refine uses_throwing_bind (uses_op (plain _ trivial)) fun bundle => ?_
  exact uses_throwing_bind (uses_checkPeerIdentity_of pins plain ..) fun _ => uses_throwing_pure

theorem uses_startSession_of (conversationId peerId : String) (identity : StoredIdentity) :
    Uses allowed (startSession conversationId peerId identity).run := by
  refine uses_throwing_bind (uses_fetchAndPinBundle_of pins plain peerId) fun bundle => ?_
  refine uses_throwing_bind (uses_op (plain _ trivial)) fun ek => ?_
  refine uses_throwing_bind (uses_op (plain _ trivial)) fun sessionId => ?_
  refine uses_throwing_bind (uses_op (plain _ trivial)) fun now => ?_
  exact uses_throwing_bind uses_lift fun _ => uses_throwing_pure

theorem uses_sendingSession_of (conversationId peerId : String) (identity : StoredIdentity) :
    Uses allowed (sendingSession conversationId peerId identity).run := by
  have active : Uses allowed (activeSession conversationId).run :=
    uses_throwing_bind (uses_op (plain _ trivial)) fun _ => uses_throwing_pure
  refine uses_throwing_bind active fun found => ?_
  cases found with
  | none => exact uses_startSession_of pins plain ..
  | some session =>
      refine uses_throwing_bind (uses_op (plain _ trivial)) fun now => ?_
      split
      · refine uses_throwing_bind (uses_op (plain _ trivial)) fun _ => ?_
        refine uses_throwing_bind (uses_op (plain _ trivial)) fun _ => ?_
        exact uses_startSession_of pins plain ..
      · exact uses_throwing_pure

theorem uses_encryptV1_of (this : Tab) (conversationId peerId : String)
    (identity : StoredIdentity) (text : List UInt16) :
    Uses allowed (encryptV1 this conversationId peerId identity text).run := by
  refine uses_throwing_bind (uses_sendingSession_of pins plain ..) fun ⟨session, init⟩ => ?_
  refine uses_throwing_bind (uses_op (plain _ trivial)) fun _ => ?_
  have finish : ∀ envelope : WireEnvelope → AnyEnvelope, Uses allowed (do
      let me ← myUserId this
      let sent ← lift (Envelope.seal { session with sendCtr := session.sendCtr + 1 }
        conversationId me session.sendCtr text init)
      return envelope sent : Prog AnyEnvelope).run := by
    intro envelope
    refine uses_throwing_bind (uses_myUserId this) fun me => ?_
    exact uses_throwing_bind uses_lift fun _ => uses_throwing_pure
  dsimp only
  split
  · refine uses_throwing_bind (uses_op (plain _ trivial)) fun _ => ?_
    exact finish _
  · exact finish _

theorem uses_decryptV1_of (conversationId senderId : String) (envelope : WireEnvelope)
    (own : Bool) (identity : StoredIdentity) :
    Uses allowed (decryptV1 conversationId senderId envelope own identity).run := by
  have received : Uses allowed
      (receivingSession conversationId senderId envelope own identity).run := by
    refine uses_throwing_bind (uses_op (plain _ trivial)) fun found => ?_
    cases found with
    | some session => exact uses_throwing_pure
    | none =>
        dsimp only
        split
        · refine uses_throwing_bind (uses_checkPeerIdentity_of pins plain ..) fun changed => ?_
          refine uses_throwing_bind (uses_op (plain _ trivial)) fun now => ?_
          refine uses_throwing_bind uses_lift fun session => ?_
          refine uses_throwing_bind (uses_op (plain _ trivial)) fun _ => ?_
          refine uses_throwing_bind (uses_op (plain _ trivial)) fun _ => ?_
          exact uses_throwing_pure
        · exact uses_throwing_pure
  refine uses_tryCatch ?_ fun _ => uses_throwing_pure
  refine uses_throwing_bind received fun ⟨found, keyChanged⟩ => ?_
  cases found with
  | none => exact uses_throwing_pure
  | some session =>
      refine uses_throwing_bind uses_lift fun text => ?_
      dsimp only
      split
      · exact uses_throwing_bind (uses_op (plain _ trivial))
          fun _ => uses_throwing_pure
      · exact uses_throwing_pure

end Sessions

variable (others : ∀ op, (∀ held, op ≠ .savePeerPin held) → allowed op)

include pins others

omit pins in
theorem uses_withLock_of {name : String} {body : Prog α} (uses : Uses allowed body.run) :
    Uses allowed (withLock name body).run := by
  refine uses_throwing_bind (uses_op (others _ fun _ same => by cases same)) fun _ => ?_
  refine uses_throwing_bind (uses_settle uses) fun result => ?_
  exact uses_throwing_bind (uses_op (others _ fun _ same => by cases same)) fun _ => uses_lift

omit pins in
theorem uses_vault_of {p : Prog α} (uses : Uses (fun op => LookupOp op ∨ DekOp op) p.run) :
    Uses allowed p.run := by
  refine uses.mono fun op known => others op fun held same => ?_
  subst same
  exact known.elim id id

omit pins in
theorem uses_commit_of (convId : String) (session : RatchetSession) (msgKey : String)
    (text : List UInt16) : Uses allowed (commit convId session msgKey text).run := by
  refine uses_throwing_bind (uses_vault_of others ((uses_ensureDek convId).mono
    fun _ => .inr)) fun key => ?_
  exact uses_op (others _ fun _ same => by cases same)

theorem uses_encrypt_of (this : Tab) (conversationId peerId : String) (text : List UInt16) :
    Uses allowed (encrypt this conversationId peerId text).run := by
  have sealing : ∀ session, Uses allowed (encryptV2 this conversationId session text).run := by
    intro session
    refine uses_throwing_bind (uses_myUserId this) fun me => ?_
    refine uses_throwing_bind uses_lift fun ⟨envelope, next⟩ => ?_
    exact uses_throwing_bind (uses_commit_of others ..) fun _ => uses_throwing_pure
  refine uses_throwing_bind (uses_requireIdentity this) fun identity => ?_
  refine uses_withLock_of others ?_
  refine uses_throwing_bind (uses_vault_of others ((uses_latestRatchet conversationId).mono
    fun _ => .inl)) fun found => ?_
  cases found with
  | some session => exact sealing session
  | none =>
      refine uses_throwing_bind (uses_op (others _ fun _ same => by cases same)) fun enabled => ?_
      split
      · refine uses_throwing_bind ?_ fun session => sealing session
        refine uses_throwing_bind (uses_fetchAndPinBundle_of pins (plain_of others) peerId) fun bundle => ?_
        refine uses_throwing_bind (uses_op (others _ fun _ same => by cases same)) fun ek => ?_
        refine uses_throwing_bind (uses_op (others _ fun _ same => by cases same)) fun id => ?_
        refine uses_throwing_bind (uses_op (others _ fun _ same => by cases same)) fun now => ?_
        exact uses_throwing_bind (uses_op (others _ fun _ same => by cases same)) fun _ => uses_lift
      · exact uses_encryptV1_of pins (plain_of others) ..

theorem uses_decryptV2Locked_of (conversationId senderId : String) (envelope : WireEnvelopeV2)
    (identity : StoredIdentity) :
    Uses allowed (decryptV2Locked conversationId senderId envelope identity).run := by
  have received : Uses allowed
      (receivingRatchet conversationId senderId envelope identity).run := by
    refine uses_throwing_bind (uses_vault_of others ((uses_loadRatchet _ _).mono
      fun _ => .inl)) fun found => ?_
    cases found with
    | some session => exact uses_throwing_pure
    | none =>
        dsimp only
        split
        · exact uses_throwing_pure
        · refine uses_throwing_bind (uses_checkPeerIdentity_of pins (plain_of others) ..) fun changed => ?_
          refine uses_throwing_bind (uses_op (others _ fun _ same => by cases same)) fun now => ?_
          exact uses_throwing_bind uses_lift fun _ => uses_throwing_pure
  refine uses_throwing_bind (uses_vault_of others ((uses_loadMessage _ _).mono
    fun _ => .inl)) fun found => ?_
  cases found with
  | some again => exact uses_throwing_pure
  | none =>
      refine uses_throwing_bind received fun ⟨found, keyChanged⟩ => ?_
      cases found with
      | none => exact uses_throwing_pure
      | some session =>
          refine uses_throwing_bind (uses_op (others _ fun _ same => by cases same)) fun _ => ?_
          refine uses_throwing_bind (uses_op (others _ fun _ same => by cases same)) fun _ => ?_
          refine uses_throwing_bind uses_lift fun _ => ?_
          exact uses_throwing_bind (uses_commit_of others ..) fun _ => uses_throwing_pure

theorem uses_decrypt_of (this : Tab) (conversationId senderId : String) (envelope : AnyEnvelope)
    (own : Bool) : Uses allowed (decrypt this conversationId senderId envelope own).run := by
  refine uses_throwing_bind ((uses_cachedIdentity this).mono ?_) fun found => ?_
  · rintro _ rfl
    exact others _ fun _ same => by cases same
  cases found with
  | none => exact uses_throwing_pure
  | some identity =>
      cases envelope with
      | v1 envelope => exact uses_decryptV1_of pins (plain_of others) ..
      | v2 envelope =>
          refine uses_tryCatch ?_ fun _ => uses_throwing_pure
          refine uses_throwing_bind (uses_vault_of others ((uses_loadMessage _ _).mono
            fun _ => .inl)) fun found => ?_
          cases found with
          | some stored => exact uses_throwing_pure
          | none =>
              dsimp only
              split
              · exact uses_throwing_pure
              · exact uses_withLock_of others (uses_decryptV2Locked_of pins others ..)

end PinWrites

/-- The stored sessions, ratchets and messages are the same. -/
structure SameStores (d d' : Device) : Prop where
  sessions : d'.sessions = d.sessions
  ratchets : d'.ratchets = d.ratchets
  messages : d'.messages = d.messages

theorem SameStores.refl (d : Device) : SameStores d d :=
  ⟨rfl, rfl, rfl⟩

theorem SameStores.trans {d₁ d₂ d₃ : Device} (first : SameStores d₁ d₂)
    (second : SameStores d₂ d₃) : SameStores d₁ d₃ where
  sessions := second.sessions.trans first.sessions
  ratchets := second.ratchets.trans first.ratchets
  messages := second.messages.trans first.messages

theorem sameStores_effect (t : Nat) (d : Device) {op : Op} (free : StoreFree op) :
    SameStores d (effect t op d) := by
  cases op <;> first | exact ⟨rfl, rfl, rfl⟩ | exact free.elim

theorem sameStores_exec {t : Nat} {d d' : Device} {op : Op} {result : op.Res}
    (free : StoreFree op) (performed : Exec t d op result d') : SameStores d d' := by
  rcases exec_cases performed with ⟨_, _, rfl⟩ | ⟨_, _, rfl, _⟩
  · exact .refl _
  · exact sameStores_effect t d free

theorem sameStores_ends {exec : Device → (op : Op) → op.Res → Device → Prop} {t : Nat}
    (sound : ∀ d op result d', exec d op result d' → Exec t d op result d') {p : Prog α}
    (uses : Uses StoreFree p.run) {d d' : Device} {result : Except JsError α}
    (ends : Ends exec d p result d') : SameStores d d' := by
  refine Runs.invariant_of_uses (fun s op answer s' free performed same => ?_) uses ends (.refl d)
  exact same.trans (sameStores_exec free (sound _ _ _ _ performed))

end E2EEService
