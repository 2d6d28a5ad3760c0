import CipherChat.Service.Footprint

/-!
What the calls come to where no operation fails, under any executor that lets each of them
answer.
-/

namespace E2EEService

open Async Number Symbolic Primitives KeyStore Envelope EnvelopeV2 Store

/-- Whatever an operation may answer without a fault is performed. -/
def Faultless (t : Nat) (exec : Device → (op : Op) → op.Res → Device → Prop) : Prop :=
  ∀ d op value a, blocked op d = false → reply d op a = .ok value →
    exec d op (.ok value) (effect t op d)

variable {exec : Device → (op : Op) → op.Res → Device → Prop} {t : Nat} {d d' : Device}

namespace Faultless

variable (faultless : Faultless t exec)

include faultless

protected theorem call (op : Op) {value : op.Val} (a : Answer) (free : blocked op d = false)
    (replied : reply d op a = .ok value) :
    Ends exec d (call op) (.ok value) (effect t op d) :=
  ends_call.mpr (faultless d op value a free replied)

protected theorem pin (peerId : String) (ed : Base64) (keyVersion : JsNumber) :
    ∃ d', Ends exec d (pin peerId ed keyVersion) (.ok ()) d' :=
  have timed := faultless.call (d := d) .now {} rfl rfl
  ⟨_, timed.andThen (faultless.call _ {} rfl rfl)⟩

protected theorem comparePin (peerId : String) (ed : Base64) (keyVersion : JsNumber) :
    ∃ changed d', Ends exec d (comparePin peerId ed keyVersion) (.ok changed) d' := by
  have loaded := faultless.call (d := d) (.getPeerPin peerId) {} rfl rfl
  obtain ⟨d₁, pinned⟩ := faultless.pin (d := effect t (.getPeerPin peerId) d) peerId ed keyVersion
  cases held : d.peers.get peerId with
  | none =>
      rw [held] at loaded
      exact ⟨false, d₁, loaded.andThen (pinned.andThen (ends_pure.mpr ⟨rfl, rfl⟩))⟩
  | some known =>
      rw [held] at loaded
      by_cases other : known.identityEd25519 ≠ ed
      · refine ⟨true, d₁, loaded.andThen ?_⟩
        simp only [if_pos other]
        exact pinned.andThen (ends_pure.mpr ⟨rfl, rfl⟩)
      · refine ⟨false, d, loaded.andThen ?_⟩
        simp only [if_neg other]
        exact ends_pure.mpr ⟨rfl, rfl⟩

protected theorem checkPeerIdentity (peerId : String) (claimed : Option Base64) (keyVersion : JsNumber) :
    ∃ changed d', Ends exec d (checkPeerIdentity peerId claimed none keyVersion)
      (.ok changed) d' := by
  let keys : PeerBundle := {
    identityEd25519 := .raw ""
    identityX25519 := .raw ""
    signedPreKey := { keyId := 0, pubX25519 := .raw "", sig := .raw "" }
    keyVersion := 0 }
  have fetched := faultless.call (d := d) (.getKeys peerId) { bundle := some keys } rfl rfl
  have compared := faultless.comparePin (d := effect t (.getKeys peerId) d) peerId
    keys.identityEd25519 keys.keyVersion
  unfold checkPeerIdentity
  simp only [Option.filter_none]
  cases claimed.filter fun claimed => !claimed.isEmpty with
  | none =>
      obtain ⟨changed, d', ran⟩ := compared
      exact ⟨changed, d', fetched.andThen ran⟩
  | some claimed =>
      by_cases other : keys.identityX25519 ≠ claimed
      · obtain ⟨d', pinned⟩ := faultless.pin (d := effect t (.getKeys peerId) d) peerId
          keys.identityEd25519 keys.keyVersion
        refine ⟨true, d', fetched.andThen ?_⟩
        simp only [if_pos other]
        exact pinned.andThen (ends_pure.mpr ⟨rfl, rfl⟩)
      · obtain ⟨changed, d', ran⟩ := compared
        refine ⟨changed, d', fetched.andThen ?_⟩
        simp only [if_neg other]
        exact ran

protected theorem receivingSession {conversationId senderId : String} {envelope : WireEnvelope}
    {own : Bool} {identity : StoredIdentity} {session : StoredSession}
    (found : d.sessions.get envelope.sessionId = some session ∨
      d.sessions.get envelope.sessionId = none ∧ own = false ∧
        ∃ init now, envelope.init = some init ∧ Session.acceptSession conversationId senderId
          envelope.sessionId identity init now = .ok session) :
    ∃ keyChanged d', Ends exec d
      (receivingSession conversationId senderId envelope own identity)
      (.ok (some session, keyChanged)) d' := by
  have loaded := faultless.call (d := d) (.loadSession envelope.sessionId) {} rfl rfl
  rcases found with stored | ⟨absent, rfl, init, now, isInit, accepted⟩
  · rw [stored] at loaded
    exact ⟨false, d, loaded.andThen (ends_pure.mpr ⟨rfl, rfl⟩)⟩
  · rw [absent] at loaded
    obtain ⟨keyChanged, d₁, checked⟩ := faultless.checkPeerIdentity
      (d := effect t (.loadSession envelope.sessionId) d) senderId (some init.ik) 1
    have timed := faultless.call (d := d₁) .now { time := now } rfl rfl
    have saved := faultless.call (d := d₁) (.saveSession session) {} rfl rfl
    have refreshed := faultless.call (d := effect t (.saveSession session) d₁)
      .refreshBackup {} rfl rfl
    have derived : Ends exec d₁ (lift (Session.acceptSession conversationId senderId
        envelope.sessionId identity init now)) (.ok session) d₁ :=
      ends_lift.mpr ⟨accepted.symm, rfl⟩
    have done : Ends exec (effect t .refreshBackup (effect t (.saveSession session) d₁))
        (pure (some session, keyChanged) : Prog _) (.ok (some session, keyChanged)) _ :=
      ends_pure.mpr ⟨rfl, rfl⟩
    refine ⟨keyChanged, effect t (.saveSession session) d₁, loaded.andThen ?_⟩
    simp only [isInit]
    exact checked.andThen (timed.andThen (derived.andThen (saved.andThen (refreshed.andThen done))))

protected theorem cachedIdentity {this : Tab} {identity : StoredIdentity}
    (known : this.identity.or d.identity = some identity) :
    Ends exec d (cachedIdentity this) (.ok (some identity)) d := by
  unfold cachedIdentity
  cases cached : this.identity with
  | some held =>
      rw [cached, Option.some_or, Option.some.injEq] at known
      exact ends_pure.mpr ⟨known ▸ rfl, rfl⟩
  | none =>
      rw [cached, Option.none_or] at known
      have loaded := faultless.call (d := d) .loadIdentity {} rfl rfl
      rw [known] at loaded
      exact loaded

end Faultless

theorem ends_cachedIdentity (sound : ∀ d op result d', exec d op result d' → Exec t d op result d')
    {this : Tab} {found : Option StoredIdentity} (ends : Ends exec d (cachedIdentity this) (.ok found) d') :
    found = this.identity.or d.identity ∧ d' = d := by
  unfold cachedIdentity at ends
  cases cached : this.identity with
  | some held =>
      rw [cached] at ends
      obtain ⟨same, rfl⟩ := ends_pure.mp ends
      exact ⟨Except.ok.inj same, rfl⟩
  | none =>
      rw [cached] at ends
      obtain ⟨_, ⟨_, replied⟩, rfl⟩ := exec_ok.mp (sound _ _ _ _ (ends_call.mp ends))
      exact ⟨(Except.ok.inj replied).symm, rfl⟩

end E2EEService
