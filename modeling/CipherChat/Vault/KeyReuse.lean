import CipherChat.Service.Calls
import CipherChat.Vault.Chains

/-!
No two envelopes of one browser have the same place in a session, and no two are sealed under one key,
as long as no decryption commits over the ratchet of another conversation.
-/

namespace Vault

open Async Number Symbolic Primitives KeyStore Envelope EnvelopeV2 DoubleRatchet Store E2EEService

/-- The key that the ciphertext of an envelope is sealed under. -/
def cipherKey (envelope : WireEnvelopeV2) : Option Term :=
  match fromBase64 envelope.ct with
  | .ok (.aead key _ _ _) => some key
  | _ => none

/-- No two calls have returned envelopes under one key, nor two calls on one browser envelopes with one
number of one session. -/
def NeverReused (s : Browsers) (permits : History → Event → Prop) : Prop :=
  ∀ j, service.Reaches Unguessed permits s j → ∀ e ∈ j.past, ∀ e' ∈ j.past, e.thread ≠ e'.thread →
    ∀ n envelope n' envelope', sentBy e = some (n, envelope) → sentBy e' = some (n', envelope') →
      (n = n' → (envelope.sessionId, envelope.ctr) ≠ (envelope'.sessionId, envelope'.ctr)) ∧
        cipherKey envelope ≠ cipherKey envelope'

/-- What has been posted was sealed by a commit of the call, which tells its place and its key. -/
theorem Posts.sealing {t : Nat} {j : History} {envelope : WireEnvelopeV2} (posts : Posts t j envelope) :
    ∃ e ∈ j.past, e.thread = t ∧ ∃ n row message session ck, committed e = some (n, row, message) ∧
      Sealing session row.session envelope ck ∧ row.session.sessionId = session.sessionId := by
  obtain ⟨e, old, mine, n, row, message, session, me, text, isCommit, sent⟩ := posts
  obtain ⟨ck, sealing⟩ := sealing_of sent
  obtain ⟨_, _, _, _, isNext⟩ := sealV2_ok sent
  exact ⟨e, old, mine, n, row, message, session, ck, isCommit, sealing, by rw [isNext]⟩

theorem Sealing.cipherKey {session next : RatchetSession} {envelope : WireEnvelopeV2} {ck : Term}
    (sealing : Sealing session next envelope ck) :
    cipherKey envelope = some (cipherParams (kdfChain ck).mk).key := by
  obtain ⟨iv, plaintext, aad, isCiphertext⟩ := sealing.ct
  rw [Vault.cipherKey, isCiphertext]
  rfl

theorem encrypts_of_sentBy {e : Event} {n : Nat} {envelope : WireEnvelopeV2}
    (isSent : sentBy e = some (n, envelope)) :
    e.call.browser = some n ∧ e.call.decrypts = false := by
  unfold sentBy at isSent
  split at isSent
  next isCall =>
    obtain ⟨rfl, rfl⟩ := Prod.mk.inj (Option.some.inj isSent)
    rw [isCall]
    exact ⟨rfl, rfl⟩
  next => cases isSent

theorem never_reused (s : Browsers) (fresh : Fresh s) : NeverReused s Permitted := by
  intro j reaches e member e' member' other n envelope n' envelope' isSent isSent'
  obtain ⟨_, chains⟩ := chainsInvariant.reached fresh (chains_empty s) reaches
  obtain ⟨c, old, mine, m, row, message, session, ck, isCommit, sealing, sameId⟩ :=
    (chains.posted e member n envelope isSent).sealing
  obtain ⟨c', old', mine', m', row', message', session', ck', isCommit', sealing', sameId'⟩ :=
    (chains.posted e' member' n' envelope' isSent').sealing
  have sameCall {a b : Event} (inPast : a ∈ j.past) (inPast' : b ∈ j.past)
      (thread : a.thread = b.thread) : a.call = b.call := by
    have running := reaches.ran a inPast
    rw [thread, reaches.ran b inPast'] at running
    exact (Option.some.inj running).symm
  obtain ⟨site, encrypts⟩ := encrypts_of_sentBy isSent
  obtain ⟨site', encrypts'⟩ := encrypts_of_sentBy isSent'
  rw [← sameCall old member mine] at site encrypts
  rw [← sameCall old' member' mine'] at site' encrypts'
  obtain ⟨browser, named⟩ := chains.commits c old m row message isCommit
  obtain ⟨browser', named'⟩ := chains.commits c' old' m' row' message' isCommit'
  have apart : c.thread ≠ c'.thread := by rwa [mine, mine']
  obtain ⟨places, keys⟩ := chains.apart c old c' old' apart encrypts encrypts' m row message m' row'
    message' isCommit isCommit'
  constructor
  · rintro rfl same
    obtain ⟨isId, isCtr⟩ := Prod.mk.inj same
    have isBrowser : m = m' := by
      rw [site] at browser
      rw [site'] at browser'
      exact Option.some.inj (browser.symm.trans browser')
    refine places isBrowser ?_ ?_
    · rw [named, named', sameId, sameId', ← sealing.sessionId, ← sealing'.sessionId, isId]
    · rw [sealing.ctr, sealing'.ctr, Nat.cast_inj] at isCtr
      rw [sealing.total, sealing'.total, isCtr]
  · intro same
    rw [sealing.cipherKey, sealing'.cipherKey, Option.some.injEq] at same
    have isKey := RatchetPair.kdfChain_mk_injective (RatchetPair.cipherKey_injective same)
    exact keys (by rw [sealing.next, sealing'.next, isKey])

section Runs

def blank : Browsers where
  device _ := { freshDevice with v2Flag := true }
  dead _ := false

theorem blank_fresh : Fresh blank :=
  ⟨fun _ => rfl, fun _ => rfl⟩

theorem never_reused_blank : NeverReused blank Permitted :=
  never_reused blank blank_fresh

/-- No envelope that is being decrypted names this session or this key. -/
def unhanded (j : History) (avoids : WireEnvelopeV2 → Bool) : Bool :=
  (List.range 8).all fun t => match (j.calls t).bind Call.handed with
    | some envelope => avoids envelope
    | none => true

/-- A step that needs no assumption: what is drawn is not to be found in the history. -/
def vet (j : History) (e : Event) : Bool :=
  (match drawnId e with
    | some sessionId =>
        (j.past.all fun e' => drawnId e' ≠ some sessionId && match committed e' with
          | some (_, row, _) => row.sessionId ≠ sessionId
          | none => true) && unhanded j fun envelope => envelope.sessionId ≠ sessionId
    | none => true) &&
  (match drawnKey e with
    | some name =>
        (j.past.all fun e' => drawnKey e' ≠ some name && match served e' with
          | some bundle => fromBase64 bundle.signedPreKey.pubX25519 ≠ .ok (.pub name)
          | none => true) && unhanded j fun envelope => fromBase64 envelope.dh ≠ .ok (.pub name)
    | none => true) &&
  (match served e with
    | some bundle => j.past.all fun e' => match drawnKey e' with
        | some name => fromBase64 bundle.signedPreKey.pubX25519 ≠ .ok (.pub name)
        | none => true
    | none => true) &&
  (match drawnDek e with
    | some name => j.past.all fun e' => match committed e' with
        | some (_, row, message) => row.key ≠ name && message.all fun m => m.key ≠ name
        | none => true
    | none => true)

def guesses (j : History) (call : Call) : Bool :=
  match call.handed with
  | some envelope =>
      (j.past.all (fun e => drawnId e ≠ some envelope.sessionId) || j.past.any fun e =>
        match committed e with
        | some (_, row, _) => row.sessionId = envelope.sessionId
        | none => false) &&
      j.past.all fun e => match drawnKey e with
        | some name => fromBase64 envelope.dh ≠ .ok (.pub name)
        | none => true
  | none => true

theorem unhanded_few {j : History} {avoids : WireEnvelopeV2 → Bool} (few : Service.Few 8 j)
    (isUnhanded : unhanded j avoids) (u : Nat) (call : Call) (envelope : WireEnvelopeV2)
    (running : j.calls u = some call) (isHanded : call.handed = some envelope) :
    avoids envelope = true := by
  have below : u < 8 := by
    by_contra above
    rw [few u (by omega)] at running
    cases running
  have here := List.all_eq_true.mp isUnhanded u (List.mem_range.mpr below)
  simpa [running, isHanded] using here

theorem fresh_of_vet (j : History) (e : Event) (few : Service.Few 8 j) (vetted : vet j e) :
    FreshDraws j e := by
  simp only [vet, Bool.and_eq_true] at vetted
  obtain ⟨⟨⟨id, key⟩, isServed⟩, dek⟩ := vetted
  refine ⟨?_, ?_, ?_, ?_⟩
  · intro sessionId isDraw
    simp only [isDraw, Bool.and_eq_true, List.all_eq_true, decide_eq_true_eq] at id
    obtain ⟨history, hands⟩ := id
    refine ⟨?_, ?_, ?_⟩
    · rintro ⟨e', old, isDraw'⟩
      exact (history e' old).1 isDraw'
    · rintro ⟨n, row, ⟨e', old, message, isCommit⟩, isId⟩
      have other := (history e' old).2
      simp [isCommit, isId] at other
    · intro u call envelope running isHanded
      simpa using unhanded_few few hands u call envelope running isHanded
  · intro name isDraw
    simp only [isDraw, Bool.and_eq_true, List.all_eq_true, decide_eq_true_eq] at key
    obtain ⟨history, hands⟩ := key
    refine ⟨?_, ?_, ?_⟩
    · rintro ⟨e', old, isDraw'⟩
      exact (history e' old).1 isDraw'
    · intro e' old bundle isServed'
      have other := (history e' old).2
      simpa [isServed'] using other
    · intro u call envelope running isHanded
      simpa using unhanded_few few hands u call envelope running isHanded
  · rintro bundle isBundle name isKey ⟨e', old, isDraw⟩
    simp only [isBundle, List.all_eq_true] at isServed
    have other := isServed e' old
    simp [isDraw, isKey] at other
  · intro name isDraw e' old n row message isCommit
    simp only [isDraw, List.all_eq_true] at dek
    have other := dek e' old
    simp only [isCommit, Bool.and_eq_true, decide_eq_true_eq] at other
    refine ⟨other.1, fun stored isStored => ?_⟩
    obtain rfl : message = some stored := isStored
    simpa using other.2

theorem unguessed_of (j : History) (call : Call) (_ : Service.Few 8 j) (fine : guesses j call) :
    Unguessed j call := by
  unfold guesses at fine
  split at fine
  next envelope isHanded =>
    simp only [Bool.and_eq_true, Bool.or_eq_true, List.all_eq_true, List.any_eq_true,
      decide_eq_true_eq] at fine
    obtain ⟨ids, keys⟩ := fine
    refine ⟨?_, ?_⟩
    · intro envelope' isSame drawn
      obtain rfl := Option.some.inj (isHanded.symm.trans isSame)
      obtain ⟨e, old, isDraw⟩ := drawn
      rcases ids with none | ⟨e', old', isUsed⟩
      · exact absurd isDraw (none e old)
      · split at isUsed
        next n row message isCommit =>
          exact ⟨n, row, ⟨e', old', message, isCommit⟩, by simpa using isUsed⟩
        next => cases isUsed
    · intro envelope' isSame name isKey drawn
      obtain rfl := Option.some.inj (isHanded.symm.trans isSame)
      obtain ⟨e, old, isDraw⟩ := drawn
      have other := keys e old
      simp [isDraw, isKey] at other
  next none =>
    refine ⟨fun envelope isSome => ?_, fun envelope isSome => ?_⟩ <;>
      rw [none] at isSome <;> cases isSome

def follow (plan : List (Move Call Answer)) : Option History :=
  ((service.vetted perform 8 guesses vet).follow (Service.unstarted blank) plan).map Config.state

theorem follow_reaches {plan : List (Move Call Answer)} {j : History} (followed : follow plan = some j) :
    service.Reaches Unguessed FreshDraws blank j := by
  obtain ⟨config, ran, rfl⟩ := Option.map_eq_some_iff.mp followed
  exact Service.reaches_vetted unguessed_of (fun _ _ _ a _ _ performed => Exists.intro a performed)
    fresh_of_vet ran

/-- Answers with a name of their own each. -/
def draws (first count : Nat) : List Answer :=
  (List.range count).map fun i => { directory with name := first + i, uuid := "s" }

/-- The first envelope of a session that a stranger starts under an id of her choice. -/
def strangerEnvelope (conversationId sessionId : String) : Except JsError WireEnvelopeV2 := do
  let session ← startInitiator conversationId "b" sender responderBundle 30 31 sessionId 0
  let (envelope, _) ← sealV2 session "m" (Utf.ofString "hi")
  return envelope

/-- A stranger gives the session she starts the id of one with another peer. -/
def takeover : Option History := do
  let envelope ← (strangerEnvelope "c2" "s").toOption
  follow (Service.moves 0 (Call.encrypt 0 tab "c1" "a" (Utf.ofString "one")) (draws 10 17) ++
    Service.moves 1 (Call.decrypt 0 tab "c2" "m" (.v2 envelope) false) (draws 40 17) ++
    Service.moves 2 (Call.encrypt 0 tab "c2" "m" (Utf.ofString "two")) (draws 70 7))

/-- The threads whose envelopes have this place in a session of browser `n`. -/
def sentAt (j : History) (n : Nat) (sessionId : String) (ctr : JsNumber) : List Nat :=
  (j.past.filter fun e => match sentBy e with
    | some (m, envelope) => m = n && envelope.sessionId = sessionId && envelope.ctr = ctr
    | none => false).map Entry.thread

theorem mem_sentAt {j : History} {n t : Nat} {sessionId : String} {ctr : JsNumber}
    (member : t ∈ sentAt j n sessionId ctr) : ∃ e ∈ j.past, e.thread = t ∧ ∃ envelope,
      sentBy e = some (n, envelope) ∧ envelope.sessionId = sessionId ∧ envelope.ctr = ctr := by
  obtain ⟨e, isFiltered, isThread⟩ := List.mem_map.mp member
  obtain ⟨inPast, matched⟩ := List.mem_filter.mp isFiltered
  refine ⟨e, inPast, isThread, ?_⟩
  split at matched
  next m envelope isSent =>
    simp only [Bool.and_eq_true, decide_eq_true_eq] at matched
    obtain ⟨⟨rfl, isId⟩, isCtr⟩ := matched
    exact ⟨envelope, isSent, isId, isCtr⟩
  next => cases matched

theorem takeover_reuses : takeover.map (fun j => sentAt j 0 "s" 0) = some [2, 0] := by
  decide +kernel

theorem reused_after_takeover : ¬NeverReused blank FreshDraws := by
  intro claim
  obtain ⟨j, ran, places⟩ := Option.map_eq_some_iff.mp takeover_reuses
  simp only [takeover, Option.bind_eq_bind, Option.bind_eq_some_iff] at ran
  obtain ⟨_, _, followed⟩ := ran
  obtain ⟨e, old, isThread, envelope, isSent, isId, isCtr⟩ : ∃ e ∈ j.past, e.thread = 2 ∧ _ :=
    mem_sentAt (places ▸ List.mem_cons_self)
  obtain ⟨e', old', isThread', envelope', isSent', isId', isCtr'⟩ : ∃ e ∈ j.past, e.thread = 0 ∧ _ :=
    mem_sentAt (places ▸ List.mem_cons_of_mem _ List.mem_cons_self)
  have apart : e.thread ≠ e'.thread := by omega
  refine (claim j (follow_reaches followed) e old e' old' apart 0 envelope 0 envelope' isSent
    isSent').1 rfl ?_
  rw [isId, isId', isCtr, isCtr']

end Runs

end Vault
