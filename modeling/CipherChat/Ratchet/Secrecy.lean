import CipherChat.Ratchet.Steps

/-!
Every key a ratchet state holds comes from a secret root key, as long as no frame is
opened under the chain that a missing receiving chain decodes to.
-/

namespace RatchetSecrecy

open Symbolic Number Primitives DoubleRatchet

/-- A key of a chain that `kdfRoot` began from a secret root key. -/
def ChainKey (honest : Nat → Prop) (ck : Term) : Prop :=
  ∃ rk dhOut n, Secret honest rk ∧ ck = chainAfter (kdfRoot rk dhOut).ck n

def MessageKey (honest : Nat → Prop) (mk : Term) : Prop :=
  ∃ rk dhOut n, Secret honest rk ∧ mk = messageKeyAfter (kdfRoot rk dhOut).ck n

/-- What a stored base64 text decodes to. -/
def Holds (b64 : Base64) (P : Term → Prop) : Prop :=
  ∃ t, fromBase64 b64 = .ok t ∧ P t

structure Sound (honest : Nat → Prop) (state : RatchetState) : Prop where
  root : Holds state.rk (Secret honest)
  sending : ∀ cks, state.cks = some cks → Holds cks (ChainKey honest)
  receiving : ∀ ckr, state.ckr = some ckr → Holds ckr (ChainKey honest)
  stored : ∀ s ∈ state.skipped, Holds s.mk (MessageKey honest)
  idle : state.ckr = none → state.skipped = []

/-- A frame for the chain being received, while there is none, sealed under the first key
of the chain of `atob(null)`. -/
def NullKeyFrame (state : RatchetState) (message : RatchetMessage) (ad : Term) : Prop :=
  state.ckr = none ∧ some message.header.dh = state.dhr ∧ (state.nr : JsNumber) ≤ message.header.n ∧
    ∃ plaintext, message.ciphertext =
      .aead (cipherParams (kdfChain (.bytes [0x9E, 0xE9, 0x65])).mk).key
        (cipherParams (kdfChain (.bytes [0x9E, 0xE9, 0x65])).mk).iv plaintext
        (concatBytes [ad, headerBytes message.header])

section

variable {honest : Nat → Prop}

theorem holds_toBase64 {t : Term} {P : Term → Prop} (holds : P t) : Holds (toBase64 t) P :=
  ⟨t, rfl, holds⟩

theorem Holds.apply {b64 : Base64} {t : Term} {P : Term → Prop} (holds : Holds b64 P)
    (decoded : fromBase64 b64 = .ok t) : P t := by
  obtain ⟨u, decoded', holds⟩ := holds
  rw [decoded, Except.ok.injEq] at decoded'
  exact decoded' ▸ holds

theorem secret_kdfRoot {rk dhOut : Term} (hidden : Secret honest rk) :
    Secret honest (kdfRoot rk dhOut).rk ∧ Secret honest (kdfRoot rk dhOut).ck := by
  simp [kdfRoot, hkdfSha256, hidden]

theorem chainKey_kdfRoot {rk dhOut : Term} (hidden : Secret honest rk) :
    ChainKey honest (kdfRoot rk dhOut).ck :=
  ⟨rk, dhOut, 0, hidden, rfl⟩

theorem ChainKey.after {ck : Term} (chain : ChainKey honest ck) (count : Nat) :
    ChainKey honest (chainAfter ck count) := by
  obtain ⟨rk, dhOut, n, hidden, rfl⟩ := chain
  exact ⟨rk, dhOut, n + count, hidden, (chainAfter_add _ n count).symm⟩

theorem ChainKey.next {ck : Term} (chain : ChainKey honest ck) :
    ChainKey honest (kdfChain ck).ck := by
  have stepped := chain.after 1
  rwa [chainAfter_succ, chainAfter_zero] at stepped

theorem ChainKey.messageKey {ck : Term} (chain : ChainKey honest ck) (count : Nat) :
    MessageKey honest (messageKeyAfter ck count) := by
  obtain ⟨rk, dhOut, n, hidden, rfl⟩ := chain
  refine ⟨rk, dhOut, n + count, hidden, ?_⟩
  rw [messageKeyAfter, messageKeyAfter, chainAfter_add]

theorem mem_keepNewest {s : SkippedKey} {keys : List SkippedKey} (member : s ∈ keepNewest keys) :
    s ∈ keys :=
  List.mem_of_mem_drop member

theorem Sound.afterSkip {state next : RatchetState} (sound : Sound honest state)
    {limit : JsNumber} {now : Nat} (skipped : skipUntil state limit now = .ok next) :
    Sound honest next := by
  rcases skipUntil_ok skipped with ⟨_, rfl⟩ | ⟨ckr, ck, chain, decoded, _, rfl⟩
  · exact sound
  · have chainKey : ChainKey honest ck := (sound.receiving ckr chain).apply decoded
    refine ⟨sound.root, sound.sending, ?_, ?_, by simp⟩
    · rintro _ ⟨⟩
      exact holds_toBase64 (chainKey.after _)
    · intro s member
      dsimp only at member
      rcases List.mem_append.mp (mem_keepNewest member) with old | new
      · exact sound.stored s old
      · obtain ⟨i, _, rfl⟩ := List.mem_map.mp new
        exact holds_toBase64 (chainKey.messageKey i)

theorem Sound.afterTurn {state next : RatchetState} (sound : Sound honest state)
    {header : RatchetHeader} {fresh : Nat} (turned : dhRatchet state header fresh = .ok next) :
    Sound honest next := by
  obtain ⟨theirs, rk, priv, first, second, _, rkEq, _, _, _, rfl⟩ := dhRatchet_ok turned
  have hidden : Secret honest rk := sound.root.apply rkEq
  have between : Secret honest (kdfRoot rk first).rk := (secret_kdfRoot hidden).1
  refine ⟨holds_toBase64 (secret_kdfRoot between).1, ?_, ?_, sound.stored, by simp⟩
  · rintro _ ⟨⟩
    exact holds_toBase64 (chainKey_kdfRoot between)
  · rintro _ ⟨⟩
    exact holds_toBase64 (chainKey_kdfRoot hidden)

theorem Sound.afterFollow {state next : RatchetState} (sound : Sound honest state)
    {header : RatchetHeader} {now fresh : Nat}
    (followed : followHeader state header now fresh = .ok next) : Sound honest next := by
  rcases followHeader_ok followed with ⟨_, closed, skipped, turned⟩ | ⟨_, _, rfl⟩
  · exact (sound.afterSkip skipped).afterTurn turned
  · exact sound

theorem sound_initInitiator {sharedSecret ratchetPub : Term} (hidden : Secret honest sharedSecret)
    {dhs : Nat} {state : RatchetState}
    (started : initInitiator sharedSecret ratchetPub dhs = .ok state) : Sound honest state := by
  obtain ⟨out, _, rfl⟩ := initInitiator_ok started
  refine ⟨holds_toBase64 (secret_kdfRoot hidden).1, ?_, by simp, by simp, by simp⟩
  rintro _ ⟨⟩
  exact holds_toBase64 (chainKey_kdfRoot hidden)

theorem sound_initResponder {sharedSecret : Term} (hidden : Secret honest sharedSecret)
    (ratchetPriv ratchetPub : Term) :
    Sound honest (initResponder sharedSecret ratchetPriv ratchetPub) where
  root := holds_toBase64 hidden
  sending := by simp [initResponder]
  receiving := by simp [initResponder]
  stored := by simp [initResponder]
  idle := by simp [initResponder]

theorem Sound.afterEncrypt {state next : RatchetState} (sound : Sound honest state)
    {text : List UInt16} {ad : Term} {message : RatchetMessage}
    (sent : ratchetEncrypt state text ad = .ok (message, next)) : Sound honest next := by
  obtain ⟨cks, ck, chain, decoded, _, _, rfl⟩ := ratchetEncrypt_ok sent
  have chainKey : ChainKey honest ck := (sound.sending cks chain).apply decoded
  refine ⟨sound.root, ?_, sound.receiving, sound.stored, sound.idle⟩
  rintro _ ⟨⟩
  exact holds_toBase64 chainKey.next

/-- The key a sound state opens a frame with, and the state after it. -/
theorem Sound.afterDecrypt {state next : RatchetState} (sound : Sound honest state)
    {message : RatchetMessage} {ad : Term} {now fresh : Nat} {text : List UInt16}
    (ordinary : ¬NullKeyFrame state message ad)
    (opened : ratchetDecrypt state message ad now fresh = .ok (text, next)) :
    Sound honest next ∧ ∃ mk, MessageKey honest mk ∧ tryOpen mk message ad = .ok text := by
  rcases ratchetDecrypt_ok opened with ⟨held, mk, search, decoded, unlocked, rfl⟩ |
    ⟨_, followed, reached, ck, followedEq, reachedEq, decoded, unlocked, rfl⟩
  · have member : held ∈ state.skipped := List.mem_of_find?_eq_some search
    refine ⟨⟨sound.root, sound.sending, sound.receiving, fun s kept => ?_, fun none => ?_⟩, mk,
      (sound.stored held member).apply decoded, unlocked⟩
    · exact sound.stored s (List.mem_of_mem_eraseP kept)
    · simp [sound.idle none]
  · have soundFollowed : Sound honest followed := sound.afterFollow followedEq
    have soundReached : Sound honest reached := soundFollowed.afterSkip reachedEq
    cases chain : reached.ckr with
    | none =>
        -- only an idle state whose frame names the stored key gets here without a chain
        exfalso
        rcases skipUntil_ok reachedEq with ⟨noChain, rfl⟩ | ⟨_, _, _, _, _, rfl⟩
        · rcases followHeader_ok followedEq with ⟨_, closed, _, turned⟩ | ⟨same, reachable, rfl⟩
          · obtain ⟨_, _, _, _, _, _, _, _, _, _, rfl⟩ := dhRatchet_ok turned
            simp at chain
          · rw [noChain, fromBase64_null, Except.ok.injEq] at decoded
            subst decoded
            obtain ⟨plaintext, sealed, _⟩ := tryOpen_ok.mp unlocked
            exact ordinary ⟨noChain, same, reachable, plaintext, sealed⟩
        · simp at chain
    | some ckr =>
        rw [chain] at decoded
        have chainKey : ChainKey honest ck := (soundReached.receiving ckr chain).apply decoded
        refine ⟨⟨soundReached.root, soundReached.sending, ?_, soundReached.stored, by simp⟩,
          (kdfChain ck).mk, chainKey.messageKey 0, unlocked⟩
        rintro _ ⟨⟩
        exact holds_toBase64 chainKey.next

end

/-- The states of one party: started from a secret, then changed by the frames it seals
and by the frames `allowed` that it opens. -/
inductive Reached (honest : Nat → Prop)
    (allowed : RatchetState → RatchetMessage → Term → Prop) : RatchetState → Prop
  | initiator {sharedSecret ratchetPub dhs state} : Secret honest sharedSecret →
      initInitiator sharedSecret ratchetPub dhs = .ok state → Reached honest allowed state
  | responder {sharedSecret ratchetPriv ratchetPub} : Secret honest sharedSecret →
      Reached honest allowed (initResponder sharedSecret ratchetPriv ratchetPub)
  | encrypt {state next text ad message} : Reached honest allowed state →
      ratchetEncrypt state text ad = .ok (message, next) → Reached honest allowed next
  | decrypt {state next message ad now fresh text} : Reached honest allowed state →
      allowed state message ad → ratchetDecrypt state message ad now fresh = .ok (text, next) →
      Reached honest allowed next

theorem Reached.sound {honest : Nat → Prop} {state : RatchetState}
    (reached : Reached honest (fun state message ad => ¬NullKeyFrame state message ad) state) :
    Sound honest state := by
  induction reached with
  | initiator hidden started => exact sound_initInitiator hidden started
  | responder hidden => exact sound_initResponder hidden _ _
  | encrypt _ sent ih => exact ih.afterEncrypt sent
  | decrypt _ ordinary opened ih => exact (ih.afterDecrypt ordinary opened).1

/-- `ratchetDecrypt` succeeds only with a message key of a chain that `kdfRoot` began from a
secret root key, and a state without a receiving chain rejects frames of the stored `dhr`. -/
structure Authentic (honest : Nat → Prop) (state : RatchetState) (message : RatchetMessage)
    (ad : Term) : Prop where
  keyed : ∀ now fresh text next, ratchetDecrypt state message ad now fresh = .ok (text, next) →
    ∃ mk plaintext, MessageKey honest mk ∧ message.ciphertext =
      .aead (cipherParams mk).key (cipherParams mk).iv plaintext
        (concatBytes [ad, headerBytes message.header])
  unopened : state.ckr = none → some message.header.dh = state.dhr →
    ∀ now fresh result, ratchetDecrypt state message ad now fresh ≠ .ok result

theorem Sound.opens_nullKeyFrame {honest : Nat → Prop} {state : RatchetState}
    (sound : Sound honest state) {message : RatchetMessage} {ad : Term}
    (null : NullKeyFrame state message ad) (now fresh : Nat) :
    ∃ result, ratchetDecrypt state message ad now fresh = .ok result := by
  obtain ⟨noChain, same, reachable, plaintext, sealed⟩ := null
  have followed : followHeader state message.header now fresh = .ok state := by
    simp [followHeader, same, not_lt.mpr reachable]
  have unlocked := tryOpen_ok.mpr ⟨plaintext, sealed, rfl⟩
  refine ⟨(utf8Decode plaintext, { state with
    ckr := some (toBase64 (kdfChain (.bytes [0x9E, 0xE9, 0x65])).ck), nr := state.nr + 1 }), ?_⟩
  simp only [ratchetDecrypt, sound.idle noChain, List.find?_nil, followed, noChain,
    fromBase64_null, unlocked, skipUntil_none noChain, bind, Except.bind, pure, Except.pure]

theorem Sound.authentic_iff {honest : Nat → Prop} {state : RatchetState}
    (sound : Sound honest state) {message : RatchetMessage} {ad : Term} :
    Authentic honest state message ad ↔ ¬NullKeyFrame state message ad := by
  constructor
  · intro authentic null
    obtain ⟨result, opened⟩ := sound.opens_nullKeyFrame null 0 0
    exact authentic.unopened null.1 null.2.1 0 0 result opened
  · intro ordinary
    refine ⟨fun now fresh text next opened => ?_, fun noChain same now fresh result opened => ?_⟩
    · obtain ⟨_, mk, key, unlocked⟩ := sound.afterDecrypt ordinary opened
      obtain ⟨plaintext, sealed, _⟩ := tryOpen_ok.mp unlocked
      exact ⟨mk, plaintext, key, sealed⟩
    · rcases ratchetDecrypt_ok opened with ⟨held, _, search, _⟩ |
        ⟨_, followed, reached, ck, followedEq, reachedEq, decoded, unlocked, _⟩
      · simp [sound.idle noChain] at search
      · rcases followHeader_ok followedEq with ⟨turn, _⟩ | ⟨_, reachable, rfl⟩
        · exact turn same
        · rw [skipUntil_none noChain, Except.ok.injEq] at reachedEq
          subst reachedEq
          rw [noChain, fromBase64_null, Except.ok.injEq] at decoded
          subst decoded
          obtain ⟨plaintext, sealed, _⟩ := tryOpen_ok.mp unlocked
          exact ordinary ⟨noChain, same, reachable, plaintext, sealed⟩

/-- An initiator that has had no reply, its peer's signed prekey being key 1. -/
def waiting : RatchetState where
  dhsPriv := toBase64 (.secret 2)
  dhsPub := toBase64 (.pub 2)
  dhr := some (toBase64 (.pub 1))
  rk := toBase64 (kdfRoot (.shared 0 1) (.shared 1 2)).rk
  cks := some (toBase64 (kdfRoot (.shared 0 1) (.shared 1 2)).ck)
  ckr := none
  ns := 0
  nr := 0
  pn := 0
  skipped := []

/-- A frame made from the public signed prekey and the bytes of `atob(null)`. -/
def forged : RatchetMessage where
  header := { dh := toBase64 (.pub 1), pn := 0, n := 0 }
  ciphertext := .aead (cipherParams (kdfChain (.bytes [0x9E, 0xE9, 0x65])).mk).key
    (cipherParams (kdfChain (.bytes [0x9E, 0xE9, 0x65])).mk).iv (utf8Encode [0x68, 0x69])
    (concatBytes [.text "", headerBytes { dh := toBase64 (.pub 1), pn := 0, n := 0 }])

theorem waiting_started :
    Secret (fun name => name ≤ 2) (.shared 0 1) ∧
      initInitiator (.shared 0 1) (.pub 1) 2 = .ok waiting :=
  ⟨(secret_shared (a := 0) (b := 1)).mpr ⟨Nat.zero_le _, Nat.le_succ _⟩, rfl⟩

theorem forged_frame_opened :
    Reached (fun name => name ≤ 2) (fun _ _ _ => True) waiting ∧
      Derives (fun t => t = .pub 1) forged.ciphertext ∧
      ¬Authentic (fun name => name ≤ 2) waiting forged (.text "") := by
  obtain ⟨hidden, started⟩ := waiting_started
  have nullKey : Derives (fun t => t = .pub 1) (kdfChain (.bytes [0x9E, 0xE9, 0x65])).mk :=
    .hmac (.bytes _) (.bytes _)
  have okm : Derives (fun t => t = .pub 1)
      (.hkdf (kdfChain (.bytes [0x9E, 0xE9, 0x65])).mk (.bytes []) INFO_MESSAGE 44) :=
    .hkdf nullKey (.bytes [])
  have header : Derives (fun t => t = .pub 1) (headerBytes forged.header) :=
    .cat (.text _) (.cat (.known rfl) (.text _))
  refine ⟨.initiator hidden started, ?_, fun authentic => ?_⟩
  · exact .encrypt (.slice okm) (.slice okm) (.bytes _) (.cat (.text _) header)
  · have null : NullKeyFrame waiting forged (.text "") :=
      ⟨rfl, rfl, by simp [waiting, forged], _, rfl⟩
    exact (sound_initInitiator hidden started).authentic_iff.mp authentic null

/-- In every run that opens no such frame, a frame is authenticated exactly when it is none. -/
theorem reached_authentic_iff (honest : Nat → Prop) (state : RatchetState)
    (reached : Reached honest (fun state message ad => ¬NullKeyFrame state message ad) state)
    (message : RatchetMessage) (ad : Term) :
    Authentic honest state message ad ↔ ¬NullKeyFrame state message ad :=
  reached.sound.authentic_iff

theorem reached_authentic_iff_waiting :
    Reached (fun name => name ≤ 2) (fun state message ad => ¬NullKeyFrame state message ad)
      waiting ∧
      (Authentic (fun name => name ≤ 2) waiting forged (.text "a") ↔
        ¬NullKeyFrame waiting forged (.text "a")) := by
  have reached : Reached (fun name => name ≤ 2)
      (fun state message ad => ¬NullKeyFrame state message ad) waiting :=
    .initiator waiting_started.1 waiting_started.2
  exact ⟨reached, reached_authentic_iff _ _ reached forged (.text "a")⟩

end RatchetSecrecy
