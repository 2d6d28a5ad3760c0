import CipherChat.Wire.Aad

/-!
What `seal` makes of a text is opened to that text, is bound to where it was sent, and shows
the length of the text in buckets only.
-/

namespace Sealing

open Symbolic Number Primitives KeyStore Session Envelope
open Aad (codes)

/-- The two ends of a session. -/
structure Agree (mine theirs : StoredSession) : Prop where
  sessionId : mine.sessionId = theirs.sessionId
  roles : mine.role ≠ theirs.role
  init : ∃ root, fromBase64 mine.ckInit = .ok root ∧ fromBase64 theirs.ckInit = .ok root
  resp : ∃ root, fromBase64 mine.ckResp = .ok root ∧ fromBase64 theirs.ckResp = .ok root

/-- A text without lone surrogates. -/
def WellFormed (text : List UInt16) : Prop :=
  ∃ scalars : List Nat, (∀ p ∈ scalars, Utf.Scalar p) ∧ text = scalars.flatMap Utf.unitsOf

/-- How many buckets a text is padded to. -/
def buckets (text : List UInt16) : Nat :=
  ((Utf.encode text).length + 2 + (PAD_BUCKET - 1)) / PAD_BUCKET

/-- No other two ids are spelt the same in the associated data.  UUIDs are such ids. -/
def Unambiguous (conversationId senderId : String) : Prop :=
  ∀ conversationId' senderId' : String,
    conversationId' ++ "\",\"senderId\":\"" ++ senderId' =
        conversationId ++ "\",\"senderId\":\"" ++ senderId →
      conversationId' = conversationId ∧ senderId' = senderId

section Padding

theorem pad_ok {text : List UInt16} (short : (Utf.encode text).length ≤ 0xFFFF) :
    ∃ zeros, pad text = .ok (.bytes (UInt8.ofNat ((Utf.encode text).length / 256) ::
        UInt8.ofNat ((Utf.encode text).length % 256) :: (Utf.encode text ++ zeros))) ∧
      (Utf.encode text).length + 2 + zeros.length = PAD_BUCKET * buckets text := by
  refine ⟨List.replicate (max PAD_BUCKET (((Utf.encode text).length + 2 + (PAD_BUCKET - 1)) /
    PAD_BUCKET * PAD_BUCKET) - ((Utf.encode text).length + 2)) 0, ?_, ?_⟩
  · rw [pad]
    simp only [gt_iff_lt, not_lt.mpr short, if_false, List.cons_append]
  · simp only [List.length_replicate, buckets, PAD_BUCKET]
    omega

theorem unpad_padded {body zeros : List UInt8} (short : body.length ≤ 0xFFFF) :
    unpad (.bytes (UInt8.ofNat (body.length / 256) :: UInt8.ofNat (body.length % 256) ::
      (body ++ zeros))) = .ok (Utf.decode body) := by
  have length : (UInt8.ofNat (body.length / 256)).toNat * 256 +
      (UInt8.ofNat (body.length % 256)).toNat = body.length := by
    simp only [UInt8.toNat_ofNat']
    omega
  simp only [unpad, length, List.length_append]
  rw [if_neg (by omega), List.take_left' rfl, utf8Decode]

theorem decode_marked {scalars : List Nat} (valid : ∀ p ∈ scalars, Utf.Scalar p) :
    Utf.decode (Utf.encode ((0xFEFF :: scalars).flatMap Utf.unitsOf)) =
      scalars.flatMap Utf.unitsOf := by
  have all : ∀ p ∈ 0xFEFF :: scalars, Utf.Scalar p := by
    intro p member
    rcases List.mem_cons.mp member with rfl | later
    · exact .inr (by omega)
    · exact valid p later
  rw [Utf.encode, Utf.points_flatMap all, List.flatMap_cons]
  have mark : Utf.encodePoint 0xFEFF = [0xEF, 0xBB, 0xBF] := by decide
  rw [mark, Utf.decode]
  change (Utf.decodeFrom none (scalars.flatMap Utf.encodePoint)).flatMap Utf.unitsOf = _
  rw [Utf.decodeFrom_flatMap valid]

theorem head_unitsOf {p : Nat} (scalar : Utf.Scalar p) (rest : List UInt16) :
    (Utf.unitsOf p ++ rest).head? = some 0xFEFF ↔ p = 0xFEFF := by
  unfold Utf.Scalar at scalar
  have whole : ∀ n, n < 0x10000 → (UInt16.ofNat n = 0xFEFF ↔ n = 0xFEFF) := by
    intro n small
    rw [← UInt16.toNat_inj, UInt16.toNat_ofNat']
    change n % 65536 = 65279 ↔ n = 65279
    omega
  unfold Utf.unitsOf
  by_cases small : p < 0x10000
  · simp only [small, if_true, List.cons_append, List.head?_cons, Option.some.injEq]
    exact whole p small
  · simp only [small, if_false, List.cons_append, List.head?_cons, Option.some.injEq]
    rw [whole _ (by omega)]
    omega

/-- The decoder takes a byte order mark in front for no part of the text. -/
theorem decode_encode_iff {text : List UInt16} (wellFormed : WellFormed text) :
    Utf.decode (Utf.encode text) = text ↔ text.head? ≠ some 0xFEFF := by
  obtain ⟨scalars, valid, rfl⟩ := wellFormed
  cases scalars with
  | nil => decide
  | cons p rest =>
      have later : ∀ q ∈ rest, Utf.Scalar q := fun q member => valid q (by simp [member])
      rw [List.flatMap_cons, ne_eq, head_unitsOf (valid p (by simp))]
      by_cases marked : p = 0xFEFF
      · subst marked
        rw [← List.flatMap_cons, decode_marked later, List.flatMap_cons]
        simp only [not_true, iff_false]
        intro same
        have lengths := congrArg List.length same
        simp [Utf.unitsOf] at lengths
      · simp only [marked, not_false_eq_true, iff_true]
        exact Utf.decode_encode ⟨p :: rest, valid, by simpa using marked, rfl⟩

end Padding

/-- `seal` gave the envelope for the text, and the session opens it so and only so. -/
structure Carries (mine theirs : StoredSession) (conversationId senderId : String)
    (text : List UInt16) (envelope : WireEnvelope) : Prop where
  opened : Envelope.open theirs conversationId senderId envelope = .ok text
  openedOwn : openOwn mine conversationId senderId envelope = .ok text
  /-- Its ciphertext opens nowhere else. -/
  bound : ∀ conversationId' senderId' (envelope' : WireEnvelope) text',
    IsDouble envelope'.ctr → fromBase64 envelope'.ct = fromBase64 envelope.ct →
    Envelope.open theirs conversationId' senderId' envelope' = .ok text' →
      conversationId' = conversationId ∧ senderId' = senderId ∧
        envelope'.sessionId = envelope.sessionId ∧ envelope'.ctr = envelope.ctr
  /-- What no honest party sealed does not open, when the chain is secret. -/
  unforged : ∀ honest sealed signed root conversationId' senderId' (envelope' : WireEnvelope) ct
      text', receiveChainRoot theirs = .ok root → Secret honest root →
    fromBase64 envelope'.ct = .ok ct → Public honest sealed signed ct →
    Envelope.open theirs conversationId' senderId' envelope' = .ok text' → sealed ct
  bucketed : ∀ (libraries : Wire.Libraries) ct, fromBase64 envelope.ct = .ok ct →
    (libraries.bytes ct).length = PAD_BUCKET * buckets text + 16 ∧
      (libraries.text envelope.ct).length = (PAD_BUCKET * buckets text + 18) / 3 * 4

section Opening

theorem Agree.chain {mine theirs : StoredSession} (agree : Agree mine theirs) :
    ∃ root, sendChainRoot mine = .ok root ∧ receiveChainRoot theirs = .ok root := by
  obtain ⟨init, mineInit, theirsInit⟩ := agree.init
  obtain ⟨resp, mineResp, theirsResp⟩ := agree.resp
  have roles := agree.roles
  simp only [sendChainRoot, receiveChainRoot]
  cases mineRole : mine.role <;> cases theirsRole : theirs.role <;>
    simp_all

theorem openWith_ok {chainRoot : StoredSession → Except JsError Term} {session : StoredSession}
    {conversationId senderId : String} {envelope : WireEnvelope} {text : List UInt16} :
    openWith chainRoot session conversationId senderId envelope = .ok text ↔
      envelope.v = 1 ∧ envelope.sessionId = session.sessionId ∧ ∃ root padded,
        chainRoot session = .ok root ∧ fromBase64 envelope.ct = .ok (.aead
          (messageKeyAt root envelope.ctr).key (messageKeyAt root envelope.ctr).iv padded
          (buildAad conversationId senderId envelope.sessionId envelope.ctr)) ∧
        unpad padded = .ok text := by
  unfold openWith
  by_cases version : envelope.v ≠ 1
  · simp [version, bind_eq_ok, throw_eq_ok]
  by_cases other : envelope.sessionId ≠ session.sessionId
  · simp [version, other, bind_eq_ok, throw_eq_ok]
  rw [if_neg version, if_neg other]
  simp only [bind_eq_ok, aesGcmDecrypt_eq_ok, not_not.mp version, not_not.mp other,
    true_and]
  constructor
  · rintro ⟨root, isRoot, ct, isCt, padded, rfl, isText⟩
    exact ⟨root, padded, isRoot, isCt, isText⟩
  · rintro ⟨root, padded, isRoot, isCt, isText⟩
    exact ⟨root, isRoot, _, isCt, padded, rfl, isText⟩

theorem secret_messageKey {honest : Nat → Prop} {root : Term} (hidden : Secret honest root)
    (n : JsNumber) : Secret honest (messageKeyAt root n).key := by
  have chain : ∀ n, Secret honest (chainAt root n) := by
    intro n
    induction n with
    | zero => exact hidden
    | succ n ih =>
        have step : chainAt root (n + 1) = hmacSha256 (chainAt root n) CHAIN_STEP := by
          simp only [chainAt, Function.iterate_succ_apply']
        simp [step, hmacSha256, ih]
  simp [messageKeyAt, hkdfSha256, chain]

theorem regroup (a b c d e f g h i : String) :
    a ++ b ++ c ++ d ++ e ++ f ++ g ++ h ++ i = a ++ (b ++ c ++ d) ++ (e ++ f ++ (g ++ h ++ i)) := by
  simp only [String.append_assoc]

/-- The two ids are what the associated data may leave open. -/
theorem aadText_eq_iff {conversationId senderId conversationId' senderId' sessionId : String}
    {ctr ctr' : JsNumber} (isCtr : IsDouble ctr) (isCtr' : IsDouble ctr') :
    aadText conversationId' senderId' sessionId ctr' =
        aadText conversationId senderId sessionId ctr ↔
      conversationId' ++ "\",\"senderId\":\"" ++ senderId' =
        conversationId ++ "\",\"senderId\":\"" ++ senderId ∧ ctr' = ctr := by
  have parts : ∀ conversationId senderId ctr, aadText conversationId senderId sessionId ctr =
      "\x7b\"v\":1,\"conversationId\":\"" ++ (conversationId ++ "\",\"senderId\":\"" ++ senderId) ++
        ("\",\"sessionId\":\"" ++ sessionId ++ ("\",\"ctr\":" ++ Number.text ctr ++ "\x7d")) :=
    fun _ _ _ => regroup _ _ _ _ _ _ _ _ _
  have codesOf : ∀ conversationId senderId ctr, codes (aadText conversationId senderId sessionId ctr) =
      (codes "\x7b\"v\":1,\"conversationId\":\"" ++
        (codes (conversationId ++ "\",\"senderId\":\"" ++ senderId) ++
          codes ("\",\"sessionId\":\"" ++ sessionId))) ++
        codes ("\",\"ctr\":" ++ Number.text ctr ++ "\x7d") := by
    intro conversationId senderId ctr
    rw [parts]
    simp only [Aad.codes_append, List.append_assoc]
  constructor
  · intro same
    have same := congrArg codes same
    rw [codesOf, codesOf] at same
    obtain ⟨ids, counters⟩ := Aad.split_counter isCtr' isCtr same
    exact ⟨Aad.codes_injective (List.append_cancel_right (List.append_cancel_left ids)), counters⟩
  · rintro ⟨ids, rfl⟩
    rw [parts, parts, ids]

/-- Ids without quotation marks, as UUIDs are, leave nothing open. -/
theorem unambiguous_of_unquoted {conversationId senderId : String}
    (unquoted : '"' ∉ conversationId.toList) (unquoted' : '"' ∉ senderId.toList) :
    Unambiguous conversationId senderId := by
  intro conversationId' senderId' same
  have lists : conversationId'.toList ++ ("\",\"senderId\":\"".toList ++ senderId'.toList) =
      conversationId.toList ++ ("\",\"senderId\":\"".toList ++ senderId.toList) := by
    have equal := congrArg String.toList same
    simpa only [String.toList_append, List.append_assoc] using equal
  have counts := congrArg (List.count '"') lists
  simp only [List.count_append, List.count_eq_zero.mpr unquoted, List.count_eq_zero.mpr unquoted']
    at counts
  have free : '"' ∉ conversationId'.toList := List.count_eq_zero.mp (by omega)
  have shape : "\",\"senderId\":\"".toList = '"' :: ",\"senderId\":\"".toList := by decide
  rw [shape, List.cons_append, List.cons_append] at lists
  rcases List.append_eq_append_iff.mp lists with ⟨more, isId, rest⟩ | ⟨more, isId, rest⟩
  · cases more with
    | nil =>
        simp only [List.append_nil] at isId
        simp only [List.nil_append, List.cons.injEq, true_and] at rest
        exact ⟨String.toList_injective isId.symm,
          String.toList_injective (List.append_cancel_left rest)⟩
    | cons c cs =>
        have first : '"' = c := (List.cons.inj rest).1
        subst first
        exact absurd (isId ▸ by simp) unquoted
  · cases more with
    | nil =>
        simp only [List.append_nil] at isId
        simp only [List.nil_append, List.cons.injEq, true_and] at rest
        exact ⟨String.toList_injective isId, String.toList_injective (List.append_cancel_left rest).symm⟩
    | cons c cs =>
        have first : '"' = c := (List.cons.inj rest).1
        subst first
        exact absurd (isId ▸ by simp) free

end Opening

section Sealed

/-- The length of a text in two bytes, the text, and what fills the last bucket. -/
def padded (text : List UInt16) (zeros : List UInt8) : List UInt8 :=
  UInt8.ofNat ((Utf.encode text).length / 256) :: UInt8.ofNat ((Utf.encode text).length % 256) ::
    (Utf.encode text ++ zeros)

/-- The envelope of a padded text, under the chain that starts at `root`. -/
def sealedUnder (root : Term) (sessionId conversationId senderId : String) (ctr : Nat)
    (text : List UInt16) (zeros : List UInt8) (init : Option Init) : WireEnvelope where
  v := 1
  sessionId := sessionId
  ctr := ctr
  ct := toBase64 (.aead (messageKeyAt root ctr).key (messageKeyAt root ctr).iv
    (.bytes (padded text zeros)) (buildAad conversationId senderId sessionId ctr))
  init := if ctr = 0 then init else none

variable {conversationId senderId conversationId' senderId' : String} {ctr : Nat}
  {text : List UInt16} {zeros : List UInt8} {init : Option Init} {root : Term}

theorem seal_ok {mine : StoredSession} (isRoot : sendChainRoot mine = .ok root)
    (short : (Utf.encode text).length ≤ 0xFFFF) :
    ∃ zeros, «seal» mine conversationId senderId ctr text init =
        .ok (sealedUnder root mine.sessionId conversationId senderId ctr text zeros init) ∧
      (padded text zeros).length = PAD_BUCKET * buckets text := by
  obtain ⟨zeros, isPadded, length⟩ := pad_ok short
  refine ⟨zeros, ?_, ?_⟩
  · simp [«seal», isRoot, isPadded, aesGcmEncrypt, bind, Except.bind, pure, Except.pure,
      sealedUnder, padded]
  · simp only [padded, List.length_cons, List.length_append]
    omega

/-- Either end opens it to the text as the decoder gives it back. -/
theorem opens_sealed {chainRoot : StoredSession → Except JsError Term} {session : StoredSession}
    (isRoot : chainRoot session = .ok root) (short : (Utf.encode text).length ≤ 0xFFFF)
    (isCtr : IsDouble ctr)
    (ids : conversationId' ++ "\",\"senderId\":\"" ++ senderId' =
      conversationId ++ "\",\"senderId\":\"" ++ senderId) :
    openWith chainRoot session conversationId' senderId'
        (sealedUnder root session.sessionId conversationId senderId ctr text zeros init) =
      .ok (Utf.decode (Utf.encode text)) := by
  have aads : buildAad conversationId senderId session.sessionId ctr =
      buildAad conversationId' senderId' session.sessionId ctr :=
    congrArg Term.text ((aadText_eq_iff isCtr isCtr).mpr ⟨ids.symm, rfl⟩)
  refine openWith_ok.mpr ⟨rfl, rfl, root, .bytes (padded text zeros), isRoot, ?_,
    unpad_padded short⟩
  simp only [sealedUnder, fromBase64_toBase64, aads]

/-- Where it opens, the ids are spelt as they were and the rest is the same. -/
theorem bound_sealed {session : StoredSession} (isCtr : IsDouble ctr) {envelope : WireEnvelope}
    {text' : List UInt16} (isCtr' : IsDouble envelope.ctr)
    (sameText : fromBase64 envelope.ct = fromBase64
      (sealedUnder root session.sessionId conversationId senderId ctr text zeros init).ct)
    (opened : Envelope.open session conversationId' senderId' envelope = .ok text') :
    conversationId' ++ "\",\"senderId\":\"" ++ senderId' =
        conversationId ++ "\",\"senderId\":\"" ++ senderId ∧
      envelope.sessionId = session.sessionId ∧ envelope.ctr = ctr := by
  obtain ⟨_, sessionId, root', padded', _, isCt, _⟩ := openWith_ok.mp opened
  rw [isCt, sealedUnder, fromBase64_toBase64, Except.ok.injEq, Term.aead.injEq] at sameText
  obtain ⟨_, _, _, aads⟩ := sameText
  rw [sessionId] at aads
  obtain ⟨ids, counters⟩ := (aadText_eq_iff isCtr isCtr').mp (Term.text.inj aads)
  exact ⟨ids, sessionId, counters⟩

theorem unforged_opened {honest : Nat → Prop} {sealed : Term → Prop} {signed : Nat → Term → Prop}
    {session : StoredSession} {envelope : WireEnvelope} {ct : Term} {text' : List UInt16}
    (isRoot : receiveChainRoot session = .ok root) (hidden : Secret honest root)
    (isCt : fromBase64 envelope.ct = .ok ct) (isPublic : Public honest sealed signed ct)
    (opened : Envelope.open session conversationId' senderId' envelope = .ok text') : sealed ct := by
  obtain ⟨_, _, root', padded', isRoot', isAead, _⟩ := openWith_ok.mp opened
  rw [isRoot, Except.ok.injEq] at isRoot'
  rw [isCt, Except.ok.injEq] at isAead
  subst isRoot' isAead
  exact isPublic.sealed_of_secret (secret_messageKey hidden _)

theorem bucketed_sealed (libraries : Wire.Libraries) {sessionId : String} {ct : Term}
    (length : (padded text zeros).length = PAD_BUCKET * buckets text)
    (isCt : fromBase64 (sealedUnder root sessionId conversationId senderId ctr text zeros init).ct =
      .ok ct) :
    (libraries.bytes ct).length = PAD_BUCKET * buckets text + 16 ∧
      (libraries.text (sealedUnder root sessionId conversationId senderId ctr text zeros
        init).ct).length = (PAD_BUCKET * buckets text + 18) / 3 * 4 := by
  rw [sealedUnder, fromBase64_toBase64, Except.ok.injEq] at isCt
  have count : (libraries.bytes ct).length = PAD_BUCKET * buckets text + 16 := by
    rw [← isCt, libraries.length_aead, libraries.bytes_data, length]
  refine ⟨count, ?_⟩
  rw [sealedUnder, isCt, Wire.text_toBase64, Wire.length_btoa, count]

end Sealed

section Law

variable {mine theirs : StoredSession} {conversationId senderId : String} {ctr : Nat}
  {text : List UInt16} {zeros : List UInt8} {init : Option Init} {root : Term}

/-- What the envelope of `seal` is when either end reads the text back. -/
theorem carries_sealed (agree : Agree mine theirs) (mineRoot : sendChainRoot mine = .ok root)
    (theirsRoot : receiveChainRoot theirs = .ok root) (isCtr : IsDouble ctr)
    (short : (Utf.encode text).length ≤ 0xFFFF)
    (length : (padded text zeros).length = PAD_BUCKET * buckets text)
    (survives : Utf.decode (Utf.encode text) = text)
    (unambiguous : Unambiguous conversationId senderId) :
    Carries mine theirs conversationId senderId text
      (sealedUnder root mine.sessionId conversationId senderId ctr text zeros init) where
  opened := by
    have read : openWith receiveChainRoot theirs conversationId senderId
        (sealedUnder root theirs.sessionId conversationId senderId ctr text zeros init) =
          .ok (Utf.decode (Utf.encode text)) := opens_sealed theirsRoot short isCtr (Eq.refl _)
    rw [agree.sessionId, Envelope.open, read, survives]
  openedOwn := by
    have read : openWith sendChainRoot mine conversationId senderId
        (sealedUnder root mine.sessionId conversationId senderId ctr text zeros init) =
          .ok (Utf.decode (Utf.encode text)) := opens_sealed mineRoot short isCtr (Eq.refl _)
    rw [openOwn, read, survives]
  bound := by
    intro conversationId' senderId' envelope' text' isCtr' sameText opened
    rw [agree.sessionId] at sameText
    obtain ⟨ids, sessionId, counters⟩ := bound_sealed isCtr isCtr' sameText opened
    obtain ⟨conversation, sender⟩ := unambiguous _ _ ids
    exact ⟨conversation, sender, sessionId.trans agree.sessionId.symm, counters⟩
  unforged := by
    intro honest sealed signed root' conversationId' senderId' envelope' ct text' isRoot hidden
      isCt isPublic opened
    exact unforged_opened isRoot hidden isCt isPublic opened
  bucketed := by
    intro libraries ct isCt
    exact bucketed_sealed libraries length isCt

theorem of_carries (agree : Agree mine theirs) (mineRoot : sendChainRoot mine = .ok root)
    (theirsRoot : receiveChainRoot theirs = .ok root) (isCtr : IsDouble ctr)
    (short : (Utf.encode text).length ≤ 0xFFFF)
    (carries : Carries mine theirs conversationId senderId text
      (sealedUnder root mine.sessionId conversationId senderId ctr text zeros init)) :
    Utf.decode (Utf.encode text) = text ∧ Unambiguous conversationId senderId := by
  constructor
  · have read : openWith sendChainRoot mine conversationId senderId
        (sealedUnder root mine.sessionId conversationId senderId ctr text zeros init) =
          .ok (Utf.decode (Utf.encode text)) := opens_sealed mineRoot short isCtr (Eq.refl _)
    have opened := carries.openedOwn
    rw [openOwn, read, Except.ok.injEq] at opened
    exact opened
  · intro conversationId' senderId' ids
    have elsewhere : openWith receiveChainRoot theirs conversationId' senderId'
        (sealedUnder root theirs.sessionId conversationId senderId ctr text zeros init) =
          .ok (Utf.decode (Utf.encode text)) := opens_sealed theirsRoot short isCtr ids
    rw [← agree.sessionId] at elsewhere
    obtain ⟨conversation, sender, _⟩ := carries.bound conversationId' senderId'
      (sealedUnder root mine.sessionId conversationId senderId ctr text zeros init) _ isCtr
      (Eq.refl _) elsewhere
    exact ⟨conversation, sender⟩

end Law

/-- For a well-formed text that fits, an envelope is what it should be exactly when the text
begins with no byte order mark and the ids cannot be mistaken for others. -/
theorem seal_carries_iff (mine theirs : StoredSession) (conversationId senderId : String)
    (ctr : Nat) (text : List UInt16) (init : Option Init) (agree : Agree mine theirs)
    (isCtr : IsDouble ctr) (wellFormed : WellFormed text)
    (short : (Utf.encode text).length ≤ 0xFFFF) :
    (∃ envelope, «seal» mine conversationId senderId ctr text init = .ok envelope ∧
        Carries mine theirs conversationId senderId text envelope) ↔
      text.head? ≠ some 0xFEFF ∧ Unambiguous conversationId senderId := by
  obtain ⟨root, mineRoot, theirsRoot⟩ := agree.chain
  obtain ⟨zeros, isSealed, length⟩ : ∃ zeros, «seal» mine conversationId senderId ctr text init =
      .ok (sealedUnder root mine.sessionId conversationId senderId ctr text zeros init) ∧
        (padded text zeros).length = PAD_BUCKET * buckets text := seal_ok mineRoot short
  rw [← decode_encode_iff wellFormed]
  constructor
  · rintro ⟨envelope, gave, carries⟩
    rw [isSealed, Except.ok.injEq] at gave
    subst gave
    exact of_carries agree mineRoot theirsRoot isCtr short carries
  · rintro ⟨survives, unambiguous⟩
    exact ⟨_, isSealed, carries_sealed agree mineRoot theirsRoot isCtr short length survives
      unambiguous⟩

/-- A new session, as the end of that role keeps it. -/
def sessionOf (role : Role) : StoredSession where
  sessionId := Wire.uuid
  conversationId := Wire.uuid
  peerId := Wire.uuid
  role := role
  ckInit := toBase64 (.secret 0)
  ckResp := toBase64 (.secret 1)
  sendCtr := 0
  peerMaxCtr := -1
  createdAt := 0

theorem agree_sessionOf : Agree (sessionOf .init) (sessionOf .resp) where
  sessionId := rfl
  roles := by decide
  init := ⟨.secret 0, rfl, rfl⟩
  resp := ⟨.secret 1, rfl, rfl⟩

theorem unambiguous_uuid {conversationId senderId : String} (isId : Wire.Uuid conversationId)
    (isId' : Wire.Uuid senderId) : Unambiguous conversationId senderId := by
  have unquoted : ∀ id, Wire.Uuid id → '"' ∉ id.toList := by
    intro id isId member
    exact absurd (isId.2 _ member) (by decide)
  exact unambiguous_of_unquoted (unquoted _ isId) (unquoted _ isId')

theorem seal_carries_iff_hi :
    ∃ envelope, «seal» (sessionOf .init) Wire.uuid Wire.uuid (0 : ℕ) [0x68, 0x69] none = .ok envelope ∧
      Carries (sessionOf .init) (sessionOf .resp) Wire.uuid Wire.uuid [0x68, 0x69] envelope :=
  (seal_carries_iff (sessionOf .init) (sessionOf .resp) Wire.uuid Wire.uuid 0 [0x68, 0x69] none agree_sessionOf
    Aad.isDouble_zero ⟨[0x68, 0x69], by simp [Utf.Scalar], by decide⟩ (by decide)).mpr
    ⟨by decide, unambiguous_uuid Aad.uuid_uuid Aad.uuid_uuid⟩

/-- The same text behind a byte order mark. -/
theorem not_seal_carries :
    ¬∀ (mine theirs : StoredSession) (conversationId senderId : String) (ctr : Nat)
      (text : List UInt16) (init : Option Init), Wire.Uuid conversationId → Wire.Uuid senderId →
      Agree mine theirs → IsDouble ctr → WellFormed text → (Utf.encode text).length ≤ 0xFFFF →
      ∃ envelope, «seal» mine conversationId senderId ctr text init = .ok envelope ∧
        Carries mine theirs conversationId senderId text envelope := by
  intro claimed
  have wellFormed : WellFormed [0xFEFF, 0x68, 0x69] := ⟨[0xFEFF, 0x68, 0x69], by simp [Utf.Scalar], by decide⟩
  have short : (Utf.encode [0xFEFF, 0x68, 0x69]).length ≤ 0xFFFF := by decide
  obtain ⟨envelope, gave, carries⟩ := claimed (sessionOf .init) (sessionOf .resp) Wire.uuid Wire.uuid 0
    [0xFEFF, 0x68, 0x69] none Aad.uuid_uuid Aad.uuid_uuid agree_sessionOf Aad.isDouble_zero wellFormed
    short
  obtain ⟨root, mineRoot, theirsRoot⟩ := agree_sessionOf.chain
  obtain ⟨zeros, isSealed, length⟩ : ∃ zeros,
      «seal» (sessionOf .init) Wire.uuid Wire.uuid (0 : ℕ) [0xFEFF, 0x68, 0x69] none =
        .ok (sealedUnder root Wire.uuid Wire.uuid Wire.uuid 0 [0xFEFF, 0x68, 0x69] zeros none) ∧
      (padded [0xFEFF, 0x68, 0x69] zeros).length = PAD_BUCKET * buckets [0xFEFF, 0x68, 0x69] :=
    seal_ok mineRoot short
  have same := Except.ok.inj (gave.symm.trans isSealed)
  rw [same] at carries
  have survives := (of_carries agree_sessionOf mineRoot theirsRoot Aad.isDouble_zero short carries).1
  exact absurd survives (by decide)

end Sealing
