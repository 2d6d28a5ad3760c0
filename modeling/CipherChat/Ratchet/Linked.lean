import CipherChat.Ratchet.Pair

/-!
What one party's state says of the keys that both have drawn, and how skipping, turning and taking a
message key keep it.
-/

namespace RatchetPair

open Symbolic Number Primitives KeyStore DoubleRatchet EnvelopeV2

def header (envelope : WireEnvelopeV2) : RatchetHeader where
  dh := envelope.dh
  pn := envelope.pn
  n := envelope.n

/-- The state of the owner of ratchet key `j`, when `len i` messages were sealed on chain `i`. -/
structure Side (sk : Term) (key len : Nat → Nat) (j : Nat) (state : RatchetState) : Prop where
  dhsPriv : state.dhsPriv = toBase64 (.secret (key j))
  dhsPub : state.dhsPub = toBase64 (.pub (key j))
  dhr : state.dhr = if j = 0 then none else some (toBase64 (.pub (key (j - 1))))
  rk : state.rk = toBase64 (root sk key j)
  cks : state.cks = if j = 0 then none else some (toBase64 (chainAfter (chain sk key j) (len j)))
  ckr : state.ckr =
    if j ≤ 1 then none else some (toBase64 (chainAfter (chain sk key (j - 1)) state.nr))
  ns : state.ns = len j
  pn : state.pn = len (j - 2)
  idle : j ≤ 1 → state.nr = 0 ∧ state.skipped = []

/-- Message `n` of chain `i` lies behind a receiver that holds key `j` and expects message `nr`. -/
def Passed (j nr i n : Nat) : Prop :=
  i + 1 < j ∨ (i + 1 = j ∧ n < nr)

/-- A stored key is the one of a message of the peer's that was passed, and no message has two. -/
structure Receiver (sk : Term) (key len : Nat → Nat) (j : Nat) (state : RatchetState) : Prop where
  side : Side sk key len j state
  reached : 2 ≤ j → state.nr ≤ len (j - 1)
  stored : ∀ e ∈ state.skipped, ∃ i, 0 < i ∧ Passed j state.nr i e.n ∧
    e.dh = some (toBase64 (.pub (key i))) ∧
    e.mk = toBase64 (messageKeyAfter (chain sk key i) e.n) ∧ i % 2 ≠ j % 2 ∧ e.n < len i
  once : state.skipped.Pairwise fun e e' => ¬(e.dh = e'.dh ∧ e.n = e'.n)

/-- The ratchet keys up to number `m` are different ones. -/
def Distinct (key : Nat → Nat) (m : Nat) : Prop :=
  ∀ i ≤ m, ∀ i' ≤ m, key i = key i' → i = i'

def ciphertext (s : Setting) (mk : Term) (f : Flight) : Term :=
  .aead (cipherParams mk).key (cipherParams mk).iv (utf8Encode f.text)
    (concatBytes [aad s.conversationId (s.userId f.sender) s.sessionId f.envelope.ctr,
      headerBytes (header f.envelope)])

/-- The envelope of message `n` of chain `i`. -/
structure Genuine (s : Setting) (key len : Nat → Nat) (i n : Nat) (f : Flight) : Prop where
  some : 0 < i
  parity : i % 2 = if f.sender = .init then 1 else 0
  below : n < len i
  dh : f.envelope.dh = toBase64 (.pub (key i))
  pn : f.envelope.pn = (len (i - 2) : Nat)
  number : f.envelope.n = (n : Nat)
  sessionId : f.envelope.sessionId = s.sessionId
  ct : f.envelope.ct = toBase64 (ciphertext s (messageKeyAfter (chain (secret s) key i) n) f)

/-- What was opened has no key left, and what was passed without being opened has one. -/
structure Received (j : Nat) (state : RatchetState) (i n : Nat) (f : Flight) : Prop where
  opened : f.opened = true → Passed j state.nr i n ∧
    ∀ e ∈ state.skipped, isSkipped (header f.envelope) e = false
  held : f.opened = false → Passed j state.nr i n →
    ∃ e ∈ state.skipped, isSkipped (header f.envelope) e = true

section

variable {sk : Term} {key len : Nat → Nat} {j : Nat} {state : RatchetState}

/-- An envelope that has been opened. -/
theorem Received.gone {i n : Nat} {f : Flight} (isOpen : f.opened = true) (passed : Passed j state.nr i n)
    (noKey : ∀ e ∈ state.skipped, isSkipped (header f.envelope) e = false) : Received j state i n f where
  opened _ := ⟨passed, noKey⟩
  held unopened := by
    rw [isOpen] at unopened
    cases unopened

theorem Passed.mono {nr nr' i n : Nat} (passed : Passed j nr i n) (more : nr ≤ nr') :
    Passed j nr' i n := by
  rcases passed with early | ⟨here, below⟩
  · exact .inl early
  · exact .inr ⟨here, by omega⟩

theorem isSkipped_iff {h : RatchetHeader} {e : SkippedKey} :
    isSkipped h e = true ↔ e.dh = some h.dh ∧ (e.n : JsNumber) = h.n := by
  simp [isSkipped]

/-- A stored key fits an envelope when it is the key of that very message. -/
theorem isSkipped_genuine {s : Setting} {i n : Nat} {f : Flight} (genuine : Genuine s key len i n f)
    {e : SkippedKey} {i' : Nat} (isKey : e.dh = some (toBase64 (.pub (key i'))))
    (distinct : key i = key i' → i = i') :
    isSkipped (header f.envelope) e = true ↔ i = i' ∧ e.n = n := by
  rw [isSkipped_iff, isKey, header]
  simp only [genuine.dh, genuine.number, toBase64, Option.some.injEq, Base64.enc.injEq, Term.pub.injEq,
    true_and, Nat.cast_inj]
  constructor
  · rintro ⟨same, isNumber⟩
    exact ⟨distinct same.symm, isNumber⟩
  · rintro ⟨rfl, isNumber⟩
    exact ⟨rfl, isNumber⟩

theorem keepNewest_of_le {keys : List SkippedKey} (few : keys.length ≤ MAX_STORED_SKIPPED) :
    keepNewest keys = keys := by
  rw [keepNewest, Nat.sub_eq_zero_of_le few, List.drop_zero]

theorem mem_walked {dhr : Option Base64} {now first count : Nat} {ck : Term} {e : SkippedKey}
    (member : e ∈ walked dhr now ck first count) :
    ∃ i < count, e = { dh := dhr, n := first + i, mk := toBase64 (messageKeyAfter ck i), «at» := now } := by
  obtain ⟨i, listed, rfl⟩ := List.mem_map.mp member
  exact ⟨i, List.mem_range.mp listed, rfl⟩

theorem walked_once (dhr : Option Base64) (now : Nat) (ck : Term) (first count : Nat) :
    (walked dhr now ck first count).Pairwise fun e e' => ¬(e.dh = e'.dh ∧ e.n = e'.n) := by
  rw [walked, List.pairwise_map]
  refine List.pairwise_lt_range.imp ?_
  intro a b less
  simp only [true_and]
  omega

theorem Passed.le {nr i n : Nat} (passed : Passed j nr i n) : i + 1 ≤ j := by
  rcases passed with early | ⟨here, _⟩ <;> omega

/-- The keys up to message `t` of the chain being received are stored. -/
theorem Receiver.skip (r : Receiver sk key len j state) {top : Nat} (distinct : Distinct key top)
    (own : j ≤ top) (two : 2 ≤ j) {t : Nat} (low : state.nr ≤ t) (high : t ≤ len (j - 1))
    (bounded : t - state.nr ≤ MAX_SKIP)
    (room : state.skipped.length + (t - state.nr) ≤ MAX_STORED_SKIPPED) (now : Nat) :
    ∃ next, skipUntil state (t : Nat) now = .ok next ∧ Receiver sk key len j next ∧ next.nr = t ∧
      next.skipped = state.skipped ++ walked (some (toBase64 (.pub (key (j - 1))))) now
        (chainAfter (chain sk key (j - 1)) state.nr) state.nr (t - state.nr) := by
  have isChain := r.side.ckr
  rw [if_neg (by omega)] at isChain
  have isPeer := r.side.dhr
  rw [if_neg (by omega)] at isPeer
  have bounded' : ((t : Nat) : JsNumber) - state.nr ≤ MAX_SKIP := by
    rw [← Nat.cast_sub low]
    exact_mod_cast bounded
  have skipped : skipUntil state (t : Nat) now = _ :=
    skipUntil_some isChain (fromBase64_toBase64 _) bounded'
  rw [Nat.ceil_natCast, ← chainAfter_add, Nat.add_sub_cancel' low, isPeer, keepNewest_of_le] at skipped
  · refine ⟨_, skipped, ⟨⟨r.side.dhsPriv, r.side.dhsPub, ?_, r.side.rk, r.side.cks, ?_, r.side.ns,
      r.side.pn, ?_⟩, ?_, ?_, ?_⟩, rfl, rfl⟩
    · rw [if_neg (by omega)]
    · rw [if_neg (by omega)]
    · intro early
      omega
    · intro _
      exact high
    · intro e member
      rcases List.mem_append.mp member with old | new
      · obtain ⟨i, some, passed, isKey, isValue⟩ := r.stored e old
        exact ⟨i, some, passed.mono low, isKey, isValue⟩
      · obtain ⟨m, below, rfl⟩ := mem_walked new
        have early : state.nr + m < t := by
          omega
        refine ⟨j - 1, by omega, .inr ⟨by omega, early⟩, rfl, ?_, by omega, early.trans_le high⟩
        · rw [messageKeyAfter, messageKeyAfter, ← chainAfter_add]
    · refine List.pairwise_append.mpr ⟨r.once, walked_once _ _ _ _ _, ?_⟩
      intro e old e' new
      obtain ⟨i, some, passed, isKey, _⟩ := r.stored e old
      obtain ⟨m, _, rfl⟩ := mem_walked new
      rintro ⟨same, isNumber⟩
      change e.n = state.nr + m at isNumber
      simp only [isKey, toBase64, Option.some.injEq, Base64.enc.injEq, Term.pub.injEq, true_and] at same
      have isLast := distinct i (by have := passed.le; omega) (j - 1) (by omega) same
      rcases passed with early | ⟨_, below⟩ <;> omega
  · rw [List.length_append, walked, List.length_map, List.length_range]
    exact room

theorem Received.skip {s : Setting} {top : Nat} (distinct : Distinct key top) (own : j ≤ top)
    {next : RatchetState} {now t : Nat}
    (low : state.nr ≤ t) (isNext : next.nr = t)
    (isSkip : next.skipped = state.skipped ++ walked (some (toBase64 (.pub (key (j - 1))))) now
      (chainAfter (chain sk key (j - 1)) state.nr) state.nr (t - state.nr))
    (two : 2 ≤ j) {i n : Nat} (near : i ≤ top) {f : Flight} (genuine : Genuine s key len i n f)
    (received : Received j state i n f) : Received j next i n f where
  opened isOpen := by
    obtain ⟨passed, noKey⟩ := received.opened isOpen
    refine ⟨by rw [isNext]; exact passed.mono low, ?_⟩
    intro e member
    rw [isSkip] at member
    rcases List.mem_append.mp member with old | new
    · exact noKey e old
    · obtain ⟨m, _, rfl⟩ := mem_walked new
      rw [← Bool.not_eq_true, isSkipped_genuine genuine rfl (distinct i near (j - 1) (by omega))]
      rintro ⟨isLast, isNumber⟩
      change state.nr + m = n at isNumber
      rcases passed with early | ⟨_, below⟩ <;> omega
  held unopened passed := by
    rw [isNext] at passed
    rw [isSkip]
    by_cases before : Passed j state.nr i n
    · obtain ⟨e, member, isKey⟩ := received.held unopened before
      exact ⟨e, List.mem_append_left _ member, isKey⟩
    · obtain ⟨here, below⟩ := passed.resolve_left fun early => before (.inl early)
      have above : state.nr ≤ n := by
        by_contra less
        exact before (.inr ⟨here, by omega⟩)
      refine ⟨_, List.mem_append_right _ (List.mem_map.mpr ⟨n - state.nr, ?_, rfl⟩), ?_⟩
      · rw [List.mem_range]
        omega
      · rw [isSkipped_genuine genuine rfl (distinct i near (j - 1) (by omega))]
        refine ⟨by omega, ?_⟩
        change state.nr + (n - state.nr) = n
        omega

/-- The next ratchet key of the peer is taken up, and a fresh one of one's own is drawn. -/
theorem Receiver.turn (r : Receiver sk key len j state) {h : RatchetHeader}
    (isNext : h.dh = toBase64 (.pub (key (j + 1)))) (fresh : Nat) :
    ∃ next, dhRatchet state h fresh = .ok next ∧ next.nr = 0 ∧ next.skipped = state.skipped ∧
      Receiver sk (Function.update key (j + 2) fresh) (Function.update len (j + 2) 0) (j + 2) next := by
  have same : ∀ m ≤ j + 1, Function.update key (j + 2) fresh m = key m := fun m below =>
    Function.update_of_ne (by omega) _ _
  have out : dh (.secret fresh) (.pub (key (j + 1))) =
      .ok (link (Function.update key (j + 2) fresh) (j + 1)) := by
    have back := @dh_link_back (Function.update key (j + 2) fresh) (j + 1)
    rwa [Function.update_self, same (j + 1) le_rfl] at back
  have turned : dhRatchet state h fresh = .ok { state with
      pn := state.ns
      ns := 0
      nr := 0
      dhr := some h.dh
      ckr := some (toBase64 (chain sk key (j + 1)))
      dhsPriv := toBase64 (.secret fresh)
      dhsPub := toBase64 (.pub fresh)
      rk := toBase64 (root sk (Function.update key (j + 2) fresh) (j + 2))
      cks := some (toBase64 (chain sk (Function.update key (j + 2) fresh) (j + 2))) } := by
    rw [root_succ, chain_succ, root_congr same]
    simp only [dhRatchet, isNext, r.side.rk, r.side.dhsPriv, fromBase64_toBase64, dh_link, out,
      generateX25519, bind, Except.bind, pure, Except.pure, root_succ, chain_succ]
  refine ⟨_, turned, rfl, rfl, ⟨?_, ?_, ?_, rfl, ?_, ?_, ?_, ?_, ?_⟩, ?_, ?_, r.once⟩
  · rw [Function.update_self]
  · rw [Function.update_self]
  · rw [if_neg (by omega), isNext, same _ (by omega)]
    rfl
  · rw [if_neg (by omega), Function.update_self, chainAfter_zero]
  · have isChain : chain sk (Function.update key (j + 2) fresh) (j + 2 - 1) = chain sk key (j + 1) :=
      chain_congr (by omega) same
    rw [if_neg (by omega), chainAfter_zero, isChain]
  · rw [Function.update_self]
  · rw [Function.update_of_ne (by omega)]
    exact r.side.ns
  · intro early
    omega
  · intro _
    exact Nat.zero_le _
  · intro e member
    obtain ⟨i, some, passed, isKey, isValue, isPeer, sealed⟩ := r.stored e member
    have below := passed.le
    refine ⟨i, some, .inl (by omega), ?_, ?_, by omega, ?_⟩
    · rw [same i (by omega)]
      exact isKey
    · rw [chain_congr some fun m early => same m (by omega)]
      exact isValue
    · rw [Function.update_of_ne (by omega)]
      exact sealed

/-- An envelope on a chain before the turn is where it was. -/
theorem Received.turn {next : RatchetState} (closed : 2 ≤ j → state.nr = len (j - 1))
    (isNext : next.nr = 0) (isSkip : next.skipped = state.skipped) {i n : Nat} (below : n < len i)
    (apart : i % 2 ≠ j % 2) (some : 0 < i) {f : Flight} (received : Received j state i n f) :
    Received (j + 2) next i n f := by
  have same : Passed (j + 2) next.nr i n ↔ Passed j state.nr i n := by
    rw [Passed, Passed, isNext]
    constructor
    · rintro (early | ⟨_, none⟩)
      · by_cases before : i + 1 < j
        · exact .inl before
        · obtain rfl : j = i + 1 := by omega
          exact .inr ⟨rfl, by rw [closed (by omega)]; exact below⟩
      · omega
    · rintro (early | ⟨here, _⟩) <;> omega
  refine ⟨?_, ?_⟩
  · intro isOpen
    rw [same, isSkip]
    exact received.opened isOpen
  · intro unopened passed
    rw [isSkip]
    exact received.held unopened (same.mp passed)

/-- The key of the message expected next is used up. -/
theorem Receiver.take (r : Receiver sk key len j state) (two : 2 ≤ j)
    (below : state.nr < len (j - 1)) :
    Receiver sk key len j { state with
      ckr := some (toBase64 (chainAfter (chain sk key (j - 1)) (state.nr + 1)))
      nr := state.nr + 1 } := by
  refine ⟨⟨r.side.dhsPriv, r.side.dhsPub, r.side.dhr, r.side.rk, r.side.cks, ?_, r.side.ns, r.side.pn,
    ?_⟩, ?_, ?_, r.once⟩
  · rw [if_neg (by omega)]
  · intro early
    omega
  · intro _
    exact below
  · intro e member
    obtain ⟨i, some, passed, isKey, isValue⟩ := r.stored e member
    exact ⟨i, some, passed.mono (Nat.le_succ _), isKey, isValue⟩

/-- Of the envelopes, one is opened; any other is another message. -/
theorem Received.take {next : RatchetState} (isNext : next.nr = state.nr + 1)
    (isSkip : next.skipped = state.skipped) {i n : Nat} {f : Flight} (received : Received j state i n f)
    (other : ¬(i + 1 = j ∧ n = state.nr)) : Received j next i n f where
  opened isOpen := by
    obtain ⟨passed, noKey⟩ := received.opened isOpen
    refine ⟨by rw [isNext]; exact passed.mono (Nat.le_succ _), ?_⟩
    rw [isSkip]
    exact noKey
  held unopened passed := by
    rw [isSkip]
    refine received.held unopened ?_
    rw [isNext] at passed
    rcases passed with early | ⟨here, below⟩
    · exact .inl early
    · exact .inr ⟨here, by omega⟩

end

section Opening

variable {s : Setting} {key len : Nat → Nat} {j top i n : Nat} {state : RatchetState} {f : Flight}

/-- What opening envelope `(i, n)` leaves of a receiver, and of all that it has yet to open. -/
structure Accepted (s : Setting) (key len : Nat → Nat) (j top i n : Nat) (state : RatchetState)
    (f : Flight) (key' len' : Nat → Nat) (j' : Nat) (next : RatchetState) : Prop where
  receiver : Receiver (secret s) key' len' j' next
  own : Received j' next i n { f with opened := true }
  others : ∀ m ≤ top, ∀ l g, Genuine s key len m l g → m % 2 ≠ j % 2 → ¬(m = i ∧ l = n) →
    Received j state m l g → Received j' next m l g

theorem tryOpen_ciphertext (mk : Term) :
    tryOpen mk { header := header f.envelope, ciphertext := ciphertext s mk f }
      (aad s.conversationId (s.userId f.sender) s.sessionId f.envelope.ctr) =
      .ok (utf8Decode (utf8Encode f.text)) :=
  tryOpen_ok.mpr ⟨utf8Encode f.text, rfl, rfl⟩

theorem eraseP_once {p : SkippedKey → Bool} {keys : List SkippedKey} {e : SkippedKey}
    (once : keys.Pairwise fun e e' => ¬(p e = true ∧ p e' = true)) (member : e ∈ keys.eraseP p) :
    p e = false := by
  induction keys with
  | nil => simp at member
  | cons first keys ih =>
      obtain ⟨here, later⟩ := List.pairwise_cons.mp once
      by_cases isKey : p first = true
      · rw [List.eraseP_cons_of_pos isKey] at member
        rw [← Bool.not_eq_true]
        exact fun isOther => here e member ⟨isKey, isOther⟩
      · rw [List.eraseP_cons_of_neg isKey] at member
        rcases List.mem_cons.mp member with rfl | last
        · exact Bool.eq_false_of_not_eq_true isKey
        · exact ih later last

/-- The message has a stored key. -/
theorem Receiver.opensHeld (r : Receiver (secret s) key len j state) (distinct : Distinct key top)
    (own : j ≤ top) (near : i ≤ top) (genuine : Genuine s key len i n f)
    (held : ∃ e ∈ state.skipped, isSkipped (header f.envelope) e = true) (now fresh : Nat) :
    ∃ next, ratchetDecrypt state
        { header := header f.envelope,
          ciphertext := ciphertext s (messageKeyAfter (chain (secret s) key i) n) f }
        (aad s.conversationId (s.userId f.sender) s.sessionId f.envelope.ctr) now fresh =
          .ok (utf8Decode (utf8Encode f.text), next) ∧
      Accepted s key len j top i n state f key len j next := by
  obtain ⟨e, search⟩ := Option.isSome_iff_exists.mp (List.find?_isSome.mpr held)
  have member := List.mem_of_find?_eq_some search
  have isKey := List.find?_some search
  obtain ⟨i', some, passed, isPeer, isValue, _⟩ := r.stored e member
  have fits {e' : SkippedKey} {m : Nat} (isPeer : e'.dh = Option.some (toBase64 (.pub (key m))))
      (below : m ≤ top) : isSkipped (header f.envelope) e' = true ↔ i = m ∧ e'.n = n :=
    isSkipped_genuine genuine isPeer (distinct i near m below)
  obtain ⟨rfl, isNumber⟩ := (fits isPeer (by have := passed.le; omega)).mp isKey
  have opened : ratchetDecrypt state
      { header := header f.envelope,
        ciphertext := ciphertext s (messageKeyAfter (chain (secret s) key i) n) f }
      (aad s.conversationId (s.userId f.sender) s.sessionId f.envelope.ctr) now fresh =
      .ok (utf8Decode (utf8Encode f.text),
        { state with skipped := state.skipped.eraseP (isSkipped (header f.envelope)) }) := by
    simp only [ratchetDecrypt, search, isValue, isNumber, fromBase64_toBase64, tryOpen_ciphertext, bind,
      Except.bind, pure, Except.pure]
  have kept : ∀ e' ∈ state.skipped.eraseP (isSkipped (header f.envelope)), e' ∈ state.skipped :=
    fun e' => List.mem_of_mem_eraseP
  refine ⟨_, opened, ⟨⟨r.side.dhsPriv, r.side.dhsPub, r.side.dhr, r.side.rk, r.side.cks, r.side.ckr,
    r.side.ns, r.side.pn, ?_⟩, r.reached, ?_, ?_⟩, .gone rfl (isNumber ▸ passed) ?_, ?_⟩
  · intro early
    obtain ⟨isFirst, none⟩ := r.side.idle early
    exact ⟨isFirst, by rw [none]; rfl⟩
  · intro e' member'
    exact r.stored e' (kept e' member')
  · exact r.once.sublist (List.eraseP_sublist)
  · refine fun e' member' => eraseP_once (r.once.imp ?_) member'
    rintro a b apart ⟨first, second⟩
    obtain ⟨isPeer, isNumber⟩ := isSkipped_iff.mp first
    obtain ⟨isPeer', isNumber'⟩ := isSkipped_iff.mp second
    exact apart ⟨isPeer.trans isPeer'.symm, Nat.cast_injective (isNumber.trans isNumber'.symm)⟩
  · intro m below l g genuine' _ apart received
    refine ⟨fun isOpen => ?_, fun unopened passed' => ?_⟩
    · obtain ⟨passed', noKey⟩ := received.opened isOpen
      exact ⟨passed', fun e' member' => noKey e' (kept e' member')⟩
    · obtain ⟨e', member', isKey'⟩ := received.held unopened passed'
      refine ⟨e', ?_, isKey'⟩
      rw [List.mem_eraseP_of_neg]
      · exact member'
      · intro both
        obtain ⟨m', _, passed'', isPeer', _⟩ := r.stored e' member'
        have bound := passed''.le
        obtain ⟨rfl, same⟩ := (fits isPeer' (by omega)).mp both
        obtain ⟨rfl, same'⟩ := (isSkipped_genuine genuine' isPeer'
          (distinct m below i (by omega))).mp isKey'
        exact apart ⟨rfl, by omega⟩

theorem Receiver.unheld (r : Receiver (secret s) key len j state) (distinct : Distinct key top)
    (own : j ≤ top) (near : i ≤ top) (genuine : Genuine s key len i n f)
    (ahead : ¬Passed j state.nr i n) : ∀ e ∈ state.skipped, isSkipped (header f.envelope) e = false := by
  intro e member
  obtain ⟨i', some, passed, isPeer, _⟩ := r.stored e member
  have below := passed.le
  rw [← Bool.not_eq_true, isSkipped_genuine genuine isPeer (distinct i near i' (by omega))]
  rintro ⟨rfl, rfl⟩
  exact ahead passed

/-- The message lies ahead on the chain being received. -/
theorem Receiver.finish (r : Receiver (secret s) key len j state) (distinct : Distinct key top)
    (own : j ≤ top) (genuine : Genuine s key len i n f) (current : i + 1 = j) (ahead : state.nr ≤ n)
    (bounded : n - state.nr ≤ MAX_SKIP)
    (room : state.skipped.length + (n - state.nr) ≤ MAX_STORED_SKIPPED) (now : Nat) :
    ∃ reached ck, skipUntil state f.envelope.n now = .ok reached ∧
      fromBase64OrNull reached.ckr = .ok ck ∧ (kdfChain ck).mk = messageKeyAfter (chain (secret s) key i) n ∧
      Accepted s key len j top i n state f key len j
        { reached with ckr := some (toBase64 (kdfChain ck).ck), nr := reached.nr + 1 } := by
  have some := genuine.some
  have below := genuine.below
  have isLast : j - 1 = i := by omega
  obtain ⟨reached, skipped, r', isNumber, isSkip⟩ := r.skip distinct own (by omega) ahead
    (by rw [isLast]; omega) bounded room now
  have isChain := r'.side.ckr
  rw [if_neg (by omega), isLast, isNumber] at isChain
  have taken := r'.take (by omega) (by rw [isLast, isNumber]; exact below)
  rw [isLast, isNumber, chainAfter_succ] at taken
  refine ⟨reached, chainAfter (chain (secret s) key i) n, ?_, ?_, rfl, ?_⟩
  · rw [genuine.number]
    exact skipped
  · rw [isChain]
    rfl
  · rw [isNumber]
    refine ⟨taken, .gone rfl (.inr ⟨current, Nat.lt_succ_self n⟩) ?_, ?_⟩
    · have notYet : ¬Passed j reached.nr i n := by
        rintro (early | ⟨_, less⟩) <;> omega
      have unheld : ∀ e ∈ reached.skipped, isSkipped (header f.envelope) e = false :=
        r'.unheld distinct own (by omega) genuine notYet
      exact unheld
    · intro m near l g genuine' _ apart received
      have skip := received.skip distinct own ahead isNumber isSkip (by omega) near genuine'
      have isOther : ¬(m + 1 = j ∧ l = reached.nr) := by
        rintro ⟨isSame, isNext⟩
        exact apart ⟨by omega, by omega⟩
      refine Received.take ?_ ?_ skip isOther
      · change n + 1 = reached.nr + 1
        rw [isNumber]
      · rfl

/-- What `ratchetDecrypt` makes of a message for which no key is stored. -/
theorem decrypt_of_finish {followed reached : RatchetState} {ck : Term} {now fresh : Nat}
    (unheld : ∀ e ∈ state.skipped, isSkipped (header f.envelope) e = false)
    (follows : followHeader state (header f.envelope) now fresh = .ok followed)
    (skips : skipUntil followed f.envelope.n now = .ok reached)
    (decodes : fromBase64OrNull reached.ckr = .ok ck)
    (isKey : (kdfChain ck).mk = messageKeyAfter (chain (secret s) key i) n) :
    ratchetDecrypt state
        { header := header f.envelope,
          ciphertext := ciphertext s (messageKeyAfter (chain (secret s) key i) n) f }
        (aad s.conversationId (s.userId f.sender) s.sessionId f.envelope.ctr) now fresh =
      .ok (utf8Decode (utf8Encode f.text),
        { reached with ckr := some (toBase64 (kdfChain ck).ck), nr := reached.nr + 1 }) := by
  have search : state.skipped.find? (isSkipped (header f.envelope)) = none := by
    rw [List.find?_eq_none]
    intro e member
    rw [unheld e member]
    exact Bool.false_ne_true
  have isNumber : (header f.envelope).n = f.envelope.n := rfl
  simp only [ratchetDecrypt, search, follows, isNumber, skips, decodes, isKey, tryOpen_ciphertext, bind,
    Except.bind, pure, Except.pure]

/-- The message is one of the chain being received. -/
theorem Receiver.opensCurrent (r : Receiver (secret s) key len j state) (distinct : Distinct key top)
    (own : j ≤ top) (genuine : Genuine s key len i n f) (current : i + 1 = j) (ahead : state.nr ≤ n)
    (bounded : n - state.nr ≤ MAX_SKIP)
    (room : state.skipped.length + (n - state.nr) ≤ MAX_STORED_SKIPPED) (now fresh : Nat) :
    ∃ next, ratchetDecrypt state
        { header := header f.envelope,
          ciphertext := ciphertext s (messageKeyAfter (chain (secret s) key i) n) f }
        (aad s.conversationId (s.userId f.sender) s.sessionId f.envelope.ctr) now fresh =
          .ok (utf8Decode (utf8Encode f.text), next) ∧
      Accepted s key len j top i n state f key len j next := by
  have some := genuine.some
  have follows : followHeader state (header f.envelope) now fresh = .ok state := by
    have isPeer := r.side.dhr
    rw [if_neg (by omega), show j - 1 = i by omega, ← genuine.dh] at isPeer
    have notLate : ¬(header f.envelope).n < state.nr := by
      change ¬f.envelope.n < state.nr
      rw [genuine.number]
      exact_mod_cast Nat.not_lt.mpr ahead
    rw [followHeader, if_neg (by rw [isPeer]; exact fun turn => turn rfl), if_neg notLate]
  have unheld := r.unheld distinct own (by omega) genuine (by rintro (early | ⟨_, less⟩) <;> omega)
  obtain ⟨reached, ck, skips, decodes, isKey, accepted⟩ :=
    r.finish distinct own genuine current ahead bounded room now
  exact ⟨_, decrypt_of_finish unheld follows skips decodes isKey, accepted⟩

/-- A key drawn later changes nothing of what was sealed before. -/
theorem Genuine.turn (genuine : Genuine s key len i n f) (before : i ≤ j + 1) (fresh : Nat) :
    Genuine s (Function.update key (j + 2) fresh) (Function.update len (j + 2) 0) i n f := by
  refine ⟨genuine.some, genuine.parity, ?_, ?_, ?_, genuine.number, genuine.sessionId, ?_⟩
  · rw [Function.update_of_ne (by omega)]
    exact genuine.below
  · rw [Function.update_of_ne (by omega)]
    exact genuine.dh
  · rw [Function.update_of_ne (by omega)]
    exact genuine.pn
  · rw [chain_congr genuine.some fun m below => Function.update_of_ne (by omega) _ _]
    exact genuine.ct

theorem Distinct.turn (distinct : Distinct key (j + 1)) {fresh : Nat} (new : ∀ m ≤ j + 1, key m ≠ fresh) :
    Distinct (Function.update key (j + 2) fresh) (j + 2) := by
  intro m below m' below' same
  by_cases last : m = j + 2 <;> by_cases last' : m' = j + 2
  · omega
  · rw [last, Function.update_self, Function.update_of_ne last'] at same
    exact absurd same.symm (new m' (by omega))
  · rw [last', Function.update_self, Function.update_of_ne last] at same
    exact absurd same (new m (by omega))
  · rw [Function.update_of_ne last, Function.update_of_ne last'] at same
    exact distinct m (by omega) m' (by omega) same

/-- The rest of the chain being received is stored, if there is one. -/
theorem Receiver.close (r : Receiver (secret s) key len j state) (distinct : Distinct key (j + 1))
    (bounded : len (j - 1) - state.nr ≤ MAX_SKIP)
    (room : state.skipped.length + (len (j - 1) - state.nr) ≤ MAX_STORED_SKIPPED) (now : Nat) :
    ∃ closed, skipUntil state (len (j - 1) : Nat) now = .ok closed ∧
      Receiver (secret s) key len j closed ∧ (2 ≤ j → closed.nr = len (j - 1)) ∧
      closed.skipped.length ≤ state.skipped.length + (len (j - 1) - state.nr) ∧
      ∀ m ≤ j + 1, ∀ l g, Genuine s key len m l g → Received j state m l g → Received j closed m l g := by
  by_cases early : j ≤ 1
  · have isChain := r.side.ckr
    rw [if_pos early] at isChain
    exact ⟨state, skipUntil_none isChain, r, fun two => by omega, by omega, fun _ _ _ _ _ => id⟩
  · obtain ⟨closed, skipped, r', isNumber, isSkip⟩ :=
      r.skip distinct (by omega) (by omega) (r.reached (by omega)) le_rfl bounded room now
    refine ⟨closed, skipped, r', fun _ => isNumber, ?_, ?_⟩
    · rw [isSkip, List.length_append, walked, List.length_map, List.length_range]
    · intro m near l g genuine received
      exact received.skip distinct (by omega) (r.reached (by omega)) isNumber isSkip (by omega) near
        genuine

/-- The message is the first to arrive of the peer's next chain. -/
theorem Receiver.opensNext (r : Receiver (secret s) key len j state) (distinct : Distinct key (j + 1))
    (genuine : Genuine s key len i n f) (later : i = j + 1)
    (bounded : len (j - 1) - state.nr ≤ MAX_SKIP) (bounded' : n ≤ MAX_SKIP)
    (room : state.skipped.length + (len (j - 1) - state.nr) + n ≤ MAX_STORED_SKIPPED) (now : Nat)
    {fresh : Nat} (new : ∀ m ≤ j + 1, key m ≠ fresh) :
    ∃ next, ratchetDecrypt state
        { header := header f.envelope,
          ciphertext := ciphertext s (messageKeyAfter (chain (secret s) key i) n) f }
        (aad s.conversationId (s.userId f.sender) s.sessionId f.envelope.ctr) now fresh =
          .ok (utf8Decode (utf8Encode f.text), next) ∧
      Accepted s key len j (j + 1) i n state f (Function.update key (j + 2) fresh)
        (Function.update len (j + 2) 0) (j + 2) next := by
  obtain ⟨closed, closes, r', isEnd, few, kept⟩ := r.close distinct bounded (by omega) now
  have isPeer : (header f.envelope).dh = toBase64 (.pub (key (j + 1))) := by
    rw [header, genuine.dh, later]
  obtain ⟨turned, turns, isStart, isSkip, r''⟩ := r'.turn isPeer fresh
  have genuine' : Genuine s (Function.update key (j + 2) fresh) (Function.update len (j + 2) 0) i n f :=
    genuine.turn (by omega) fresh
  have ahead : ¬Passed j state.nr i n := by
    rintro (early | ⟨same, _⟩) <;> omega
  have unheld := r.unheld distinct (by omega) (by omega) genuine ahead
  have follows : followHeader state (header f.envelope) now fresh = .ok turned := by
    have turn : some (header f.envelope).dh ≠ state.dhr := by
      rw [isPeer, r.side.dhr]
      split
      · exact Option.some_ne_none _
      · simp only [toBase64, ne_eq, Option.some.injEq, Base64.enc.injEq, Term.pub.injEq, true_and]
        intro same
        have := distinct (j + 1) le_rfl (j - 1) (by omega) same
        omega
    have isPn : (header f.envelope).pn = (len (j - 1) : Nat) := by
      rw [header, genuine.pn, later]
      rfl
    rw [followHeader, if_pos turn, isPn, closes]
    exact turns
  have distinct' := distinct.turn new
  have room' : turned.skipped.length + (n - turned.nr) ≤ MAX_STORED_SKIPPED := by
    rw [isSkip]
    omega
  obtain ⟨reached, ck, skips, decodes, isKey, accepted⟩ :=
    r''.finish distinct' le_rfl genuine' (by omega) (by rw [isStart]; omega) (by rw [isStart]; omega)
      room' now
  rw [chain_congr genuine.some fun m below => Function.update_of_ne (by omega) _ _] at isKey
  refine ⟨_, decrypt_of_finish unheld follows skips decodes isKey, accepted.receiver, accepted.own, ?_⟩
  intro m near l g isGenuine apart isOther received
  refine accepted.others m (by omega) l g (isGenuine.turn near fresh) (by omega) isOther ?_
  exact (kept m near l g isGenuine received).turn isEnd isStart isSkip isGenuine.below apart isGenuine.some

/-- The chain that a turn to a bygone ratchet key begins opens nothing of the chain of that key. -/
theorem chain_apart {rk ck out mk : Term} {m : Nat} (some : 0 < i) (before : i ≤ j)
    (isRoot : rk = root (secret s) key j) (isChain : ck = chainAfter (kdfRoot rk out).ck n)
    (isKey : (cipherParams (kdfChain ck).mk).key = (cipherParams mk).key)
    (isMessage : mk = messageKeyAfter (chain (secret s) key i) m) (same : m = n) : False := by
  subst isRoot isChain isMessage same
  have sameKey := cipherKey_injective isKey
  exact chain_ne_later some before out (messageKeyAfter_injective m sameKey)

/-- What has been opened is not opened again. -/
theorem Receiver.rejects (r : Receiver (secret s) key len j state) (distinct : Distinct key top)
    (own : j ≤ top) (near : i ≤ top) (genuine : Genuine s key len i n f)
    (received : Received j state i n f) (isOpen : f.opened = true) (now fresh : Nat)
    (result : List UInt16 × RatchetState) :
    ratchetDecrypt state
        { header := header f.envelope,
          ciphertext := ciphertext s (messageKeyAfter (chain (secret s) key i) n) f }
        (aad s.conversationId (s.userId f.sender) s.sessionId f.envelope.ctr) now fresh ≠
      .ok result := by
  intro opened
  obtain ⟨passed, noKey⟩ := received.opened isOpen
  have before := passed.le
  rcases ratchetDecrypt_ok opened with ⟨held, mk, search, _, _, _⟩ |
    ⟨_, followed, reached, ck, follows, reaches, decodes, unlocked, _⟩
  · have isKey := List.find?_some search
    rw [noKey held (List.mem_of_find?_eq_some search)] at isKey
    exact Bool.false_ne_true isKey
  · rcases followHeader_ok follows with ⟨_, closed, closes, turns⟩ | ⟨same, late, _⟩
    · obtain ⟨theirs, rk, priv, first, second, _, isRoot, _, _, _, rfl⟩ := dhRatchet_ok turns
      have isRoot' : rk = root (secret s) key j := by
        have kept : closed.rk = state.rk := by
          rcases skipUntil_ok closes with ⟨_, rfl⟩ | ⟨_, _, _, _, _, rfl⟩ <;> rfl
        rw [kept, r.side.rk, fromBase64_toBase64, Except.ok.injEq] at isRoot
        exact isRoot.symm
      rcases skipUntil_ok reaches with ⟨none, _⟩ | ⟨_, recv, isRecv, isChain, _, rfl⟩
      · cases none
      · cases isRecv
        rw [fromBase64_toBase64, Except.ok.injEq] at isChain
        subst isChain
        have isNumber : (header f.envelope).n = (n : Nat) := genuine.number
        rw [fromBase64OrNull, Option.getD_some, fromBase64_toBase64, Except.ok.injEq, isNumber,
          Nat.ceil_natCast, Nat.sub_zero] at decodes
        obtain ⟨plaintext, isCiphertext, _⟩ := tryOpen_ok.mp unlocked
        simp only [ciphertext, Term.aead.injEq] at isCiphertext
        exact chain_apart genuine.some (by omega) isRoot' decodes.symm isCiphertext.1.symm rfl rfl
    · have isPeer := r.side.dhr
      rw [if_neg (by omega), ← same] at isPeer
      have isKey : (header f.envelope).dh = toBase64 (.pub (key i)) := genuine.dh
      simp only [isKey, toBase64, Option.some.injEq, Base64.enc.injEq, Term.pub.injEq, true_and] at isPeer
      have isLast := distinct i near (j - 1) (by omega) isPeer
      change (state.nr : JsNumber) ≤ f.envelope.n at late
      rw [genuine.number, Nat.cast_le] at late
      rcases passed with early | ⟨_, less⟩ <;> omega

end Opening

end RatchetPair
