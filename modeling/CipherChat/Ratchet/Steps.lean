import CipherChat.Crypto.DoubleRatchet

/-!
What each operation of the Double Ratchet does to a state, said once: the chain walk, the
Diffie-Hellman step, and the two ways a frame is opened.
-/

namespace DoubleRatchet

open Symbolic Number Primitives

/-- The chain key `n` steps after `ck`. -/
def chainAfter (ck : Term) (n : Nat) : Term :=
  (fun c => (kdfChain c).ck)^[n] ck

def messageKeyAfter (ck : Term) (n : Nat) : Term :=
  (kdfChain (chainAfter ck n)).mk

@[simp] theorem chainAfter_zero (ck : Term) : chainAfter ck 0 = ck := by
  rfl

theorem chainAfter_succ (ck : Term) (n : Nat) :
    chainAfter ck (n + 1) = (kdfChain (chainAfter ck n)).ck := by
  simp only [chainAfter, Function.iterate_succ_apply']

theorem chainAfter_add (ck : Term) (m n : Nat) :
    chainAfter ck (m + n) = chainAfter (chainAfter ck m) n := by
  simp only [chainAfter, Nat.add_comm m n, Function.iterate_add_apply]

/-- The keys a walk of `count` steps from message `first` leaves behind. -/
def walked (dhr : Option Base64) (now : Nat) (ck : Term) (first count : Nat) : List SkippedKey :=
  (List.range count).map fun i =>
    { dh := dhr, n := first + i, mk := toBase64 (messageKeyAfter ck i), «at» := now }

theorem walked_succ (dhr : Option Base64) (now : Nat) (ck : Term) (first count : Nat) :
    walked dhr now ck first (count + 1) =
      { dh := dhr, n := first, mk := toBase64 (kdfChain ck).mk, «at» := now } ::
        walked dhr now (kdfChain ck).ck (first + 1) count := by
  have later : ∀ i, chainAfter ck (i + 1) = chainAfter (kdfChain ck).ck i := fun i => by
    simp only [chainAfter, Function.iterate_succ_apply]
  simp only [walked, List.range_succ_eq_map, List.map_cons, List.map_map, Nat.add_zero,
    messageKeyAfter, chainAfter_zero, List.cons.injEq, true_and]
  refine List.map_congr_left fun i _ => ?_
  simp only [Function.comp_apply, SkippedKey.of.injEq, later, true_and, and_true,
    Nat.succ_eq_add_one]
  omega

theorem skipKeys_eq (now count : Nat) (state : RatchetState) (ck : Term) :
    skipKeys now count state ck =
      ({ state with
          skipped := state.skipped ++ walked state.dhr now ck state.nr count
          nr := state.nr + count },
        chainAfter ck count) := by
  induction count generalizing state ck with
  | zero => simp [skipKeys, walked]
  | succ count ih =>
      rw [skipKeys, ih, walked_succ]
      simp only [List.append_assoc, List.cons_append, List.nil_append, Prod.mk.injEq,
        RatchetState.mk.injEq, true_and, and_true, chainAfter, Function.iterate_succ_apply]
      omega

def keepNewest (keys : List SkippedKey) : List SkippedKey :=
  keys.drop (keys.length - MAX_STORED_SKIPPED)

theorem skipUntil_none {state : RatchetState} {limit : JsNumber} {now : Nat}
    (noChain : state.ckr = none) : skipUntil state limit now = .ok state := by
  simp [skipUntil, noChain]

theorem skipUntil_some {state : RatchetState} {ckr : Base64} {ck : Term} {limit : JsNumber}
    {now : Nat} (chain : state.ckr = some ckr) (decoded : fromBase64 ckr = .ok ck)
    (bounded : limit - state.nr ≤ MAX_SKIP) :
    skipUntil state limit now = .ok { state with
      ckr := some (toBase64 (chainAfter ck (⌈limit⌉₊ - state.nr)))
      nr := state.nr + (⌈limit⌉₊ - state.nr)
      skipped := keepNewest (state.skipped ++
        walked state.dhr now ck state.nr (⌈limit⌉₊ - state.nr)) } := by
  simp only [skipUntil, chain, decoded, gt_iff_lt, not_lt.mpr bounded, if_false]
  simp only [bind, Except.bind, pure, Except.pure, skipKeys_eq, keepNewest]

theorem skipUntil_ok {state next : RatchetState} {limit : JsNumber} {now : Nat}
    (skipped : skipUntil state limit now = .ok next) :
    (state.ckr = none ∧ next = state) ∨
      ∃ ckr ck, state.ckr = some ckr ∧ fromBase64 ckr = .ok ck ∧
        limit - state.nr ≤ MAX_SKIP ∧
        next = { state with
          ckr := some (toBase64 (chainAfter ck (⌈limit⌉₊ - state.nr)))
          nr := state.nr + (⌈limit⌉₊ - state.nr)
          skipped := keepNewest (state.skipped ++
            walked state.dhr now ck state.nr (⌈limit⌉₊ - state.nr)) } := by
  cases chain : state.ckr with
  | none =>
      rw [skipUntil_none chain, Except.ok.injEq] at skipped
      exact .inl ⟨rfl, skipped.symm⟩
  | some ckr =>
      by_cases bounded : limit - state.nr ≤ MAX_SKIP
      · cases decoded : fromBase64 ckr with
        | error e =>
            simp [skipUntil, chain, decoded, not_lt.mpr bounded, bind, Except.bind] at skipped
        | ok ck =>
            rw [skipUntil_some chain decoded bounded, Except.ok.injEq] at skipped
            exact .inr ⟨ckr, ck, rfl, decoded, bounded, skipped.symm⟩
      · simp [skipUntil, chain, not_le.mp bounded, bind, Except.bind, throw, throwThe,
          MonadExceptOf.throw] at skipped

theorem dhRatchet_ok {state next : RatchetState} {header : RatchetHeader} {fresh : Nat}
    (turned : dhRatchet state header fresh = .ok next) :
    ∃ theirs rk priv first second, fromBase64 header.dh = .ok theirs ∧
      fromBase64 state.rk = .ok rk ∧ fromBase64 state.dhsPriv = .ok priv ∧
      dh priv theirs = .ok first ∧ dh (.secret fresh) theirs = .ok second ∧
      next = { state with
        pn := state.ns
        ns := 0
        nr := 0
        dhr := some header.dh
        ckr := some (toBase64 (kdfRoot rk first).ck)
        dhsPriv := toBase64 (.secret fresh)
        dhsPub := toBase64 (.pub fresh)
        rk := toBase64 (kdfRoot (kdfRoot rk first).rk second).rk
        cks := some (toBase64 (kdfRoot (kdfRoot rk first).rk second).ck) } := by
  simp only [dhRatchet, bind_eq_ok, pure_eq_ok] at turned
  obtain ⟨theirs, theirsEq, rk, rkEq, priv, privEq, first, firstEq, second, secondEq, rfl⟩ := turned
  exact ⟨theirs, rk, priv, first, second, theirsEq, rkEq, privEq, firstEq, secondEq, rfl⟩

theorem tryOpen_ok {mk : Term} {message : RatchetMessage} {ad : Term} {text : List UInt16} :
    tryOpen mk message ad = .ok text ↔ ∃ plaintext,
      message.ciphertext = .aead (cipherParams mk).key (cipherParams mk).iv plaintext
        (concatBytes [ad, headerBytes message.header]) ∧ text = utf8Decode plaintext := by
  simp only [tryOpen]
  constructor
  · intro opened
    split at opened
    next plaintext decrypted =>
      rw [Except.ok.injEq] at opened
      exact ⟨plaintext, aesGcmDecrypt_eq_ok.mp decrypted, opened.symm⟩
    next => contradiction
  · rintro ⟨plaintext, sealed, rfl⟩
    rw [aesGcmDecrypt_eq_ok.mpr sealed]

theorem followHeader_ok {state next : RatchetState} {header : RatchetHeader} {now fresh : Nat}
    (followed : followHeader state header now fresh = .ok next) :
    (some header.dh ≠ state.dhr ∧ ∃ closed, skipUntil state header.pn now = .ok closed ∧
        dhRatchet closed header fresh = .ok next) ∨
      (some header.dh = state.dhr ∧ (state.nr : JsNumber) ≤ header.n ∧ next = state) := by
  simp only [followHeader] at followed
  by_cases turn : some header.dh ≠ state.dhr
  · rw [if_pos turn, bind_eq_ok] at followed
    exact .inl ⟨turn, followed⟩
  · rw [if_neg turn] at followed
    by_cases late : header.n < state.nr
    · simp [late] at followed
    · rw [if_neg late, Except.ok.injEq] at followed
      exact .inr ⟨not_not.mp turn, not_lt.mp late, followed.symm⟩

/-- A frame is opened with a stored key, or with the next key of its chain. -/
theorem ratchetDecrypt_ok {state next : RatchetState} {message : RatchetMessage} {ad : Term}
    {now fresh : Nat} {text : List UInt16}
    (opened : ratchetDecrypt state message ad now fresh = .ok (text, next)) :
    (∃ held mk, state.skipped.find? (isSkipped message.header) = some held ∧
        fromBase64 held.mk = .ok mk ∧ tryOpen mk message ad = .ok text ∧
        next = { state with skipped := state.skipped.eraseP (isSkipped message.header) }) ∨
      (state.skipped.find? (isSkipped message.header) = none ∧ ∃ followed reached ck,
        followHeader state message.header now fresh = .ok followed ∧
        skipUntil followed message.header.n now = .ok reached ∧
        fromBase64OrNull reached.ckr = .ok ck ∧ tryOpen (kdfChain ck).mk message ad = .ok text ∧
        next = { reached with ckr := some (toBase64 (kdfChain ck).ck), nr := reached.nr + 1 }) := by
  simp only [ratchetDecrypt] at opened
  cases search : state.skipped.find? (isSkipped message.header) with
  | some held =>
      simp only [search, bind_eq_ok, pure_eq_ok, Prod.mk.injEq] at opened
      obtain ⟨mk, mkEq, plaintext, openedEq, rfl, rfl⟩ := opened
      exact .inl ⟨held, mk, rfl, mkEq, openedEq, rfl⟩
  | none =>
      simp only [search, bind_eq_ok, pure_eq_ok, Prod.mk.injEq] at opened
      obtain ⟨followed, followedEq, reached, reachedEq, ck, ckEq, plaintext, openedEq, rfl, rfl⟩ :=
        opened
      exact .inr ⟨rfl, followed, reached, ck, followedEq, reachedEq, ckEq, openedEq, rfl⟩

theorem ratchetEncrypt_ok {state next : RatchetState} {text : List UInt16} {ad : Term}
    {message : RatchetMessage} (sent : ratchetEncrypt state text ad = .ok (message, next)) :
    ∃ cks ck, state.cks = some cks ∧ fromBase64 cks = .ok ck ∧
      message.header = { dh := state.dhsPub, pn := state.pn, n := state.ns } ∧
      message.ciphertext = .aead (cipherParams (kdfChain ck).mk).key
        (cipherParams (kdfChain ck).mk).iv (utf8Encode text)
        (concatBytes [ad, headerBytes message.header]) ∧
      next = { state with cks := some (toBase64 (kdfChain ck).ck), ns := state.ns + 1 } := by
  simp only [ratchetEncrypt] at sent
  cases chain : state.cks with
  | none => simp [chain] at sent
  | some cks =>
      simp only [chain, bind_eq_ok, pure_eq_ok, Prod.mk.injEq] at sent
      obtain ⟨ck, ckEq, rfl, rfl⟩ := sent
      exact ⟨cks, ck, rfl, ckEq, rfl, rfl, rfl⟩

theorem initInitiator_ok {sharedSecret ratchetPub : Term} {dhs : Nat} {state : RatchetState}
    (started : initInitiator sharedSecret ratchetPub dhs = .ok state) :
    ∃ out, dh (.secret dhs) ratchetPub = .ok out ∧ state = {
      dhsPriv := toBase64 (.secret dhs)
      dhsPub := toBase64 (.pub dhs)
      dhr := some (toBase64 ratchetPub)
      rk := toBase64 (kdfRoot sharedSecret out).rk
      cks := some (toBase64 (kdfRoot sharedSecret out).ck)
      ckr := none
      ns := 0
      nr := 0
      pn := 0
      skipped := [] } := by
  simp only [initInitiator, bind_eq_ok, pure_eq_ok] at started
  obtain ⟨out, outEq, rfl⟩ := started
  exact ⟨out, outEq, rfl⟩

end DoubleRatchet
