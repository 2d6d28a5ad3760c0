import CipherChat.Ratchet.Interleavings
import CipherChat.Symbolic.Leak

/-!
A thief copies one party's session record, knows both long-term identity keys and has kept every
envelope: which message keys stay out of reach.
-/

namespace RatchetPair

open Symbolic Number Primitives KeyStore DoubleRatchet EnvelopeV2

/-- Everything secret that a session record holds. -/
def Loot (state : RatchetState) (t : Term) : Prop :=
  fromBase64 state.dhsPriv = .ok t ∨ fromBase64 state.rk = .ok t ∨
    (∃ cks, state.cks = some cks ∧ fromBase64 cks = .ok t) ∨
    (∃ ckr, state.ckr = some ckr ∧ fromBase64 ckr = .ok t) ∨
    ∃ e ∈ state.skipped, fromBase64 e.mk = .ok t

/-- What the thief of `state` knows once the envelopes of `w` were sent. -/
def Thief (s : Setting) (state : RatchetState) (w : World) (t : Term) : Prop :=
  Loot state t ∨ (∃ f ∈ w.flights, fromBase64 f.envelope.ct = .ok t) ∨ (∃ name, t = .pub name) ∨
    t = .secret s.ikA ∨ t = .secret s.ikB

/-- The responder's two private keys, and what is public. -/
def Device (s : Setting) (t : Term) : Prop :=
  t = .secret s.ikB ∨ t = .secret s.spk ∨ ∃ name, t = .pub name

section Keys

variable (s : Setting) (key len : Nat → Nat) (j : Nat) (state : RatchetState)

def Lost (name : Nat) : Prop :=
  name = s.ikA ∨ name = s.ikB ∨ name = key j

/-- The keys in the record of the owner of key `j`. -/
def Leaked (t : Term) : Prop :=
  t = root (secret s) key j ∨ (0 < j ∧ t = chainAfter (chain (secret s) key j) (len j)) ∨
    (2 ≤ j ∧ t = chainAfter (chain (secret s) key (j - 1)) state.nr) ∨
    ∃ i n, (∃ e ∈ state.skipped, e.dh = some (toBase64 (.pub (key i))) ∧ e.n = n) ∧
      0 < i ∧ t = messageKeyAfter (chain (secret s) key i) n

end Keys

section

variable {s : Setting} {key len : Nat → Nat} {j : Nat} {state : RatchetState}

theorem derived_root (i : Nat) : Derived (root (secret s) key i) := by
  cases i <;> trivial

theorem derived_chainAfter (i n : Nat) : Derived (chainAfter (chain (secret s) key i) n) := by
  cases n with
  | zero => trivial
  | succ n =>
      rw [chainAfter_succ]
      trivial

/-- Nothing in the record is more than what is counted as leaked. -/
theorem Receiver.loot (r : Receiver (secret s) key len j state) {t : Term} (loot : Loot state t) :
    Exposed (Lost s key j) (Leaked s key len j state) t := by
  rcases loot with isKey | isRoot | ⟨cks, isChain, decoded⟩ | ⟨ckr, isChain, decoded⟩ |
    ⟨e, member, decoded⟩
  · rw [r.side.dhsPriv, fromBase64_toBase64, Except.ok.injEq] at isKey
    subst isKey
    exact .inr (.inr rfl)
  · rw [r.side.rk, fromBase64_toBase64, Except.ok.injEq] at isRoot
    subst isRoot
    exact exposed_of_leaked (derived_root j) (.inl rfl)
  · have isSide := r.side.cks
    rw [isChain] at isSide
    split at isSide
    · cases isSide
    · obtain rfl := Option.some.inj isSide
      rw [fromBase64_toBase64, Except.ok.injEq] at decoded
      subst decoded
      exact exposed_of_leaked (derived_chainAfter _ _) (.inr (.inl ⟨by omega, rfl⟩))
  · have isSide := r.side.ckr
    rw [isChain] at isSide
    split at isSide
    · cases isSide
    · obtain rfl := Option.some.inj isSide
      rw [fromBase64_toBase64, Except.ok.injEq] at decoded
      subst decoded
      exact exposed_of_leaked (derived_chainAfter _ _) (.inr (.inr (.inl ⟨by omega, rfl⟩)))
  · obtain ⟨i, some, _, isPeer, isValue, _⟩ := r.stored e member
    rw [isValue, fromBase64_toBase64, Except.ok.injEq] at decoded
    subst decoded
    exact exposed_of_leaked trivial (.inr (.inr (.inr ⟨i, e.n, ⟨e, member, isPeer, rfl⟩, some, rfl⟩)))

theorem Linked.thief {len' : Nat → Nat} {idx : Role → Nat} {w : World} (linked : Linked s key len' idx w)
    (r : Receiver (secret s) key len j state) {t : Term} (known : Thief s state w t) :
    Exposed (Lost s key j) (Leaked s key len j state) t := by
  rcases known with loot | ⟨f, member, decoded⟩ | ⟨name, rfl⟩ | rfl | rfl
  · exact r.loot loot
  · obtain ⟨i, n, _, genuine, _⟩ := linked.flights f member
    rw [genuine.ct, fromBase64_toBase64, Except.ok.injEq] at decoded
    subst decoded
    trivial
  · trivial
  · exact .inl rfl
  · exact .inr (.inl rfl)

theorem leaked_root {i : Nat} (isLeaked : Leaked s key len j state (root (secret s) key (i + 1))) :
    i + 1 = j := by
  rcases isLeaked with same | ⟨_, same⟩ | ⟨_, same⟩ | ⟨_, _, _, _, same⟩
  · exact root_injective same
  · exact absurd same.symm chainAfter_ne_root
  · exact absurd same.symm chainAfter_ne_root
  · cases same

theorem chainAfter_ne_root_secret {i n m : Nat} : chainAfter (chain (secret s) key i) n ≠ root (secret s) key m := by
  cases m with
  | succ m => exact chainAfter_ne_root
  | zero =>
      intro same
      cases n with
      | zero => cases same
      | succ n =>
          rw [chainAfter_succ] at same
          cases same

theorem messageKeyAfter_ne_root {ck : Term} {n m : Nat} : messageKeyAfter ck n ≠ root (secret s) key m := by
  cases m <;> exact fun same => by cases same

theorem leaked_chain {i n : Nat} (some : 0 < i)
    (isLeaked : Leaked s key len j state (chainAfter (chain (secret s) key i) n)) :
    (i = j ∧ n = len j) ∨ (i + 1 = j ∧ n = state.nr) := by
  rcases isLeaked with same | ⟨started, same⟩ | ⟨two, same⟩ | ⟨_, _, _, _, same⟩
  · exact absurd same chainAfter_ne_root_secret
  · exact .inl (chainAfter_chain_inj some started same)
  · obtain ⟨isChain, isNumber⟩ := chainAfter_chain_inj some (by omega) same
    exact .inr ⟨by omega, isNumber⟩
  · exact absurd same.symm messageKeyAfter_ne_chainAfter

theorem leaked_message {i n : Nat} (some : 0 < i)
    (isLeaked : Leaked s key len j state (messageKeyAfter (chain (secret s) key i) n)) :
    ∃ e ∈ state.skipped, e.dh = Option.some (toBase64 (.pub (key i))) ∧ e.n = n := by
  rcases isLeaked with same | ⟨_, same⟩ | ⟨_, same⟩ | ⟨i', n', ⟨e, member, isPeer, isNumber⟩, some', same⟩
  · exact absurd same messageKeyAfter_ne_root
  · exact absurd same messageKeyAfter_ne_chainAfter
  · exact absurd same messageKeyAfter_ne_chainAfter
  · obtain ⟨rfl, rfl⟩ := messageKeyAfter_chain_inj some some' same
    exact ⟨e, member, isPeer, isNumber⟩

theorem not_leaked_hkdf {ikm salt : Term} {info : String} {length : Nat}
    (other : 0 < j ∨ info ≠ X3DH_INFO_V2) : ¬Leaked s key len j state (.hkdf ikm salt info length) := by
  have notChain (i n : Nat) : Term.hkdf ikm salt info length ≠ chainAfter (chain (secret s) key i) n := by
    intro same
    cases n with
    | zero => cases same
    | succ n =>
        rw [chainAfter_succ] at same
        cases same
  rintro (same | ⟨_, same⟩ | ⟨_, same⟩ | ⟨_, _, _, _, same⟩)
  · cases j with
    | zero =>
        rcases other with started | apart
        · exact Nat.lt_irrefl 0 started
        · simp only [root, secret, sharedSecret, hkdfSha256, Term.hkdf.injEq] at same
          exact apart same.2.2.1
    | succ j => cases same
  · exact notChain _ _ same
  · exact notChain _ _ same
  · cases same

theorem not_leaked_root {i : Nat} :
    ¬Leaked s key len j state (hkdfSha256 (link key i) (some (root (secret s) key i)) INFO_ROOT 64) :=
  not_leaked_hkdf (.inr (by simp [INFO_ROOT, X3DH_INFO_V2]))

theorem not_leaked_cipherKey (mk : Term) : ¬Leaked s key len j state (cipherParams mk).key := by
  have notChain (i n : Nat) : (cipherParams mk).key ≠ chainAfter (chain (secret s) key i) n := by
    intro same
    cases n with
    | zero => simp [cipherParams, chain, kdfRoot] at same
    | succ n =>
        rw [chainAfter_succ] at same
        cases same
  rintro (same | ⟨_, same⟩ | ⟨_, same⟩ | ⟨_, _, _, _, same⟩)
  · cases j with
    | zero => cases same
    | succ j => simp [cipherParams, root_succ, kdfRoot, hkdfSha256, INFO_MESSAGE, INFO_ROOT] at same
  · exact notChain _ _ same
  · exact notChain _ _ same
  · cases same

/-- The root or the agreement that chain `i + 1` was made from is out of reach. -/
def Hidden (s : Setting) (key len : Nat → Nat) (j : Nat) (state : RatchetState) (i : Nat) : Prop :=
  ¬Exposed (Lost s key j) (Leaked s key len j state) (root (secret s) key i) ∨
    ¬Exposed (Lost s key j) (Leaked s key len j state) (link key i)

theorem Hidden.root {i : Nat} (hidden : Hidden s key len j state i) (other : i + 1 ≠ j) :
    ¬Exposed (Lost s key j) (Leaked s key len j state) (RatchetPair.root (secret s) key (i + 1)) := by
  rintro (isLeaked | isLeaked | ⟨isLink, isRoot⟩)
  · exact other (leaked_root isLeaked)
  · exact not_leaked_root isLeaked
  · exact hidden.elim (fun none => none isRoot) fun none => none isLink

theorem Hidden.chain {i : Nat} (hidden : Hidden s key len j state i) {n : Nat}
    (own : i + 1 = j → n < len j) (peer : i + 2 = j → n < state.nr) :
    ¬Exposed (Lost s key j) (Leaked s key len j state)
      (chainAfter (RatchetPair.chain (secret s) key (i + 1)) n) := by
  have unleaked (m : Nat) (below : m ≤ n) :
      ¬Leaked s key len j state (chainAfter (RatchetPair.chain (secret s) key (i + 1)) m) := by
    intro isLeaked
    rcases leaked_chain (Nat.succ_pos i) isLeaked with ⟨here, rfl⟩ | ⟨here, rfl⟩
    · have := own here
      omega
    · have := peer here
      omega
  induction n with
  | zero =>
      rintro (isLeaked | isLeaked | ⟨isLink, isRoot⟩)
      · exact unleaked 0 le_rfl isLeaked
      · exact not_leaked_root isLeaked
      · exact hidden.elim (fun none => none isRoot) fun none => none isLink
  | succ n ih =>
      have before := ih (fun here => by have := own here; omega) (fun here => by have := peer here; omega)
        fun m below => unleaked m (by omega)
      have isStep := unleaked (n + 1) le_rfl
      rw [chainAfter_succ] at isStep ⊢
      rintro (isLeaked | ⟨isChain, _⟩)
      · exact isStep isLeaked
      · exact before isChain

/-- The key that message `n` of a chain is sealed with. -/
theorem Hidden.message {i : Nat} (hidden : Hidden s key len j state i) {n : Nat}
    (own : i + 1 = j → n < len j) (peer : i + 2 = j → n < state.nr)
    (gone : ∀ e ∈ state.skipped, e.dh = some (toBase64 (.pub (key (i + 1)))) → e.n ≠ n) :
    ¬Exposed (Lost s key j) (Leaked s key len j state)
      (cipherParams (messageKeyAfter (RatchetPair.chain (secret s) key (i + 1)) n)).key := by
  have isChain := hidden.chain own peer
  rintro (isLeaked | isLeaked | ⟨isLeaked | ⟨isExposed, _⟩, _⟩)
  · exact not_leaked_cipherKey _ isLeaked
  · exact not_leaked_hkdf (.inr (by simp [INFO_MESSAGE, X3DH_INFO_V2])) isLeaked
  · obtain ⟨e, member, isPeer, isNumber⟩ := leaked_message (Nat.succ_pos i) isLeaked
    exact gone e member isPeer isNumber
  · exact isChain isExposed

end

section Runs

variable {s : Setting} {key len : Nat → Nat} {idx : Role → Nat} {w : World}

/-- Two ratchet keys that follow one another, neither of which is lost, agree on something hidden. -/
theorem Linked.hidden_link (linked : Linked s key len idx w) {j i : Nat} (near : i + 1 ≤ top idx)
    (own : j ≤ top idx) (apart : i ≠ j) (apart' : i + 1 ≠ j) (len' : Nat → Nat) (state : RatchetState) :
    Hidden s key len' j state i := by
  have found (m : Nat) (below : m ≤ top idx) (other : m ≠ j) : ¬Lost s key j (key m) := by
    rintro (isA | isB | same)
    · exact (linked.fixed s.ikA (by simp)).2 m below isA
    · exact (linked.fixed s.ikB (by simp)).2 m below isB
    · exact other (linked.distinct m below j own same)
  refine .inr fun isExposed => ?_
  rcases exposed_shared.mp isExposed with first | second
  · exact found i (by omega) apart first
  · exact found (i + 1) near apart' second

/-- The secret that the session started from is hidden once the responder's signed pre-key is. -/
theorem Linked.hidden_secret (linked : Linked s key len idx w) (isFirst : key 0 = s.spk) {j : Nat}
    (started : 0 < j) (own : j ≤ top idx) (len' : Nat → Nat) (state : RatchetState) :
    Hidden s key len' j state 0 := by
  have apart := s.apart
  simp only [List.nodup_cons, List.mem_cons, List.not_mem_nil, or_false, not_or] at apart
  refine .inl ?_
  rintro (isLeaked | ⟨⟨_, _, isExposed⟩, _⟩)
  · exact not_leaked_hkdf (.inl started) isLeaked
  · rcases exposed_shared.mp isExposed with (isA | isB | same) | isA | isB | same
    · exact apart.1.2.2.1 isA.symm
    · exact apart.2.1.2.1 isB.symm
    · exact (linked.fixed s.ek (by simp)).2 j own same.symm
    · exact apart.1.2.1 isA.symm
    · exact apart.2.1.1 isB.symm
    · have := linked.distinct 0 (by omega) j own (isFirst.trans same)
      omega

/-- The chains up to one's own began where a thief of the record cannot look. -/
theorem Linked.hidden_before (linked : Linked s key len idx w) (isFirst : key 0 = s.spk) {j i : Nat}
    (below : i < j) (own : j ≤ top idx) (len' : Nat → Nat) (state : RatchetState) :
    Hidden s key len' j state i := by
  by_cases last : i + 1 = j
  · cases i with
    | zero => exact linked.hidden_secret isFirst (by omega) own len' state
    | succ i =>
        have before := linked.hidden_link (i := i) (by omega) own (by omega) (by omega) len' state
        exact .inl (before.root (by omega))
  · exact linked.hidden_link (by omega) own (by omega) last len' state

/-- Forward secrecy: whoever takes a party's record and both identity keys does not learn the key of any
message that the party has sent or opened. -/
theorem forward_secret (s : Setting) (actions : List Action) (fair : FairRun s (start s) actions)
    (role : Role) : ∀ f ∈ (run s (start s) actions).flights, f.sender = role ∨ f.opened = true →
      ∀ k iv p a, fromBase64 f.envelope.ct = .ok (.aead k iv p a) →
        ¬Derives (Thief s (stateOf s (run s (start s) actions) role) (run s (start s) actions)) k := by
  obtain ⟨⟨key, len, idx, linked, grown⟩, _⟩ := (Linked.start s).run fair
  intro f member done k iv p a isCiphertext derived
  obtain ⟨i, n, near, genuine, received⟩ := linked.flights f member
  have r := linked.receivers role
  have isFirst : key 0 = s.spk := grown.same 0 (Nat.zero_le _)
  have own := le_top idx role
  obtain ⟨i, rfl⟩ := Nat.exists_eq_succ_of_ne_zero (Nat.ne_of_gt genuine.some)
  have isKey : k = (cipherParams (messageKeyAfter (chain (secret s) key (i + 1)) n)).key := by
    have same := genuine.ct ▸ isCiphertext
    rw [fromBase64_toBase64, Except.ok.injEq, ciphertext, Term.aead.injEq] at same
    exact same.1.symm
  have exposed := derived.isExposed fun t known => linked.thief r known
  rw [isKey] at exposed
  by_cases isSender : f.sender = role
  · rw [isSender] at near
    have parity := genuine.parity
    have parity' := linked.parity role
    rw [isSender] at parity
    refine (linked.hidden_before isFirst (by omega) own len _).message ?_ ?_ ?_ exposed
    · intro here
      exact here ▸ genuine.below
    · intro isPeer
      omega
    · intro e isStored isPeer _
      obtain ⟨i', _, passed, isPeer', _, apart⟩ := r.stored e isStored
      have bound := passed.le
      rw [isPeer', toBase64, toBase64, Option.some.injEq, Base64.enc.injEq, Term.pub.injEq] at isPeer
      have same := linked.distinct i' (by omega) (i + 1) (by omega) isPeer.2
      omega
  · have isOpen := done.resolve_left isSender
    have isRole : other f.sender = role := by
      cases hs : f.sender <;> cases role <;> first | rfl | exact absurd hs isSender
    rw [isRole] at received
    obtain ⟨passed, gone⟩ := received.opened isOpen
    have bound := passed.le
    refine (linked.hidden_before isFirst (by omega) own len _).message ?_ ?_ ?_ exposed
    · intro here
      omega
    · intro here
      rcases passed with early | ⟨_, below⟩
      · omega
      · exact below
    · intro e isStored isPeer isNumber
      have held := (isSkipped_genuine genuine isPeer (fun _ => rfl)).mpr ⟨rfl, isNumber⟩
      rw [gone e isStored] at held
      cases held

/-- The initiator, robbed after it has sent a message. -/
theorem forward_secret_exchange : FairRun pair (start pair) exchange ∧
    ∀ f ∈ (run pair (start pair) exchange).flights, f.sender = .init → ∀ k iv p a,
      fromBase64 f.envelope.ct = .ok (.aead k iv p a) →
        ¬Derives (Thief pair (stateOf pair (run pair (start pair) exchange) .init)
          (run pair (start pair) exchange)) k := by
  refine ⟨fair_exchange, ?_⟩
  intro f member isSender
  exact forward_secret pair exchange fair_exchange .init f member (.inl isSender)

/-- The party that was robbed has drawn a key since, and the message sealed now builds on it. -/
theorem Linked.renewed (linked : Linked s key len idx w) {w' : World} {key' len' : Nat → Nat}
    {idx' : Role → Nat} (linked' : Linked s key' len' idx' w') (grown : Grown w key idx key' idx')
    {role sender : Role} {name : Nat} (new : name ∉ w.drawn) (positive : 0 < idx' sender)
    (renewed : (if sender = role then some (stateOf s w' sender).dhsPub else (stateOf s w' sender).dhr) =
      some (toBase64 (.pub name))) : idx role + 2 ≤ idx' sender := by
  have later (m : Nat) (isName : key' m = name) : top idx < m := by
    by_contra early
    rw [grown.same m (by omega)] at isName
    exact new (isName ▸ linked.drawn m (by omega))
  have bound := le_top idx role
  have parity := linked.parity role
  have parity' := linked'.parity sender
  have r := linked'.receivers sender
  by_cases isRole : sender = role
  · rw [if_pos isRole, r.side.dhsPub, toBase64, toBase64, Option.some.injEq, Base64.enc.injEq,
      Term.pub.injEq] at renewed
    have above := later _ renewed.2
    rw [isRole] at parity' above ⊢
    omega
  · rw [if_neg isRole, r.side.dhr, if_neg (by omega), toBase64, toBase64, Option.some.injEq,
      Base64.enc.injEq, Term.pub.injEq] at renewed
    have above := later _ renewed.2
    have apart : (if sender = Role.init then 1 else 0) ≠ if role = Role.init then 1 else 0 := by
      cases sender <;> cases role <;> first | decide | exact absurd rfl isRole
    omega

/-- Healing: once a robbed party has drawn a new ratchet key, what is sealed under it, or by a peer that
has taken it up, is out of the thief's reach whatever is sent later. -/
theorem heals (s : Setting) (before later after : List Action) (role sender : Role) (text : List UInt16)
    (fair : FairRun s (start s) (before ++ later ++ .send sender text :: after))
    {session next : RatchetSession} {envelope : WireEnvelopeV2}
    (found : (run s (start s) (before ++ later)).session sender = some session)
    (sent : sealV2 session (s.userId sender) text = .ok (envelope, next)) {name : Nat}
    (new : name ∉ (run s (start s) before).drawn)
    (renewed : (if sender = role then some session.state.dhsPub else session.state.dhr) =
      some (toBase64 (.pub name))) :
    ∀ k iv p a, fromBase64 envelope.ct = .ok (.aead k iv p a) →
      ¬Derives (Thief s (stateOf s (run s (start s) before) role)
        (run s (start s) (before ++ later ++ .send sender text :: after))) k := by
  obtain ⟨fair', rest⟩ := fairRun_append.mp fair
  obtain ⟨first, second⟩ := fairRun_append.mp fair'
  obtain ⟨⟨key, len, idx, linked, _⟩, _⟩ := (Linked.start s).run first
  obtain ⟨⟨key', len', idx', linked', grown⟩, _⟩ := linked.run second
  rw [← run_append] at linked'
  obtain ⟨⟨key'', len'', idx'', linked'', grown'⟩, _⟩ := linked'.run rest
  rw [← run_append] at linked''
  obtain ⟨message, state, encrypted, isEnvelope, _⟩ := sealV2_ok sent
  have r' := linked'.receivers sender
  rw [stateOf_some found] at r'
  obtain ⟨positive, _, isCiphertext, _⟩ := r'.seals encrypted
  have ahead := linked.renewed linked' grown new positive (by rw [stateOf_some found]; exact renewed)
  have more : ∀ name ∈ (run s (start s) before).drawn, name ∈ (run s (start s) (before ++ later)).drawn := by
    rw [run_append]
    exact drawn_run later
  have grown'' := grown.trans grown' more
  have bound := le_top idx role
  have bound' := le_top idx' sender
  have later' := top_mono grown'.later
  have later'' := top_mono grown''.later
  have r : Receiver (secret s) key'' len (idx role) (stateOf s (run s (start s) before) role) :=
    (linked.receivers role).congr (fun m below => grown''.same m (by omega)) fun _ _ => rfl
  intro k iv p a isSealed derived
  have exposed := derived.isExposed fun t known => linked''.thief r known
  obtain ⟨i, isChain⟩ := Nat.exists_eq_succ_of_ne_zero (Nat.ne_of_gt positive)
  have isKey : k = (cipherParams (messageKeyAfter (chain (secret s) key'' (i + 1)) (len' (idx' sender)))).key := by
    rw [isEnvelope, fromBase64_toBase64, Except.ok.injEq, isCiphertext, Term.aead.injEq] at isSealed
    rw [← isSealed.1, isChain, chain_congr (Nat.succ_pos i) fun m below => grown'.same m (by omega)]
  rw [isKey] at exposed
  refine (linked''.hidden_link (by omega) (by omega) (by omega) (by omega) len _).message ?_ ?_ ?_ exposed
  · intro here
    omega
  · intro here
    omega
  · intro e isStored isPeer _
    obtain ⟨i', _, passed, isPeer', _⟩ := r.stored e isStored
    have bound := passed.le
    rw [isPeer', toBase64, toBase64, Option.some.injEq, Base64.enc.injEq, Term.pub.injEq] at isPeer
    have same := linked''.distinct i' (by omega) (i + 1) (by omega) isPeer.2
    omega

theorem derives_chainAfter {known : Term → Prop} {ck : Term} (derived : Derives known ck) (n : Nat) :
    Derives known (chainAfter ck n) := by
  induction n with
  | zero => exact derived
  | succ n ih =>
      rw [chainAfter_succ]
      exact .hmac ih (.bytes _)

theorem derives_cipherKey {known : Term → Prop} {ck : Term} (derived : Derives known ck) (n : Nat) :
    Derives known (cipherParams (messageKeyAfter ck n)).key :=
  .slice (.hkdf (.hmac (derives_chainAfter derived n) (.bytes _)) (.bytes _))

/-- The signed pre-key is not covered: with the responder's two private keys and what is public, every
message that was sealed under the first ratchet key can be opened, however long ago it was. -/
theorem first_chain_open (s : Setting) (actions : List Action) (fair : FairRun s (start s) actions) :
    ∀ f ∈ (run s (start s) actions).flights, f.envelope.dh = toBase64 (.pub s.dhs) →
      ∃ k iv a, fromBase64 f.envelope.ct = .ok (.aead k iv (utf8Encode f.text) a) ∧
        Derives (Device s) k := by
  obtain ⟨⟨key, len, idx, linked, grown⟩, _⟩ := (Linked.start s).run fair
  intro f member isFirst
  obtain ⟨i, n, near, genuine, _⟩ := linked.flights f member
  have later := top_mono grown.later
  have isTop : top (fun role => if role = Role.init then 1 else 0) = 1 := rfl
  rw [isTop] at later
  have isSpk : key 0 = s.spk := grown.same 0 (Nat.zero_le _)
  have isDhs : key 1 = s.dhs := grown.same 1 le_rfl
  have first : i = 1 := by
    rw [genuine.dh, toBase64, toBase64, Base64.enc.injEq, Term.pub.injEq, ← isDhs] at isFirst
    exact linked.distinct i (near.trans (le_top _ _)) 1 later isFirst.2
  subst first
  refine ⟨_, _, _, by rw [genuine.ct, fromBase64_toBase64, ciphertext], derives_cipherKey ?_ n⟩
  have ikB : Derives (Device s) (.secret s.ikB) := .known (.inl rfl)
  have spk : Derives (Device s) (.secret s.spk) := .known (.inr (.inl rfl))
  have isPub (name : Nat) : Derives (Device s) (.pub name) := .known (.inr (.inr ⟨name, rfl⟩))
  have isSecret : Derives (Device s) (secret s) := by
    rw [secret, min_comm s.ikA, max_comm s.ikA, min_comm s.ek s.ikB, max_comm s.ek s.ikB,
      min_comm s.ek s.spk, max_comm s.ek s.spk]
    exact .hkdf (.cat (.shared spk (isPub _)) (.cat (.shared ikB (isPub _)) (.shared spk (isPub _))))
      (.bytes _)
  have isLink : Derives (Device s) (link key 0) := by
    rw [link, isSpk]
    exact .shared spk (isPub _)
  exact .slice (.hkdf isLink isSecret)

theorem first_chain_open_exchange : FairRun pair (start pair) exchange ∧
    ∀ f ∈ (run pair (start pair) exchange).flights, f.envelope.dh = toBase64 (.pub 8) →
      ∃ k iv a, fromBase64 f.envelope.ct = .ok (.aead k iv (utf8Encode f.text) a) ∧
        Derives (Device pair) k :=
  ⟨fair_exchange, first_chain_open pair exchange fair_exchange⟩

/-- The responder, robbed before it has received anything, answers the first message. -/
theorem heals_exchange : ∃ session envelope next,
    (run pair (start pair) exchange).session .resp = some session ∧
      sealV2 session "b" [111, 107] = .ok (envelope, next) ∧
      ∀ k iv p a, fromBase64 envelope.ct = .ok (.aead k iv p a) →
        ¬Derives (Thief pair (stateOf pair (start pair) .resp)
          (run pair (start pair) (exchange ++ [.send .resp [111, 107]]))) k := by
  have fair : FairRun pair (start pair) ([] ++ exchange ++ .send .resp [111, 107] :: []) :=
    fairRun_append.mpr ⟨fair_exchange, trivial, trivial⟩
  obtain ⟨session, found⟩ : ∃ session, (run pair (start pair) exchange).session .resp = some session :=
    Option.isSome_iff_exists.mp (by decide +kernel)
  have isKey : ((run pair (start pair) exchange).session .resp).map (fun session => session.state.dhsPub) =
      some (toBase64 (.pub 9)) := by
    decide +kernel
  have seals : ((run pair (start pair) exchange).session .resp).any (fun session =>
      (sealV2 session "b" [111, 107]).isOk) = true := by
    decide +kernel
  rw [found] at isKey seals
  have new : 9 ∉ (run pair (start pair) []).drawn := by
    decide
  cases sent : sealV2 session "b" [111, 107] with
  | error e => simp [sent, Except.isOk, Except.toBool] at seals
  | ok result =>
      obtain ⟨envelope, next⟩ := result
      exact ⟨session, envelope, next, found, sent,
        heals pair [] exchange [] .resp .resp [111, 107] fair found sent new isKey⟩

end Runs

end RatchetPair
