import CipherChat.Ratchet.Linked

/-!
Every message of a pair is opened the first time it arrives, and only then.
-/

namespace RatchetPair

open Symbolic Number Primitives KeyStore DoubleRatchet EnvelopeV2

section Opening

variable {s : Setting} {key len : Nat → Nat} {j top i n : Nat} {state : RatchetState} {f : Flight}

/-- How the keys drawn go on when envelope `(i, n)` is opened by the owner of key `j`. -/
def Goes (key len : Nat → Nat) (j i fresh : Nat) (key' len' : Nat → Nat) (j' : Nat) : Prop :=
  (key' = key ∧ len' = len ∧ j' = j) ∨
    (i = j + 1 ∧ key' = Function.update key (j + 2) fresh ∧ len' = Function.update len (j + 2) 0 ∧
      j' = j + 2)

theorem Receiver.opens (r : Receiver (secret s) key len j state) (distinct : Distinct key top)
    (own : j ≤ top) (near : i ≤ top) (next : top ≤ j + 1) (turn : i % 2 ≠ j % 2)
    (genuine : Genuine s key len i n f) (received : Received j state i n f) (unopened : f.opened = false)
    (within : Within state f.envelope) (now : Nat) {fresh : Nat} (new : ∀ m ≤ top, key m ≠ fresh) :
    ∃ result key' len' j', ratchetDecrypt state
        { header := header f.envelope,
          ciphertext := ciphertext s (messageKeyAfter (chain (secret s) key i) n) f }
        (aad s.conversationId (s.userId f.sender) s.sessionId f.envelope.ctr) now fresh =
          .ok (utf8Decode (utf8Encode f.text), result) ∧
      Accepted s key len j top i n state f key' len' j' result ∧ Goes key len j i fresh key' len' j' := by
  have some := genuine.some
  by_cases held : ∃ e ∈ state.skipped, isSkipped (header f.envelope) e = true
  · obtain ⟨result, opened, accepted⟩ := r.opensHeld distinct own near genuine held now fresh
    exact ⟨result, key, len, j, opened, accepted, .inl ⟨rfl, rfl, rfl⟩⟩
  · have ahead : ¬Passed j state.nr i n := fun passed => held (received.held unopened passed)
    have bounds := within.resolve_left (by simpa [header] using held)
    have isPeer := r.side.dhr
    rw [genuine.dh, genuine.number, genuine.pn, Nat.ceil_natCast, Nat.ceil_natCast] at bounds
    by_cases current : i + 1 = j
    · rw [if_neg (by omega), show j - 1 = i by omega] at isPeer
      rw [if_pos isPeer.symm] at bounds
      have later : state.nr ≤ n := by
        by_contra less
        exact ahead (.inr ⟨current, by omega⟩)
      obtain ⟨result, opened, accepted⟩ :=
        r.opensCurrent distinct own genuine current later bounds.1 bounds.2 now fresh
      exact ⟨result, key, len, j, opened, accepted, .inl ⟨rfl, rfl, rfl⟩⟩
    · have last : i = j + 1 := by
        by_contra before
        exact ahead (.inl (by omega))
      obtain rfl : top = j + 1 := by omega
      have isOther : ¬Option.some (toBase64 (.pub (key i))) = state.dhr := by
        rw [isPeer]
        split
        · exact Option.some_ne_none _
        · simp only [toBase64, Option.some.injEq, Base64.enc.injEq, Term.pub.injEq, true_and]
          intro same
          have := distinct i near (j - 1) (by omega) same
          omega
      rw [if_neg isOther, last] at bounds
      obtain ⟨skips, skips', room⟩ := bounds
      obtain ⟨result, opened, accepted⟩ :=
        r.opensNext distinct genuine last skips skips' room now new
      exact ⟨result, _, _, _, opened, accepted, .inr ⟨last, rfl, rfl, rfl⟩⟩

/-- A state speaks of the keys up to its own. -/
theorem Receiver.congr (r : Receiver (secret s) key len j state) {key' len' : Nat → Nat}
    (same : ∀ m ≤ j, key' m = key m) (same' : ∀ m ≤ j, len' m = len m) :
    Receiver (secret s) key' len' j state := by
  refine ⟨⟨?_, ?_, ?_, ?_, ?_, ?_, ?_, ?_, r.side.idle⟩, ?_, ?_, r.once⟩
  · rw [same j le_rfl]
    exact r.side.dhsPriv
  · rw [same j le_rfl]
    exact r.side.dhsPub
  · rw [same (j - 1) (by omega)]
    exact r.side.dhr
  · rw [root_congr same]
    exact r.side.rk
  · rw [r.side.cks, same' j le_rfl]
    split
    · rfl
    · rw [chain_congr (by omega) same]
  · rw [r.side.ckr]
    split
    · rfl
    · rw [chain_congr (by omega) fun m below => same m (by omega)]
  · rw [same' j le_rfl]
    exact r.side.ns
  · rw [same' (j - 2) (by omega)]
    exact r.side.pn
  · intro two
    rw [same' (j - 1) (by omega)]
    exact r.reached two
  · intro e member
    obtain ⟨i, some, passed, isKey, isValue, isPeer, sealed⟩ := r.stored e member
    have below := passed.le
    refine ⟨i, some, passed, ?_, ?_, isPeer, ?_⟩
    · rw [same i (by omega)]
      exact isKey
    · rw [chain_congr some fun m early => same m (by omega)]
      exact isValue
    · rw [same' i (by omega)]
      exact sealed

end Opening

section Worlds

variable {s : Setting} {key len : Nat → Nat} {idx : Role → Nat} {w : World}

def top (idx : Role → Nat) : Nat :=
  max (idx .init) (idx .resp)

/-- The parties hold ratchet keys that follow one another, each as far as it has come, and every
envelope is on one of their chains. -/
structure Linked (s : Setting) (key len : Nat → Nat) (idx : Role → Nat) (w : World) : Prop where
  near : idx .init = idx .resp + 1 ∨ idx .resp = idx .init + 1
  parity : ∀ role, idx role % 2 = if role = .init then 1 else 0
  receivers : ∀ role, Receiver (secret s) key len (idx role) (stateOf s w role)
  distinct : Distinct key (top idx)
  drawn : ∀ i ≤ top idx, key i ∈ w.drawn
  /-- The other keys of the two devices. -/
  fixed : ∀ name ∈ [s.ikA, s.ikB, s.ek], name ∈ w.drawn ∧ ∀ i ≤ top idx, key i ≠ name
  complete : ∀ i n, n < len i → 0 < i ∧ ∃ f ∈ w.flights,
    f.envelope.dh = toBase64 (.pub (key i)) ∧ f.envelope.n = (n : Nat)
  flights : ∀ f ∈ w.flights, ∃ i n, i ≤ idx f.sender ∧ Genuine s key len i n f ∧
    Received (idx (other f.sender)) (stateOf s w (other f.sender)) i n f
  apart : (w.flights.map fun f => (f.envelope.dh, f.envelope.n)).Nodup
  sessions : ∀ role session, w.session role = some session →
    session.sessionId = s.sessionId ∧ session.conversationId = s.conversationId
  initiator : ∃ session, w.session .init = some session ∧ session.role = .init ∧
    session.init = s.session.init ∧ (session.peerReplied = true → w.session .resp ≠ none)
  waiting : w.session .resp = none → ∀ f ∈ w.flights, f.sender = .init →
    f.envelope.init = s.session.init

/-- The keys drawn are kept, and those to come are new. -/
structure Grown (w : World) (key : Nat → Nat) (idx : Role → Nat) (key' : Nat → Nat) (idx' : Role → Nat) :
    Prop where
  same : ∀ i ≤ top idx, key' i = key i
  later : ∀ role, idx role ≤ idx' role
  new : ∀ i, top idx < i → i ≤ top idx' → key' i ∉ w.drawn

theorem Grown.refl (w : World) (key : Nat → Nat) (idx : Role → Nat) : Grown w key idx key idx :=
  ⟨fun _ _ => rfl, fun _ => le_rfl, fun _ above below => by omega⟩

theorem top_mono {idx idx' : Role → Nat} (later : ∀ role, idx role ≤ idx' role) : top idx ≤ top idx' :=
  max_le_max (later .init) (later .resp)

theorem Grown.trans {w' : World} {key' key'' : Nat → Nat} {idx' idx'' : Role → Nat}
    (first : Grown w key idx key' idx') (second : Grown w' key' idx' key'' idx'')
    (more : ∀ name ∈ w.drawn, name ∈ w'.drawn) : Grown w key idx key'' idx'' := by
  have later := top_mono first.later
  refine ⟨?_, fun role => (first.later role).trans (second.later role), ?_⟩
  · intro i below
    rw [second.same i (below.trans later), first.same i below]
  · intro i above below
    by_cases old : i ≤ top idx'
    · rw [second.same i old]
      exact first.new i above old
    · intro isOld
      exact second.new i (by omega) below (more _ isOld)

theorem le_top (idx : Role → Nat) (role : Role) : idx role ≤ top idx := by
  cases role
  · exact le_max_left _ _
  · exact le_max_right _ _

theorem Linked.beside (linked : Linked s key len idx w) (role : Role) :
    idx (other role) = idx role + 1 ∨ idx role = idx (other role) + 1 := by
  have near := linked.near
  cases role
  · exact near.symm
  · exact near

theorem Linked.top_le (linked : Linked s key len idx w) (role : Role) : top idx ≤ idx role + 1 := by
  have near := linked.near
  rw [top]
  cases role <;> omega

theorem start_state : ∃ state, s.session.state = state ∧
    initInitiator (secret s) (.pub s.spk) s.dhs = .ok state ∧ s.session.sessionId = s.sessionId ∧
      s.session.conversationId = s.conversationId ∧ s.session.role = .init ∧
      s.session.peerReplied = false ∧ s.session.init = some {
        ephPub := toBase64 (.pub s.ek), ik := s.initiator.xPub, spkId := s.bundle.signedPreKey.keyId } := by
  obtain ⟨_, spkB, ikB, ikPriv, dh1, dh2, dh3, state, isSpk, isIk, isPriv, isDh1, isDh2, isDh3, started,
    isSession⟩ := startInitiator_ok s.started
  rw [s.servedPreKey, Except.ok.injEq] at isSpk
  rw [s.served, Except.ok.injEq] at isIk
  rw [s.xPriv, Except.ok.injEq] at isPriv
  subst isSpk isIk isPriv
  rw [dh_pub, Except.ok.injEq] at isDh1 isDh2 isDh3
  subst isDh1 isDh2 isDh3
  rw [isSession]
  exact ⟨state, rfl, started, rfl, rfl, rfl, rfl, rfl⟩

/-- The responder's first session, from the init block that the initiator sends. -/
theorem Setting.responds (s : Setting) (now : Nat) : ∃ session,
    startResponder s.conversationId (s.userId .init) s.sessionId s.responder {
      ephPub := toBase64 (.pub s.ek), ik := s.initiator.xPub, spkId := s.bundle.signedPreKey.keyId } now =
        .ok session ∧
      session.state = initResponder (secret s) (.secret s.spk) (.pub s.spk) ∧
      session.sessionId = s.sessionId ∧ session.conversationId = s.conversationId := by
  refine ⟨_, startResponder_eq_ok.mpr ⟨s.keyId, .secret s.spk, .pub s.ikA, .pub s.ek, .secret s.ikB, _, _, _,
    .pub s.spk, s.spkPriv, s.xPub, fromBase64_toBase64 _, s.responderPriv, dh_pub _ _, dh_pub _ _,
    dh_pub _ _, s.spkPub, rfl⟩, ?_, rfl, rfl⟩
  rw [secret, min_comm s.ikA, max_comm s.ikA, min_comm s.ek s.ikB, max_comm s.ek s.ikB, min_comm s.ek s.spk,
    max_comm s.ek s.spk]

/-- Before anything is sent. -/
theorem Linked.start (s : Setting) :
    Linked s (fun i => if i = 0 then s.spk else s.dhs) (fun _ => 0)
      (fun role => if role = .init then 1 else 0) (RatchetPair.start s) := by
  obtain ⟨state, isState, started, sessionId, conversationId, isRole, waiting, isInit⟩ := start_state (s := s)
  obtain ⟨out, isOut, isStarted⟩ := initInitiator_ok started
  rw [dh_pub, Except.ok.injEq] at isOut
  have isLink : out = link (fun i => if i = 0 then s.spk else s.dhs) 0 := by
    rw [← isOut, link, min_comm, max_comm]
    rfl
  have apart := s.apart
  simp only [List.nodup_cons, List.mem_cons, List.not_mem_nil, or_false, not_or] at apart
  refine ⟨.inl rfl, ?_, ?_, ?_, ?_, ?_, ?_, ?_, List.nodup_nil, ?_, ?_, ?_⟩
  · intro role
    cases role <;> rfl
  · intro role
    cases role with
    | init =>
        have isStart : stateOf s (RatchetPair.start s) .init = state := isState
        rw [isStart, isStarted, isLink]
        refine ⟨⟨rfl, rfl, rfl, rfl, rfl, rfl, rfl, rfl, fun _ => ⟨rfl, rfl⟩⟩, ?_, ?_, List.Pairwise.nil⟩
        · intro two
          exact absurd two (by decide)
        · intro e member
          cases member
    | resp =>
        refine ⟨⟨rfl, rfl, rfl, rfl, rfl, rfl, rfl, rfl, fun _ => ⟨rfl, rfl⟩⟩, ?_, ?_, List.Pairwise.nil⟩
        · intro two
          exact absurd two (by decide)
        · intro e member
          cases member
  · intro i below i' below' same
    have apart : s.dhs ≠ s.spk := fun isSpk => apart.2.2.1.2 isSpk.symm
    have two : top (fun role => if role = .init then 1 else 0) = 1 := rfl
    rw [two] at below below'
    have cases_i : i = 0 ∨ i = 1 := by omega
    have cases_i' : i' = 0 ∨ i' = 1 := by omega
    rcases cases_i with rfl | rfl <;> rcases cases_i' with rfl | rfl
    · rfl
    · exact absurd same.symm apart
    · exact absurd same apart
    · rfl
  · intro i _
    by_cases first : i = 0 <;> simp [RatchetPair.start, first]
  · intro name isFixed
    simp only [List.mem_cons, List.not_mem_nil, or_false] at isFixed
    refine ⟨?_, ?_⟩
    · rcases isFixed with rfl | rfl | rfl <;> simp [RatchetPair.start]
    · intro i _ same
      by_cases first : i = 0
      · simp only [first, if_true] at same
        rcases isFixed with rfl | rfl | rfl <;> simp [same] at apart
      · simp only [first, if_false] at same
        rcases isFixed with rfl | rfl | rfl <;> simp [same] at apart
  · intro i n below
    exact absurd below (Nat.not_lt_zero n)
  · intro f member
    cases member
  · intro role session found
    cases role with
    | init =>
        cases found
        exact ⟨sessionId, conversationId⟩
    | resp => cases found
  · refine ⟨s.session, rfl, isRole, rfl, ?_⟩
    intro replied
    rw [waiting] at replied
    cases replied
  · intro _ f member
    cases member

theorem stateOf_some {role : Role} {session : RatchetSession} (found : w.session role = some session) :
    stateOf s w role = session.state := by
  rw [stateOf, found]

theorem other_ne (role : Role) : other role ≠ role := by
  cases role <;> decide

theorem stateOf_update {w' : World} {role : Role} {session : RatchetSession}
    (isSession : w'.session = Function.update w.session role (some session)) (role' : Role) :
    stateOf s w' role' = if role' = role then session.state else stateOf s w role' := by
  by_cases same : role' = role
  · subst same
    simp [stateOf, isSession]
  · simp [stateOf, isSession, same]

/-- One more message on a chain changes nothing of what was sealed before. -/
theorem Genuine.more {i n : Nat} {f : Flight} (genuine : Genuine s key len i n f) {j : Nat}
    (positive : 0 < j) (before : i ≤ j + 1) :
    Genuine s key (Function.update len j (len j + 1)) i n f := by
  refine ⟨genuine.some, genuine.parity, ?_, genuine.dh, ?_, genuine.number, genuine.sessionId, genuine.ct⟩
  · have below := genuine.below
    by_cases same : i = j
    · rw [same, Function.update_self]
      rw [same] at below
      omega
    · rwa [Function.update_of_ne same]
  · rw [Function.update_of_ne (by omega)]
    exact genuine.pn

theorem Receiver.stored_more {i j : Nat} {state : RatchetState} (r : Receiver (secret s) key len i state) :
    ∀ e ∈ state.skipped, ∃ m, 0 < m ∧ Passed i state.nr m e.n ∧
      e.dh = some (toBase64 (.pub (key m))) ∧
      e.mk = toBase64 (messageKeyAfter (chain (secret s) key m) e.n) ∧ m % 2 ≠ i % 2 ∧
      e.n < Function.update len j (len j + 1) m := by
  intro e member
  obtain ⟨m, some, passed, isKey, isValue, isPeer, sealed⟩ := r.stored e member
  refine ⟨m, some, passed, isKey, isValue, isPeer, ?_⟩
  by_cases same : m = j
  · rw [same, Function.update_self]
    rw [same] at sealed
    omega
  · rwa [Function.update_of_ne same]

theorem Receiver.more {i j : Nat} {state : RatchetState} (r : Receiver (secret s) key len i state)
    (positive : 0 < j) (apart : i ≠ j) (before : i ≤ j + 1) :
    Receiver (secret s) key (Function.update len j (len j + 1)) i state := by
  refine ⟨⟨r.side.dhsPriv, r.side.dhsPub, r.side.dhr, r.side.rk, ?_, r.side.ckr, ?_, ?_, r.side.idle⟩, ?_,
    r.stored_more, r.once⟩
  · rw [Function.update_of_ne apart]
    exact r.side.cks
  · rw [Function.update_of_ne apart]
    exact r.side.ns
  · rw [Function.update_of_ne (by omega)]
    exact r.side.pn
  · intro two
    have reached := r.reached two
    by_cases same : i - 1 = j
    · rw [same, Function.update_self]
      rw [same] at reached
      omega
    · rwa [Function.update_of_ne same]

/-- A message is sealed on the chain of the sender's key. -/
theorem Receiver.seals {j : Nat} {state next : RatchetState} (r : Receiver (secret s) key len j state)
    {text : List UInt16} {ad : Term} {message : RatchetMessage}
    (sent : ratchetEncrypt state text ad = .ok (message, next)) :
    0 < j ∧ message.header = { dh := toBase64 (.pub (key j)), pn := (len (j - 2) : Nat), n := (len j : Nat) } ∧
      message.ciphertext = .aead
        (cipherParams (messageKeyAfter (chain (secret s) key j) (len j))).key
        (cipherParams (messageKeyAfter (chain (secret s) key j) (len j))).iv (utf8Encode text)
        (concatBytes [ad, headerBytes message.header]) ∧
      Receiver (secret s) key (Function.update len j (len j + 1)) j next ∧
      next.nr = state.nr ∧ next.skipped = state.skipped := by
  obtain ⟨cks, ck, isChain, decoded, isHeader, isCiphertext, rfl⟩ := ratchetEncrypt_ok sent
  have positive : 0 < j := by
    by_contra none
    rw [r.side.cks, if_pos (by omega)] at isChain
    cases isChain
  rw [r.side.cks, if_neg (by omega), Option.some.injEq] at isChain
  rw [← isChain, fromBase64_toBase64, Except.ok.injEq] at decoded
  rw [r.side.dhsPub, r.side.pn, r.side.ns] at isHeader
  rw [← decoded] at isCiphertext ⊢
  refine ⟨positive, isHeader, isCiphertext, ⟨⟨r.side.dhsPriv, r.side.dhsPub, r.side.dhr, r.side.rk, ?_,
    r.side.ckr, ?_, ?_, r.side.idle⟩, ?_, r.stored_more, r.once⟩, rfl, rfl⟩
  · rw [if_neg (by omega), Function.update_self, chainAfter_succ]
  · rw [Function.update_self]
    exact congrArg (fun n => n + 1) r.side.ns
  · rw [Function.update_of_ne (by omega)]
    exact r.side.pn
  · intro two
    rw [Function.update_of_ne (by omega)]
    exact r.reached two

theorem Linked.send (linked : Linked s key len idx w) {f : Flight} {session next : RatchetSession}
    (found : w.session f.sender = some session) (unopened : f.opened = false)
    (sent : sealV2 session (s.userId f.sender) f.text = .ok (f.envelope, next)) {w' : World}
    (isSession : w'.session = Function.update w.session f.sender (some next))
    (isFlights : w'.flights = w.flights ++ [f]) (isDrawn : w'.drawn = w.drawn) :
    Linked s key (Function.update len (idx f.sender) (len (idx f.sender) + 1)) idx w' := by
  obtain ⟨message, state, encrypted, isEnvelope, isNext⟩ := sealV2_ok sent
  obtain ⟨sameId, sameConversation⟩ := linked.sessions f.sender session found
  have r := linked.receivers f.sender
  rw [stateOf_some found] at r
  obtain ⟨positive, isHeader, isCiphertext, r', sameNr, sameSkipped⟩ := r.seals encrypted
  have beside := linked.beside f.sender
  have isState (role : Role) : stateOf s w' role = if role = f.sender then state else stateOf s w role := by
    rw [stateOf_update isSession, isNext]
  have genuine : Genuine s key (Function.update len (idx f.sender) (len (idx f.sender) + 1)) (idx f.sender)
      (len (idx f.sender)) f := by
    have sameHeader : header f.envelope = message.header := by
      rw [isEnvelope]
      rfl
    have isDh : f.envelope.dh = (header f.envelope).dh := rfl
    have isPn : f.envelope.pn = (header f.envelope).pn := rfl
    have isN : f.envelope.n = (header f.envelope).n := rfl
    refine ⟨positive, linked.parity f.sender, ?_, ?_, ?_, ?_, ?_, ?_⟩
    · rw [Function.update_self]
      omega
    · rw [isDh, sameHeader, isHeader]
    · rw [Function.update_of_ne (by omega), isPn, sameHeader, isHeader]
    · rw [isN, sameHeader, isHeader]
    · rw [isEnvelope]
      exact sameId
    · rw [ciphertext, sameHeader, isEnvelope, isCiphertext, sameId, sameConversation]
  refine ⟨linked.near, linked.parity, ?_, linked.distinct, by rw [isDrawn]; exact linked.drawn,
    by rw [isDrawn]; exact linked.fixed, ?_, ?_, ?_, ?_, ?_, ?_⟩
  · intro role
    rw [isState]
    by_cases same : role = f.sender
    · rw [if_pos same, same]
      exact r'
    · rw [if_neg same]
      have isOther : role = other f.sender := by
        cases isSender : f.sender <;> cases role <;> first | rfl | exact absurd isSender.symm same
      refine (linked.receivers role).more positive ?_ ?_ <;> rw [isOther] <;> omega
  · intro i n below
    rw [isFlights]
    by_cases last : i = idx f.sender ∧ n = len (idx f.sender)
    · obtain ⟨rfl, rfl⟩ := last
      exact ⟨positive, f, List.mem_append_right _ List.mem_cons_self, genuine.dh, genuine.number⟩
    · have old : n < len i := by
        by_cases here : i = idx f.sender
        · rw [here, Function.update_self] at below
          have apart : n ≠ len (idx f.sender) := fun same => last ⟨here, same⟩
          rw [here]
          omega
        · rwa [Function.update_of_ne here] at below
      obtain ⟨some, g, member, isKey⟩ := linked.complete i n old
      exact ⟨some, g, List.mem_append_left _ member, isKey⟩
  · intro g member
    rw [isFlights] at member
    rcases List.mem_append.mp member with old | new
    · obtain ⟨i, n, near, genuine, received⟩ := linked.flights g old
      have bound := linked.top_le f.sender
      have below := le_top idx g.sender
      refine ⟨i, n, near, genuine.more positive (by omega), ?_⟩
      rw [isState]
      by_cases same : other g.sender = f.sender
      · rw [if_pos same]
        rw [same, stateOf_some found] at received
        rw [same]
        refine ⟨?_, ?_⟩
        · rw [sameNr, sameSkipped]
          exact received.opened
        · rw [sameNr, sameSkipped]
          exact received.held
      · rw [if_neg same]
        exact received
    · obtain rfl := List.mem_singleton.mp new
      refine ⟨idx g.sender, len (idx g.sender), le_rfl, genuine, ?_, ?_⟩
      · intro isOpen
        rw [unopened] at isOpen
        cases isOpen
      · intro _ passed
        rw [isState, if_neg (other_ne g.sender)] at passed
        have reached := (linked.receivers (other g.sender)).reached
        rcases passed with early | ⟨here, below⟩
        · omega
        · have reached := reached (by omega)
          rw [show idx (other g.sender) - 1 = idx g.sender by omega] at reached
          omega
  · rw [isFlights, List.map_append, List.nodup_append]
    refine ⟨linked.apart, List.pairwise_singleton _ _, ?_⟩
    intro p old q new
    obtain ⟨g, member, rfl⟩ := List.mem_map.mp old
    obtain rfl := List.mem_singleton.mp new
    obtain ⟨i, n, near, genuine', _⟩ := linked.flights g member
    intro same
    simp only [Prod.mk.injEq, genuine'.dh, genuine'.number, genuine.dh, genuine.number, toBase64,
      Base64.enc.injEq, Term.pub.injEq, true_and, Nat.cast_inj] at same
    obtain rfl := linked.distinct i (near.trans (le_top _ _)) _ (le_top _ f.sender) same.1
    have below := genuine'.below
    omega
  · intro role session' found'
    rw [isSession] at found'
    by_cases same : role = f.sender
    · rw [same, Function.update_self, Option.some.injEq] at found'
      rw [← found', isNext]
      exact ⟨sameId, sameConversation⟩
    · rw [Function.update_of_ne same] at found'
      exact linked.sessions role session' found'
  · obtain ⟨first, isFirst, isRole, isInit, replied⟩ := linked.initiator
    rw [isSession]
    cases isSender : f.sender with
    | init =>
        rw [isSender] at found
        obtain rfl := Option.some.inj (found.symm.trans isFirst)
        refine ⟨next, Function.update_self .., ?_, ?_, ?_⟩
        · rw [isNext]
          exact isRole
        · rw [isNext]
          exact isInit
        · rw [isNext, Function.update_of_ne (by decide)]
          exact replied
    | resp =>
        refine ⟨first, ?_, isRole, isInit, ?_⟩
        · rw [Function.update_of_ne (by decide)]
          exact isFirst
        · intro _
          rw [Function.update_self]
          exact Option.some_ne_none _
  · intro none g member isInitiator
    rw [isSession] at none
    cases isSender : f.sender with
    | resp =>
        rw [isSender, Function.update_self] at none
        cases none
    | init =>
        rw [isSender, Function.update_of_ne (by decide)] at none
        rw [isFlights] at member
        rcases List.mem_append.mp member with old | new
        · exact linked.waiting none g old isInitiator
        · obtain rfl := List.mem_singleton.mp new
          obtain ⟨first, isFirst, isRole, isInit, replied⟩ := linked.initiator
          rw [isSender] at found
          obtain rfl := Option.some.inj (found.symm.trans isFirst)
          have waits : session.peerReplied = false := by
            by_contra answered
            exact replied (Bool.eq_true_of_not_eq_false answered) none
          rw [isEnvelope, isRole, waits, isInit]
          rfl

/-- An envelope meets a session in the state of its addressee. -/
theorem Linked.receiving (linked : Linked s key len idx w) {f : Flight} (member : f ∈ w.flights)
    (now : Nat) : ∃ session, receiving s w f now = .ok session ∧
      session.state = stateOf s w (other f.sender) ∧ session.sessionId = s.sessionId ∧
      session.conversationId = s.conversationId ∧
      (∀ session', w.session (other f.sender) = some session' → session = session') := by
  obtain ⟨_, _, _, genuine, _⟩ := linked.flights f member
  cases found : w.session (other f.sender) with
  | some session =>
      obtain ⟨sameId, sameConversation⟩ := linked.sessions _ session found
      refine ⟨session, ?_, (stateOf_some found).symm, sameId, sameConversation, ?_⟩
      · rw [RatchetPair.receiving, found]
      · rintro session' ⟨⟩
        rfl
  | none =>
      obtain ⟨first, isFirst, _⟩ := linked.initiator
      cases isSender : f.sender with
      | resp =>
          rw [isSender] at found
          exact absurd (found.symm.trans isFirst) (by simp)
      | init =>
          rw [isSender] at found
          have isInit := linked.waiting found f member isSender
          obtain ⟨_, _, _, _, _, _, _, isBlock⟩ := start_state (s := s)
          rw [isBlock] at isInit
          obtain ⟨session, responds, isState, sameId, sameConversation⟩ := s.responds now
          have absent : w.session .resp = none := found
          refine ⟨session, ?_, ?_, sameId, sameConversation, ?_⟩
          · rw [RatchetPair.receiving, isSender, isInit, genuine.sessionId]
            simp only [other, absent]
            exact responds
          · simp only [stateOf, other, absent]
            exact isState
          · intro session' isSession
            cases isSession

end Worlds

end RatchetPair
