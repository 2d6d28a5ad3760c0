import CipherChat.Ratchet.Delivery

/-!
What a delivery does to a linked pair, and so what every run of a pair comes to.
-/

namespace RatchetPair

open Symbolic Number Primitives KeyStore DoubleRatchet EnvelopeV2

variable {s : Setting} {key len : Nat → Nat} {idx : Role → Nat} {w : World}

/-- An envelope of the pair is opened by the ratchet alone. -/
theorem openV2_genuine {i n : Nat} {f : Flight} (genuine : Genuine s key len i n f)
    {session : RatchetSession} (sameId : session.sessionId = s.sessionId)
    (sameConversation : session.conversationId = s.conversationId) (now fresh : Nat) :
    openV2 session (s.userId f.sender) f.envelope now fresh = do
      let (plaintext, next) ← ratchetDecrypt session.state
        { header := header f.envelope,
          ciphertext := ciphertext s (messageKeyAfter (chain (secret s) key i) n) f }
        (aad s.conversationId (s.userId f.sender) s.sessionId f.envelope.ctr) now fresh
      return (plaintext, { session with peerReplied := true, state := next }) := by
  have isMessage : f.envelope.message = .ok
      { header := header f.envelope,
        ciphertext := ciphertext s (messageKeyAfter (chain (secret s) key i) n) f } := by
    simp only [WireEnvelopeV2.message, genuine.ct, fromBase64_toBase64, bind, Except.bind, pure,
      Except.pure, header]
  have same : ¬f.envelope.sessionId ≠ session.sessionId := by
    rw [genuine.sessionId, sameId]
    exact fun apart => apart rfl
  rw [openV2, if_neg same, isMessage, sameConversation, genuine.sessionId]
  rfl

theorem Genuine.used {i n : Nat} {f : Flight} (genuine : Genuine s key len i n f) :
    Genuine s key len i n { f with opened := true } :=
  ⟨genuine.some, genuine.parity, genuine.below, genuine.dh, genuine.pn, genuine.number, genuine.sessionId,
    genuine.ct⟩

/-- Nothing was sent by a responder that has no session yet. -/
theorem Linked.responder (linked : Linked s key len idx w) {f : Flight} (member : f ∈ w.flights)
    (isSender : f.sender = .resp) : w.session .resp ≠ none := by
  intro none
  obtain ⟨i, n, near, genuine, _⟩ := linked.flights f member
  have positive := genuine.some
  have parity := genuine.parity
  rw [isSender] at near parity
  have isChain := (linked.receivers .resp).side.cks
  rw [if_neg (by simp at parity; omega), stateOf, none] at isChain
  cases isChain

theorem getElem?_set_opened {flights : List Flight} {n : Nat} {f g : Flight} (found : flights[n]? = some f)
    (member : g ∈ flights.set n { f with opened := true }) :
    g = { f with opened := true } ∨ ∃ m, m ≠ n ∧ flights[m]? = some g := by
  obtain ⟨m, isFlight⟩ := List.mem_iff_getElem?.mp member
  by_cases same : m = n
  · subst same
    rw [List.getElem?_set_self (List.getElem?_eq_some_iff.mp found).choose] at isFlight
    exact .inl (Option.some.inj isFlight).symm
  · rw [List.getElem?_set_ne (Ne.symm same)] at isFlight
    exact .inr ⟨m, same, isFlight⟩

/-- The keys drawn, when one more is or is not. -/
theorem Goes.near {j i fresh j' : Nat} {key' len' : Nat → Nat} (goes : Goes key len j i fresh key' len' j')
    {j₀ : Nat} (before : i ≤ j₀) (beside : j = j₀ + 1 ∨ j₀ = j + 1) : j' = j₀ + 1 ∨ j₀ = j' + 1 := by
  rcases goes with ⟨_, _, rfl⟩ | ⟨later, _, _, rfl⟩
  · exact beside
  · omega

theorem Goes.distinct {j i fresh j' : Nat} {key' len' : Nat → Nat}
    (goes : Goes key len j i fresh key' len' j') {j₀ : Nat} (before : i ≤ j₀) (next : j₀ ≤ j + 1)
    (distinct : Distinct key (max j j₀)) (new : ∀ m ≤ max j j₀, key m ≠ fresh) :
    Distinct key' (max j' j₀) := by
  rcases goes with ⟨rfl, _, rfl⟩ | ⟨later, rfl, _, rfl⟩
  · exact distinct
  · have isTop : max j j₀ = j + 1 := by omega
    have isTop' : max (j + 2) j₀ = j + 2 := by omega
    rw [isTop] at distinct new
    rw [isTop']
    exact distinct.turn new

theorem Goes.drawn {j i fresh j' : Nat} {key' len' : Nat → Nat}
    (goes : Goes key len j i fresh key' len' j') {j₀ : Nat} (before : i ≤ j₀) (next : j₀ ≤ j + 1)
    {drawn : List Nat} (known : ∀ m ≤ max j j₀, key m ∈ drawn) :
    ∀ m ≤ max j' j₀, key' m ∈ fresh :: drawn := by
  intro m below
  rcases goes with ⟨rfl, _, rfl⟩ | ⟨later, rfl, _, rfl⟩
  · exact List.mem_cons_of_mem _ (known m below)
  · by_cases last : m = j + 2
    · rw [last, Function.update_self]
      exact List.mem_cons_self
    · rw [Function.update_of_ne last]
      exact List.mem_cons_of_mem _ (known m (by omega))

theorem Goes.apart {j i fresh j' : Nat} {key' len' : Nat → Nat}
    (goes : Goes key len j i fresh key' len' j') {j₀ : Nat} (before : i ≤ j₀) (next : j₀ ≤ j + 1)
    {name : Nat} (apart : ∀ m ≤ max j j₀, key m ≠ name) (new : name ≠ fresh) :
    ∀ m ≤ max j' j₀, key' m ≠ name := by
  intro m below
  rcases goes with ⟨rfl, _, rfl⟩ | ⟨later, rfl, _, rfl⟩
  · exact apart m below
  · by_cases last : m = j + 2
    · rw [last, Function.update_self]
      exact new.symm
    · rw [Function.update_of_ne last]
      exact apart m (by omega)

theorem Goes.genuine {j i fresh j' : Nat} {key' len' : Nat → Nat}
    (goes : Goes key len j i fresh key' len' j') {m l : Nat} {g : Flight}
    (genuine : Genuine s key len m l g) (before : m ≤ j + 1) : Genuine s key' len' m l g := by
  rcases goes with ⟨rfl, rfl, _⟩ | ⟨_, rfl, rfl, _⟩
  · exact genuine
  · exact genuine.turn before fresh

theorem Goes.beside {j i fresh j' : Nat} {key' len' : Nat → Nat}
    (goes : Goes key len j i fresh key' len' j') {j₀ : Nat} {state : RatchetState}
    (r : Receiver (secret s) key len j₀ state) (next : j₀ ≤ j + 1) :
    Receiver (secret s) key' len' j₀ state := by
  rcases goes with ⟨rfl, rfl, _⟩ | ⟨_, rfl, rfl, _⟩
  · exact r
  · exact r.congr (fun m below => Function.update_of_ne (by omega) _ _)
      fun m below => Function.update_of_ne (by omega) _ _

theorem Goes.parity {j i fresh j' : Nat} {key' len' : Nat → Nat}
    (goes : Goes key len j i fresh key' len' j') : j' % 2 = j % 2 := by
  rcases goes with ⟨_, _, rfl⟩ | ⟨_, _, _, rfl⟩ <;> omega

theorem Goes.le {j i fresh j' : Nat} {key' len' : Nat → Nat}
    (goes : Goes key len j i fresh key' len' j') : j ≤ j' := by
  rcases goes with ⟨_, _, rfl⟩ | ⟨_, _, _, rfl⟩ <;> omega

theorem Goes.same {j i fresh j' : Nat} {key' len' : Nat → Nat}
    (goes : Goes key len j i fresh key' len' j') {m : Nat} (below : m ≤ j + 1) : key' m = key m := by
  rcases goes with ⟨rfl, _, _⟩ | ⟨_, rfl, _, _⟩
  · rfl
  · exact Function.update_of_ne (by omega) _ _

theorem Goes.old {j i fresh j' : Nat} {key' len' : Nat → Nat}
    (goes : Goes key len j i fresh key' len' j') {m n : Nat} (below : n < len' m) :
    n < len m ∧ key' m = key m := by
  rcases goes with ⟨rfl, rfl, _⟩ | ⟨_, rfl, rfl, _⟩
  · exact ⟨below, rfl⟩
  · by_cases last : m = j + 2
    · rw [last, Function.update_self] at below
      omega
    · rw [Function.update_of_ne last] at below
      exact ⟨below, Function.update_of_ne last _ _⟩

theorem Goes.new {j i fresh j' : Nat} {key' len' : Nat → Nat}
    (goes : Goes key len j i fresh key' len' j') {j₀ m : Nat} (before : i ≤ j₀) (next : j₀ ≤ j + 1)
    (above : max j j₀ < m) (below : m ≤ max j' j₀) : key' m = fresh := by
  rcases goes with ⟨_, _, rfl⟩ | ⟨later, rfl, _, rfl⟩
  · omega
  · obtain rfl : m = j + 2 := by omega
    exact Function.update_self ..

theorem top_eq (idx : Role → Nat) (role : Role) : top idx = max (idx (other role)) (idx role) := by
  cases role
  · exact max_comm _ _
  · rfl

/-- The pair stays linked when an envelope is opened for the first time. -/
theorem Linked.opened (linked : Linked s key len idx w) {n : Nat} {f : Flight} (session : RatchetSession)
    (found : w.flights[n]? = some f) {i l fresh j' : Nat} {key' len' : Nat → Nat}
    (near : i ≤ idx f.sender) (genuine : Genuine s key len i l f)
    (goes : Goes key len (idx (other f.sender)) i fresh key' len' j')
    (accepted : Accepted s key len (idx (other f.sender)) (top idx) i l (stateOf s w (other f.sender)) f
      key' len' j' session.state)
    (new : fresh ∉ w.drawn) (sameId : session.sessionId = s.sessionId)
    (sameConversation : session.conversationId = s.conversationId)
    (same : ∀ session', w.session (other f.sender) = some session' →
      session.role = session'.role ∧ session.init = session'.init)
    {w' : World} (isSession : w'.session = Function.update w.session (other f.sender) (some session))
    (isFlights : w'.flights = w.flights.set n { f with opened := true })
    (isDrawn : w'.drawn = fresh :: w.drawn) :
    Linked s key' len' (Function.update idx (other f.sender) j') w' ∧
      Grown w key idx key' (Function.update idx (other f.sender) j') := by
  have member := List.mem_of_getElem? found
  have bound := linked.top_le (other f.sender)
  have isOther : other (other f.sender) = f.sender := by
    cases f.sender <;> rfl
  have apart : f.sender ≠ other f.sender := (other_ne f.sender).symm
  have next : idx f.sender ≤ idx (other f.sender) + 1 := (le_top idx f.sender).trans bound
  have isTop : top (Function.update idx (other f.sender) j') = max j' (idx f.sender) := by
    rw [top_eq _ f.sender, Function.update_self, Function.update_of_ne apart]
  have new' : ∀ m ≤ max (idx (other f.sender)) (idx f.sender), key m ≠ fresh := by
    intro m below isFresh
    rw [← top_eq] at below
    exact new (isFresh ▸ linked.drawn m below)
  have roles (role : Role) : role = other f.sender ∨ role = f.sender := by
    cases role <;> cases f.sender <;> simp [other]
  have isIdx (role : Role) : role = other f.sender ∧ Function.update idx (other f.sender) j' role = j' ∨
      role = f.sender ∧ Function.update idx (other f.sender) j' role = idx f.sender := by
    rcases roles role with rfl | rfl
    · exact .inl ⟨rfl, Function.update_self ..⟩
    · exact .inr ⟨rfl, Function.update_of_ne apart ..⟩
  have isState := stateOf_update (s := s) isSession
  have grown : Grown w key idx key' (Function.update idx (other f.sender) j') := by
    refine ⟨fun m below => goes.same (below.trans bound), ?_, ?_⟩
    · intro role
      rcases isIdx role with ⟨rfl, isHere⟩ | ⟨rfl, isHere⟩
      · rw [isHere]
        exact goes.le
      · rw [isHere]
    · intro m above below
      rw [isTop] at below
      rw [top_eq idx f.sender] at above
      rw [goes.new near next above below]
      exact new
  refine ⟨⟨?_, ?_, ?_, ?_, ?_, ?_, ?_, ?_, ?_, ?_, ?_, ?_⟩, grown⟩
  · have beside := goes.near near (linked.beside f.sender)
    cases isSender : f.sender <;> simp [isSender, other] at beside ⊢ <;> omega
  · intro role
    have parity := linked.parity role
    rcases isIdx role with ⟨rfl, isHere⟩ | ⟨rfl, isHere⟩
    · rw [isHere, goes.parity]
      exact parity
    · rw [isHere]
      exact parity
  · intro role
    rw [isState]
    rcases isIdx role with ⟨rfl, isHere⟩ | ⟨rfl, isHere⟩
    · rw [isHere, if_pos rfl]
      exact accepted.receiver
    · rw [isHere, if_neg apart]
      exact goes.beside (linked.receivers f.sender) next
  · rw [isTop]
    exact goes.distinct near next (top_eq idx f.sender ▸ linked.distinct) new'
  · rw [isTop, isDrawn]
    exact goes.drawn near next (top_eq idx f.sender ▸ linked.drawn)
  · intro name isFixed
    obtain ⟨known, apart'⟩ := linked.fixed name isFixed
    rw [isTop, isDrawn]
    refine ⟨List.mem_cons_of_mem _ known, ?_⟩
    rw [top_eq idx f.sender] at apart'
    exact goes.apart near next apart' fun isFresh => new (isFresh ▸ known)
  · intro i' n' below
    obtain ⟨old, isKey⟩ := goes.old below
    obtain ⟨some, g, isFlight, isDh, isNumber⟩ := linked.complete i' n' old
    rw [isKey, isFlights]
    refine ⟨some, ?_⟩
    obtain ⟨m, isThere⟩ := List.mem_iff_getElem?.mp isFlight
    by_cases here : m = n
    · rw [here, found] at isThere
      obtain rfl := Option.some.inj isThere
      have below' := (List.getElem?_eq_some_iff.mp found).choose
      exact ⟨_, List.mem_of_getElem? (List.getElem?_set_self below'), isDh, isNumber⟩
    · exact ⟨g, List.mem_of_getElem? ((List.getElem?_set_ne (Ne.symm here)).trans isThere), isDh, isNumber⟩
  · intro g isFlight
    rw [isFlights] at isFlight
    rcases getElem?_set_opened found isFlight with rfl | ⟨m, isElse, isThere⟩
    · refine ⟨i, l, ?_, goes.genuine genuine.used (near.trans next), ?_⟩
      · rw [Function.update_of_ne apart]
        exact near
      · rw [Function.update_self, isState, if_pos rfl]
        exact accepted.own
    · obtain ⟨i', l', near', genuine', received⟩ := linked.flights g (List.mem_of_getElem? isThere)
      have early : i' ≤ idx (other f.sender) + 1 := by
        have := le_top idx g.sender
        omega
      rcases roles g.sender with isSender | isSender
      · rw [isSender, isOther] at received
        rw [isSender] at near'
        refine ⟨i', l', ?_, goes.genuine genuine' early, ?_⟩
        · rw [isSender, Function.update_self]
          exact near'.trans goes.le
        · rw [isSender, isOther, Function.update_of_ne apart, isState, if_neg apart]
          exact received
      · rw [isSender] at received near'
        refine ⟨i', l', ?_, goes.genuine genuine' early, ?_⟩
        · rw [isSender, Function.update_of_ne apart]
          exact near'
        · rw [isSender, Function.update_self, isState, if_pos rfl]
          refine accepted.others i' (near'.trans (le_top idx _)) l' g genuine' ?_ ?_ received
          · have parity := genuine'.parity
            have parity' := linked.parity (other f.sender)
            rw [isSender] at parity
            rw [parity, parity']
            cases f.sender <;> decide
          · rintro ⟨rfl, rfl⟩
            refine isElse ((List.getElem?_inj ?_ linked.apart).mp ?_)
            · rw [List.length_map]
              exact (List.getElem?_eq_some_iff.mp isThere).choose
            · rw [List.getElem?_map, List.getElem?_map, isThere, found, Option.map_some, Option.map_some,
                genuine.dh, genuine'.dh, genuine.number, genuine'.number]
  · rw [isFlights, List.map_set]
    have kept : (w.flights.map fun f => (f.envelope.dh, f.envelope.n))[n]? =
        some (f.envelope.dh, f.envelope.n) := by
      rw [List.getElem?_map, found]
      rfl
    obtain ⟨below, isPair⟩ := List.getElem?_eq_some_iff.mp kept
    rw [← isPair, List.set_getElem_self]
    exact linked.apart
  · intro role session' isFound
    rw [isSession] at isFound
    rcases roles role with rfl | rfl
    · rw [Function.update_self, Option.some.injEq] at isFound
      rw [← isFound]
      exact ⟨sameId, sameConversation⟩
    · rw [Function.update_of_ne apart] at isFound
      exact linked.sessions _ session' isFound
  · obtain ⟨first, isFirst, isRole, isInit, replied⟩ := linked.initiator
    rw [isSession]
    cases isSender : f.sender with
    | init =>
        refine ⟨first, ?_, isRole, isInit, ?_⟩
        · rw [Function.update_of_ne (by decide)]
          exact isFirst
        · intro _
          rw [other, Function.update_self]
          exact Option.some_ne_none _
    | resp =>
        rw [isSender] at same
        obtain ⟨sameRole, sameInit⟩ := same first isFirst
        refine ⟨session, Function.update_self .., sameRole.trans isRole, sameInit.trans isInit, ?_⟩
        intro _
        rw [Function.update_of_ne (by decide)]
        exact linked.responder member isSender
  · intro none g isFlight isInitiator
    rw [isSession] at none
    cases isSender : f.sender with
    | init =>
        rw [isSender, other, Function.update_self] at none
        cases none
    | resp =>
        rw [isSender, Function.update_of_ne (by decide)] at none
        exact absurd none (linked.responder member isSender)

/-- An envelope that has not been opened is opened when it arrives. -/
theorem Linked.deliver (linked : Linked s key len idx w) {n : Nat} {f : Flight}
    (found : w.flights[n]? = some f) (unopened : f.opened = false)
    (within : Within (stateOf s w (other f.sender)) f.envelope) (now : Nat) {fresh : Nat}
    (new : fresh ∉ w.drawn) :
    ∃ next, receive s w f now fresh = .ok (utf8Decode (utf8Encode f.text), next) ∧
      ∀ w' : World, w'.session = Function.update w.session (other f.sender) (some next) →
        w'.flights = w.flights.set n { f with opened := true } → w'.drawn = fresh :: w.drawn →
        ∃ key' len' idx', Linked s key' len' idx' w' ∧ Grown w key idx key' idx' := by
  have member := List.mem_of_getElem? found
  obtain ⟨i, l, near, genuine, received⟩ := linked.flights f member
  obtain ⟨session, receives, isState, sameId, sameConversation, same⟩ := linked.receiving member now
  have turn : i % 2 ≠ idx (other f.sender) % 2 := by
    rw [genuine.parity, linked.parity]
    cases f.sender <;> decide
  have new' : ∀ m ≤ top idx, key m ≠ fresh := fun m below isFresh =>
    new (isFresh ▸ linked.drawn m below)
  obtain ⟨state, key', len', j', opened, accepted, goes⟩ :=
    (linked.receivers (other f.sender)).opens linked.distinct (le_top _ _) (near.trans (le_top _ _))
      (linked.top_le _) turn genuine received unopened within now new'
  refine ⟨{ session with peerReplied := true, state }, ?_, ?_⟩
  · rw [receive, receives]
    change openV2 session _ _ _ _ = _
    rw [openV2_genuine genuine sameId sameConversation, isState, opened]
    rfl
  · intro w' isSession isFlights isDrawn
    have kept : ∀ session', w.session (other f.sender) = some session' →
        session.role = session'.role ∧ session.init = session'.init := by
      intro session' isSession'
      rw [same session' isSession']
      exact ⟨rfl, rfl⟩
    exact ⟨key', len', _, linked.opened { session with peerReplied := true, state } found near genuine
      goes accepted new sameId sameConversation kept isSession isFlights isDrawn⟩

/-- An envelope that has been opened is rejected. -/
theorem Linked.rejects (linked : Linked s key len idx w) {f : Flight} (member : f ∈ w.flights)
    (isOpen : f.opened = true) (now fresh : Nat) (result : List UInt16 × RatchetSession) :
    receive s w f now fresh ≠ .ok result := by
  obtain ⟨i, l, near, genuine, received⟩ := linked.flights f member
  obtain ⟨session, receives, isState, sameId, sameConversation, _⟩ := linked.receiving member now
  intro opens
  rw [receive, receives] at opens
  change openV2 session _ _ _ _ = _ at opens
  rw [openV2_genuine genuine sameId sameConversation, isState] at opens
  obtain ⟨inner, decrypted, _⟩ := bind_eq_ok.mp opens
  exact (linked.receivers (other f.sender)).rejects linked.distinct (le_top _ _) (near.trans (le_top _ _))
    genuine received isOpen now fresh inner decrypted

end RatchetPair
