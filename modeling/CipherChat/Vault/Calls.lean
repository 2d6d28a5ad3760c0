import CipherChat.Vault.Guarded

/-!
`encrypt` and `decrypt` keep the contract of the vault, step by step.
-/

namespace Vault

open Async Contract Number Symbolic Primitives KeyStore Envelope EnvelopeV2 Store E2EEService

variable {permits : History → Event → Prop} {I : Invariant permits} {t n : Nat} {c : String}
  {call : Call} {α β : Type} {f : History → Prop}

def HasDek (n : Nat) (c : String) (key : Option Nat) (j : History) : Prop :=
  (j.state.device n).deks.get c = key.map fun key => { convId := c, key }

/-- The ratchet is stored for the conversation and opens under its key. -/
def Stored (n : Nat) (c : String) (session : RatchetSession) (j : History) : Prop :=
  ∃ row ∈ (j.state.device n).ratchets.rows, row.sessionId = session.sessionId ∧ row.convId = c ∧
    row.session = session ∧ HasDek n c (some row.key) j

/-- No ratchet of this id is stored for the conversation and opens under this key. -/
def Unstored (n : Nat) (c sessionId : String) (dek : Nat) (j : History) : Prop :=
  ∀ old ∈ (j.state.device n).ratchets.rows, old.sessionId = sessionId →
    ¬(old.convId = c ∧ old.key = dek)

theorem steady_hasDek (key : Option Nat) : Steady t n c (HasDek n c key) :=
  steady_vault (g := fun d => d.deks.get c = key.map fun key => { convId := c, key })
    fun _ _ same known => same.dek.trans known

theorem steady_stored (session : RatchetSession) : Steady t n c (Stored n c session) := by
  refine steady_vault (g := fun d => ∃ row ∈ d.ratchets.rows, row.sessionId = session.sessionId ∧
    row.convId = c ∧ row.session = session ∧
      d.deks.get c = some { convId := c, key := row.key }) ?_
  rintro d d' same ⟨row, isRow, isId, isConv, isSession, isDek⟩
  exact ⟨row, (same.ratchets row isConv).mpr isRow, isId, isConv, isSession, same.dek.trans isDek⟩

theorem steady_unstored (sessionId : String) (dek : Nat) :
    Steady t n c (Unstored n c sessionId dek) := by
  refine steady_vault (g := fun d => ∀ old ∈ d.ratchets.rows, old.sessionId = sessionId →
    ¬(old.convId = c ∧ old.key = dek)) ?_
  rintro d d' same known old isRow isId ⟨isConv, isKey⟩
  exact known old ((same.ratchets old isConv).mp isRow) isId ⟨isConv, isKey⟩

theorem steady_unread (key : String) (dek : Nat) :
    Steady t n c fun j => Unread j n c key dek := by
  intro j j' relied alive owns known apart old isRow isConv isId
  have messages := (relied.locked n c alive owns).2.2 apart
  have apart' : Apart j := fun u call' c' running => apart u call' c' (relied.calls u call' running)
  exact known apart' old ((messages.messages old isConv).mp isRow) isConv isId

/-- A lookup leaves the vault as it is. -/
theorem looked_same {j : History} {s' : Browsers} {op : Op} {value : op.Val}
    (performs : j.Performs service permits ⟨t, call, .on n op, .ok value, j.state, s'⟩)
    (neutral : Neutral op) : SameDevice (j.state.device n) (s'.device n) :=
  (neutral_step neutral performs.exec).1 n

/-- What a neutral operation answered. -/
theorem answered {s s' : Browsers} {op : Op} {value : op.Val}
    (performed : service.exec t s (.on n op) (.ok value) s') :
    ∃ a, reply (s.device n) op a = .ok value := by
  obtain ⟨_, d, executed, _⟩ := exec_on.mp performed
  exact (exec_ok.mp executed).2.1

theorem under_existingDek (steady : Steady t n c f) :
    Under I t n c call f (on n (existingDek c)) fun key j => f j ∧ HasDek n c key j := by
  rw [existingDek, on_bind, on_call]
  refine under_bind (fun found j => f j ∧ HasDek n c (found.map DekRow.key) j) ?_ ?_
  · refine under_neutral trivial steady ?_
    intro j base owns known found s' performs known'
    obtain ⟨a, replied⟩ := answered performs.exec
    obtain rfl : (j.state.device n).deks.get c = found := Except.ok.inj replied
    refine ⟨known', ?_⟩
    rw [HasDek, Journal.record_state, (looked_same performs trivial).deks]
    cases isDek : (j.state.device n).deks.get c with
    | none => rfl
    | some row =>
        have isConv : row.convId = c := Table.key_of_get isDek
        rw [← isConv]
        rfl
  · intro found
    exact under_pure fun _ => id

theorem under_latestRatchet (steady : Steady t n c f) :
    Under I t n c call f (on n (latestRatchet c)) fun found j =>
      f j ∧ ∀ session, found = some session → Stored n c session j := by
  rw [latestRatchet, on_bind]
  refine under_bind _ (under_existingDek steady) fun key => ?_
  cases key with
  | none => exact under_pure fun j known => ⟨known.1, fun _ isSome => by cases isSome⟩
  | some key =>
      rw [on_bind, on_call]
      refine under_bind (fun rows j => f j ∧ ∀ row ∈ rows, row.key = key →
        Stored n c row.session j) ?_ fun rows => ?_
      · refine under_neutral trivial (steady.and (steady_hasDek _)) ?_
        intro j base owns known rows s' performs known'
        obtain ⟨a, replied⟩ := answered performs.exec
        obtain rfl : (j.state.device n).ratchets.rows.filter (fun r => r.convId = c) = rows :=
          Except.ok.inj replied
        refine ⟨known'.1, fun row member isKey => ?_⟩
        obtain ⟨isRow, isConv⟩ := List.mem_filter.mp member
        have same := looked_same performs trivial
        refine ⟨row, ?_, (base.ratchets n row isRow).1.symm, by simpa using isConv, rfl, ?_⟩
        · rw [Journal.record_state, same.ratchets]
          exact isRow
        · rw [isKey]
          exact known'.2
      · refine under_pure fun j known => ⟨known.1, fun session isLatest => ?_⟩
        have member := List.argmax_mem isLatest
        obtain ⟨row, isListed, rfl⟩ := List.mem_map.mp member
        obtain ⟨isRow, isKey⟩ := List.mem_filter.mp isListed
        exact known.2 row isRow (by simpa using isKey)

theorem under_loadRatchet (steady : Steady t n c f) (sessionId : String) :
    Under I t n c call f (on n (loadRatchet c sessionId)) fun found j => f j ∧
      match found with
      | some session => Stored n c session j ∧ session.sessionId = sessionId
      | none => ∀ dek, HasDek n c (some dek) j → Unstored n c sessionId dek j := by
  rw [loadRatchet, on_bind]
  refine under_bind _ (under_existingDek steady) fun key => ?_
  cases key with
  | none =>
      refine under_pure fun j known => ⟨known.1, fun dek isDek => ?_⟩
      rw [HasDek, known.2] at isDek
      cases isDek
  | some key =>
      dsimp only
      rw [on_bind, on_call]
      refine under_bind (fun found j => (f j ∧ HasDek n c (some key) j) ∧
        match found with
        | some row => row ∈ (j.state.device n).ratchets.rows ∧ row.sessionId = sessionId ∧
            row.session.sessionId = row.sessionId
        | none => ∀ dek, Unstored n c sessionId dek j) ?_ fun found => ?_
      · refine under_neutral trivial (steady.and (steady_hasDek _)) ?_
        intro j base owns known found s' performs known'
        obtain ⟨a, replied⟩ := answered performs.exec
        have isFound : (j.state.device n).ratchets.get sessionId = found := Except.ok.inj replied
        have same := looked_same performs trivial
        refine ⟨known', ?_⟩
        cases found with
        | none =>
            intro dek old isRow isId _
            rw [Journal.record_state, same.ratchets, Table.mem_rows, isId] at isRow
            rw [isFound] at isRow
            cases isRow
        | some row =>
            have isRow := Table.mem_of_get isFound
            refine ⟨?_, Table.key_of_get isFound, (base.ratchets n row isRow).1⟩
            rw [Journal.record_state, same.ratchets]
            exact isRow
      · cases found with
        | none => exact under_pure fun j known => ⟨known.1.1, fun dek _ => known.2 dek⟩
        | some row =>
            dsimp only
            by_cases isConv : row.convId = c
            · by_cases isKey : row.key = key
              · simp only [ne_eq, isConv, isKey, not_true, if_false]
                refine under_pure fun j known => ?_
                obtain ⟨⟨known, isDek⟩, isRow, isId, named⟩ := known
                exact ⟨known, ⟨row, isRow, named.symm, isConv, rfl, isKey ▸ isDek⟩, named.trans isId⟩
              · simp only [ne_eq, isConv, isKey, not_true, not_false_eq_true, if_false, if_true]
                exact under_throw
            · simp only [ne_eq, isConv, not_false_eq_true, if_true]
              refine under_pure fun j known => ⟨known.1.1, ?_⟩
              rintro dek _ old isRow isId ⟨isConv', _⟩
              obtain rfl := eq_of_key isRow known.2.1 (isId.trans known.2.2.1.symm)
              exact isConv isConv'

theorem under_loadMessage (steady : Steady t n c f) (key : String) :
    Under I t n c call f (on n (loadMessage c key)) fun found j => f j ∧
      (found = none → ∀ dek, HasDek n c (some dek) j → Unread j n c key dek) := by
  rw [loadMessage, on_bind]
  refine under_bind _ (under_existingDek steady) fun dek => ?_
  cases dek with
  | none =>
      refine under_pure fun j known => ⟨known.1, fun _ dek isDek => ?_⟩
      rw [HasDek, known.2] at isDek
      cases isDek
  | some dek =>
      dsimp only
      rw [on_bind, on_call]
      refine under_bind (fun found j => (f j ∧ HasDek n c (some dek) j) ∧
        (∀ old ∈ (j.state.device n).messages.rows, old.id = messageId c key → found = some old)) ?_
        fun found => ?_
      · refine under_neutral trivial (steady.and (steady_hasDek _)) ?_
        intro j base owns known found s' performs known'
        obtain ⟨a, replied⟩ := answered performs.exec
        have isFound : (j.state.device n).messages.get (messageId c key) = found :=
          Except.ok.inj replied
        have same := looked_same performs trivial
        refine ⟨known', fun old isRow isId => ?_⟩
        rw [Journal.record_state, same.messages, Table.mem_rows, isId] at isRow
        exact isFound.symm.trans isRow
      · cases found with
        | none =>
            refine under_pure fun j known => ⟨known.1.1, fun _ dek' _ _ old isRow _ isId => ?_⟩
            cases known.2 old isRow isId
        | some row =>
            refine under_pure fun j known => ⟨known.1.1, fun unread dek' isDek apart old isRow _ isId => ?_⟩
            obtain rfl := Option.some.inj (known.2 old isRow isId)
            have isSame : dek' = dek := by
              have both := known.1.2
              rw [HasDek, isDek] at both
              simpa using both
            subst isSame
            intro isKey
            rw [if_pos isKey] at unread
            cases unread

/-- The session a call goes on with. -/
inductive Going (t n : Nat) (c : String) (call : Call) (session : RatchetSession) (j : History) : Prop
  | stored : Stored n c session j → Going t n c call session j
  | initiated : Initiates t j call session → ¬CommittedId j.past session.sessionId →
      Going t n c call session j
  | responded : Responds j call session →
      (∀ dek, HasDek n c (some dek) j → Unstored n c session.sessionId dek j) →
      Going t n c call session j

theorem Drew.mono {j j' : History} (more : ∀ e ∈ j.past, e ∈ j'.past) {draws : Event → Prop}
    (drew : Drew t j draws) : Drew t j' draws := by
  obtain ⟨e, old, mine, isDraw⟩ := drew
  exact ⟨e, more e old, mine, isDraw⟩

theorem Initiates.mono {j j' : History} (more : ∀ e ∈ j.past, e ∈ j'.past)
    {session : RatchetSession} (initiates : Initiates t j call session) :
    Initiates t j' call session := by
  cases initiates with
  | intro isIdentity served ek dhs differ unseen id started =>
      exact .intro isIdentity (served.mono more) (ek.mono more) (dhs.mono more) differ unseen
        (id.mono more) started

theorem Responds.mono {j j' : History}
    (same : ∀ n, (j'.state.device n).identity = (j.state.device n).identity)
    {session : RatchetSession} (responds : Responds j call session) : Responds j' call session := by
  cases responds with
  | intro isIdentity isInit started => exact .intro (by rwa [same]) isInit started

theorem Advances.mono {j j' : History} (more : ∀ e ∈ j.past, e ∈ j'.past)
    {session next : RatchetSession} {key : String} {text : List UInt16}
    (advances : Advances t j call session next key text) :
    Advances t j' call session next key text := by
  cases advances with
  | sealed isUser sent => exact .sealed isUser sent
  | opened drew unseen isOpen => exact .opened (drew.mono more) unseen isOpen

theorem steady_hasDek_implies {g : Nat → History → Prop} (steady : ∀ dek, Steady t n c (g dek)) :
    Steady t n c fun j => ∀ dek, HasDek n c (some dek) j → g dek j := by
  intro j j' relied alive owns known dek isDek
  refine steady dek j j' relied alive owns (known dek ?_)
  rw [HasDek, ← (relied.locked n c alive owns).2.1.dek]
  exact isDek

theorem steady_going (session : RatchetSession) : Steady t n c (Going t n c call session) := by
  intro j j' relied alive owns known
  cases known with
  | stored isStored => exact .stored (steady_stored session j j' relied alive owns isStored)
  | initiated initiates free =>
      exact .initiated (initiates.mono relied.past) (relied.uncommitted _ initiates.drew free)
  | responded responds unstored =>
      refine .responded (responds.mono relied.identity) ?_
      exact steady_hasDek_implies (fun dek => steady_unstored _ dek) j j' relied alive owns unstored

/-- All but the conversation key is ready for a commit. -/
structure Prepared (t n : Nat) (c : String) (call : Call) (next : RatchetSession) (key : String)
    (text : List UInt16) (j : History) : Prop where
  browser : call.browser = some n
  conversation : call.conversation = some c
  quiet : Quiet t j
  going : ∃ session, Going t n c call session j ∧ Advances t j call session next key text
  unread : call.decrypts → ∀ dek, HasDek n c (some dek) j → Unread j n c key dek

theorem steady_prepared {next : RatchetSession} {key : String} {text : List UInt16} :
    Steady t n c (Prepared t n c call next key text) := by
  intro j j' relied alive owns known
  obtain ⟨session, going, advances⟩ := known.going
  refine ⟨known.browser, known.conversation, calm_quiet.steady j j' relied alive owns known.quiet,
    ⟨session, steady_going session j j' relied alive owns going, advances.mono relied.past⟩, ?_⟩
  intro decrypts
  exact steady_hasDek_implies (fun dek => steady_unread key dek) j j' relied alive owns
    (known.unread decrypts)

/-- The row of a commit. -/
def rowOf (c : String) (dek : Nat) (session : RatchetSession) : RatchetRow where
  sessionId := session.sessionId
  convId := c
  key := dek
  session := session

def messageOf (c key : String) (dek : Nat) (text : List UInt16) : MessageRow where
  id := messageId c key
  convId := c
  key := dek
  text := text

/-- No row of the conversation is sealed under this key. -/
def Unkeyed (n : Nat) (c : String) (dek : Nat) (j : History) : Prop :=
  (∀ old ∈ (j.state.device n).ratchets.rows, old.convId = c → old.key ≠ dek) ∧
    (Apart j → ∀ old ∈ (j.state.device n).messages.rows, old.convId = c → old.key ≠ dek)

theorem steady_unkeyed (dek : Nat) : Steady t n c (Unkeyed n c dek) := by
  intro j j' relied alive owns known
  obtain ⟨_, same, messages⟩ := relied.locked n c alive owns
  refine ⟨fun old isRow isConv => known.1 old ((same.ratchets old isConv).mp isRow) isConv, ?_⟩
  intro apart old isRow isConv
  refine known.2 ?_ old (((messages apart).messages old isConv).mp isRow) isConv
  exact fun u call' c' running => apart u call' c' (relied.calls u call' running)

/-- The conversation key of a commit: the one stored, or one drawn for a conversation that has none. -/
def Keyed (t n : Nat) (c : String) (dek : Nat) (j : History) : Prop :=
  HasDek n c (some dek) j ∨ (HasDek n c none j ∧ Unkeyed n c dek j) ∧ Drew t j (lostKey · = true)

theorem steady_keyed (dek : Nat) : Steady t n c (Keyed t n c dek) := by
  intro j j' relied alive owns known
  rcases known with has | ⟨⟨none, unkeyed⟩, lost⟩
  · exact .inl (steady_hasDek _ j j' relied alive owns has)
  · exact .inr ⟨⟨steady_hasDek _ j j' relied alive owns none,
      steady_unkeyed dek j j' relied alive owns unkeyed⟩, lost.mono relied.past⟩

/-- With a conversation key of its own, what is prepared can be committed. -/
theorem Prepared.commit {next : RatchetSession} {key : String} {text : List UInt16} {j : History}
    (prepared : Prepared t n c call next key text j) (owns : Owns j t n c) {dek : Nat}
    (isDek : Keyed t n c dek j) :
    Commit t j call n (rowOf c dek next) (some (messageOf c key dek text)) := by
  obtain ⟨session, going, advances⟩ := prepared.going
  have isId : next.sessionId = session.sessionId := advances.sameId.1
  refine ⟨prepared.browser, prepared.conversation, rfl, prepared.quiet, owns, ?_, session, key, text, ?_, advances,
    rfl, ?_⟩
  · exact isDek.imp id And.right
  · cases going with
    | stored isStored =>
        obtain ⟨row, isRow, isRowId, isConv, isSession, isKey⟩ := isStored
        refine .stored row isRow (isRowId.trans isId.symm) isConv ?_ isSession
        rcases isDek with has | ⟨⟨hasNone, _⟩, _⟩
        · rw [HasDek, has] at isKey
          have same : dek = row.key := by simpa using isKey
          exact same.symm
        · rw [HasDek, hasNone] at isKey
          cases isKey
    | initiated initiates free => exact .initiated initiates (by rw [rowOf, isId]; exact free)
    | responded responds unstored =>
        refine .responded responds ?_
        rintro old isRow isOldId ⟨isConv, isKey⟩
        have sameId : old.sessionId = session.sessionId := isOldId.trans isId
        rcases isDek with has | ⟨⟨_, unkeyed⟩, _⟩
        · exact unstored dek has old isRow sameId ⟨isConv, isKey⟩
        · exact unkeyed.1 old isRow isConv isKey
  · intro decrypts apart old isRow isConv isOldId
    rcases isDek with has | ⟨⟨_, unkeyed⟩, _⟩
    · exact prepared.unread decrypts dek has apart old isRow isConv isOldId
    · exact unkeyed.2 apart old isRow isConv

theorem under_generateDek (steady : Steady t n c f) :
    Under I t n c call f (act (.on n .generateDek)) fun dek j => f j ∧ Unkeyed n c dek j := by
  refine under_neutral trivial steady ?_
  intro j base owns known dek s' performs known'
  have isDraw : drawnDek ⟨t, call, .on n .generateDek, .ok dek, j.state, s'⟩ = some dek := rfl
  have fresh := (I.allowed j _ performs.permitted).1.dek dek isDraw
  have same := looked_same performs trivial
  refine ⟨known', ?_, ?_⟩
  · rw [Journal.record_state, same.ratchets]
    intro old isRow _
    obtain ⟨_, e, member, message, isCommit⟩ := base.ratchets n old isRow
    exact (fresh e member n old message isCommit).1
  · rw [Journal.record_state, same.messages]
    intro _ old isRow _
    obtain ⟨_, _, e, member, ratchet, isCommit⟩ := base.messages n old isRow
    exact (fresh e member n ratchet (some old) isCommit).2 old rfl

/-- Before there is a conversation key nothing of the conversation is stored under one. -/
theorem Prepared.addDek {next : RatchetSession} {key : String} {text : List UInt16} {j : History}
    {dek : Nat} {s' : Browsers} (prepared : Prepared t n c call next key text j)
    (hasNone : HasDek n c none j) (unkeyed : Unkeyed n c dek j)
    (isAfter : s' = j.state.set n { j.state.device n with
      deks := (j.state.device n).deks.put { convId := c, key := dek } }) :
    Prepared t n c call next key text
      (j.record ⟨t, call, .on n (.addDek { convId := c, key := dek }), .ok (), j.state, s'⟩) := by
  have isDevice : s'.device n = { j.state.device n with
      deks := (j.state.device n).deks.put { convId := c, key := dek } } := by
    rw [isAfter, Browsers.set_device, if_pos rfl]
  have isKey : ∀ dek', (s'.device n).deks.get c = some { convId := c, key := dek' } → dek' = dek := by
    intro dek' isDek
    rw [isDevice] at isDek
    have found := isDek.symm.trans (Table.get_put_self (j.state.device n).deks ⟨c, dek⟩)
    simpa using found
  have more : ∀ e ∈ j.past, e ∈ (j.record ⟨t, call, .on n (.addDek { convId := c, key := dek }),
      .ok (), j.state, s'⟩).past := fun _ => List.mem_cons_of_mem _
  have identity : ∀ m, (s'.device m).identity = (j.state.device m).identity := by
    intro m
    rw [isAfter, Browsers.set_device]
    split
    next here => rw [here]
    next => rfl
  obtain ⟨session, going, advances⟩ := prepared.going
  refine ⟨prepared.browser, prepared.conversation, ?_, ⟨session, ?_, advances.mono more⟩, ?_⟩
  · intro e member mine
    rcases List.mem_cons.mp member with rfl | old
    · rfl
    · exact prepared.quiet e old mine
  · cases going with
    | stored isStored =>
        obtain ⟨row, _, _, _, _, isDek⟩ := isStored
        rw [HasDek, hasNone] at isDek
        cases isDek
    | initiated initiates free =>
        refine .initiated (initiates.mono more) ?_
        rintro ⟨m, row, ⟨e, member, message, isCommit⟩, isId⟩
        rcases List.mem_cons.mp member with rfl | old
        · cases isCommit
        · exact free ⟨m, row, ⟨e, old, message, isCommit⟩, isId⟩
    | responded responds _ =>
        refine .responded (responds.mono identity) fun dek' isDek => ?_
        obtain rfl := isKey dek' isDek
        rintro old isRow _ ⟨isConv, isSame⟩
        rw [Journal.record_state, isDevice] at isRow
        exact unkeyed.1 old isRow isConv isSame
  · intro _ dek' isDek apart old isRow isConv _
    obtain rfl := isKey dek' isDek
    rw [Journal.record_state, isDevice] at isRow
    exact unkeyed.2 apart old isRow isConv

/-- Storing the key of a conversation that has none, whether it fails or not. -/
theorem guides_addDek {next : RatchetSession} {key : String} {text : List UInt16} (dek : Nat) :
    I.contract.Guides t call (Held t n c fun j => (Prepared t n c call next key text j ∧
        HasDek n c none j) ∧ Unkeyed n c dek j) (act (.on n (.addDek { convId := c, key := dek })))
      fun result => Held t n c fun j => Prepared t n c call next key text j ∧
        match result with
        | .ok _ => HasDek n c (some dek) j
        | .error _ => (HasDek n c none j ∧ Unkeyed n c dek j) ∧ Drew t j (lostKey · = true) := by
  refine guides_act ((steady_prepared.and (steady_hasDek none)).and (steady_unkeyed dek))
    (fun j _ held alive => (held alive).1) ?_
  intro j base _ running owns known result s' performs
  obtain ⟨⟨prepared, hasNone⟩, unkeyed⟩ := known
  cases result with
  | ok value =>
      obtain ⟨_, d, executed, isAfter⟩ := exec_on.mp performs.exec
      obtain ⟨_, _, rfl⟩ := exec_ok.mp executed
      refine ⟨?_, prepared.addDek hasNone unkeyed isAfter, ?_⟩
      · change s' = _ at isAfter
        rw [Owns, Journal.record_state, isAfter, Browsers.set_device, if_pos rfl]
        exact owns
      · change s' = _ at isAfter
        rw [HasDek, Journal.record_state, isAfter, Browsers.set_device, if_pos rfl]
        exact Table.get_put_self _ _
  | error e =>
      obtain ⟨isAfter, owns'⟩ := owns_error owns performs
      subst isAfter
      have relied : Rely t j (j.record ⟨t, call, .on n (.addDek { convId := c, key := dek }), .error e,
          j.state, j.state⟩) := rely_neutral t (fun _ => .refl _) rfl rfl
      have alive := exec_alive performs.exec
      refine ⟨owns', steady_prepared _ _ relied alive owns prepared,
        ⟨hasNone, steady_unkeyed _ _ _ relied alive owns unkeyed⟩, _, List.mem_cons_self, rfl, ?_⟩
      change ((j.state.device n).deks.get c).isNone = true
      rw [hasNone]
      rfl

theorem under_ensureDek {next : RatchetSession} {key : String} {text : List UInt16} :
    Under I t n c call (Prepared t n c call next key text) (on n (ensureDek c)) fun dek j =>
      Prepared t n c call next key text j ∧ Keyed t n c dek j := by
  rw [ensureDek, on_bind]
  refine under_bind _ (under_existingDek steady_prepared) fun found => ?_
  cases found with
  | some dek => exact under_pure fun j known => ⟨known.1, .inl known.2⟩
  | none =>
      dsimp only
      rw [on_bind, on_call]
      refine under_bind _ (under_generateDek (steady_prepared.and (steady_hasDek none))) fun dek => ?_
      rw [on_tryCatch]
      refine under_tryCatch (fun result j => Prepared t n c call next key text j ∧
        match result with
        | .ok key => HasDek n c (some key) j
        | .error _ => (HasDek n c none j ∧ Unkeyed n c dek j) ∧ Drew t j (lostKey · = true)) ?_
        (fun _ _ known => ⟨known.1, .inl known.2⟩) fun e => ?_
      · rw [on_bind, on_call]
        refine guides_bind _ (guides_addDek dek) (fun _ => ?_) fun _ _ held => held
        exact guides_pure fun _ held => held
      · rw [on_bind]
        have steady : Steady t n c fun j => (Prepared t n c call next key text j ∧
            HasDek n c none j ∧ Unkeyed n c dek j) ∧ Drew t j (lostKey · = true) :=
          (steady_prepared.and ((steady_hasDek none).and (steady_unkeyed dek))).and (steady_drew _)
        refine under_bind _ ((under_existingDek steady).weaken
          (fun j known => ⟨⟨known.1, known.2.1⟩, known.2.2⟩) fun _ _ => id) fun found => ?_
        refine under_pure fun j known => ?_
        obtain ⟨⟨⟨prepared, hasNone, unkeyed⟩, lost⟩, isFound⟩ := known
        have isNone : found = none := by
          rw [HasDek, hasNone] at isFound
          simpa using isFound.symm
        rw [isNone]
        exact ⟨prepared, .inr ⟨⟨hasNone, unkeyed⟩, lost⟩⟩

/-- The commit of this ratchet and this text is the one the call has made. -/
def Kept (t n : Nat) (c : String) (next : RatchetSession) (key : String) (text : List UInt16)
    (j : History) : Prop :=
  ∃ e ∈ j.past, e.thread = t ∧ ∃ dek,
    committed e = some (n, rowOf c dek next, some (messageOf c key dek text))

theorem under_commit {next : RatchetSession} {key : String} {text : List UInt16} :
    Under I t n c call (Prepared t n c call next key text) (on n (commit c next key text))
      fun _ => Kept t n c next key text := by
  rw [commit, on_bind]
  refine under_bind _ under_ensureDek fun dek => ?_
  have steady : Steady t n c fun j => Prepared t n c call next key text j ∧ Keyed t n c dek j :=
    steady_prepared.and (steady_keyed dek)
  refine under_act steady (fun j running held alive => ?_) ?_
  · obtain ⟨owns, prepared, keyed⟩ := held alive
    exact ⟨call, running, prepared.commit owns keyed⟩
  · intro j base _ running owns known value s' performs
    obtain ⟨_, d, executed, isAfter⟩ := exec_on.mp performs.exec
    obtain ⟨_, _, rfl⟩ := exec_ok.mp executed
    refine ⟨?_, _, List.mem_cons_self, rfl, dek, rfl⟩
    change s' = _ at isAfter
    rw [Owns, Journal.record_state, isAfter, Browsers.set_device, if_pos rfl]
    exact owns

/-- What is known of a session before the envelope is sealed or opened. -/
structure Ready (t n : Nat) (c : String) (call : Call) (session : RatchetSession) (j : History) :
    Prop where
  quiet : Quiet t j
  going : Going t n c call session j

theorem steady_ready (session : RatchetSession) : Steady t n c (Ready t n c call session) :=
  fun j j' relied alive owns known => ⟨calm_quiet.steady j j' relied alive owns known.quiet,
    steady_going session j j' relied alive owns known.going⟩

theorem Kept.posts {j : History} {session next : RatchetSession} {envelope : WireEnvelopeV2}
    {key me : String} {text text' : List UInt16} (kept : Kept t n c next key text j)
    (sent : sealV2 session me text' = .ok (envelope, next)) : Posts t j envelope := by
  obtain ⟨e, old, mine, dek, isCommit⟩ := kept
  exact ⟨e, old, mine, n, _, _, session, me, text', isCommit, sent⟩

/-- The envelope of an answer has its ratchet committed. -/
def Sent (t : Nat) (j : History) : AnyEnvelope → Prop
  | .v1 _ => True
  | .v2 envelope => Posts t j envelope

theorem under_myUserId {this : Tab} {q : String → Acting α} {post : α → History → Prop}
    (rest : ∀ me, this.userId = some me → Under I t n c call f (q me) post) :
    Under I t n c call f (on n (myUserId this) >>= q) post := by
  rw [myUserId]
  cases isUser : this.userId with
  | none => exact under_throw
  | some me => exact rest me isUser

theorem Ready.sealed {this : Tab} {peerId me : String} {session next : RatchetSession}
    {text : List UInt16} {envelope : WireEnvelopeV2} {j : History}
    (ready : Ready t n c (.encrypt n this c peerId text) session j) (isUser : this.userId = some me)
    (sent : sealV2 session me text = .ok (envelope, next)) :
    Prepared t n c (.encrypt n this c peerId text) next (messageKey next.sessionId me envelope.ctr)
      text j where
  browser := rfl
  conversation := rfl
  quiet := ready.quiet
  going := ⟨session, ready.going, .sealed isUser sent⟩
  unread decrypts := by cases decrypts

theorem under_encryptV2 {this : Tab} {peerId : String} {session : RatchetSession}
    {text : List UInt16} :
    Under I t n c (.encrypt n this c peerId text)
      (Ready t n c (.encrypt n this c peerId text) session) (on n (encryptV2 this c session text))
      fun envelope j => Sent t j envelope := by
  rw [encryptV2, on_bind]
  refine under_myUserId fun me isUser => ?_
  rw [on_bind, on_lift]
  refine under_lift_bind fun sent isSent => ?_
  obtain ⟨envelope, next⟩ := sent
  rw [on_bind]
  refine under_bind _ (under_commit.weaken (fun j ready => ready.sealed isUser isSent) fun _ _ => id)
    fun _ => ?_
  exact under_pure fun j kept => kept.posts isSent

theorem neutral_pinOp {peerId : String} (op : Op) (member : PinOp peerId op) : Neutral op := by
  cases op <;> trivial

theorem steady_uncommitted (sessionId : String) :
    Steady t n c fun j => Drew t j (drawnId · = some sessionId) ∧ ¬CommittedId j.past sessionId :=
  fun _ _ relied _ _ known =>
    ⟨known.1.mono relied.past, relied.uncommitted sessionId known.1 known.2⟩

theorem under_fetchAndPinBundle (steady : Steady t n c f) (peerId : String) :
    Under I t n c call f (on n (fetchAndPinBundle peerId)) fun bundle j =>
      f j ∧ Drew t j (served · = some bundle) := by
  rw [fetchAndPinBundle, on_bind, on_call]
  refine under_bind (fun bundle j => f j ∧ Drew t j (served · = some bundle)) ?_ fun bundle => ?_
  · refine under_neutral trivial steady fun j base owns known bundle s' performs known' => ?_
    exact ⟨known', _, List.mem_cons_self, rfl, rfl⟩
  · rw [on_bind]
    refine under_bind _ (under_uses (steady.and (steady_drew _))
      ((uses_checkPeerIdentity ..).mono neutral_pinOp)) fun _ => ?_
    exact under_pure fun _ => id

/-- The draws of a new session, and the session made from them. -/
theorem under_startRatchet {this : Tab} {peerId : String} {text : List UInt16}
    {identity : StoredIdentity} (isIdentity : this.identity = some identity) :
    Under I t n c (.encrypt n this c peerId text) (Quiet t) (on n (startRatchet c peerId identity))
      (Ready t n c (.encrypt n this c peerId text)) := by
  rw [startRatchet, on_bind]
  refine under_bind _ (under_fetchAndPinBundle calm_quiet.steady peerId) fun bundle => ?_
  have steady₁ : Steady t n c fun j => Quiet t j ∧ Drew t j (served · = some bundle) :=
    calm_quiet.steady.and (steady_drew _)
  rw [on_bind, on_call]
  refine under_bind (fun ek j => (Quiet t j ∧ Drew t j (served · = some bundle)) ∧
    Drew t j (drawnKey · = some ek)) ?_ fun ek => ?_
  · refine under_neutral trivial steady₁ fun j _ _ _ ek s' _ known' => ?_
    exact ⟨known', _, List.mem_cons_self, rfl, rfl⟩
  have steady₂ := steady₁.and (steady_drew (drawnKey · = some ek))
  rw [on_bind, on_call]
  refine under_bind (fun sessionId j => ((Quiet t j ∧ Drew t j (served · = some bundle)) ∧
    Drew t j (drawnKey · = some ek)) ∧ Drew t j (drawnId · = some sessionId) ∧
      ¬CommittedId j.past sessionId) ?_ fun sessionId => ?_
  · refine under_neutral trivial steady₂ fun j _ _ _ sessionId s' performs known' => ?_
    refine ⟨known', ⟨_, List.mem_cons_self, rfl, rfl⟩, ?_⟩
    have fresh := ((I.allowed j _ performs.permitted).1.id sessionId rfl).2.1
    rintro ⟨m, row, ⟨e, member, message, isCommit⟩, isId⟩
    rcases List.mem_cons.mp member with rfl | old
    · cases isCommit
    · exact fresh ⟨m, row, ⟨e, old, message, isCommit⟩, isId⟩
  have steady₃ := steady₂.and (steady_uncommitted (t := t) (n := n) (c := c) sessionId)
  rw [on_bind]
  refine under_bind _ (under_uses steady₃ (uses_op trivial)) fun now => ?_
  rw [on_bind, on_call]
  refine under_bind (fun dhs j => (((Quiet t j ∧ Drew t j (served · = some bundle)) ∧
    Drew t j (drawnKey · = some ek)) ∧ Drew t j (drawnId · = some sessionId) ∧
      ¬CommittedId j.past sessionId) ∧ Drew t j (drawnKey · = some dhs) ∧ ek ≠ dhs ∧
        fromBase64 bundle.signedPreKey.pubX25519 ≠ .ok (.pub dhs)) ?_ fun dhs => ?_
  · refine under_neutral trivial steady₃ fun j _ _ known dhs s' performs known' => ?_
    refine ⟨known', ⟨_, List.mem_cons_self, rfl, rfl⟩, ?_⟩
    obtain ⟨unseen, apart, _⟩ := (I.allowed j _ performs.permitted).1.key dhs rfl
    obtain ⟨⟨⟨_, e, old, _, isServed⟩, e', old', _, isKey⟩, _⟩ := known
    refine ⟨?_, apart e old bundle isServed⟩
    rintro rfl
    exact unseen ⟨e', old', isKey⟩
  rw [on_lift]
  refine under_lift fun session started j known => ?_
  obtain ⟨⟨⟨⟨quiet, isServed⟩, isEk⟩, isId, free⟩, isDhs, differ, apart⟩ := known
  refine ⟨quiet, .initiated (.intro isIdentity isServed isEk isDhs differ apart isId started) ?_⟩
  obtain ⟨_, _, _, _, _, _, _, _, _, _, _, _, _, _, _, _, rfl⟩ := startInitiator_ok started
  exact free

theorem neutral_sessionOp (op : Op) (member : SessionOp op) : Neutral op := by
  cases op <;> trivial

theorem neutral_pin (peerId : String) (ed : Base64) (keyVersion : JsNumber) :
    Uses Neutral (pin peerId ed keyVersion).run :=
  (uses_pin peerId ed keyVersion).mono neutral_pinOp

/-- v1 envelopes come from no ratchet. -/
theorem under_encryptV1 {this : Tab} {peerId : String} {identity : StoredIdentity}
    {text : List UInt16} (steady : Steady t n c f) :
    Under I t n c call f (on n (encryptV1 this c peerId identity text))
      fun envelope j => Sent t j envelope := by
  have sealing (session : StoredSession) (init : Option Init) :
      Under I t n c call f (on n (do
        let me ← myUserId this
        let envelope ← lift (Envelope.seal { session with sendCtr := session.sendCtr + 1 } c me
          session.sendCtr text init)
        return .v1 (if init.isSome ∧ session.sendCtr > 0 then { envelope with init } else envelope)))
        fun envelope j => Sent t j envelope := by
    rw [on_bind]
    refine under_myUserId fun me _ => ?_
    rw [on_bind, on_lift]
    exact under_lift_bind fun envelope _ => under_pure fun _ _ => trivial
  rw [encryptV1, on_bind]
  refine under_bind _ (under_uses steady
    (uses_sendingSession_of neutral_pin neutral_sessionOp ..)) fun found => ?_
  obtain ⟨session, init⟩ := found
  dsimp only
  rw [on_bind]
  refine under_bind _ (under_uses steady (uses_op trivial)) fun _ => ?_
  split
  · rw [on_bind]
    exact under_bind _ (under_uses steady (uses_op trivial)) fun _ => sealing session init
  · exact sealing session init

theorem under_encryptLocked {this : Tab} {peerId : String} {text : List UInt16}
    {identity : StoredIdentity} (isIdentity : this.identity = some identity) :
    Under I t n c (.encrypt n this c peerId text) (Quiet t) (on n (do
      match ← latestRatchet c with
      | some session => encryptV2 this c session text
      | none =>
          if ← E2EEService.call .doubleRatchetEnabled then
            encryptV2 this c (← startRatchet c peerId identity) text
          else encryptV1 this c peerId identity text))
      fun envelope j => Sent t j envelope := by
  rw [on_bind]
  refine under_bind _ (under_latestRatchet calm_quiet.steady) fun found => ?_
  cases found with
  | some session =>
      exact under_encryptV2.weaken (fun j known => ⟨known.1, .stored (known.2 session rfl)⟩)
        fun _ _ => id
  | none =>
      dsimp only
      rw [on_bind]
      refine under_bind (fun _ => Quiet t) ?_ fun enabled => ?_
      · have asks : Uses Neutral (E2EEService.call .doubleRatchetEnabled).run := uses_op trivial
        exact (under_uses calm_quiet.steady asks).weaken (fun _ known => known.1) fun _ _ => id
      split
      · rw [on_bind]
        exact under_bind _ (under_startRatchet isIdentity) fun session => under_encryptV2
      · exact under_encryptV1 calm_quiet.steady

theorem sent_lasting : Lasting (fun (envelope : AnyEnvelope) j => Sent t j envelope) := by
  intro envelope j j' more sent
  cases envelope with
  | v1 envelope => trivial
  | v2 envelope =>
      obtain ⟨e, old, committed⟩ := sent
      exact ⟨e, more e old, committed⟩

/-- What a call returns to the page is justified by what it has committed. -/
theorem guides_answer {reply : Reply} {f : History → Prop} (stable : I.contract.Stable t f)
    (justified : ∀ j, f j → Justified t j (.answer reply)) :
    I.contract.Guides t call f (act (.answer reply)) fun _ _ => True := by
  intro j start
  refine safe_step stable (fun j holds running known => ?_) start
  exact ⟨justified j known, fun _ _ _ => trivial⟩

theorem guides_encrypt {this : Tab} {peerId : String} {text : List UInt16} :
    I.contract.Guides t (.encrypt n this c peerId text) (Quiet t)
      (Call.encrypt n this c peerId text).body fun _ _ => True := by
  rw [Call.body]
  refine guides_bind (Passing fun envelope j => Sent t j envelope) ?_ (fun envelope => ?_)
    fun _ _ _ => trivial
  · rw [E2EEService.encrypt, on_bind, requireIdentity]
    cases isIdentity : this.identity with
    | none => exact guides_throw fun _ _ => trivial
    | some identity => exact guides_withLock calm_quiet sent_lasting (under_encryptLocked isIdentity)
  · refine guides_answer ?_ fun j sent => ?_
    · exact fun j j' relied sent => sent_lasting envelope j j' relied.past sent
    · cases envelope with
      | v1 envelope => trivial
      | v2 envelope => exact fun _ => sent

/-- The identity a decryption goes on with: the one of the tab, or else the browser's. -/
def Known (n : Nat) (this : Tab) (identity : StoredIdentity) (j : History) : Prop :=
  (this.identity <|> (j.state.device n).identity) = some identity

theorem calm_known (this : Tab) (identity : StoredIdentity) : Calm t (Known n this identity) := by
  intro j j' _ same known
  rw [Known, same]
  exact known

section Decrypt

variable {this : Tab} {senderId : String} {envelope : WireEnvelopeV2} {identity : StoredIdentity}

theorem Calm.and {f g : History → Prop} (first : Calm t f) (second : Calm t g) :
    Calm t fun j => f j ∧ g j :=
  fun j j' own same known => ⟨first j j' own same known.1, second j j' own same known.2⟩

theorem calm_begun : Calm t fun j => Quiet t j ∧ Known n this identity j :=
  calm_quiet.and (calm_known this identity)

theorem neutral_lookupOp (op : Op) (member : LookupOp op) : Neutral op := by
  cases op <;> trivial

/-- The message that is about to be opened is not in the vault. -/
def New (n : Nat) (c key : String) (j : History) : Prop :=
  ∀ dek, HasDek n c (some dek) j → Unread j n c key dek

theorem steady_new (key : String) : Steady t n c (New n c key) :=
  steady_hasDek_implies fun dek => steady_unread key dek

theorem under_receivingRatchet (steady : Steady t n c f) :
    Under I t n c (.decrypt n this c senderId (.v2 envelope) false)
      (fun j => (Quiet t j ∧ Known n this identity j) ∧ f j)
      (on n (receivingRatchet c senderId envelope identity)) fun found j => f j ∧
        ∀ session, found.1 = some session →
          Ready t n c (.decrypt n this c senderId (.v2 envelope) false) session j := by
  have steady' := (@calm_begun t n this identity).steady.and steady
  rw [receivingRatchet, on_bind]
  refine under_bind _ (under_loadRatchet steady' envelope.sessionId) fun found => ?_
  cases found with
  | some session =>
      refine under_pure fun j known => ⟨known.1.2, fun session' isSession => ?_⟩
      obtain rfl := Option.some.inj isSession
      exact ⟨known.1.1.1, .stored known.2.1⟩
  | none =>
      dsimp only
      split
      · exact under_pure fun j known => ⟨known.1.2, fun _ isSession => by cases isSession⟩
      next init isInit =>
      have unstored : Steady t n c fun j => ∀ dek, HasDek n c (some dek) j →
          Unstored n c envelope.sessionId dek j :=
        steady_hasDek_implies fun dek => steady_unstored _ dek
      rw [on_bind]
      refine under_bind _ (under_uses (steady'.and unstored)
        ((uses_checkPeerIdentity ..).mono neutral_pinOp)) fun changed => ?_
      rw [on_bind]
      refine under_bind _ (under_uses (steady'.and unstored) (uses_op trivial)) fun now => ?_
      rw [on_bind, on_lift]
      refine under_lift_bind fun session started => under_pure fun j known => ⟨known.1.2, ?_⟩
      intro session' isSession
      obtain rfl := Option.some.inj isSession
      refine ⟨known.1.1.1, .responded (.intro known.1.1.2 isInit started) ?_⟩
      obtain ⟨_, _, _, _, _, _, _, _, _, _, _, _, _, _, _, _, _, rfl⟩ :=
        startResponder_eq_ok.mp started
      exact known.2

/-- The key that `openV2` may take up has not been seen before. -/
theorem under_fresh (steady : Steady t n c f) :
    Under I t n c (.decrypt n this c senderId (.v2 envelope) false) f
      (act (.on n .generateX25519)) fun fresh j => f j ∧ Drew t j (drawnKey · = some fresh) ∧
        fromBase64 envelope.dh ≠ .ok (.pub fresh) := by
  refine under_neutral trivial steady fun j _ _ _ fresh s' performs known' => ?_
  refine ⟨known', ⟨_, List.mem_cons_self, rfl, rfl⟩, ?_⟩
  obtain ⟨_, _, unseen⟩ := (I.allowed j _ performs.permitted).1.key fresh rfl
  exact unseen t _ envelope performs.running rfl

theorem under_decryptV2Locked :
    Under I t n c (.decrypt n this c senderId (.v2 envelope) false)
      (fun j => Quiet t j ∧ Known n this identity j)
      (on n (decryptV2Locked c senderId envelope identity)) fun _ _ => True := by
  rw [decryptV2Locked]
  dsimp only
  rw [on_bind]
  refine under_bind _ (under_loadMessage calm_begun.steady _) fun found => ?_
  cases found with
  | some again => exact under_pure fun _ _ => trivial
  | none =>
      dsimp only
      rw [on_bind]
      refine under_bind _ ((under_receivingRatchet (steady_new
        (messageKey envelope.sessionId senderId envelope.ctr))).weaken
          (fun j known => ⟨known.1, known.2 rfl⟩) fun _ _ => id) fun received => ?_
      obtain ⟨found, keyChanged⟩ := received
      cases found with
      | none => exact under_pure fun _ _ => trivial
      | some session =>
          have steady := (steady_new (t := t) (n := n) (c := c)
            (messageKey envelope.sessionId senderId envelope.ctr)).and
              (@steady_ready t n c (.decrypt n this c senderId (.v2 envelope) false) session)
          have asks : Uses Neutral (E2EEService.call .now).run := uses_op trivial
          dsimp only
          rw [on_bind]
          refine under_bind _ ((under_uses steady asks).weaken
            (fun j known => ⟨known.1, known.2 session rfl⟩) fun _ _ => id) fun now => ?_
          rw [on_bind, on_call]
          refine under_bind _ (under_fresh steady) fun fresh => ?_
          rw [on_bind, on_lift]
          refine under_lift_bind fun opened isOpen => ?_
          obtain ⟨text, next⟩ := opened
          dsimp only
          rw [on_bind]
          refine under_bind _ (under_commit.weaken (fun j known => ?_) fun _ _ => id) fun _ =>
            under_pure fun _ _ => trivial
          exact ⟨rfl, rfl, known.1.2.quiet, ⟨session, known.1.2.going,
            .opened known.2.1 known.2.2 isOpen⟩, fun _ => known.1.1⟩

theorem guides_cachedIdentity :
    I.contract.Guides t call (Quiet t) (on n (cachedIdentity this)) (Passing fun found j =>
      Quiet t j ∧ ∀ identity, found = some identity → Known n this identity j) := by
  rw [cachedIdentity]
  cases isIdentity : this.identity with
  | some identity =>
      refine guides_pure fun j quiet => ⟨quiet, fun identity' isSame => ?_⟩
      rw [Known, isIdentity, ← isSame]
      rfl
  | none =>
      intro j start
      refine safe_step calm_quiet.stable (fun j holds running quiet => ?_) start
      have neutral : Neutral .loadIdentity := trivial
      have justified : Justified t j (.on n .loadIdentity) := trivial
      refine ⟨justified, fun result s' performs => ?_⟩
      cases result with
      | error e => trivial
      | ok found =>
          have same := looked_same performs neutral
          obtain ⟨a, replied⟩ := answered performs.exec
          have isFound : (j.state.device n).identity = found := Except.ok.inj replied
          refine ⟨calm_quiet.record rfl (fun m => ?_) quiet, fun identity isSome => ?_⟩
          · exact ((neutral_step neutral performs.exec).1 m).identity
          · rw [Known, isIdentity, Journal.record_state, same.identity, isFound, isSome]
            rfl

theorem guides_decryptV2 (own : Bool) :
    I.contract.Guides t (.decrypt n this c senderId (.v2 envelope) own)
      (fun j => Quiet t j ∧ Known n this identity j)
      (on n (decryptV2 c senderId envelope own identity)) fun _ _ => True := by
  rw [decryptV2, on_tryCatch]
  refine guides_tryCatch (fun _ _ => True) ?_ (fun _ _ _ => trivial)
    fun _ => guides_pure fun _ _ => trivial
  rw [decryptV2Body, on_bind]
  refine guides_bind _ (guides_neutral calm_begun ((uses_loadMessage ..).mono neutral_lookupOp))
    (fun found => ?_) fun _ _ _ => trivial
  cases found with
  | some stored => exact guides_pure fun _ _ => trivial
  | none =>
      cases own with
      | true => exact guides_pure fun _ _ => trivial
      | false =>
          have lasting : Lasting fun (_ : DecryptResult) _ => True := fun _ _ _ _ _ => trivial
          exact (guides_withLock calm_begun lasting under_decryptV2Locked).weaken
            (fun _ => id) fun _ _ _ => trivial

theorem guides_decrypt {envelope : AnyEnvelope} {own : Bool} :
    I.contract.Guides t (.decrypt n this c senderId envelope own) (Quiet t)
      (Call.decrypt n this c senderId envelope own).body fun _ _ => True := by
  rw [Call.body]
  refine guides_bind (fun _ _ => True) ?_ (fun result => ?_) fun _ _ _ => trivial
  · rw [E2EEService.decrypt, on_bind]
    refine guides_bind _ guides_cachedIdentity (fun found => ?_) fun _ _ _ => trivial
    cases found with
    | none => exact guides_pure fun _ _ => trivial
    | some identity =>
        cases envelope with
        | v1 envelope =>
            refine (guides_neutral calm_quiet
              (uses_decryptV1_of neutral_pin neutral_sessionOp ..)).weaken
                (fun j known => known.1) fun _ _ _ => trivial
        | v2 envelope =>
            exact (guides_decryptV2 own).weaken (fun j known => ⟨known.1, known.2 identity rfl⟩)
              fun _ _ => id
  · exact guides_answer (fun _ _ _ => id) fun _ _ => trivial

end Decrypt

/-- Every call keeps the contract of the vault. -/
theorem guided (t : Nat) (call : Call) :
    I.contract.Guides t call (fun j => (Base j ∧ I.holds j) ∧ j.log t = []) call.body
      fun _ _ => True := by
  have quiet : ∀ j : History, ((Base j ∧ I.holds j) ∧ j.log t = []) → Quiet t j := by
    intro j start e member mine
    exact absurd mine (own_eq_nil start.2 e member)
  cases call with
  | encrypt n this c peerId text => exact guides_encrypt.weaken quiet fun _ _ => id
  | decrypt n this c senderId envelope own => exact guides_decrypt.weaken quiet fun _ _ => id
  | crash u =>
      intro j start
      refine safe_step (fun _ _ _ _ => trivial) (fun j _ _ _ => ?_) ⟨start.1, trivial⟩
      have justified : Justified t j (.crash u) := trivial
      exact ⟨justified, fun _ _ _ => trivial⟩

section Reached

variable {s : Browsers} {j : History}

theorem Base.begin (base : Base j) (idle : j.calls t = none) (admitted : Unguessed j call) :
    Base (j.begin t call) where
  named u call' envelope running isHanded drawn := by
    obtain ⟨_, rfl⟩ | running := Journal.of_calls_begin running
    · exact admitted.id envelope isHanded drawn
    · exact base.named u call' envelope running isHanded drawn
  once := base.once
  ratchets := base.ratchets
  messages n row isRow := by
    obtain ⟨isId, ⟨_, _, running, isConv⟩, isCommitted⟩ := base.messages n row isRow
    exact ⟨isId, ⟨_, _, Journal.calls_begin idle running, isConv⟩, isCommitted⟩

theorem Rely.begin {u : Nat} (idle : j.calls t = none) : Rely u j (j.begin t call) where
  calls _ _ running := Journal.calls_begin idle running
  past _ := id
  own _ old _ := .inl old
  dead := id
  identity _ := rfl
  locked _ _ _ owns := ⟨owns, .refl _ _, fun _ => ⟨fun _ _ => .rfl⟩⟩
  uncommitted _ _ := id

/-- The vaults are empty at first. -/
structure Fresh (s : Browsers) : Prop where
  ratchets : ∀ n, (s.device n).ratchets.rows = []
  messages : ∀ n, (s.device n).messages.rows = []

theorem Fresh.base (fresh : Fresh s) : Base (.empty s) where
  named _ _ _ running := by cases running
  once _ member := by cases member
  ratchets n row isRow := by
    rw [Journal.empty_state, fresh.ratchets] at isRow
    cases isRow
  messages n row isRow := by
    rw [Journal.empty_state, fresh.messages] at isRow
    cases isRow

/-- The vault's invariant holds of whatever the browsers reach. -/
theorem Invariant.reached (I : Invariant permits) (fresh : Fresh s) (start : I.holds (.empty s))
    (reaches : service.Reaches Unguessed permits s j) : Base j ∧ I.holds j := by
  refine Service.Reaches.under I.contract ⟨fresh.base, start⟩ ?_ guided reaches
  intro j t call holds idle admitted
  exact ⟨⟨holds.1.begin idle admitted, I.begins j t call holds.1 holds.2 idle admitted⟩,
    fun u _ => .begin idle⟩

end Reached

end Vault
