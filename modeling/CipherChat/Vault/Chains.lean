import CipherChat.Ratchet.Epochs
import CipherChat.Vault.Calls

/-!
The sending chains of the ratchets that are committed: every chain has a ratchet key of its own, and
the chain that is stored only goes forward.
-/

namespace Vault

open Async Contract Number Symbolic Primitives KeyStore Envelope EnvelopeV2 DoubleRatchet Store
  E2EEService

section States

/-- The sending chain of a state goes on, or a new one is made under a fresh ratchet key. -/
inductive Onward (theirs : Term → Prop) (fresh : Nat) (state next : RatchetState) : Prop
  | same : ¬(state.dhr = none ∧ state.skipped = []) → next.dhsPub = state.dhsPub →
      next.cks = state.cks → next.ns = state.ns → Onward theirs fresh state next
  | turned (their rk out : Term) : theirs their → dh (.secret fresh) their = .ok out →
      next.dhsPub = toBase64 (.pub fresh) → next.cks = some (toBase64 (kdfRoot rk out).ck) →
      next.ns = 0 → Onward theirs fresh state next

variable {session next : RatchetSession}

theorem skipUntil_chain {state state' : RatchetState} {limit : JsNumber} {now : Nat}
    (skips : skipUntil state limit now = .ok state') :
    state'.dhsPub = state.dhsPub ∧ state'.cks = state.cks ∧ state'.ns = state.ns := by
  obtain ⟨_, rfl⟩ | ⟨_, _, _, _, _, rfl⟩ := skipUntil_ok skips
  · exact ⟨rfl, rfl, rfl⟩
  · exact ⟨rfl, rfl, rfl⟩

/-- Opening an envelope seals nothing: the total that was sent stays, and so does the chain unless the
envelope names another ratchet key. -/
theorem openV2_onward {senderId : String} {envelope : WireEnvelopeV2} {now fresh : Nat}
    {text : List UInt16} (opened : openV2 session senderId envelope now fresh = .ok (text, next)) :
    next.sendTotal = session.sendTotal ∧
      Onward (fun their => fromBase64 envelope.dh = .ok their) fresh session.state next.state := by
  obtain ⟨_, message, state, isMessage, decrypted, rfl⟩ := openV2_ok opened
  refine ⟨rfl, ?_⟩
  obtain ⟨isHeader, _⟩ := message_ok isMessage
  rcases ratchetDecrypt_ok decrypted with ⟨_, _, search, _, _, rfl⟩ |
    ⟨_, followed, reached, _, follows, reaches, _, _, rfl⟩
  · refine .same (fun empty => ?_) rfl rfl rfl
    rw [empty.2] at search
    cases search
  · obtain ⟨pub, cks, ns⟩ := skipUntil_chain reaches
    rcases followHeader_ok follows with ⟨_, closed, closes, turns⟩ | ⟨same, _, rfl⟩
    · obtain ⟨their, rk, _, _, out, isTheir, _, _, _, isOut, rfl⟩ := dhRatchet_ok turns
      rw [isHeader] at isTheir
      exact .turned their _ out isTheir isOut pub cks ns
    · refine .same (fun empty => ?_) pub cks ns
      rw [empty.1] at same
      cases same

/-- What an envelope is sealed under, and what is left of its chain. -/
structure Sealing (session next : RatchetSession) (envelope : WireEnvelopeV2) (ck : Term) : Prop where
  sessionId : envelope.sessionId = session.sessionId
  ctr : envelope.ctr = session.sendTotal
  total : next.sendTotal = session.sendTotal + 1
  pub : next.state.dhsPub = session.state.dhsPub
  number : next.state.ns = session.state.ns + 1
  chain : ∃ cks, session.state.cks = some cks ∧ fromBase64 cks = .ok ck
  next : next.state.cks = some (toBase64 (kdfChain ck).ck)
  ct : ∃ iv plaintext aad,
    envelope.ct = toBase64 (.aead (cipherParams (kdfChain ck).mk).key iv plaintext aad)

theorem sealing_of {me : String} {text : List UInt16} {envelope : WireEnvelopeV2}
    (sent : sealV2 session me text = .ok (envelope, next)) :
    ∃ ck, Sealing session next envelope ck := by
  obtain ⟨message, state, encrypted, rfl, rfl⟩ := sealV2_ok sent
  obtain ⟨cks, ck, isChain, isKey, _, isCiphertext, rfl⟩ := ratchetEncrypt_ok encrypted
  exact ⟨ck, rfl, rfl, rfl, rfl, rfl, ⟨cks, isChain, isKey⟩, rfl, _, _, _,
    congrArg toBase64 isCiphertext⟩

end States

/-- A call has been told of this public key. -/
def Seen (j : History) (their : Term) : Prop :=
  (∃ e ∈ j.past, ∃ bundle, served e = some bundle ∧
    fromBase64 bundle.signedPreKey.pubX25519 = .ok their) ∨
  ∃ u call envelope, j.calls u = some call ∧ call.handed = some envelope ∧
    fromBase64 envelope.dh = .ok their

/-- The ratchet sends under this key, on a chain made from it. -/
structure Chained (j : History) (state : RatchetState) (name : Nat) (root : Term) : Prop where
  pub : state.dhsPub = toBase64 (.pub name)
  cks : state.cks = some (toBase64 (chainAfter root state.ns))
  made : ∃ rk their out, Seen j their ∧ dh (.secret name) their = .ok out ∧ root = (kdfRoot rk out).ck

/-- A row lies behind the one that is stored in its place. -/
structure Behind (row stored : RatchetRow) : Prop where
  total : row.session.sendTotal ≤ stored.session.sendTotal
  chain : row.session.state.dhsPub = stored.session.state.dhsPub →
    row.session.state.ns ≤ stored.session.state.ns

structure Chains (j : History) : Prop where
  commits : ∀ e ∈ j.past, ∀ n row message, committed e = some (n, row, message) →
    e.call.browser = some n ∧ row.sessionId = row.session.sessionId
  posted : ∀ e ∈ j.past, ∀ n envelope, sentBy e = some (n, envelope) → Posts e.thread j envelope
  persists : ∀ n row, Committed j.past n row → ∃ stored ∈ (j.state.device n).ratchets.rows,
    stored.sessionId = row.sessionId ∧ Behind row stored
  chained : ∀ n row, Committed j.past n row → ∃ name root, Chained j row.session.state name root
  /-- A ratchet key belongs to one session and one chain, and a chain to one key. -/
  same : ∀ n row name root n' row' name' root', Committed j.past n row → Committed j.past n' row' →
    Chained j row.session.state name root → Chained j row'.session.state name' root' →
      (name = name' → n = n' ∧ row.sessionId = row'.sessionId ∧ root = root') ∧
        (root = root' → name = name')
  published : ∀ name, Published j.past name → ∃ e ∈ j.past, drawnKey e = some name ∧
    ∃ e' ∈ j.past, e'.thread = e.thread ∧ committed e' ≠ none
  keyOnce : ∀ e ∈ j.past, ∀ e' ∈ j.past, ∀ name, drawnKey e = some name → drawnKey e' = some name →
    e.thread = e'.thread
  unseen : ∀ name, Seen j (.pub name) → DrawnKey j.past name → Published j.past name
  /-- No two encryptions have sealed alike. -/
  apart : ∀ e ∈ j.past, ∀ e' ∈ j.past, e.thread ≠ e'.thread → e.call.decrypts = false →
    e'.call.decrypts = false → ∀ n row message n' row' message',
      committed e = some (n, row, message) → committed e' = some (n', row', message') →
        (n = n' → row.sessionId = row'.sessionId →
          row.session.sendTotal ≠ row'.session.sendTotal) ∧
        row.session.state.cks ≠ row'.session.state.cks

section Steps

variable {permits : History → Event → Prop} {j j' : History} {e : Event} {t n : Nat} {call : Call}
  {row : RatchetRow} {message : Option MessageRow}

theorem Seen.mono (more : ∀ e ∈ j.past, e ∈ j'.past)
    (calls : ∀ u call, j.calls u = some call → j'.calls u = some call) {their : Term}
    (seen : Seen j their) : Seen j' their := by
  rcases seen with ⟨e, old, isServed⟩ | ⟨u, call, envelope, running, isHanded⟩
  · exact .inl ⟨e, more e old, isServed⟩
  · exact .inr ⟨u, call, envelope, calls u call running, isHanded⟩

theorem Chained.mono (more : ∀ e ∈ j.past, e ∈ j'.past)
    (calls : ∀ u call, j.calls u = some call → j'.calls u = some call) {state : RatchetState}
    {name : Nat} {root : Term} (chained : Chained j state name root) : Chained j' state name root := by
  obtain ⟨rk, their, out, seen, agreed⟩ := chained.made
  exact ⟨chained.pub, chained.cks, rk, their, out, seen.mono more calls, agreed⟩

/-- The place on a chain and the key it is sent under tell the chain. -/
theorem Chained.unique {state : RatchetState} {name name' : Nat} {root root' : Term}
    (first : Chained j state name root) (second : Chained j' state name' root') :
    name = name' ∧ root = root' := by
  refine ⟨?_, ?_⟩
  · have same := first.pub.symm.trans second.pub
    simpa [toBase64] using same
  · have same := first.cks.symm.trans second.cks
    simp only [toBase64, Option.some.injEq, Base64.enc.injEq, true_and] at same
    exact RatchetPair.chainAfter_injective _ same

/-- Two places are the same when the chain keys are. -/
theorem Chained.place {state state' : RatchetState} {name name' : Nat} {root root' : Term}
    (first : Chained j state name root) (second : Chained j' state' name' root')
    (same : state.cks = state'.cks) : root = root' ∧ state.ns = state'.ns := by
  obtain ⟨rk, _, out, _, _, rfl⟩ := first.made
  obtain ⟨rk', _, out', _, _, rfl⟩ := second.made
  rw [first.cks, second.cks] at same
  simp only [toBase64, Option.some.injEq, Base64.enc.injEq, true_and] at same
  exact RatchetPair.chainAfter_kdfRoot_inj same

/-- Sealing goes one step on. -/
theorem Chained.seal {session next : RatchetSession} {envelope : WireEnvelopeV2} {ck : Term}
    {name : Nat} {root : Term} (chained : Chained j session.state name root)
    (sealing : Sealing session next envelope ck) : Chained j next.state name root where
  pub := sealing.pub.trans chained.pub
  cks := by
    obtain ⟨cks, isChain, isKey⟩ := sealing.chain
    rw [chained.cks, Option.some.injEq] at isChain
    rw [← isChain, fromBase64_toBase64, Except.ok.injEq] at isKey
    rw [sealing.next, sealing.number, chainAfter_succ, isKey]
  made := chained.made

/-- Where the chain of a commit comes from. -/
inductive Origin (t : Nat) (j : History) (n : Nat) (row : RatchetRow) (sends : Prop) (name : Nat)
    (root : Term) : Prop
  | stored (old : RatchetRow) : old ∈ (j.state.device n).ratchets.rows →
      old.sessionId = row.sessionId → Chained j old.session.state name root → Behind old row →
      (sends → old.session.sendTotal < row.session.sendTotal ∧
        old.session.state.ns < row.session.state.ns) → Origin t j n row sends name root
  | fresh : Drew t j (drawnKey · = some name) →
      (∀ old ∈ (j.state.device n).ratchets.rows, old.sessionId = row.sessionId →
        ¬sends ∧ old.session.sendTotal ≤ row.session.sendTotal) →
      Origin t j n row sends name root

theorem Commit.origin (commit : Commit t j call n row message) (base : Base j) (chains : Chains j)
    (running : j.calls t = some call)
    (inPlace : call.decrypts → ∀ old ∈ (j.state.device n).ratchets.rows,
      old.sessionId = row.sessionId → old.convId = row.convId ∧ old.key = row.key) :
    ∃ name root, Chained j row.session.state name root ∧
      Origin t j n row (call.decrypts = false) name root := by
  obtain ⟨session, key, text, prior, advances, _⟩ := commit.advance
  cases prior with
  | stored old isRow isId isConv isKey isSession =>
      subst isSession
      obtain ⟨name, root, chained⟩ := chains.chained n old (base.ratchets n old isRow).2
      cases advances with
      | sealed _ sent =>
          obtain ⟨ck, sealing⟩ := sealing_of sent
          have total := sealing.total
          have number := sealing.number
          refine ⟨name, root, chained.seal sealing,
            .stored old isRow isId chained ⟨by omega, fun _ => by omega⟩ fun _ => by omega⟩
      | @opened _ _ c senderId envelope now fresh _ _ _ drew unseen isOpen =>
          obtain ⟨total, onward⟩ := openV2_onward isOpen
          cases onward with
          | same _ pub cks ns =>
              refine ⟨name, root, ⟨pub.trans chained.pub, ?_, chained.made⟩,
                .stored old isRow isId chained ⟨by omega, fun _ => by omega⟩ fun sends => ?_⟩
              · rw [cks, ns]
                exact chained.cks
              · cases sends
          | turned their rk out isTheir isOut pub cks ns =>
              refine ⟨fresh, _, ⟨pub, ?_, rk, their, out, ?_, isOut, rfl⟩, .fresh drew ?_⟩
              · rw [cks, ns, chainAfter_zero]
              · exact .inr ⟨t, _, envelope, running, rfl, isTheir⟩
              · intro old' isRow' isId'
                obtain rfl := eq_of_key isRow isRow' (isId.trans isId'.symm)
                exact ⟨by simp [Call.decrypts], total.ge⟩
  | initiated initiates free =>
      cases initiates with
      | intro isIdentity isServed isEk isDhs differ unseen isId started =>
      cases advances with
      | sealed _ sent =>
      obtain ⟨ck, sealing⟩ := sealing_of sent
      obtain ⟨_, spkB, _, _, _, _, _, state, isSpk, _, _, _, _, _, begun, rfl⟩ :=
        startInitiator_ok started
      obtain ⟨out, agreed, rfl⟩ := initInitiator_ok begun
      obtain ⟨e, old, _, isBundle⟩ := isServed
      have seen : Seen j spkB := .inl ⟨e, old, _, isBundle, isSpk⟩
      refine ⟨_, _, Chained.seal ⟨rfl, rfl, _, spkB, out, seen, agreed, rfl⟩ sealing, .fresh isDhs ?_⟩
      intro stored isRow same
      exact absurd (same ▸ base.used isRow) free
  | responded responds unstored =>
      cases responds with
      | intro isIdentity isInit started =>
      cases advances with
      | @opened _ _ c senderId envelope now fresh _ _ _ drew unseen isOpen =>
      obtain ⟨_, onward⟩ := openV2_onward isOpen
      obtain ⟨_, _, _, _, _, _, _, _, _, _, _, _, _, _, _, _, _, rfl⟩ := startResponder_eq_ok.mp started
      cases onward with
      | same some => exact absurd ⟨rfl, rfl⟩ some
      | turned their rk out isTheir isOut pub cks ns =>
      refine ⟨fresh, _, ⟨pub, ?_, rk, their, out, ?_, isOut, rfl⟩, .fresh drew ?_⟩
      · rw [cks, ns, chainAfter_zero]
      · exact .inr ⟨t, _, _, running, rfl, isTheir⟩
      · intro old isRow same
        exact absurd (inPlace rfl old isRow same) (unstored old isRow same)

theorem Committed.published {name : Nat} {root : Term} (committed : Committed j.past n row)
    (chained : Chained j' row.session.state name root) : Published j.past name :=
  ⟨n, row, committed, by rw [chained.pub, fromBase64_toBase64]⟩

/-- A key that a call has drawn is not published before the call commits. -/
theorem Chains.unpublished (chains : Chains j) (first : ∀ e ∈ j.past, e.thread = t → committed e = none)
    {name : Nat} (drew : Drew t j (drawnKey · = some name)) : ¬Published j.past name := by
  intro published
  obtain ⟨e, old, mine, isDraw⟩ := drew
  obtain ⟨e₁, old₁, isDraw₁, e₂, old₂, same, isCommit⟩ := chains.published name published
  have thread : e₂.thread = t := by
    rw [same, chains.keyOnce e₁ old₁ e old name isDraw₁ isDraw, mine]
  exact isCommit (first e₂ old₂ thread)

/-- A new place shares key or chain only with those of its session. -/
theorem Origin.apart {sends : Prop} {name : Nat} {root : Term} (origin : Origin t j n row sends name root)
    (base : Base j) (chains : Chains j)
    (first : ∀ e ∈ j.past, e.thread = t → committed e = none)
    (chained : Chained j row.session.state name root) {n' name' : Nat} {row' : RatchetRow}
    {root' : Term} (committed' : Committed j.past n' row')
    (chained' : Chained j row'.session.state name' root') :
    (name = name' → n = n' ∧ row.sessionId = row'.sessionId ∧ root = root') ∧
      (root = root' → name = name') := by
  cases origin with
  | stored old isRow isId isChain _ _ =>
      rw [← isId]
      exact chains.same n old name root n' row' name' root' (base.ratchets n old isRow).2 committed'
        isChain chained'
  | fresh drew _ =>
      have unpublished := chains.unpublished first drew
      constructor
      · rintro rfl
        exact absurd (committed'.published chained') unpublished
      · intro same
        obtain ⟨rk, their, out, _, agreed, rfl⟩ := chained.made
        obtain ⟨rk', their', out', seen', agreed', rfl⟩ := chained'.made
        obtain ⟨_, rfl⟩ := RatchetPair.kdfRoot_ck_inj same
        rcases Term.agree_inj (dh_eq_ok.mp agreed) (dh_eq_ok.mp agreed') with isSame | ⟨_, rfl⟩
        · exact isSame
        · obtain ⟨e, old, _, isDraw⟩ := drew
          exact absurd (chains.unseen name seen' ⟨e, old, isDraw⟩) unpublished

theorem Origin.behind {sends : Prop} {name : Nat} {root : Term} (origin : Origin t j n row sends name root)
    (chains : Chains j) (first : ∀ e ∈ j.past, e.thread = t → committed e = none)
    (chained : Chained j row.session.state name root) {earlier stored : RatchetRow}
    (old : Committed j.past n earlier) (isRow : stored ∈ (j.state.device n).ratchets.rows)
    (isId : stored.sessionId = row.sessionId) (behind : Behind earlier stored) : Behind earlier row := by
  cases origin with
  | stored stored' isRow' isId' isChain behind' _ =>
      obtain rfl := eq_of_key isRow isRow' (isId.trans isId'.symm)
      have pub := isChain.pub.trans chained.pub.symm
      refine ⟨behind.total.trans behind'.total, fun same => ?_⟩
      exact (behind.chain (same.trans pub.symm)).trans (behind'.chain pub)
  | fresh drew total =>
      refine ⟨behind.total.trans (total stored isRow isId).2, fun same => ?_⟩
      obtain ⟨name', root', chained'⟩ := chains.chained n earlier old
      have isName : name' = name := by
        have isPub := chained'.pub.symm.trans (same.trans chained.pub)
        simpa [toBase64] using isPub
      subst isName
      exact absurd (old.published chained') (chains.unpublished first drew)

/-- An encryption goes beyond all that its session has sealed before. -/
theorem Origin.ahead {sends : Prop} {name : Nat} {root : Term} (origin : Origin t j n row sends name root)
    (isSend : sends) (chains : Chains j) (chained : Chained j row.session.state name root)
    {earlier : RatchetRow} (old : Committed j.past n earlier) (isId : earlier.sessionId = row.sessionId) :
    earlier.session.sendTotal < row.session.sendTotal ∧
      (earlier.session.state.dhsPub = row.session.state.dhsPub →
        earlier.session.state.ns < row.session.state.ns) := by
  obtain ⟨stored, isRow, isStored, behind⟩ := chains.persists n earlier old
  cases origin with
  | stored stored' isRow' isId' isChain _ strict =>
      obtain rfl := eq_of_key isRow isRow' ((isStored.trans isId).trans isId'.symm)
      have pub := isChain.pub.trans chained.pub.symm
      refine ⟨behind.total.trans_lt (strict isSend).1, fun same => ?_⟩
      exact (behind.chain (same.trans pub.symm)).trans_lt (strict isSend).2
  | fresh _ total => exact absurd isSend (total stored isRow (isStored.trans isId)).1

/-- An encryption seals on a place that no other has sealed on. -/
theorem Origin.new {sends : Prop} {name : Nat} {root : Term} (origin : Origin t j n row sends name root)
    (isSend : sends) (base : Base j) (chains : Chains j)
    (first : ∀ e ∈ j.past, e.thread = t → committed e = none)
    (chained : Chained j row.session.state name root) {n' : Nat} {earlier : RatchetRow}
    (old : Committed j.past n' earlier) :
    (n = n' → row.sessionId = earlier.sessionId →
      row.session.sendTotal ≠ earlier.session.sendTotal) ∧
        row.session.state.cks ≠ earlier.session.state.cks := by
  constructor
  · rintro rfl isId
    exact (origin.ahead isSend chains chained old isId.symm).1.ne'
  · intro same
    obtain ⟨name', root', chained'⟩ := chains.chained n' earlier old
    obtain ⟨isRoot, isNumber⟩ := chained.place chained' same
    obtain ⟨only, key⟩ := origin.apart base chains first chained old chained'
    obtain ⟨rfl, isId, _⟩ := only (key isRoot)
    have pub : earlier.session.state.dhsPub = row.session.state.dhsPub := by
      rw [chained'.pub, chained.pub, key isRoot]
    have below := (origin.ahead isSend chains chained old isId.symm).2 pub
    omega

theorem committed_record {n : Nat} {row : RatchetRow} (new : Committed (j.record e).past n row) :
    Committed j.past n row ∨ ∃ message, committed e = some (n, row, message) := by
  obtain ⟨e', member, message, isCommit⟩ := new
  rcases List.mem_cons.mp member with rfl | old
  · exact .inr ⟨message, isCommit⟩
  · exact .inl ⟨e', old, message, isCommit⟩

theorem Published.record {name : Nat} (old : Published j.past name) :
    Published (e :: j.past) name := by
  obtain ⟨n, row, isCommitted, isKey⟩ := old
  exact ⟨n, row, isCommitted.mono fun _ => List.mem_cons_of_mem _, isKey⟩

theorem Chained.record {state : RatchetState} {name : Nat} {root : Term}
    (chained : Chained j state name root) : Chained (j.record e) state name root := by
  refine chained.mono (fun _ => List.mem_cons_of_mem _) ?_
  exact fun _ _ => id

/-- The one row that a step commits, and how it goes on from what was stored. -/
theorem Chains.new (chains : Chains j) (base : Base j) (performs : j.Performs service permits e)
    (change : Change j e) (inPlace : InPlace j e) {n : Nat} {row : RatchetRow}
    {message : Option MessageRow} (isCommit : committed e = some (n, row, message)) :
    ∃ name root, Chained j row.session.state name root ∧
      Origin e.thread j n row (e.call.decrypts = false) name root :=
  (change.commit isCommit).1.origin base chains performs.running fun decrypts =>
    inPlace decrypts n row message isCommit

theorem served_draw {name : Nat} (isDraw : drawnKey e = some name) : served e = none := by
  obtain ⟨t, call, act, result, before, after⟩ := e
  cases act with
  | on n op =>
      cases op with
      | getKeys peerId => cases isDraw
      | _ => rfl
  | answer reply => rfl
  | crash u => rfl

theorem seen_record {their : Term} (seen : Seen (j.record e) their) : Seen j their ∨
    ∃ bundle, served e = some bundle ∧ fromBase64 bundle.signedPreKey.pubX25519 = .ok their := by
  rcases seen with ⟨e', member, bundle, isServed, isKey⟩ | running
  · rcases List.mem_cons.mp member with rfl | old
    · exact .inr ⟨bundle, isServed, isKey⟩
    · exact .inl (.inl ⟨e', old, bundle, isServed, isKey⟩)
  · exact .inl (.inr running)

theorem posts_of_sent (performs : j.Performs service permits e) (justified : Justified e.thread j e.op)
    {n : Nat} {envelope : WireEnvelopeV2} (isSent : sentBy e = some (n, envelope)) :
    Posts e.thread j envelope := by
  obtain ⟨t, call, act, result, before, after⟩ := e
  obtain rfl : before = j.state := performs.before
  have alive := exec_alive performs.exec
  unfold sentBy at isSent
  split at isSent
  next isOp isCall =>
    dsimp only at isOp isCall
    subst isOp isCall
    obtain ⟨rfl, rfl⟩ := Prod.mk.inj (Option.some.inj isSent)
    exact justified alive
  next => cases isSent

theorem Chains.record (chains : Chains j) (base : Base j) (performs : j.Performs service permits e)
    (justified : Justified e.thread j e.op) (change : Change j e) (fresh : FreshDraws j e)
    (inPlace : InPlace j e) : Chains (j.record e) where
  commits e' member n row message isCommit := by
    rcases List.mem_cons.mp member with rfl | old
    · exact ⟨(change.commit isCommit).1.browser, (change.commit isCommit).1.named⟩
    · exact chains.commits e' old n row message isCommit
  posted e' member n envelope isSent := by
    have posts : Posts e'.thread j envelope := by
      rcases List.mem_cons.mp member with rfl | old
      · exact posts_of_sent performs justified isSent
      · exact chains.posted e' old n envelope isSent
    obtain ⟨e₀, old₀, isPosted⟩ := posts
    exact ⟨e₀, List.mem_cons_of_mem _ old₀, isPosted⟩
  persists n row isCommitted := by
    rcases committed_record isCommitted with old | ⟨message, isCommit⟩
    · obtain ⟨stored, isRow, isId, behind⟩ := chains.persists n row old
      rcases change.stays isRow with stays | ⟨row', message, isCommit, sameId⟩
      · exact ⟨stored, stays, isId, behind⟩
      · obtain ⟨name, root, chained, origin⟩ := chains.new base performs change inPlace isCommit
        refine ⟨row', (change.commit isCommit).2, sameId.trans isId, ?_⟩
        exact origin.behind chains (change.commit isCommit).1.first chained old isRow sameId.symm behind
    · exact ⟨row, (change.commit isCommit).2, rfl, le_rfl, fun _ => le_rfl⟩
  chained n row isCommitted := by
    rcases committed_record isCommitted with old | ⟨message, isCommit⟩
    · obtain ⟨name, root, chained⟩ := chains.chained n row old
      exact ⟨name, root, chained.record⟩
    · obtain ⟨name, root, chained, _⟩ := chains.new base performs change inPlace isCommit
      exact ⟨name, root, chained.record⟩
  same n row name root n' row' name' root' committed committed' chained chained' := by
    rcases committed_record committed with old | ⟨message, isCommit⟩
    · obtain ⟨name₁, root₁, chained₁⟩ := chains.chained n row old
      obtain ⟨rfl, rfl⟩ := chained₁.unique chained
      rcases committed_record committed' with old' | ⟨message', isCommit'⟩
      · obtain ⟨name₂, root₂, chained₂⟩ := chains.chained n' row' old'
        obtain ⟨rfl, rfl⟩ := chained₂.unique chained'
        exact chains.same n row _ _ n' row' _ _ old old' chained₁ chained₂
      · obtain ⟨name₂, root₂, chained₂, origin⟩ := chains.new base performs change inPlace isCommit'
        obtain ⟨rfl, rfl⟩ := chained₂.unique chained'
        obtain ⟨first, second⟩ := origin.apart base chains (change.commit isCommit').1.first chained₂ old chained₁
        refine ⟨fun isName => ?_, fun isRoot => (second isRoot.symm).symm⟩
        obtain ⟨isBrowser, isId, isRoot⟩ := first isName.symm
        exact ⟨isBrowser.symm, isId.symm, isRoot.symm⟩
    · obtain ⟨name₁, root₁, chained₁, origin⟩ := chains.new base performs change inPlace isCommit
      obtain ⟨rfl, rfl⟩ := chained₁.unique chained
      rcases committed_record committed' with old' | ⟨message', isCommit'⟩
      · obtain ⟨name₂, root₂, chained₂⟩ := chains.chained n' row' old'
        obtain ⟨rfl, rfl⟩ := chained₂.unique chained'
        exact origin.apart base chains (change.commit isCommit).1.first chained₁ old' chained₂
      · rw [isCommit] at isCommit'
        simp only [Option.some.injEq, Prod.mk.injEq] at isCommit'
        obtain ⟨rfl, rfl, rfl⟩ := isCommit'
        obtain ⟨rfl, rfl⟩ := chained.unique chained'
        exact ⟨fun _ => ⟨rfl, rfl, rfl⟩, fun _ => rfl⟩
  published name published := by
    obtain ⟨n, row, ⟨e', member, message, isCommit⟩, isKey⟩ := published
    have before : Published j.past name → ∃ e₁ ∈ (j.record e).past, drawnKey e₁ = some name ∧
        ∃ e₂ ∈ (j.record e).past, e₂.thread = e₁.thread ∧ committed e₂ ≠ none := by
      intro published
      obtain ⟨e₁, old₁, isDraw, e₂, old₂, same, isCommit⟩ := chains.published name published
      exact ⟨e₁, List.mem_cons_of_mem _ old₁, isDraw, e₂, List.mem_cons_of_mem _ old₂, same, isCommit⟩
    rcases List.mem_cons.mp member with rfl | old
    · obtain ⟨name₁, root, chained, origin⟩ := chains.new base performs change inPlace isCommit
      rw [chained.pub, fromBase64_toBase64, Except.ok.injEq, Term.pub.injEq] at isKey
      subst isKey
      cases origin with
      | stored stored isRow _ isChain _ _ =>
          exact before ((base.ratchets n stored isRow).2.published isChain)
      | fresh drew _ =>
          obtain ⟨e₁, old₁, mine, isDraw⟩ := drew
          refine ⟨e₁, List.mem_cons_of_mem _ old₁, isDraw, e', List.mem_cons_self, mine.symm, ?_⟩
          rw [isCommit]
          exact Option.some_ne_none _
    · exact before ⟨n, row, ⟨e', old, message, isCommit⟩, isKey⟩
  keyOnce e₁ member₁ e₂ member₂ name isDraw₁ isDraw₂ := by
    rcases List.mem_cons.mp member₁ with rfl | old₁
    · rcases List.mem_cons.mp member₂ with rfl | old₂
      · rfl
      · exact absurd ⟨e₂, old₂, isDraw₂⟩ (fresh.key _ isDraw₁).1
    · rcases List.mem_cons.mp member₂ with rfl | old₂
      · exact absurd ⟨e₁, old₁, isDraw₁⟩ (fresh.key _ isDraw₂).1
      · exact chains.keyOnce e₁ old₁ e₂ old₂ name isDraw₁ isDraw₂
  unseen name seen drawn := by
    obtain ⟨e', member, isDraw⟩ := drawn
    rcases List.mem_cons.mp member with rfl | old
    · obtain ⟨_, unserved, unhanded⟩ := fresh.key name isDraw
      rcases seen_record seen with (⟨e₁, old₁, bundle, isServed, isKey⟩ |
        ⟨u, call, envelope, running, isHanded, isKey⟩) | ⟨bundle, isServed, _⟩
      · exact absurd isKey (unserved e₁ old₁ bundle isServed)
      · exact absurd isKey (unhanded u call envelope running isHanded)
      · rw [served_draw isDraw] at isServed
        cases isServed
    · refine Published.record ?_
      rcases seen_record seen with seen | ⟨bundle, isServed, isKey⟩
      · exact chains.unseen name seen ⟨e', old, isDraw⟩
      · exact fresh.served bundle isServed name isKey ⟨e', old, isDraw⟩
  apart e₁ member₁ e₂ member₂ other encrypts₁ encrypts₂ n₁ row₁ message₁ n₂ row₂ message₂ isCommit₁
      isCommit₂ := by
    rcases List.mem_cons.mp member₁ with rfl | old₁
    · rcases List.mem_cons.mp member₂ with rfl | old₂
      · exact absurd rfl other
      · obtain ⟨name, root, chained, origin⟩ := chains.new base performs change inPlace isCommit₁
        exact origin.new encrypts₁ base chains (change.commit isCommit₁).1.first chained
          ⟨e₂, old₂, message₂, isCommit₂⟩
    · rcases List.mem_cons.mp member₂ with rfl | old₂
      · obtain ⟨name, root, chained, origin⟩ := chains.new base performs change inPlace isCommit₂
        obtain ⟨totals, keys⟩ := origin.new encrypts₂ base chains (change.commit isCommit₂).1.first chained
          ⟨e₁, old₁, message₁, isCommit₁⟩
        exact ⟨fun isBrowser isId same => totals isBrowser.symm isId.symm same.symm,
          fun same => keys same.symm⟩
      · exact chains.apart e₁ old₁ e₂ old₂ other encrypts₁ encrypts₂ n₁ row₁ message₁ n₂ row₂ message₂
          isCommit₁ isCommit₂

theorem Chained.begin {state : RatchetState} {name : Nat} {root : Term} (idle : j.calls t = none)
    (chained : Chained j state name root) : Chained (j.begin t call) state name root := by
  have calls : ∀ u call', j.calls u = some call' → (j.begin t call).calls u = some call' :=
    fun _ _ => Journal.calls_begin idle
  exact @Chained.mono j (j.begin t call) (fun _ => id) calls state name root chained

theorem Chains.begin (chains : Chains j) (idle : j.calls t = none) (admitted : Unguessed j call) :
    Chains (j.begin t call) where
  commits := chains.commits
  posted := chains.posted
  persists := chains.persists
  chained n row isCommitted := by
    obtain ⟨name, root, chained⟩ := chains.chained n row isCommitted
    exact ⟨name, root, chained.begin idle⟩
  same n row name root n' row' name' root' committed committed' chained chained' := by
    obtain ⟨name₁, root₁, chained₁⟩ := chains.chained n row committed
    obtain ⟨name₂, root₂, chained₂⟩ := chains.chained n' row' committed'
    obtain ⟨rfl, rfl⟩ := chained₁.unique chained
    obtain ⟨rfl, rfl⟩ := chained₂.unique chained'
    exact chains.same n row _ _ n' row' _ _ committed committed' chained₁ chained₂
  published := chains.published
  keyOnce := chains.keyOnce
  unseen name seen drawn := by
    rcases seen with isServed | ⟨u, call', envelope, running, isHanded, isKey⟩
    · exact chains.unseen name (.inl isServed) drawn
    · obtain ⟨_, rfl⟩ | running := Journal.of_calls_begin running
      · exact admitted.key envelope isHanded name isKey drawn
      · exact chains.unseen name (.inr ⟨u, call', envelope, running, isHanded, isKey⟩) drawn
  apart := chains.apart

end Steps

/-- The chains of the runs in which every step is permitted. -/
def chainsInvariant : Invariant Permitted where
  holds := Chains
  allowed _ _ := id
  begins _ _ _ _ chains idle admitted := chains.begin idle admitted
  records _ _ base chains performs justified :=
    chains.record base performs justified (change_of performs justified) performs.permitted.1
      performs.permitted.2

theorem chains_empty (s : Browsers) : Chains (.empty s) where
  commits _ member := by cases member
  posted _ member := by cases member
  persists _ _ committed := by
    obtain ⟨_, member, _⟩ := committed
    cases member
  chained _ _ committed := by
    obtain ⟨_, member, _⟩ := committed
    cases member
  same _ _ _ _ _ _ _ _ committed := by
    obtain ⟨_, member, _⟩ := committed
    cases member
  published _ published := by
    obtain ⟨_, _, ⟨_, member, _⟩, _⟩ := published
    cases member
  keyOnce _ member := by cases member
  unseen _ _ drawn := by
    obtain ⟨_, member, _⟩ := drawn
    cases member
  apart _ member := by cases member

end Vault
