import CipherChat.Service.Identifiers
import CipherChat.Vault.Browsers

/-!
What `withLock` gives the vault: while a call holds the lock of a conversation, no other call changes
that conversation's key, ratchets and messages, and every commit goes on from what is stored.
-/

namespace Vault

open Async Number Symbolic Primitives KeyStore Envelope EnvelopeV2 Store E2EEService

section Randomness

def DrawnId (past : List Event) (sessionId : String) : Prop :=
  ∃ e ∈ past, drawnId e = some sessionId

def DrawnKey (past : List Event) (name : Nat) : Prop :=
  ∃ e ∈ past, drawnKey e = some name

/-- The ratchet has been committed on browser `n`. -/
def Committed (past : List Event) (n : Nat) (row : RatchetRow) : Prop :=
  ∃ e ∈ past, ∃ message, committed e = some (n, row, message)

/-- A ratchet with this id has been committed, on some browser. -/
def CommittedId (past : List Event) (sessionId : String) : Prop :=
  ∃ n row, Committed past n row ∧ row.sessionId = sessionId

/-- A ratchet that sends under this key has been committed. -/
def Published (past : List Event) (name : Nat) : Prop :=
  ∃ n row, Committed past n row ∧ fromBase64 row.session.state.dhsPub = .ok (.pub name)

/-- A call names no session id and no ratchet key that has been drawn but not been used. -/
structure Unguessed (j : History) (call : Call) : Prop where
  id : ∀ envelope, call.handed = some envelope → DrawnId j.past envelope.sessionId →
    CommittedId j.past envelope.sessionId
  key : ∀ envelope, call.handed = some envelope → ∀ name, fromBase64 envelope.dh = .ok (.pub name) →
    DrawnKey j.past name → Published j.past name

/-- What is drawn has not been seen before, and the directory guesses nothing either. -/
structure FreshDraws (j : History) (e : Event) : Prop where
  id : ∀ sessionId, drawnId e = some sessionId →
    ¬DrawnId j.past sessionId ∧ ¬CommittedId j.past sessionId ∧ ∀ u call envelope,
      j.calls u = some call → call.handed = some envelope → envelope.sessionId ≠ sessionId
  key : ∀ name, drawnKey e = some name → ¬DrawnKey j.past name ∧
    (∀ e' ∈ j.past, ∀ bundle, served e' = some bundle →
      fromBase64 bundle.signedPreKey.pubX25519 ≠ .ok (.pub name)) ∧
    ∀ u call envelope, j.calls u = some call → call.handed = some envelope →
      fromBase64 envelope.dh ≠ .ok (.pub name)
  served : ∀ bundle, served e = some bundle → ∀ name,
    fromBase64 bundle.signedPreKey.pubX25519 = .ok (.pub name) → DrawnKey j.past name →
      Published j.past name
  dek : ∀ name, drawnDek e = some name → ∀ e' ∈ j.past, ∀ n row message,
    committed e' = some (n, row, message) → row.key ≠ name ∧ ∀ stored ∈ message, stored.key ≠ name

/-- A decryption commits no ratchet over one of the same id that is another conversation's or sealed
under another key. -/
def InPlace (j : History) (e : Event) : Prop :=
  e.call.decrypts → ∀ n row message, committed e = some (n, row, message) →
    ∀ old ∈ (j.state.device n).ratchets.rows, old.sessionId = row.sessionId →
      old.convId = row.convId ∧ old.key = row.key

def Permitted (j : History) (e : Event) : Prop :=
  FreshDraws j e ∧ InPlace j e

end Randomness

/-- What one browser's vault holds of a conversation. -/
structure SameVault (c : String) (d d' : Device) : Prop where
  dek : d'.deks.get c = d.deks.get c
  ratchets : ∀ row : RatchetRow, row.convId = c → (row ∈ d'.ratchets.rows ↔ row ∈ d.ratchets.rows)

structure SameMessages (c : String) (d d' : Device) : Prop where
  messages : ∀ row : MessageRow, row.convId = c → (row ∈ d'.messages.rows ↔ row ∈ d.messages.rows)

theorem SameVault.refl (c : String) (d : Device) : SameVault c d d :=
  ⟨rfl, fun _ _ => .rfl⟩

theorem SameVault.trans {c : String} {d d₁ d₂ : Device} (first : SameVault c d d₁)
    (second : SameVault c d₁ d₂) : SameVault c d d₂ :=
  ⟨second.dek.trans first.dek, fun row isOurs =>
    (second.ratchets row isOurs).trans (first.ratchets row isOurs)⟩

theorem SameMessages.trans {c : String} {d d₁ d₂ : Device} (first : SameMessages c d d₁)
    (second : SameMessages c d₁ d₂) : SameMessages c d d₂ :=
  ⟨fun row isOurs => (second.messages row isOurs).trans (first.messages row isOurs)⟩

def Owns (j : History) (t n : Nat) (c : String) : Prop :=
  (j.state.device n).locks c = some t

/-- The conversation ids hold no separator of composed strings. -/
def Apart (j : History) : Prop :=
  ∀ u call c, j.calls u = some call → call.conversation = some c → Identifiers.Plain c

/-- What a call may rely on: nothing under the lock it holds changes, and nobody commits a session
id it has drawn. -/
structure Rely (t : Nat) (j j' : History) : Prop where
  calls : ∀ u call, j.calls u = some call → j'.calls u = some call
  past : ∀ e ∈ j.past, e ∈ j'.past
  own : ∀ e ∈ j'.past, e.thread = t → e ∈ j.past ∨ committed e = none
  dead : j'.state.dead t = false → j.state.dead t = false
  identity : ∀ n, (j'.state.device n).identity = (j.state.device n).identity
  locked : ∀ n c, j'.state.dead t = false → Owns j t n c → Owns j' t n c ∧
    SameVault c (j.state.device n) (j'.state.device n) ∧
    (Apart j' → SameMessages c (j.state.device n) (j'.state.device n))
  uncommitted : ∀ sessionId, (∃ e ∈ j.past, e.thread = t ∧ drawnId e = some sessionId) →
    ¬CommittedId j.past sessionId → ¬CommittedId j'.past sessionId

theorem Rely.refl (t : Nat) (j : History) : Rely t j j where
  calls _ _ := id
  past _ := id
  own _ old _ := .inl old
  dead := id
  identity _ := rfl
  locked _ _ _ owns := ⟨owns, .refl _ _, fun _ => ⟨fun _ _ => .rfl⟩⟩
  uncommitted _ _ := id

theorem Rely.trans {t : Nat} {j j₁ j₂ : History} (first : Rely t j j₁) (second : Rely t j₁ j₂) :
    Rely t j j₂ where
  calls u call running := second.calls u call (first.calls u call running)
  past e old := second.past e (first.past e old)
  own e member mine := (second.own e member mine).elim (fun old => first.own e old mine) .inr
  dead alive := first.dead (second.dead alive)
  identity n := (second.identity n).trans (first.identity n)
  locked n c alive owns := by
    obtain ⟨owns₁, same₁, messages₁⟩ := first.locked n c (second.dead alive) owns
    obtain ⟨owns₂, same₂, messages₂⟩ := second.locked n c alive owns₁
    refine ⟨owns₂, same₁.trans same₂, fun apart => ?_⟩
    refine (messages₁ fun u call c' running => ?_).trans (messages₂ apart)
    exact apart u call c' (second.calls u call running)
  uncommitted sessionId drew free := by
    obtain ⟨e, old, mine, isDraw⟩ := drew
    exact second.uncommitted sessionId ⟨e, first.past e old, mine, isDraw⟩
      (first.uncommitted sessionId ⟨e, old, mine, isDraw⟩ free)

/-- What this call has been answered so far. -/
def Drew (t : Nat) (j : History) (draws : Event → Prop) : Prop :=
  ∃ e ∈ j.past, e.thread = t ∧ draws e

/-- The session `encrypt` starts, from what it was served and has drawn. -/
inductive Initiates (t : Nat) (j : History) : Call → RatchetSession → Prop
  | intro {n this c peerId text identity bundle ek dhs sessionId now session} :
      this.identity = some identity → Drew t j (served · = some bundle) →
      Drew t j (drawnKey · = some ek) → Drew t j (drawnKey · = some dhs) → ek ≠ dhs →
      fromBase64 bundle.signedPreKey.pubX25519 ≠ .ok (.pub dhs) →
      Drew t j (drawnId · = some sessionId) →
      startInitiator c peerId identity bundle ek dhs sessionId now = .ok session →
      Initiates t j (.encrypt n this c peerId text) session

/-- The session `decrypt` starts from the init block of its envelope. -/
inductive Responds (j : History) : Call → RatchetSession → Prop
  | intro {n this c senderId envelope init identity now session} :
      (this.identity <|> (j.state.device n).identity) = some identity →
      envelope.init = some init →
      startResponder c senderId envelope.sessionId identity init now = .ok session →
      Responds j (.decrypt n this c senderId (.v2 envelope) false) session

/-- The session a commit goes on from: the one stored, or one that the call has started. -/
inductive Prior (t : Nat) (j : History) (call : Call) (n : Nat) (row : RatchetRow)
    (session : RatchetSession) : Prop
  | stored (old : RatchetRow) : old ∈ (j.state.device n).ratchets.rows →
      old.sessionId = row.sessionId → old.convId = row.convId → old.key = row.key →
      old.session = session → Prior t j call n row session
  | initiated : Initiates t j call session → ¬CommittedId j.past row.sessionId →
      Prior t j call n row session
  | responded : Responds j call session → (∀ old ∈ (j.state.device n).ratchets.rows,
      old.sessionId = row.sessionId → ¬(old.convId = row.convId ∧ old.key = row.key)) →
      Prior t j call n row session

/-- What a call makes of a session, and the key and text of the message it stores with it. -/
inductive Advances (t : Nat) (j : History) : Call → RatchetSession → RatchetSession → String →
    List UInt16 → Prop
  | sealed {n this c peerId text me session envelope next} : this.userId = some me →
      sealV2 session me text = .ok (envelope, next) →
      Advances t j (.encrypt n this c peerId text) session next
        (messageKey next.sessionId me envelope.ctr) text
  | opened {n this c senderId envelope now fresh session text next} :
      Drew t j (drawnKey · = some fresh) → fromBase64 envelope.dh ≠ .ok (.pub fresh) →
      openV2 session senderId envelope now fresh = .ok (text, next) →
      Advances t j (.decrypt n this c senderId (.v2 envelope) false) session next
        (messageKey envelope.sessionId senderId envelope.ctr) text

/-- No text is stored under this message key that the conversation key opens. -/
def Unread (j : History) (n : Nat) (c key : String) (dek : Nat) : Prop :=
  Apart j → ∀ old ∈ (j.state.device n).messages.rows, old.convId = c → old.id = messageId c key →
    old.key ≠ dek

/-- What every commit of a call is like. -/
structure Commit (t : Nat) (j : History) (call : Call) (n : Nat) (row : RatchetRow)
    (message : Option MessageRow) : Prop where
  browser : call.browser = some n
  conversation : call.conversation = some row.convId
  named : row.sessionId = row.session.sessionId
  first : ∀ e ∈ j.past, e.thread = t → committed e = none
  owner : Owns j t n row.convId
  dek : (j.state.device n).deks.get row.convId = some { convId := row.convId, key := row.key } ∨
    Drew t j (lostKey · = true)
  advance : ∃ session key text, Prior t j call n row session ∧
    Advances t j call session row.session key text ∧
    message = some { id := messageId row.convId key, convId := row.convId, key := row.key, text } ∧
    (call.decrypts → Unread j n row.convId key row.key)

/-- The call has committed the ratchet that this envelope was sealed with. -/
def Posts (t : Nat) (j : History) (envelope : WireEnvelopeV2) : Prop :=
  ∃ e ∈ j.past, e.thread = t ∧ ∃ n row message session me text,
    committed e = some (n, row, message) ∧ sealV2 session me text = .ok (envelope, row.session)

/-- What a call may do in its turn. -/
def Justified (t : Nat) (j : History) : Act → Prop
  | .on n (.release c) => j.state.dead t = false → Owns j t n c
  | .on n (.addDek row) => j.state.dead t = false → Owns j t n row.convId
  | .on n (.putCommit row message) => j.state.dead t = false →
      ∃ call, j.calls t = some call ∧ Commit t j call n row message
  | .on _ (.deleteVault _) | .on _ (.saveIdentity _) => False
  | .answer (.sent (.v2 envelope)) => j.state.dead t = false → Posts t j envelope
  | _ => True

/-- What holds between any two steps. -/
structure Base (j : History) : Prop where
  named : ∀ u call envelope, j.calls u = some call → call.handed = some envelope →
    DrawnId j.past envelope.sessionId → CommittedId j.past envelope.sessionId
  once : ∀ e ∈ j.past, ∀ e' ∈ j.past, ∀ sessionId, drawnId e = some sessionId →
    drawnId e' = some sessionId → e.thread = e'.thread
  ratchets : ∀ n, ∀ row ∈ (j.state.device n).ratchets.rows,
    row.session.sessionId = row.sessionId ∧ Committed j.past n row
  messages : ∀ n, ∀ row ∈ (j.state.device n).messages.rows,
    (∃ key, row.id = messageId row.convId key) ∧
      (∃ u call, j.calls u = some call ∧ call.conversation = some row.convId) ∧
      ∃ e ∈ j.past, ∃ ratchet, committed e = some (n, ratchet, some row)

/-- Operations that leave the vault, the locks and the identity alone. -/
def Neutral : Op → Prop
  | .acquire _ | .release _ | .addDek _ | .putCommit _ _ | .deleteVault _ | .saveIdentity _ => False
  | _ => True

structure SameDevice (d d' : Device) : Prop where
  deks : d'.deks = d.deks
  ratchets : d'.ratchets = d.ratchets
  messages : d'.messages = d.messages
  identity : d'.identity = d.identity
  locks : d'.locks = d.locks

theorem SameDevice.refl (d : Device) : SameDevice d d :=
  ⟨rfl, rfl, rfl, rfl, rfl⟩

theorem neutral_effect {t : Nat} {op : Op} (neutral : Neutral op) (d : Device) :
    SameDevice d (effect t op d) := by
  cases op <;> first | exact neutral.elim | exact .refl d | exact ⟨rfl, rfl, rfl, rfl, rfl⟩

/-- What one step changes. -/
inductive Change (j : History) (e : Event) : Prop
  | neutral : (∀ n, SameDevice (j.state.device n) (e.after.device n)) →
      e.after.dead = j.state.dead → committed e = none → Change j e
  | locks (n : Nat) (c : String) (holder : Option Nat) :
      (holder = none ∧ Owns j e.thread n c ∨
        holder = some e.thread ∧ (j.state.device n).locks c = none) →
      e.after = j.state.set n { j.state.device n with
        locks := Function.update (j.state.device n).locks c holder } →
      committed e = none → Change j e
  | keys (n : Nat) (row : DekRow) : Owns j e.thread n row.convId →
      (j.state.device n).deks.get row.convId = none →
      e.after = j.state.set n { j.state.device n with deks := (j.state.device n).deks.put row } →
      committed e = none → Change j e
  | commits (n : Nat) (row : RatchetRow) (message : MessageRow) :
      Commit e.thread j e.call n row (some message) →
      e.after = j.state.set n { j.state.device n with
        ratchets := (j.state.device n).ratchets.put row
        messages := (j.state.device n).messages.put message } →
      committed e = some (n, row, some message) → Change j e
  | crashes (u : Nat) : e.after = j.state.crash u → committed e = none → Change j e

variable {permits : History → Event → Prop}

theorem committed_neutral {t : Nat} {call : Call} {n : Nat} {op : Op} (neutral : Neutral op)
    {result : op.Res} {before after : Browsers} :
    committed ⟨t, call, .on n op, result, before, after⟩ = none := by
  cases op <;> first | rfl | exact neutral.elim

/-- A neutral operation changes no vault, no lock and no identity. -/
theorem neutral_step {t : Nat} {s s' : Browsers} {n : Nat} {op : Op} (neutral : Neutral op)
    {result : op.Res} (performed : service.exec t s (.on n op) result s') :
    (∀ m, SameDevice (s.device m) (s'.device m)) ∧ s'.dead = s.dead := by
  obtain ⟨_, d, executed, rfl⟩ := exec_on.mp performed
  refine ⟨fun m => ?_, rfl⟩
  rw [Browsers.set_device]
  split
  next here =>
    subst here
    obtain ⟨_, _, rfl⟩ | ⟨_, _, rfl, _⟩ := exec_cases executed
    · exact .refl _
    · exact neutral_effect neutral _
  next => exact .refl _

theorem change_of {j : History} {e : Event} (performs : j.Performs service permits e)
    (justified : Justified e.thread j e.op) : Change j e := by
  obtain ⟨t, call, act, result, before, after⟩ := e
  obtain ⟨running, isBefore, performed, _⟩ := performs
  dsimp only at running isBefore performed justified
  subst isBefore
  have alive := exec_alive performed
  cases act with
  | answer reply =>
      obtain rfl := exec_answer performed
      exact .neutral (fun n => .refl _) rfl rfl
  | crash u => exact .crashes u (exec_crash performed) rfl
  | on n op =>
      by_cases neutral : Neutral op
      · obtain ⟨same, dead⟩ := neutral_step neutral performed
        exact .neutral same dead (committed_neutral neutral)
      obtain ⟨_, d, executed, rfl⟩ := exec_on.mp performed
      obtain ⟨e, rfl, rfl⟩ | ⟨value, rfl, rfl, choice, replied⟩ := exec_cases executed
      · have same : j.state.set n (j.state.device n) = j.state := by
          rw [Browsers.set, Function.update_eq_self]
        rw [same]
        refine .neutral (fun m => .refl _) rfl ?_
        cases op <;> rfl
      · have free := (exec_ok.mp executed).1
        cases op with
        | acquire c =>
            refine .locks n c (some t) (.inr ⟨rfl, ?_⟩) rfl rfl
            simpa [blocked] using free
        | release c => exact .locks n c none (.inl ⟨rfl, justified alive⟩) rfl rfl
        | addDek row =>
            refine .keys n row (justified alive) ?_ rfl rfl
            cases found : (j.state.device n).deks.get row.convId with
            | none => rfl
            | some old => simp [reply, found] at replied
        | putCommit row message =>
            obtain ⟨call', running', commit⟩ := justified alive
            obtain rfl := Option.some.inj (running.symm.trans running')
            obtain ⟨session, key, text, _, _, isMessage, _⟩ := commit.advance
            subst isMessage
            exact .commits n row _ commit rfl rfl
        | deleteVault c => exact justified.elim
        | saveIdentity identity => exact justified.elim
        | _ => exact absurd trivial neutral

theorem Committed.mono {past past' : List Event} {n : Nat} {row : RatchetRow}
    (more : ∀ e ∈ past, e ∈ past') (used : Committed past n row) : Committed past' n row := by
  obtain ⟨e, old, message, isCommit⟩ := used
  exact ⟨e, more e old, message, isCommit⟩

theorem CommittedId.mono {past past' : List Event} {sessionId : String}
    (more : ∀ e ∈ past, e ∈ past') (used : CommittedId past sessionId) :
    CommittedId past' sessionId := by
  obtain ⟨n, row, isCommitted, isId⟩ := used
  exact ⟨n, row, isCommitted.mono more, isId⟩

theorem Base.used {j : History} (base : Base j) {n : Nat} {row : RatchetRow}
    (isRow : row ∈ (j.state.device n).ratchets.rows) : CommittedId j.past row.sessionId :=
  ⟨n, row, (base.ratchets n row isRow).2, rfl⟩

/-- The id of what is begun as a responder is the envelope's, and that of what is begun as an
initiator has been drawn. -/
theorem Responds.handed {j : History} {call : Call} {session : RatchetSession}
    (responds : Responds j call session) :
    ∃ envelope, call.handed = some envelope ∧ session.sessionId = envelope.sessionId := by
  cases responds with
  | intro _ _ started =>
      obtain ⟨_, _, _, _, _, _, _, _, _, _, _, _, _, _, _, _, _, rfl⟩ :=
        startResponder_eq_ok.mp started
      exact ⟨_, rfl, rfl⟩

theorem Responds.decrypts {j : History} {call : Call} {session : RatchetSession}
    (responds : Responds j call session) : call.decrypts = true := by
  cases responds with
  | intro => rfl

theorem Initiates.drew {t : Nat} {j : History} {call : Call} {session : RatchetSession}
    (initiates : Initiates t j call session) :
    Drew t j (drawnId · = some session.sessionId) := by
  cases initiates with
  | intro _ _ _ _ _ _ drew started =>
      obtain ⟨_, _, _, _, _, _, _, _, _, _, _, _, _, _, _, _, rfl⟩ := startInitiator_ok started
      exact drew

theorem Advances.sameId {t : Nat} {j : History} {call : Call} {session next : RatchetSession}
    {key : String} {text : List UInt16} (advances : Advances t j call session next key text) :
    next.sessionId = session.sessionId ∧ next.conversationId = session.conversationId ∧
      next.peerId = session.peerId ∧ next.role = session.role := by
  cases advances with
  | sealed _ sent =>
      obtain ⟨_, _, _, _, rfl⟩ := sealV2_ok sent
      exact ⟨rfl, rfl, rfl, rfl⟩
  | opened _ _ isOpen =>
      obtain ⟨_, _, _, _, _, rfl⟩ := openV2_ok isOpen
      exact ⟨rfl, rfl, rfl, rfl⟩

/-- Two rows under one key are one row. -/
theorem eq_of_key {κ : Type} {α : Type} [LinearOrder κ] {key : α → κ} {table : Table key} {a b : α}
    (isRow : a ∈ table.rows) (isRow' : b ∈ table.rows) (same : key a = key b) : a = b := by
  have found := Table.get_of_mem isRow
  rw [same, Table.get_of_mem isRow'] at found
  exact (Option.some.inj found).symm

section Steps

variable {j : History} {e : Event}

theorem Change.committedId (change : Change j e) {sessionId : String}
    (used : CommittedId (e :: j.past) sessionId) : CommittedId j.past sessionId ∨
      ∃ n row message, Commit e.thread j e.call n row (some message) ∧
        committed e = some (n, row, some message) ∧ row.sessionId = sessionId := by
  obtain ⟨n, row, ⟨e', member, message, isCommit⟩, same⟩ := used
  rcases List.mem_cons.mp member with rfl | old
  · cases change with
    | commits m row' message' commit _ isCommit' =>
        rw [isCommit'] at isCommit
        simp only [Option.some.injEq, Prod.mk.injEq] at isCommit
        obtain ⟨rfl, rfl, rfl⟩ := isCommit
        exact .inr ⟨m, row', message', commit, isCommit', same⟩
    | neutral _ _ none | locks _ _ _ _ _ none | keys _ _ _ _ _ none | crashes _ _ none =>
        rw [none] at isCommit
        cases isCommit
  · exact .inl ⟨n, row, ⟨e', old, message, isCommit⟩, same⟩

/-- A ratchet is stored by a commit and by nothing else. -/
theorem Change.ratchet (change : Change j e) {n : Nat} {row : RatchetRow}
    (isRow : row ∈ (e.after.device n).ratchets.rows) : row ∈ (j.state.device n).ratchets.rows ∨
      ∃ message, Commit e.thread j e.call n row (some message) ∧
        committed e = some (n, row, some message) := by
  cases change with
  | neutral same _ _ => exact .inl ((same n).ratchets ▸ isRow)
  | locks m c holder _ after _ | keys m row' _ _ after _ =>
      rw [after, Browsers.set_device] at isRow
      split at isRow
      next here => exact .inl (here ▸ isRow)
      next => exact .inl isRow
  | commits m row' message commit after isCommit =>
      rw [after, Browsers.set_device] at isRow
      split at isRow
      next here =>
        subst here
        rcases Table.mem_put isRow with rfl | old
        · exact .inr ⟨message, commit, isCommit⟩
        · exact .inl old
      next => exact .inl isRow
  | crashes u after _ => exact .inl (by rwa [after] at isRow)

/-- What is stored stays, or makes place for what is committed. -/
theorem Change.stays (change : Change j e) {n : Nat} {row : RatchetRow}
    (isRow : row ∈ (j.state.device n).ratchets.rows) : row ∈ (e.after.device n).ratchets.rows ∨
      ∃ row' message, committed e = some (n, row', message) ∧ row'.sessionId = row.sessionId := by
  cases change with
  | neutral same _ _ => exact .inl ((same n).ratchets ▸ isRow)
  | locks m c holder _ after _ | keys m row' _ _ after _ =>
      rw [after, Browsers.set_device]
      split
      next here => exact .inl (here ▸ isRow)
      next => exact .inl isRow
  | commits m row' message commit after isCommit =>
      rw [after, Browsers.set_device]
      split
      next here =>
        subst here
        by_cases same : row'.sessionId = row.sessionId
        · exact .inr ⟨row', message, isCommit, same⟩
        · exact .inl (Table.mem_put_iff.mpr (.inr ⟨isRow, fun isSame => same isSame.symm⟩))
      next => exact .inl isRow
  | crashes u after _ => exact .inl (by rwa [after])

theorem Change.commit (change : Change j e) {n : Nat} {row : RatchetRow} {message : Option MessageRow}
    (isCommit : committed e = some (n, row, message)) :
    Commit e.thread j e.call n row message ∧ row ∈ (e.after.device n).ratchets.rows := by
  cases change with
  | commits m row' message' commit after isCommit' =>
      rw [isCommit'] at isCommit
      simp only [Option.some.injEq, Prod.mk.injEq] at isCommit
      obtain ⟨rfl, rfl, rfl⟩ := isCommit
      refine ⟨commit, ?_⟩
      rw [after, Browsers.set_device, if_pos rfl]
      exact Table.mem_put_iff.mpr (.inl rfl)
  | neutral _ _ none | locks _ _ _ _ _ none | keys _ _ _ _ _ none | crashes _ _ none =>
      rw [none] at isCommit
      cases isCommit

theorem Change.message (change : Change j e) {n : Nat} {message : MessageRow}
    (isRow : message ∈ (e.after.device n).messages.rows) :
    message ∈ (j.state.device n).messages.rows ∨
      ∃ row, Commit e.thread j e.call n row (some message) ∧
        committed e = some (n, row, some message) := by
  cases change with
  | neutral same _ _ => exact .inl ((same n).messages ▸ isRow)
  | locks m c holder _ after _ | keys m row' _ _ after _ =>
      rw [after, Browsers.set_device] at isRow
      split at isRow
      next here => exact .inl (here ▸ isRow)
      next => exact .inl isRow
  | commits m row' message' commit after isCommit =>
      rw [after, Browsers.set_device] at isRow
      split at isRow
      next here =>
        subst here
        rcases Table.mem_put isRow with rfl | old
        · exact .inr ⟨row', commit, isCommit⟩
        · exact .inl old
      next => exact .inl isRow
  | crashes u after _ => exact .inl (by rwa [after] at isRow)

/-- Whoever has drawn a session id is the first to commit it. -/
theorem Change.reserved (change : Change j e) (base : Base j)
    (running : j.calls e.thread = some e.call) {t : Nat} (other : t ≠ e.thread)
    {sessionId : String} (drew : Drew t j (drawnId · = some sessionId))
    (free : ¬CommittedId j.past sessionId) : ¬CommittedId (e :: j.past) sessionId := by
  intro used
  obtain old | ⟨n, row, message, commit, _, rfl⟩ := change.committedId used
  · exact free old
  obtain ⟨session, key, text, prior, advances, _, _⟩ := commit.advance
  obtain ⟨e₀, isPast, mine, isDraw⟩ := drew
  have same : row.sessionId = session.sessionId := commit.named.trans advances.sameId.1
  cases prior with
  | stored old isRow isId _ _ _ => exact free (isId ▸ base.used isRow)
  | initiated initiates _ =>
      obtain ⟨e₁, isPast', theirs, isDraw'⟩ := initiates.drew
      rw [← same] at isDraw'
      exact other ((mine.symm.trans (base.once e₀ isPast e₁ isPast' _ isDraw isDraw')).trans theirs)
  | responded responds _ =>
      obtain ⟨envelope, isHanded, isId⟩ := responds.handed
      have drawn : DrawnId j.past envelope.sessionId := by
        rw [← isId, ← same]
        exact ⟨e₀, isPast, isDraw⟩
      rw [same, isId] at free
      exact free (base.named _ _ envelope running isHanded drawn)

theorem Base.record (base : Base j) (performs : j.Performs service permits e)
    (change : Change j e) (fresh : FreshDraws j e) : Base (j.record e) where
  named u call envelope running isHanded drawn := by
    obtain ⟨e', member, isDraw⟩ := drawn
    rcases List.mem_cons.mp member with rfl | old
    · exact absurd rfl ((fresh.id _ isDraw).2.2 u call envelope running isHanded)
    · exact (base.named u call envelope running isHanded ⟨e', old, isDraw⟩).mono
        fun _ => List.mem_cons_of_mem _
  once e₁ member₁ e₂ member₂ sessionId isDraw₁ isDraw₂ := by
    rcases List.mem_cons.mp member₁ with rfl | old₁
    · rcases List.mem_cons.mp member₂ with rfl | old₂
      · rfl
      · exact absurd ⟨e₂, old₂, isDraw₂⟩ (fresh.id _ isDraw₁).1
    · rcases List.mem_cons.mp member₂ with rfl | old₂
      · exact absurd ⟨e₁, old₁, isDraw₁⟩ (fresh.id _ isDraw₂).1
      · exact base.once e₁ old₁ e₂ old₂ sessionId isDraw₁ isDraw₂
  ratchets n row isRow := by
    obtain old | ⟨message, commit, isCommit⟩ := change.ratchet isRow
    · obtain ⟨named, used⟩ := base.ratchets n row old
      exact ⟨named, used.mono fun _ => List.mem_cons_of_mem _⟩
    · exact ⟨commit.named.symm, e, List.mem_cons_self, _, isCommit⟩
  messages n row isRow := by
    obtain old | ⟨ratchet, commit, isCommit⟩ := change.message isRow
    · obtain ⟨isId, isCall, e', member, isCommit⟩ := base.messages n row old
      exact ⟨isId, isCall, e', List.mem_cons_of_mem _ member, isCommit⟩
    · obtain ⟨session, key, text, _, _, isMessage, _⟩ := commit.advance
      obtain rfl := Option.some.inj isMessage
      exact ⟨⟨key, rfl⟩, ⟨e.thread, e.call, performs.running, commit.conversation⟩, e,
        List.mem_cons_self, ratchet, isCommit⟩

/-- A commit leaves the other conversations of the browser alone. -/
theorem Commit.sameVault {n : Nat} {row : RatchetRow} {message : MessageRow} {c : String}
    (commit : Commit e.thread j e.call n row (some message)) (base : Base j)
    (inPlace : InPlace j e) (isCommit : committed e = some (n, row, some message))
    (other : row.convId ≠ c) : SameVault c (j.state.device n) { j.state.device n with
      ratchets := (j.state.device n).ratchets.put row
      messages := (j.state.device n).messages.put message } := by
  refine ⟨rfl, fun old isOurs => ?_⟩
  rw [Table.mem_put_iff]
  constructor
  · rintro (rfl | ⟨isRow, _⟩)
    · exact absurd isOurs other
    · exact isRow
  · intro isRow
    refine .inr ⟨isRow, fun same => other ?_⟩
    obtain ⟨session, key, text, prior, advances, _, _⟩ := commit.advance
    rw [← isOurs]
    cases prior with
    | stored old' isRow' isId isConv _ _ =>
        obtain rfl := eq_of_key isRow isRow' (same.trans isId.symm)
        exact isConv.symm
    | initiated _ free => exact absurd (same ▸ base.used isRow) free
    | responded responds _ =>
        exact (inPlace responds.decrypts n row _ isCommit old isRow same).1.symm

theorem Commit.sameMessages {n : Nat} {row : RatchetRow} {message : MessageRow} {c : String}
    (commit : Commit e.thread j e.call n row (some message)) (base : Base j)
    (running : j.calls e.thread = some e.call) (apart : Apart j) (other : row.convId ≠ c) :
    SameMessages c (j.state.device n) { j.state.device n with
      ratchets := (j.state.device n).ratchets.put row
      messages := (j.state.device n).messages.put message } := by
  obtain ⟨session, key, text, _, _, isMessage, _⟩ := commit.advance
  obtain rfl := Option.some.inj isMessage
  refine ⟨fun old isOurs => ?_⟩
  rw [Table.mem_put_iff]
  constructor
  · rintro (rfl | ⟨isRow, _⟩)
    · exact absurd isOurs other
    · exact isRow
  · intro isRow
    refine .inr ⟨isRow, fun same => other ?_⟩
    obtain ⟨⟨key', isId⟩, ⟨u, call, running', isConv⟩, _⟩ := base.messages n old isRow
    have plain := apart e.thread e.call row.convId running commit.conversation
    have plain' := apart u call old.convId running' isConv
    have ids : messageId old.convId key' = messageId row.convId key := isId.symm.trans same
    rw [← isOurs, (Identifiers.messageId_inj plain' plain ids).1]

/-- A step that changes no vault, no lock and no identity disturbs nobody. -/
theorem rely_neutral (t : Nat)
    (same : ∀ n, SameDevice (j.state.device n) (e.after.device n))
    (dead : e.after.dead = j.state.dead) (none : committed e = none) : Rely t j (j.record e) where
  calls _ _ := id
  past _ := List.mem_cons_of_mem _
  own e' member _ := by
    rcases List.mem_cons.mp member with rfl | old
    · exact .inr none
    · exact .inl old
  dead alive := by
    rw [← dead]
    exact alive
  identity n := (same n).identity
  locked n c _ owns := by
    refine ⟨?_, ⟨?_, ?_⟩, fun _ => ⟨?_⟩⟩
    · rw [Owns, Journal.record_state, (same n).locks]
      exact owns
    · rw [Journal.record_state, (same n).deks]
    · intro row _
      rw [Journal.record_state, (same n).ratchets]
    · intro row _
      rw [Journal.record_state, (same n).messages]
  uncommitted sessionId _ free used := by
    obtain ⟨n, row, ⟨e', member, message, isCommit⟩, isId⟩ := used
    rcases List.mem_cons.mp member with rfl | old
    · rw [none] at isCommit
      cases isCommit
    · exact free ⟨n, row, ⟨e', old, message, isCommit⟩, isId⟩

/-- What a call relies on of the steps of the others. -/
theorem Change.rely (change : Change j e) (base : Base j) (performs : j.Performs service permits e)
    (inPlace : InPlace j e) {t : Nat} (other : t ≠ e.thread) : Rely t j (j.record e) := by
  have same (n : Nat) (c : String) (d : Device) (isDek : d.deks = (j.state.device n).deks)
      (isRatchets : d.ratchets = (j.state.device n).ratchets)
      (isMessages : d.messages = (j.state.device n).messages) :
      SameVault c (j.state.device n) d ∧
        (Apart (j.record e) → SameMessages c (j.state.device n) d) := by
    refine ⟨⟨by rw [isDek], ?_⟩, fun _ => ⟨?_⟩⟩
    · intro row _
      rw [isRatchets]
    · intro row _
      rw [isMessages]
  have own : ∀ e' ∈ (j.record e).past, e'.thread = t → e' ∈ j.past ∨ committed e' = none := by
    intro e' member mine
    rcases List.mem_cons.mp member with rfl | old
    · exact absurd mine.symm other
    · exact .inl old
  have reserved (sessionId : String) := @Change.reserved j e change base performs.running t other sessionId
  cases change with
  | neutral isSame dead none => exact rely_neutral t isSame dead none
  | locks m c' holder isLock after _ =>
      refine ⟨fun _ _ => id, fun _ => List.mem_cons_of_mem _, own, ?_, ?_, ?_, reserved⟩
      · intro alive
        rwa [Journal.record_state, after] at alive
      · intro n
        rw [Journal.record_state, after, Browsers.set_device]
        split
        next here => rw [here]
        next => rfl
      · intro n c _ owns
        rw [Owns, Journal.record_state, after, Browsers.set_device]
        split
        next here =>
          subst here
          refine ⟨?_, same n c _ rfl rfl rfl⟩
          have apart : c ≠ c' := by
            rintro rfl
            rw [Owns] at owns
            rcases isLock with ⟨_, mine⟩ | ⟨_, free⟩
            · rw [Owns, owns] at mine
              exact other (Option.some.inj mine)
            · rw [owns] at free
              cases free
          simp only [Function.update_of_ne apart]
          exact owns
        next => exact ⟨owns, same n c _ rfl rfl rfl⟩
  | keys m row mine free after _ =>
      refine ⟨fun _ _ => id, fun _ => List.mem_cons_of_mem _, own, ?_, ?_, ?_, reserved⟩
      · intro alive
        rwa [Journal.record_state, after] at alive
      · intro n
        rw [Journal.record_state, after, Browsers.set_device]
        split
        next here => rw [here]
        next => rfl
      · intro n c _ owns
        rw [Owns, Journal.record_state, after, Browsers.set_device]
        split
        next here =>
          subst here
          have apart : row.convId ≠ c := by
            rintro rfl
            rw [Owns] at owns mine
            rw [owns] at mine
            exact other (Option.some.inj mine)
          exact ⟨owns, ⟨Table.get_put_of_ne apart, fun _ _ => .rfl⟩, fun _ => ⟨fun _ _ => .rfl⟩⟩
        next => exact ⟨owns, same n c _ rfl rfl rfl⟩
  | commits m row message commit after isCommit =>
      refine ⟨fun _ _ => id, fun _ => List.mem_cons_of_mem _, own, ?_, ?_, ?_, reserved⟩
      · intro alive
        rwa [Journal.record_state, after] at alive
      · intro n
        rw [Journal.record_state, after, Browsers.set_device]
        split
        next here => rw [here]
        next => rfl
      · intro n c _ owns
        rw [Owns, Journal.record_state, after, Browsers.set_device]
        split
        next here =>
          subst here
          have apart : row.convId ≠ c := by
            rintro rfl
            have mine := commit.owner
            rw [Owns] at owns mine
            rw [owns] at mine
            exact other (Option.some.inj mine)
          exact ⟨owns, commit.sameVault base inPlace isCommit apart,
            fun plain => commit.sameMessages base performs.running plain apart⟩
        next => exact ⟨owns, same n c _ rfl rfl rfl⟩
  | crashes u after _ =>
      refine ⟨fun _ _ => id, fun _ => List.mem_cons_of_mem _, own, ?_, ?_, ?_, reserved⟩
      · intro alive
        rw [Journal.record_state, after, Browsers.crash_dead] at alive
        split at alive
        · cases alive
        · exact alive
      · intro n
        rw [Journal.record_state, after]
        rfl
      · intro n c alive owns
        rw [Journal.record_state, after] at alive
        have apart : t ≠ u := by
          rintro rfl
          simp [Browsers.crash] at alive
        rw [Owns, Journal.record_state, after]
        refine ⟨?_, same n c _ rfl rfl rfl⟩
        rw [Owns] at owns
        simp [Browsers.crash, owns, apart]

end Steps

/-- What else the justified steps of a run keep. -/
structure Invariant (permits : History → Event → Prop) where
  holds : History → Prop
  allowed : ∀ j e, permits j e → Permitted j e
  begins : ∀ j t call, Base j → holds j → j.calls t = none → Unguessed j call →
    holds (j.begin t call)
  records : ∀ j e, Base j → holds j → j.Performs service permits e →
    Justified e.thread j e.op → holds (j.record e)

/-- The contract of the vault. -/
def Invariant.contract (I : Invariant permits) : Contract service permits where
  inv j := Base j ∧ I.holds j
  rely := Rely
  justified := Justified
  refl := Rely.refl
  trans _ _ _ _ := Rely.trans
  kept j e holds performs justified :=
    ⟨holds.1.record performs (change_of performs justified) (I.allowed j e performs.permitted).1,
      I.records j e holds.1 holds.2 performs justified⟩
  others j e _ holds performs justified other :=
    (change_of performs justified).rely holds.1 performs (I.allowed j e performs.permitted).2 other

end Vault
