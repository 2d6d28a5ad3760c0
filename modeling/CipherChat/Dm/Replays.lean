import CipherChat.Dm.Service

/-!
A direct message that is sent again is answered with the row it has, and the refusal of a counter
tells the truth, unless the table refuses the envelope itself.
-/

namespace Dm

open Async
open Rooms (UUID JavaString JavaError)
open Client (DmMessage DmRequest)

/-- The column takes the envelope, and the index its counter. -/
def Indexable (e : JsonMap) : Prop :=
  (storedCounter e).isSome = true ∧ storableFields e = true

/-- One row for each message of a client and for each counter of a session; one row in the
answers to the sends of one message; and no counter refused that is free. -/
structure Truthful (j : History) : Prop where
  sends : j.state.messages.Pairwise fun m m' => sameSend m.toDmMessage m'.toDmMessage = false
  slots : j.state.messages.Pairwise fun m m' => sameSlot m.toDmMessage m'.toDmMessage = false
  named : ∀ e ∈ j.past, ∀ e' ∈ j.past, ∀ r r', e.op = .respond (.ok r) → e'.op = .respond (.ok r') →
    e.call.conversationId = e'.call.conversationId → e.call.req.clientMessageId.isSome →
      e.call.req.clientMessageId = e'.call.req.clientMessageId → r.messageId = r'.messageId
  refused : ∀ e ∈ j.past, e.op = .respond (.error DmService.replayed) →
    e.call.req.envelope.isSome → ∃ m ∈ e.before.messages, sameSlot e.call.draft m.toDmMessage = true

/-- Every run from `s` of sends whose envelopes are among those `admitted` is truthful. -/
def RefusesTruly (s : Server) (admitted : JsonMap → Prop) : Prop :=
  ∀ j, service.Reaches (fun _ request => ∀ e, request.req.envelope = some e → admitted e)
    (fun _ _ => True) s j → Truthful j

/-- What an answer says about the table. -/
def Answers (request : Call) (s : Server) : Except JavaError SendResult → Prop
  | .ok r => ∃ m ∈ s.messages, m.id = r.messageId ∧ m.conversationId = request.conversationId ∧
      m.clientMessageId = request.req.clientMessageId
  | .error e => e = DmService.replayed → request.draft.fits = true →
      ∃ m ∈ s.messages, sameSlot request.draft m.toDmMessage = true

def Server.rows (s : Server) : List Message :=
  s.messages ++ s.pending.map Prod.snd

/-- The transaction has inserted nothing. -/
def Server.Idle (s : Server) (t : Nat) : Prop :=
  ∀ m, (t, m) ∉ s.pending

/-- No two rows that an index would not let stand beside each other. -/
def Apart (rows : List Message) : Prop :=
  rows.Pairwise fun m m' => conflict m.toDmMessage m'.toDmMessage = false

structure Consistent (j : History) : Prop where
  apart : Apart j.state.rows
  grown : ∀ e ∈ j.past, e.before.messages ⊆ j.state.messages
  answered : ∀ e ∈ j.past, ∀ result, e.op = .respond result → Answers e.call e.before result
  begun : ∀ t, j.log t = [] → j.state.Idle t

/-- What the others leave of a transaction, and of the table. -/
structure Rely (t : Nat) (s s' : Server) : Prop where
  messages : s.messages ⊆ s'.messages
  pending : ∀ m, (t, m) ∈ s'.pending ↔ (t, m) ∈ s.pending

def Justified (t : Nat) (j : History) : Op → Prop
  | .respond result => ∀ request, j.calls t = some request → Answers request j.state result
  | _ => True

/-- What an operation can do. -/
inductive Outcome (t : Nat) (s : Server) : (op : Op) → op.Res → Server → Prop
  | same {op result} : (op ≠ .commit ∧ op ≠ .rollback) → Outcome t s op result s
  | refused {draft result} : Outcome t s (.save draft) result { s with nextId := s.nextId + 1 }
  | saved {draft result} (m : Message) : m.toDmMessage = draft →
      (∀ m' ∈ s.rows, conflict draft m'.toDmMessage = false) →
      Outcome t s (.save draft) result
        { s with nextId := s.nextId + 1, pending := (t, m) :: s.pending }
  | committed {result} : Outcome t s .commit result (s.commit t)
  | closed {op result} : (op = .commit ∨ op = .rollback) → Outcome t s op result (s.rollback t)

section Step

variable {t u : Nat} {s s' : Server} {op : Op} {result answered : op.Res}

theorem mem_rows {m : Message} : m ∈ s.rows ↔ m ∈ s.messages ∨ ∃ u, (u, m) ∈ s.pending := by
  simp [Server.rows]

theorem effect_outcome {a : Answer} (effected : effect t s op a = some (answered, s')) :
    Outcome t s op result s' := by
  cases op with
  | save draft =>
      simp only [effect, Server.save] at effected
      split at effected
      next =>
        obtain ⟨_, rfl⟩ := Prod.mk.inj (Option.some.inj effected)
        exact .refused
      next accepted =>
        split at effected
        next => contradiction
        next free =>
          obtain ⟨_, rfl⟩ := Prod.mk.inj (Option.some.inj effected)
          refine .saved _ rfl fun m' member => ?_
          simp only [Bool.or_eq_true, List.any_eq_true, not_or, not_exists, not_and] at accepted free
          rcases mem_rows.mp member with stored | ⟨u, pends⟩
          · simpa using accepted.1.2 m' stored
          · simpa using free (u, m') pends
  | commit =>
      obtain ⟨_, rfl⟩ := Prod.mk.inj (Option.some.inj effected)
      exact .committed
  | rollback =>
      obtain ⟨_, rfl⟩ := Prod.mk.inj (Option.some.inj effected)
      exact .closed (.inr rfl)
  | _ =>
      obtain ⟨_, rfl⟩ := Prod.mk.inj (Option.some.inj effected)
      exact .same ⟨nofun, nofun⟩

theorem Exec.outcome (exec : Exec t s op result s') : Outcome t s op result s' := by
  obtain ⟨a, performed⟩ := exec
  refine faulty_leaves (fun _ _ => effect_outcome) ?_ performed
  cases op with
  | commit => exact .closed (.inl rfl)
  | rollback => exact .closed (.inr rfl)
  | _ => exact .same ⟨nofun, nofun⟩

/-- An operation answers by its effect, or that something is unavailable. -/
theorem Exec.answer (exec : Exec t s op result s') :
    (∃ a, effect t s op a = some (result, s')) ∨ ∃ outage : Outage, result = .error outage.error := by
  obtain ⟨a, performed⟩ := exec
  rcases faulty_cases performed with effected | ⟨outage, isError, _⟩
  · exact .inl ⟨a, effected⟩
  · exact .inr ⟨outage, isError⟩

theorem Outcome.messages (outcome : Outcome t s op result s') : s.messages ⊆ s'.messages := by
  cases outcome with
  | committed => exact List.subset_append_right _ _
  | _ => exact List.Subset.refl _

theorem Outcome.pending (outcome : Outcome t s op result s') (other : u ≠ t) (m : Message) :
    (u, m) ∈ s'.pending ↔ (u, m) ∈ s.pending := by
  cases outcome with
  | saved => simp [other]
  | committed => simp [Server.commit, Server.rollback, other]
  | closed => simp [Server.rollback, other]
  | _ => rfl

theorem Outcome.rely (outcome : Outcome t s op result s') (other : u ≠ t) : Rely u s s' :=
  ⟨outcome.messages, outcome.pending other⟩

theorem conflict_comm (m m' : DmMessage) : conflict m m' = conflict m' m := by
  have sends : sameSend m m' = sameSend m' m := by
    unfold sameSend
    grind
  have slots : sameSlot m m' = sameSlot m' m := by
    unfold sameSlot
    grind
  rw [conflict, conflict, sends, slots]

theorem apart_perm {rows rows' : List Message} (perm : rows.Perm rows') : Apart rows → Apart rows' := by
  refine (perm.pairwise_iff fun {m m'} apart => ?_).mp
  rw [conflict_comm]
  exact apart

/-- The end of a transaction moves its rows, or drops them. -/
theorem Outcome.apart (outcome : Outcome t s op result s') (apart : Apart s.rows) : Apart s'.rows := by
  cases outcome with
  | same => exact apart
  | refused => exact apart
  | saved m isDraft free =>
      have moved : (m :: s.rows).Perm (s.messages ++ ((t, m) :: s.pending).map Prod.snd) :=
        List.perm_middle.symm
      refine apart_perm moved (List.pairwise_cons.mpr ⟨fun m' member => ?_, apart⟩)
      rw [isDraft]
      exact free m' member
  | committed =>
      refine apart_perm ?_ apart
      have split := (List.filter_append_perm (fun w : Nat × Message => w.1 = t) s.pending).symm
      have moved := (split.map Prod.snd).append_left s.messages
      rw [List.map_append, ← List.append_assoc] at moved
      refine moved.trans ?_
      simp only [Server.rows, Server.commit, Server.rollback]
      refine List.Perm.append (List.perm_append_comm) ?_
      simp
  | closed =>
      refine apart.sublist (List.Sublist.append (List.Sublist.refl _) (List.Sublist.map _ ?_))
      exact List.filter_sublist

/-- What the table does not let in, there is a reason for. -/
theorem save_refused {draft : DmMessage} {a : Answer} {e : JavaError} (idle : s.Idle t)
    (effected : effect t s (.save draft) a = some (.error e, s')) (fits : draft.fits = true) :
    s'.messages = s.messages ∧ ∃ m ∈ s.messages, conflict draft m.toDmMessage = true := by
  simp only [effect, Server.save] at effected
  split at effected
  next refused =>
    obtain ⟨_, rfl⟩ := Prod.mk.inj (Option.some.inj effected)
    refine ⟨rfl, ?_⟩
    simp only [fits, Bool.not_true, Bool.false_or, Bool.or_eq_true, List.any_eq_true] at refused
    rcases refused with stored | ⟨⟨u, m⟩, pends, own⟩
    · exact stored
    · obtain ⟨rfl, _⟩ : u = t ∧ _ := by simpa using own
      exact absurd pends (idle m)
  next =>
    split at effected
    next => contradiction
    next => cases (Prod.mk.inj (Option.some.inj effected)).1

theorem save_ok {draft : DmMessage} {a : Answer} {m : Message}
    (effected : effect t s (.save draft) a = some (.ok m, s')) :
    m.toDmMessage = draft ∧ (t, m) ∈ s'.pending := by
  simp only [effect, Server.save] at effected
  split at effected
  next => cases (Prod.mk.inj (Option.some.inj effected)).1
  next =>
    split at effected
    next => contradiction
    next =>
      obtain ⟨isSaved, rfl⟩ := Prod.mk.inj (Option.some.inj effected)
      obtain rfl := Except.ok.inj isSaved
      exact ⟨rfl, List.mem_cons_self⟩

theorem effect_error {a : Answer} {e : JavaError} (effected : effect t s op a = some (.error e, s')) :
    e = .thrown .dataIntegrity := by
  cases op with
  | save draft =>
      simp only [effect, Server.save] at effected
      split at effected
      next => exact (Except.error.inj (Prod.mk.inj (Option.some.inj effected)).1).symm
      next =>
        split at effected
        next => contradiction
        next => cases (Prod.mk.inj (Option.some.inj effected)).1
  | _ => cases (Prod.mk.inj (Option.some.inj effected)).1

/-- No operation refuses a counter. -/
theorem Exec.error_ne {e : JavaError} (exec : Exec t s op (.error e) s') : e ≠ DmService.replayed := by
  rcases exec.answer with ⟨a, effected⟩ | ⟨outage, isError⟩
  · rw [effect_error effected]
    nofun
  · rw [Except.error.inj isError]
    cases outage with
    | dataAccess => nofun
    | runtime => nofun

end Step

section Contract

variable {j : History} {e : Event}

theorem consistent_record (consistent : Consistent j)
    (performs : j.Performs service (fun _ _ => True) e) (justified : Justified e.thread j e.op) :
    Consistent (j.record e) := by
  have exec : Exec e.thread j.state e.op e.result e.after := performs.before ▸ performs.exec
  have outcome := exec.outcome
  refine ⟨outcome.apart consistent.apart, fun e' member => ?_, fun e' member result isOp => ?_,
    fun t none => ?_⟩
  · rcases List.mem_cons.mp member with rfl | old
    · exact performs.before ▸ outcome.messages
    · exact List.Subset.trans (consistent.grown e' old) outcome.messages
  · rcases List.mem_cons.mp member with rfl | old
    · rw [isOp] at justified
      exact performs.before ▸ justified _ performs.running
    · exact consistent.answered e' old result isOp
  · have other : t ≠ e.thread := by
      rintro rfl
      rw [Journal.record_log_self] at none
      cases none
    rw [Journal.record_log_of_ne other.symm] at none
    exact fun m pends => consistent.begun t none m ((outcome.pending other m).mp pends)

def contract : Contract service fun _ _ => True where
  inv := Consistent
  rely t j j' := Rely t j.state j'.state
  justified := Justified
  refl _ _ := ⟨List.Subset.refl _, fun _ => .rfl⟩
  trans _ _ _ _ first second := ⟨List.Subset.trans first.messages second.messages,
    fun m => (second.pending m).trans (first.pending m)⟩
  kept _ _ := consistent_record
  others _ _ _ _ performs _ other := by
    have exec : Exec _ _ _ _ _ := performs.before ▸ performs.exec
    exact exec.outcome.rely other

end Contract

section Programs

variable {t : Nat} {request : Call} {α β : Type} {P : Server → Prop}

variable (t request) in
/-- A part of a request, from what is known of the server before it to what its result says. -/
def Tells (P : Server → Prop) (p : Prog β) (post : Except JavaError β → Server → Prop) : Prop :=
  contract.Guides t request (fun j => P j.state) p fun result j => post result j.state

/-- What is known of the server whatever others do. -/
def Firm (t : Nat) (P : Server → Prop) : Prop :=
  ∀ s s', Rely t s s' → P s → P s'

theorem firm_idle : Firm t (Server.Idle · t) :=
  fun _ _ rely idle m pends => idle m ((rely.pending m).mp pends)

theorem firm_exists {Q : Message → Prop} : Firm t fun s => ∃ m ∈ s.messages, Q m :=
  fun _ _ rely ⟨m, member, holds⟩ => ⟨m, rely.messages member, holds⟩

theorem Firm.stable (firm : Firm t P) : contract.Stable t fun j => P j.state :=
  fun _ _ rely => firm _ _ rely

/-- What is known of a value; and an exception is not the refusal of a counter. -/
def Told (K : β → Server → Prop) : Except JavaError β → Server → Prop
  | .ok value, s => K value s
  | .error e, _ => e ≠ DmService.replayed

theorem tells_bind {p : Prog α} {f : α → Prog β} {K : α → Server → Prop}
    {post : Except JavaError β → Server → Prop} (first : Tells t request P p (Told K))
    (rest : ∀ value, Tells t request (K value) (f value) post)
    (failed : ∀ e s, e ≠ DmService.replayed → post (.error e) s) :
    Tells t request P (p >>= f) post :=
  Contract.guides_bind (fun result j => Told K result j.state) first rest fun e j => failed e j.state

theorem tells_pure {value : β} {post : Except JavaError β → Server → Prop}
    (holds : ∀ s, P s → post (.ok value) s) : Tells t request P (pure value) post :=
  Contract.guides_pure fun j => holds j.state

theorem tells_throw {e : JavaError} {post : Except JavaError β → Server → Prop}
    (holds : ∀ s, P s → post (.error e) s) : Tells t request P (throw e) post :=
  Contract.guides_throw fun j => holds j.state

theorem tells_tryCatch {p : Prog β} {handler : JavaError → Prog β}
    {middle post : Except JavaError β → Server → Prop} (first : Tells t request P p middle)
    (rest : ∀ value s, middle (.ok value) s → post (.ok value) s)
    (handled : ∀ e, Tells t request (middle (.error e)) (handler e) post) :
    Tells t request P (tryCatch p handler) post :=
  Contract.guides_tryCatch (fun result j => middle result j.state) first
    (fun value j => rest value j.state) handled

/-- Operations that do not change a row. -/
def Quiet : Op → Prop
  | .save _ | .commit | .rollback | .respond _ => False
  | _ => True

theorem Quiet.same {op : Op} (quiet : Quiet op) {s s' : Server} {result : op.Res}
    (outcome : Outcome t s op result s') : s' = s := by
  cases outcome with
  | same => rfl
  | closed ends => rcases ends with rfl | rfl <;> exact quiet.elim
  | _ => exact quiet.elim

theorem Quiet.justified {op : Op} (quiet : Quiet op) (j : History) : Justified t j op := by
  cases op with
  | respond => exact quiet.elim
  | _ => trivial

theorem tells_op (firm : Firm t P) {op : Op} (justified : ∀ j, Justified t j op)
    {post : op.Res → Server → Prop}
    (step : ∀ s result s', Exec t s op result s' → P s → post result s') :
    Tells t request P (call op) post := by
  intro j start
  exact Contract.safe_step firm.stable (fun j _ _ known => ⟨justified j, fun result s' performs =>
    step j.state result s' performs.exec known⟩) start

/-- One operation that leaves the server as it is. -/
theorem tells_quiet (firm : Firm t P) {op : Op} (quiet : Quiet op) {post : op.Res → Server → Prop}
    (step : ∀ s result, Exec t s op result s → P s → post result s) :
    Tells t request P (call op) post := by
  refine tells_op firm quiet.justified fun s result s' exec known => ?_
  obtain rfl : s' = s := quiet.same exec.outcome
  exact step _ result exec known

theorem tells_look (firm : Firm t P) {op : Op} (quiet : Quiet op) {info : op.Val → Server → Prop}
    (look : ∀ a s value s', effect t s op a = some (.ok value, s') → P s → info value s) :
    Tells t request P (call op) (Told fun value s => P s ∧ info value s) := by
  refine tells_quiet firm quiet fun s result exec known => ?_
  cases result with
  | error e => exact exec.error_ne
  | ok value =>
      rcases exec.answer with ⟨a, effected⟩ | ⟨outage, isError⟩
      · exact ⟨known, look a s value s effected known⟩
      · cases isError

theorem tells_plain (firm : Firm t P) {op : Op} (quiet : Quiet op) :
    Tells t request P (call op) (Told fun _ s => P s) := by
  refine tells_quiet firm quiet fun s result exec known => ?_
  cases result with
  | error e => exact exec.error_ne
  | ok value => exact known

theorem tells_requireParticipant (firm : Firm t P) (conversationId userId : UUID) :
    Tells t request P (DmService.requireParticipant conversationId userId) (Told fun _ s => P s) := by
  have quiet : Quiet (.findConversation conversationId) := trivial
  refine tells_bind (tells_plain firm quiet) (fun found => ?_) fun _ _ => id
  cases found with
  | none => exact tells_throw fun _ _ => nofun
  | some c =>
      dsimp only
      split
      · exact tells_pure fun _ => id
      · exact tells_throw fun _ _ => nofun

theorem tells_requireUser (firm : Firm t P) (userId : UUID) :
    Tells t request P (DmService.requireUser userId) (Told fun _ s => P s) := by
  have quiet : Quiet (.findUser userId) := trivial
  refine tells_bind (tells_plain firm quiet) (fun found => ?_) fun _ _ => id
  cases found with
  | none => exact tells_throw fun _ _ => nofun
  | some name => exact tells_pure fun _ => id

theorem tells_tryAcquire (firm : Firm t P) (senderId : UUID) :
    Tells t request P (DmService.tryAcquire senderId) (Told fun _ s => P s) := by
  have quiet : Quiet (.rateLimit senderId) := trivial
  have limits : Tells t request P (call (.rateLimit senderId)) fun result s => P s ∧ Told (fun _ _ => True) result s := by
    refine tells_quiet firm quiet fun s result exec known => ?_
    cases result with
    | ok value => exact ⟨known, trivial⟩
    | error e => exact ⟨known, exec.error_ne⟩
  refine tells_tryCatch limits (fun _ _ => And.left) fun e => ?_
  split
  · exact tells_pure fun _ => And.left
  · exact tells_throw fun _ => And.right

theorem answers_error {e : JavaError} (s : Server) (other : e ≠ DmService.replayed) :
    Answers request s (.error e) :=
  fun isReplayed => absurd isReplayed other

/-- The row of a message of the client. -/
def Named (conversationId : UUID) (clientId : Option UUID) (m : Message) : Prop :=
  m.conversationId = conversationId ∧ m.clientMessageId = clientId

theorem tells_result {m : Message} (isNamed : Named request.conversationId request.req.clientMessageId m)
    (duplicate : Bool) : Tells t request (fun s => m ∈ s.messages) (DmService.result m duplicate)
      fun result s => Answers request s result := by
  have firm : Firm t fun s => m ∈ s.messages := fun _ _ rely member => rely.messages member
  have quiet : Quiet (.view m.id) := trivial
  refine tells_bind (tells_plain firm quiet) (fun _ => ?_) fun _ => answers_error
  exact tells_pure fun s member => ⟨m, member, rfl, isNamed⟩

/-- A message is looked for, and where there is none something follows. -/
theorem tells_seen (firm : Firm t P) (conversationId : UUID) (clientId : Option UUID)
    {Q : Server → Prop} (absent : ∀ s, P s → (∀ m ∈ s.messages, clientId.isSome →
      ¬Named conversationId clientId m) → Q s) :
    Tells t request P (DmService.seen conversationId clientId)
      (Told fun found s => P s ∧ match found with
        | some m => m ∈ s.messages ∧ Named conversationId clientId m
        | none => Q s) := by
  cases clientId with
  | none => exact tells_pure fun s known => ⟨known, absent s known fun _ _ => nofun⟩
  | some clientId =>
      have quiet : Quiet (.findByClientMessageId conversationId clientId) := trivial
      refine tells_look firm quiet fun a s found s' effected known => ?_
      obtain ⟨isFound, rfl⟩ := Prod.mk.inj (Option.some.inj effected)
      have isFound := Except.ok.inj isFound
      cases found with
      | some m =>
          have holds := List.find?_some isFound
          exact ⟨List.mem_of_find?_eq_some isFound, by simpa [Named] using holds⟩
      | none =>
          refine absent s known fun m member _ isNamed => ?_
          have misses := List.find?_eq_none.mp isFound m member
          exact misses (by simp [isNamed.1, isNamed.2])

section Persist

variable (draft : DmMessage)

/-- Why a row is not there: the table refuses it for one that is, or something is unavailable. -/
def Refused (e : JavaError) (s : Server) : Prop :=
  e ≠ DmService.replayed ∧ (e = .thrown .dataIntegrity → draft.fits = true →
    ∃ m ∈ s.messages, conflict draft m.toDmMessage = true)

/-- What is known of a row, or why it is not there. -/
def Kept (K : α → Server → Prop) : Except JavaError α → Server → Prop
  | .ok value, s => K value s
  | .error e, s => Refused draft e s

variable {draft}

theorem firm_refused (e : JavaError) : Firm t (Refused draft e) :=
  fun _ _ rely refused => ⟨refused.1, fun isIntegrity fits =>
    firm_exists _ _ rely (refused.2 isIntegrity fits)⟩

theorem refused_outage (outage : Outage) (s : Server) : Refused draft outage.error s := by
  cases outage with
  | dataAccess => exact ⟨nofun, nofun⟩
  | runtime => exact ⟨nofun, nofun⟩

theorem kept_bind {p : Prog α} {f : α → Prog β} {K : α → Server → Prop} {K' : β → Server → Prop}
    (first : Tells t request P p (Kept draft K))
    (rest : ∀ value, Tells t request (K value) (f value) (Kept draft K')) :
    Tells t request P (p >>= f) (Kept draft K') :=
  Contract.guides_bind (fun result j => Kept draft K result j.state) first rest fun _ _ => id

/-- Beside the saving nothing finds a row in its way. -/
theorem keeps_quiet (firm : Firm t P) {op : Op} (quiet : Quiet op) :
    Tells t request P (call op) (Kept draft fun _ s => P s) := by
  refine tells_quiet firm quiet fun s result exec known => ?_
  cases result with
  | ok value => exact known
  | error e =>
      rcases exec.answer with ⟨a, effected⟩ | ⟨outage, isError⟩
      · cases op <;> first | exact quiet.elim | cases effected
      · rw [Except.error.inj isError]
        exact refused_outage outage _

/-- The row is inserted, and its transaction is open. -/
def Inserted (t : Nat) (draft : DmMessage) (m : Message) (s : Server) : Prop :=
  (t, m) ∈ s.pending ∧ m.toDmMessage = draft

theorem firm_inserted (m : Message) : Firm t (Inserted t draft m) :=
  fun _ _ rely inserted => ⟨(rely.pending m).mpr inserted.1, inserted.2⟩

theorem tells_save : Tells t request (Server.Idle · t) (call (.save draft))
    (Kept draft (Inserted t draft)) := by
  have justified (j : History) : Justified t j (.save draft) := trivial
  refine tells_op firm_idle justified fun s result s' exec idle => ?_
  rcases exec.answer with ⟨a, effected⟩ | ⟨outage, isError⟩
  · cases result with
    | ok m =>
        obtain ⟨isDraft, pends⟩ := save_ok effected
        exact ⟨pends, isDraft⟩
    | error e =>
        refine ⟨exec.error_ne, fun _ fits => ?_⟩
        obtain ⟨same, m, member, conflicts⟩ := save_refused idle effected fits
        exact ⟨m, same ▸ member, conflicts⟩
  · rw [isError]
    exact refused_outage outage _

theorem tells_commit (m : Message) : Tells t request (Inserted t draft m) (call .commit)
    (Kept draft fun _ s => m ∈ s.messages ∧ m.toDmMessage = draft) := by
  have justified (j : History) : Justified t j .commit := trivial
  refine tells_op (firm_inserted m) justified fun s result s' exec inserted => ?_
  rcases exec.answer with ⟨a, effected⟩ | ⟨outage, isError⟩
  · obtain ⟨rfl, rfl⟩ := Prod.mk.inj (Option.some.inj effected)
    refine ⟨List.mem_append_left _ (List.mem_map.mpr ⟨(t, m), List.mem_filter.mpr ⟨inserted.1, ?_⟩, rfl⟩),
      inserted.2⟩
    simp
  · rw [isError]
    exact refused_outage outage _

/-- Rolling back changes no row of the table. -/
theorem tells_rollback (e : JavaError) : Tells t request (Refused draft e) (call .rollback)
    (Kept draft fun _ s => Refused draft e s) := by
  have justified (j : History) : Justified t j .rollback := trivial
  refine tells_op (firm_refused e) justified fun s result s' exec refused => ?_
  have keeps : s.messages ⊆ s'.messages := exec.outcome.messages
  rcases exec.answer with ⟨a, effected⟩ | ⟨outage, isError⟩
  · obtain ⟨rfl, _⟩ := Prod.mk.inj (Option.some.inj effected)
    refine ⟨refused.1, fun isIntegrity fits => ?_⟩
    obtain ⟨m, member, conflicts⟩ := refused.2 isIntegrity fits
    exact ⟨m, keeps member, conflicts⟩
  · rw [isError]
    exact refused_outage outage _

theorem tells_persist (c : Conversation) (senderName : JavaString) :
    Tells t request (Server.Idle · t) (DmService.persist draft c senderName)
      (Kept draft fun m s => m ∈ s.messages ∧ m.toDmMessage = draft) := by
  have body : Tells t request (Server.Idle · t) (do
      let saved ← call (.save draft)
      let _ ← call (.findConversation c.id)
      call (.touch c.id)
      call (.publish {
        conversationId := c.id
        messageId := saved.id
        senderId := saved.senderId
        senderName := senderName
        recipientId := c.other saved.senderId
        encrypted := saved.envelope.isSome })
      return saved) (Kept draft (Inserted t draft)) := by
    refine kept_bind tells_save fun saved => ?_
    have finds : Quiet (.findConversation c.id) := trivial
    have touches : Quiet (.touch c.id) := trivial
    refine kept_bind (keeps_quiet (firm_inserted saved) finds) fun _ => ?_
    refine kept_bind (keeps_quiet (firm_inserted saved) touches) fun _ => ?_
    refine kept_bind (keeps_quiet (firm_inserted saved) trivial) fun _ => ?_
    exact tells_pure fun _ => id
  refine kept_bind (tells_tryCatch body (fun _ _ => id) fun e => ?_) fun m => ?_
  · exact kept_bind (tells_rollback e) fun _ => tells_throw fun _ => id
  · exact kept_bind (tells_commit m) fun _ => tells_pure fun _ => id

end Persist

theorem named_of_draft {m : Message} (isDraft : m.toDmMessage = request.draft) :
    Named request.conversationId request.req.clientMessageId m := by
  rw [Named, isDraft]
  exact ⟨rfl, rfl⟩

/-- What stands in the way of a row is a row of the same message, or of the same counter. -/
theorem sameSlot_of_absent {m : Message} (conflicts : conflict request.draft m.toDmMessage = true)
    (absent : request.req.clientMessageId.isSome →
      ¬Named request.conversationId request.req.clientMessageId m) :
    sameSlot request.draft m.toDmMessage = true := by
  rw [conflict, Bool.or_eq_true] at conflicts
  refine conflicts.resolve_left fun isSend => ?_
  simp only [sameSend, Bool.and_eq_true, decide_eq_true_eq] at isSend
  exact absent isSend.1.2 ⟨isSend.1.1.symm, isSend.2.symm⟩

/-- A row that is named is answered with. -/
theorem tells_named {m : Message} (duplicate : Bool) : Tells t request
    (fun s => m ∈ s.messages ∧ Named request.conversationId request.req.clientMessageId m)
    (DmService.result m duplicate) fun result s => Answers request s result := by
  have answers : Named request.conversationId request.req.clientMessageId m →
      contract.Guides t request (fun j => m ∈ j.state.messages) (DmService.result m duplicate)
        fun result j => Answers request j.state result := fun isNamed => tells_result isNamed duplicate
  exact (Contract.guides_assuming answers).weaken (fun j known => known.symm) fun _ _ => id

/-- After a row was refused: the message is there, or the counter is. -/
theorem tells_absorb : Tells t request (Refused request.draft (.thrown .dataIntegrity)) (do
      match ← DmService.seen request.conversationId request.req.clientMessageId with
      | some dup => DmService.result dup true
      | none => throw DmService.replayed) fun result s => Answers request s result := by
  have absent (s : Server) (refused : Refused request.draft (.thrown .dataIntegrity) s)
      (misses : ∀ m ∈ s.messages, request.req.clientMessageId.isSome →
        ¬Named request.conversationId request.req.clientMessageId m) :
      Answers request s (.error DmService.replayed) := by
    intro _ fits
    obtain ⟨m, member, conflicts⟩ := refused.2 rfl fits
    exact ⟨m, member, sameSlot_of_absent conflicts (misses m member)⟩
  refine tells_bind (tells_seen (firm_refused _) _ _ absent) (fun found => ?_) fun _ => answers_error
  cases found with
  | none => exact tells_throw fun _ => And.right
  | some dup => exact Contract.Guides.weaken (tells_named true) (fun _ => And.right) fun _ _ => id

theorem tells_store (c : Conversation) (senderName : JavaString) :
    Tells t request (Server.Idle · t)
      (DmService.store request.conversationId request.req request.draft c senderName)
      fun result s => Answers request s result := by
  have settles : contract.Guides t request (fun j => j.state.Idle t)
      (settle (DmService.persist request.draft c senderName)) fun result j => match result with
        | .ok result => Kept request.draft
            (fun m s => m ∈ s.messages ∧ m.toDmMessage = request.draft) result j.state
        | .error _ => False := Contract.guides_settle (tells_persist c senderName)
  refine Contract.guides_bind _ settles (fun result => ?_) fun _ _ => False.elim
  cases result with
  | ok saved =>
      exact Contract.Guides.weaken (tells_named false)
        (fun j known => ⟨known.1, named_of_draft known.2⟩) fun _ _ => id
  | error e =>
      have throws : Tells t request (Refused request.draft e) (throw e : Prog SendResult)
          fun result s => Answers request s result :=
        tells_throw fun s refused => answers_error s refused.1
      dsimp only
      split
      next isOk => cases isOk
      next isIntegrity =>
          obtain rfl := Except.error.inj isIntegrity
          exact tells_absorb
      next isError =>
          obtain rfl := Except.error.inj isError
          exact throws

theorem check_ne (req : DmRequest) : req.check ≠ .error DmService.replayed := by
  unfold DmRequest.check
  split
  · nofun
  · split
    · nofun
    · intro isReplayed
      obtain ⟨message, same⟩ := EnvelopeValidator.plain_validate _ _ isReplayed
      cases same

theorem tells_send : Tells t request (Server.Idle · t)
    (DmService.send request.senderId request.conversationId request.req)
    fun result s => Answers request s result := by
  refine tells_bind (tells_requireParticipant firm_idle _ _) (fun c => ?_) fun _ => answers_error
  have checks : Tells t request (Server.Idle · t) (lift request.req.check) (Told fun _ s => s.Idle t) := by
    intro j start
    cases check : request.req.check with
    | ok value => exact start
    | error e => exact ⟨start.1, fun isReplayed => check_ne _ (isReplayed ▸ check)⟩
  refine tells_bind checks (fun _ => ?_) fun _ => answers_error
  refine tells_bind (tells_tryAcquire firm_idle _) (fun allowed => ?_) fun _ => answers_error
  split
  · refine tells_bind (tells_seen (Q := fun _ => True) firm_idle _ _ fun _ _ _ => trivial)
      (fun found => ?_) fun _ => answers_error
    cases found with
    | some m => exact Contract.Guides.weaken (tells_named true) (fun _ => And.right) fun _ _ => id
    | none =>
        have stores : Tells t request (Server.Idle · t) (do
            let sender ← DmService.requireUser request.senderId
            DmService.store request.conversationId request.req request.draft c sender)
            fun result s => Answers request s result :=
          tells_bind (tells_requireUser firm_idle _) (fun sender => tells_store c sender)
            fun _ => answers_error
        exact Contract.Guides.weaken stores (fun _ => And.left) fun _ _ => id
  · exact tells_throw fun s _ => answers_error s nofun

end Programs

theorem firm_answers {t : Nat} {request : Call} (result : Except JavaError SendResult) :
    Firm t fun s => Answers request s result := by
  intro s s' rely answers
  cases result with
  | ok r => exact firm_exists s s' rely answers
  | error e => exact fun isReplayed fits => firm_exists s s' rely (answers isReplayed fits)

theorem guides_program (t : Nat) (request : Call) :
    contract.Guides t request (fun j => j.state.Idle t) request.program fun _ _ => True := by
  have sends : contract.Guides t request (fun j => j.state.Idle t)
      (settle (DmService.send request.senderId request.conversationId request.req))
      fun result j => match result with
        | .ok result => Answers request j.state result
        | .error _ => False := Contract.guides_settle tells_send
  refine Contract.guides_bind _ sends (fun result => ?_) fun _ _ => False.elim
  have responds : Tells t request (fun s => Answers request s result) (call (.respond result))
      fun _ _ => True := by
    intro j start
    refine Contract.safe_step (firm_answers result).stable (fun j _ running known => ?_) start
    have justified : Justified t j (.respond result) := by
      intro request' running'
      obtain rfl : request = request' := Option.some.inj (running.symm.trans running')
      exact known
    exact ⟨justified, fun _ _ _ => trivial⟩
  exact responds

/-- Every run is consistent, whatever is sent. -/
theorem consistent_of_reaches {s : Server} {j : History} {admits : History → Call → Prop}
    (apart : Apart s.messages) (closed : s.pending = [])
    (reaches : service.Reaches admits (fun _ _ => True) s j) : Consistent j := by
  have initial : Consistent (.empty s) := by
    refine ⟨?_, fun e member => ?_, fun e member => ?_, fun t _ m pends => ?_⟩
    · rw [Journal.empty_state, Server.rows, closed]
      simpa using apart
    · cases member
    · cases member
    · rw [Journal.empty_state, closed] at pends
      cases pends
  refine reaches.under contract initial (fun j t request consistent _ _ => ⟨?_, fun u _ => ?_⟩)
    fun t request => ?_
  · exact ⟨consistent.apart, consistent.grown, consistent.answered, consistent.begun⟩
  · exact contract.refl u j
  · exact Contract.Guides.weaken (guides_program t request) (fun j start => start.1.begun t start.2)
      fun _ _ => id

theorem eq_of_sameSend {rows : List Message} (apart : Apart rows) {m m' : Message} (member : m ∈ rows)
    (member' : m' ∈ rows) (same : sameSend m.toDmMessage m'.toDmMessage = true) : m = m' := by
  by_contra differ
  have symmetric : Std.Symm fun m m' : Message => conflict m.toDmMessage m'.toDmMessage = false :=
    ⟨fun m m' free => (conflict_comm _ _).trans free⟩
  have free := (Bool.or_eq_false_iff.mp (apart.forall member member' differ)).1
  cases same.symm.trans free

theorem Indexable.fits {request : Call} {env : JsonMap} (isEnv : request.req.envelope = some env)
    (indexable : Indexable env) : request.draft.fits = true := by
  simp [Call.draft, DmRequest.draft, DmMessage.fits, isEnv, indexable.1, indexable.2]

/-- Only what is admitted is sent. -/
theorem admitted_of_reaches {s : Server} {j : History} {admitted : Call → Prop}
    (reaches : service.Reaches (fun _ request => admitted request) (fun _ _ => True) s j) :
    ∀ e ∈ j.past, admitted e.call := by
  have all := reaches.kept (fun j => (∀ t request, j.calls t = some request → admitted request) ∧
    ∀ e ∈ j.past, admitted e.call) ?_ ?_ ?_
  · exact all.2
  · exact ⟨fun _ _ => nofun, fun _ member => by cases member⟩
  · rintro j t request ⟨running, past⟩ _ isAdmitted
    refine ⟨fun u request' running' => ?_, past⟩
    rcases Journal.of_calls_begin running' with ⟨_, rfl⟩ | before
    · exact isAdmitted
    · exact running u request' before
  · rintro j e ⟨running, past⟩ _ performs _
    refine ⟨running, fun e' member => ?_⟩
    rcases List.mem_cons.mp member with rfl | old
    · exact running _ _ performs.running
    · exact past e' old

theorem refuses_truly (s : Server) (apart : Apart s.messages) (closed : s.pending = []) :
    RefusesTruly s Indexable := by
  intro j reaches
  have consistent := consistent_of_reaches apart closed reaches
  have rows : Apart j.state.messages := consistent.apart.sublist (List.sublist_append_left _ _)
  have admitted : ∀ e ∈ j.past, ∀ env, e.call.req.envelope = some env → Indexable env :=
    admitted_of_reaches reaches
  refine ⟨rows.imp fun {m m'} free => ?_, rows.imp fun {m m'} free => ?_,
    fun e member e' member' r r' isOp isOp' sameRoom isSome sameId => ?_, fun e member isOp isE2ee => ?_⟩
  · exact (Bool.or_eq_false_iff.mp free).1
  · exact (Bool.or_eq_false_iff.mp free).2
  · obtain ⟨m, stored, isId, isRoom, isSend⟩ := consistent.answered e member _ isOp
    obtain ⟨m', stored', isId', isRoom', isSend'⟩ := consistent.answered e' member' _ isOp'
    have sends : sameSend m.toDmMessage m'.toDmMessage = true := by
      simp [sameSend, isRoom, isRoom', isSend, isSend', sameRoom, sameId, sameId ▸ isSome]
    have same := eq_of_sameSend rows (consistent.grown e member stored)
      (consistent.grown e' member' stored') sends
    rw [← isId, ← isId', same]
  · refine consistent.answered e member _ isOp rfl ?_
    obtain ⟨env, isEnv⟩ := Option.isSome_iff_exists.mp isE2ee
    exact (admitted e member env isEnv).fits isEnv

section Halves

/-- Users 1 and 2, and their conversation. -/
def unsent : Server where
  conversations := [⟨5, 1, 2⟩]
  users := [(1, [65]), (2, [66])]
  messages := []
  pending := []
  nextId := 1

theorem refuses_truly_unsent : RefusesTruly unsent Indexable :=
  refuses_truly unsent List.Pairwise.nil rfl

/-- The counter is one and a half. -/
def halved : JsonMap := [
  ("v", .number (.integer 1)),
  ("sessionId", .string [115]),
  ("ctr", .number (.double (3 / 2))),
  ("ct", .string (List.replicate 22 65 ++ [0x3D, 0x3D]))]

def Event.answer (e : Event) : Option (Except JavaError SendResult) :=
  match e.op with
  | .respond result => some result
  | _ => none

def accepts (request : Call) : Bool :=
  request.req.envelope.all fun e => (EnvelopeValidator.validate e).isOk

def refusing : Option History :=
  ((service.schedule perform accepts).follow (Service.unstarted unsent)
    (.start 0 ⟨1, 5, ⟨none, none, some halved⟩⟩ :: List.replicate 6 (.await 0 {}))).map Config.state

theorem refusing_answer : refusing.map (fun j => j.past.map fun e =>
    (Event.answer e, e.call.req.envelope.isSome, e.before.messages.length)) = some
      ((some (.error DmService.replayed), true, 0) :: List.replicate 5 (none, true, 0)) := by
  decide +kernel

theorem refused_falsely : ¬RefusesTruly unsent fun e => EnvelopeValidator.validate e = .ok () := by
  intro claim
  obtain ⟨j, ran, facts⟩ := Option.map_eq_some_iff.mp refusing_answer
  obtain ⟨config, followed, rfl⟩ := Option.map_eq_some_iff.mp ran
  have calls (j : History) (request : Call) (accepted : accepts request) (e : JsonMap)
      (isEnv : request.req.envelope = some e) : EnvelopeValidator.validate e = .ok () := by
    rw [accepts, isEnv] at accepted
    cases checked : EnvelopeValidator.validate e with
    | ok value => rfl
    | error e => simp [checked, Except.isOk, Except.toBool] at accepted
  have performs (t : Nat) (s : Server) (op : Op) (a : Answer) (result : op.Res) (s' : Server)
      (performed : perform t s op a = some (result, s')) : service.exec t s op result s' := ⟨a, performed⟩
  have reaches : service.Reaches (fun _ request => ∀ e, request.req.envelope = some e →
      EnvelopeValidator.validate e = .ok ()) (fun _ _ => True) unsent config.state :=
    Service.reaches_follow calls performs (fun _ _ => trivial) followed
  obtain ⟨e, rest, isPast, isFirst, _⟩ := List.map_eq_cons_iff.mp facts
  obtain ⟨isAnswer, isE2ee, isEmpty⟩ := Prod.mk.inj isFirst |>.imp_right Prod.mk.inj
  have isOp : e.op = .respond (.error DmService.replayed) := by
    unfold Event.answer at isAnswer
    split at isAnswer
    next result isOp =>
      rw [isOp, Option.some.inj isAnswer]
    next => cases isAnswer
  obtain ⟨m, member, _⟩ := (claim _ reaches).refused e (isPast ▸ List.mem_cons_self) isOp isE2ee
  rw [List.length_eq_zero_iff.mp isEmpty] at member
  cases member

end Halves

end Dm
