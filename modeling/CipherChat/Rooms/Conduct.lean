import CipherChat.Rooms.Progress

/-!
Every request follows its law: a send inserts a row only under the number it holds and after
it has found none, and answers with the row it has found or committed.
-/

namespace Rooms

open Async

variable {permits : History → Event → Prop} {request : Call} {α β : Type}

theorem follows_call {op : Op} {pre : Log Op Op.Res → Prop}
    {post : op.Res → Log Op Op.Res → Prop}
    (step : ∀ log, pre log → law request log op ∧
      ∀ result, post result (⟨op, result⟩ :: log)) :
    Follows service permits law request pre (call op) post := by
  intro t j start
  refine safe_op (fun log known => ?_) start
  obtain ⟨allowed, after⟩ := step log known
  exact ⟨allowed, fun _ result _ _ => after result⟩

section Sends

/-- Operations that show nothing of how far a send has come. -/
def Quiet : Op → Prop
  | .now | .findChatroom _ | .findMember .. | .saveMember .. | .findUser _ | .findUsers _
  | .rateLimit _ | .expire _ | .findAfter .. | .advance .. | .publish _
  | .view _ => True
  | _ => False

theorem Quiet.after {op : Op} (quiet : Quiet op) (roomId : UUID) (p : Progress)
    (result : op.Res) : p.after roomId ⟨op, result⟩ = p := by
  cases op <;> simp only [Quiet] at quiet <;> rfl

theorem Quiet.law {op : Op} (quiet : Quiet op) (roomId : UUID) (clientId : Option UUID)
    (p : Progress) : sendLaw roomId clientId p op := by
  cases op <;> simp only [Quiet] at quiet <;> trivial

variable (permits request) (roomId : UUID)

/-- A part of a send, between what is known of its progress. -/
def Sends (pre : Progress → Prop) (p : Prog α) (post : Except JavaError α → Progress → Prop) :
    Prop :=
  Follows service permits law request (fun log => pre (progress roomId log)) p
    fun result log => post result (progress roomId log)

variable {permits request roomId} {clientId : Option UUID} {pre : Progress → Prop}

theorem sends_pure {value : α} {post : Except JavaError α → Progress → Prop}
    (holds : ∀ p, pre p → post (.ok value) p) :
    Sends permits request roomId pre (pure value) post :=
  follows_pure fun _ => holds _

theorem sends_throw {e : JavaError} {post : Except JavaError α → Progress → Prop}
    (holds : ∀ p, pre p → post (.error e) p) :
    Sends permits request roomId pre (throw e) post :=
  follows_throw fun _ => holds _

theorem sends_bind {p : Prog α} {f : α → Prog β} {post : Except JavaError β → Progress → Prop}
    (middle : Except JavaError α → Progress → Prop)
    (first : Sends permits request roomId pre p middle)
    (rest : ∀ value, Sends permits request roomId (middle (.ok value)) (f value) post)
    (failed : ∀ e p, middle (.error e) p → post (.error e) p) :
    Sends permits request roomId pre (p >>= f) post :=
  follows_bind _ first rest fun e _ => failed e _

theorem sends_tryCatch {p : Prog α} {handler : JavaError → Prog α}
    {post : Except JavaError α → Progress → Prop}
    (middle : Except JavaError α → Progress → Prop)
    (first : Sends permits request roomId pre p middle)
    (rest : ∀ value p, middle (.ok value) p → post (.ok value) p)
    (handled : ∀ e, Sends permits request roomId (middle (.error e)) (handler e) post) :
    Sends permits request roomId pre (tryCatch p handler) post :=
  follows_tryCatch _ first (fun value _ => rest value _) handled

theorem sends_settle {p : Prog α} {post : Except JavaError (Except JavaError α) → Progress → Prop}
    (body : Sends permits request roomId pre p fun result => post (.ok result)) :
    Sends permits request roomId pre (settle p) post :=
  follows_settle body

theorem sends_call (ruled : ∀ log, law request log = sendLaw roomId clientId (progress roomId log))
    {op : Op} {post : op.Res → Progress → Prop}
    (step : ∀ p, pre p → sendLaw roomId clientId p op ∧
      ∀ result, post result (p.after roomId ⟨op, result⟩)) :
    Sends permits request roomId pre (call op) post := by
  refine follows_call fun log known => ?_
  obtain ⟨allowed, after⟩ := step _ known
  exact ⟨by rw [ruled]; exact allowed, after⟩

theorem sends_quiet (ruled : ∀ log, law request log = sendLaw roomId clientId (progress roomId log))
    {p : Prog α} (uses : Uses Quiet p.run) :
    Sends permits request roomId pre p fun _ => pre := by
  refine follows_uses (fun op quiet log known => ⟨?_, fun result => ?_⟩) uses
  · rw [ruled]
    exact quiet.law ..
  · rw [progress, quiet.after]
    exact known

/-- No transaction of the send is open. -/
def Shut (p : Progress) : Prop :=
  p.opened = false ∧ p.inserted = none

/-- What is known when no exception was thrown, and that an exception leaves no transaction open. -/
def Then (post : α → Progress → Prop) : Except JavaError α → Progress → Prop
  | .ok value, p => post value p
  | .error _, p => Shut p

/-- A quiet part, whatever it comes to, before the rest. -/
theorem sends_after (ruled : ∀ log, law request log = sendLaw roomId clientId (progress roomId log))
    {p : Prog α} {f : α → Prog β} {post : Except JavaError β → Progress → Prop}
    (uses : Uses Quiet p.run) (rest : ∀ value, Sends permits request roomId pre (f value) post)
    (failed : ∀ e p, pre p → post (.error e) p) :
    Sends permits request roomId pre (p >>= f) post :=
  sends_bind (fun _ => pre) (sends_quiet ruled uses) rest failed

theorem uses_op {allowed : Op → Prop} {op : Op} (fine : allowed op) :
    Uses allowed (call op).run :=
  uses_call fine

theorem assertAccess_quiet (room userId : UUID) : Uses Quiet (assertAccess room userId).run := by
  refine uses_throwing_bind (uses_op (by trivial)) fun found => ?_
  cases found with
  | none => exact uses_throw
  | some chatroom =>
      dsimp only
      split
      · refine uses_throwing_bind (uses_op (by trivial)) fun member => ?_
        split
        · exact uses_throwing_pure
        · exact uses_throw
      · exact uses_throwing_pure

theorem ensureMembership_quiet (room userId : UUID) :
    Uses Quiet (ensureMembership room userId).run := by
  refine uses_throwing_bind (uses_op (by trivial)) fun member => ?_
  split
  · exact uses_throwing_pure
  · exact uses_op (by trivial)

theorem requireUser_quiet (userId : UUID) : Uses Quiet (requireUser userId).run := by
  refine uses_throwing_bind (uses_op (by trivial)) fun found => ?_
  cases found with
  | none => exact uses_throw
  | some name => exact uses_throwing_pure

theorem tryAcquire_quiet (key : RedisKey) : Uses Quiet (tryAcquire key).run := by
  refine uses_tryCatch (uses_op (by trivial)) fun e => ?_
  split
  · exact uses_throwing_pure
  · exact uses_throw

theorem result_quiet (m : Message) (duplicate : Bool) : Uses Quiet (result m duplicate).run :=
  uses_throwing_bind (uses_op (by trivial)) fun _ => uses_throwing_pure

/-- The send has found nothing and inserted nothing yet. -/
structure Ready (held : Option (UUID × Nat)) (p : Progress) : Prop where
  seen : p.seen = none
  held : p.held = held
  inserted : p.inserted = none
  opened : p.opened = false
  closed : p.closed = false
  answered : p.answered = false

theorem Ready.shut {held : Option (UUID × Nat)} {p : Progress} (ready : Ready held p) : Shut p :=
  ⟨ready.opened, ready.inserted⟩

/-- The send has found the row, or committed it, and no transaction of its is open. -/
def Has (m : Message) (p : Progress) : Prop :=
  (p.seen = some m ∨ p.committed = some m) ∧ Shut p

/-- The send has committed the row, and no transaction of its is open. -/
def Wrote (m : Message) (p : Progress) : Prop :=
  p.committed = some m ∧ Shut p

def Answers (r : SendResult) (p : Progress) : Prop :=
  ∃ m, m.id = r.messageId ∧ m.sequenceNumber = r.sequenceNumber ∧ Has m p

/-- What a search for an earlier row comes to. -/
def Searched : Option Message → Progress → Prop
  | some m, p => Has m p
  | none, p => Ready none p

/-- What the dedup key answers. -/
def LookedUp : Option Nat → Progress → Prop
  | some id, p => Ready none p ∧ p.cached = some id
  | none, p => Ready none p

/-- The row of the send stands in its open transaction. -/
structure Inserted (m : Message) (p : Progress) : Prop where
  inserted : p.inserted = some m
  seen : p.seen = none
  closed : p.closed = false
  answered : p.answered = false

def InTransaction : Except JavaError Message → Progress → Prop
  | .ok m, p => Inserted m p
  | .error _, _ => True

theorem Ready.found {m : Message} {p : Progress} (ready : Ready none p) :
    Has m { p with seen := some m } :=
  ⟨.inl rfl, ready.opened, ready.inserted⟩

variable (ruled : ∀ log, law request log = sendLaw roomId clientId (progress roomId log))
include ruled

theorem sends_result (m : Message) (duplicate : Bool) :
    Sends permits request roomId (Has m) (result m duplicate) (Then Answers) :=
  sends_after ruled (uses_op (by trivial)) (fun _ => sends_pure fun _ has => ⟨m, rfl, rfl, has⟩)
    fun _ _ has => has.2

theorem sends_findByClientMessageId {cid : UUID} (named : clientId = some cid) :
    Sends permits request roomId (Ready none) (call (.findByClientMessageId roomId cid))
      (Then Searched) := by
  refine sends_call ruled fun p ready => ⟨⟨rfl, named⟩, fun answer => ?_⟩
  rcases answer with e | _ | m
  · exact ready.shut
  · exact ready
  · exact ready.found

theorem sends_lookup {cid : UUID} (named : clientId = some cid) :
    Sends permits request roomId (Ready none) (RedisDeduplicator.lookup roomId cid)
      (Then LookedUp) := by
  refine sends_tryCatch (fun cached p => Ready none p ∧ Then LookedUp cached p) ?_
    (fun _ _ known => known.2) fun e => ?_
  · refine sends_call ruled fun p ready => ⟨⟨cid, named, rfl⟩, fun answer => ?_⟩
    rcases answer with e | _ | id
    · exact ⟨ready, ready.shut⟩
    · exact ⟨ready, ready⟩
    · have still : Ready none { p with cached := some id } :=
        ⟨ready.seen, ready.held, ready.inserted, ready.opened, ready.closed, ready.answered⟩
      exact ⟨still, still, rfl⟩
  · split
    · exact sends_pure fun p known => known.1
    · exact sends_throw fun p known => known.2

theorem sends_findCached (cached : Option Nat) (named : clientId.isSome) :
    Sends permits request roomId (LookedUp cached) (findCached roomId cached) (Then Searched) := by
  cases cached with
  | none => exact sends_pure fun p ready => ready
  | some id =>
      refine sends_bind (Then fun found => Searched (found.filter fun m => m.chatroomId = roomId))
        ?_ (fun found => sends_pure fun p known => known) fun _ _ shut => shut
      refine sends_call ruled fun p known => ⟨⟨named, known.2⟩, fun answer => ?_⟩
      rcases answer with e | _ | m
      · exact known.1.shut
      · exact known.1
      · by_cases here : m.chatroomId = roomId
        · have kept : (some m).filter (fun m => m.chatroomId = roomId) = some m := by simp [here]
          simp only [Progress.after, here, ↓reduceIte, Then, kept]
          exact known.1.found
        · have dropped : (some m).filter (fun m => m.chatroomId = roomId) = none := by simp [here]
          simp only [Progress.after, here, ↓reduceIte, Then, dropped]
          exact known.1

theorem sends_seen :
    Sends permits request roomId (Ready none) (seen roomId clientId) (Then Searched) := by
  cases clientId with
  | none => exact sends_pure fun p ready => ready
  | some cid =>
      refine sends_bind (Then LookedUp) (sends_lookup ruled rfl) (fun cached => ?_)
        fun _ _ shut => shut
      refine sends_bind (Then Searched) (sends_findCached ruled cached rfl) (fun row => ?_)
        fun _ _ shut => shut
      cases row with
      | some m => exact sends_pure fun p known => known
      | none => exact sends_findByClientMessageId ruled rfl

theorem sends_next :
    Sends permits request roomId (Ready none)
      (RedisSequenceCounter.next roomId (call (.maxSequence roomId)))
      (Then fun seq => Ready (some (roomId, seq))) := by
  refine sends_tryCatch (Then fun seq => Ready (some (roomId, seq))) ?_ (fun _ _ known => known)
    fun e => ?_
  · refine sends_bind (Then fun highest p => Ready none p ∧ p.highest = some (roomId, highest)) ?_
      (fun highest => ?_) fun _ _ shut => shut
    · refine sends_call ruled fun p ready => ⟨trivial, fun answer => ?_⟩
      cases answer with
      | error e => exact ready.shut
      | ok n =>
          exact ⟨⟨ready.seen, ready.held, ready.inserted, ready.opened, ready.closed,
            ready.answered⟩, rfl⟩
    refine sends_bind (fun _ => Ready none) ?_ (fun seeded => ?_) fun _ _ ready => ready.shut
    · exact sends_call ruled fun p known => ⟨.inl ⟨rfl, known.2⟩, fun _ => known.1⟩
    refine sends_bind (Then fun seq => Ready (some (roomId, seq))) ?_ (fun seq => ?_)
      fun _ _ shut => shut
    · refine sends_call ruled fun p ready =>
        ⟨⟨rfl, ready.held, ready.opened, ready.answered⟩, fun answer => ?_⟩
      cases answer with
      | error e => exact ready.shut
      | ok seq =>
          exact ⟨ready.seen, rfl, ready.inserted, ready.opened, ready.closed, ready.answered⟩
    · split
      · exact sends_pure fun p issued => issued
      · exact sends_after ruled (uses_op (by trivial)) (fun _ => sends_pure fun p issued => issued)
          fun _ _ ready => ready.shut
  · split
    · exact sends_throw fun _ shut => shut
    · exact sends_throw fun _ shut => shut

theorem sends_persist {draft : Draft} (room : draft.chatroomId = roomId)
    (named : draft.clientMessageId = clientId) (senderName : JavaString) :
    Sends permits request roomId (Ready (some (roomId, draft.sequenceNumber)))
      (persist draft senderName) (Then Wrote) := by
  refine sends_bind (fun saved p => match saved with
    | .ok saved => Inserted saved p
    | .error _ => Shut p) ?_ (fun saved => ?_) fun _ _ shut => shut
  · refine sends_tryCatch InTransaction ?_ (fun _ _ known => known) fun e => ?_
    · refine sends_bind InTransaction ?_ (fun saved => ?_) fun _ _ _ => trivial
      · refine sends_call ruled fun p issued => ⟨⟨room, named, issued.held, issued.seen,
          issued.inserted, issued.opened, issued.closed, issued.answered⟩, fun answer => ?_⟩
        cases answer with
        | error e => trivial
        | ok saved => exact ⟨rfl, issued.seen, issued.closed, issued.answered⟩
      · refine sends_after ruled (uses_op (by trivial)) (fun _ => ?_) fun _ _ _ => trivial
        exact sends_after ruled (uses_op (by trivial)) (fun _ => sends_pure fun p known => known)
          fun _ _ _ => trivial
    · refine sends_bind (fun _ => Shut) ?_ (fun _ => sends_throw fun _ shut => shut)
        fun _ _ shut => shut
      exact sends_call ruled fun _ _ => ⟨trivial, fun _ => ⟨rfl, rfl⟩⟩
  · refine sends_bind (Then fun _ => Wrote saved) ?_ (fun _ => sends_pure fun p known => known)
      fun _ _ shut => shut
    refine sends_call ruled fun p known =>
      ⟨⟨⟨saved, known.inserted⟩, known.seen, known.closed, known.answered⟩, fun answer => ?_⟩
    cases answer with
    | error e => exact ⟨rfl, rfl⟩
    | ok done => exact ⟨known.inserted, rfl, rfl⟩

theorem sends_findExisting :
    Sends permits request roomId Shut (findExisting roomId clientId)
      (Then fun found p => Shut p ∧ ∀ m, found = some m → Has m p) := by
  cases clientId with
  | none => exact sends_pure fun _ shut => ⟨shut, fun m found => by cases found⟩
  | some cid =>
      refine sends_call ruled fun p shut => ⟨⟨rfl, rfl⟩, fun answer => ?_⟩
      rcases answer with e | _ | m
      · exact shut
      · exact ⟨shut, fun m found => by cases found⟩
      · exact ⟨shut, fun m' found => ⟨.inl found, shut⟩⟩

theorem sends_absorb :
    Sends permits request roomId Shut (absorb roomId clientId) (Then Answers) := by
  refine sends_bind _ (sends_findExisting ruled) (fun found => ?_) fun _ _ shut => by exact shut
  cases found with
  | none => exact sends_throw fun _ known => known.1
  | some m => exact (sends_result ruled m true).weaken (fun _ known => known.2 m rfl) fun _ _ => id

theorem sends_mark (m : Message) :
    Sends permits request roomId (Wrote m) (mark roomId m.id clientId) fun _ => Wrote m := by
  cases clientId with
  | none => exact sends_pure fun _ known => known
  | some cid =>
      refine sends_bind (fun _ => Wrote m) ?_ (fun _ => sends_pure fun _ known => known)
        fun _ _ known => known
      refine sends_tryCatch (fun _ => Wrote m) ?_ (fun _ _ known => known) fun e => ?_
      · exact sends_call ruled fun p known =>
          ⟨.inr ⟨cid, m, rfl, rfl, known.1, rfl⟩, fun _ => known⟩
      · split
        · exact sends_pure fun _ known => known
        · exact sends_throw fun _ known => known

theorem sends_store (senderId : UUID) {draft : Draft} (room : draft.chatroomId = roomId)
    (named : draft.clientMessageId = clientId) :
    Sends permits request roomId (Ready none) (store senderId roomId draft) (Then Answers) := by
  refine sends_after ruled (requireUser_quiet senderId) (fun sender => ?_) fun _ _ ready => ready.shut
  refine sends_bind _ (sends_next ruled) (fun seq => ?_) fun _ _ shut => by exact shut
  refine sends_bind (Then fun saved => Then Wrote saved) (sends_settle ?_) (fun saved => ?_)
    fun _ _ shut => shut
  · have here : (draft.withSequence seq).chatroomId = roomId := room
    exact (sends_persist ruled here named sender).weaken (fun _ issued => issued)
      fun _ _ known => known
  · split
    · exact (named ▸ sends_absorb ruled).weaken (fun _ shut => shut) fun _ _ => id
    · exact sends_throw fun _ shut => shut
    next saved =>
      refine sends_bind (fun _ => Wrote saved) (named ▸ sends_mark ruled saved) (fun _ => ?_)
        fun _ _ known => known.2
      refine sends_after ruled (ensureMembership_quiet roomId senderId) (fun _ => ?_)
        fun _ _ known => known.2
      exact (sends_result ruled saved false).weaken (fun _ known => ⟨.inr known.1, known.2⟩)
        fun _ _ => id

theorem sends_sendDraft (senderId : UUID) {draft : Draft} (room : draft.chatroomId = roomId)
    (named : draft.clientMessageId = clientId) :
    Sends permits request roomId (Ready none) (sendDraft senderId roomId draft) (Then Answers) := by
  refine sends_after ruled (assertAccess_quiet roomId senderId) (fun _ => ?_)
    fun _ _ ready => ready.shut
  refine sends_after ruled (tryAcquire_quiet _) (fun allowed => ?_) fun _ _ ready => ready.shut
  split
  · refine sends_bind (Then Searched) (named ▸ sends_seen ruled) (fun earlier => ?_)
      fun _ _ shut => shut
    cases earlier with
    | none => exact sends_store ruled senderId room named
    | some m => exact sends_result ruled m true
  · exact sends_throw fun _ ready => ready.shut

theorem sends_send (senderId : UUID) {req : SendMessageRequest}
    (named : req.clientMessageId = clientId) :
    Sends permits request roomId (Ready none) (send senderId roomId req) (Then Answers) := by
  unfold send
  split
  · exact sends_sendDraft ruled senderId (by simp) (by simp [named])
  · exact sends_after ruled (uses_op (by trivial))
      (fun now => sends_sendDraft ruled senderId (by simp) (by simp [named]))
      fun _ _ ready => ready.shut

theorem sends_sendFile (senderId : UUID) {req : SendFileMessageRequest}
    (named : req.clientMessageId = clientId) :
    Sends permits request roomId (Ready none) (sendFile senderId roomId req) (Then Answers) := by
  unfold sendFile
  split
  · exact sends_throw fun _ ready => ready.shut
  · exact sends_sendDraft ruled senderId (by simp) (by simp [named])

omit ruled in
/-- What a send may be answered with. -/
def Backed (response : Response) (p : Progress) : Prop :=
  Shut p ∧ ∀ id seq, response.success = some (id, seq) →
    ∃ m, m.id = id ∧ m.sequenceNumber = seq ∧ (p.seen = some m ∨ p.committed = some m)

/-- A send ends with its answer. -/
theorem sends_respond (response : Response) :
    Sends permits request roomId (Backed response) (call (.respond response)) fun _ _ => True :=
  sends_call ruled fun _ backed => ⟨⟨backed.1.1, backed.1.2, backed.2⟩, fun _ => trivial⟩

omit ruled in
theorem ready_nil (roomId : UUID) (log : Log Op Op.Res) (start : log = []) :
    Ready none (progress roomId log) := by
  subst start
  exact ⟨rfl, rfl, rfl, rfl, rfl, rfl⟩

omit ruled in
theorem Answers.backed {r : SendResult} {response : Response} {p : Progress}
    (answers : Answers r p) (success : response.success = some (r.messageId, r.sequenceNumber)) :
    Backed response p := by
  obtain ⟨m, isId, isSeq, has, shut⟩ := answers
  refine ⟨shut, fun id seq isSuccess => ⟨m, ?_⟩⟩
  obtain ⟨rfl, rfl⟩ := Prod.mk.inj (Option.some.inj (success.symm.trans isSuccess))
  exact ⟨isId, isSeq, has⟩

omit ruled in
theorem Shut.backed {response : Response} {p : Progress} (shut : Shut p)
    (failure : response.success = none) : Backed response p := by
  refine ⟨shut, fun id seq isSuccess => ?_⟩
  rw [failure] at isSuccess
  cases isSuccess

end Sends

theorem attempt_follows (userId : UUID) (frame : RoomSend) :
    Follows service permits law (.attempt userId frame) (fun log => log = [])
      (Call.program (.attempt userId frame)) fun _ _ => True := by
  have ruled : ∀ log, law (.attempt userId frame) log =
      sendLaw frame.chatroomId frame.clientMessageId (progress frame.chatroomId log) :=
    fun _ => rfl
  have body : Sends permits (.attempt userId frame) frame.chatroomId (Ready none)
      (attempt userId frame) (Then fun a => Backed (.ack a)) := by
    refine sends_tryCatch _ (sends_bind (Then Answers) (sends_send ruled userId rfl)
      (fun r => sends_pure fun p answers => ?_) fun _ _ shut => ?_) (fun _ _ known => known)
      fun e => ?_
    · exact answers.backed rfl
    · exact shut
    · split
      · exact sends_pure fun p shut => shut.backed rfl
      · exact sends_pure fun p shut => shut.backed rfl
  have whole : Sends permits (.attempt userId frame) frame.chatroomId (Ready none)
      (Call.program (.attempt userId frame)) fun _ _ => True :=
    sends_bind _ body (fun a => sends_respond ruled (.ack a)) fun _ _ _ => trivial
  exact whole.weaken (ready_nil _) fun _ _ => id

/-- A send that is answered with what its method returns. -/
theorem post_follows {roomId : UUID} {clientId : Option UUID} {body : Prog SendResult}
    (ruled : ∀ log, law request log = sendLaw roomId clientId (progress roomId log))
    (sends : Sends permits request roomId (Ready none) body (Then Answers)) :
    Follows service permits law request (fun log => log = [])
      (do let result ← settle body; call (.respond (.sent result))) fun _ _ => True := by
  have settled : Sends permits request roomId (Ready none) (settle body)
      (Then fun result => Then Answers result) := sends_settle sends
  have whole : Sends permits request roomId (Ready none)
      (do let result ← settle body; call (.respond (.sent result))) fun _ _ => True := by
    refine sends_bind _ settled (fun result => ?_) fun _ _ _ => trivial
    refine (sends_respond ruled (.sent result)).weaken (fun log known => ?_) fun _ _ => id
    cases result with
    | error e => exact Shut.backed known rfl
    | ok r => exact Answers.backed known rfl
  exact whole.weaken (ready_nil _) fun _ _ => id

/-- Requests that follow their law whatever they have done before. -/
theorem follows_of_uses {p : Prog Unit} (uses : Uses (fun op => ∀ log, law request log op) p.run) :
    Follows service permits law request (fun log => log = []) p fun _ _ => True := by
  have held : Follows service permits law request (fun _ => True) p fun _ _ => True :=
    follows_uses (fun op lawful log _ => ⟨lawful log, fun _ => trivial⟩) uses
  exact held.weaken (fun _ _ => trivial) fun _ _ => id

theorem summaries_uses {allowed : Op → Prop} (ids : List UUID) (fine : allowed (.findUsers ids)) :
    Uses allowed (summaries ids).run := by
  unfold summaries
  split
  · exact uses_throwing_pure
  · exact uses_op fine

theorem deltas_uses (userId user : UUID) (maxPerRoom : Nat) (rooms : List (UUID × Option Int))
    (perRoom : Option Int) (cursors : List (UUID × Nat)) :
    Uses (fun op => ∀ log, law (.syncRooms user rooms perRoom) log op)
      (deltas userId maxPerRoom cursors).run := by
  induction cursors with
  | nil => exact uses_throwing_pure
  | cons cursor rest ih =>
      refine uses_throwing_bind ?_ fun delta => uses_throwing_bind ih fun _ => uses_throwing_pure
      refine uses_throwing_bind ?_ fun allowed => ?_
      · refine uses_throwing_bind (uses_op fun _ => trivial) fun found => ?_
        cases found with
        | none => exact uses_throwing_pure
        | some room =>
            dsimp only
            split
            · exact uses_op fun _ => trivial
            · exact uses_throwing_pure
      · split
        · refine uses_throwing_bind (uses_op fun _ => trivial) fun found => ?_
          refine uses_throwing_bind (summaries_uses _ fun _ => trivial) fun people => ?_
          dsimp only
          split
          · exact uses_throwing_bind (uses_op fun _ => trivial) fun _ => uses_throwing_pure
          · exact uses_throwing_bind uses_throwing_pure fun _ => uses_throwing_pure
        · exact uses_throwing_pure

theorem syncRooms_uses (userId : UUID) (rooms : List (UUID × Option Int))
    (maxPerRoom : Option Int) :
    Uses (fun op => ∀ log, law (.syncRooms userId rooms maxPerRoom) log op)
      (Call.program (.syncRooms userId rooms maxPerRoom)).run := by
  refine uses_throwing_bind (uses_settle ?_) fun result => uses_op fun _ => ?_
  · unfold syncRooms
    split
    · exact uses_throw
    split
    · exact uses_throw
    · exact deltas_uses ..
  · rfl

theorem delete_uses (messageId : Nat) (userId : UUID) :
    Uses (fun op => ∀ log, law (.delete messageId userId) log op)
      (Call.program (.delete messageId userId)).run := by
  refine uses_throwing_bind (uses_settle ?_) fun result => uses_op fun _ => rfl
  refine uses_throwing_bind ?_ fun m => uses_op fun _ => trivial
  refine uses_throwing_bind (uses_throwing_bind (uses_op fun _ => trivial) fun found => ?_) fun m => ?_
  · cases found with
    | none => exact uses_throw
    | some m => exact uses_throwing_pure
  · split
    · exact uses_throw
    · exact uses_throwing_pure

theorem service_follows : service.Follows permits law := by
  intro request
  cases request with
  | attempt userId frame => exact attempt_follows userId frame
  | post userId roomId req => exact post_follows (fun _ => rfl) (sends_send (fun _ => rfl) userId rfl)
  | postFile userId roomId req =>
      exact post_follows (fun _ => rfl) (sends_sendFile (fun _ => rfl) userId rfl)
  | syncRooms userId rooms maxPerRoom => exact follows_of_uses (syncRooms_uses userId rooms maxPerRoom)
  | delete messageId userId => exact follows_of_uses (delete_uses messageId userId)
  | sweepExpired =>
      refine follows_of_uses (uses_throwing_bind (uses_op fun _ => ?_) fun now => uses_op fun _ => ?_)
      · trivial
      · trivial
  | evict key => exact follows_of_uses (uses_op fun _ => rfl)
  | crash thread => exact follows_of_uses (uses_op fun _ => rfl)

end Rooms
