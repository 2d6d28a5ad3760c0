import CipherChat.Rooms.Sessions

/-!
Every request to a room knows what it has to when it performs an operation.  A transaction reads
first: until its session is flushed it has written nothing.
-/

namespace Chatrooms

open Async ReadCommitted
open Rooms (UUID JavaString JavaError Message Draft SendResult)

variable {permits : History → Event → Prop} {law : Law permits} {t : Nat} {request : Call}
  {α β : Type}

section Operations

/-- What is known of the server whatever others do, and while the transaction writes nothing. -/
def Firm (t : Nat) (P : Server → Prop) : Prop :=
  ∀ s s', Stays t s s' → P s → P s'

theorem firm_idle : Firm t (Server.Idle · t) :=
  fun _ _ stays idle => stays.idle idle

theorem firm_open {roomId : UUID} : Firm t (Server.Open · roomId) :=
  fun _ _ stays isOpen => stays.isOpen isOpen

theorem Firm.and {P Q : Server → Prop} (first : Firm t P) (second : Firm t Q) :
    Firm t fun s => P s ∧ Q s :=
  fun s s' stays known => ⟨first s s' stays known.1, second s s' stays known.2⟩

theorem Firm.stable {P : Server → Prop} (firm : Firm t P) :
    (contract law).Stable t fun j => P j.state :=
  fun _ _ rely => firm _ _ (Rely.toStays rely)

/-- Operations that write no row. -/
def Quiet : Op → Prop
  | .findRoomByName _ | .findRoom _ | .findMember .. | .generateId | .markReadUpTo .. | .publish _
  | .respond _ => True
  | .backend op =>
      match op with
      | .save _ | .advance .. | .commit | .rollback | .delete _ | .deleteExpired _ | .crash _ => False
      | _ => True
  | _ => False

theorem Quiet.justified {op : Op} (quiet : Quiet op) (j : History) : Justified t j op := by
  cases op with
  | backend op => cases op <;> first | exact quiet.elim | rfl
  | _ => first | exact quiet.elim | trivial

theorem Quiet.stays {op : Op} (quiet : Quiet op) {s s' : Server} {result : op.Res}
    (outcome : Outcome t s op result s') : Stays t s s' := by
  cases outcome with
  | same => exact .refl t s
  | messaged _ _ _ same =>
      exact ⟨fun _ _ => .rfl, fun _ _ => .rfl, fun _ _ => .rfl, fun _ => by rw [same], fun _ _ => id⟩
  | advanced advances =>
      cases op with
      | backend op => cases op <;> first | exact quiet.elim | cases advances
      | _ => first | exact quiet.elim | cases advances
  | foreign _ isForeign =>
      cases op with
      | backend op => cases op <;> first | exact quiet.elim | cases isForeign
      | _ => cases isForeign
  | closed ends =>
      cases op with
      | backend op => cases op <;> first | exact quiet.elim | cases ends
      | _ => cases ends
  | _ => exact quiet.elim

theorem performs_stays {j : History} {op : Op} {result : op.Res} {s' : Server} (quiet : Quiet op)
    (performs : j.Performs service permits ⟨t, request, op, result, j.state, s'⟩) :
    Stays t j.state s' :=
  quiet.stays (performs_outcome performs)

theorem yields_quiet {P : Server → Prop} (firm : Firm t P) {p : Prog α} (uses : Uses Quiet p.run) :
    (contract law).Yields t request (fun j => P j.state) p fun _ j => P j.state :=
  Contract.yields_uses firm.stable (fun _ quiet j _ _ known =>
    ⟨quiet.justified j, fun _ _ performs => firm _ _ (performs_stays quiet performs) known⟩) uses

/-- An operation that writes nothing, and what it answers. -/
theorem yields_look {P : Server → Prop} (firm : Firm t P) {op : Op} (quiet : Quiet op)
    (info : op.Val → Server → Prop)
    (look : ∀ j a value s', Sound j → P j.state → effect t j.state op a = some (.ok value, s') →
      info value s') :
    (contract law).Yields t request (fun j => P j.state) (call op)
      fun value j => P j.state ∧ info value j.state := by
  refine Contract.yields_call firm.stable fun j inv _ known =>
    ⟨quiet.justified j, fun value s' performs => ?_⟩
  have exec : Exec t j.state op (.ok value) s' := performs.exec
  obtain ⟨a, effected⟩ := exec.effect_of_ok
  exact ⟨firm _ _ (performs_stays quiet performs) known, look j a value s' inv.1 known effected⟩

theorem yields_any {op : Op} (justified : ∀ j, j.calls t = some request → Justified t j op) :
    (contract law).Yields t request (fun _ => True) (call op) fun _ _ => True :=
  Contract.yields_exec (fun _ _ _ _ => trivial) fun j _ running _ =>
    ⟨justified j running, fun _ _ _ => trivial⟩

end Operations

section Sessions

/-- What a session has read it still has, and it has not queued anything. -/
structure Session.Grows (session session' : Session) : Prop where
  queue : session'.queue = session.queue
  managed : ∀ roomId userId, (session.managed roomId userId).isSome →
    (session'.managed roomId userId).isSome

theorem Session.Grows.refl (session : Session) : session.Grows session :=
  ⟨rfl, fun _ _ => id⟩

variable {C : Contract service permits} {session : Session} {pre : History → Prop}

theorem yields_inSession {p : InSession α} {f : α → InSession β} {fact : α × Session → Prop}
    {middle : α × Session → History → Prop} {post : β × Session → History → Prop}
    (first : C.Yields t request pre (p.run session) fun r j => fact r ∧ middle r j)
    (rest : ∀ value session', fact (value, session') →
      C.Yields t request (middle (value, session')) ((f value).run session') post) :
    C.Yields t request pre ((p >>= f).run session) post :=
  Contract.yields_bind _ first fun r => Contract.yields_assuming (rest r.1 r.2)

theorem yields_lifted {p : Prog α} {post : α → History → Prop}
    (yields : C.Yields t request pre p post) :
    C.Yields t request pre ((monadLift p : InSession α).run session)
      fun r j => r.2 = session ∧ post r.1 j :=
  Contract.yields_bind post yields fun _ => Contract.yields_pure fun _ known => ⟨rfl, known⟩

theorem managed_cons {m : ChatroomMember} {roomId userId : UUID} (isKey : m.key = inRoom roomId userId) :
    ({ session with entities := m :: session.entities }.managed roomId userId).isSome := by
  obtain ⟨isRoom, isUser⟩ := key_eq.mp isKey
  simp [Session.managed, isRoom, isUser]

theorem grows_cons (m : ChatroomMember) :
    session.Grows { session with entities := m :: session.entities } := by
  refine ⟨rfl, fun roomId userId known => ?_⟩
  rw [Session.managed, List.find?_cons]
  split
  · rfl
  · exact known

theorem yields_get :
    C.Yields t request pre ((get : InSession Session).run session)
      fun r j => r = (session, session) ∧ pre j :=
  Contract.yields_pure fun _ known => ⟨rfl, known⟩

theorem yields_enqueue (statement : Statement) :
    C.Yields t request pre ((enqueue statement).run session)
      fun r j => r.2 = { session with queue := session.queue ++ [statement] } ∧ pre j :=
  Contract.yields_pure fun _ known => ⟨rfl, known⟩

theorem yields_thrown {e : JavaError} {post : α × Session → History → Prop} :
    C.Yields t request pre ((throw e : InSession α).run session) post :=
  Contract.yields_throw

variable {P : Server → Prop} (firm : Firm t P) (idle : ∀ s, P s → s.Idle t)
include firm idle

theorem yields_look_member (roomId userId : UUID) :
    (contract law).Yields t request (fun j => P j.state) (call (.findMember roomId userId))
      fun row j => P j.state ∧ ∀ m, row = some m → m.key = inRoom roomId userId ∧
        j.state.Open roomId := by
  have quiet : Quiet (.findMember roomId userId) := trivial
  refine yields_look firm quiet
    (fun row s => ∀ m, row = some m → m.key = inRoom roomId userId ∧ s.Open roomId)
    fun j a row s' sound known effected m isRow => ?_
  obtain ⟨isValue, rfl⟩ := Prod.mk.inj (Option.some.inj effected)
  obtain rfl := Except.ok.inj isValue
  have isKey : m.key = inRoom roomId userId := Database.key_of_view isRow
  have isOpen := sound.open_of_view (idle _ known).rooms isRow
  rw [(key_eq.mp isKey).1] at isOpen
  exact ⟨isKey, isOpen⟩

theorem yields_findMember (roomId userId : UUID) :
    (contract law).Yields t request (fun j => P j.state) ((findMember roomId userId).run session)
      fun r j => (session.Grows r.2 ∧
        (∀ m, r.1 = some m → (r.2.managed roomId userId).isSome) ∧ (r.1 = none → r.2 = session)) ∧
          P j.state := by
  refine Contract.yields_bind _ (yields_lifted (yields_look_member firm idle roomId userId)) fun r => ?_
  obtain ⟨row, session'⟩ := r
  refine Contract.yields_assuming fun same => ?_
  obtain rfl : session' = session := same
  refine Contract.yields_pure fun j known => ⟨?_, known.1⟩
  change session'.Grows (session'.found roomId userId row).2 ∧
    (∀ m, (session'.found roomId userId row).1 = some m →
      ((session'.found roomId userId row).2.managed roomId userId).isSome) ∧
    ((session'.found roomId userId row).1 = none → (session'.found roomId userId row).2 = session')
  cases row with
  | none => exact ⟨.refl _, nofun, fun _ => rfl⟩
  | some row =>
      have isKey := (known.2 row rfl).1
      cases isManaged : session'.managed roomId userId with
      | some entity =>
          simp only [Session.found, isManaged]
          exact ⟨.refl _, fun _ _ => rfl, nofun⟩
      | none =>
          simp only [Session.found, isManaged]
          exact ⟨grows_cons row, fun _ _ => managed_cons isKey, nofun⟩

theorem yields_assertAccess (roomId userId : UUID) :
    (contract law).Yields t request (fun j => P j.state) ((assertAccess roomId userId).run session)
      fun r j => (session.Grows r.2 ∧
        (r.1.privateRoom = true → (r.2.managed roomId userId).isSome)) ∧
          P j.state ∧ j.state.rooms.committed.get roomId.toNat = some r.1 := by
  have looks : (contract law).Yields t request (fun j => P j.state) (call (.findRoom roomId))
      fun row j => P j.state ∧ ∀ room, row = some room →
        j.state.rooms.committed.get roomId.toNat = some room := by
    have quiet : Quiet (.findRoom roomId) := trivial
    refine yields_look firm quiet
      (fun row s => ∀ room, row = some room → s.rooms.committed.get roomId.toNat = some room)
      fun j a row s' _ known effected room isRow => ?_
    obtain ⟨isValue, rfl⟩ := Prod.mk.inj (Option.some.inj effected)
    obtain rfl := Except.ok.inj isValue
    rw [← (idle _ known).rooms.view]
    exact isRow
  refine yields_inSession (yields_lifted looks) fun row session' same => ?_
  obtain rfl : session' = session := same
  cases row with
  | none => exact yields_thrown
  | some room =>
      have firm' : Firm t fun s => P s ∧ s.rooms.committed.get roomId.toNat = some room :=
        firm.and fun s s' stays here => stays.opened _ room here
      have idle' : ∀ s, (P s ∧ s.rooms.committed.get roomId.toNat = some room) → s.Idle t :=
        fun s known => idle s known.1
      have known (j : History) (start : P j.state ∧ ∀ room', some room = some room' →
          j.state.rooms.committed.get roomId.toNat = some room') :
          P j.state ∧ j.state.rooms.committed.get roomId.toNat = some room :=
        ⟨start.1, start.2 room rfl⟩
      dsimp only
      cases isPrivate : room.privateRoom with
      | false =>
          exact Contract.yields_pure fun j start =>
            ⟨⟨.refl _, fun hidden => nomatch isPrivate.symm.trans hidden⟩, known j start⟩
      | true =>
          refine yields_inSession ((yields_findMember firm' idle' roomId userId).weaken known
            fun _ _ => id) fun found session₁ ⟨grows, recalls, _⟩ => ?_
          cases found with
          | none => exact yields_thrown
          | some m =>
              exact Contract.yields_pure fun j start => ⟨⟨grows, fun _ => recalls m rfl⟩, start⟩

theorem yields_roleOf (roomId userId : UUID) :
    (contract law).Yields t request (fun j => P j.state) ((roleOf roomId userId).run session)
      fun r j => session.Grows r.2 ∧ P j.state :=
  yields_inSession (yields_findMember firm idle roomId userId) fun _ _ known =>
    Contract.yields_pure fun _ start => ⟨known.1, start⟩

theorem yields_requireRole (roomId userId : UUID) (allowed : List Role) :
    (contract law).Yields t request (fun j => P j.state) ((requireRole roomId userId allowed).run session)
      fun r j => session.Grows r.2 ∧ P j.state := by
  refine yields_inSession (yields_roleOf firm idle roomId userId) fun role session' grows => ?_
  split
  · exact Contract.yields_pure fun _ start => ⟨grows, start⟩
  · exact yields_thrown

/-- What saving an entity puts into the queue. -/
def Queues (session : Session) (m : ChatroomMember) (session' : Session) : Prop :=
  session'.queue = session.queue ∨ session'.queue = session.queue ++ [.updateMember m] ∨
    session'.queue = session.queue ++ [.insertMember m] ∧ session.managed m.chatroomId m.userId = none

omit firm idle in
theorem yields_copy (m entity : ChatroomMember) {post : History → Prop} :
    (contract law).Yields t request post ((copy m entity).run session)
      fun r j => (r.2.queue = session.queue ∨ r.2.queue = session.queue ++ [.updateMember m]) ∧ post j := by
  unfold copy
  split
  · exact Contract.yields_pure fun _ known => ⟨.inl rfl, known⟩
  · exact Contract.yields_pure fun _ known => ⟨.inr rfl, known⟩

theorem yields_save (m : ChatroomMember) :
    (contract law).Yields t request (fun j => P j.state) ((save m).run session)
      fun r j => Queues session m r.2 ∧ P j.state ∧ (session.managed m.chatroomId m.userId = none →
        r.2.queue = session.queue ++ [.insertMember m] ∨ j.state.Open m.chatroomId) := by
  refine yields_inSession yields_get fun got session' same => ?_
  obtain ⟨isGot, isSession⟩ := Prod.mk.inj same
  subst isGot isSession
  cases isManaged : session'.managed m.chatroomId m.userId with
  | some entity =>
      exact (yields_copy m entity).weaken (fun _ => id) fun r j known =>
        ⟨known.1.imp_right .inl, known.2, nofun⟩
  | none =>
      refine yields_inSession (yields_lifted (yields_look_member firm idle m.chatroomId m.userId))
        fun row session₁ same => ?_
      obtain rfl : session₁ = session' := same
      cases row with
      | none =>
          exact Contract.yields_pure fun j known =>
            ⟨.inr (.inr ⟨rfl, isManaged⟩), known.1, fun _ => .inl rfl⟩
      | some row =>
          exact (yields_copy m row).weaken (fun _ => id) fun r j known =>
            ⟨known.1.imp_right .inl, known.2.1, fun _ => .inr (known.2.2 row rfl).2⟩

theorem yields_ensureMembership (roomId userId : UUID) :
    (contract law).Yields t request (fun j => P j.state) ((ensureMembership roomId userId).run session)
      fun r j => (∃ session', session.Grows session' ∧ Queues session' ⟨roomId, userId, .member⟩ r.2) ∧
        P j.state := by
  refine yields_inSession (yields_findMember firm idle roomId userId) fun found session' known => ?_
  cases found with
  | some m => exact Contract.yields_pure fun j start => ⟨⟨session', known.1, .inl rfl⟩, start⟩
  | none =>
      exact (yields_save firm idle ⟨roomId, userId, .member⟩).weaken (fun _ => id) fun r j ends =>
        ⟨⟨session', known.1, ends.1⟩, ends.2.1⟩

end Sessions

section Transactions

/-- A transfer that was asked for has performed both its changes. -/
def Finished (t : Nat) (request : Call) (j : History) : Prop :=
  ∀ roomId actorId targetId, request = .changeRole roomId actorId targetId .owner →
    handedOver targetId (j.log t) = true

/-- The transaction may commit. -/
def Closing (t : Nat) (request : Call) (j : History) : Prop :=
  Founding t j ∧ Finished t request j

theorem stable_closing : (contract law).Stable t (Closing t request) := by
  rintro j j' rely ⟨founding, finished⟩
  refine ⟨fun k _ isHeld => ?_, fun roomId actorId targetId isRequest => ?_⟩
  · exact (Stays.members (Rely.toStays rely) _ _).mpr
      (founding k _ ((Stays.rooms (Rely.toStays rely) _ _).mp isHeld))
  · rw [Rely.log rely]
    exact finished roomId actorId targetId isRequest

/-- Who opens no room and transfers none may commit. -/
theorem closing_of_unwritten {j : History}
    (plain : ∀ roomId actorId targetId, request ≠ .changeRole roomId actorId targetId .owner)
    (unwritten : j.state.rooms.Unwritten t) : Closing t request j :=
  ⟨fun k _ isHeld => absurd isHeld (unwritten k _),
    fun roomId actorId targetId isRequest => absurd isRequest (plain roomId actorId targetId)⟩

/-- Facts that no step makes false. -/
def Lasts (K : Server → Prop) : Prop :=
  ∀ (t : Nat) (j : History) (op : Op) (result : op.Res) (s' : Server), Sound j →
    Outcome t j.state op result s' → K j.state → K s'

theorem lasts_open {roomId : UUID} : Lasts (Server.Open · roomId) :=
  fun _ _ _ _ _ sound outcome isOpen => sound.stays_open outcome isOpen

theorem yields_commit {K : Server → Prop} (firm : Firm t K) (lasts : Lasts K) :
    (contract law).Yields t request (fun j => Closing t request j ∧ K j.state)
      (call (.backend .commit)) fun _ j => j.state.Idle t ∧ K j.state := by
  refine Contract.yields_call
    (fun j j' rely known => ⟨stable_closing j j' rely known.1, firm _ _ (Rely.toStays rely) known.2⟩)
    fun j inv running ⟨⟨founding, finished⟩, known⟩ => ⟨⟨founding, ?_⟩, fun _ s' performs => ?_⟩
  · intro roomId actorId targetId running'
    exact finished roomId actorId targetId (Option.some.inj (running.symm.trans running'))
  · have outcome : Outcome t j.state (.backend .commit) (.ok ()) s' := performs_outcome performs
    exact ⟨outcome.idle rfl, lasts t j _ _ s' inv.1 outcome known⟩

theorem yields_transaction {K : Server → Prop} (firm : Firm t K) (lasts : Lasts K) {pre : History → Prop}
    {body : Prog α} (inside : (contract law).Yields t request pre body
      fun _ j => Closing t request j ∧ K j.state) :
    (contract law).Yields t request pre
      (transactional (call (.backend .rollback)) (call (.backend .commit)) body)
      fun _ j => j.state.Idle t ∧ K j.state :=
  Contract.yields_transactional inside (yields_any fun _ _ => rfl) fun _ => yields_commit firm lasts

theorem yields_inTransaction {K : Server → Prop} (firm : Firm t K) (lasts : Lasts K) {pre : History → Prop}
    {body : InSession α} (middle : α × Session → History → Prop)
    (inside : (contract law).Yields t request pre (body.run {}) middle)
    (flushes : ∀ value session,
      (contract law).Yields t request (middle (value, session)) (flush session.queue)
        fun _ j => Closing t request j ∧ K j.state) :
    (contract law).Yields t request pre (inTransaction body) fun _ j => j.state.Idle t ∧ K j.state := by
  refine yields_transaction firm lasts (Contract.yields_bind _ inside fun r => ?_)
  exact Contract.yields_bind _ (flushes r.1 r.2) fun _ => Contract.yields_pure fun _ => id

end Transactions

section Rooms

theorem lasts_true : Lasts fun _ => True :=
  fun _ _ _ _ _ _ _ _ => trivial

theorem firm_true : Firm t fun _ => True :=
  fun _ _ _ _ => trivial

theorem uses_op {allowed : Op → Prop} {op : Op} (fine : allowed op) : Uses allowed (call op).run :=
  uses_call fine

theorem messaging_quiet {p : Rooms.Prog α} (uses : Uses (fun op => Quiet (.backend op)) p.run) :
    Uses Quiet (messaging p).run :=
  uses_relabel uses

theorem requireUser_quiet {userId : UUID} : Uses Quiet (messaging (Rooms.requireUser userId)).run := by
  refine messaging_quiet (uses_throwing_bind (uses_call trivial) fun found => ?_)
  cases found with
  | none => exact uses_throw
  | some name => exact uses_throwing_pure

/-- A statement that inserts no room. -/
theorem yields_write {P : Server → Prop} (firm : Firm t P)
    (unwritten : ∀ s, P s → s.rooms.Unwritten t) {op : Op} (going : op.ends = false)
    (closed : ∀ room, op ≠ .insertRoom room)
    (justified : ∀ j, j.calls t = some request → P j.state → Justified t j op) :
    (contract law).Yields t request (fun j => P j.state) (call op)
      fun _ j => j.state.rooms.Unwritten t := by
  refine Contract.yields_call firm.stable fun j _ running known =>
    ⟨justified j running known, fun _ s' performs => ?_⟩
  have outcome : Outcome t j.state op _ s' := performs_outcome performs
  change s'.rooms.Unwritten t
  rw [outcome.rooms_eq going closed]
  exact unwritten _ known

/-- The statement of a session in which a member was let in. -/
theorem yields_admission {P : Server → Prop} (firm : Firm t P) (idle : ∀ s, P s → s.Idle t)
    {session session' : Session} {m : ChatroomMember} (isMember : m.role = .member)
    (opened : ∀ s, P s → s.Open m.chatroomId) (fresh : session.queue = [])
    (queues : Queues session m session')
    (entitled : session.managed m.chatroomId m.userId = none → ∀ s, P s → Entitled request s m) :
    (contract law).Yields t request (fun j => P j.state) (flush session'.queue)
      fun _ j => j.state.rooms.Unwritten t := by
  have unwritten (s : Server) (known : P s) : s.rooms.Unwritten t := (idle s known).rooms
  rw [Queues, fresh] at queues
  rcases queues with none | update | ⟨insert, absent⟩
  · rw [none]
    exact Contract.yields_pure fun j known => unwritten _ known
  · rw [update]
    exact Contract.yields_bind _ (yields_write firm unwritten rfl nofun
      fun j _ known => ⟨isMember, unwritten _ known⟩) fun _ => Contract.yields_pure fun _ => id
  · rw [insert]
    exact Contract.yields_bind _ (yields_write firm unwritten rfl nofun fun j running known =>
      .inr ⟨isMember, opened _ known, _, running, entitled absent _ known⟩)
        fun _ => Contract.yields_pure fun _ => id

/-- A room as it is in the table, while the transaction writes nothing. -/
def Entered (t : Nat) (room : Chatroom) (roomId : UUID) (s : Server) : Prop :=
  s.Idle t ∧ s.rooms.committed.get roomId.toNat = some room

theorem firm_entered {room : Chatroom} {roomId : UUID} : Firm t (Entered t room roomId) :=
  firm_idle.and fun _ _ stays here => stays.opened _ room here

theorem yields_entering (roomId userId : UUID) {session : Session} :
    (contract law).Yields t request (fun j => j.state.Idle t) ((assertAccess roomId userId).run session)
      fun r j => (session.Grows r.2 ∧
        (r.1.privateRoom = true → (r.2.managed roomId userId).isSome)) ∧ Entered t r.1 roomId j.state :=
  yields_assertAccess firm_idle (fun _ => id) roomId userId

section Member

variable (plain : ∀ roomId actorId targetId, request ≠ .changeRole roomId actorId targetId .owner)
include plain

/-- A transaction that queues nothing. -/
theorem yields_unqueued {body : InSession α}
    (inside : (contract law).Yields t request (fun j => j.state.Idle t) (body.run {})
      fun r j => r.2.queue = [] ∧ j.state.rooms.Unwritten t) :
    (contract law).Yields t request (fun j => j.state.Idle t) (inTransaction body)
      fun _ j => j.state.Idle t ∧ True := by
  refine yields_inTransaction firm_true lasts_true _ inside fun _ session => ?_
  refine Contract.yields_assuming fun fresh => ?_
  rw [show session.queue = [] from fresh]
  exact Contract.yields_pure fun _ unwritten => ⟨closing_of_unwritten plain unwritten, trivial⟩

theorem yields_join (roomId userId : UUID) :
    (contract law).Yields t request (fun j => j.state.Idle t) (join roomId userId)
      fun _ j => j.state.Idle t ∧ True := by
  let middle (r : JavaString × Session) (j : History) : Prop :=
    ∃ room session, Session.queue session = [] ∧
      (room.privateRoom = true → (session.managed roomId userId).isSome) ∧
      Queues session ⟨roomId, userId, .member⟩ r.2 ∧ Entered t room roomId j.state
  refine yields_inTransaction firm_true lasts_true middle ?_ fun name session' j start => ?_
  · refine yields_inSession (yields_entering roomId userId) fun room session ⟨grows, recalls⟩ => ?_
    refine yields_inSession (yields_ensureMembership firm_entered (fun _ => And.left) roomId userId)
      fun _ session' ⟨session₁, grows₁, queues⟩ => Contract.yields_pure fun j known => ?_
    exact ⟨room, session₁, grows₁.queue.trans grows.queue, fun hidden =>
      grows₁.managed _ _ (recalls hidden), queues, known⟩
  · obtain ⟨running, room, session, fresh, recalls, queues, entered⟩ := start
    refine (yields_admission firm_entered (fun _ => And.left) rfl (fun _ known => ⟨room, known.2⟩) fresh
      queues fun absent s known => ?_).weaken (fun _ => id)
        (fun _ _ unwritten => ⟨closing_of_unwritten plain unwritten, trivial⟩) j ⟨running, entered⟩
    -- the entity of a member of a private room is still there
    refine .inr (.inl ⟨room, known.2, Bool.eq_false_iff.mpr fun hidden => ?_⟩)
    have isSome := recalls hidden
    rw [absent] at isSome
    cases isSome

theorem yields_invite (roomId inviterId inviteeId : UUID)
    (isRequest : request = .invite roomId inviterId inviteeId) :
    (contract law).Yields t request (fun j => j.state.Idle t) (invite roomId inviterId inviteeId)
      fun _ j => j.state.Idle t ∧ True := by
  let middle (r : JavaString × Session) (j : History) : Prop :=
    ∃ room session, Session.queue session = [] ∧ Queues session ⟨roomId, inviteeId, .member⟩ r.2 ∧
      Entered t room roomId j.state
  refine yields_inTransaction firm_true lasts_true middle ?_ fun name session' j start => ?_
  · refine yields_inSession (yields_entering roomId inviterId) fun room session ⟨grows, _⟩ => ?_
    refine yields_inSession (yields_requireRole firm_entered (fun _ => And.left) _ _ _)
      fun _ session₁ grows₁ => ?_
    refine yields_inSession (yields_lifted (yields_quiet firm_entered requireUser_quiet))
      fun invitee session₂ same => ?_
    obtain rfl : session₂ = session₁ := same
    refine yields_inSession (yields_roleOf firm_entered (fun _ => And.left) _ _)
      fun role session₃ grows₃ => ?_
    cases role with
    | some role => exact yields_thrown
    | none =>
        refine Contract.yields_bind _ (yields_save firm_entered (fun _ => And.left) _) fun r =>
          Contract.yields_pure fun j known => ?_
        exact ⟨room, session₃, grows₃.queue.trans (grows₁.queue.trans grows.queue), known.1, known.2.1⟩
  · obtain ⟨running, room, session, fresh, queues, entered⟩ := start
    exact (yields_admission firm_entered (fun _ => And.left) rfl (fun _ known => ⟨room, known.2⟩) fresh
      queues fun _ _ _ => .inl ⟨inviterId, isRequest⟩).weaken (fun _ => id)
        (fun _ _ unwritten => ⟨closing_of_unwritten plain unwritten, trivial⟩) j ⟨running, entered⟩

theorem yields_leave (roomId userId : UUID) :
    (contract law).Yields t request (fun j => j.state.Idle t) (leave roomId userId)
      fun _ j => j.state.Idle t ∧ True := by
  have removes {room : Chatroom} : (contract law).Yields t request (fun j => Entered t room roomId j.state)
      (call (.removeMember roomId userId)) fun _ j => j.state.rooms.Unwritten t :=
    yields_write firm_entered (fun _ known => known.1.rooms) rfl nofun fun _ _ _ => trivial
  refine yields_unqueued plain ?_
  refine yields_inSession (yields_entering roomId userId) fun room session ⟨grows, _⟩ => ?_
  refine yields_inSession (yields_roleOf firm_entered (fun _ => And.left) _ _)
    fun role session₁ grows₁ => ?_
  have fresh : session₁.queue = [] := grows₁.queue.trans grows.queue
  have leaves : (contract law).Yields t request (fun j => Entered t room roomId j.state)
      ((monadLift (call (.removeMember roomId userId)) : InSession Unit).run session₁)
      fun r j => r.2.queue = [] ∧ j.state.rooms.Unwritten t :=
    (yields_lifted removes).weaken (fun _ => id) fun r j known => ⟨by rw [known.1]; exact fresh, known.2⟩
  match role with
  | none | some .owner => exact yields_thrown
  | some .admin | some .member => exact leaves

theorem yields_markRead (roomId userId : UUID) (upToSequence : Option Int)
    (isRequest : request = .markRead roomId userId upToSequence) :
    (contract law).Yields t request (fun j => j.state.Idle t) (markRead roomId userId upToSequence)
      fun _ j => j.state.Idle t ∧ True := by
  have advances (upTo : Int) {P : Server → Prop} (firm : Firm t P)
      (unwritten : ∀ s, P s → s.rooms.Unwritten t) :
      (contract law).Yields t request (fun j => P j.state) (call (.advance userId roomId upTo))
        fun _ j => j.state.rooms.Unwritten t :=
    yields_write firm unwritten rfl nofun fun _ running _ => ⟨upToSequence, isRequest ▸ running⟩
  have firmUnwritten : Firm t fun s => s.rooms.Unwritten t :=
    fun _ _ stays unwritten k version isHeld => unwritten k version ((stays.rooms k version).mp isHeld)
  refine yields_unqueued plain ?_
  refine yields_inSession (yields_entering roomId userId) fun room session ⟨grows, _⟩ => ?_
  have reads : Uses Quiet (upTo roomId upToSequence).run := by
    cases upToSequence with
    | some upToSequence => exact uses_throwing_pure
    | none => exact uses_throwing_bind (uses_op trivial) fun _ => uses_throwing_pure
  refine yields_inSession (yields_lifted (yields_quiet firm_entered reads)) fun upTo session₁ same₁ => ?_
  refine yields_inSession (yields_lifted (yields_quiet firm_entered (uses_op trivial)))
    fun marked session₂ same₂ => ?_
  refine yields_inSession (yields_lifted (advances upTo firm_entered fun _ known => known.1.rooms))
    fun _ session₃ same₃ => ?_
  refine yields_inSession (yields_lifted (yields_quiet firmUnwritten (uses_op trivial)))
    fun _ session₄ same₄ => Contract.yields_pure fun j known => ⟨?_, known⟩
  rw [show session₄ = session from same₄.trans (same₃.trans (same₂.trans same₁))]
  exact grows.queue

end Member

section Founding

variable {room : Chatroom} {name : JavaString} {privateRoom : Bool}
  (isRequest : request = .create room.createdBy name privateRoom)
include isRequest

/-- The transaction has inserted a room, and nothing else. -/
structure Opening (t : Nat) (room : Chatroom) (s : Server) : Prop where
  isHeld : s.rooms.held room.key = some (t, some room)
  only : ∀ k room', s.rooms.held k = some (t, some room') → room' = room

omit isRequest in
theorem firm_opening : Firm t (Opening t room) :=
  fun _ _ stays opening => ⟨(stays.rooms _ _).mpr opening.isHeld,
    fun k room' isHeld => opening.only k room' ((stays.rooms k _).mp isHeld)⟩

theorem yields_insertRoom :
    (contract law).Yields t request (fun j => j.state.Idle t) (call (.insertRoom room))
      fun _ j => Opening t room j.state := by
  refine Contract.yields_exec firm_idle.stable fun j _ running idle =>
    ⟨⟨idle, name, privateRoom, isRequest ▸ running⟩, fun _ s' exec => ?_⟩
  obtain ⟨_, rfl⟩ := Exec.insertRoom_ok exec
  refine ⟨Database.held_write.trans (if_pos rfl), fun k room' isHeld => ?_⟩
  rcases Database.held_of_write isHeld with old | ⟨_, _, same⟩
  · exact absurd old (idle.rooms k _)
  · exact Option.some.inj same

/-- A room that is in the table is not inserted again. -/
theorem yields_insertRoom_again :
    (contract law).Yields t request (fun j => j.state.Idle t ∧ j.state.Open room.id)
      (call (.insertRoom room)) fun _ _ => False := by
  refine Contract.yields_exec (firm_idle.and firm_open).stable fun j _ running ⟨idle, isOpen⟩ =>
    ⟨⟨idle, name, privateRoom, isRequest ▸ running⟩, fun _ s' exec => ?_⟩
  obtain ⟨absent, _⟩ := Exec.insertRoom_ok exec
  obtain ⟨old, here⟩ := isOpen
  rw [idle.rooms.view] at absent
  cases absent.symm.trans here

theorem yields_insertOwner :
    (contract law).Yields t request (fun j => Opening t room j.state)
      (call (.insertMember ⟨room.id, room.createdBy, .owner⟩)) fun _ j => Founding t j := by
  refine Contract.yields_exec firm_opening.stable fun j _ running opening =>
    ⟨.inl ⟨rfl, ⟨room, opening.isHeld, rfl⟩, name, privateRoom, isRequest ▸ running⟩, fun _ s' exec => ?_⟩
  obtain rfl := Exec.insertMember_ok exec
  intro k room' isHeld
  obtain rfl := opening.only k room' isHeld
  exact Database.held_write.trans (if_pos rfl)

end Founding

theorem yields_create (creatorId : UUID) (name : JavaString) (privateRoom : Bool)
    (isRequest : request = .create creatorId name privateRoom) :
    (contract law).Yields t request (fun j => j.state.Idle t) (create creatorId name privateRoom)
      fun _ j => j.state.Idle t ∧ True := by
  let middle (r : RoomView × Session) (j : History) : Prop := ∃ room : Chatroom,
    room.createdBy = creatorId ∧ j.state.Idle t ∧
      (r.2.queue = [.insertRoom room, .insertMember ⟨room.id, room.createdBy, .owner⟩] ∨
        (∃ rest, r.2.queue = .insertRoom room :: rest) ∧ j.state.Open room.id)
  refine yields_inTransaction firm_true lasts_true middle ?_ fun view session j start => ?_
  · refine yields_inSession (yields_lifted (yields_quiet firm_idle (uses_op trivial)))
      fun row session₁ same₁ => ?_
    obtain rfl : session₁ = {} := same₁
    cases row with
    | some room => exact yields_thrown
    | none =>
        refine yields_inSession (yields_lifted (yields_quiet firm_idle (uses_op trivial)))
          fun id session₂ same₂ => ?_
        obtain rfl : session₂ = {} := same₂
        let room : Chatroom := ⟨id, Rooms.trim name, privateRoom, creatorId⟩
        refine yields_inSession (yields_enqueue (.insertRoom room)) fun _ session₃ same₃ => ?_
        obtain rfl : session₃ = { queue := [.insertRoom room] } := same₃
        refine yields_inSession (yields_save firm_idle (fun _ idle => idle) _)
          fun _ session₄ queues => ?_
        have firm : Firm t fun s => s.Idle t ∧
            (session₄.queue = [.insertRoom room, .insertMember ⟨id, creatorId, .owner⟩] ∨ s.Open id) :=
          firm_idle.and fun _ _ stays => Or.imp_right stays.isOpen
        refine yields_inSession (yields_lifted ((yields_quiet firm requireUser_quiet).weaken
          (fun j known => ⟨known.1, known.2 rfl⟩) fun _ _ known => known)) fun creatorName session₅ same₅ => ?_
        obtain rfl : session₅ = session₄ := same₅
        refine Contract.yields_pure fun j known => ⟨room, rfl, known.1, known.2.imp_right fun isOpen => ?_⟩
        refine ⟨?_, isOpen⟩
        rcases queues with none | update | ⟨insert, _⟩
        · exact ⟨_, none⟩
        · exact ⟨_, update⟩
        · exact ⟨_, insert⟩
  · obtain ⟨running, room, isCreator, idle, queue | ⟨⟨rest, queue⟩, isOpen⟩⟩ := start
    · subst isCreator
      rw [queue]
      refine (Contract.yields_bind _ (yields_insertRoom isRequest) fun _ =>
        Contract.yields_bind _ (yields_insertOwner isRequest) fun _ =>
          Contract.yields_pure fun j founding => ?_) j ⟨running, idle⟩
      refine ⟨⟨founding, fun roomId actorId targetId isTransfer => ?_⟩, trivial⟩
      cases isRequest.symm.trans isTransfer
    · subst isCreator
      rw [queue]
      exact (Contract.yields_bind _ (yields_insertRoom_again isRequest) fun _ j known => known.2.elim)
        j ⟨running, idle, isOpen⟩

section Ranking

variable {roomId actorId targetId : UUID} {role : Role}
  (isRequest : request = .changeRole roomId actorId targetId role) (others : actorId ≠ targetId)
include isRequest others

/-- The transaction has written nothing but the row of the owner who hands on the room. -/
def Stepped (t : Nat) (roomId actorId : UUID) (role : Role) (s : Server) : Prop :=
  s.rooms.Unwritten t ∧ ∀ k version, s.members.held k = some (t, version) → role = .owner ∧
    k = inRoom roomId actorId ∧ ∃ m, version = some m ∧ m.role = .admin

omit isRequest others in
theorem firm_stepped : Firm t (Stepped t roomId actorId role) :=
  fun _ _ stays stepped => ⟨fun k version isHeld => stepped.1 k version ((stays.rooms k version).mp isHeld),
    fun k version isHeld => stepped.2 k version ((stays.members k version).mp isHeld)⟩

theorem yields_stepDown (isOwner : role = .owner) :
    (contract law).Yields t request (fun j => j.state.Idle t) (call (.setRole roomId actorId .admin))
      fun _ j => Stepped t roomId actorId role j.state := by
  refine Contract.yields_call firm_idle.stable fun j _ running idle =>
    ⟨⟨idle.rooms, actorId, targetId, role, isRequest ▸ running, others, .steps isOwner idle.members⟩,
      fun _ s' performs => ?_⟩
  have outcome : Outcome t j.state (.setRole roomId actorId .admin) _ s' := performs_outcome performs
  refine ⟨?_, fun k version isHeld => ?_⟩
  · change s'.rooms.Unwritten t
    rw [outcome.rooms_eq rfl nofun]
    exact idle.rooms
  · change s'.members.held k = some (t, version) at isHeld
    rcases outcome.setRole with rfl | ⟨old, seen, rfl⟩
    · exact absurd isHeld (idle.members k version)
    · rcases Database.held_of_write isHeld with before | ⟨_, isKey, same⟩
      · exact absurd before (idle.members k version)
      · have sameKey : old.key = inRoom roomId actorId := Database.key_of_view seen
        exact ⟨isOwner, isKey.symm.trans sameKey, _, same, rfl⟩

/-- The change that was asked for. -/
theorem yields_setRole :
    (contract law).Yields t request (fun j => Stepped t roomId actorId role j.state)
      (call (.setRole roomId targetId role))
      fun _ j => j.state.rooms.Unwritten t ∧ Finished t request j := by
  refine Contract.yields_call firm_stepped.stable fun j _ running stepped =>
    ⟨⟨stepped.1, actorId, targetId, role, isRequest ▸ running, others, .asked stepped.2⟩,
      fun _ s' performs => ?_⟩
  have outcome : Outcome t j.state (.setRole roomId targetId role) _ s' := performs_outcome performs
  refine ⟨?_, fun roomId' actorId' targetId' isTransfer => ?_⟩
  · change s'.rooms.Unwritten t
    rw [outcome.rooms_eq rfl nofun]
    exact stepped.1
  · obtain ⟨rfl, rfl, rfl, rfl⟩ : roomId = roomId' ∧ actorId = actorId' ∧ targetId = targetId' ∧
        role = .owner := by simpa using isRequest.symm.trans isTransfer
    rw [Journal.log_record]
    exact if_pos rfl

end Ranking

theorem yields_changeRole (roomId actorId targetId : UUID) (role : Role)
    (isRequest : request = .changeRole roomId actorId targetId role) :
    (contract law).Yields t request (fun j => j.state.Idle t) (changeRole roomId actorId targetId role)
      fun _ j => j.state.Idle t ∧ True := by
  let middle (r : Unit × Session) (j : History) : Prop :=
    r.2.queue = [] ∧ j.state.rooms.Unwritten t ∧ Finished t request j
  refine yields_inTransaction firm_true lasts_true middle ?_ fun _ session => ?_
  · refine yields_inSession (yields_entering roomId actorId) fun room session ⟨grows, _⟩ => ?_
    refine yields_inSession (yields_requireRole firm_entered (fun _ => And.left) _ _ _)
      fun _ session₁ grows₁ => ?_
    split
    · exact yields_thrown
    next self =>
      have others : actorId ≠ targetId := fun same => self same.symm
      refine yields_inSession (yields_roleOf firm_entered (fun _ => And.left) _ _)
        fun found session₂ grows₂ => ?_
      have fresh : session₂.queue = [] := grows₂.queue.trans (grows₁.queue.trans grows.queue)
      cases found with
      | none => exact yields_thrown
      | some was =>
          have sets : (contract law).Yields t request (fun j => Stepped t roomId actorId role j.state)
              ((monadLift (call (.setRole roomId targetId role)) : InSession Unit).run session₂) middle :=
            (yields_lifted (yields_setRole isRequest others)).weaken (fun _ => id)
              fun r j known => ⟨by rw [known.1]; exact fresh, known.2⟩
          dsimp only
          split
          next isOwner =>
            refine yields_inSession (yields_lifted ((yields_stepDown isRequest others isOwner).weaken
              (fun _ known => And.left known) fun _ _ known => known)) fun _ session₃ same₃ => ?_
            obtain rfl : session₃ = session₂ := same₃
            exact sets
          next => exact sets.weaken (fun _ known => ⟨known.1.rooms, fun k version isHeld =>
              absurd isHeld (known.1.members k version)⟩) fun _ _ => id
  · refine Contract.yields_assuming fun fresh => ?_
    rw [show session.queue = [] from fresh]
    exact Contract.yields_pure fun j known => ⟨⟨fun k _ isHeld => absurd isHeld (known.1 k _), known.2⟩, trivial⟩

end Rooms

section Sends

variable {senderId roomId : UUID} (isSend : request.sends = some (senderId, roomId))

theorem messaging_bind {p : Rooms.Prog α} {f : α → Rooms.Prog β} :
    messaging (p >>= f) = messaging p >>= fun value => messaging (f value) :=
  relabel_bind

theorem messaging_tryCatch {p : Rooms.Prog α} {handler : JavaError → Rooms.Prog α} :
    messaging (tryCatch p handler) = tryCatch (messaging p) fun e => messaging (handler e) :=
  relabel_tryCatch

theorem tryAcquire_quiet {key : Rooms.RedisKey} : Uses Quiet (messaging (Rooms.tryAcquire key)).run := by
  refine messaging_quiet (uses_tryCatch (uses_call trivial) fun e => ?_)
  split
  · exact uses_throwing_pure
  · exact uses_throw

theorem result_quiet {m : Message} {duplicate : Bool} :
    Uses Quiet (messaging (Rooms.result m duplicate)).run :=
  messaging_quiet (uses_throwing_bind (uses_call trivial) fun _ => uses_throwing_pure)

theorem seen_quiet {roomId : UUID} {clientId : Option UUID} :
    Uses Quiet (messaging (Rooms.seen roomId clientId)).run := by
  refine messaging_quiet ?_
  cases clientId with
  | none => exact uses_throwing_pure
  | some clientId =>
      refine uses_throwing_bind (uses_tryCatch (uses_call trivial) fun e => ?_) fun cached => ?_
      · split
        · exact uses_throwing_pure
        · exact uses_throw
      · refine uses_throwing_bind ?_ fun found => ?_
        · cases cached with
          | none => exact uses_throwing_pure
          | some id => exact uses_throwing_bind (uses_call trivial) fun _ => uses_throwing_pure
        · cases found with
          | some m => exact uses_throwing_pure
          | none => exact uses_call trivial

theorem mark_quiet {roomId : UUID} {id : Nat} {clientId : Option UUID} :
    Uses Quiet (messaging (Rooms.mark roomId id clientId)).run := by
  refine messaging_quiet ?_
  cases clientId with
  | none => exact uses_throwing_pure
  | some clientId =>
      refine uses_throwing_bind (uses_tryCatch (uses_call trivial) fun e => ?_)
        fun _ => uses_throwing_pure
      split
      · exact uses_throwing_pure
      · exact uses_throw

theorem absorb_quiet {roomId : UUID} {clientId : Option UUID} :
    Uses Quiet (messaging (Rooms.absorb roomId clientId)).run := by
  refine messaging_quiet (uses_throwing_bind ?_ fun found => ?_)
  · cases clientId with
    | none => exact uses_throwing_pure
    | some clientId => exact uses_call trivial
  · cases found with
    | some m => exact uses_throwing_bind (uses_call trivial) fun _ => uses_throwing_pure
    | none => exact uses_throw

variable {P : Server → Prop} (firm : Firm t P)
include firm

theorem yields_increment (key : Rooms.RedisKey) :
    (contract law).Yields t request (fun j => P j.state) (call (.backend (.increment key)))
      fun n j => P j.state ∧ 0 < n := by
  have quiet : Quiet (.backend (.increment key)) := trivial
  refine yields_look firm quiet (fun n _ => 0 < n) fun j a n s' _ _ effected => ?_
  rw [backend_effect rfl rfl] at effected
  obtain ⟨⟨answered, messaging⟩, incremented, same⟩ := Option.map_eq_some_iff.mp effected
  obtain ⟨rfl, _⟩ := Prod.mk.inj same
  obtain ⟨isNext, _⟩ := Prod.mk.inj (Option.some.inj incremented)
  obtain rfl := Except.ok.inj isNext
  exact Nat.succ_pos _

theorem yields_next (roomId : UUID) :
    (contract law).Yields t request (fun j => P j.state)
      (messaging (Rooms.RedisSequenceCounter.next roomId (Rooms.call (.maxSequence roomId))))
      fun n j => P j.state ∧ 0 < n := by
  have quietly {op : Rooms.Op} (quiet : Quiet (.backend op)) : (contract law).Yields t request
      (fun j => P j.state) (messaging (Rooms.call op)) fun _ j => P j.state :=
    yields_quiet firm (uses_op quiet)
  have firm' (n : Nat) : Firm t fun s => P s ∧ 0 < n :=
    firm.and fun _ _ _ positive => positive
  unfold Rooms.RedisSequenceCounter.next
  rw [messaging_tryCatch]
  refine Contract.yields_tryCatch ?_ fun e => ?_
  · rw [messaging_bind]
    refine Contract.yields_bind _ (quietly trivial) fun max => ?_
    rw [messaging_bind]
    refine Contract.yields_bind _ (quietly trivial) fun seeded => ?_
    rw [messaging_bind]
    refine Contract.yields_bind _ (yields_increment firm (.seq roomId)) fun n => ?_
    split
    · exact Contract.yields_pure fun _ known => known
    · rw [messaging_bind]
      exact Contract.yields_bind _ (yields_quiet (firm' n) (uses_op trivial)) fun _ =>
        Contract.yields_pure fun _ known => known
  · split
    · exact Contract.yields_throw
    · exact Contract.yields_throw

omit firm in
theorem messaging_persist (draft : Draft) (senderName : JavaString) :
    messaging (Rooms.persist draft senderName) =
      transactional (call (.backend .rollback)) (call (.backend .commit)) do
        let saved ← call (.backend (.save draft))
        call (.backend (.advance saved.senderId saved.chatroomId saved.sequenceNumber))
        call (.backend (.publish {
          chatroomId := saved.chatroomId
          messageId := saved.id
          sequenceNumber := saved.sequenceNumber
          senderId := saved.senderId
          senderName := senderName
          preview := saved.preview
          mentions := saved.mentions }))
        return saved := by
  unfold Rooms.persist Rooms.transactional
  rw [messaging_bind, messaging_tryCatch]
  simp only [messaging_bind]
  rfl

/-- The transaction has saved a message, and opens no room. -/
structure Saving (t : Nat) (roomId : UUID) (m : Message) (s : Server) : Prop where
  pends : (t, m) ∈ s.messaging.pending
  unwritten : s.rooms.Unwritten t
  isOpen : s.Open roomId

omit firm in
theorem firm_saving {m : Message} : Firm t (Saving t roomId m) :=
  fun _ _ stays saving => ⟨(stays.pending m).mpr saving.pends,
    fun k version isHeld => saving.unwritten k version ((stays.rooms k version).mp isHeld),
    stays.isOpen saving.isOpen⟩

include isSend

omit firm in
theorem yields_persist {draft : Draft} (senderName : JavaString) (isSender : draft.senderId = senderId)
    (isRoom : draft.chatroomId = roomId) (positive : 0 < draft.sequenceNumber) :
    (contract law).Yields t request (fun j => j.state.Idle t ∧ j.state.Open roomId)
      (messaging (Rooms.persist draft senderName))
      fun _ j => j.state.Idle t ∧ j.state.Open roomId := by
  have plain : ∀ roomId actorId targetId, request ≠ .changeRole roomId actorId targetId .owner := by
    rintro _ _ _ rfl
    cases isSend
  have firmUnwritten : Firm t fun s => s.rooms.Unwritten t ∧ s.Open roomId :=
    fun _ _ stays known => ⟨fun k version isHeld => known.1 k version ((stays.rooms k version).mp isHeld),
      stays.isOpen known.2⟩
  have saves : (contract law).Yields t request (fun j => j.state.Idle t ∧ j.state.Open roomId)
      (call (.backend (.save draft))) fun m j => Saving t roomId m j.state := by
    refine Contract.yields_call (firm_idle.and firm_open).stable fun j inv running ⟨idle, isOpen⟩ =>
      ⟨⟨idle, positive, request, running, isSend.trans (by rw [isSender, isRoom])⟩, fun m s' performs => ?_⟩
    have exec : Exec t j.state (.backend (.save draft)) (.ok m) s' := performs.exec
    obtain ⟨_, pends, sameRooms⟩ := exec.save_ok
    refine ⟨pends, ?_, inv.1.stays_open exec.outcome isOpen⟩
    change s'.rooms.Unwritten t
    rw [sameRooms]
    exact idle.rooms
  have advances (m : Message) : (contract law).Yields t request (fun j => Saving t roomId m j.state)
      (call (.backend (.advance m.senderId m.chatroomId m.sequenceNumber)))
      fun _ j => j.state.rooms.Unwritten t ∧ j.state.Open roomId := by
    refine Contract.yields_call firm_saving.stable fun j inv running saving =>
      ⟨⟨m, saving.pends, rfl, rfl, rfl⟩, fun _ s' performs => ?_⟩
    have outcome : Outcome t j.state (.backend (.advance m.senderId m.chatroomId m.sequenceNumber)) _ s' :=
      performs_outcome performs
    refine ⟨?_, inv.1.stays_open outcome saving.isOpen⟩
    change s'.rooms.Unwritten t
    rw [outcome.rooms_eq rfl nofun]
    exact saving.unwritten
  rw [messaging_persist]
  refine yields_transaction firm_open lasts_open (Contract.yields_bind _ saves fun m => ?_)
  refine Contract.yields_bind _ (advances m) fun _ => ?_
  refine Contract.yields_bind _ (yields_quiet firmUnwritten (uses_op trivial)) fun _ => ?_
  exact Contract.yields_pure fun j known => ⟨closing_of_unwritten plain known.1, known.2⟩

omit firm in
theorem yields_ensuring : (contract law).Yields t request
    (fun j => j.state.Idle t ∧ j.state.Open roomId) (inTransaction (ensureMembership roomId senderId))
      fun _ j => j.state.Idle t ∧ True := by
  have plain : ∀ roomId actorId targetId, request ≠ .changeRole roomId actorId targetId .owner := by
    rintro _ _ _ rfl
    cases isSend
  have firm : Firm t fun s => s.Idle t ∧ s.Open roomId := firm_idle.and firm_open
  refine yields_inTransaction firm_true lasts_true _
    (yields_ensureMembership firm (fun _ => And.left) roomId senderId) fun _ session' => ?_
  refine Contract.yields_assuming fun ⟨session, grows, queues⟩ => ?_
  exact (yields_admission firm (fun _ => And.left) rfl (fun _ => And.right) grows.queue queues
    fun _ _ _ => .inr (.inr isSend)).weaken (fun _ => id)
      fun _ _ unwritten => ⟨closing_of_unwritten plain unwritten, trivial⟩

omit firm in
theorem yields_store {draft : Draft} (isSender : draft.senderId = senderId)
    (isRoom : draft.chatroomId = roomId) :
    (contract law).Yields t request (fun j => j.state.Idle t ∧ j.state.Open roomId)
      (store senderId roomId draft) fun _ _ => True := by
  have firm : Firm t fun s => s.Idle t ∧ s.Open roomId := firm_idle.and firm_open
  refine Contract.yields_bind _ (yields_quiet firm requireUser_quiet) fun sender => ?_
  refine Contract.yields_bind _ (yields_next firm roomId) fun seq => ?_
  have persists : 0 < seq → (contract law).Yields t request
      (fun j => j.state.Idle t ∧ j.state.Open roomId)
      (settle (messaging (Rooms.persist (draft.withSequence seq) sender)))
      (Contract.Passing fun _ j => j.state.Idle t ∧ j.state.Open roomId) := fun positive =>
    Contract.yields_settle (yields_persist isSend sender isSender isRoom positive)
  refine Contract.yields_bind _ ((Contract.yields_assuming persists).weaken
    (fun j known => ⟨known.2, known.1⟩) fun _ _ => id) fun result => ?_
  cases result with
  | ok saved =>
      refine Contract.yields_bind _ (yields_quiet firm mark_quiet) fun _ => ?_
      refine Contract.yields_bind _ (yields_ensuring isSend) fun _ => ?_
      exact (yields_quiet firm_true result_quiet).weaken (fun _ _ => trivial) fun _ _ => id
  | error e =>
      have absorbs : (contract law).Yields t request (fun _ => True)
          (messaging (Rooms.absorb roomId draft.clientMessageId)) fun _ _ => True :=
        yields_quiet firm_true absorb_quiet
      split
      next => exact absorbs
      next => exact Contract.yields_throw
      next isOk => cases isOk

omit firm in
theorem yields_sendDraft {draft : Draft} (isSender : draft.senderId = senderId)
    (isRoom : draft.chatroomId = roomId) :
    (contract law).Yields t request (fun j => j.state.Idle t) (sendDraft senderId roomId draft)
      fun _ _ => True := by
  have plain : ∀ roomId actorId targetId, request ≠ .changeRole roomId actorId targetId .owner := by
    rintro _ _ _ rfl
    cases isSend
  have firm : Firm t fun s => s.Idle t ∧ s.Open roomId := firm_idle.and firm_open
  have enters : (contract law).Yields t request (fun j => j.state.Idle t)
      (inTransaction (assertAccess roomId senderId)) fun _ j => j.state.Idle t ∧ j.state.Open roomId := by
    refine yields_inTransaction firm_open lasts_open _ (yields_entering roomId senderId) fun room session => ?_
    refine Contract.yields_assuming fun ⟨grows, _⟩ => ?_
    rw [show session.queue = [] from grows.queue]
    exact Contract.yields_pure fun j known => ⟨closing_of_unwritten plain known.1.rooms, room, known.2⟩
  refine Contract.yields_bind _ enters fun _ => ?_
  refine Contract.yields_bind _ (yields_quiet firm tryAcquire_quiet) fun allowed => ?_
  split
  · refine Contract.yields_bind _ (yields_quiet firm seen_quiet) fun found => ?_
    cases found with
    | some m => exact (yields_quiet firm_true result_quiet).weaken (fun _ _ => trivial) fun _ _ => id
    | none => exact yields_store isSend isSender isRoom
  · exact Contract.yields_throw

end Sends

theorem yields_send (senderId roomId : UUID) (req : Rooms.SendMessageRequest)
    (isSend : request.sends = some (senderId, roomId)) :
    (contract law).Yields t request (fun j => j.state.Idle t) (send senderId roomId req)
      fun _ _ => True := by
  unfold send
  split
  · exact yields_sendDraft isSend (by simp) (by simp)
  · exact Contract.yields_bind _ (yields_quiet firm_idle (uses_op trivial)) fun now =>
      yields_sendDraft isSend (by simp) (by simp)

theorem yields_sendFile (senderId roomId : UUID) (req : Rooms.SendFileMessageRequest)
    (isSend : request.sends = some (senderId, roomId)) :
    (contract law).Yields t request (fun j => j.state.Idle t) (sendFile senderId roomId req)
      fun _ _ => True := by
  unfold sendFile
  split
  · exact Contract.yields_throw
  · exact yields_sendDraft isSend (by simp) (by simp)

theorem yields_answer {body : Prog α} {response : Except JavaError α → Response} {K : History → Prop}
    (yields : (contract law).Yields t request (fun j => j.state.Idle t) body fun _ => K) :
    (contract law).Yields t request (fun j => j.state.Idle t) (answer response body) fun _ _ => True := by
  refine Contract.yields_bind (fun _ _ => True) ?_ fun result => yields_any fun _ _ => trivial
  exact (Contract.yields_settle yields).weaken (fun _ => id) fun _ _ _ => trivial

theorem yields_program (request : Call) :
    (contract law).Yields t request (fun j => j.state.Idle t) request.program fun _ _ => True := by
  cases request with
  | create creatorId name privateRoom =>
      exact yields_answer (yields_create creatorId name privateRoom rfl)
  | join roomId userId => exact yields_answer (yields_join (by rintro _ _ _ ⟨⟩) roomId userId)
  | invite roomId inviterId inviteeId =>
      exact yields_answer (yields_invite (by rintro _ _ _ ⟨⟩) roomId inviterId inviteeId rfl)
  | leave roomId userId => exact yields_answer (yields_leave (by rintro _ _ _ ⟨⟩) roomId userId)
  | changeRole roomId actorId targetId role =>
      exact yields_answer (yields_changeRole roomId actorId targetId role rfl)
  | send senderId roomId req => exact yields_answer (yields_send senderId roomId req rfl)
  | sendFile senderId roomId req => exact yields_answer (yields_sendFile senderId roomId req rfl)
  | markRead roomId userId upToSequence =>
      exact yields_answer (yields_markRead (by rintro _ _ _ ⟨⟩) roomId userId upToSequence rfl)

/-- In every run a law holds that holds at first. -/
theorem law_of_reaches {s : Server} {j : History} (law : Law permits) (sound : Sound (.empty s))
    (initial : law.inv (.empty s)) (reaches : service.Reaches (fun _ _ => True) permits s j) :
    Sound j ∧ law.inv j := by
  refine reaches.under (contract law) ⟨sound, initial⟩ (fun j t call inv none _ => ⟨⟨?_, ?_⟩, ?_⟩)
    fun t call => ?_
  · exact ⟨by simpa using inv.1.housed, by simpa using inv.1.hosting, by simpa using inv.1.opening,
      by simpa using inv.1.begun⟩
  · exact law.begun j t call inv.2 none
  · intro u _
    exact ⟨by rw [Journal.begin_state]; exact .refl u _, Journal.begin_log ..⟩
  · have yields : (contract law).Yields t call (fun j => j.state.Idle t) call.program fun _ _ => True :=
      yields_program call
    refine Contract.Guides.weaken yields (fun j start => ?_) fun _ _ _ => trivial
    obtain ⟨inv, isFirst⟩ := start
    exact inv.1.begun t isFirst

/-- No room has been opened yet. -/
structure Blank (s : Server) : Prop where
  rooms : s.rooms = .empty
  members : s.members = .empty
  readStates : s.readStates = .empty
  messages : s.messaging.messages = []
  pending : s.messaging.pending = []

theorem Blank.sound {s : Server} (blank : Blank s) : Sound (.empty s) := by
  refine ⟨fun m stored => ?_, fun t k m isHeld => ?_, fun t k version isHeld => ?_, fun t _ => ?_⟩
  · rw [Journal.empty_state, blank.members] at stored
    cases stored
  · rw [Journal.empty_state, blank.members, Database.held_empty] at isHeld
    cases isHeld
  · rw [Journal.empty_state, blank.rooms, Database.held_empty] at isHeld
    cases isHeld
  · rw [Journal.empty_state]
    refine ⟨fun k version isHeld => ?_, fun k version isHeld => ?_, fun k version isHeld => ?_,
      fun m pends => ?_⟩
    · rw [blank.rooms, Database.held_empty] at isHeld
      cases isHeld
    · rw [blank.members, Database.held_empty] at isHeld
      cases isHeld
    · rw [blank.readStates, Database.held_empty] at isHeld
      cases isHeld
    · rw [blank.pending] at pends
      cases pends

section Runs

/-- Three users, and no room yet. -/
def unopened : Server where
  rooms := .empty
  members := .empty
  readStates := .empty
  messaging := {
    chatrooms := []
    members := []
    users := [(1, []), (2, []), (3, [])]
    messages := []
    pending := []
    nextId := 1
    redis := fun _ => none
    stopped := [] }
  lower := id

theorem unopened_blank : Blank unopened :=
  ⟨rfl, rfl, rfl, rfl, rfl⟩

def follow (plan : List (Move Call Answer)) : Option History :=
  ((service.schedule perform fun _ => true).follow (Service.unstarted unopened) plan).map Config.state

theorem follow_reaches {plan : List (Move Call Answer)} {j : History} (followed : follow plan = some j) :
    service.Reaches (fun _ _ => True) (fun _ _ => True) unopened j := by
  obtain ⟨config, ran, rfl⟩ := Option.map_eq_some_iff.mp followed
  have performs : ∀ t s op a result s', perform t s op a = some (result, s') →
      service.exec t s op result s' := fun _ _ _ a _ _ performed => ⟨a, performed⟩
  exact Service.reaches_follow (fun _ _ _ => trivial) performs (fun _ _ => trivial) ran

/-- User 1 opens a private room under the id 7. -/
def opening : List (Move Call Answer) :=
  .start 0 (.create 1 [82] true) :: steps 0 1 ++ [.await 0 { id := 7 }] ++ steps 0 6

def greeting : Rooms.SendMessageRequest where
  message := [104, 105]
  clientMessageId := none
  replyTo := none
  expiresIn := none
  mentions := none

end Runs

end Chatrooms
