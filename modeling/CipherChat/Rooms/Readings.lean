import CipherChat.Rooms.Requests

/-!
What a request has read of the members when it writes about them, as its own log shows it: a role
is changed, and a member removed, after the rows were looked at, and a message is sent after the
access check.
-/

namespace Chatrooms

open Async ReadCommitted
open Rooms (UUID JavaString JavaError Message Draft SendResult)

abbrev Done := (op : Op) × op.Res

/-- Statements that change a row about a member. -/
def Op.writesMember : Op → Bool
  | .insertMember _ | .updateMember _ | .removeMember .. | .setRole .. => true
  | _ => false

/-- The request has changed no row about a member. -/
def Untouched (log : Log Op Op.Res) : Prop :=
  ∀ x ∈ log, x.1.writesMember = false

/-- A query has found the row, or none. -/
def Saw (log : Log Op Op.Res) (roomId userId : UUID) (row : Option ChatroomMember) : Prop :=
  (⟨.findMember roomId userId, .ok row⟩ : Done) ∈ log

/-- The user has passed the access check of the room, before any row was changed. -/
def Passed (log : Log Op Op.Res) (roomId userId : UUID) : Prop :=
  ∃ later earlier, log = later ++ earlier ∧ Untouched earlier ∧
    ∃ room, (⟨.findRoom roomId, .ok (some room)⟩ : Done) ∈ earlier ∧
      (room.privateRoom = true → ∃ m, Saw earlier roomId userId (some m))

/-- What was read before a role is changed. -/
structure Checked (log : Log Op Op.Res) (roomId actorId targetId : UUID) : Prop where
  others : actorId ≠ targetId
  actor : ∃ m, Saw log roomId actorId (some m) ∧ m.role = .owner
  target : ∃ m, Saw log roomId targetId (some m)

/-- The changes of a role that is asked for. -/
inductive Changes (log : Log Op Op.Res) (roomId actorId targetId : UUID) : Role → UUID → Role → Prop
  | steps : Untouched log → Checked log roomId actorId targetId →
      Changes log roomId actorId targetId .owner actorId .admin
  | hands (earlier : Log Op Op.Res) : log = (⟨.setRole roomId actorId .admin, .ok ()⟩ : Done) :: earlier →
      Untouched earlier → Checked earlier roomId actorId targetId →
      Changes log roomId actorId targetId .owner targetId .owner
  | asked (role : Role) : role ≠ .owner → Untouched log → Checked log roomId actorId targetId →
      Changes log roomId actorId targetId role targetId role

/-- How far a request reads: to the number that it names, to the highest that it has found, or to
that of its own message. -/
inductive ReadsTo (request : Call) (log : Log Op Op.Res) (userId roomId : UUID) : Int → Prop
  | named (upTo : Int) : request = .markRead roomId userId (some upTo) →
      ReadsTo request log userId roomId upTo
  | latest (highest : Nat) : request = .markRead roomId userId none →
      (⟨.backend (.maxSequence roomId), .ok highest⟩ : Done) ∈ log →
      ReadsTo request log userId roomId highest
  | sent (draft : Draft) (m : Message) : request.sends = some (userId, roomId) →
      (⟨.backend (.save draft), .ok m⟩ : Done) ∈ log → ReadsTo request log userId roomId m.sequenceNumber

/-- What a request has read when it performs an operation. -/
def heeds (request : Call) (log : Log Op Op.Res) : Op → Prop
  | .updateMember m => m.role = .owner ∨ Untouched log ∧ Saw log m.chatroomId m.userId none ∧
      ∃ row, Saw log m.chatroomId m.userId (some row)
  | .removeMember roomId userId => Untouched log ∧ ∃ m, Saw log roomId userId (some m) ∧ m.role ≠ .owner
  | .setRole roomId userId role => ∃ actorId targetId asked,
      request = .changeRole roomId actorId targetId asked ∧
        Changes log roomId actorId targetId asked userId role
  | .backend .commit => ∀ senderId roomId, request.sends = some (senderId, roomId) →
      Untouched log ∨ Passed log roomId senderId
  | .advance userId roomId sequence | .backend (.advance userId roomId sequence) =>
      ReadsTo request log userId roomId sequence
  | _ => True

section Log

variable {log : Log Op Op.Res} {x : Done} {roomId userId : UUID}

theorem Untouched.cons (untouched : Untouched log) (quiet : x.1.writesMember = false) :
    Untouched (x :: log) := by
  intro y member
  rcases List.mem_cons.mp member with rfl | old
  · exact quiet
  · exact untouched y old

theorem Untouched.of_append {later earlier : Log Op Op.Res} (untouched : Untouched (later ++ earlier)) :
    Untouched earlier :=
  fun x member => untouched x (List.mem_append_right _ member)

theorem Saw.cons {row : Option ChatroomMember} (saw : Saw log roomId userId row) (x : Done) :
    Saw (x :: log) roomId userId row :=
  List.mem_cons_of_mem _ saw

theorem Passed.cons (passed : Passed log roomId userId) (x : Done) : Passed (x :: log) roomId userId := by
  obtain ⟨later, earlier, rfl, untouched, found⟩ := passed
  exact ⟨x :: later, earlier, rfl, untouched, found⟩

theorem ReadsTo.cons {request : Call} {n : Int} (reads : ReadsTo request log userId roomId n) (x : Done) :
    ReadsTo request (x :: log) userId roomId n := by
  cases reads with
  | named _ isRequest => exact .named _ isRequest
  | latest highest isRequest found => exact .latest highest isRequest (List.mem_cons_of_mem _ found)
  | sent draft m isSend saved => exact .sent draft m isSend (List.mem_cons_of_mem _ saved)

theorem Quiet.writes {op : Op} (quiet : Quiet op) : op.writesMember = false := by
  cases op with
  | insertMember | updateMember | removeMember | setRole => exact quiet.elim
  | _ => rfl

end Log

/-! The sessions. -/

variable {permits : History → Event → Prop} {t : Nat} {request : Call} {α β : Type}

/-- What every request heeds, as a contract. -/
abbrev heeding (permits : History → Event → Prop) : Contract service permits :=
  .ofLaw service permits heeds

/-- Facts that stay, whatever is done next. -/
def Remains (K : Log Op Op.Res → Prop) : Prop :=
  ∀ log x, K log → K (x :: log)

/-- A session that has written nothing has read its entities. -/
structure Known (session : Session) (K : Log Op Op.Res → Prop) (log : Log Op Op.Res) : Prop where
  untouched : Untouched log
  recalls : ∀ m ∈ session.entities, Saw log m.chatroomId m.userId (some m)
  holds : K log

section Operations

variable (pre : Log Op Op.Res → Prop)

/-- One operation, and what it answers. -/
theorem heeding_call {op : Op} (post : op.Val → Log Op Op.Res → Prop)
    (step : ∀ log, pre log → heeds request log op ∧ ∀ s value s', Exec t s op (.ok value) s' →
      post value (⟨op, .ok value⟩ :: log)) :
    (heeding permits).Yields t request (fun j => pre (j.log t)) (call op)
      fun value j => post value (j.log t) :=
  Contract.ofLaw_call pre post step

/-- Operations that are free to be performed, and leave what is known. -/
theorem heeding_uses {allowed : Op → Prop} {p : Prog α}
    (free : ∀ op, allowed op → ∀ log, pre log → heeds request log op ∧
      ∀ result, pre (⟨op, result⟩ :: log)) (uses : Uses allowed p.run) :
    (heeding permits).Yields t request (fun j => pre (j.log t)) p fun _ j => pre (j.log t) :=
  Contract.ofLaw_uses pre free uses

theorem Quiet.heeds {op : Op} (quiet : Quiet op) (log : Log Op Op.Res) : heeds request log op := by
  cases op with
  | backend op => cases op <;> first | exact quiet.elim | trivial
  | _ => first | exact quiet.elim | trivial

theorem Untouched.heeds_commit {log : Log Op Op.Res} (untouched : Untouched log) :
    heeds request log (.backend .commit) :=
  fun _ _ _ => .inl untouched

end Operations

section Sessions

variable {session : Session} {K : Log Op Op.Res → Prop} (remains : Remains K)

theorem Known.cons {log : Log Op Op.Res} {x : Done} (remains : Remains K) (known : Known session K log)
    (quiet : x.1.writesMember = false) : Known session K (x :: log) :=
  ⟨known.untouched.cons quiet, fun m member => (known.recalls m member).cons x, remains log x known.holds⟩

theorem Known.weaken {log : Log Op Op.Res} {K' : Log Op Op.Res → Prop} (known : Known session K log)
    (implies : K log → K' log) : Known session K' log :=
  ⟨known.untouched, known.recalls, implies known.holds⟩

theorem remains_saw {roomId userId : UUID} {row : Option ChatroomMember} :
    Remains (Saw · roomId userId row) :=
  fun _ x saw => saw.cons x

/-- A row has been read of a member with a role like that. -/
theorem remains_role (roomId userId : UUID) (has : Role → Prop) :
    Remains fun log => ∃ m, Saw log roomId userId (some m) ∧ has m.role :=
  fun _ x => Exists.imp fun _ known => ⟨known.1.cons x, known.2⟩

theorem remains_roleOf (roomId userId : UUID) (role : Option Role) :
    Remains fun log => ∃ row, Saw log roomId userId row ∧ role = row.map ChatroomMember.role :=
  fun _ x => Exists.imp fun _ known => ⟨known.1.cons x, known.2⟩

theorem remains_passed {roomId userId : UUID} : Remains (Passed · roomId userId) :=
  fun _ x passed => passed.cons x

theorem Remains.and {K' : Log Op Op.Res → Prop} (first : Remains K) (second : Remains K') :
    Remains fun log => K log ∧ K' log :=
  fun log x known => ⟨first log x known.1, second log x known.2⟩

include remains

/-- A query, and what it answers. -/
theorem heeding_query {op : Op} (quiet : Quiet op)
    (info : op.Val → Prop) (tells : ∀ s value s', Exec t s op (.ok value) s' → info value) :
    (heeding permits).Yields t request (fun j => Known session K (j.log t)) (call op)
      fun value j => info value ∧
        Known session (fun log => K log ∧ (⟨op, .ok value⟩ : Done) ∈ log) (j.log t) := by
  refine heeding_call (Known session K) (fun value log => info value ∧
      Known session (fun log => K log ∧ (⟨op, .ok value⟩ : Done) ∈ log) log)
    fun log known => ⟨quiet.heeds log, fun s value s' exec => ?_⟩
  have after : Known session K (⟨op, .ok value⟩ :: log) := known.cons remains quiet.writes
  exact ⟨tells s value s' exec, after.weaken fun holds => ⟨holds, List.mem_cons_self⟩⟩

theorem heeding_quiet {p : Prog α} (uses : Uses Quiet p.run) :
    (heeding permits).Yields t request (fun j => Known session K (j.log t)) p
      fun _ j => Known session K (j.log t) :=
  heeding_uses (Known session K) (fun _ quiet _ known =>
    ⟨quiet.heeds _, fun _ => known.cons remains quiet.writes⟩) uses

/-- The row of a member, as the session has it. -/
theorem heeding_findMember (roomId userId : UUID) :
    (heeding permits).Yields t request (fun j => Known session K (j.log t))
      ((findMember roomId userId).run session) fun r j => r.2.queue = session.queue ∧
        Known r.2 (fun log => K log ∧ Saw log roomId userId r.1) (j.log t) := by
  have reads : (heeding permits).Yields t request (fun j => Known session K (j.log t))
      (call (.findMember roomId userId)) fun row j => (∀ m, row = some m → m.key = inRoom roomId userId) ∧
        Known session (fun log => K log ∧ Saw log roomId userId row) (j.log t) := by
    have quiet : Quiet (.findMember roomId userId) := trivial
    refine heeding_query remains quiet (fun row => ∀ m, row = some m → m.key = inRoom roomId userId)
      fun s row s' exec m isRow => ?_
    obtain ⟨a, effected⟩ := exec.effect_of_ok
    obtain ⟨isValue, _⟩ := Prod.mk.inj (Option.some.inj effected)
    exact Database.key_of_view ((Except.ok.inj isValue).trans isRow)
  refine Contract.yields_bind _ (yields_lifted reads) fun r => ?_
  obtain ⟨row, session'⟩ := r
  refine Contract.yields_assuming fun same => Contract.yields_assuming fun isKey => ?_
  obtain rfl : session' = session := same
  refine Contract.yields_pure fun j known => ?_
  change (session'.found roomId userId row).2.queue = session'.queue ∧
    Known (session'.found roomId userId row).2
      (fun log => K log ∧ Saw log roomId userId (session'.found roomId userId row).1) (j.log t)
  cases row with
  | none => exact ⟨rfl, known⟩
  | some row =>
      obtain ⟨isRoom, isUser⟩ := key_eq.mp (isKey row rfl)
      have saw : Saw (j.log t) row.chatroomId row.userId (some row) := by
        rw [isRoom, isUser]
        exact known.holds.2
      cases isManaged : session'.managed roomId userId with
      | some entity =>
          have isFound : session'.found roomId userId (some row) = (some entity, session') := by
            simp only [Session.found, isManaged]
          rw [isFound]
          have member := known.recalls entity (List.mem_of_find?_eq_some isManaged)
          have named := List.find?_some isManaged
          simp only [Bool.and_eq_true, decide_eq_true_eq] at named
          refine ⟨rfl, known.untouched, known.recalls, known.holds.1, ?_⟩
          rw [← named.1, ← named.2]
          exact member
      | none =>
          have isFound : session'.found roomId userId (some row) =
              (some row, { session' with entities := row :: session'.entities }) := by
            simp only [Session.found, isManaged]
          rw [isFound]
          refine ⟨rfl, known.untouched, fun m member => ?_, known.holds⟩
          rcases List.mem_cons.mp member with rfl | old
          · exact saw
          · exact known.recalls m old

theorem heeding_roleOf (roomId userId : UUID) :
    (heeding permits).Yields t request (fun j => Known session K (j.log t))
      ((roleOf roomId userId).run session) fun r j => r.2.queue = session.queue ∧
        Known r.2 (fun log => K log ∧ ∃ row, Saw log roomId userId row ∧ r.1 = row.map ChatroomMember.role)
          (j.log t) :=
  yields_inSession (heeding_findMember remains roomId userId) fun row _ same =>
    Contract.yields_pure fun _ known =>
      ⟨same, known.weaken fun holds => ⟨holds.1, row, holds.2, rfl⟩⟩

/-- Who has the role that is required has it in the row that was read. -/
theorem heeding_requireRole (roomId userId : UUID) (allowed : List Role) :
    (heeding permits).Yields t request (fun j => Known session K (j.log t))
      ((requireRole roomId userId allowed).run session) fun r j => r.2.queue = session.queue ∧
        Known r.2 (fun log => K log ∧ ∃ m, Saw log roomId userId (some m) ∧ m.role ∈ allowed) (j.log t) := by
  refine yields_inSession (heeding_roleOf remains roomId userId) fun role session' same => ?_
  split
  next isAllowed =>
    refine Contract.yields_pure fun j known => ⟨same, known.weaken fun ⟨holds, row, saw, isRole⟩ => ⟨holds, ?_⟩⟩
    obtain ⟨role', isSome, member⟩ := (Option.any_eq_true _ _).mp isAllowed
    obtain ⟨m, rfl, rfl⟩ := Option.map_eq_some_iff.mp (isRole.symm.trans isSome)
    exact ⟨m, saw, of_decide_eq_true member⟩
  next => exact yields_thrown

/-- What an access check has read. -/
theorem heeding_assertAccess (roomId userId : UUID) :
    (heeding permits).Yields t request (fun j => Known session K (j.log t))
      ((assertAccess roomId userId).run session) fun r j => r.2.queue = session.queue ∧
        Known r.2 (fun log => K log ∧ Passed log roomId userId) (j.log t) := by
  have quiet : Quiet (.findRoom roomId) := trivial
  have reads : (heeding permits).Yields t request (fun j => Known session K (j.log t))
      (call (.findRoom roomId)) fun row j =>
        Known session (fun log => K log ∧ (⟨.findRoom roomId, .ok row⟩ : Done) ∈ log) (j.log t) :=
    (heeding_query remains quiet (fun _ => True) fun _ _ _ _ => trivial).weaken (fun _ => id)
      fun _ _ known => known.2
  have later (row : Option Chatroom) :
      Remains fun log => K log ∧ (⟨.findRoom roomId, .ok row⟩ : Done) ∈ log :=
    remains.and fun _ _ => List.mem_cons_of_mem _
  refine yields_inSession (yields_lifted reads) fun row session' same => ?_
  obtain rfl : session' = session := same
  cases row with
  | none => exact yields_thrown
  | some room =>
      dsimp only
      cases isPrivate : room.privateRoom with
      | false =>
          refine Contract.yields_pure fun j known => ⟨rfl, known.untouched, known.recalls, known.holds.1, ?_⟩
          exact ⟨[], j.log t, rfl, known.untouched, room, known.holds.2, fun hidden =>
            nomatch isPrivate.symm.trans hidden⟩
      | true =>
          refine yields_inSession (heeding_findMember (later (some room)) roomId userId)
            fun found session₁ same => ?_
          cases found with
          | none => exact yields_thrown
          | some m =>
              refine Contract.yields_pure fun j known =>
                ⟨same, known.untouched, known.recalls, known.holds.1.1, ?_⟩
              exact ⟨[], j.log t, rfl, known.untouched, room, known.holds.1.2, fun _ => ⟨m, known.holds.2⟩⟩

/-- What has to have been read when a statement is performed. -/
def Ready (log : Log Op Op.Res) : Statement → Prop
  | .updateMember m => m.role = .owner ∨
      Saw log m.chatroomId m.userId none ∧ ∃ row, Saw log m.chatroomId m.userId (some row)
  | _ => True

omit remains in
theorem heeding_copy (m entity : ChatroomMember)
    (ready : ∀ log, Known session K log → Ready log (.updateMember m)) :
    (heeding permits).Yields t request (fun j => Known session K (j.log t)) ((copy m entity).run session)
      fun r j => Known r.2 K (j.log t) ∧ (r.2.queue = session.queue ∨
        ∃ statement, r.2.queue = session.queue ++ [statement] ∧ Ready (j.log t) statement) := by
  unfold copy
  split
  next => exact Contract.yields_pure fun _ known => ⟨known, .inl rfl⟩
  next =>
    exact Contract.yields_pure fun _ known =>
      ⟨⟨known.untouched, known.recalls, known.holds⟩, .inr ⟨_, rfl, ready _ known⟩⟩

/-- A row is saved that is new, or that was looked for in vain. -/
theorem heeding_save (m : ChatroomMember)
    (missed : ∀ log, K log → m.role = .owner ∨ Saw log m.chatroomId m.userId none) :
    (heeding permits).Yields t request (fun j => Known session K (j.log t)) ((save m).run session)
      fun r j => Known r.2 K (j.log t) ∧ (r.2.queue = session.queue ∨
        ∃ statement, r.2.queue = session.queue ++ [statement] ∧ Ready (j.log t) statement) := by
  refine yields_inSession yields_get fun got session' same => ?_
  obtain ⟨isGot, isSession⟩ := Prod.mk.inj same
  subst isGot isSession
  cases isManaged : session'.managed m.chatroomId m.userId with
  | some entity =>
      refine heeding_copy m entity fun log known => (missed log known.holds).imp_right fun none => ⟨none, entity, ?_⟩
      have member := known.recalls entity (List.mem_of_find?_eq_some isManaged)
      have named := List.find?_some isManaged
      simp only [Bool.and_eq_true, decide_eq_true_eq] at named
      rw [← named.1, ← named.2]
      exact member
  | none =>
      have quiet : Quiet (.findMember m.chatroomId m.userId) := trivial
      have reads : (heeding permits).Yields t request (fun j => Known session' K (j.log t))
          (call (.findMember m.chatroomId m.userId)) fun row j =>
            Known session' (fun log => K log ∧ Saw log m.chatroomId m.userId row) (j.log t) :=
        (heeding_query remains quiet (fun _ => True) fun _ _ _ _ => trivial).weaken (fun _ => id)
          fun _ _ known => known.2
      refine yields_inSession (yields_lifted reads) fun row session₁ same => ?_
      obtain rfl : session₁ = session' := same
      cases row with
      | none =>
          exact Contract.yields_pure fun j known =>
            ⟨⟨known.untouched, known.recalls, known.holds.1⟩, .inr ⟨_, rfl, trivial⟩⟩
      | some row =>
          refine (heeding_copy m row fun log known => (missed log known.holds.1).imp_right fun none =>
            ⟨none, row, known.holds.2⟩).weaken (fun _ => id) fun r j known => ?_
          exact ⟨known.1.weaken And.left, known.2⟩

theorem heeding_ensureMembership (roomId userId : UUID) :
    (heeding permits).Yields t request (fun j => Known session K (j.log t))
      ((ensureMembership roomId userId).run session) fun r j => Known r.2 K (j.log t) ∧
        (r.2.queue = session.queue ∨
          ∃ statement, r.2.queue = session.queue ++ [statement] ∧ Ready (j.log t) statement) := by
  refine yields_inSession (heeding_findMember remains roomId userId) fun found session' same => ?_
  cases found with
  | some m => exact Contract.yields_pure fun _ known => ⟨known.weaken And.left, .inl same⟩
  | none =>
      rw [← same]
      exact (heeding_save (remains.and remains_saw) ⟨roomId, userId, .member⟩
        fun _ known => .inr known.2).weaken (fun _ => id) fun _ _ known => ⟨known.1.weaken And.left, known.2⟩

end Sessions

/-! The transactions. -/

/-- One row about a member is written, and last. -/
inductive Queued (log : Log Op Op.Res) : List Statement → Prop
  | nil : Queued log []
  | last (statement : Statement) : Ready log statement → Queued log [statement]
  | room (room : Chatroom) (rest : List Statement) : Queued log rest →
      Queued log (.insertRoom room :: rest)

section Transactions

variable {K : Log Op Op.Res → Prop} (remains : Remains K)

theorem Ready.cons {log : Log Op Op.Res} {statement : Statement} (ready : Ready log statement) (x : Done) :
    Ready (x :: log) statement := by
  cases statement with
  | updateMember m =>
      exact ready.imp_right fun ⟨missed, row, saw⟩ => ⟨missed.cons x, row, saw.cons x⟩
  | _ => trivial

theorem Queued.cons {log : Log Op Op.Res} {queue : List Statement} (queued : Queued log queue) (x : Done) :
    Queued (x :: log) queue := by
  induction queued with
  | nil => exact .nil
  | last statement ready => exact .last statement (ready.cons x)
  | room room rest _ ih => exact .room room rest ih

include remains

/-- A statement of a session, after what it has read. -/
theorem heeding_statement (statement : Statement) (rest : List Statement) :
    (heeding permits).Yields t request
      (fun j => Untouched (j.log t) ∧ Queued (j.log t) (statement :: rest) ∧ K (j.log t)) statement.run
      fun _ j => K (j.log t) ∧ (rest = [] ∨ Untouched (j.log t) ∧ Queued (j.log t) rest) := by
  cases statement with
  | insertRoom room =>
      refine heeding_call (fun log => Untouched log ∧ Queued log (.insertRoom room :: rest) ∧ K log)
        (fun _ log => K log ∧ (rest = [] ∨ Untouched log ∧ Queued log rest))
        fun log ⟨untouched, queued, holds⟩ => ⟨trivial, fun _ _ _ _ => ⟨remains _ _ holds, ?_⟩⟩
      cases queued with
      | last => exact .inl rfl
      | room _ _ queued => exact .inr ⟨untouched.cons rfl, queued.cons _⟩
  | insertMember m =>
      refine heeding_call (fun log => Untouched log ∧ Queued log (.insertMember m :: rest) ∧ K log)
        (fun _ log => K log ∧ (rest = [] ∨ Untouched log ∧ Queued log rest))
        fun log ⟨_, queued, holds⟩ => ⟨trivial, fun _ _ _ _ => ⟨remains _ _ holds, ?_⟩⟩
      cases queued with
      | last => exact .inl rfl
  | updateMember m =>
      refine heeding_call (fun log => Untouched log ∧ Queued log (.updateMember m :: rest) ∧ K log)
        (fun _ log => K log ∧ (rest = [] ∨ Untouched log ∧ Queued log rest))
        fun log ⟨untouched, queued, holds⟩ => ?_
      cases queued with
      | last _ ready =>
          exact ⟨ready.imp_right fun known => ⟨untouched, known⟩,
            fun _ _ _ _ => ⟨remains _ _ holds, .inl rfl⟩⟩

theorem heeding_flush (queue : List Statement) :
    (heeding permits).Yields t request
      (fun j => Untouched (j.log t) ∧ Queued (j.log t) queue ∧ K (j.log t)) (flush queue)
      fun _ j => K (j.log t) := by
  induction queue with
  | nil => exact Contract.yields_pure fun _ known => known.2.2
  | cons statement rest ih =>
      refine Contract.yields_bind _ (heeding_statement remains statement rest) fun _ => ?_
      cases rest with
      | nil => exact Contract.yields_pure fun _ known => known.1
      | cons next rest =>
          refine ih.weaken (fun j known => ?_) fun _ _ => id
          obtain none | ⟨untouched, queued⟩ := known.2
          · cases none
          · exact ⟨untouched, queued, known.1⟩

omit remains in
theorem heeding_inTransaction {body : InSession α} {pre : History → Prop}
    (middle : α × Session → History → Prop) (after : Log Op Op.Res → Prop)
    (inside : (heeding permits).Yields t request pre (body.run {}) middle)
    (flushes : ∀ value session, (heeding permits).Yields t request (middle (value, session))
      (flush session.queue) fun _ j => after (j.log t))
    (commits : ∀ log, after log → heeds request log (.backend .commit) ∧
      after (⟨.backend .commit, .ok ()⟩ :: log)) :
    (heeding permits).Yields t request pre (inTransaction body) fun _ j => after (j.log t) := by
  have rolls : (heeding permits).Yields t request (fun _ => True) (call (.backend .rollback))
      fun _ _ => True :=
    heeding_call (fun _ => True) (fun _ _ => True) fun _ _ => ⟨trivial, fun _ _ _ _ => trivial⟩
  have ends : (heeding permits).Yields t request (fun j => after (j.log t)) (call (.backend .commit))
      fun _ j => after (j.log t) :=
    heeding_call after (fun _ => after) fun log known =>
      ⟨(commits log known).1, fun _ _ _ _ => (commits log known).2⟩
  refine Contract.yields_transactional ?_ rolls fun _ => ends
  refine Contract.yields_bind _ inside fun r => Contract.yields_bind _ (flushes r.1 r.2) fun _ => ?_
  exact Contract.yields_pure fun _ => id

end Transactions

/-! The requests. -/

section Requests

/-- What a session may do at the end of its transaction. -/
def Ending (session : Session) (log : Log Op Op.Res) : Prop :=
  session.queue = [] ∨ Untouched log ∧ Queued log session.queue

/-- A session that has read, and may have queued a row to be saved. -/
theorem ending_of_saved {session session' : Session} {K : Log Op Op.Res → Prop} {log : Log Op Op.Res}
    (fresh : session.queue = []) (known : Known session' K log ∧ (session'.queue = session.queue ∨
      ∃ statement, session'.queue = session.queue ++ [statement] ∧ Ready log statement)) :
    Ending session' log := by
  obtain ⟨known, same | ⟨statement, queue, ready⟩⟩ := known
  · exact .inl (same.trans fresh)
  · rw [fresh, List.nil_append] at queue
    exact .inr ⟨known.untouched, queue ▸ .last statement ready⟩

theorem remains_true : Remains fun _ => True :=
  fun _ _ _ => trivial

theorem Known.begun {log : Log Op Op.Res} (isFirst : log = []) : Known {} (fun _ => True) log := by
  subst isFirst
  refine ⟨fun x member => ?_, fun m member => ?_, trivial⟩
  · cases member
  · cases member

variable (plain : request.sends = none)

include plain in
/-- A request that sends nothing is one transaction. -/
theorem heeding_request {body : InSession α}
    (inside : (heeding permits).Yields t request (fun j => Known {} (fun _ => True) (j.log t)) (body.run {})
      fun r j => Ending r.2 (j.log t)) :
    (heeding permits).Yields t request (fun j => j.log t = []) (inTransaction body) fun _ _ => True := by
  refine heeding_inTransaction (fun r j => Ending r.2 (j.log t)) (fun _ => True)
    (inside.weaken (fun j isFirst => .begun isFirst) fun _ _ => id) (fun value session => ?_)
    fun log _ => ⟨fun _ _ sends => (by cases plain.symm.trans sends), trivial⟩
  by_cases fresh : session.queue = []
  · rw [fresh]
    exact Contract.yields_pure fun _ _ => trivial
  · refine (heeding_flush remains_true session.queue).weaken (fun j ending => ?_) fun _ _ => id
    obtain ⟨untouched, queued⟩ := ending.resolve_left fresh
    exact ⟨untouched, queued, trivial⟩

variable {session : Session} {K : Log Op Op.Res → Prop} (remains : Remains K)

include remains in
theorem heeding_lifted {p : Prog α} (uses : Uses Quiet p.run) :
    (heeding permits).Yields t request (fun j => Known session K (j.log t))
      ((monadLift p : InSession α).run session) fun r j => r.2 = session ∧ Known r.2 K (j.log t) :=
  (yields_lifted (heeding_quiet remains uses)).weaken (fun _ => id) fun _ _ known =>
    ⟨known.1, known.1 ▸ known.2⟩

include plain

theorem heeding_join (roomId userId : UUID) :
    (heeding permits).Yields t request (fun j => j.log t = []) (join roomId userId) fun _ _ => True := by
  refine heeding_request plain ?_
  refine yields_inSession (heeding_assertAccess remains_true roomId userId) fun room session fresh => ?_
  refine Contract.yields_bind _ (heeding_ensureMembership (remains_true.and remains_passed) roomId userId)
    fun r => Contract.yields_pure fun j known => ending_of_saved fresh known

theorem heeding_invite (roomId inviterId inviteeId : UUID) :
    (heeding permits).Yields t request (fun j => j.log t = []) (invite roomId inviterId inviteeId)
      fun _ _ => True := by
  refine heeding_request plain ?_
  refine yields_inSession (heeding_assertAccess remains_true roomId inviterId) fun room session fresh => ?_
  have entered : Remains fun log => True ∧ Passed log roomId inviterId := remains_true.and remains_passed
  refine yields_inSession (heeding_requireRole entered roomId inviterId _) fun _ session₁ same₁ => ?_
  have ranked := entered.and (remains_role roomId inviterId fun role => role ∈ [Role.owner, Role.admin])
  refine yields_inSession (heeding_lifted ranked requireUser_quiet) fun invitee session₂ same₂ => ?_
  refine yields_inSession (heeding_roleOf ranked roomId inviteeId) fun role session₃ same₃ => ?_
  cases role with
  | some role => exact yields_thrown
  | none =>
      have missed (log : Log Op Op.Res) (known : ∃ row, Saw log roomId inviteeId row ∧
          none = row.map ChatroomMember.role) : Saw log roomId inviteeId none := by
        obtain ⟨row, saw, isRole⟩ := known
        rw [Option.map_eq_none_iff.mp isRole.symm] at saw
        exact saw
      refine Contract.yields_bind _ (heeding_save (ranked.and (remains_roleOf roomId inviteeId none))
        ⟨roomId, inviteeId, .member⟩ fun log known => .inr (missed log known.2)) fun r =>
          Contract.yields_pure fun j known => ?_
      exact ending_of_saved (same₃.trans ((congrArg Session.queue same₂).trans (same₁.trans fresh))) known

theorem heeding_leave (roomId userId : UUID) :
    (heeding permits).Yields t request (fun j => j.log t = []) (leave roomId userId) fun _ _ => True := by
  refine heeding_request plain ?_
  refine yields_inSession (heeding_assertAccess remains_true roomId userId) fun room session fresh => ?_
  have entered : Remains fun log => True ∧ Passed log roomId userId := remains_true.and remains_passed
  refine yields_inSession (heeding_roleOf entered roomId userId) fun role session₁ same₁ => ?_
  have leaves (was : Role) (plain : was ≠ .owner) : (heeding permits).Yields t request
      (fun j => Known session₁ (fun log => (True ∧ Passed log roomId userId) ∧
        ∃ row, Saw log roomId userId row ∧ some was = row.map ChatroomMember.role) (j.log t))
      ((monadLift (call (.removeMember roomId userId)) : InSession Unit).run session₁)
      fun r j => Ending r.2 (j.log t) := by
    refine (yields_lifted (heeding_call _ (fun _ _ => True) fun log known => ⟨?_, fun _ _ _ _ => trivial⟩)).weaken
      (fun _ => id) fun r j ends => .inl ((congrArg Session.queue ends.1).trans (same₁.trans fresh))
    obtain ⟨row, saw, isRole⟩ := known.holds.2
    obtain ⟨m, rfl, rfl⟩ := Option.map_eq_some_iff.mp isRole.symm
    exact ⟨known.untouched, m, saw, plain⟩
  match role with
  | none | some .owner => exact yields_thrown
  | some .admin => exact leaves .admin nofun
  | some .member => exact leaves .member nofun

omit plain in
/-- How far is read. -/
theorem heeding_upTo (roomId userId : UUID) (upToSequence : Option Int)
    (isRequest : request = .markRead roomId userId upToSequence) {K : Log Op Op.Res → Prop} (remains : Remains K) :
    (heeding permits).Yields t request (fun j => Known session K (j.log t)) (upTo roomId upToSequence)
      fun n j => Known session (ReadsTo request · userId roomId n) (j.log t) := by
  cases upToSequence with
  | some upToSequence =>
      exact Contract.yields_pure fun j known => known.weaken fun _ => .named upToSequence isRequest
  | none =>
      have quiet : Quiet (.backend (.maxSequence roomId)) := trivial
      refine Contract.yields_bind _ (heeding_query remains quiet (fun _ => True) fun _ _ _ _ => trivial)
        fun latest => Contract.yields_pure fun j known => ?_
      exact known.2.weaken fun holds => .latest latest isRequest holds.2

theorem heeding_markRead (roomId userId : UUID) (upToSequence : Option Int)
    (isRequest : request = .markRead roomId userId upToSequence) :
    (heeding permits).Yields t request (fun j => j.log t = []) (markRead roomId userId upToSequence)
      fun _ _ => True := by
  refine heeding_request plain ?_
  refine yields_inSession (heeding_assertAccess remains_true roomId userId) fun room session fresh => ?_
  have entered : Remains fun log => True ∧ Passed log roomId userId := remains_true.and remains_passed
  refine yields_inSession (yields_lifted (heeding_upTo roomId userId upToSequence isRequest entered))
    fun upTo session₁ same₁ => ?_
  have read : Remains (ReadsTo request · userId roomId upTo) := fun _ x reads => reads.cons x
  refine yields_inSession (yields_lifted (heeding_quiet read (uses_op trivial)))
    fun marked session₂ same₂ => ?_
  have advances : (heeding permits).Yields t request
      (fun j => Known session (ReadsTo request · userId roomId upTo) (j.log t))
      (call (.advance userId roomId upTo)) fun _ j => True :=
    heeding_call (Known session (ReadsTo request · userId roomId upTo)) (fun _ _ => True)
      fun log known => ⟨known.holds, fun _ _ _ _ => trivial⟩
  have publishes : (heeding permits).Yields t request (fun _ => True)
      (call (.publish ⟨roomId, userId, upTo⟩)) fun _ _ => True :=
    heeding_call (fun _ => True) (fun _ _ => True) fun _ _ => ⟨trivial, fun _ _ _ _ => trivial⟩
  refine yields_inSession (yields_lifted advances) fun _ session₃ same₃ => ?_
  refine yields_inSession (yields_lifted publishes) fun _ session₄ same₄ => ?_
  refine Contract.yields_pure fun j known => .inl ?_
  rw [show session₄ = session from same₄.trans (same₃.trans (same₂.trans same₁))]
  exact fresh

theorem heeding_create (creatorId : UUID) (name : JavaString) (privateRoom : Bool) :
    (heeding permits).Yields t request (fun j => j.log t = []) (create creatorId name privateRoom)
      fun _ _ => True := by
  refine heeding_request plain ?_
  refine yields_inSession (heeding_lifted remains_true (uses_op trivial)) fun row session₁ same₁ => ?_
  obtain rfl : session₁ = {} := same₁
  cases row with
  | some room => exact yields_thrown
  | none =>
      refine yields_inSession (heeding_lifted remains_true (uses_op trivial)) fun id session₂ same₂ => ?_
      obtain rfl : session₂ = {} := same₂
      let room : Chatroom := ⟨id, Rooms.trim name, privateRoom, creatorId⟩
      refine yields_inSession (yields_enqueue (.insertRoom room)) fun _ session₃ same₃ => ?_
      obtain rfl : session₃ = { queue := [.insertRoom room] } := same₃
      have known (j : History) (first : Known {} (fun _ => True) (j.log t)) :
          Known { queue := [.insertRoom room] } (fun _ => True) (j.log t) :=
        ⟨first.untouched, first.recalls, trivial⟩
      have saves : (heeding permits).Yields t request (fun j => Known {} (fun _ => True) (j.log t))
          ((save ⟨id, creatorId, .owner⟩).run { queue := [.insertRoom room] })
          fun r j => True ∧ Known r.2 (Queued · r.2.queue) (j.log t) := by
        refine (heeding_save remains_true ⟨id, creatorId, .owner⟩ fun _ _ => .inl rfl).weaken known
          fun r j ⟨known, queue⟩ => ⟨trivial, known.untouched, known.recalls, ?_⟩
        rcases queue with same | ⟨statement, isLast, ready⟩
        · exact same ▸ .room room [] .nil
        · exact isLast ▸ .room room [statement] (.last statement ready)
      refine yields_inSession saves fun _ session₄ _ => ?_
      have queued : Remains (Queued · session₄.queue) := fun _ x known => known.cons x
      refine yields_inSession (heeding_lifted queued requireUser_quiet) fun creatorName session₅ same₅ => ?_
      obtain rfl : session₅ = session₄ := same₅
      exact Contract.yields_pure fun j known => .inr ⟨known.untouched, known.holds⟩

omit plain in
/-- A change of a role, after the rows of both were read. -/
theorem heeding_setRole {pre : Log Op Op.Res → Prop} {roomId actorId targetId userId : UUID}
    {asked role : Role} (isRequest : request = .changeRole roomId actorId targetId asked)
    (changes : ∀ log, pre log → Changes log roomId actorId targetId asked userId role) :
    (heeding permits).Yields t request (fun j => pre (j.log t)) (call (.setRole roomId userId role))
      fun _ j => ∃ log, pre log ∧ j.log t = (⟨.setRole roomId userId role, .ok ()⟩ : Done) :: log :=
  heeding_call pre (fun _ log' => ∃ log, pre log ∧ log' = (⟨.setRole roomId userId role, .ok ()⟩ : Done) :: log)
    fun log known => ⟨⟨actorId, targetId, asked, isRequest, changes log known⟩, fun _ _ _ _ => ⟨log, known, rfl⟩⟩

omit plain in
theorem heeding_changeRole (roomId actorId targetId : UUID) (role : Role)
    (isRequest : request = .changeRole roomId actorId targetId role) :
    (heeding permits).Yields t request (fun j => j.log t = []) (changeRole roomId actorId targetId role)
      fun _ _ => True := by
  have plain : request.sends = none := by
    rw [isRequest]
    rfl
  refine heeding_request plain ?_
  refine yields_inSession (heeding_assertAccess remains_true roomId actorId) fun room session fresh => ?_
  have entered : Remains fun log => True ∧ Passed log roomId actorId := remains_true.and remains_passed
  refine yields_inSession (heeding_requireRole entered roomId actorId _) fun _ session₁ same₁ => ?_
  split
  · exact yields_thrown
  next self =>
    have ranked := entered.and (remains_role roomId actorId fun role => role ∈ [Role.owner])
    refine yields_inSession (heeding_roleOf ranked roomId targetId) fun found session₂ same₂ => ?_
    cases found with
    | none => exact yields_thrown
    | some was =>
        let ready (log : Log Op Op.Res) : Prop := Untouched log ∧ Checked log roomId actorId targetId
        let stepped (log : Log Op Op.Res) : Prop :=
          ∃ earlier, ready earlier ∧ log = (⟨.setRole roomId actorId .admin, .ok ()⟩ : Done) :: earlier
        have known (log : Log Op Op.Res) (known : Known session₂ (fun log => ((True ∧ Passed log roomId actorId) ∧
            ∃ m, Saw log roomId actorId (some m) ∧ m.role ∈ [Role.owner]) ∧
              ∃ row, Saw log roomId targetId row ∧ some was = row.map ChatroomMember.role) log) : ready log := by
          obtain ⟨⟨_, m, saw, isOwner⟩, row, sawTarget, isRole⟩ := known.holds
          obtain ⟨m', rfl, _⟩ := Option.map_eq_some_iff.mp isRole.symm
          exact ⟨known.untouched, Ne.symm self, ⟨m, saw, List.mem_singleton.mp isOwner⟩, m', sawTarget⟩
        have ends (pre : Log Op Op.Res → Prop) {session : Session} (fresh : session.queue = [])
            (changes : ∀ log, pre log → Changes log roomId actorId targetId role targetId role) :
            (heeding permits).Yields t request (fun j => pre (j.log t))
              ((monadLift (call (.setRole roomId targetId role)) : InSession Unit).run session)
              fun r j => Ending r.2 (j.log t) :=
          (yields_lifted (heeding_setRole isRequest changes)).weaken (fun _ => id) fun _ _ done =>
            .inl ((congrArg Session.queue done.1).trans fresh)
        have fresh₂ : session₂.queue = [] := same₂.trans (same₁.trans fresh)
        dsimp only
        split
        next isOwner =>
          subst isOwner
          refine yields_inSession (yields_lifted (heeding_setRole isRequest fun log start =>
            .steps (known log start).1 (known log start).2)) fun _ session₃ same₃ => ?_
          refine (ends stepped ((congrArg Session.queue same₃).trans fresh₂)
            fun log ⟨earlier, start, isLog⟩ => .hands earlier isLog start.1 start.2).weaken
              (fun j ⟨log, start, isLog⟩ => ⟨log, known log start, isLog⟩) fun _ _ => id
        next other =>
          exact ends _ fresh₂ fun log start => .asked role other (known log start).1 (known log start).2

end Requests

section Sends

variable {senderId roomId : UUID} (isSend : request.sends = some (senderId, roomId))

theorem passed_heeds {log : Log Op Op.Res} (isSend : request.sends = some (senderId, roomId))
    (passed : Passed log roomId senderId) : heeds request log (.backend .commit) := by
  intro senderId' roomId' isSend'
  obtain ⟨rfl, rfl⟩ := Prod.mk.inj (Option.some.inj (isSend.symm.trans isSend'))
  exact .inr passed

include isSend in
theorem heeding_ensuring :
    (heeding permits).Yields t request (fun j => Known {} (Passed · roomId senderId) (j.log t))
      (inTransaction (ensureMembership roomId senderId)) fun _ j => Passed (j.log t) roomId senderId := by
  have passes : Remains (Passed · roomId senderId) := remains_passed
  refine heeding_inTransaction (fun r j => Known r.2 (Passed · roomId senderId) (j.log t) ∧
      Ending r.2 (j.log t)) (Passed · roomId senderId) ?_ (fun _ session => ?_)
    fun log passed => ⟨passed_heeds isSend passed, passed.cons _⟩
  · exact (heeding_ensureMembership passes roomId senderId).weaken (fun _ => id)
      fun _ _ known => ⟨known.1, ending_of_saved rfl known⟩
  · by_cases fresh : session.queue = []
    · rw [fresh]
      exact Contract.yields_pure fun _ known => known.1.holds
    · refine (heeding_flush passes session.queue).weaken (fun j known => ?_) fun _ _ => id
      obtain ⟨untouched, queued⟩ := known.2.resolve_left fresh
      exact ⟨untouched, queued, known.1.holds⟩

theorem next_quiet : Uses Quiet
    (messaging (Rooms.RedisSequenceCounter.next roomId (Rooms.call (.maxSequence roomId)))).run := by
  refine messaging_quiet (uses_tryCatch ?_ fun e => ?_)
  · refine uses_throwing_bind (uses_call trivial) fun max => ?_
    refine uses_throwing_bind (uses_call trivial) fun seeded => ?_
    refine uses_throwing_bind (uses_call trivial) fun n => ?_
    split
    · exact uses_throwing_pure
    · exact uses_throwing_bind (uses_call trivial) fun _ => uses_throwing_pure
  · split
    · exact uses_throw
    · exact uses_throw

include isSend in
/-- A message that is stored has been read up to by its sender. -/
theorem heeding_persist {draft : Draft} (senderName : JavaString) (isSender : draft.senderId = senderId)
    (isRoom : draft.chatroomId = roomId) :
    (heeding permits).Yields t request (fun j => Known {} (Passed · roomId senderId) (j.log t))
      (messaging (Rooms.persist draft senderName))
      fun _ j => Known {} (Passed · roomId senderId) (j.log t) := by
  have passes : Remains (Passed · roomId senderId) := remains_passed
  let saved (m : Message) (log : Log Op Op.Res) : Prop := Known {} (Passed · roomId senderId) log ∧
    ReadsTo request log m.senderId m.chatroomId m.sequenceNumber
  have saves : (heeding permits).Yields t request (fun j => Known {} (Passed · roomId senderId) (j.log t))
      (call (.backend (.save draft))) fun m j => saved m (j.log t) := by
    let op : Op := .backend (.save draft)
    refine @heeding_call permits t request (Known {} (Passed · roomId senderId)) op saved
      fun log known => ⟨trivial, fun s m s' exec => ⟨known.cons passes rfl, ?_⟩⟩
    obtain ⟨isDraft, _⟩ := exec.save_ok
    refine .sent draft m (isSend.trans ?_) List.mem_cons_self
    rw [← isSender, ← isRoom, ← isDraft]
  have advances (m : Message) : (heeding permits).Yields t request (fun j => saved m (j.log t))
      (call (.backend (.advance m.senderId m.chatroomId m.sequenceNumber)))
      fun _ j => Known {} (Passed · roomId senderId) (j.log t) :=
    heeding_call (saved m) (fun _ => Known {} (Passed · roomId senderId))
      fun log known => ⟨known.2, fun _ _ _ _ => known.1.cons passes rfl⟩
  have rolls : (heeding permits).Yields t request (fun _ => True) (call (.backend .rollback))
      fun _ _ => True :=
    heeding_call (fun _ => True) (fun _ _ => True) fun _ _ => ⟨trivial, fun _ _ _ _ => trivial⟩
  have ends : (heeding permits).Yields t request (fun j => Known {} (Passed · roomId senderId) (j.log t))
      (call (.backend .commit)) fun _ j => Known {} (Passed · roomId senderId) (j.log t) :=
    heeding_call (Known {} (Passed · roomId senderId)) (fun _ => Known {} (Passed · roomId senderId))
      fun log known => ⟨known.untouched.heeds_commit, fun _ _ _ _ => known.cons passes rfl⟩
  rw [messaging_persist]
  refine Contract.yields_transactional (Contract.yields_bind _ saves fun m => ?_) rolls fun _ => ends
  refine Contract.yields_bind _ (advances m) fun _ => ?_
  refine Contract.yields_bind _ (heeding_quiet passes (uses_op trivial)) fun _ => ?_
  exact Contract.yields_pure fun _ => id

include isSend in
theorem heeding_store {draft : Draft} (isSender : draft.senderId = senderId)
    (isRoom : draft.chatroomId = roomId) :
    (heeding permits).Yields t request (fun j => Known {} (Passed · roomId senderId) (j.log t))
      (store senderId roomId draft) fun _ _ => True := by
  have passes : Remains (Passed · roomId senderId) := remains_passed
  refine Contract.yields_bind _ (heeding_quiet passes requireUser_quiet) fun sender => ?_
  refine Contract.yields_bind _ (heeding_quiet passes next_quiet) fun seq => ?_
  refine Contract.yields_bind _ (Contract.yields_settle
    (heeding_persist isSend sender (by simpa using isSender) (by simpa using isRoom))) fun result => ?_
  cases result with
  | ok saved =>
      refine Contract.yields_bind _ (heeding_quiet passes mark_quiet) fun _ => ?_
      refine Contract.yields_bind _ (heeding_ensuring isSend) fun _ => ?_
      exact (heeding_uses (Passed · roomId senderId) (fun _ quiet log passed =>
        ⟨Quiet.heeds quiet log, fun _ => passed.cons _⟩) result_quiet).weaken (fun _ => id) fun _ _ _ => trivial
  | error e =>
      have absorbs : (heeding permits).Yields t request (fun _ => True)
          (messaging (Rooms.absorb roomId draft.clientMessageId)) fun _ _ => True :=
        heeding_uses (fun _ => True) (fun _ quiet log _ => ⟨Quiet.heeds quiet log, fun _ => trivial⟩) absorb_quiet
      split
      next => exact absorbs
      next => exact Contract.yields_throw
      next isOk => cases isOk

include isSend in
theorem heeding_sendDraft {draft : Draft} (isSender : draft.senderId = senderId)
    (isRoom : draft.chatroomId = roomId) :
    (heeding permits).Yields t request (fun j => Known {} (fun _ => True) (j.log t))
      (sendDraft senderId roomId draft) fun _ _ => True := by
  have passes : Remains (Passed · roomId senderId) := remains_passed
  have enters : (heeding permits).Yields t request (fun j => Known {} (fun _ => True) (j.log t))
      (inTransaction (assertAccess roomId senderId))
      fun _ j => Known {} (Passed · roomId senderId) (j.log t) := by
    refine heeding_inTransaction _ (Known {} (Passed · roomId senderId))
      (heeding_assertAccess remains_true roomId senderId) (fun room session => ?_)
      fun log known => ⟨known.untouched.heeds_commit, known.cons passes rfl⟩
    refine Contract.yields_assuming fun fresh => ?_
    rw [show session.queue = [] from fresh]
    exact Contract.yields_pure fun j known =>
      ⟨known.untouched, fun _ member => (by cases member), known.holds.2⟩
  refine Contract.yields_bind _ enters fun _ => ?_
  refine Contract.yields_bind _ (heeding_quiet passes tryAcquire_quiet) fun allowed => ?_
  split
  · refine Contract.yields_bind _ (heeding_quiet passes seen_quiet) fun found => ?_
    cases found with
    | some m => exact (heeding_quiet passes result_quiet).weaken (fun _ => id) fun _ _ _ => trivial
    | none => exact heeding_store isSend isSender isRoom
  · exact Contract.yields_throw

theorem heeding_send (senderId roomId : UUID) (req : Rooms.SendMessageRequest)
    (isSend : request.sends = some (senderId, roomId)) :
    (heeding permits).Yields t request (fun j => j.log t = []) (send senderId roomId req)
      fun _ _ => True := by
  have sends (now : Int) : (heeding permits).Yields t request
      (fun j => Known {} (fun _ => True) (j.log t))
      (sendDraft senderId roomId (req.draft senderId roomId now)) fun _ _ => True :=
    heeding_sendDraft isSend (by simp) (by simp)
  unfold send
  split
  · exact (sends 0).weaken (fun _ isFirst => .begun isFirst) fun _ _ => id
  · have quiet : Quiet (.backend .now) := trivial
    have reads : (heeding permits).Yields t request (fun j => Known {} (fun _ => True) (j.log t))
        (call (.backend .now)) fun _ j => Known {} (fun _ => True) (j.log t) :=
      heeding_quiet remains_true (uses_op quiet)
    exact Contract.yields_bind _ (reads.weaken (fun _ isFirst => .begun isFirst) fun _ _ => id) sends

theorem heeding_sendFile (senderId roomId : UUID) (req : Rooms.SendFileMessageRequest)
    (isSend : request.sends = some (senderId, roomId)) :
    (heeding permits).Yields t request (fun j => j.log t = []) (sendFile senderId roomId req)
      fun _ _ => True := by
  unfold sendFile
  split
  · exact Contract.yields_throw
  · exact (heeding_sendDraft isSend (by simp) (by simp)).weaken (fun _ isFirst => .begun isFirst) fun _ _ => id

end Sends

theorem heeding_answer {body : Prog α} {response : Except JavaError α → Response} {K : α → History → Prop}
    (yields : (heeding permits).Yields t request (fun j => j.log t = []) body K) :
    (heeding permits).Yields t request (fun j => j.log t = []) (answer response body) fun _ _ => True := by
  refine Contract.yields_bind (fun _ _ => True) ?_ fun result => ?_
  · exact (Contract.yields_settle yields).weaken (fun _ => id) fun _ _ _ => trivial
  · exact heeding_call (fun _ => True) (fun _ _ => True) fun _ _ => ⟨trivial, fun _ _ _ _ => trivial⟩

theorem heeding_program (request : Call) :
    (heeding permits).Yields t request (fun j => j.log t = []) request.program fun _ _ => True := by
  cases request with
  | create creatorId name privateRoom => exact heeding_answer (heeding_create rfl creatorId name privateRoom)
  | join roomId userId => exact heeding_answer (heeding_join rfl roomId userId)
  | invite roomId inviterId inviteeId => exact heeding_answer (heeding_invite rfl roomId inviterId inviteeId)
  | leave roomId userId => exact heeding_answer (heeding_leave rfl roomId userId)
  | changeRole roomId actorId targetId role =>
      exact heeding_answer (heeding_changeRole roomId actorId targetId role rfl)
  | send senderId roomId req => exact heeding_answer (heeding_send senderId roomId req rfl)
  | sendFile senderId roomId req => exact heeding_answer (heeding_sendFile senderId roomId req rfl)
  | markRead roomId userId upToSequence => exact heeding_answer (heeding_markRead rfl roomId userId upToSequence rfl)

/-- Every request has read what it has to. -/
theorem heeds_of_reaches {s : Server} {j : History} {e : Event}
    (reaches : service.Reaches (fun _ _ => True) permits s (j.record e))
    (running : j.calls e.thread = some e.call) : heeds e.call (j.log e.thread) e.op :=
  reaches.allowed (fun _ call => heeding_program call) running

end Chatrooms
