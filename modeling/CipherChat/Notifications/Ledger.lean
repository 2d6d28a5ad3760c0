import CipherChat.Notifications.Consumer

/-!
The claim of an event in the ledger commits with its notifications or not at all, so an event is
processed once however often it is delivered.
-/

namespace Notifications

open Async ReadCommitted
open Rooms (UUID JavaString JavaError Instant)
open Dm (Outage)

/-- A delivery claims its event only while the ledger would still hold the row. -/
def Retained (_ : History) (e : Event) : Prop :=
  ∀ consumer eventId, e.op = .claim consumer eventId →
    ∀ row ∈ e.before.swept, row.key ≠ keyOf consumer eventId

namespace Server

variable (s : Server) (t : Nat)

/-- All the events that were ever claimed. -/
def claims : List ProcessedEvent :=
  s.ledger.committed.rows ++ s.swept

def rowsOf (rows : List (Nat × Notification)) : List Draft :=
  (rows.filter fun w => w.1 = t).map fun w => w.2.toDraft

/-- The transaction has inserted no row into the ledger. -/
def Unclaimed : Prop :=
  ∀ k row, s.ledger.held k ≠ some (t, some row)

structure Idle : Prop where
  unwritten : s.ledger.Unwritten t
  nothing : rowsOf t s.pending = []

/-- The tables as a run finds them; its deliveries are the first of the event. -/
structure Unprocessed (eventId : UUID) : Prop where
  pending : s.ledger.pending.rows.isEmpty = true
  swept : s.swept = []
  notifications : s.notifications = []
  unsaved : s.pending = []
  older : ∀ row ∈ s.ledger.committed.rows, row.insertedBy = none
  unclaimed : s.ledger.committed.get (keyOf NotificationConsumer.CONSUMER eventId) = none

end Server

open Server (rowsOf)

namespace Call

def key (delivery : Call) : Option Key :=
  delivery.eventId.map (keyOf NotificationConsumer.CONSUMER)

/-- What the handler of the event has to insert. -/
def drafts : Call → List Draft
  | message e => (e.mentions.filter fun u => u ≠ e.senderId).map (NotificationConsumer.mention e)
  | direct e => [NotificationConsumer.dm e]
  | requested e => [NotificationConsumer.requested e]
  | sweep => []

end Call

/-- The delivery has nothing to do, or the event is claimed. -/
def Done (delivery : Call) (s : Server) : Prop :=
  delivery.drafts = [] ∨ ∃ row ∈ s.claims, delivery.key = some row.key

/-- What an operation can do. -/
inductive Outcome (t : Nat) (s : Server) : (op : Op) → op.Res → Server → Prop
  | same {op result} : (op ≠ .commit ∧ op ≠ .rollback) → Outcome t s op result s
  | claimed {consumer eventId result} (now : Instant) :
      s.ledger.locked t (keyOf consumer eventId) = false →
      s.ledger.view t (keyOf consumer eventId) = none →
      Outcome t s (.claim consumer eventId) result
        { s with ledger := s.ledger.write t ⟨consumer, eventId, now, some t⟩ }
  | saved {draft result} : draft.userId ∈ s.users →
      Outcome t s (.save draft) result (s.save t draft).2
  | deleted {cutoff result} (rows : List ProcessedEvent) :
      (∀ row ∈ rows, s.ledger.locked t row.key = false) →
      Outcome t s (.deleteProcessedBefore cutoff) result
        { s with ledger := rows.foldl (fun ledger row => ledger.erase t row.key) s.ledger }
  | committed {result} : Outcome t s .commit result (s.commit t)
  | closed {op result} : (op = .commit ∨ op = .rollback) → Outcome t s op result (s.rollback t)

section Step

variable {t u : Nat} {s s' : Server} {op : Op} {result answered : op.Res}

theorem effect_outcome {a : Answer} (effected : effect t s op a = some (answered, s')) :
    Outcome t s op result s' := by
  cases op with
  | claim consumer eventId =>
      obtain ⟨⟨won, s₁⟩, claimed, same⟩ := Option.map_eq_some_iff.mp effected
      obtain ⟨_, rfl⟩ := Prod.mk.inj same
      simp only [Server.claim] at claimed
      split at claimed
      · contradiction
      · obtain ⟨_, rfl⟩ := Prod.mk.inj (Option.some.inj claimed)
        exact .same ⟨nofun, nofun⟩
      next reached =>
        obtain ⟨free, unseen⟩ := Database.reach_eq_some.mp reached
        obtain ⟨_, rfl⟩ := Prod.mk.inj (Option.some.inj claimed)
        exact .claimed a.now free unseen
  | save draft =>
      simp only [effect] at effected
      split at effected
      next isUser =>
        obtain ⟨_, rfl⟩ := Prod.mk.inj (Option.some.inj effected)
        exact .saved isUser
      next =>
        obtain ⟨_, rfl⟩ := Prod.mk.inj (Option.some.inj effected)
        exact .same ⟨nofun, nofun⟩
  | deleteProcessedBefore cutoff =>
      obtain ⟨⟨count, s₁⟩, erased, same⟩ := Option.map_eq_some_iff.mp effected
      obtain ⟨_, rfl⟩ := Prod.mk.inj same
      simp only [Server.deleteProcessedBefore] at erased
      split at erased
      · contradiction
      next free =>
        obtain ⟨_, rfl⟩ := Prod.mk.inj (Option.some.inj erased)
        simp only [List.any_eq_true, not_exists, not_and, Bool.not_eq_true] at free
        exact .deleted _ free
  | commit =>
      obtain ⟨_, rfl⟩ := Prod.mk.inj (Option.some.inj effected)
      exact .committed
  | rollback =>
      obtain ⟨_, rfl⟩ := Prod.mk.inj (Option.some.inj effected)
      exact .closed (.inr rfl)
  | _ =>
      obtain ⟨_, rfl⟩ := Prod.mk.inj (Option.some.inj effected)
      exact .same ⟨nofun, nofun⟩

theorem Exec.outcome (exec : Exec t s op result s') : Outcome t s op result s' := by
  obtain ⟨a, performed⟩ := exec
  refine faulty_leaves (fun _ _ => effect_outcome) ?_ performed
  cases op with
  | commit => exact .closed (.inl rfl)
  | rollback => exact .closed (.inr rfl)
  | _ => exact .same ⟨nofun, nofun⟩

/-- An operation that answers had its effect. -/
theorem Exec.effect {value : op.Val} (exec : Exec t s op (.ok value) s') :
    ∃ a, effect t s op a = some (.ok value, s') :=
  exec.elim fun a performed => ⟨a, faulty_ok performed⟩

theorem mem_claims {row : ProcessedEvent} :
    row ∈ s.claims ↔ s.ledger.Stored row ∨ row ∈ s.swept := by
  rw [Server.claims, List.mem_append, Database.mem_rows]

theorem held_erases {rows : List ProcessedEvent} (ledger : Database ProcessedEvent.key Nat)
    (k : Key) : (rows.foldl (fun ledger row => ledger.erase t row.key) ledger).held k =
      if k ∈ rows.map ProcessedEvent.key then some (t, none) else ledger.held k := by
  induction rows generalizing ledger with
  | nil => simp
  | cons row rest ih =>
      rw [List.foldl_cons, ih, Database.held_erase]
      by_cases later : k ∈ rest.map ProcessedEvent.key
      · simp [later]
      by_cases first : row.key = k
      · subst first
        simp [later]
      · have other : k ≠ row.key := fun same => first same.symm
        simp [later, first, other]

theorem committed_erases {rows : List ProcessedEvent} (ledger : Database ProcessedEvent.key Nat) :
    (rows.foldl (fun ledger row => ledger.erase t row.key) ledger).committed =
      ledger.committed := by
  induction rows generalizing ledger with
  | nil => rfl
  | cons row rest ih => rw [List.foldl_cons, ih, Database.committed_erase]

/-- A commit adds the claims of its transaction; what it deletes was a claim before. -/
theorem mem_claims_commit {row : ProcessedEvent}
    (fresh : ∀ k row, s.ledger.held k = some (t, some row) → s.ledger.committed.get k = none) :
    row ∈ (s.commit t).claims ↔ row ∈ s.claims ∨ s.ledger.held row.key = some (t, some row) := by
  have stored : (s.commit t).ledger.Stored row ↔ s.ledger.view t row.key = some row := by
    rw [Database.Stored, Server.commit, Database.get_commit]
  have dropped : row ∈ s.deleted t ↔
      s.ledger.Stored row ∧ s.ledger.held row.key = some (t, none) := by
    rw [Server.deleted, List.mem_filter, Database.mem_rows, decide_eq_true_iff]
  have gone : row ∈ (s.commit t).swept ↔ row ∈ s.deleted t ∨ row ∈ s.swept := List.mem_append
  rw [mem_claims, mem_claims, stored, gone, dropped]
  by_cases mine : ∃ version, s.ledger.held row.key = some (t, version)
  · obtain ⟨version, isHeld⟩ := mine
    rw [Database.view_of_held isHeld, isHeld]
    cases version with
    | none => simp
    | some written =>
        have absent : ¬s.ledger.Stored row := by
          intro isStored
          have missing := fresh _ _ isHeld
          rw [isStored] at missing
          cases missing
        simp only [Option.some.injEq, Prod.mk.injEq, true_and, absent, false_and, false_or]
        exact or_comm
  · have free : ∀ version, s.ledger.held row.key ≠ some (t, version) :=
      fun version isHeld => mine ⟨version, isHeld⟩
    rw [Database.view_of_not_held free, Database.Stored]
    simp [free]

theorem rowsOf_filter_self (rows : List (Nat × Notification)) :
    rowsOf t (rows.filter fun w => w.1 = t) = rowsOf t rows := by
  simp [rowsOf, List.filter_filter]

theorem rowsOf_filter_other (rows : List (Nat × Notification)) (other : u ≠ t) :
    rowsOf u (rows.filter fun w => w.1 = t) = [] := by
  have none : ∀ w ∈ rows.filter (fun w => w.1 = t), ¬decide (w.1 = u) = true := by
    intro w member
    have isOwn : w.1 = t := by simpa using (List.mem_filter.mp member).2
    simpa [isOwn] using other.symm
  rw [rowsOf, List.filter_eq_nil_iff.mpr none, List.map_nil]

theorem rowsOf_drop_other (rows : List (Nat × Notification)) (other : u ≠ t) :
    rowsOf u (rows.filter fun w => w.1 ≠ t) = rowsOf u rows := by
  have both : (rows.filter fun w => w.1 ≠ t).filter (fun w => w.1 = u) =
      rows.filter fun w => w.1 = u := by
    rw [List.filter_filter]
    refine List.filter_congr fun w _ => ?_
    by_cases isOwn : w.1 = u <;> simp [isOwn, other]
  rw [rowsOf, both, rowsOf]

theorem rowsOf_append (rows rows' : List (Nat × Notification)) :
    rowsOf t (rows ++ rows') = rowsOf t rows ++ rowsOf t rows' := by
  simp [rowsOf]

end Step

/-- What the others leave of a transaction, and of the claims. -/
structure Rely (t : Nat) (s s' : Server) : Prop where
  claims : s.claims ⊆ s'.claims
  held : ∀ k version, s'.ledger.held k = some (t, version) ↔ s.ledger.held k = some (t, version)
  pending : rowsOf t s'.pending = rowsOf t s.pending

structure Consistent (j : History) : Prop where
  single : ∀ row ∈ j.state.claims, ∀ row' ∈ j.state.claims, row.key = row'.key → row = row'
  opened : ∀ t k row, j.state.ledger.held k = some (t, some row) → row.insertedBy = some t ∧
    (∀ row' ∈ j.state.claims, row'.key ≠ k) ∧ ∃ delivery, j.calls t = some delivery ∧
      delivery.key = some k
  owned : ∀ row ∈ j.state.claims, ∀ t, row.insertedBy = some t → ∃ delivery,
    j.calls t = some delivery ∧ delivery.key = some row.key ∧
      rowsOf t j.state.notifications = delivery.drafts.reverse
  noted : ∀ w ∈ j.state.notifications, ∃ row ∈ j.state.claims, row.insertedBy = some w.1
  grown : ∀ e ∈ j.past, e.before.claims ⊆ j.state.claims
  answered : ∀ e ∈ j.past, e.op = .returned (.ok ()) → Done e.call e.before
  begun : ∀ t, j.log t = [] → j.state.Idle t

/-- The transaction has claimed its event and inserted these rows. -/
def Holding (t : Nat) (drafts : List Draft) (s : Server) : Prop :=
  ¬s.Unclaimed t ∧ rowsOf t s.pending = drafts.reverse

/-- The transaction has inserted nothing. -/
def Vacant (t : Nat) (s : Server) : Prop :=
  s.Unclaimed t ∧ rowsOf t s.pending = []

/-- A transaction may commit what it has inserted for the event it has claimed, or nothing. -/
def Ready (t : Nat) (delivery : Call) (s : Server) : Prop :=
  Vacant t s ∨ Holding t delivery.drafts s

def Justified (t : Nat) (j : History) : Op → Prop
  | .claim consumer eventId => j.state.Idle t ∧
      ∀ delivery, j.calls t = some delivery → delivery.key = some (keyOf consumer eventId)
  | .commit => ∀ delivery, j.calls t = some delivery → Ready t delivery j.state
  | .returned (.ok _) => ∀ delivery, j.calls t = some delivery → Done delivery j.state
  | _ => True

section Outcomes

variable {t u : Nat} {s s' : Server} {op : Op} {result : op.Res} {k : Key}
  {row : ProcessedEvent}

theorem Outcome.held_other (outcome : Outcome t s op result s') (other : u ≠ t)
    (version : Option ProcessedEvent) :
    s'.ledger.held k = some (u, version) ↔ s.ledger.held k = some (u, version) := by
  cases outcome with
  | same => rfl
  | claimed now free => exact (Change.write _ free).held_other other
  | saved => rfl
  | deleted rows free =>
      rw [held_erases]
      split
      next member =>
        obtain ⟨row, inRows, rfl⟩ := List.mem_map.mp member
        constructor
        · exact fun same => absurd (Prod.mk.inj (Option.some.inj same)).1.symm other
        · exact fun isHeld => absurd (Database.unlocked (free row inRows) isHeld) other
      next => rfl
  | committed => exact (Change.commit : Change t s.ledger _).held_other other
  | closed => exact (Change.rollback : Change t s.ledger _).held_other other

/-- A row that is written and not committed was so before, or has just claimed its event. -/
theorem Outcome.held_row (outcome : Outcome t s op result s')
    (isHeld : s'.ledger.held k = some (u, some row)) :
    (s.ledger.held k = some (u, some row) ∧ (op = .commit → u ≠ t)) ∨
      u = t ∧ s.ledger.view t k = none ∧ row.insertedBy = some t ∧
        ∃ consumer eventId, op = .claim consumer eventId ∧ k = keyOf consumer eventId := by
  cases outcome with
  | same closes => exact .inl ⟨isHeld, fun isCommit => absurd isCommit closes.1⟩
  | claimed now free unseen =>
      rcases Database.held_of_write isHeld with old | ⟨rfl, rfl, written⟩
      · exact .inl ⟨old, nofun⟩
      · obtain rfl := Option.some.inj written
        exact .inr ⟨rfl, unseen, rfl, _, _, rfl, rfl⟩
  | saved => exact .inl ⟨isHeld, nofun⟩
  | deleted rows free =>
      rw [held_erases] at isHeld
      split at isHeld
      · cases isHeld
      · exact .inl ⟨isHeld, nofun⟩
  | committed =>
      obtain ⟨old, other⟩ := Database.held_of_commit isHeld
      exact .inl ⟨old, fun _ => other⟩
  | closed ends =>
      obtain ⟨old, other⟩ := Database.held_of_rollback isHeld
      exact .inl ⟨old, fun _ => other⟩

/-- Only a commit touches what is claimed and what is notified. -/
theorem Outcome.committed_or (outcome : Outcome t s op result s') :
    op = .commit ∧ s' = s.commit t ∨
      s'.claims = s.claims ∧ s'.notifications = s.notifications := by
  cases outcome with
  | committed => exact .inl ⟨rfl, rfl⟩
  | deleted => exact .inr ⟨by simp [Server.claims, committed_erases], rfl⟩
  | _ => exact .inr ⟨rfl, rfl⟩

theorem Outcome.pending_other (outcome : Outcome t s op result s') (other : u ≠ t) :
    rowsOf u s'.pending = rowsOf u s.pending := by
  cases outcome with
  | saved => simp [Server.save, rowsOf, other.symm]
  | committed => exact rowsOf_drop_other _ other
  | closed => exact rowsOf_drop_other _ other
  | _ => rfl

/-- Every notification is for a user. -/
def Server.Referred (s : Server) : Prop :=
  ∀ w ∈ s.pending ++ s.notifications, w.2.userId ∈ s.users

theorem Server.Referred.rollback (referred : s.Referred) (t : Nat) : (s.rollback t).Referred := by
  intro w member
  refine referred w (List.mem_append.mpr ?_)
  exact (List.mem_append.mp member).imp_left List.mem_of_mem_filter

theorem Outcome.users (outcome : Outcome t s op result s') : s'.users = s.users := by
  cases outcome <;> rfl

theorem Outcome.referred (outcome : Outcome t s op result s') (referred : s.Referred) : s'.Referred := by
  cases outcome with
  | saved isUser =>
      intro w member
      rcases List.mem_cons.mp member with rfl | old
      · exact isUser
      · exact referred w old
  | committed =>
      intro w member
      refine referred w (List.mem_append.mpr ?_)
      rcases List.mem_append.mp member with open' | closed
      · exact .inl (List.mem_of_mem_filter open')
      · exact (List.mem_append.mp closed).imp_left List.mem_of_mem_filter
  | closed => exact referred.rollback t
  | _ => exact referred

end Outcomes

section Invariant

variable {j : History} {e : Event}

theorem Consistent.fresh (consistent : Consistent j) (t : Nat) (k : Key) (row : ProcessedEvent)
    (isHeld : j.state.ledger.held k = some (t, some row)) :
    j.state.ledger.committed.get k = none := by
  obtain ⟨_, apart, _⟩ := consistent.opened t k row isHeld
  cases found : j.state.ledger.committed.get k with
  | none => rfl
  | some old =>
      have isKey : old.key = k := Table.key_of_get found
      exact absurd isKey (apart old (mem_claims.mpr (.inl (Database.stored_of_get found))))

theorem Consistent.mem_commit (consistent : Consistent j) {t : Nat} {row : ProcessedEvent} :
    row ∈ (j.state.commit t).claims ↔
      row ∈ j.state.claims ∨ j.state.ledger.held row.key = some (t, some row) :=
  mem_claims_commit (consistent.fresh t)

variable {t u : Nat} {op : Op} {result : op.Res} {s' : Server} {delivery : Call}

theorem Consistent.claims (consistent : Consistent j)
    (outcome : Outcome t j.state op result s') {row : ProcessedEvent} (member : row ∈ s'.claims) :
    row ∈ j.state.claims ∨ op = .commit ∧ s' = j.state.commit t ∧
      j.state.ledger.held row.key = some (t, some row) := by
  rcases outcome.committed_or with ⟨isCommit, rfl⟩ | ⟨same, _⟩
  · exact (consistent.mem_commit.mp member).imp_right fun isHeld => ⟨isCommit, rfl, isHeld⟩
  · exact .inl (same ▸ member)

theorem Consistent.rely (consistent : Consistent j) (outcome : Outcome t j.state op result s')
    (other : u ≠ t) : Rely u j.state s' where
  claims row member := by
    rcases outcome.committed_or with ⟨_, rfl⟩ | ⟨same, _⟩
    · exact consistent.mem_commit.mpr (.inl member)
    · exact same ▸ member
  held _ version := outcome.held_other other version
  pending := outcome.pending_other other

theorem Consistent.claims_grow (consistent : Consistent j)
    (outcome : Outcome t j.state op result s') : j.state.claims ⊆ s'.claims :=
  (consistent.rely outcome (Nat.succ_ne_self t)).claims

theorem Consistent.single_step (consistent : Consistent j)
    (outcome : Outcome t j.state op result s') :
    ∀ row ∈ s'.claims, ∀ row' ∈ s'.claims, row.key = row'.key → row = row' := by
  intro row member row' member' same
  rcases consistent.claims outcome member with old | ⟨_, _, isHeld⟩
  · rcases consistent.claims outcome member' with old' | ⟨_, _, isHeld'⟩
    · exact consistent.single row old row' old' same
    · exact absurd same ((consistent.opened t _ row' isHeld').2.1 row old)
  · rcases consistent.claims outcome member' with old' | ⟨_, _, isHeld'⟩
    · exact absurd same.symm ((consistent.opened t _ row isHeld).2.1 row' old')
    · rw [same, isHeld'] at isHeld
      exact (Option.some.inj (Prod.mk.inj (Option.some.inj isHeld)).2).symm

/-- A transaction that has claimed its event is the first to do so. -/
theorem Consistent.opened_step (consistent : Consistent j)
    (outcome : Outcome t j.state op result s') (justified : Justified t j op)
    (running : j.calls t = some delivery)
    (retained : ∀ consumer eventId, op = .claim consumer eventId →
      ∀ row ∈ j.state.swept, row.key ≠ keyOf consumer eventId)
    {k : Key} {row : ProcessedEvent} (isHeld : s'.ledger.held k = some (u, some row)) :
    row.insertedBy = some u ∧ (∀ row' ∈ s'.claims, row'.key ≠ k) ∧
      ∃ delivery, j.calls u = some delivery ∧ delivery.key = some k := by
  rcases outcome.held_row isHeld with ⟨old, stays⟩ | ⟨rfl, unseen, isOwn, consumer, eventId, rfl, rfl⟩
  · obtain ⟨isOwn, apart, running'⟩ := consistent.opened u k row old
    refine ⟨isOwn, fun row' member => ?_, running'⟩
    rcases consistent.claims outcome member with before | ⟨isCommit, _, isHeld'⟩
    · exact apart row' before
    · rintro rfl
      rw [old] at isHeld'
      exact stays isCommit (Prod.mk.inj (Option.some.inj isHeld')).1
  · obtain ⟨idle, isKey⟩ := justified
    refine ⟨isOwn, fun row' member isRow => ?_, delivery, running, isKey delivery running⟩
    rcases consistent.claims outcome member with before | ⟨isCommit, _⟩
    · rcases mem_claims.mp before with stored | swept
      · rw [idle.unwritten.view, ← isRow, stored] at unseen
        cases unseen
      · exact retained consumer eventId rfl row' swept isRow
    · cases isCommit

/-- Who has a claim in the ledger has no other open. -/
theorem Consistent.unclaimed (consistent : Consistent j) {row : ProcessedEvent}
    (member : row ∈ j.state.claims) (mine : row.insertedBy = some t) : j.state.Unclaimed t := by
  intro k row' isHeld
  obtain ⟨delivery, running, isKey, _⟩ := consistent.owned row member t mine
  obtain ⟨_, apart, delivery', running', isKey'⟩ := consistent.opened t k row' isHeld
  obtain rfl := Option.some.inj (running.symm.trans running')
  exact apart row member (Option.some.inj (isKey.symm.trans isKey'))

theorem notifications_commit (s : Server) :
    rowsOf u (s.commit t).notifications =
      (if u = t then rowsOf t s.pending else []) ++ rowsOf u s.notifications := by
  rw [Server.commit, rowsOf_append]
  split
  next same => rw [same, rowsOf_filter_self]
  next other => rw [rowsOf_filter_other _ other]

theorem Consistent.owned_step (consistent : Consistent j)
    (outcome : Outcome t j.state op result s') (justified : Justified t j op)
    {row : ProcessedEvent} (member : row ∈ s'.claims) (mine : row.insertedBy = some u) :
    ∃ delivery, j.calls u = some delivery ∧ delivery.key = some row.key ∧
      rowsOf u s'.notifications = delivery.drafts.reverse := by
  rcases consistent.claims outcome member with old | ⟨rfl, rfl, isHeld⟩
  · obtain ⟨delivery, running, isKey, rows⟩ := consistent.owned row old u mine
    refine ⟨delivery, running, isKey, ?_⟩
    rcases outcome.committed_or with ⟨rfl, rfl⟩ | ⟨_, same⟩
    · rw [notifications_commit, rows]
      split
      next isOwn =>
        subst isOwn
        rcases justified delivery running with ⟨_, nothing⟩ | ⟨holds, _⟩
        · rw [nothing, List.nil_append]
        · exact absurd (consistent.unclaimed old mine) holds
      next => rw [List.nil_append]
    · rw [same, rows]
  · obtain ⟨isOwn, apart, delivery, running, isKey⟩ := consistent.opened t _ row isHeld
    obtain rfl : u = t := Option.some.inj (mine.symm.trans isOwn)
    refine ⟨delivery, running, isKey, ?_⟩
    have earlier : rowsOf u j.state.notifications = [] := by
      rw [rowsOf, List.map_eq_nil_iff, List.filter_eq_nil_iff]
      intro w inTable isOwn'
      obtain ⟨row', claimed, inserted⟩ := consistent.noted w inTable
      rw [of_decide_eq_true isOwn'] at inserted
      exact consistent.unclaimed claimed inserted _ _ isHeld
    rcases justified delivery running with ⟨unclaimed, _⟩ | ⟨_, rows⟩
    · exact absurd isHeld (unclaimed _ _)
    · rw [notifications_commit, if_pos rfl, earlier, List.append_nil, rows]

theorem Consistent.noted_step (consistent : Consistent j)
    (outcome : Outcome t j.state op result s') (justified : Justified t j op)
    (running : j.calls t = some delivery) {w : Nat × Notification} (member : w ∈ s'.notifications) :
    ∃ row ∈ s'.claims, row.insertedBy = some w.1 := by
  have before : w ∈ j.state.notifications → ∃ row ∈ s'.claims, row.insertedBy = some w.1 := by
    intro old
    obtain ⟨row, claimed, inserted⟩ := consistent.noted w old
    exact ⟨row, consistent.claims_grow outcome claimed, inserted⟩
  rcases outcome.committed_or with ⟨rfl, rfl⟩ | ⟨_, same⟩
  · rcases List.mem_append.mp member with pends | old
    · obtain ⟨inPending, isOwn⟩ := List.mem_filter.mp pends
      have mine : w.1 = t := of_decide_eq_true isOwn
      rcases justified delivery running with ⟨_, nothing⟩ | ⟨holds, _⟩
      · rw [rowsOf, List.map_eq_nil_iff, List.filter_eq_nil_iff] at nothing
        exact absurd isOwn (nothing w inPending)
      · simp only [Server.Unclaimed, not_forall, not_not] at holds
        obtain ⟨k, row, isHeld⟩ := holds
        have isKey : row.key = k := Database.named isHeld
        refine ⟨row, consistent.mem_commit.mpr (.inr (isKey ▸ isHeld)), ?_⟩
        rw [mine]
        exact (consistent.opened t k row isHeld).1
    · exact before old
  · exact before (same ▸ member)

theorem Server.Idle.vacant {s : Server} (idle : s.Idle t) : Vacant t s :=
  ⟨fun k row => idle.unwritten k (some row), idle.nothing⟩

theorem Rely.idle {s s' : Server} (rely : Rely t s s') (idle : s.Idle t) : s'.Idle t where
  unwritten k version isHeld := idle.unwritten k version ((rely.held k version).mp isHeld)
  nothing := rely.pending.trans idle.nothing

theorem consistent_record (consistent : Consistent j)
    (performs : j.Performs service Retained e) (justified : Justified e.thread j e.op) :
    Consistent (j.record e) := by
  have exec : Exec e.thread j.state e.op e.result e.after := performs.before ▸ performs.exec
  have outcome := exec.outcome
  have retained : ∀ consumer eventId, e.op = .claim consumer eventId →
      ∀ row ∈ j.state.swept, row.key ≠ keyOf consumer eventId :=
    performs.before ▸ performs.permitted
  refine ⟨consistent.single_step outcome, fun t k row => ?_, fun row member t mine => ?_,
    fun w member => ?_, fun e' member => ?_, fun e' member isOp => ?_, fun t none => ?_⟩
  · exact consistent.opened_step outcome justified performs.running retained
  · exact consistent.owned_step outcome justified member mine
  · exact consistent.noted_step outcome justified performs.running member
  · rcases List.mem_cons.mp member with rfl | old
    · exact performs.before ▸ consistent.claims_grow outcome
    · exact List.Subset.trans (consistent.grown e' old) (consistent.claims_grow outcome)
  · rcases List.mem_cons.mp member with rfl | old
    · rw [isOp] at justified
      exact performs.before ▸ justified _ performs.running
    · exact consistent.answered e' old isOp
  · have other : t ≠ e.thread := by
      rintro rfl
      rw [Journal.record_log_self] at none
      cases none
    rw [Journal.record_log_of_ne other.symm] at none
    exact (consistent.rely outcome other).idle (consistent.begun t none)

def contract : Contract service Retained where
  inv := Consistent
  rely t j j' := Rely t j.state j'.state
  justified := Justified
  refl _ _ := ⟨List.Subset.refl _, fun _ _ => .rfl, rfl⟩
  trans _ _ _ _ first second := ⟨List.Subset.trans first.claims second.claims,
    fun k version => (second.held k version).trans (first.held k version),
    second.pending.trans first.pending⟩
  kept _ _ := consistent_record
  others j _ _ (consistent : Consistent j) performs _ other := by
    have exec : Exec _ _ _ _ _ := performs.before ▸ performs.exec
    exact consistent.rely exec.outcome other

end Invariant

section Programs

open NotificationConsumer (CONSUMER)

variable {t : Nat} {delivery : Call} {α β : Type} {P : Server → Prop}

variable (t delivery) in
/-- A part of a delivery, from what is known of the server before it to what is known after it,
unless it throws. -/
def Knows (P : Server → Prop) (p : Prog β) (post : β → Server → Prop) : Prop :=
  contract.Yields t delivery (fun j => P j.state) p fun value j => post value j.state

/-- What is known of the server whatever others do. -/
def Firm (t : Nat) (P : Server → Prop) : Prop :=
  ∀ s s', Rely t s s' → P s → P s'

theorem firm_idle : Firm t (Server.Idle · t) :=
  fun _ _ rely => rely.idle

theorem Rely.unclaimed {s s' : Server} (rely : Rely t s s') : s'.Unclaimed t ↔ s.Unclaimed t :=
  forall_congr' fun k => forall_congr' fun row => not_congr (rely.held k (some row))

theorem firm_holding (drafts : List Draft) : Firm t (Holding t drafts) :=
  fun _ _ rely known => ⟨mt rely.unclaimed.mp known.1, rely.pending.trans known.2⟩

theorem firm_vacant : Firm t (Vacant t) :=
  fun _ _ rely known => ⟨rely.unclaimed.mpr known.1, rely.pending.trans known.2⟩

theorem firm_done : Firm t (Done delivery) :=
  fun _ _ rely => Or.imp_right fun ⟨row, member, isKey⟩ => ⟨row, rely.claims member, isKey⟩

theorem firm_and {Q : Server → Prop} (first : Firm t P) (second : Firm t Q) :
    Firm t fun s => P s ∧ Q s :=
  fun s s' rely known => ⟨first s s' rely known.1, second s s' rely known.2⟩

theorem firm_or {Q : Server → Prop} (first : Firm t P) (second : Firm t Q) :
    Firm t fun s => P s ∨ Q s :=
  fun s s' rely => Or.imp (first s s' rely) (second s s' rely)

theorem knows_bind {p : Prog α} {f : α → Prog β} {middle : α → Server → Prop}
    {post : β → Server → Prop} (first : Knows t delivery P p middle)
    (rest : ∀ value, Knows t delivery (middle value) (f value) post) :
    Knows t delivery P (p >>= f) post :=
  Contract.yields_bind (fun value j => middle value j.state) first rest

theorem knows_pure {value : β} {post : β → Server → Prop} (holds : ∀ s, P s → post value s) :
    Knows t delivery P (pure value) post :=
  Contract.yields_pure fun j => holds j.state

theorem Knows.weaken {Q : Server → Prop} {p : Prog β} {post : β → Server → Prop}
    (knows : Knows t delivery P p post) (before : ∀ s, Q s → P s) : Knows t delivery Q p post :=
  Contract.Yields.weaken knows (fun j => before j.state) fun _ _ => id

theorem knows_call (firm : Firm t P) {op : Op} {post : op.Val → Server → Prop}
    (justified : ∀ j, Consistent j → j.calls t = some delivery → P j.state → Justified t j op)
    (step : ∀ j value s', Consistent j → j.calls t = some delivery → P j.state →
      Exec t j.state op (.ok value) s' → post value s') :
    Knows t delivery P (call op) post := by
  refine Contract.yields_exec (fun j j' => firm j.state j'.state) fun j consistent running known => ?_
  exact ⟨justified j consistent running known,
    fun value s' exec => step j value s' consistent running known exec⟩

theorem knows_claim {consumer : String} {eventId : UUID}
    (isKey : delivery.key = some (keyOf consumer eventId)) :
    Knows t delivery (Server.Idle · t) (ProcessedEventLedger.claim consumer eventId)
      fun won s => if won then Holding t [] s else Vacant t s ∧ Done delivery s := by
  refine knows_call firm_idle (fun j _ running idle => ⟨idle, fun delivery' running' => ?_⟩) ?_
  · obtain rfl := Option.some.inj (running.symm.trans running')
    exact isKey
  · intro j won s' _ _ idle exec
    obtain ⟨a, effected⟩ := exec.effect
    obtain ⟨⟨won', s₁⟩, claimed, same⟩ := Option.map_eq_some_iff.mp effected
    obtain ⟨isWon, rfl⟩ := Prod.mk.inj same
    obtain rfl := Except.ok.inj isWon
    simp only [Server.claim] at claimed
    split at claimed
    · contradiction
    next row reached =>
      obtain ⟨rfl, rfl⟩ := Prod.mk.inj (Option.some.inj claimed)
      have seen := (Database.reach_eq_some.mp reached).2
      have isRow : row.key = keyOf consumer eventId := Database.key_of_view seen
      rw [idle.unwritten.view] at seen
      exact ⟨idle.vacant, .inr ⟨row, mem_claims.mpr (.inl (Database.stored_of_get seen)),
        isKey.trans (congrArg some isRow.symm)⟩⟩
    next reached =>
      obtain ⟨rfl, rfl⟩ := Prod.mk.inj (Option.some.inj claimed)
      refine ⟨fun unclaimed => ?_, idle.nothing⟩
      exact unclaimed (keyOf consumer eventId) ⟨consumer, eventId, a.now, some t⟩
        (by rw [Database.held_write]; exact if_pos rfl)

theorem knows_save (drafts : List Draft) (draft : Draft) :
    Knows t delivery (Holding t drafts) (NotificationConsumer.save draft)
      fun _ => Holding t (drafts ++ [draft]) := by
  have saves : Knows t delivery (Holding t drafts) (call (.save draft))
      fun _ => Holding t (drafts ++ [draft]) := by
    refine knows_call (firm_holding drafts) (fun _ _ _ _ => trivial) ?_
    rintro j value s' _ _ ⟨holds, rows⟩ exec
    obtain ⟨a, effected⟩ := exec.effect
    simp only [effect] at effected
    split at effected
    swap
    · cases effected
    obtain ⟨_, rfl⟩ := Prod.mk.inj (Option.some.inj effected)
    refine ⟨holds, ?_⟩
    rw [List.reverse_append, ← rows]
    simp [Server.save, rowsOf]
  exact knows_bind saves fun _ => knows_pure fun _ => id

theorem knows_saveMentions (e : MessageSent) (mentions : List UUID) (drafts : List Draft) :
    Knows t delivery (Holding t drafts) (NotificationConsumer.saveMentions e mentions)
      fun _ => Holding t (drafts ++ (mentions.filter fun u => u ≠ e.senderId).map
        (NotificationConsumer.mention e)) := by
  induction mentions generalizing drafts with
  | nil => exact knows_pure fun s => by simp
  | cons mentioned rest ih =>
      unfold NotificationConsumer.saveMentions
      split
      next isSender =>
        have skipped : (mentioned :: rest).filter (fun u => u ≠ e.senderId) =
            rest.filter fun u => u ≠ e.senderId := by simp [isSender]
        rw [skipped]
        exact ih drafts
      next other =>
        have kept : (mentioned :: rest).filter (fun u => u ≠ e.senderId) =
            mentioned :: rest.filter fun u => u ≠ e.senderId := by simp [other]
        rw [kept, List.map_cons, ← List.singleton_append, ← List.append_assoc]
        exact knows_bind (knows_save drafts _) fun _ => ih _

theorem knows_rollback : Knows t delivery (fun _ => True) (call .rollback) fun _ _ => True :=
  knows_call (fun _ _ _ => id) (fun _ _ _ _ => trivial) fun _ _ _ _ _ _ _ => trivial

/-- What is known of a transaction before it commits. -/
def Whole (t : Nat) (delivery : Call) (s : Server) : Prop :=
  Holding t delivery.drafts s ∨ Vacant t s ∧ Done delivery s

theorem knows_commit : Knows t delivery (Whole t delivery) (call .commit)
    fun _ => Done delivery := by
  refine knows_call (firm_or (firm_holding _) (firm_and firm_vacant firm_done)) ?_ ?_
  · intro j _ running known delivery' running'
    obtain rfl := Option.some.inj (running.symm.trans running')
    exact known.symm.imp_left And.left
  · intro j value s' consistent running known exec
    obtain ⟨a, effected⟩ := exec.effect
    obtain ⟨_, rfl⟩ := Prod.mk.inj (Option.some.inj effected)
    rcases known with ⟨holds, _⟩ | ⟨_, nothing | ⟨row, member, isKey⟩⟩
    · simp only [Server.Unclaimed, not_forall, not_not] at holds
      obtain ⟨k, row, isHeld⟩ := holds
      have isRow : row.key = k := Database.named isHeld
      obtain ⟨_, _, delivery', running', isKey⟩ := consistent.opened t k row isHeld
      obtain rfl := Option.some.inj (running.symm.trans running')
      exact .inr ⟨row, consistent.mem_commit.mpr (.inr (isRow ▸ isHeld)), isRow ▸ isKey⟩
    · exact .inl nothing
    · exact .inr ⟨row, consistent.mem_commit.mpr (.inl member), isKey⟩

theorem knows_execute {body : Prog Unit}
    (inside : Knows t delivery (Server.Idle · t) body fun _ => Whole t delivery) :
    Knows t delivery (Server.Idle · t) (execute body) fun _ => Done delivery :=
  Contract.yields_transactional inside knows_rollback fun _ => knows_commit

theorem knows_handle {eventId : UUID} {rows : Prog Unit}
    (isKey : delivery.key = some (keyOf CONSUMER eventId))
    (saves : Knows t delivery (Holding t []) rows fun _ => Holding t delivery.drafts) :
    Knows t delivery (Server.Idle · t) (NotificationConsumer.handle eventId rows)
      fun _ => Done delivery := by
  refine knows_execute (knows_bind (knows_claim isKey) fun won => ?_)
  cases won with
  | true => exact Contract.Yields.weaken saves (fun _ => id) fun _ _ => .inl
  | false => exact knows_pure fun _ known => .inr known

theorem knows_sweep (nothing : delivery.drafts = []) :
    Knows t delivery (Server.Idle · t) ProcessedEventLedger.sweep fun _ => Done delivery := by
  have now : Knows t delivery (Vacant t) (call .now) fun _ => Vacant t := by
    refine knows_call firm_vacant (fun _ _ _ _ => trivial) ?_
    intro j value s' _ _ vacant exec
    obtain ⟨a, effected⟩ := exec.effect
    obtain ⟨_, rfl⟩ := Prod.mk.inj (Option.some.inj effected)
    exact vacant
  have deletes (cutoff : Instant) : Knows t delivery (Vacant t)
      (call (.deleteProcessedBefore cutoff)) fun _ => Vacant t := by
    refine knows_call firm_vacant (fun _ _ _ _ => trivial) ?_
    intro j value s' _ _ vacant exec
    refine ⟨fun k row isHeld => ?_, ?_⟩
    · rcases exec.outcome.held_row isHeld with ⟨old, _⟩ | ⟨_, _, _, _, _, isClaim, _⟩
      · exact vacant.1 k row old
      · cases isClaim
    · obtain ⟨a, effected⟩ := exec.effect
      obtain ⟨⟨count, s₁⟩, erased, same⟩ := Option.map_eq_some_iff.mp effected
      obtain ⟨_, rfl⟩ := Prod.mk.inj same
      simp only [Server.deleteProcessedBefore] at erased
      split at erased
      · contradiction
      · obtain ⟨_, rfl⟩ := Prod.mk.inj (Option.some.inj erased)
        exact vacant.2
  have body : Knows t delivery (Vacant t) (do
      let now ← call .now
      let _ ← call (.deleteProcessedBefore (now - ProcessedEventLedger.RETENTION)))
      fun _ => Whole t delivery :=
    knows_bind now fun _ => knows_bind (deletes _) fun _ =>
      knows_pure fun _ vacant => .inr ⟨vacant, .inl nothing⟩
  exact knows_execute (body.weaken fun _ idle => idle.vacant)

theorem knows_handler (delivery : Call) :
    Knows t delivery (Server.Idle · t) delivery.handler fun _ => Done delivery := by
  cases delivery with
  | message e =>
      simp only [Call.handler, NotificationConsumer.onMessageSent]
      split
      next empty =>
        have nothing : e.mentions = [] := List.isEmpty_iff.mp empty
        exact knows_pure fun _ _ => .inl (by simp [Call.drafts, nothing])
      next =>
        have saves : Knows t (.message e) (Holding t [])
            (NotificationConsumer.saveMentions e e.mentions)
            fun _ => Holding t (Call.message e).drafts := knows_saveMentions e e.mentions []
        exact knows_handle rfl saves
  | direct e => exact knows_handle rfl (knows_save [] _)
  | requested e => exact knows_handle rfl (knows_save [] _)
  | sweep => exact knows_sweep rfl

theorem guides_program (t : Nat) (delivery : Call) :
    contract.Guides t delivery (fun j => j.state.Idle t) delivery.program fun _ _ => True := by
  have handles : contract.Yields t delivery (fun j => j.state.Idle t) (settle delivery.handler)
      (Contract.Passing fun _ j => Done delivery j.state) :=
    Contract.yields_settle (knows_handler delivery)
  have returns : contract.Yields t delivery (fun j => j.state.Idle t) delivery.program
      fun _ _ => True := by
    refine Contract.yields_bind _ handles fun result => ?_
    cases result with
    | ok value =>
        have done : Knows t delivery (Done delivery) (call (.returned (.ok value)))
            fun _ _ => True := by
          refine knows_call firm_done (fun j _ running done delivery' running' => ?_)
            fun _ _ _ _ _ _ _ => trivial
          obtain rfl := Option.some.inj (running.symm.trans running')
          exact done
        exact done
    | error e =>
        have failed : Knows t delivery (fun _ => True) (call (.returned (.error e)))
            fun _ _ => True :=
          knows_call (fun _ _ _ => id) (fun _ _ _ _ => trivial) fun _ _ _ _ _ _ _ => trivial
        exact failed
  exact Contract.Guides.weaken returns (fun _ => id) fun _ _ _ => trivial

end Programs

theorem consistent_of_reaches {s : Server} {eventId : UUID} {j : History}
    {admits : History → Call → Prop} (unprocessed : s.Unprocessed eventId)
    (reaches : service.Reaches admits Retained s j) : Consistent j := by
  have claimed : ∀ row ∈ s.claims, row.insertedBy = none := by
    intro row member
    rw [Server.claims, unprocessed.swept, List.append_nil] at member
    exact unprocessed.older row member
  have idle : ∀ t, s.Idle t := fun t => {
    unwritten := Database.unwritten_of_isEmpty unprocessed.pending
    nothing := by rw [unprocessed.unsaved]; rfl }
  have initial : Consistent (.empty s) := by
    refine ⟨fun row member row' member' same => ?_, fun t k row isHeld => ?_,
      fun row member t mine => ?_, fun w member => ?_, fun e member => ?_, fun e member => ?_,
      fun t _ => idle t⟩
    · simp only [Journal.empty_state, Server.claims, unprocessed.swept, List.append_nil,
        Database.mem_rows] at member member'
      exact member.unique member' same
    · exact absurd isHeld ((idle t).unwritten k _)
    · rw [claimed row member] at mine
      cases mine
    · rw [Journal.empty_state, unprocessed.notifications] at member
      cases member
    · cases member
    · cases member
  refine reaches.under contract initial (fun j t delivery consistent idle' _ => ⟨?_, fun u _ => ?_⟩)
    fun t delivery => ?_
  · refine ⟨consistent.single, fun u k row isHeld => ?_, fun row member u mine => ?_,
      consistent.noted, consistent.grown, consistent.answered, consistent.begun⟩
    · obtain ⟨isOwn, apart, call, running, isKey⟩ := consistent.opened u k row isHeld
      exact ⟨isOwn, apart, call, Journal.calls_begin idle' running, isKey⟩
    · obtain ⟨call, running, rest⟩ := consistent.owned row member u mine
      exact ⟨call, Journal.calls_begin idle' running, rest⟩
  · exact contract.refl u j
  · exact Contract.Guides.weaken (guides_program t delivery)
      (fun j start => start.1.begun t start.2) fun _ _ => id

end Notifications
