import CipherChat.Rooms.Conduct
import CipherChat.Rooms.Table

/-!
What holds in every run of the server: how the rows, the dedup keys and the sends under way
belong together.
-/

namespace Rooms

open Async

/-- Thread `t` runs a send with this room and client id. -/
def Sending (j : History) (t : Nat) (roomId : UUID) (clientId : Option UUID) : Prop :=
  ∃ request, j.calls t = some request ∧ request.target = some (roomId, clientId)

theorem Sending.unique {j : History} {t : Nat} {roomId roomId' : UUID}
    {clientId clientId' : Option UUID} (sending : Sending j t roomId clientId)
    (sending' : Sending j t roomId' clientId') : roomId = roomId' ∧ clientId = clientId' := by
  obtain ⟨request, running, target⟩ := sending
  obtain ⟨request', running', target'⟩ := sending'
  obtain rfl := Option.some.inj (running.symm.trans running')
  exact Prod.mk.inj (Option.some.inj (target.symm.trans target'))

theorem Call.sendLaw_of_target {request : Call} {roomId : UUID} {clientId : Option UUID}
    {log : Log Op Op.Res} {op : Op} (target : request.target = some (roomId, clientId))
    (lawful : law request log op) : sendLaw roomId clientId (progress roomId log) op := by
  cases request with
  | attempt | post | postFile =>
      obtain ⟨rfl, rfl⟩ := Prod.mk.inj (Option.some.inj target)
      exact lawful
  | _ => cases target

/-- The operations only a send performs. -/
def SendOnly : Op → Prop
  | .redisGet _ | .findByClientMessageId .. | .setIfAbsent .. | .increment _ | .save _ | .commit
  | .rollback => True
  | _ => False

theorem Call.target_of_sendOnly {request : Call} {log : Log Op Op.Res} {op : Op}
    (only : SendOnly op) (lawful : law request log op) :
    ∃ roomId clientId, request.target = some (roomId, clientId) := by
  cases request with
  | attempt | post | postFile => exact ⟨_, _, rfl⟩
  | syncRooms | delete | sweepExpired =>
      cases op <;> first | exact only.elim | exact False.elim lawful
  | evict | crash =>
      obtain rfl := lawful
      exact only.elim

namespace Event

def Persists (e : Event) (m : Message) : Prop :=
  m ∈ e.after.messages ∧ m ∉ e.before.messages

def Removes (e : Event) (m : Message) : Prop :=
  m ∈ e.before.messages ∧ m ∉ e.after.messages

end Event

/-- What a send knows agrees with the table. -/
structure SendKept (j : History) (t : Nat) (roomId : UUID) (clientId : Option UUID)
    (p : Progress) : Prop where
  cached : ∀ id, p.cached = some id → Names j.state roomId clientId id
  seen : ∀ m, p.seen = some m → Names j.state roomId clientId m.id ∧
    m.chatroomId = roomId ∧ m.clientMessageId = clientId
  inserted : ∀ m, p.inserted = some m → t ∉ j.state.stopped → j.state.pending.lookup t = some m
  committed : ∀ m, p.committed = some m → Names j.state roomId clientId m.id ∧
    m.chatroomId = roomId ∧ m.clientMessageId = clientId ∧
    ∃ e ∈ j.past, e.thread = t ∧ Event.Persists e m

structure Kept (j : History) : Prop where
  tidy : Tidy j.state
  names : ∀ roomId cid id, j.state.redis (.dedup roomId cid) = some id →
    Names j.state roomId (some cid) id
  sends : ∀ t roomId clientId, Sending j t roomId clientId →
    SendKept j t roomId clientId (progress roomId (j.log t))
  pending : ∀ t m, (t, m) ∈ j.state.pending → t ∉ j.state.stopped ∧
    Sending j t m.chatroomId m.clientMessageId ∧
    (progress m.chatroomId (j.log t)).opened = true ∧
    (progress m.chatroomId (j.log t)).held = some (m.chatroomId, m.sequenceNumber)

section Step

variable {permits : History → Event → Prop} {j : History} {e : Event}

theorem progress_self (e : Event) (roomId : UUID) :
    progress roomId ((j.record e).log e.thread) =
      (progress roomId (j.log e.thread)).after roomId e.logged := by
  rw [Journal.record_log_self]
  rfl

theorem performs_outcome (performs : j.Performs service permits e) :
    Outcome e.thread j.state e.op e.result e.after :=
  performs.before ▸ Exec.outcome performs.exec

/-- The operation of a send is one of its law. -/
theorem Sending.lawful {roomId : UUID} {clientId : Option UUID}
    (sending : Sending j e.thread roomId clientId) (performs : j.Performs service permits e)
    (lawful : law e.call (j.log e.thread) e.op) :
    sendLaw roomId clientId (progress roomId (j.log e.thread)) e.op := by
  obtain ⟨request, running, target⟩ := sending
  obtain rfl := Option.some.inj (performs.running.symm.trans running)
  exact Call.sendLaw_of_target target lawful

theorem sending_of_sendOnly (performs : j.Performs service permits e) (only : SendOnly e.op)
    (lawful : law e.call (j.log e.thread) e.op) : ∃ roomId clientId,
      Sending j e.thread roomId clientId ∧
        sendLaw roomId clientId (progress roomId (j.log e.thread)) e.op := by
  obtain ⟨roomId, clientId, target⟩ := Call.target_of_sendOnly only lawful
  exact ⟨roomId, clientId, ⟨e.call, performs.running, target⟩,
    Call.sendLaw_of_target target lawful⟩

/-- The open transaction of another thread stays as it is, while its replica does. -/
theorem Outcome.lookup_of_ne {t u : Nat} {s s' : Server} {op : Op} {result : op.Res}
    (outcome : Outcome t s op result s') (other : u ≠ t) (running : u ∉ s'.stopped) :
    u ∉ s.stopped ∧ s'.pending.lookup u = s.pending.lookup u := by
  cases outcome with
  | same same _ => exact ⟨same.stopped ▸ running, by rw [same.pending]⟩
  | saved m _ _ _ _ isAfter =>
      subst isAfter
      exact ⟨running, by rw [List.lookup_cons, beq_false_of_ne other]⟩
  | committed m _ isAfter =>
      subst isAfter
      exact ⟨running, lookup_close other⟩
  | closed _ _ isAfter =>
      subst isAfter
      exact ⟨running, lookup_close other⟩
  | seeded _ isAfter | counted isAfter | removed _ _ isAfter | evicted isAfter =>
      subst isAfter
      exact ⟨running, rfl⟩
  | crashed isAfter =>
      subst isAfter
      simp only [List.mem_cons, not_or] at running
      exact ⟨running.2, lookup_close running.1⟩

/-- While it does not end its transaction, the thread keeps the row it has inserted. -/
theorem Outcome.lookup_self {t : Nat} {s s' : Server} {op : Op} {result : op.Res} {m : Message}
    (outcome : Outcome t s op result s') (commit : op ≠ .commit) (rollback : op ≠ .rollback)
    (save : ∀ draft, op ≠ .save draft) (inserted : s.pending.lookup t = some m)
    (running : t ∉ s'.stopped) : s'.pending.lookup t = some m := by
  cases outcome with
  | same same _ => rw [same.pending, inserted]
  | saved => exact absurd rfl (save _)
  | committed => exact absurd rfl commit
  | closed ends => exact absurd ends (not_or.mpr ⟨commit, rollback⟩)
  | seeded _ isAfter | counted isAfter | removed _ _ isAfter | evicted isAfter =>
      subst isAfter
      exact inserted
  | crashed isAfter =>
      subst isAfter
      simp only [List.mem_cons, not_or] at running
      rw [lookup_close running.1, inserted]

theorem SendKept.other {t : Nat} {roomId : UUID} {clientId : Option UUID} {p : Progress}
    (kept : SendKept j t roomId clientId p) (performs : j.Performs service permits e)
    (other : t ≠ e.thread) : SendKept (j.record e) t roomId clientId p := by
  have outcome := performs_outcome performs
  refine ⟨fun id cached => (kept.cached id cached).after outcome, fun m seen => ?_,
    fun m inserted running => ?_, fun m committed => ?_⟩
  · obtain ⟨names, here⟩ := kept.seen m seen
    exact ⟨names.after outcome, here⟩
  · obtain ⟨before, same⟩ := outcome.lookup_of_ne other running
    rw [Journal.record_state, same]
    exact kept.inserted m inserted before
  · obtain ⟨names, room, named, e', old, rest⟩ := kept.committed m committed
    exact ⟨names.after outcome, room, named, e', List.mem_cons_of_mem _ old, rest⟩

theorem Kept.self {roomId : UUID} {clientId : Option UUID} (kept : Kept j)
    (performs : j.Performs service permits e) (sending : Sending j e.thread roomId clientId)
    (lawful : sendLaw roomId clientId (progress roomId (j.log e.thread)) e.op) :
    SendKept (j.record e) e.thread roomId clientId
      ((progress roomId (j.log e.thread)).after roomId e.logged) := by
  have outcome := performs_outcome performs
  have running : e.thread ∉ j.state.stopped := performs.before ▸ Exec.running performs.exec
  have before := kept.sends _ _ _ sending
  generalize progress roomId (j.log e.thread) = p at before lawful
  obtain ⟨t, request, op, result, s, s'⟩ := e
  refine ⟨fun id cached => ?_, fun m seen => ?_, fun m inserted still => ?_, fun m committed => ?_⟩
  · rcases Progress.after_cached cached with old | ⟨room, cid, isOp⟩
    · exact (before.cached id old).after outcome
    · obtain ⟨rfl, isResult⟩ := Sigma.mk.inj isOp
      obtain rfl := eq_of_heq isResult
      obtain ⟨cid', named, isKey⟩ := lawful
      obtain ⟨rfl, rfl⟩ := RedisKey.dedup.inj isKey
      have tells : some id = j.state.redis (.dedup room cid) := (outcome.of_reads trivial).2
      exact named ▸ (kept.names room cid id tells.symm).after outcome
  · rcases Progress.after_seen seen with old | ⟨id, isOp⟩ | ⟨room, cid, isOp⟩
    · obtain ⟨names, here⟩ := before.seen m old
      exact ⟨names.after outcome, here⟩
    · obtain ⟨rfl, isResult⟩ := Sigma.mk.inj isOp
      obtain rfl := eq_of_heq isResult
      obtain ⟨member, rfl⟩ := (outcome.of_reads trivial).2 m rfl
      have names := before.cached m.id lawful.2
      exact ⟨names.after outcome, names.2 m (Server.mem_rows_of_mem_messages member) rfl⟩
    · obtain ⟨rfl, isResult⟩ := Sigma.mk.inj isOp
      obtain rfl := eq_of_heq isResult
      obtain ⟨rfl, rfl⟩ := lawful
      obtain ⟨member, here, named⟩ := (outcome.of_reads trivial).2.1 m rfl
      have names := kept.tidy.names (Server.mem_rows_of_mem_messages member)
      rw [here, named] at names
      exact ⟨names.after outcome, here, named⟩
  · rcases Progress.after_inserted inserted with ⟨draft, isOp⟩ | ⟨old, commit, rollback⟩
    · obtain ⟨rfl, isResult⟩ := Sigma.mk.inj isOp
      obtain rfl := eq_of_heq isResult
      obtain ⟨_, isAfter⟩ := outcome.save_ok
      rw [Journal.record_state]
      simp only at isAfter ⊢
      rw [isAfter]
      simp
    · refine outcome.lookup_self commit rollback ?_ (before.inserted m old running) still
      rintro draft rfl
      have fresh : p.inserted = none := lawful.2.2.2.2.1
      rw [fresh] at old
      cases old
  · rcases Progress.after_committed committed with old | ⟨isOp, inserted⟩
    · obtain ⟨names, room, named, e', old, rest⟩ := before.committed m old
      exact ⟨names.after outcome, room, named, e', List.mem_cons_of_mem _ old, rest⟩
    · obtain ⟨rfl, isResult⟩ := Sigma.mk.inj isOp
      obtain rfl := eq_of_heq isResult
      obtain ⟨m', isOpen, isAfter⟩ := outcome.commit_ok
      have same : m = m' := by
        have holds := before.inserted m inserted running
        exact Option.some.inj (holds.symm.trans isOpen)
      subst same
      have member := mem_of_lookup isOpen
      obtain ⟨room, named⟩ := (kept.pending _ _ member).2.1.unique sending
      have names := kept.tidy.names (Server.mem_rows_of_mem_pending member)
      rw [room, named] at names
      refine ⟨names.after outcome, room, named, _, List.mem_cons_self, rfl, ?_, fun old => ?_⟩
      · simp only at isAfter
        rw [isAfter]
        exact List.mem_cons_self
      · have apart := List.pairwise_append.mp kept.tidy.apart
        have old : m ∈ j.state.messages := performs.before ▸ old
        exact (apart.2.2 m old m (List.mem_map_of_mem member)).1 rfl

theorem Outcome.redis {t : Nat} {s s' : Server} {op : Op} {result : op.Res}
    (outcome : Outcome t s op result s') : s'.redis = s.redis ∨
      (∃ key value, op = .setIfAbsent key value ∧ s.redis key = none ∧
        s'.redis = Function.update s.redis key (some value)) ∨
      (∃ key, op = .increment key ∧
        s'.redis = Function.update s.redis key (some ((s.redis key).getD 0 + 1))) ∨
      ∃ key, op = .evict key ∧ s'.redis = Function.update s.redis key none := by
  cases outcome with
  | same same _ => exact .inl same.redis
  | seeded absent isAfter =>
      subst isAfter
      exact .inr (.inl ⟨_, _, rfl, absent, rfl⟩)
  | counted isAfter =>
      subst isAfter
      exact .inr (.inr (.inl ⟨_, rfl, rfl⟩))
  | evicted isAfter =>
      subst isAfter
      exact .inr (.inr (.inr ⟨_, rfl, rfl⟩))
  | saved _ _ _ _ _ isAfter | committed _ _ isAfter | closed _ _ isAfter | removed _ _ isAfter
  | crashed isAfter =>
      subst isAfter
      exact .inl rfl

/-- A row in a transaction was there before, and the transaction goes on, or has just been
inserted. -/
theorem Outcome.mem_pending {t u : Nat} {s s' : Server} {op : Op} {result : op.Res} {m : Message}
    (outcome : Outcome t s op result s') (member : (u, m) ∈ s'.pending)
    (running : (u, m) ∈ s.pending → u ∉ s.stopped) (mine : t ∉ s.stopped) : u ∉ s'.stopped ∧
      ((u, m) ∈ s.pending ∧ (u = t → op ≠ .commit ∧ op ≠ .rollback) ∨
        u = t ∧ ∃ draft, op = .save draft ∧ m.toDraft = draft) := by
  cases outcome with
  | same same tells =>
      rw [same.pending] at member
      refine ⟨same.stopped ▸ running member, .inl ⟨member, fun _ => ⟨?_, ?_⟩⟩⟩
      · rintro rfl
        exact tells
      · rintro rfl
        exact tells
  | saved m' isDraft _ _ _ isAfter =>
      subst isAfter
      rcases List.mem_cons.mp member with new | old
      · obtain ⟨rfl, rfl⟩ := Prod.mk.inj new
        exact ⟨mine, .inr ⟨rfl, _, rfl, isDraft⟩⟩
      · exact ⟨running old, .inl ⟨old, fun _ => ⟨nofun, nofun⟩⟩⟩
  | committed m' _ isAfter | closed _ _ isAfter =>
      subst isAfter
      obtain ⟨old, other⟩ := List.mem_filter.mp member
      exact ⟨running old, .inl ⟨old, fun same => absurd same (by simpa using other)⟩⟩
  | removed _ isRemoval isAfter =>
      subst isAfter
      refine ⟨running member, .inl ⟨member, fun _ => ?_⟩⟩
      rcases isRemoval with ⟨_, rfl⟩ | ⟨_, rfl⟩
      · exact ⟨nofun, nofun⟩
      · exact ⟨nofun, nofun⟩
  | seeded _ isAfter | counted isAfter | evicted isAfter =>
      subst isAfter
      exact ⟨running member, .inl ⟨member, fun _ => ⟨nofun, nofun⟩⟩⟩
  | crashed isAfter =>
      subst isAfter
      obtain ⟨old, other⟩ := List.mem_filter.mp member
      refine ⟨?_, .inl ⟨old, fun _ => ⟨nofun, nofun⟩⟩⟩
      simp only [List.mem_cons, not_or]
      exact ⟨by simpa using other, running old⟩

theorem Kept.names_after (kept : Kept j) (performs : j.Performs service permits e)
    (lawful : law e.call (j.log e.thread) e.op) {roomId cid : UUID} {id : Nat}
    (held : e.after.redis (.dedup roomId cid) = some id) : Names e.after roomId (some cid) id := by
  have outcome := performs_outcome performs
  rcases outcome.redis with same | ⟨key, value, isOp, absent, isAfter⟩ | ⟨key, isOp, isAfter⟩ |
    ⟨key, isOp, isAfter⟩
  · rw [same] at held
    exact (kept.names roomId cid id held).after outcome
  · rw [isAfter] at held
    by_cases here : key = .dedup roomId cid
    · subst here
      rw [Function.update_self] at held
      obtain rfl := Option.some.inj held
      have only : SendOnly e.op := by rw [isOp]; trivial
      obtain ⟨room, clientId, sending, lawful⟩ := sending_of_sendOnly performs only lawful
      rw [isOp] at lawful
      rcases lawful with ⟨isSeq, _⟩ | ⟨cid', m, rfl, isKey, committed, isId⟩
      · cases isSeq
      · obtain ⟨rfl, rfl⟩ := RedisKey.dedup.inj isKey
        have names := ((kept.sends _ _ _ sending).committed m committed).1
        rw [isId] at names
        exact names.after outcome
    · rw [Function.update_of_ne (Ne.symm here)] at held
      exact (kept.names roomId cid id held).after outcome
  · have other : RedisKey.dedup roomId cid ≠ key := by
      have only : SendOnly e.op := by rw [isOp]; trivial
      obtain ⟨room, clientId, _, lawful⟩ := sending_of_sendOnly performs only lawful
      rw [isOp] at lawful
      have isKey : key = .seq room := lawful.1
      rw [isKey]
      exact nofun
    rw [isAfter, Function.update_of_ne other] at held
    exact (kept.names roomId cid id held).after outcome
  · rw [isAfter] at held
    by_cases here : key = .dedup roomId cid
    · subst here
      rw [Function.update_self] at held
      cases held
    · rw [Function.update_of_ne (Ne.symm here)] at held
      exact (kept.names roomId cid id held).after outcome

/-- A row stays in the transaction of a send that does not end it, with its number held. -/
theorem Progress.after_of_opened {p : Progress} {roomId : UUID} {clientId : Option UUID} {x : Done}
    {slot : UUID × Nat} (opened : p.opened = true) (held : p.held = some slot)
    (lawful : sendLaw roomId clientId p x.1) (commit : x.1 ≠ .commit) (rollback : x.1 ≠ .rollback) :
    (p.after roomId x).opened = true ∧ (p.after roomId x).held = some slot := by
  refine ⟨opened_after commit rollback opened, ?_⟩
  rw [held_after ?_ commit rollback ?_, held]
  · intro key isOp
    rw [isOp] at lawful
    rw [lawful.2.2.1] at opened
    cases opened
  · intro response isOp
    rw [isOp] at lawful
    rw [lawful.1] at opened
    cases opened

theorem Kept.record (kept : Kept j) (performs : j.Performs service permits e)
    (lawful : law e.call (j.log e.thread) e.op) : Kept (j.record e) := by
  have outcome := performs_outcome performs
  have running : e.thread ∉ j.state.stopped := performs.before ▸ Exec.running performs.exec
  refine ⟨outcome.tidy kept.tidy, fun roomId cid id => kept.names_after performs lawful,
    fun t roomId clientId sending => ?_, fun t m member => ?_⟩
  · have before : Sending j t roomId clientId := sending
    by_cases mine : t = e.thread
    · subst mine
      rw [progress_self]
      exact kept.self performs before (before.lawful performs lawful)
    · rw [Journal.record_log_of_ne (Ne.symm mine)]
      exact (kept.sends t roomId clientId before).other performs mine
  · obtain ⟨still, ⟨old, ends⟩ | ⟨rfl, draft, isOp, isDraft⟩⟩ :=
      outcome.mem_pending member (fun old => (kept.pending t m old).1) running
    · obtain ⟨_, sending, opened, held⟩ := kept.pending t m old
      refine ⟨still, sending, ?_⟩
      by_cases mine : t = e.thread
      · subst mine
        rw [progress_self]
        obtain ⟨commit, rollback⟩ := ends rfl
        exact Progress.after_of_opened opened held (sending.lawful performs lawful) commit rollback
      · rw [Journal.record_log_of_ne (Ne.symm mine)]
        exact ⟨opened, held⟩
    · have only : SendOnly e.op := by rw [isOp]; trivial
      obtain ⟨roomId, clientId, sending, lawful⟩ := sending_of_sendOnly performs only lawful
      have isLogged : e.logged.1 = .save draft := isOp
      rw [isOp] at lawful
      obtain ⟨room, named, held, _⟩ := lawful
      rw [← isDraft] at room named held
      rw [progress_self, room, named]
      subst isDraft
      refine ⟨still, sending, ?_, ?_⟩
      · generalize e.logged = x at isLogged
        obtain ⟨op, result⟩ := x
        obtain rfl : op = .save m.toDraft := isLogged
        cases result <;> rfl
      · rw [Progress.held_after (by rw [isLogged]; exact nofun) (by rw [isLogged]; exact nofun)
          (by rw [isLogged]; exact nofun) (by rw [isLogged]; exact nofun), held]

end Step

theorem SendKept.start (j : History) (t : Nat) (roomId : UUID) (clientId : Option UUID) :
    SendKept j t roomId clientId {} :=
  ⟨fun _ cached => (Option.some_ne_none _ cached.symm).elim,
    fun _ seen => (Option.some_ne_none _ seen.symm).elim,
    fun _ inserted => (Option.some_ne_none _ inserted.symm).elim,
    fun _ committed => (Option.some_ne_none _ committed.symm).elim⟩

/-- A server at its first start: nothing sent, and nothing in Redis. -/
structure Fresh (s : Server) : Prop where
  messages : s.messages = []
  pending : s.pending = []
  redis : ∀ key, s.redis key = none

theorem Fresh.kept {s : Server} (fresh : Fresh s) : Kept (.empty s) := by
  have none : s.rows = [] := by simp [Server.rows, fresh.messages, fresh.pending]
  refine ⟨⟨?_, fun m member => ?_⟩, fun roomId cid id held => ?_, ?_, fun t m member => ?_⟩
  · rw [Journal.empty_state, none]
    exact .nil
  · rw [Journal.empty_state, none] at member
    cases member
  · rw [Journal.empty_state, fresh.redis] at held
    cases held
  · rintro t roomId clientId ⟨_, running, _⟩
    cases running
  · rw [Journal.empty_state, fresh.pending] at member
    cases member

theorem Kept.begin {j : History} {t : Nat} {request : Call} (kept : Kept j)
    (idle : j.calls t = none) (unused : j.log t = []) : Kept (j.begin t request) := by
  refine ⟨kept.tidy, kept.names, fun u roomId clientId sending => ?_, fun u m member => ?_⟩
  · obtain ⟨request', running, target⟩ := sending
    rcases Journal.of_calls_begin running with ⟨rfl, rfl⟩ | before
    · rw [Journal.begin_log, unused]
      exact .start _ _ _ _
    · have held := kept.sends u roomId clientId ⟨request', before, target⟩
      exact ⟨held.cached, held.seen, held.inserted, held.committed⟩
  · obtain ⟨running, ⟨request', calls, target⟩, rest⟩ := kept.pending u m member
    exact ⟨running, ⟨request', Journal.calls_begin idle calls, target⟩, rest⟩

variable {admits : History → Call → Prop} {permits : History → Event → Prop} {s : Server}
  {j : History}

theorem Reaches.kept (fresh : Fresh s) (reaches : service.Reaches admits permits s j) : Kept j :=
  reaches.invariant Kept service_follows fresh.kept (fun _ _ _ kept idle unused _ => kept.begin idle unused)
    fun _ _ kept performs lawful => kept.record performs lawful

end Rooms
