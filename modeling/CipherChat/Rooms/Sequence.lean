import CipherChat.Rooms.Delivery

/-!
Sequence numbers across losses of the Redis counter: they are never issued again as long as
the counter starts again from no less than every number in use.
-/

namespace Rooms

open Async

def Persisted (past : List Event) (m : Message) : Prop :=
  ∃ e ∈ past, Event.Persists e m

/-- A send under way holds the number. -/
def Holds (j : History) (t : Nat) (roomId : UUID) (n : Nat) : Prop :=
  t ∉ j.state.stopped ∧ ∃ clientId, Sending j t roomId clientId ∧
    (progress roomId (j.log t)).held = some (roomId, n)

def InUse (j : History) (roomId : UUID) (n : Nat) : Prop :=
  (∃ m, Persisted j.past m ∧ m.chatroomId = roomId ∧ m.sequenceNumber = n) ∨
    ∃ t, Holds j t roomId n

namespace Event

def Issues (e : Event) (roomId : UUID) (n : Nat) : Prop :=
  e.logged = ⟨.increment (.seq roomId), .ok n⟩

/-- The counter of the room, which was missing, starts again from `base`. -/
def Restarts (e : Event) (roomId : UUID) (base : Nat) : Prop :=
  e.before.redis (.seq roomId) = none ∧ e.after.redis (.seq roomId) ≠ none ∧
    (e.op = .setIfAbsent (.seq roomId) base ∨ e.op = .increment (.seq roomId) ∧ base = 0)

end Event

/-- The number is not above those of the rows in the table. -/
def Covered (s : Server) (roomId : UUID) (n : Nat) : Prop :=
  ∃ m ∈ s.messages, m.chatroomId = roomId ∧ n ≤ m.sequenceNumber

/-- A counter that is missing starts again. The send that seeds it has read the maximum when the
table still had the highest number persisted so far, which no commit has passed since, and no send
under way holds one above; and where the key is lost between the seeding and the increment, no
number is in use. -/
def Unbroken (j : History) (e : Event) : Prop :=
  ∀ roomId base, Event.Restarts e roomId base → ∀ n, InUse j roomId n →
    e.op = .setIfAbsent (.seq roomId) base ∧
      ∀ r ∈ j.past, r.thread = e.thread → r.op = .maxSequence roomId → Covered r.before roomId n

theorem persisted_cons {past : List Event} {e : Event} {m : Message}
    (persisted : Persisted (e :: past) m) : Persisted past m ∨ Event.Persists e m := by
  obtain ⟨e', member, persists⟩ := persisted
  rcases List.mem_cons.mp member with rfl | old
  · exact .inr persists
  · exact .inl ⟨e', old, persists⟩

/-- Every number is above those of the rows that had been persisted when it was issued. -/
def Ascending : List Event → Prop
  | [] => True
  | e :: earlier => (∀ roomId n, Event.Issues e roomId n → ∀ m, Persisted earlier m →
      m.chatroomId = roomId → m.sequenceNumber < n) ∧ Ascending earlier

structure Numbered (j : History) : Prop where
  kept : Kept j
  bound : ∀ roomId c, j.state.redis (.seq roomId) = some c → ∀ n, InUse j roomId n → n ≤ c
  one_holder : ∀ t u roomId n, Holds j t roomId n → Holds j u roomId n → t = u
  unpersisted : ∀ t m, Persisted j.past m → ¬Holds j t m.chatroomId m.sequenceNumber
  one_message : ∀ m m', Persisted j.past m → Persisted j.past m' → m.chatroomId = m'.chatroomId →
    m.sequenceNumber = m'.sequenceNumber → m = m'
  ascending : Ascending j.past
  reads : ∀ r ∈ j.past, ∀ roomId n, r.logged = ⟨.maxSequence roomId, .ok n⟩ →
    n = r.before.maxSequence roomId

section Step

variable {permits : History → Event → Prop} {j : History} {e : Event}

theorem Outcome.stopped_subset {t : Nat} {s s' : Server} {op : Op} {result : op.Res}
    (outcome : Outcome t s op result s') {u : Nat} (running : u ∉ s'.stopped) : u ∉ s.stopped := by
  cases outcome with
  | same same _ => exact same.stopped ▸ running
  | crashed isAfter =>
      subst isAfter
      exact fun stopped => running (List.mem_cons_of_mem _ stopped)
  | saved _ _ _ _ _ isAfter | committed _ _ isAfter | closed _ _ isAfter | seeded _ isAfter
  | counted isAfter | removed _ _ isAfter | evicted isAfter =>
      subst isAfter
      exact running

/-- A counter that is there was there before and is no less, or has just started again. -/
theorem Outcome.counter {t : Nat} {s s' : Server} {op : Op} {result : op.Res}
    (outcome : Outcome t s op result s') {roomId : UUID} {c : Nat}
    (held : s'.redis (.seq roomId) = some c) :
    (∃ c₀, s.redis (.seq roomId) = some c₀ ∧ c₀ ≤ c) ∨ s.redis (.seq roomId) = none ∧ ∃ base ≤ c,
      op = .setIfAbsent (.seq roomId) base ∨ op = .increment (.seq roomId) ∧ base = 0 := by
  rcases outcome.redis with same | ⟨key, value, isOp, absent, isAfter⟩ | ⟨key, isOp, isAfter⟩ |
    ⟨key, isOp, isAfter⟩
  · exact .inl ⟨c, same ▸ held, le_rfl⟩
  · rw [isAfter] at held
    by_cases here : key = .seq roomId
    · subst here
      rw [Function.update_self] at held
      exact .inr ⟨absent, value, (Option.some.inj held).le, .inl isOp⟩
    · rw [Function.update_of_ne (Ne.symm here)] at held
      exact .inl ⟨c, held, le_rfl⟩
  · rw [isAfter] at held
    by_cases here : key = .seq roomId
    · subst here
      rw [Function.update_self] at held
      have isCount := Option.some.inj held
      cases before : s.redis (.seq roomId) with
      | none => exact .inr ⟨rfl, 0, Nat.zero_le c, .inr ⟨isOp, rfl⟩⟩
      | some c₀ =>
          rw [before] at isCount
          exact .inl ⟨c₀, rfl, by rw [← isCount]; exact Nat.le_succ c₀⟩
    · rw [Function.update_of_ne (Ne.symm here)] at held
      exact .inl ⟨c, held, le_rfl⟩
  · rw [isAfter] at held
    by_cases here : key = .seq roomId
    · subst here
      rw [Function.update_self] at held
      cases held
    · rw [Function.update_of_ne (Ne.symm here)] at held
      exact .inl ⟨c, held, le_rfl⟩

/-- A row is persisted by the send that holds its number. -/
theorem Kept.persists (kept : Kept j) (performs : j.Performs service permits e) {m : Message}
    (persists : Event.Persists e m) : e.op = .commit ∧ (e.thread, m) ∈ j.state.pending ∧
      Holds j e.thread m.chatroomId m.sequenceNumber := by
  have new : m ∉ j.state.messages := performs.before ▸ persists.2
  obtain ⟨isOp, inserted, _⟩ := (performs_outcome performs).of_mem_messages persists.1 new
  have member := mem_of_lookup inserted
  obtain ⟨running, sending, _, held⟩ := kept.pending _ _ member
  exact ⟨isOp, member, running, m.clientMessageId, sending, held⟩

theorem Kept.persists_unique (performs : j.Performs service permits e) {m m' : Message}
    (persists : Event.Persists e m) (persists' : Event.Persists e m') : m = m' := by
  have new : m ∉ j.state.messages := performs.before ▸ persists.2
  have new' : m' ∉ j.state.messages := performs.before ▸ persists'.2
  have outcome := performs_outcome performs
  have inserted := (outcome.of_mem_messages persists.1 new).2.1
  have inserted' := (outcome.of_mem_messages persists'.1 new').2.1
  exact Option.some.inj (inserted.symm.trans inserted')

/-- A number that is held was held before, by a send that does not let it go, or has just been
issued. -/
theorem holds_record (performs : j.Performs service permits e) {t : Nat} {roomId : UUID} {n : Nat}
    (holds : Holds (j.record e) t roomId n) :
    (Holds j t roomId n ∧ (t = e.thread → e.op ≠ .commit)) ∨ t = e.thread ∧ Event.Issues e roomId n := by
  obtain ⟨running, clientId, sending, held⟩ := holds
  have before := (performs_outcome performs).stopped_subset running
  by_cases mine : t = e.thread
  · subst mine
    rw [progress_self] at held
    rcases Progress.after_held held with issues | ⟨old, commit, _⟩
    · exact .inr ⟨rfl, issues⟩
    · exact .inl ⟨⟨before, clientId, sending, old⟩, fun _ => commit⟩
  · rw [Journal.record_log_of_ne (Ne.symm mine)] at held
    exact .inl ⟨⟨before, clientId, sending, held⟩, fun same => absurd same mine⟩

theorem Numbered.inUse_record (numbered : Numbered j) (performs : j.Performs service permits e)
    {roomId : UUID} {n : Nat} (inUse : InUse (j.record e) roomId n) :
    InUse j roomId n ∨ Event.Issues e roomId n := by
  rcases inUse with ⟨m, persisted, rfl, rfl⟩ | ⟨t, holds⟩
  · rcases persisted_cons persisted with old | new
    · exact .inl (.inl ⟨m, old, rfl, rfl⟩)
    · exact .inl (.inr ⟨e.thread, (numbered.kept.persists performs new).2.2⟩)
  · rcases holds_record performs holds with ⟨old, _⟩ | ⟨_, issues⟩
    · exact .inl (.inr ⟨t, old⟩)
    · exact .inr issues

theorem issues_increment (performs : j.Performs service permits e) {roomId : UUID} {n : Nat}
    (issues : Event.Issues e roomId n) : e.op = .increment (.seq roomId) ∧
      n = (j.state.redis (.seq roomId)).getD 0 + 1 ∧ e.after.redis (.seq roomId) = some n := by
  have outcome := performs_outcome performs
  obtain ⟨t, request, op, result, before, after⟩ := e
  obtain ⟨rfl, isResult⟩ := Sigma.mk.inj issues
  obtain rfl := eq_of_heq isResult
  obtain ⟨isCount, isAfter⟩ := outcome.increment_ok
  simp only at isAfter
  exact ⟨rfl, isCount, by rw [isAfter]; exact Function.update_self ..⟩

/-- The seed of a counter is the maximum that its send has read. -/
theorem Numbered.seed (numbered : Numbered j) (performs : j.Performs service permits e)
    (lawful : law e.call (j.log e.thread) e.op) {roomId : UUID} {base : Nat}
    (seeds : e.op = .setIfAbsent (.seq roomId) base) : ∃ r ∈ j.past, r.thread = e.thread ∧
      r.op = .maxSequence roomId ∧ base = r.before.maxSequence roomId := by
  have only : SendOnly e.op := by rw [seeds]; trivial
  obtain ⟨room, clientId, _, lawful⟩ := sending_of_sendOnly performs only lawful
  rw [seeds] at lawful
  rcases lawful with ⟨isSeq, highest⟩ | ⟨_, _, _, isDedup, _⟩
  · obtain rfl := RedisKey.seq.inj isSeq
    obtain ⟨r, old, mine, isRead⟩ := mem_of_own (Progress.read_of_highest highest)
    exact ⟨r, old, mine, (Sigma.mk.inj isRead).1, numbered.reads r old roomId base isRead⟩
  · cases isDedup

/-- A counter starts again from no less than every number in use. -/
theorem Numbered.le_base (numbered : Numbered j) (performs : j.Performs service permits e)
    (lawful : law e.call (j.log e.thread) e.op) (unbroken : Unbroken j e) {roomId : UUID}
    {base : Nat} (restarts : Event.Restarts e roomId base) {n : Nat} (inUse : InUse j roomId n) :
    n ≤ base := by
  obtain ⟨seeds, covered⟩ := unbroken roomId base restarts n inUse
  obtain ⟨r, old, mine, reads, rfl⟩ := numbered.seed performs lawful seeds
  obtain ⟨m, stored, rfl, le⟩ := covered r old mine reads
  exact le.trans (Server.le_maxSequence stored)

/-- A number that is issued is above all that are in use. -/
theorem Numbered.issued (numbered : Numbered j) (performs : j.Performs service permits e)
    (lawful : law e.call (j.log e.thread) e.op) (unbroken : Unbroken j e) {roomId : UUID} {n : Nat}
    (issues : Event.Issues e roomId n) {n' : Nat} (inUse : InUse j roomId n') : n' < n := by
  obtain ⟨isOp, isCount, isAfter⟩ := issues_increment performs issues
  cases before : j.state.redis (.seq roomId) with
  | some c =>
      have below := numbered.bound roomId c before n' inUse
      rw [before] at isCount
      simp only [Option.getD_some] at isCount
      omega
  | none =>
      have restarts : Event.Restarts e roomId 0 :=
        ⟨performs.before ▸ before, by rw [isAfter]; exact Option.some_ne_none n, .inr ⟨isOp, rfl⟩⟩
      have below := numbered.le_base performs lawful unbroken restarts inUse
      omega

theorem Numbered.record (numbered : Numbered j) (performs : j.Performs service permits e)
    (lawful : law e.call (j.log e.thread) e.op) (unbroken : Unbroken j e) :
    Numbered (j.record e) := by
  have outcome := performs_outcome performs
  refine ⟨numbered.kept.record performs lawful, fun roomId c held n inUse => ?_,
    fun t u roomId n holds holds' => ?_, fun t m persisted holds => ?_,
    fun m m' persisted persisted' room seq => ?_, ⟨fun roomId n issues m persisted room => ?_,
    numbered.ascending⟩, fun r member roomId n isRead => ?_⟩
  · rcases numbered.inUse_record performs inUse with before | issues
    · rcases outcome.counter held with ⟨c₀, was, le⟩ | ⟨absent, base, le, isOp⟩
      · exact (numbered.bound roomId c₀ was n before).trans le
      · have present : e.after.redis (.seq roomId) ≠ none := by
          intro missing
          rw [Journal.record_state, missing] at held
          cases held
        have restarts : Event.Restarts e roomId base :=
          ⟨performs.before ▸ absent, present, isOp⟩
        exact (numbered.le_base performs lawful unbroken restarts before).trans le
    · obtain ⟨_, _, isAfter⟩ := issues_increment performs issues
      exact (Option.some.inj (isAfter.symm.trans held)).le
  · rcases holds_record performs holds with ⟨old, _⟩ | ⟨rfl, issues⟩
    · rcases holds_record performs holds' with ⟨old', _⟩ | ⟨rfl, issues⟩
      · exact numbered.one_holder t u roomId n old old'
      · exact absurd (numbered.issued performs lawful unbroken issues (.inr ⟨t, old⟩)) (lt_irrefl n)
    · rcases holds_record performs holds' with ⟨old', _⟩ | ⟨rfl, _⟩
      · exact absurd (numbered.issued performs lawful unbroken issues (.inr ⟨u, old'⟩)) (lt_irrefl n)
      · rfl
  · rcases holds_record performs holds with ⟨old, ends⟩ | ⟨rfl, issues⟩
    · rcases persisted_cons persisted with before | new
      · exact numbered.unpersisted t m before old
      · obtain ⟨commits, _, holder⟩ := numbered.kept.persists performs new
        exact ends (numbered.one_holder _ _ _ _ old holder) commits
    · rcases persisted_cons persisted with before | new
      · exact lt_irrefl _ (numbered.issued performs lawful unbroken issues (.inl ⟨m, before, rfl, rfl⟩))
      · have commits := (numbered.kept.persists performs new).1
        rw [(issues_increment performs issues).1] at commits
        cases commits
  · rcases persisted_cons persisted with old | new
    · rcases persisted_cons persisted' with old' | new'
      · exact numbered.one_message m m' old old' room seq
      · have holder := (numbered.kept.persists performs new').2.2
        rw [← room, ← seq] at holder
        exact absurd holder (numbered.unpersisted _ m old)
    · rcases persisted_cons persisted' with old' | new'
      · have holder := (numbered.kept.persists performs new).2.2
        rw [room, seq] at holder
        exact absurd holder (numbered.unpersisted _ m' old')
      · exact Kept.persists_unique performs new new'
  · exact numbered.issued performs lawful unbroken issues (.inl ⟨m, persisted, room, rfl⟩)
  · rcases List.mem_cons.mp member with rfl | old
    · obtain ⟨t, request, op, result, before, after⟩ := r
      obtain ⟨rfl, isResult⟩ := Sigma.mk.inj isRead
      obtain rfl := eq_of_heq isResult
      rw [performs.before]
      exact (outcome.of_reads trivial).2
    · exact numbered.reads r old roomId n isRead

/-- A send that begins holds no number. -/
theorem holds_begin {t u : Nat} {request : Call} {roomId : UUID} {n : Nat} (unused : j.log t = [])
    (holds : Holds (j.begin t request) u roomId n) : Holds j u roomId n := by
  obtain ⟨running, clientId, ⟨request', runs, target⟩, held⟩ := holds
  rcases Journal.of_calls_begin runs with ⟨rfl, rfl⟩ | before
  · rw [Journal.begin_log, unused] at held
    simp [progress] at held
  · exact ⟨running, clientId, ⟨request', before, target⟩, held⟩

theorem inUse_begin {t : Nat} {request : Call} {roomId : UUID} {n : Nat} (unused : j.log t = [])
    (inUse : InUse (j.begin t request) roomId n) : InUse j roomId n := by
  rcases inUse with persisted | ⟨u, holds⟩
  · exact .inl persisted
  · exact .inr ⟨u, holds_begin unused holds⟩

theorem Numbered.begin {t : Nat} {request : Call} (numbered : Numbered j)
    (idle : j.calls t = none) (unused : j.log t = []) : Numbered (j.begin t request) :=
  ⟨numbered.kept.begin idle unused,
    fun roomId c held n inUse => numbered.bound roomId c held n (inUse_begin unused inUse),
    fun u v roomId n holds holds' => numbered.one_holder u v roomId n (holds_begin unused holds)
      (holds_begin unused holds'),
    fun u m persisted holds => numbered.unpersisted u m persisted (holds_begin unused holds),
    numbered.one_message, numbered.ascending, numbered.reads⟩

end Step

theorem Fresh.numbered {s : Server} (fresh : Fresh s) : Numbered (.empty s) := by
  refine ⟨fresh.kept, fun roomId c held => ?_, ?_, ?_, ?_, trivial, fun _ old => by cases old⟩
  · rw [Journal.empty_state, fresh.redis] at held
    cases held
  · rintro t u roomId n ⟨_, _, ⟨_, running, _⟩, _⟩
    cases running
  · rintro t m ⟨e, old, _⟩
    cases old
  · rintro m m' ⟨e, old, _⟩
    cases old

/-- No two messages of a run have a number of a room in common, and a message has a number
above those of all messages acknowledged before it was issued. -/
structure NeverReissued (past : List Event) : Prop where
  distinct : ∀ m m', Persisted past m → Persisted past m' → m.chatroomId = m'.chatroomId →
    m.sequenceNumber = m'.sequenceNumber → m = m'
  ascending : ∀ later issue earlier, past = later ++ issue :: earlier → ∀ m,
    Event.Issues issue m.chatroomId m.sequenceNumber →
    (∃ e ∈ later, e.thread = issue.thread ∧ Event.Persists e m) →
    ∀ m', Persisted earlier m' → m'.chatroomId = m.chatroomId →
      (∃ e ∈ earlier, ∃ clientId,
        Event.Acknowledges e m'.chatroomId clientId m'.id m'.sequenceNumber) →
      m'.sequenceNumber < m.sequenceNumber

def SequenceKept (s : Server) (permits : History → Event → Prop) : Prop :=
  ∀ j, service.Reaches (fun _ _ => True) permits s j → NeverReissued j.past

theorem Ascending.split {later earlier : List Event} {issue : Event}
    (ascending : Ascending (later ++ issue :: earlier)) : Ascending (issue :: earlier) := by
  induction later with
  | nil => exact ascending
  | cons e rest ih => exact ih ascending.2

theorem never_reissued (s : Server) (fresh : Fresh s) : SequenceKept s Unbroken := by
  intro j reaches
  have numbered : Numbered j :=
    reaches.invariant Numbered service_follows fresh.numbered
      (fun _ _ _ numbered idle unused _ => numbered.begin idle unused)
      fun _ _ numbered performs lawful => numbered.record performs lawful performs.permitted
  refine ⟨numbered.one_message, fun later issue earlier isPast m issues _ m' persisted room _ => ?_⟩
  have ascending := numbered.ascending
  rw [isPast] at ascending
  exact ascending.split.1 _ _ issues m' persisted room

theorem never_reissued_blank : SequenceKept blank Unbroken :=
  never_reissued blank blank_fresh

/-- A message is sent and deleted, the counter is lost, and another message is sent. -/
def counterLost : Option History :=
  follow (fun _ => true) (.start 0 (post 7) :: steps 0 17 ++ .start 1 (.delete 1 1) :: steps 1 3 ++
    .start 2 (.evict (.seq 1)) :: steps 2 1 ++ .start 3 (post 8) :: steps 3 16)

/-- The rows persisted in a run, the last one first. -/
def persistedRows (past : List Event) : List Message :=
  past.flatMap fun e => e.after.messages.filter (· ∉ e.before.messages)

theorem mem_persistedRows {past : List Event} {m : Message} :
    m ∈ persistedRows past ↔ Persisted past m := by
  simp [persistedRows, Persisted, Event.Persists]

theorem counterLost_rows : counterLost.map (fun j => (persistedRows j.past).map fun m =>
    (m.id, m.chatroomId, m.sequenceNumber)) = some [(2, 1, 1), (1, 1, 1)] := by
  decide +kernel

theorem reissued : ¬SequenceKept blank fun _ _ => True := by
  intro claim
  obtain ⟨j, ran, isRows⟩ := Option.map_eq_some_iff.mp counterLost_rows
  have kept := claim j (follow_reaches (fun _ _ _ => trivial) ran)
  have row : ∀ id, ((id, 1, 1) : Nat × UUID × Nat) ∈ [(2, 1, 1), (1, 1, 1)] → ∃ m, Persisted j.past m ∧ m.id = id ∧
      m.chatroomId = 1 ∧ m.sequenceNumber = 1 := by
    intro id member
    rw [← isRows] at member
    obtain ⟨m, persisted, isRow⟩ := List.mem_map.mp member
    simp only [Prod.mk.injEq] at isRow
    exact ⟨m, mem_persistedRows.mp persisted, isRow⟩
  obtain ⟨m, persisted, isId, room, seq⟩ := row 1 (by simp)
  obtain ⟨m', persisted', isId', room', seq'⟩ := row 2 (by simp)
  have same := kept.distinct m m' persisted persisted' (room.trans room'.symm) (seq.trans seq'.symm)
  rw [same, isId'] at isId
  cases isId

end Rooms
