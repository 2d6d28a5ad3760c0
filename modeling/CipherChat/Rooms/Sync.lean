import CipherChat.Rooms.Sequence
import Mathlib.Data.List.Forall2

/-!
Delta sync against late commits: a number is issued before its row is visible, so a page
misses no message only where no send under way holds a number within it.
-/

namespace Rooms

open Async

/-- The cursor a client goes on from: the last row of a page, while more remain. -/
def RoomDelta.next (d : RoomDelta) (cursor : Nat) : Nat :=
  if d.more then (d.messages.getLast?.map DeltaMessage.seq).getD cursor else d.watermark

/-- The rows of a page, after which one more may have been read. -/
def pageRows (rows : List Message) (limit : Nat) : List Message :=
  rows.take (limit - 1)

/-- A delta goes no further than the page that was read after the cursor. -/
def Reported (maxPerRoom : Nat) (log : Log Op Op.Res) (cursor : UUID × Nat) (d : RoomDelta) :
    Prop :=
  d.next cursor.2 ≤ cursor.2 ∨
    ∃ rows, (⟨.findAfter cursor.1 cursor.2 (maxPerRoom + 1), .ok rows⟩ : Done) ∈ log ∧
      ∃ m ∈ pageRows rows (maxPerRoom + 1), d.next cursor.2 = m.sequenceNumber

/-- A sync is answered with what it has read. -/
def syncLaw : Call → Log Op Op.Res → Op → Prop
  | .syncRooms _ rooms maxPerRoom, log, .respond (.deltas (.ok ds)) =>
      List.Forall₂ (Reported (perRoom maxPerRoom) log)
        (rooms.map fun room => (room.1, cursor room.2)) ds
  | _, _, _ => True

theorem Reported.after {maxPerRoom : Nat} {log : Log Op Op.Res} {cursor : UUID × Nat}
    {d : RoomDelta} (reported : Reported maxPerRoom log cursor d) (x : Done) :
    Reported maxPerRoom (x :: log) cursor d := by
  rcases reported with nothing | ⟨rows, read, within⟩
  · exact .inl nothing
  · exact .inr ⟨rows, List.mem_cons_of_mem _ read, within⟩

section Conduct

variable {permits : History → Event → Prop} {request : Call} {α : Type}

theorem syncLaw_of_ne {log : Log Op Op.Res} {op : Op} (quiet : ∀ response, op ≠ .respond response) :
    syncLaw request log op := by
  unfold syncLaw
  split
  · exact absurd rfl (quiet _)
  · trivial

theorem sync_call {op : Op} {pre : Log Op Op.Res → Prop} {post : op.Res → Log Op Op.Res → Prop}
    (lawful : ∀ log, pre log → syncLaw request log op)
    (after : ∀ log, pre log → ∀ result, post result (⟨op, result⟩ :: log)) :
    Follows service permits syncLaw request pre (call op) post := by
  intro t j start
  exact safe_op (fun log known => ⟨lawful log known, fun _ result _ _ => after log known result⟩) start

theorem sync_free (free : ∀ log op, syncLaw request log op) (p : Prog Unit) :
    Follows service permits syncLaw request (fun log => log = []) p fun _ _ => True := by
  have held : Follows service permits syncLaw request (fun _ => True) p fun _ _ => True :=
    follows_uses (fun op _ log _ => ⟨free log op, fun _ => trivial⟩) (uses_any _)
  exact held.weaken (fun _ _ => trivial) fun _ _ => id

/-- Operations that answer nothing, while a fact is known that stays true. -/
theorem sync_quiet {p : Prog α} {known : Log Op Op.Res → Prop}
    (stays : ∀ x log, known log → known (x :: log))
    (uses : Uses (fun op => ∀ response, op ≠ .respond response) p.run) :
    Follows service permits syncLaw request known p fun _ => known :=
  follows_uses (fun _ quiet _ holds => ⟨syncLaw_of_ne quiet, fun _ => stays _ _ holds⟩) uses

theorem canAccess_uses {allowed : Op → Prop} (roomId userId : UUID)
    (room : allowed (.findChatroom roomId)) (member : allowed (.findMember roomId userId)) :
    Uses allowed (canAccess roomId userId).run := by
  refine uses_throwing_bind (uses_op room) fun found => ?_
  cases found with
  | none => exact uses_throwing_pure
  | some room =>
      dsimp only
      split
      · exact uses_op member
      · exact uses_throwing_pure

/-- The number of the last row of a page. -/
def lastSeq (page : List Message) (cursor : Nat) : Nat :=
  match page.getLast? with
  | none => cursor
  | some m => m.sequenceNumber

/-- A delta goes on from the last row of its page. -/
theorem RoomDelta.next_eq {d : RoomDelta} {page : List Message} {people : List (UUID × JavaString)}
    {cursor : Nat} (messages : d.messages = page.map (deltaMessage people))
    (watermark : d.more = false → d.watermark = lastSeq page cursor) :
    d.next cursor = lastSeq page cursor := by
  cases more : d.more with
  | false => simp [next, more, watermark more]
  | true =>
      simp only [next, more, messages, List.getLast?_map, lastSeq, if_true]
      cases page.getLast? with
      | none => rfl
      | some m => rfl

theorem Reported.of_page {maxPerRoom : Nat} {log : Log Op Op.Res} {roomId : UUID} {cursor : Nat}
    {d : RoomDelta} {rows : List Message}
    (read : (⟨.findAfter roomId cursor (maxPerRoom + 1), .ok rows⟩ : Done) ∈ log)
    (next : d.next cursor = lastSeq (rows.take maxPerRoom) cursor) :
    Reported maxPerRoom log (roomId, cursor) d := by
  cases last : (rows.take maxPerRoom).getLast? with
  | none => exact .inl (by rw [next, lastSeq, last])
  | some m =>
      exact .inr ⟨rows, read, m, List.mem_of_getLast? last, by rw [next, lastSeq, last]⟩

theorem roomDelta_reports {known : Log Op Op.Res → Prop} (stays : ∀ x log, known log → known (x :: log))
    (userId roomId : UUID) (cursor maxPerRoom : Nat) :
    Follows service permits syncLaw request known (roomDelta userId roomId cursor maxPerRoom)
      fun result log => known log ∧ ∀ d, result = .ok d → Reported maxPerRoom log (roomId, cursor) d := by
  refine follows_bind (fun _ => known) (sync_quiet stays
    (canAccess_uses roomId userId (fun _ => nofun) fun _ => nofun))
    (fun allowed => ?_) fun _ _ holds => ⟨holds, nofun⟩
  cases allowed with
  | false =>
      exact follows_pure fun log holds => ⟨holds, fun d isDelta => .inl (by
        obtain rfl := Except.ok.inj isDelta
        exact Nat.zero_le _)⟩
  | true =>
      -- The page is read here; what follows only adds to the log.
      let read (result : Except JavaError (List Message)) (log : Log Op Op.Res) : Prop :=
        known log ∧ ∀ rows, result = .ok rows →
          (⟨.findAfter roomId cursor (maxPerRoom + 1), .ok rows⟩ : Done) ∈ log
      have stay : ∀ result x log, read result log → read result (x :: log) :=
        fun result x log holds => ⟨stays x log holds.1,
          fun rows isRows => List.mem_cons_of_mem _ (holds.2 rows isRows)⟩
      refine follows_bind read (sync_call (fun _ _ => syncLaw_of_ne fun _ => nofun) fun log holds result => ?_)
        (fun rows => ?_) fun _ _ holds => ⟨holds.1, nofun⟩
      · exact ⟨stays _ _ holds, fun rows isRows => by rw [isRows]; exact List.mem_cons_self⟩
      refine follows_bind (fun _ => read (.ok rows)) (sync_quiet (stay _) (summaries_uses _ fun _ => nofun))
        (fun people => ?_) fun _ _ holds => ⟨holds.1, nofun⟩
      by_cases more : maxPerRoom < rows.length
      · simp only [more, decide_true, if_true]
        refine follows_bind (fun _ => read (.ok rows)) (sync_call (fun _ _ => syncLaw_of_ne fun _ => nofun)
          fun log holds result => stay _ _ _ holds) (fun watermark => ?_) fun _ _ holds => ⟨holds.1, nofun⟩
        refine follows_pure fun log holds => ⟨holds.1, fun d isDelta => ?_⟩
        obtain rfl := Except.ok.inj isDelta
        exact .of_page (holds.2 rows rfl) (RoomDelta.next_eq rfl nofun)
      · simp only [more, decide_false]
        have whole : rows.take maxPerRoom = rows := List.take_of_length_le (not_lt.mp more)
        refine follows_bind (fun result log => read (.ok rows) log ∧ ∀ watermark, result = .ok watermark →
          watermark = lastSeq rows cursor) (follows_pure fun log holds => ⟨holds, fun _ isLast =>
            (Except.ok.inj isLast).symm⟩) (fun watermark => ?_) fun _ _ holds => ⟨holds.1.1, nofun⟩
        refine follows_pure fun log holds => ⟨holds.1.1, fun d isDelta => ?_⟩
        obtain rfl := Except.ok.inj isDelta
        refine .of_page (holds.1.2 rows rfl) ?_
        rw [whole]
        exact RoomDelta.next_eq rfl fun _ => holds.2 watermark rfl

theorem deltas_report (userId : UUID) (maxPerRoom : Nat) (cursors : List (UUID × Nat))
    {known : Log Op Op.Res → Prop} (stays : ∀ x log, known log → known (x :: log)) :
    Follows service permits syncLaw request known (deltas userId maxPerRoom cursors)
      fun result log => known log ∧ ∀ ds, result = .ok ds →
        List.Forall₂ (Reported maxPerRoom log) cursors ds := by
  induction cursors generalizing known with
  | nil =>
      refine follows_pure fun log holds => ⟨holds, fun ds isDeltas => ?_⟩
      obtain rfl := Except.ok.inj isDeltas
      exact .nil
  | cons cursor rest ih =>
      obtain ⟨roomId, after⟩ := cursor
      refine follows_bind _ (roomDelta_reports stays userId roomId after maxPerRoom) (fun d => ?_)
        fun _ _ holds => ⟨holds.1, nofun⟩
      have stay : ∀ x log, (known log ∧ ∀ d', (.ok d : Except JavaError RoomDelta) = .ok d' →
          Reported maxPerRoom log (roomId, after) d') → known (x :: log) ∧ ∀ d',
            (.ok d : Except JavaError RoomDelta) = .ok d' →
              Reported maxPerRoom (x :: log) (roomId, after) d' :=
        fun x log holds => ⟨stays x log holds.1, fun d' same => (holds.2 d' same).after x⟩
      refine follows_bind _ (ih stay) (fun ds => ?_) fun _ _ holds => ⟨holds.1.1, nofun⟩
      refine follows_pure fun log holds => ⟨holds.1.1, fun ds' isDeltas => ?_⟩
      obtain rfl := Except.ok.inj isDeltas
      exact .cons (holds.1.2 d rfl) (holds.2 ds rfl)

theorem sync_follows : service.Follows permits syncLaw := by
  intro request
  cases request with
  | syncRooms userId rooms maxPerRoom =>
      have always : ∀ (x : Done) (log : Log Op Op.Res), True → True := fun _ _ => id
      refine follows_bind (fun result log => ∀ ds, result = .ok (.ok ds) →
        List.Forall₂ (Reported (perRoom maxPerRoom) log)
          (rooms.map fun room => (room.1, cursor room.2)) ds) (follows_settle ?_) (fun result => ?_)
        fun _ _ _ => trivial
      · unfold syncRooms
        split
        · exact follows_throw fun _ _ ds isDeltas => by cases Except.ok.inj isDeltas
        split
        · exact follows_throw fun _ _ ds isDeltas => by cases Except.ok.inj isDeltas
        · refine (deltas_report userId (perRoom maxPerRoom) _ always).weaken (fun _ _ => trivial) ?_
          intro result log holds ds isDeltas
          exact holds.2 ds (Except.ok.inj isDeltas)
      · refine sync_call (fun log known => ?_) fun _ _ _ => trivial
        cases result with
        | error e => trivial
        | ok ds => exact known ds rfl
  | attempt | post | postFile | delete | sweepExpired | evict | crash =>
      refine sync_free ?_ _
      exact fun _ _ => trivial

end Conduct

/-- The requests of the runs in question: sends and syncs, while replicas may go down. -/
def Call.syncs : Call → Bool
  | .attempt .. | .post .. | .postFile .. | .syncRooms .. | .crash _ => true
  | .delete .. | .sweepExpired | .evict _ => false

/-- A read of the rows of a room after a cursor, whose page has the row. -/
def Event.Covers (e : Event) (roomId : UUID) (cursor : Nat) (m : Message) : Prop :=
  ∃ limit rows, e.logged = ⟨.findAfter roomId cursor limit, .ok rows⟩ ∧ m ∈ pageRows rows limit

/-- No send under way holds a number after the cursor of a read and below a row of its page. -/
def Clear (j : History) (e : Event) : Prop :=
  ∀ roomId cursor limit, e.op = .findAfter roomId cursor limit →
    ∀ m ∈ pageRows (j.state.findAfter roomId cursor limit) limit,
      ∀ t n, Holds j t roomId n → cursor < n → m.sequenceNumber < n

/-- After a read, no row is persisted with a number that its page has gone past. -/
def Late (past : List Event) : Prop :=
  ∀ later e earlier, past = later ++ e :: earlier → ∀ roomId cursor m, Event.Covers e roomId cursor m →
    ∀ m', Persisted later m' → m'.chatroomId = roomId → cursor < m'.sequenceNumber →
      m.sequenceNumber < m'.sequenceNumber

structure Caught (j : History) : Prop where
  numbered : Numbered j
  syncs : ∀ t request, j.calls t = some request → request.syncs
  counted : ∀ roomId n, InUse j roomId n → j.state.redis (.seq roomId) ≠ none
  persisted : ∀ m ∈ j.state.messages, Persisted j.past m
  ahead : ∀ e ∈ j.past, ∀ roomId cursor m, Event.Covers e roomId cursor m →
    Persisted j.past m ∧ m.chatroomId = roomId ∧
      ∀ t n, Holds j t roomId n → cursor < n → m.sequenceNumber < n
  late : Late j.past

section Step

variable {permits : History → Event → Prop} {j : History} {e : Event}

/-- A counter that is in use does not start again. -/
theorem Caught.unbroken (caught : Caught j) (performs : j.Performs service permits e) :
    Unbroken j e := by
  intro roomId base restarts n inUse
  have missing : j.state.redis (.seq roomId) = none := performs.before ▸ restarts.1
  exact absurd missing (caught.counted roomId n inUse)

/-- No key is lost to the requests of these runs. -/
theorem Caught.keeps_key (caught : Caught j) (performs : j.Performs service permits e)
    (lawful : law e.call (j.log e.thread) e.op) {key : RedisKey} (held : j.state.redis key ≠ none) :
    e.after.redis key ≠ none := by
  rcases (performs_outcome performs).redis with same | ⟨key', value, _, _, isAfter⟩ |
    ⟨key', _, isAfter⟩ | ⟨key', isOp, _⟩
  · exact same ▸ held
  · rw [isAfter]
    by_cases here : key' = key
    · subst here
      simp
    · rw [Function.update_of_ne (Ne.symm here)]
      exact held
  · rw [isAfter]
    by_cases here : key' = key
    · subst here
      simp
    · rw [Function.update_of_ne (Ne.symm here)]
      exact held
  · have syncs := caught.syncs _ _ performs.running
    rw [isOp] at lawful
    cases isCall : e.call <;> rw [isCall] at syncs lawful
    case attempt | post | postFile | syncRooms => exact lawful.elim
    case crash => cases lawful
    all_goals cases syncs

theorem Server.mem_of_findAfter {s : Server} {roomId : UUID} {cursor limit : Nat} {m : Message}
    (member : m ∈ pageRows (s.findAfter roomId cursor limit) limit) :
    m ∈ s.messages ∧ m.chatroomId = roomId := by
  have sorted := List.mem_of_mem_take (List.mem_of_mem_take member)
  have filtered := (List.mem_insertionSort _).mp sorted
  have inRoom := List.mem_filter.mp (List.mem_of_mem_filter filtered)
  exact ⟨inRoom.1, by simpa using inRoom.2⟩

theorem Outcome.findAfter_ok {t : Nat} {s s' : Server} {roomId : UUID} {cursor limit : Nat}
    {rows : List Message} (outcome : Outcome t s (.findAfter roomId cursor limit) (.ok rows) s') :
    rows = s.findAfter roomId cursor limit :=
  (outcome.of_reads trivial).2

theorem Persisted.cons {past : List Event} {m : Message} (persisted : Persisted past m) :
    Persisted (e :: past) m := by
  obtain ⟨e', old, persists⟩ := persisted
  exact ⟨e', List.mem_cons_of_mem _ old, persists⟩

theorem Late.record {e : Event} {past : List Event} (late : Late past)
    (ahead : ∀ e' ∈ past, ∀ roomId cursor m, Event.Covers e' roomId cursor m → ∀ m',
      Event.Persists e m' → m'.chatroomId = roomId → cursor < m'.sequenceNumber →
        m.sequenceNumber < m'.sequenceNumber) : Late (e :: past) := by
  intro later e' earlier isPast roomId cursor m covers m' persisted room beyond
  cases later with
  | nil =>
      obtain ⟨_, none, _⟩ := persisted
      cases none
  | cons last rest =>
      obtain ⟨rfl, isRest⟩ := List.cons.inj isPast
      have read : e' ∈ past := by
        rw [isRest]
        exact List.mem_append_right _ List.mem_cons_self
      rcases persisted_cons persisted with before | now
      · exact late rest e' earlier isRest roomId cursor m covers m' before room beyond
      · exact ahead e' read roomId cursor m covers m' now room beyond

theorem Caught.record (caught : Caught j) (performs : j.Performs service permits e)
    (lawful : law e.call (j.log e.thread) e.op) (clear : Clear j e) : Caught (j.record e) := by
  have outcome := performs_outcome performs
  have unbroken := caught.unbroken performs
  have numbered := caught.numbered
  refine ⟨numbered.record performs lawful unbroken, caught.syncs, fun roomId n inUse => ?_,
    fun m member => ?_, fun e' member roomId cursor m covers => ?_, ?_⟩
  · rcases numbered.inUse_record performs inUse with before | issues
    · exact caught.keeps_key performs lawful (caught.counted roomId n before)
    · rw [Journal.record_state, (issues_increment performs issues).2.2]
      exact Option.some_ne_none n
  · by_cases old : m ∈ j.state.messages
    · exact (caught.persisted m old).cons
    · exact ⟨e, List.mem_cons_self, member, performs.before ▸ old⟩
  · rcases List.mem_cons.mp member with rfl | old
    · obtain ⟨limit, rows, isRead, inPage⟩ := covers
      have isOp : e'.op = .findAfter roomId cursor limit := congrArg Sigma.fst isRead
      have isRows : rows = j.state.findAfter roomId cursor limit := by
        obtain ⟨t, request, op, result, s, s'⟩ := e'
        obtain ⟨rfl, isResult⟩ := Sigma.mk.inj isRead
        obtain rfl := eq_of_heq isResult
        exact outcome.findAfter_ok
      rw [isRows] at inPage
      obtain ⟨inTable, rfl⟩ := Server.mem_of_findAfter inPage
      refine ⟨(caught.persisted m inTable).cons, rfl, fun t n holds beyond => ?_⟩
      rcases holds_record performs holds with ⟨before, _⟩ | ⟨_, issues⟩
      · exact clear _ cursor limit isOp m inPage t n before beyond
      · rw [(issues_increment performs issues).1] at isOp
        cases isOp
    · obtain ⟨persisted, rfl, ahead⟩ := caught.ahead e' old roomId cursor m covers
      refine ⟨persisted.cons, rfl, fun t n holds beyond => ?_⟩
      rcases holds_record performs holds with ⟨before, _⟩ | ⟨_, issues⟩
      · exact ahead t n before beyond
      · exact numbered.issued performs lawful unbroken issues (.inl ⟨m, persisted, rfl, rfl⟩)
  · refine caught.late.record fun e' old roomId cursor m covers m' persists room beyond => ?_
    obtain ⟨_, _, holder⟩ := numbered.kept.persists performs persists
    exact (caught.ahead e' old roomId cursor m covers).2.2 e.thread _ (room ▸ holder) beyond

theorem Caught.begin {t : Nat} {request : Call} (caught : Caught j) (idle : j.calls t = none)
    (unused : j.log t = []) (syncs : request.syncs) : Caught (j.begin t request) := by
  refine ⟨caught.numbered.begin idle unused, fun u request' running => ?_,
    fun roomId n inUse => caught.counted roomId n (inUse_begin unused inUse), caught.persisted,
    fun e old roomId cursor m covers => ?_, caught.late⟩
  · rcases Journal.of_calls_begin running with ⟨_, rfl⟩ | before
    · exact syncs
    · exact caught.syncs u request' before
  · obtain ⟨persisted, room, ahead⟩ := caught.ahead e old roomId cursor m covers
    exact ⟨persisted, room, fun u n holds => ahead u n (holds_begin unused holds)⟩

end Step

theorem Fresh.caught {s : Server} (fresh : Fresh s) : Caught (.empty s) := by
  refine ⟨fresh.numbered, ?_, ?_, fun m member => ?_, ?_, fun later e earlier isPast => ?_⟩
  · intro t request running
    cases running
  · rintro roomId n (⟨m, ⟨e, old, _⟩, _⟩ | ⟨t, _, _, ⟨_, running, _⟩, _⟩)
    · cases old
    · cases running
  · rw [Journal.empty_state, fresh.messages] at member
    cases member
  · intro e old
    cases old
  · exact absurd isPast (by simp)

/-- No message within a page becomes visible after the sync that reported it was answered. -/
def NothingLate (past : List Event) : Prop :=
  ∀ later e earlier, past = later ++ e :: earlier → ∀ userId rooms maxPerRoom ds,
    e.call = .syncRooms userId rooms maxPerRoom → e.op = .respond (.deltas (.ok ds)) →
    ∀ roomId after d, ((roomId, after), d) ∈ rooms.zip ds → ∀ m, Persisted later m →
      m.chatroomId = roomId → cursor after < m.sequenceNumber → d.next (cursor after) < m.sequenceNumber

/-- In every run of sends and syncs from `s` whose operations are those `permits`. -/
def SyncComplete (s : Server) (permits : History → Event → Prop) : Prop :=
  ∀ j, service.Reaches (fun _ request => request.syncs) permits s j → NothingLate j.past

theorem misses_nothing (s : Server) (fresh : Fresh s) : SyncComplete s Clear := by
  intro j reaches later e earlier isPast userId rooms maxPerRoom ds isCall isOp
  have caught : Caught j :=
    reaches.invariant Caught service_follows fresh.caught
      (fun _ _ _ caught idle unused syncs => caught.begin idle unused syncs)
      fun _ _ caught performs lawful => caught.record performs lawful performs.permitted
  have member : e ∈ j.past := by
    rw [isPast]
    exact List.mem_append_right _ List.mem_cons_self
  have answered := reaches.lawful_at sync_follows isPast (reaches.ran e member)
  rw [isCall, isOp] at answered
  intro roomId after d paired m persisted room beyond
  have reported := List.forall₂_zip (List.forall₂_map_left_iff.mp answered) paired
  rcases reported with nothing | ⟨rows, read, last, inPage, isLast⟩
  · exact lt_of_le_of_lt nothing beyond
  · obtain ⟨e', old, _, isRead⟩ := mem_of_own read
    obtain ⟨between, before, rfl⟩ := List.append_of_mem old
    have split : j.past = (later ++ e :: between) ++ e' :: before := by
      rw [isPast, List.append_assoc]
      rfl
    obtain ⟨e'', inLater, persists⟩ := persisted
    have visible : Persisted (later ++ e :: between) m :=
      ⟨e'', List.mem_append_left _ inLater, persists⟩
    rw [isLast]
    exact caught.late _ e' before split roomId (cursor after) last ⟨_, rows, isRead, inPage⟩ m visible
      room beyond

theorem misses_nothing_blank : SyncComplete blank Clear :=
  misses_nothing blank blank_fresh

/-- A send is issued number 1, another is issued number 2 and commits, a sync is answered, and
the first send commits. -/
def overtaken : Option History :=
  follow Call.syncs (.start 0 (post 7) :: steps 0 8 ++ .start 1 (post 8) :: steps 1 18 ++
    .start 2 (.syncRooms 1 [(1, some 0)] none) :: steps 2 4 ++ steps 0 4)

/-- Where the sync of one room ended. -/
def reportedTo (e : Event) : Option (Call × Nat) :=
  match e.op with
  | .respond (.deltas (.ok [d])) => some (e.call, d.next 0)
  | _ => none

theorem overtaken_late : overtaken.map (fun j => ((j.past.drop 4).head?.bind reportedTo,
    (persistedRows (j.past.take 4)).map fun m => (m.chatroomId, m.sequenceNumber))) =
      some (some (.syncRooms 1 [(1, some 0)] none, 2), [(1, 1)]) := by
  decide +kernel

theorem misses_overtaken : ¬SyncComplete blank fun _ _ => True := by
  intro claim
  obtain ⟨j, ran, isLate⟩ := Option.map_eq_some_iff.mp overtaken_late
  obtain ⟨isReported, isRows⟩ := Prod.mk.inj isLate
  have complete := claim j (follow_reaches (fun _ _ syncs => syncs) ran)
  obtain ⟨e, isHead, isReport⟩ := Option.bind_eq_some_iff.mp isReported
  obtain ⟨earlier, isDrop⟩ := List.head?_eq_some_iff.mp isHead
  have isPast : j.past = j.past.take 4 ++ e :: earlier := by
    rw [← isDrop, List.take_append_drop]
  unfold reportedTo at isReport
  split at isReport
  next d isOp =>
    obtain ⟨isCall, isNext⟩ := Prod.mk.inj (Option.some.inj isReport)
    have row : ((1, 1) : UUID × Nat) ∈ (persistedRows (j.past.take 4)).map fun m =>
        (m.chatroomId, m.sequenceNumber) := by
      rw [isRows]
      exact List.mem_cons_self
    obtain ⟨m, persisted, isRow⟩ := List.mem_map.mp row
    obtain ⟨room, seq⟩ := Prod.mk.inj isRow
    have beyond := complete _ e earlier isPast 1 [(1, some 0)] none [d] isCall isOp 1 (some 0) d
      List.mem_cons_self m (mem_persistedRows.mp persisted) room (by rw [seq]; decide)
    have isNext' : d.next (cursor (some 0)) = 2 := isNext
    rw [isNext', seq] at beyond
    exact absurd beyond (by decide)
  · cases isReport

end Rooms
