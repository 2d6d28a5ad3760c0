import CipherChat.Paging.Chase
import CipherChat.Reconnect.CatchUp

/-!
How far a catch-up takes the cursor of the page: `catchUpRoom` against a server on which nothing
else goes on, and the messages that the new cursor leaves behind.
-/

namespace Reconnect

open Async Rooms

/-! What the server answers. -/

/-- `canAccess` -/
def readable (s : Server) (userId roomId : UUID) : Bool :=
  match s.chatrooms.lookup roomId with
  | none => false
  | some room => !room.privateRoom || decide ((roomId, userId) ∈ s.members)

/-- `summaries` -/
def people (s : Server) (rows : List Message) : List (UUID × JavaString) :=
  if rows.map (fun m => m.senderId) = [] then []
  else s.users.filter fun user => user.1 ∈ rows.map fun m => m.senderId

def answered (s : Server) (userId roomId : UUID) (cursor maxPerRoom : Nat) : RoomDelta :=
  if readable s userId roomId then
    let delta := Paging.ahead (fun m => m.sequenceNumber) (s.inRoom roomId) cursor maxPerRoom
    { roomId, messages := delta.rows.map (deltaMessage (people s delta.rows)),
      watermark := delta.watermark, more := delta.more, denied := false }
  else { roomId, messages := [], watermark := 0, more := false, denied := true }

section Server

variable {t : Nat} {s s' : Server} {userId roomId : UUID}

/-- An operation that reads, unless it fails. -/
theorem ends_read (op : Rooms.Op) (value : op.Val) {result : op.Val}
    (reads : ∀ a, effect t s op a = some (.ok value, s)) :
    Ends (Rooms.Exec t) s (Rooms.call op) (.ok result) s' ↔
      t ∉ s.stopped ∧ result = value ∧ s' = s := by
  refine runs_call.trans ?_
  constructor
  · rintro ⟨a, performed⟩
    unfold Rooms.perform at performed
    split at performed
    · cases performed
    next running =>
      have effected := Async.faulty_ok performed
      rw [reads] at effected
      exact ⟨running, by simpa [eq_comm] using effected⟩
  · rintro ⟨running, rfl, rfl⟩
    refine ⟨{}, ?_⟩
    rw [Rooms.perform, if_neg running]
    exact reads _

theorem ends_canAccess {allowed : Bool} :
    Ends (Rooms.Exec t) s (canAccess roomId userId) (.ok allowed) s' ↔
      t ∉ s.stopped ∧ allowed = readable s userId roomId ∧ s' = s := by
  unfold canAccess readable
  rw [ends_bind_ok]
  have found : ∀ {room : Option Chatroom} {s₁ : Server},
      Ends (Rooms.Exec t) s (Rooms.call (.findChatroom roomId)) (.ok room) s₁ ↔
        t ∉ s.stopped ∧ room = s.chatrooms.lookup roomId ∧ s₁ = s :=
    ends_read (.findChatroom roomId) (s.chatrooms.lookup roomId) fun _ => rfl
  simp only [found]
  constructor
  · rintro ⟨room, s₁, ⟨running, rfl, rfl⟩, rest⟩
    refine ⟨running, ?_⟩
    cases isRoom : s₁.chatrooms.lookup roomId with
    | none => simpa [isRoom, ends_pure] using rest
    | some room =>
        cases isPrivate : room.privateRoom with
        | false => simpa [isRoom, isPrivate, ends_pure] using rest
        | true =>
            simp only [isRoom, isPrivate, if_true] at rest
            have member := (ends_read (.findMember roomId userId) (decide ((roomId, userId) ∈ s₁.members))
              fun _ => rfl).mp rest
            simpa [isPrivate] using member.2
  · rintro ⟨running, rfl, rfl⟩
    refine ⟨_, _, ⟨running, rfl, rfl⟩, ?_⟩
    cases isRoom : s'.chatrooms.lookup roomId with
    | none => simp [ends_pure]
    | some room =>
        cases isPrivate : room.privateRoom with
        | false => simp [isPrivate, ends_pure]
        | true =>
            simp only [isPrivate, if_true]
            exact (ends_read (.findMember roomId userId) (decide ((roomId, userId) ∈ s'.members))
              fun _ => rfl).mpr ⟨running, by simp, rfl⟩

theorem ends_summaries {rows : List Message} {found : List (UUID × JavaString)}
    (running : t ∉ s.stopped) :
    Ends (Rooms.Exec t) s (summaries (rows.map fun m => m.senderId)) (.ok found) s' ↔
      found = people s rows ∧ s' = s := by
  unfold summaries people
  split
  · simp [ends_pure]
  · refine (ends_read (.findUsers _) _ fun _ => rfl).trans ?_
    simp [running]

theorem ending_eq (rows : List Message) (cursor : Nat) :
    Paging.ending (fun m => m.sequenceNumber) rows cursor = lastSeq rows cursor := by
  unfold Paging.ending lastSeq
  cases rows.getLast? <;> rfl

theorem ends_bind_read {β : Type} (running : t ∉ s.stopped) (op : Rooms.Op) (value : op.Val)
    (reads : ∀ a, effect t s op a = some (.ok value, s)) {f : op.Val → Rooms.Prog β} {result : β} :
    Ends (Rooms.Exec t) s (Rooms.call op >>= f) (.ok result) s' ↔
      Ends (Rooms.Exec t) s (f value) (.ok result) s' := by
  rw [ends_bind_ok]
  constructor
  · rintro ⟨value', s₁, read, rest⟩
    obtain ⟨_, rfl, rfl⟩ := (ends_read op value reads).mp read
    exact rest
  · intro rest
    exact ⟨value, s, (ends_read op value reads).mpr ⟨running, rfl, rfl⟩, rest⟩

theorem ends_bind_canAccess {β : Type} {f : Bool → Rooms.Prog β} {result : β} :
    Ends (Rooms.Exec t) s (canAccess roomId userId >>= f) (.ok result) s' ↔
      t ∉ s.stopped ∧ Ends (Rooms.Exec t) s (f (readable s userId roomId)) (.ok result) s' := by
  rw [ends_bind_ok]
  simp only [ends_canAccess]
  constructor
  · rintro ⟨_, _, ⟨running, rfl, rfl⟩, rest⟩
    exact ⟨running, rest⟩
  · rintro ⟨running, rest⟩
    exact ⟨_, _, ⟨running, rfl, rfl⟩, rest⟩

theorem ends_bind_summaries {β : Type} (running : t ∉ s.stopped) {rows : List Message}
    {f : List (UUID × JavaString) → Rooms.Prog β} {result : β} :
    Ends (Rooms.Exec t) s (summaries (rows.map fun m => m.senderId) >>= f) (.ok result) s' ↔
      Ends (Rooms.Exec t) s (f (people s rows)) (.ok result) s' := by
  rw [ends_bind_ok]
  simp only [ends_summaries running]
  constructor
  · rintro ⟨_, _, ⟨rfl, rfl⟩, rest⟩
    exact rest
  · exact fun rest => ⟨_, _, ⟨rfl, rfl⟩, rest⟩

/-- The server answers with a page of the rows ahead of the cursor. -/
theorem ends_roomDelta {cursor maxPerRoom : Nat} {d : RoomDelta} :
    Ends (Rooms.Exec t) s (roomDelta userId roomId cursor maxPerRoom) (.ok d) s' ↔
      t ∉ s.stopped ∧ d = answered s userId roomId cursor maxPerRoom ∧ s' = s := by
  unfold roomDelta
  refine ends_bind_canAccess.trans (and_congr_right fun running => ?_)
  unfold answered
  cases readable s userId roomId with
  | false =>
      refine ends_pure.trans ?_
      simp
  | true =>
      rw [if_pos rfl, if_pos rfl,
        ends_bind_read running (.findAfter roomId cursor (maxPerRoom + 1)) _ fun _ => rfl]
      refine (ends_bind_summaries running).trans ?_
      let found := s.findAfter roomId cursor (maxPerRoom + 1)
      by_cases more : maxPerRoom < found.length
      · have isPage : Paging.ahead (fun m => m.sequenceNumber) (s.inRoom roomId) cursor maxPerRoom =
            ⟨found.take maxPerRoom, s.maxSequence roomId, true⟩ := by
          change Paging.reported _ _ _ _ found = _
          simp only [Paging.reported, more, decide_true, if_true]
          rfl
        simp only [found] at more isPage
        simp only [isPage, more, decide_true, if_true]
        rw [ends_bind_read running (.maxSequence roomId) _ fun _ => rfl]
        refine ends_pure.trans ?_
        rw [Except.ok.injEq]
      · have isPage : Paging.ahead (fun m => m.sequenceNumber) (s.inRoom roomId) cursor maxPerRoom =
            ⟨found, lastSeq found cursor, false⟩ := by
          change Paging.reported _ _ _ _ found = _
          simp only [Paging.reported, more, decide_false, Bool.false_eq_true, if_false, ending_eq]
        simp only [found] at more isPage
        simp only [isPage, more, decide_false]
        refine ends_bind_ok.trans ?_
        constructor
        · rintro ⟨_, _, known, rest⟩
          obtain ⟨isLast, rfl⟩ := ends_pure.mp known
          obtain ⟨isDelta, rfl⟩ := ends_pure.mp rest
          rw [Except.ok.inj isDelta, Except.ok.inj isLast]
          exact ⟨rfl, rfl⟩
        · rintro ⟨rfl, rfl⟩
          exact ⟨_, _, ends_pure.mpr ⟨rfl, rfl⟩, ends_pure.mpr ⟨rfl, rfl⟩⟩

end Server

/-! What the page asks for. -/

/-- The operations of a catch-up, of which each may fail, while nothing else goes on. -/
def Still (t : Nat) (s : World) (op : Op) (result : op.Res) (s' : World) : Prop :=
  ∃ a, perform t s op a = some (result, s')

/-- The rows of the room. -/
abbrev chased (s : Server) (roomId : UUID) : Nat → Nat → Paging.Delta Message → List Message →
    Paging.Delta Message :=
  Paging.chase (fun m => m.sequenceNumber) (s.inRoom roomId) PER_ROOM

/-- The delta has the rows, and says the same of what there is. -/
structure Carries (delta : RoomDelta) (rows : Paging.Delta Message) : Prop where
  watermark : delta.watermark = rows.watermark
  messages : delta.messages.map (fun d => (d.id, d.seq)) = rows.rows.map fun m => (m.id, m.sequenceNumber)

section Page

variable {t : Nat} {s s' : World} {userId roomId : UUID} {cursor : Nat}

theorem ends_still {α : Type} {p : Rooms.Prog α} {result : Except JavaError α} :
    Ends (Still t) s (onServer p) result s' ↔
      ∃ server, Ends (Rooms.Exec t) s.server p result server ∧ s' = { s with server } := by
  have runs : ∀ (q : Program Rooms.Op Rooms.Op.Res (Except JavaError α)) (s : World),
      Async.Runs (Still t) s (q.relabel Op.server fun _ answer => answer) result s' ↔
        ∃ server, Async.Runs (Rooms.Exec t) s.server q result server ∧ s' = { s with server } := by
    intro q
    induction q with
    | done value =>
        intro s
        rw [Program.relabel, runs_done]
        simp only [runs_done]
        constructor
        · rintro ⟨rfl, rfl⟩
          exact ⟨_, ⟨rfl, rfl⟩, rfl⟩
        · rintro ⟨_, ⟨rfl, rfl⟩, rfl⟩
          exact ⟨rfl, rfl⟩
    | await op next ih =>
        intro s
        rw [Program.relabel, runs_await]
        simp only [runs_await, ih]
        constructor
        · rintro ⟨answer, s₁, ⟨a, performed⟩, server, rest, rfl⟩
          obtain ⟨after, isAfter, same⟩ := Option.map_eq_some_iff.mp performed
          cases same
          exact ⟨server, ⟨_, _, ⟨a, isAfter⟩, rest⟩, rfl⟩
        · rintro ⟨server, ⟨answer, server₁, ⟨a, performed⟩, rest⟩, rfl⟩
          refine ⟨answer, { s with server := server₁ }, ⟨a, ?_⟩, server, rest, rfl⟩
          exact Option.map_eq_some_iff.mpr ⟨_, performed, rfl⟩
  exact runs p.run s

/-- A request for one room. -/
theorem ends_syncRooms {ds : List RoomDelta} :
    Ends (Still t) s (syncRooms userId roomId cursor) (.ok ds) s' ↔
      t ∉ s.server.stopped ∧ ds = [answered s.server userId roomId cursor PER_ROOM] ∧ s' = s := by
  unfold syncRooms
  rw [ends_still]
  unfold Rooms.syncRooms
  rw [if_neg (by simp), if_neg (by simp [MAX_ROOMS])]
  constructor
  · rintro ⟨server, ends, rfl⟩
    obtain ⟨d, _, first, rest⟩ := ends_bind_ok.mp ends
    obtain ⟨running, isPage, rfl⟩ := ends_roomDelta.mp first
    obtain ⟨_, _, none, last⟩ := ends_bind_ok.mp rest
    obtain ⟨isNone, rfl⟩ := ends_pure.mp none
    obtain ⟨isList, rfl⟩ := ends_pure.mp last
    rw [Except.ok.inj isList, Except.ok.inj isNone, isPage]
    exact ⟨running, rfl, rfl⟩
  · rintro ⟨running, rfl, rfl⟩
    refine ⟨s'.server, ?_, rfl⟩
    refine ends_bind_ok.mpr ⟨_, _, ends_roomDelta.mpr ⟨running, rfl, rfl⟩, ?_⟩
    exact ends_bind_ok.mpr ⟨_, _, ends_pure.mpr ⟨rfl, rfl⟩, ends_pure.mpr ⟨rfl, rfl⟩⟩

theorem ends_pages {n : Nat} {last delta : RoomDelta} {all : List DeltaMessage} :
    Ends (Still t) s (pages userId roomId (n + 1) cursor last all) (.ok delta) s' ↔
      t ∉ s.server.stopped ∧
        Ends (Still t) s
          (let delta := answered s.server userId roomId cursor PER_ROOM
            if delta.denied then return { delta with messages := all }
            else match delta.more, delta.messages.getLast? with
              | true, some tail => pages userId roomId n tail.seq delta (all ++ delta.messages)
              | _, _ => return { delta with messages := all ++ delta.messages }) (.ok delta) s' := by
  rw [pages, ends_bind_ok]
  simp only [ends_syncRooms]
  constructor
  · rintro ⟨_, _, ⟨running, rfl, rfl⟩, rest⟩
    exact ⟨running, rest⟩
  · rintro ⟨running, rest⟩
    exact ⟨_, _, ⟨running, rfl, rfl⟩, rest⟩

theorem answered_readable (opened : readable s.server userId roomId) :
    answered s.server userId roomId cursor PER_ROOM =
      let page := Paging.ahead (fun m => m.sequenceNumber) (s.server.inRoom roomId) cursor PER_ROOM
      { roomId, messages := page.rows.map (deltaMessage (people s.server page.rows)),
        watermark := page.watermark, more := page.more, denied := false } := by
  rw [answered, if_pos opened]

/-- The pages that are asked for are those of a chase. -/
theorem pages_carries (opened : readable s.server userId roomId) {n : Nat} {last delta : RoomDelta}
    {all : List DeltaMessage} {last' : Paging.Delta Message} {all' : List Message}
    (carried : Carries { last with messages := all } { last' with rows := all' })
    (ends : Ends (Still t) s (pages userId roomId n cursor last all) (.ok delta) s') :
    Carries delta (chased s.server roomId n cursor last' all') := by
  induction n generalizing cursor last all last' all' with
  | zero =>
      obtain ⟨isDelta, rfl⟩ := ends_pure.mp ends
      rw [Except.ok.inj isDelta]
      exact carried
  | succ n ih =>
      obtain ⟨_, rest⟩ := ends_pages.mp ends
      rw [answered_readable opened] at rest
      rw [chased, Paging.chase]
      generalize Paging.ahead (fun m => m.sequenceNumber) (s.server.inRoom roomId) cursor PER_ROOM = page
        at rest ⊢
      have both : ∀ more, Carries
          { roomId, messages := all ++ page.rows.map (deltaMessage (people s.server page.rows)),
            watermark := page.watermark, more, denied := false }
          { rows := all' ++ page.rows, watermark := page.watermark, more } := by
        intro more
        refine ⟨rfl, ?_⟩
        have before := carried.messages
        simp only [List.map_append, List.map_map] at before ⊢
        rw [before]
        rfl
      simp only [Bool.false_eq_true, if_false, List.getLast?_map] at rest
      cases isMore : page.more with
      | false =>
          simp only [isMore] at rest ⊢
          obtain ⟨isDelta, rfl⟩ := ends_pure.mp rest
          rw [Except.ok.inj isDelta]
          exact both false
      | true =>
          cases isLast : page.rows.getLast? with
          | none =>
              simp only [isMore, isLast, Option.map_none] at rest ⊢
              obtain ⟨isDelta, rfl⟩ := ends_pure.mp rest
              rw [Except.ok.inj isDelta]
              exact both true
          | some tail =>
              simp only [isMore, isLast, Option.map_some] at rest ⊢
              refine ih ?_ rest
              rw [isMore]
              exact both true

/-- While nothing fails a catch-up comes to an end. -/
theorem pages_ends (running : t ∉ s.server.stopped) (n cursor : Nat) (last : RoomDelta)
    (all : List DeltaMessage) :
    ∃ delta, Ends (Still t) s (pages userId roomId n cursor last all) (.ok delta) s := by
  induction n generalizing cursor last all with
  | zero => exact ⟨_, ends_pure.mpr ⟨rfl, rfl⟩⟩
  | succ n ih =>
      simp only [ends_pages, running, not_false_eq_true, true_and]
      split
      · exact ⟨_, ends_pure.mpr ⟨rfl, rfl⟩⟩
      split
      · exact ih _ _ _
      · exact ⟨_, ends_pure.mpr ⟨rfl, rfl⟩⟩

theorem pages_denied (closed : readable s.server userId roomId = false) {n : Nat}
    {last delta : RoomDelta} {all : List DeltaMessage}
    (ends : Ends (Still t) s (pages userId roomId (n + 1) cursor last all) (.ok delta) s') :
    delta.watermark = 0 := by
  obtain ⟨_, rest⟩ := ends_pages.mp ends
  have denied : answered s.server userId roomId cursor PER_ROOM =
      { roomId, messages := [], watermark := 0, more := false, denied := true } := by
    rw [answered, closed]
    rfl
  rw [denied] at rest
  obtain ⟨isDelta, _⟩ := ends_pure.mp rest
  rw [Except.ok.inj isDelta]

end Page

/-! The cursor. -/

/-- What the new cursor has gone past was in the delta. -/
def Covers (s : World) (roomId : UUID) (delta : RoomDelta) : Prop :=
  ∀ m ∈ s.server.messages, m.chatroomId = roomId → s.page.latestSeq < m.sequenceNumber →
    m.sequenceNumber ≤ (s.page.merge delta).latestSeq →
    ∃ d ∈ delta.messages, d.id = m.id ∧ d.seq = m.sequenceNumber

/-- `messages_room_seq_uq` -/
def Numbered (s : Server) : Prop :=
  (s.messages.map fun m => (m.chatroomId, m.sequenceNumber)).Nodup

/-- How many messages of the room come after a number. -/
def missed (s : Server) (roomId : UUID) (cursor : Nat) : Nat :=
  (s.inRoom roomId).countP fun m => cursor < m.sequenceNumber

section Covers

variable {t : Nat} {s s' : World} {userId roomId : UUID} {delta : RoomDelta}

theorem Numbered.inRoom (numbered : Numbered s.server) :
    ((s.server.inRoom roomId).map fun m => m.sequenceNumber).Nodup := by
  have apart := List.pairwise_map.mp numbered
  refine List.pairwise_map.mpr ?_
  refine List.Pairwise.imp_of_mem ?_ (apart.filter fun m => decide (m.chatroomId = roomId))
  intro m m' member member' differ same
  have isRoom := of_decide_eq_true (List.mem_filter.mp member).2
  have isRoom' := of_decide_eq_true (List.mem_filter.mp member').2
  exact differ (by rw [isRoom, isRoom', same])

theorem length_later (s : Server) (roomId : UUID) (cursor : Nat) :
    (Paging.later (fun m => m.sequenceNumber) (s.inRoom roomId) cursor).length = missed s roomId cursor := by
  rw [Paging.later, List.length_insertionSort, missed, List.countP_eq_length_filter]

/-- A delta covers what the rows it carries cover. -/
theorem Carries.covers_iff {rows : Paging.Delta Message} (carries : Carries delta rows)
    (numbered : Numbered s.server) (genuine : ∀ m ∈ rows.rows, m ∈ s.server.inRoom roomId) :
    Covers s roomId delta ↔ ∀ m ∈ s.server.inRoom roomId, s.page.latestSeq < m.sequenceNumber →
      m.sequenceNumber ≤ max s.page.latestSeq rows.watermark → m ∈ rows.rows := by
  have among : ∀ m ∈ s.server.inRoom roomId,
      (∃ d ∈ delta.messages, d.id = m.id ∧ d.seq = m.sequenceNumber) ↔ m ∈ rows.rows := by
    intro m inRoom
    have isKey : (∃ d ∈ delta.messages, d.id = m.id ∧ d.seq = m.sequenceNumber) ↔
        (m.id, m.sequenceNumber) ∈ delta.messages.map fun d => (d.id, d.seq) := by
      simp only [List.mem_map, Prod.mk.injEq]
    rw [isKey, carries.messages, List.mem_map]
    constructor
    · rintro ⟨m', member, same⟩
      have isSeq : m'.sequenceNumber = m.sequenceNumber := congrArg Prod.snd same
      rw [← List.inj_on_of_nodup_map numbered.inRoom (genuine m' member) inRoom isSeq]
      exact member
    · exact fun member => ⟨m, member, rfl⟩
  have reached : (s.page.merge delta).latestSeq = max s.page.latestSeq rows.watermark := by
    rw [← carries.watermark]
    rfl
  rw [Covers, reached]
  constructor
  · intro covers m inRoom beyond within
    obtain ⟨member, isRoom⟩ := List.mem_filter.mp inRoom
    exact (among m inRoom).mp (covers m member (of_decide_eq_true isRoom) beyond within)
  · intro covers m member isRoom beyond within
    have inRoom : m ∈ s.server.inRoom roomId := List.mem_filter.mpr ⟨member, decide_eq_true isRoom⟩
    exact (among m inRoom).mpr (covers m inRoom beyond within)

/-- In an open room the delta covers what the pages have room for. -/
theorem covers_iff (numbered : Numbered s.server) (opened : readable s.server userId roomId)
    (ends : Ends (Still t) s (catchUpRoom userId roomId s.page.latestSeq) (.ok delta) s') :
    Covers s roomId delta ↔ missed s.server roomId s.page.latestSeq ≤ MAX_PAGES * PER_ROOM := by
  let last : Paging.Delta Message := ⟨[], s.page.latestSeq, false⟩
  let rows := s.server.inRoom roomId
  have distinct : (rows.map fun m => m.sequenceNumber).Nodup := numbered.inRoom
  have carries : Carries delta (chased s.server roomId (19 + 1) s.page.latestSeq last []) :=
    pages_carries opened ⟨rfl, rfl⟩ ends
  have taken := (Paging.chase_eq distinct (by decide : 0 < PER_ROOM) 19 s.page.latestSeq last []).1
  rw [carries.covers_iff numbered ?_]
  · rw [← length_later, show MAX_PAGES * PER_ROOM = PER_ROOM * (19 + 1) from rfl]
    exact Paging.chase_complete_iff distinct (by decide) 19 last
  · intro m member
    rw [taken, List.nil_append] at member
    exact (Paging.mem_later.mp (List.mem_of_mem_take member)).1

/-- The cursor skips nothing exactly when the room is closed to the page, or the messages it has
missed fit into the pages it may ask for. -/
theorem catchUp_covers_iff (t : Nat) (userId roomId : UUID) (s s' : World) (delta : RoomDelta)
    (numbered : Numbered s.server)
    (ends : Ends (Still t) s (catchUpRoom userId roomId s.page.latestSeq) (.ok delta) s') :
    Covers s roomId delta ↔ readable s.server userId roomId = false ∨
      missed s.server roomId s.page.latestSeq ≤ MAX_PAGES * PER_ROOM := by
  cases opened : readable s.server userId roomId with
  | true => simp [covers_iff numbered opened ends]
  | false =>
      have zero : delta.watermark = 0 := pages_denied opened ends
      refine ⟨fun _ => .inl rfl, fun _ m _ _ beyond within => ?_⟩
      have stays : (s.page.merge delta).latestSeq = s.page.latestSeq := by
        change max s.page.latestSeq delta.watermark = _
        rw [zero, Nat.max_zero]
      omega

/-- The page has message 1, and has missed so many after it. -/
def behind (count : Nat) : World where
  server := room ((List.range (count + 1)).map (· + 1))
  page := { messages := [mapNewMessage (line 1)], latestSeq := 1 }

theorem numbered_behind (count : Nat) : Numbered (behind count).server := by
  change (List.map _ (List.map line _)).Nodup
  rw [List.map_map, List.map_map]
  refine List.nodup_range.map fun k k' same => ?_
  exact Nat.succ.inj (congrArg Prod.snd same)

theorem missed_behind (count : Nat) : missed (behind count).server 1 1 = count := by
  have inRoom : (behind count).server.inRoom 1 = (behind count).server.messages := by
    refine List.filter_eq_self.mpr fun m member => ?_
    obtain ⟨_, _, rfl⟩ := List.mem_map.mp member
    rfl
  rw [missed, inRoom]
  change List.countP _ (List.map line (List.map _ (List.range (count + 1)))) = count
  rw [List.range_succ_eq_map, List.map_cons, List.map_cons, List.countP_cons_of_neg (by decide)]
  rw [List.countP_eq_length.mpr ?_]
  · simp
  · intro m member
    simp only [List.map_map, List.mem_map] at member
    obtain ⟨k, _, rfl⟩ := member
    simp [line]

theorem behind_ends (count : Nat) : ∃ delta,
    Ends (Still 0) (behind count) (catchUpRoom 1 1 1) (.ok delta) (behind count) :=
  pages_ends List.not_mem_nil _ _ _ _

theorem catchUp_covers_iff_few : ∃ delta,
    Ends (Still 0) (behind 3) (catchUpRoom 1 1 1) (.ok delta) (behind 3) ∧ Covers (behind 3) 1 delta := by
  obtain ⟨delta, ends⟩ := behind_ends 3
  refine ⟨delta, ends, (catchUp_covers_iff 0 1 1 _ _ delta (numbered_behind 3) ends).mpr (.inr ?_)⟩
  decide

/-- Of four thousand and one messages the last is skipped. -/
theorem catchUp_skips : Numbered (behind 4001).server ∧ ∃ delta,
    Ends (Still 0) (behind 4001) (catchUpRoom 1 1 1) (.ok delta) (behind 4001) ∧
      ¬Covers (behind 4001) 1 delta := by
  obtain ⟨delta, ends⟩ := behind_ends 4001
  refine ⟨numbered_behind 4001, delta, ends, fun covers => ?_⟩
  have opened : readable (behind 4001).server 1 1 = true := rfl
  have few := (covers_iff (numbered_behind 4001) opened ends).mp covers
  have many : missed (behind 4001).server 1 1 = 4001 := missed_behind 4001
  change missed (behind 4001).server 1 1 ≤ _ at few
  rw [many] at few
  exact absurd few (by decide)

end Covers

end Reconnect
