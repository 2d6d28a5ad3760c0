import CipherChat.Reconnect.Page

/-!
What a catch-up reads: page after page, each from where the one before it ended.
-/

namespace Reconnect

open Async Rooms

abbrev Done := (op : Op) × op.Res

def isRead : Op → Bool
  | .server (.findAfter ..) => true
  | _ => false

/-- How many pages have been read. -/
def reads (log : Log Op Op.Res) : Nat :=
  log.countP fun x => isRead x.1

theorem reads_append (later earlier : Log Op Op.Res) :
    reads (later ++ earlier) = reads later + reads earlier := by
  exact List.countP_append

/-- The page after a cursor was read, after `k` others. -/
def ReadAt (roomId : UUID) (log : Log Op Op.Res) (k cursor : Nat) (rows : List Message) : Prop :=
  ∃ later earlier, log = later ++ (⟨.server (.findAfter roomId cursor (PER_ROOM + 1)), .ok rows⟩ : Done) :: earlier ∧
    reads earlier = k

/-- The pages from a cursor on, of which the last one was not full, with the watermark they end at. -/
inductive Pages (roomId : UUID) (log : Log Op Op.Res) : Nat → Nat → Nat → List Message → Prop
  | last {k cursor rows} : ReadAt roomId log k cursor rows → rows.length ≤ PER_ROOM →
      Pages roomId log k cursor (lastSeq rows cursor) rows
  | more {k cursor rows watermark rest} : ReadAt roomId log k cursor rows → PER_ROOM < rows.length →
      Pages roomId log (k + 1) (lastSeq (rows.take PER_ROOM) cursor) watermark rest →
      Pages roomId log k cursor watermark (rows.take PER_ROOM ++ rest)

/-- The last page that may be asked for was full. -/
def Exhausted (roomId : UUID) (log : Log Op Op.Res) : Prop :=
  ∃ cursor rows, ReadAt roomId log (MAX_PAGES - 1) cursor rows ∧ PER_ROOM < rows.length

/-- The operations of a request, as they are written down. -/
def noted (log : Log Op Op.Res) (op : Rooms.Op) (answer : op.Res) (log' : Log Op Op.Res) : Prop :=
  log' = ⟨.server op, answer⟩ :: log

section

variable {roomId : UUID} {log log₀ : Log Op Op.Res} {k cursor watermark : Nat} {rows : List Message}

theorem ReadAt.append (read : ReadAt roomId log k cursor rows) (later : Log Op Op.Res) :
    ReadAt roomId (later ++ log) k cursor rows := by
  obtain ⟨after, earlier, rfl, count⟩ := read
  exact ⟨later ++ after, earlier, (List.append_assoc ..).symm, count⟩

theorem ends_onServer {α : Type} {p : Rooms.Prog α} {result : Except JavaError α} :
    Ends logged log₀ (onServer p) result log ↔ Ends noted log₀ p result log := by
  refine runs_relabel.trans ⟨fun run => run.mono ?_, fun run => run.mono ?_⟩
  · rintro log op answer log' ⟨_, written, rfl⟩
    exact written
  · exact fun log op answer log' written => ⟨answer, written, rfl⟩

/-- Nothing but operations that read no page lies between. -/
def After (log₀ log : Log Op Op.Res) : Prop :=
  ∃ later, log = later ++ log₀ ∧ reads later = 0

theorem After.refl (log : Log Op Op.Res) : After log log :=
  ⟨[], rfl, rfl⟩

theorem After.reads (after : After log₀ log) : reads log = reads log₀ := by
  obtain ⟨later, rfl, none⟩ := after
  rw [reads_append, none, Nat.zero_add]

theorem After.trans {log₁ : Log Op Op.Res} (first : After log₀ log₁) (second : After log₁ log) :
    After log₀ log := by
  obtain ⟨before, rfl, none⟩ := first
  obtain ⟨later, rfl, none'⟩ := second
  exact ⟨later ++ before, (List.append_assoc ..).symm, by rw [reads_append, none, none']⟩

theorem ends_quiet {α : Type} {p : Rooms.Prog α} {result : Except JavaError α}
    (uses : Uses (fun op => isRead (.server op) = false) p.run) (ends : Ends noted log₀ p result log) :
    After log₀ log := by
  refine Runs.invariant_of_uses ?_ uses ends (After.refl log₀)
  rintro log op answer log' quiet rfl ⟨later, rfl, count⟩
  refine ⟨⟨.server op, answer⟩ :: later, rfl, ?_⟩
  rw [Reconnect.reads, List.countP_cons, quiet, ← Reconnect.reads, count]
  rfl

theorem ends_noted {op : Rooms.Op} {result : op.Res} :
    Ends noted log₀ (Rooms.call op) result log ↔ log = ⟨.server op, result⟩ :: log₀ :=
  runs_call

/-- One page, after what had been read before. -/
theorem roomDelta_reads {userId : UUID} {maxPerRoom : Nat} {d : RoomDelta}
    (ends : Ends noted log₀ (roomDelta userId roomId cursor maxPerRoom) (.ok d) log) :
    (d.denied ∧ d.watermark = 0 ∧ After log₀ log) ∨ ∃ rows people earlier, After log₀ earlier ∧
      After (⟨.server (.findAfter roomId cursor (maxPerRoom + 1)), .ok rows⟩ :: earlier) log ∧
      d.denied = false ∧ d.more = decide (maxPerRoom < rows.length) ∧
      d.messages = (rows.take maxPerRoom).map (deltaMessage people) ∧
      (d.more = false → d.watermark = lastSeq rows cursor) := by
  unfold roomDelta at ends
  obtain ⟨allowed, log₁, access, rest⟩ := ends_bind_ok.mp ends
  have first : After log₀ log₁ := ends_quiet (canAccess_uses roomId userId rfl rfl) access
  cases allowed with
  | false =>
      obtain ⟨isDelta, rfl⟩ := ends_pure.mp rest
      obtain rfl := Except.ok.inj isDelta
      exact .inl ⟨rfl, rfl, first⟩
  | true =>
      obtain ⟨rows, log₂, read, rest⟩ := ends_bind_ok.mp rest
      obtain rfl := ends_noted.mp read
      obtain ⟨people, log₃, named, rest⟩ := ends_bind_ok.mp rest
      have second := ends_quiet (summaries_uses _ rfl) named
      refine .inr ⟨rows, people, log₁, first, ?_⟩
      by_cases full : maxPerRoom < rows.length
      · simp only [full, decide_true, if_true] at rest
        obtain ⟨watermark, log₄, asked, rest⟩ := ends_bind_ok.mp rest
        obtain ⟨isDelta, rfl⟩ := ends_pure.mp rest
        obtain rfl := Except.ok.inj isDelta
        have third := ends_quiet (uses_op rfl) asked
        exact ⟨second.trans third, rfl, by simp [full], rfl, nofun⟩
      · simp only [full, decide_false] at rest
        obtain ⟨watermark, log₄, known, rest⟩ := ends_bind_ok.mp rest
        obtain ⟨isLast, rfl⟩ := ends_pure.mp known
        obtain rfl := Except.ok.inj isLast
        obtain ⟨isDelta, rfl⟩ := ends_pure.mp rest
        obtain rfl := Except.ok.inj isDelta
        have whole : rows.take maxPerRoom = rows := List.take_of_length_le (not_lt.mp full)
        refine ⟨second, rfl, by simp [full], by rw [whole]; rfl, fun _ => rfl⟩

theorem syncRooms_reads {userId : UUID} {ds : List RoomDelta}
    (ends : Ends logged log₀ (syncRooms userId roomId cursor) (.ok ds) log) :
    ∃ d, ds = [d] ∧ Ends noted log₀ (roomDelta userId roomId cursor PER_ROOM) (.ok d) log := by
  have ends := ends_onServer.mp ends
  unfold Rooms.syncRooms at ends
  rw [if_neg (by simp), if_neg (by simp [MAX_ROOMS])] at ends
  obtain ⟨d, log₁, first, rest⟩ := ends_bind_ok.mp ends
  obtain ⟨ds', log₂, none, last⟩ := ends_bind_ok.mp rest
  obtain ⟨isNone, rfl⟩ := ends_pure.mp none
  obtain rfl := Except.ok.inj isNone
  obtain ⟨isList, rfl⟩ := ends_pure.mp last
  obtain rfl := Except.ok.inj isList
  exact ⟨d, rfl, first⟩

/-- What a catch-up brings, unless the room is closed to it or it has run out of pages. -/
structure Brings (roomId : UUID) (log : Log Op Op.Res) (k cursor : Nat) (all : List DeltaMessage)
    (delta : RoomDelta) : Prop where
  opened : delta.denied = false
  pages : ∃ ms tail, Pages roomId log k cursor delta.watermark ms ∧ delta.messages = all ++ tail ∧
    tail.map DeltaMessage.id = ms.map Message.id

theorem Pages.append {ms : List Message} (pages : Pages roomId log k cursor watermark ms)
    (later : Log Op Op.Res) : Pages roomId (later ++ log) k cursor watermark ms := by
  induction pages with
  | last read short => exact .last (read.append later) short
  | more read full _ ih => exact .more (read.append later) full ih

theorem Exhausted.append (exhausted : Exhausted roomId log) (later : Log Op Op.Res) :
    Exhausted roomId (later ++ log) := by
  obtain ⟨cursor, rows, read, full⟩ := exhausted
  exact ⟨cursor, rows, read.append later, full⟩

theorem ids_deltaMessage (people : List (UUID × JavaString)) (rows : List Message) :
    (rows.map (deltaMessage people)).map DeltaMessage.id = rows.map Message.id := by
  rw [List.map_map]
  rfl

/-- The last row of a full page is the next cursor. -/
theorem getLast_deltaMessage (people : List (UUID × JavaString)) (cursor : Nat) {rows : List Message}
    {n : Nat} (full : n < rows.length) (positive : 0 < n) :
    ∃ tail, ((rows.take n).map (deltaMessage people)).getLast? = some tail ∧
      tail.seq = lastSeq (rows.take n) cursor := by
  rw [List.getLast?_map]
  cases isLast : (rows.take n).getLast? with
  | none =>
      have empty := congrArg List.length (List.getLast?_eq_none_iff.mp isLast)
      rw [List.length_take, List.length_nil] at empty
      omega
  | some m => exact ⟨_, rfl, by simp only [lastSeq, isLast]; rfl⟩

/-- What one turn of the loop of `catchUpRoom` comes to. -/
inductive Turn (userId roomId : UUID) (n cursor : Nat) (all : List DeltaMessage) (delta : RoomDelta)
    (log₀ log : Log Op Op.Res) : Prop
  | denied : delta.denied → delta.watermark = 0 → Turn userId roomId n cursor all delta log₀ log
  | last (rows people) : ReadAt roomId log (reads log₀) cursor rows → rows.length ≤ PER_ROOM →
      delta.denied = false → delta.watermark = lastSeq rows cursor →
      delta.messages = all ++ rows.map (deltaMessage people) →
      Turn userId roomId n cursor all delta log₀ log
  | more (rows people d log₁) : ReadAt roomId log₁ (reads log₀) cursor rows → PER_ROOM < rows.length →
      reads log₁ = reads log₀ + 1 →
      Ends logged log₁ (pages userId roomId n (lastSeq (rows.take PER_ROOM) cursor) d
        (all ++ (rows.take PER_ROOM).map (deltaMessage people))) (.ok delta) log →
      Turn userId roomId n cursor all delta log₀ log

theorem pages_turn {userId : UUID} {n : Nat} {last delta : RoomDelta} {all : List DeltaMessage}
    (ends : Ends logged log₀ (pages userId roomId (n + 1) cursor last all) (.ok delta) log) :
    Turn userId roomId n cursor all delta log₀ log := by
  obtain ⟨ds, log₁, synced, rest⟩ := ends_bind_ok.mp ends
  obtain ⟨d, rfl, paged⟩ := syncRooms_reads synced
  dsimp only at rest
  rcases roomDelta_reads paged with ⟨denied, zero, _⟩ | ⟨rows, people, earlier, first, second, opened, isMore,
    isMessages, watermark⟩
  · rw [if_pos denied] at rest
    obtain ⟨isDelta, rfl⟩ := ends_pure.mp rest
    obtain rfl := Except.ok.inj isDelta
    exact .denied denied zero
  rw [if_neg (by simp [opened])] at rest
  have read : ReadAt roomId log₁ (reads log₀) cursor rows := by
    obtain ⟨later, rfl, _⟩ := second
    exact ⟨later, earlier, rfl, first.reads⟩
  by_cases full : PER_ROOM < rows.length
  · obtain ⟨tail, isTail, isNext⟩ := getLast_deltaMessage people cursor full (by decide)
    rw [show d.more = true by simp [isMore, full], isMessages, isTail] at rest
    dsimp only at rest
    rw [isNext] at rest
    refine .more rows people d log₁ read full ?_ rest
    rw [second.reads, ← first.reads, reads, List.countP_cons_of_pos rfl]
    rfl
  · have whole : rows.take PER_ROOM = rows := List.take_of_length_le (not_lt.mp full)
    have short : d.more = false := by simp [isMore, full]
    rw [short] at rest
    obtain ⟨isDelta, rfl⟩ := ends_pure.mp rest
    obtain rfl := Except.ok.inj isDelta
    refine .last rows people read (not_lt.mp full) opened (watermark short) ?_
    rw [isMessages, whole]

theorem pages_brings {userId : UUID} {n : Nat} {last delta : RoomDelta} {all : List DeltaMessage}
    (count : reads log₀ + n + 1 = MAX_PAGES)
    (ends : Ends logged log₀ (pages userId roomId (n + 1) cursor last all) (.ok delta) log) :
    (delta.denied ∧ delta.watermark = 0) ∨ Exhausted roomId log ∨
      Brings roomId log (reads log₀) cursor all delta := by
  induction n generalizing log₀ cursor last all with
  | zero =>
      cases pages_turn ends with
      | denied denied zero => exact .inl ⟨denied, zero⟩
      | last rows people read short opened watermark messages =>
          refine .inr (.inr ⟨opened, rows, _, ?_, messages, ids_deltaMessage people rows⟩)
          rw [watermark]
          exact .last read short
      | more rows people d log₁ read full _ rest =>
          obtain ⟨_, rfl⟩ := ends_pure.mp rest
          exact .inr (.inl ⟨cursor, rows, (by omega : reads log₀ = MAX_PAGES - 1) ▸ read, full⟩)
  | succ n ih =>
      cases pages_turn ends with
      | denied denied zero => exact .inl ⟨denied, zero⟩
      | last rows people read short opened watermark messages =>
          refine .inr (.inr ⟨opened, rows, _, ?_, messages, ids_deltaMessage people rows⟩)
          rw [watermark]
          exact .last read short
      | more rows people d log₁ read full counted rest =>
          rcases ih (by omega) rest with denied | exhausted | brings
          · exact .inl denied
          · exact .inr (.inl exhausted)
          · obtain ⟨ms, tail, pages, messages, ids⟩ := brings.pages
            rw [counted] at pages
            obtain ⟨later, isLog⟩ := ends_extends rest
            have read : ReadAt roomId log (reads log₀) cursor rows := isLog ▸ read.append later
            refine .inr (.inr ⟨brings.opened, _, (rows.take PER_ROOM).map (deltaMessage people) ++ tail,
              .more read full pages, ?_, ?_⟩)
            · rw [messages, List.append_assoc]
            · rw [List.map_append, List.map_append, ids_deltaMessage, ids]

/-- A number within the pages is within one of them. -/
theorem Pages.within {ms : List Message} (pages : Pages roomId log k cursor watermark ms) {n : Nat}
    (beyond : cursor < n) (within : n ≤ watermark) : ∃ k' cursor' rows, ReadAt roomId log k' cursor' rows ∧
      cursor' < n ∧ n ≤ lastSeq (rows.take PER_ROOM) cursor' ∧ ∀ m ∈ rows.take PER_ROOM, m ∈ ms := by
  induction pages with
  | @last k cursor rows read short =>
      have whole : rows.take PER_ROOM = rows := List.take_of_length_le short
      refine ⟨k, cursor, rows, read, beyond, ?_, ?_⟩
      · rw [whole]
        exact within
      · rw [whole]
        exact fun _ => id
  | @more k cursor rows watermark rest read full _ ih =>
      by_cases here : n ≤ lastSeq (rows.take PER_ROOM) cursor
      · exact ⟨k, cursor, rows, read, beyond, here, fun m member => List.mem_append_left _ member⟩
      · obtain ⟨k', cursor', rows', read', beyond', within', inRest⟩ := ih (not_le.mp here) within
        exact ⟨k', cursor', rows', read', beyond', within', fun m member =>
          List.mem_append_right _ (inRest m member)⟩

theorem pages_uses (userId : UUID) (n : Nat) (last : RoomDelta) (all : List DeltaMessage) :
    Uses (fun op => ∃ request, op = .server request) (pages userId roomId n cursor last all).run := by
  induction n generalizing cursor last all with
  | zero => exact uses_throwing_pure
  | succ n ih =>
      have synced : Uses (fun op => ∃ request, op = .server request) (syncRooms userId roomId cursor).run :=
        uses_relabel ((uses_any _).mono fun op _ => ⟨op, rfl⟩)
      refine uses_throwing_bind synced fun ds => ?_
      cases ds with
      | nil => exact uses_throwing_pure
      | cons delta _ =>
          dsimp only
          split
          · exact uses_throwing_pure
          split
          · exact ih _ _
          · exact uses_throwing_pure

end

end Reconnect
