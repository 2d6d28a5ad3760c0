import CipherChat.Rooms.Service

/-!
How far a send has come, as its own operations show, and the law every request follows in
its own operations, whatever the others do.
-/

namespace Rooms

open Async

abbrev Done := (op : Op) × op.Res

/-- The row id the dedup key answered with, the row found to exist already, the room with the
highest number its rows had when the send asked for it, the number the send has been issued, the row inserted in its open transaction, and the row it has
committed; whether it has a transaction open, has ended one, and has answered. -/
structure Progress where
  cached : Option Nat := none
  seen : Option Message := none
  highest : Option (UUID × Nat) := none
  held : Option (UUID × Nat) := none
  inserted : Option Message := none
  committed : Option Message := none
  opened : Bool := false
  closed : Bool := false
  answered : Bool := false

/-- What one more operation shows, of a send to a room. -/
def Progress.after (roomId : UUID) (p : Progress) : Done → Progress
  | ⟨.redisGet (.dedup _ _), .ok (some id)⟩ => { p with cached := some id }
  | ⟨.findById _, .ok (some m)⟩ => if m.chatroomId = roomId then { p with seen := some m } else p
  | ⟨.findByClientMessageId _ _, .ok (some m)⟩ => { p with seen := some m }
  | ⟨.maxSequence room, .ok n⟩ => { p with highest := some (room, n) }
  | ⟨.increment (.seq room), .ok n⟩ => { p with held := some (room, n) }
  | ⟨.save _, .ok m⟩ => { p with inserted := some m, opened := true }
  | ⟨.save _, .error _⟩ => { p with opened := true }
  | ⟨.commit, .ok _⟩ =>
      { p with held := none, inserted := none, committed := p.inserted, opened := false, closed := true }
  | ⟨.commit, .error _⟩ | ⟨.rollback, _⟩ =>
      { p with held := none, inserted := none, opened := false, closed := true }
  | ⟨.respond _, _⟩ => { p with held := none, answered := true }
  | _ => p

def progress (roomId : UUID) : Log Op Op.Res → Progress
  | [] => {}
  | x :: earlier => (progress roomId earlier).after roomId x

namespace Progress

variable {roomId : UUID} {p : Progress} {x : Done}

/-- What a send has come to with one more operation, by what it shows. -/
inductive Shows (roomId : UUID) (p : Progress) : Done → Progress → Prop
  | cached (room cid id) :
      Shows roomId p ⟨.redisGet (.dedup room cid), .ok (some id)⟩ { p with cached := some id }
  | found (id m) : Shows roomId p ⟨.findById id, .ok (some m)⟩ { p with seen := some m }
  | named (room cid m) :
      Shows roomId p ⟨.findByClientMessageId room cid, .ok (some m)⟩ { p with seen := some m }
  | read (room n) : Shows roomId p ⟨.maxSequence room, .ok n⟩ { p with highest := some (room, n) }
  | issued (room n) : Shows roomId p ⟨.increment (.seq room), .ok n⟩ { p with held := some (room, n) }
  | saved (draft m) :
      Shows roomId p ⟨.save draft, .ok m⟩ { p with inserted := some m, opened := true }
  | unsaved (draft e) : Shows roomId p ⟨.save draft, .error e⟩ { p with opened := true }
  | committed (u) : Shows roomId p ⟨.commit, .ok u⟩
      { p with held := none, inserted := none, committed := p.inserted, opened := false, closed := true }
  | ended (y : Done) : y.1 = .commit ∨ y.1 = .rollback → Shows roomId p y
      { p with held := none, inserted := none, opened := false, closed := true }
  | answered (response result) : Shows roomId p ⟨.respond response, result⟩
      { p with held := none, answered := true }
  | quiet (y : Done) : Shows roomId p y p

theorem after_shows (roomId : UUID) (p : Progress) (x : Done) :
    Shows roomId p x (p.after roomId x) := by
  unfold after
  split
  case h_1 => exact .cached _ _ _
  case h_2 =>
    split
    · exact .found _ _
    · exact .quiet _
  case h_3 => exact .named _ _ _
  case h_4 => exact .read _ _
  case h_5 => exact .issued _ _
  case h_6 => exact .saved _ _
  case h_7 => exact .unsaved _ _
  case h_8 => exact .committed _
  case h_9 => exact .ended _ (.inl rfl)
  case h_10 => exact .ended _ (.inr rfl)
  case h_11 => exact .answered _ _
  case h_12 => exact .quiet _

theorem after_cached {id : Nat} (cached : (p.after roomId x).cached = some id) :
    p.cached = some id ∨ ∃ room cid, x = ⟨.redisGet (.dedup room cid), .ok (some id)⟩ := by
  have shows := after_shows roomId p x
  generalize p.after roomId x = q at cached shows
  cases shows with
  | cached room cid answer => exact .inr ⟨room, cid, by rw [← Option.some.inj cached]⟩
  | _ => exact .inl cached

theorem after_seen {m : Message} (seen : (p.after roomId x).seen = some m) :
    p.seen = some m ∨ (∃ id, x = ⟨.findById id, .ok (some m)⟩) ∨
      ∃ room cid, x = ⟨.findByClientMessageId room cid, .ok (some m)⟩ := by
  have shows := after_shows roomId p x
  generalize p.after roomId x = q at seen shows
  cases shows with
  | found id m' => exact .inr (.inl ⟨id, by rw [← Option.some.inj seen]⟩)
  | named room cid m' => exact .inr (.inr ⟨room, cid, by rw [← Option.some.inj seen]⟩)
  | _ => exact .inl seen

theorem after_highest {slot : UUID × Nat} (highest : (p.after roomId x).highest = some slot) :
    p.highest = some slot ∨ x = ⟨.maxSequence slot.1, .ok slot.2⟩ := by
  have shows := after_shows roomId p x
  generalize p.after roomId x = q at highest shows
  cases shows with
  | read room n => exact .inr (by rw [← Option.some.inj highest])
  | _ => exact .inl highest

/-- What a send knows to be the highest number, it has read. -/
theorem read_of_highest {log : Log Op Op.Res} {slot : UUID × Nat}
    (highest : (progress roomId log).highest = some slot) :
    ⟨.maxSequence slot.1, .ok slot.2⟩ ∈ log := by
  induction log with
  | nil => cases highest
  | cons x earlier ih =>
      rcases after_highest highest with before | isRead
      · exact List.mem_cons_of_mem _ (ih before)
      · exact isRead ▸ List.mem_cons_self

theorem held_after (increment : ∀ key, x.1 ≠ .increment key) (commit : x.1 ≠ .commit)
    (rollback : x.1 ≠ .rollback) (respond : ∀ response, x.1 ≠ .respond response) :
    (p.after roomId x).held = p.held := by
  have shows := after_shows roomId p x
  generalize p.after roomId x = q at shows
  cases shows with
  | issued => exact absurd rfl (increment _)
  | committed => exact absurd rfl commit
  | ended _ ends => exact ends.elim (absurd · commit) (absurd · rollback)
  | answered => exact absurd rfl (respond _)
  | _ => rfl

theorem after_held {slot : UUID × Nat} (held : (p.after roomId x).held = some slot) :
    x = ⟨.increment (.seq slot.1), .ok slot.2⟩ ∨
      p.held = some slot ∧ x.1 ≠ .commit ∧ x.1 ≠ .rollback ∧ ∀ response, x.1 ≠ .respond response := by
  obtain ⟨op, result⟩ := x
  cases op with
  | increment key =>
      cases key with
      | seq room =>
          cases result with
          | ok n => exact .inl (by rw [← Option.some.inj held])
          | error e => exact .inr ⟨held, (by simp), (by simp), (by simp)⟩
      | rateLimit | dedup => cases result <;> exact .inr ⟨held, (by simp), (by simp), (by simp)⟩
  | commit => cases result <;> cases held
  | rollback | respond => cases held
  | _ =>
      rw [held_after (by simp) (by simp) (by simp) (by simp)] at held
      exact .inr ⟨held, (by simp), (by simp), (by simp)⟩

theorem inserted_after (save : ∀ draft, x.1 ≠ .save draft) (commit : x.1 ≠ .commit)
    (rollback : x.1 ≠ .rollback) : (p.after roomId x).inserted = p.inserted := by
  have shows := after_shows roomId p x
  generalize p.after roomId x = q at shows
  cases shows with
  | saved => exact absurd rfl (save _)
  | committed => exact absurd rfl commit
  | ended _ ends => exact ends.elim (absurd · commit) (absurd · rollback)
  | _ => rfl

theorem after_inserted {m : Message} (inserted : (p.after roomId x).inserted = some m) :
    (∃ draft, x = ⟨.save draft, .ok m⟩) ∨
      p.inserted = some m ∧ x.1 ≠ .commit ∧ x.1 ≠ .rollback := by
  obtain ⟨op, result⟩ := x
  cases op with
  | save draft =>
      cases result with
      | ok m' => exact .inl ⟨draft, by rw [← Option.some.inj inserted]⟩
      | error e => exact .inr ⟨inserted, (by simp), (by simp)⟩
  | commit => cases result <;> cases inserted
  | rollback => cases inserted
  | _ =>
      rw [inserted_after (by simp) (by simp) (by simp)] at inserted
      exact .inr ⟨inserted, (by simp), (by simp)⟩

theorem after_committed {m : Message} (committed : (p.after roomId x).committed = some m) :
    p.committed = some m ∨ x = ⟨.commit, .ok ()⟩ ∧ p.inserted = some m := by
  have shows := after_shows roomId p x
  generalize p.after roomId x = q at committed shows
  cases shows with
  | committed => exact .inr ⟨rfl, committed⟩
  | _ => exact .inl committed

theorem opened_after (commit : x.1 ≠ .commit) (rollback : x.1 ≠ .rollback)
    (opened : p.opened = true) : (p.after roomId x).opened = true := by
  have shows := after_shows roomId p x
  generalize p.after roomId x = q at shows
  cases shows with
  | saved | unsaved => rfl
  | committed => exact absurd rfl commit
  | ended _ ends => exact ends.elim (absurd · commit) (absurd · rollback)
  | _ => exact opened

theorem closed_after (closed : p.closed = true) : (p.after roomId x).closed = true := by
  have shows := after_shows roomId p x
  generalize p.after roomId x = q at shows
  cases shows with
  | committed | ended => rfl
  | _ => exact closed

theorem answered_after (answered : p.answered = true) : (p.after roomId x).answered = true := by
  have shows := after_shows roomId p x
  generalize p.after roomId x = q at shows
  cases shows with
  | answered => rfl
  | _ => exact answered

end Progress

namespace Response

/-- The row and the sequence number a successful send is answered with. -/
def success : Response → Option (Nat × Nat)
  | .ack a =>
      match a.messageId, a.sequenceNumber with
      | some id, some seq => some (id, seq)
      | _, _ => none
  | .sent (.ok r) => some (r.messageId, r.sequenceNumber)
  | _ => none

end Response

/-- What a send with this room and client id does next, having come so far. -/
def sendLaw (roomId : UUID) (clientId : Option UUID) (p : Progress) : Op → Prop
  | .redisGet key => ∃ cid, clientId = some cid ∧ key = .dedup roomId cid
  | .findById id => clientId.isSome ∧ p.cached = some id
  | .findByClientMessageId room cid => room = roomId ∧ clientId = some cid
  | .setIfAbsent key value =>
      (key = .seq roomId ∧ p.highest = some (roomId, value)) ∨ ∃ cid m, clientId = some cid ∧ key = .dedup roomId cid ∧
        p.committed = some m ∧ m.id = value
  | .increment key => key = .seq roomId ∧ p.held = none ∧ p.opened = false ∧ p.answered = false
  | .save draft => draft.chatroomId = roomId ∧ draft.clientMessageId = clientId ∧
      p.held = some (roomId, draft.sequenceNumber) ∧ p.seen = none ∧ p.inserted = none ∧
      p.opened = false ∧ p.closed = false ∧ p.answered = false
  | .commit => (∃ m, p.inserted = some m) ∧ p.seen = none ∧ p.closed = false ∧ p.answered = false
  | .respond response => p.opened = false ∧ p.inserted = none ∧
      ∀ id seq, response.success = some (id, seq) →
        ∃ m, m.id = id ∧ m.sequenceNumber = seq ∧ (p.seen = some m ∨ p.committed = some m)
  | .delete _ | .deleteExpired _ | .evict _ | .crash _ => False
  | _ => True

/-- What a request does next after the operations it has performed. -/
def law : Call → Log Op Op.Res → Op → Prop
  | .attempt _ frame, log =>
      sendLaw frame.chatroomId frame.clientMessageId (progress frame.chatroomId log)
  | .post _ roomId req, log => sendLaw roomId req.clientMessageId (progress roomId log)
  | .postFile _ roomId req, log => sendLaw roomId req.clientMessageId (progress roomId log)
  | .syncRooms .., _ => fun op => match op with
      | .findChatroom _ | .findMember .. | .findAfter .. | .findUsers _ | .maxSequence _ => True
      | .respond response => response.success = none
      | _ => False
  | .delete .., _ => fun op => match op with
      | .findById _ | .delete _ => True
      | .respond response => response.success = none
      | _ => False
  | .sweepExpired, _ => fun op => match op with
      | .now | .deleteExpired _ => True
      | _ => False
  | .evict key, _ => fun op => op = .evict key
  | .crash thread, _ => fun op => op = .crash thread

end Rooms
