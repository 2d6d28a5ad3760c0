import CipherChat.Notifications.Ledger

/-!
Who is mentioned twice in an event is notified twice; otherwise every event notifies exactly
once, however often it is delivered.
-/

namespace Notifications

open Async ReadCommitted
open Rooms (UUID JavaString JavaError Instant)
open Server (rowsOf)

/-- A delivery of the event has come to its end. -/
def Processed (j : History) (e : MessageSent) : Prop :=
  ∃ entry ∈ j.past, entry.call = .message e ∧ entry.op = .returned (.ok ())

/-- What the deliveries of an event have inserted. -/
def inserted (j : History) (delivery : Call) : List Notification :=
  (j.state.notifications.filter fun w => j.calls w.1 = some delivery).map Prod.snd

/-- One notification for each user mentioned but the sender, and none for anybody else. -/
def ExactlyOnce (j : History) (e : MessageSent) : Prop :=
  ∀ userId, ((inserted j (.message e)).filter fun n => n.userId = userId).length =
    if userId ∈ e.mentions ∧ userId ≠ e.senderId then 1 else 0

/-- In every run from `s` that delivers `events`, the event has notified once when it is processed. -/
def NotifiesOnce (s : Server) (events : Call → Prop) (e : MessageSent) : Prop :=
  ∀ j, service.Reaches (fun _ delivery => delivery = .sweep ∨ events delivery) Retained s j →
    Processed j e → ExactlyOnce j e

/-- An event has an id of its own. -/
def Distinct (events : Call → Prop) : Prop :=
  ∀ delivery delivery', events delivery → events delivery' →
    ∀ id, delivery.eventId = some id → delivery'.eventId = some id → delivery = delivery'

section Counting

variable {s : Server} {events : Call → Prop} {e : MessageSent} {j : History}

theorem keyOf_injective {consumer : String} {id id' : UUID}
    (same : keyOf consumer id = keyOf consumer id') : id = id' :=
  BitVec.eq_of_toNat_eq (Prod.mk.inj (toLex_inj.mp same)).2

/-- Claims that no delivery of the run has made were there before it. -/
theorem older_of_reaches {eventId : UUID} {admits : History → Call → Prop}
    (unprocessed : s.Unprocessed eventId) (reaches : service.Reaches admits Retained s j) :
    ∀ row ∈ j.state.claims, row.insertedBy = none → row ∈ s.claims := by
  refine reaches.kept (fun j => ∀ row ∈ j.state.claims, row.insertedBy = none → row ∈ s.claims)
    (fun row member _ => member) (fun _ _ _ older _ _ => older) ?_
  intro j entry older before performs _ row member unowned
  have consistent := consistent_of_reaches unprocessed before
  have exec : Exec entry.thread j.state entry.op entry.result entry.after :=
    performs.before ▸ performs.exec
  rcases consistent.claims exec.outcome member with old | ⟨_, _, isHeld⟩
  · exact older row old unowned
  · rw [(consistent.opened _ _ row isHeld).1] at unowned
    cases unowned

/-- The users stay, and so does the reference to them. -/
theorem referred_of_reaches {eventId : UUID} {admits : History → Call → Prop}
    (unprocessed : s.Unprocessed eventId) (reaches : service.Reaches admits Retained s j) :
    j.state.users = s.users ∧ j.state.Referred := by
  refine reaches.kept (fun j => j.state.users = s.users ∧ j.state.Referred) ?_ ?_ ?_
  · refine ⟨rfl, fun w member => ?_⟩
    rw [Journal.empty_state, unprocessed.unsaved, unprocessed.notifications] at member
    cases member
  · exact fun _ _ _ known _ _ => known
  · intro j entry known _ performs _
    have exec : Exec entry.thread j.state entry.op entry.result entry.after :=
      performs.before ▸ performs.exec
    exact ⟨exec.outcome.users.trans known.1, exec.outcome.referred known.2⟩

theorem called_of_reaches (reaches : service.Reaches
      (fun _ delivery => delivery = .sweep ∨ events delivery) Retained s j) :
    ∀ t delivery, j.calls t = some delivery → delivery = .sweep ∨ events delivery := by
  refine reaches.kept
    (fun j => ∀ t delivery, j.calls t = some delivery → delivery = .sweep ∨ events delivery)
    (fun _ _ => nofun) ?_ fun _ _ called _ _ _ => called
  intro j t delivery called _ admitted u delivery' running
  rcases Journal.of_calls_begin running with ⟨_, rfl⟩ | before
  · exact admitted
  · exact called u delivery' before

/-- Who has claimed the event delivers it. -/
theorem claimer (distinct : Distinct events) (delivered : events (.message e))
    (unprocessed : s.Unprocessed e.eventId)
    (reaches : service.Reaches (fun _ delivery => delivery = .sweep ∨ events delivery) Retained s j)
    {row : ProcessedEvent} (member : row ∈ j.state.claims)
    (isKey : (Call.message e).key = some row.key) :
    ∃ t, row.insertedBy = some t ∧ j.calls t = some (.message e) := by
  have consistent := consistent_of_reaches unprocessed reaches
  have isRow : keyOf NotificationConsumer.CONSUMER e.eventId = row.key := Option.some.inj isKey
  cases inserter : row.insertedBy with
  | none =>
      have older := older_of_reaches unprocessed reaches row member inserter
      rw [Server.claims, unprocessed.swept, List.append_nil, Database.mem_rows,
        Database.Stored, ← isRow, unprocessed.unclaimed] at older
      cases older
  | some t =>
      obtain ⟨delivery, running, hasKey, _⟩ := consistent.owned row member t inserter
      obtain ⟨id, isId, sameKey⟩ := Option.map_eq_some_iff.mp hasKey
      have sameId : id = e.eventId := keyOf_injective (sameKey.trans isRow.symm)
      refine ⟨t, rfl, running.trans (congrArg some ?_)⟩
      rcases called_of_reaches reaches t delivery running with rfl | isEvent
      · cases isId
      · exact distinct delivery (.message e) isEvent delivered e.eventId (sameId ▸ isId) rfl

/-- What is inserted for an event, one delivery has inserted. -/
theorem inserter {w : Nat × Notification} (consistent : Consistent j)
    (member : w ∈ j.state.notifications) (running : j.calls w.1 = some (.message e)) :
    ∃ row ∈ j.state.claims, row.insertedBy = some w.1 ∧
      (Call.message e).key = some row.key ∧
        rowsOf w.1 j.state.notifications = (Call.message e).drafts.reverse := by
  obtain ⟨row, claimed, mine⟩ := consistent.noted w member
  obtain ⟨delivery, running', isKey, rows⟩ := consistent.owned row claimed w.1 mine
  obtain rfl := Option.some.inj (running.symm.trans running')
  exact ⟨row, claimed, mine, isKey, rows⟩

theorem inserted_of_processed (distinct : Distinct events) (delivered : events (.message e))
    (unprocessed : s.Unprocessed e.eventId)
    (reaches : service.Reaches (fun _ delivery => delivery = .sweep ∨ events delivery) Retained s j)
    (processed : Processed j e) :
    (inserted j (.message e)).map Notification.toDraft = (Call.message e).drafts.reverse := by
  have consistent := consistent_of_reaches unprocessed reaches
  obtain ⟨entry, inPast, isCall, isOp⟩ := processed
  rcases isCall ▸ consistent.answered entry inPast isOp with nothing | ⟨row, member, isKey⟩
  · have none : ∀ w ∈ j.state.notifications, ¬decide (j.calls w.1 = some (.message e)) = true := by
      intro w inTable running
      obtain ⟨_, _, _, _, rows⟩ := inserter consistent inTable (of_decide_eq_true running)
      rw [nothing, List.reverse_nil, rowsOf, List.map_eq_nil_iff, List.filter_eq_nil_iff] at rows
      simpa using rows w inTable
    rw [inserted, List.filter_eq_nil_iff.mpr none, nothing]
    rfl
  · have claimed := consistent.grown entry inPast member
    obtain ⟨t, mine, running⟩ := claimer distinct delivered unprocessed reaches claimed isKey
    have same : j.state.notifications.filter (fun w => j.calls w.1 = some (.message e)) =
        j.state.notifications.filter fun w => w.1 = t := by
      refine List.filter_congr fun w inTable => ?_
      rw [decide_eq_decide]
      constructor
      · intro running'
        obtain ⟨row', claimed', mine', isKey', _⟩ := inserter consistent inTable running'
        have sameKey : row'.key = row.key := Option.some.inj (isKey'.symm.trans isKey)
        obtain rfl := consistent.single row' claimed' row claimed sameKey
        exact Option.some.inj (mine'.symm.trans mine)
      · rintro rfl
        exact running
    obtain ⟨delivery, running', _, rows⟩ := consistent.owned row claimed t mine
    obtain rfl := Option.some.inj (running.symm.trans running')
    rw [← rows, inserted, same, rowsOf, List.map_map]
    rfl

/-- Whom a processed event notifies is a user. -/
theorem user_of_processed (distinct : Distinct events) (delivered : events (.message e))
    (unprocessed : s.Unprocessed e.eventId)
    (reaches : service.Reaches (fun _ delivery => delivery = .sweep ∨ events delivery) Retained s j)
    (processed : Processed j e) {userId : UUID} (mentioned : userId ∈ e.mentions)
    (other : userId ≠ e.senderId) : userId ∈ s.users := by
  have rows := inserted_of_processed distinct delivered unprocessed reaches processed
  have isDraft : NotificationConsumer.mention e userId ∈ (Call.message e).drafts.reverse := by
    rw [List.mem_reverse, Call.drafts, List.mem_map]
    exact ⟨userId, List.mem_filter.mpr ⟨mentioned, by simpa using other⟩, rfl⟩
  rw [← rows] at isDraft
  obtain ⟨n, isInserted, isMention⟩ := List.mem_map.mp isDraft
  obtain ⟨w, isRow, rfl⟩ := List.mem_map.mp isInserted
  obtain ⟨users, referred⟩ := referred_of_reaches unprocessed reaches
  have isUser := referred w (List.mem_append_right _ (List.mem_of_mem_filter isRow))
  have same : w.2.userId = userId := congrArg Draft.userId isMention
  rw [← users, ← same]
  exact isUser

theorem notified_count (distinct : Distinct events) (delivered : events (.message e))
    (unprocessed : s.Unprocessed e.eventId)
    (reaches : service.Reaches (fun _ delivery => delivery = .sweep ∨ events delivery) Retained s j)
    (processed : Processed j e) (userId : UUID) :
    ((inserted j (.message e)).filter fun n => n.userId = userId).length =
      (e.mentions.filter fun u => u ≠ e.senderId).count userId := by
  have rows := inserted_of_processed distinct delivered unprocessed reaches processed
  have byDraft : ((inserted j (.message e)).filter fun n => n.userId = userId).length =
      ((inserted j (.message e)).map Notification.toDraft).countP fun d => d.userId = userId := by
    rw [← List.countP_eq_length_filter, List.countP_map]
    rfl
  rw [byDraft, rows, List.countP_reverse, Call.drafts, List.countP_map, List.count]
  refine List.countP_congr fun u _ => ?_
  rw [beq_iff_eq, Function.comp_apply, decide_eq_true_iff]
  rfl

end Counting

section Delivery

variable {s s' : Server} {op : Op}

/-- An operation of the first transaction, on a ledger that was never swept. -/
def Smooth (s : Server) (op : Op) (result : op.Res) (s' : Server) : Prop :=
  Exec 0 s op result s' ∧ s.swept = []

theorem ends_call {value : op.Val} (effected : effect 0 s op {} = some (.ok value, s'))
    (unswept : s.swept = []) : Ends Smooth s (call op) (.ok value) s' := by
  refine runs_call.mpr ⟨⟨{}, ?_⟩, unswept⟩
  exact effected

theorem ends_saveMentions (e : MessageSent) {mentions : List UUID} (unswept : s.swept = [])
    (users : ∀ u ∈ mentions, u ≠ e.senderId → u ∈ s.users) :
    ∃ s', Ends Smooth s (NotificationConsumer.saveMentions e mentions) (.ok ()) s' ∧
      s'.swept = [] := by
  induction mentions generalizing s with
  | nil => exact ⟨s, ends_pure.mpr ⟨rfl, rfl⟩, unswept⟩
  | cons mentioned rest ih =>
      unfold NotificationConsumer.saveMentions
      have later : ∀ u ∈ rest, u ≠ e.senderId → u ∈ s.users :=
        fun u member => users u (List.mem_cons_of_mem _ member)
      split
      next => exact ih unswept later
      next other =>
        let draft := NotificationConsumer.mention e mentioned
        have saves : Ends Smooth s (call (.save draft)) (.ok (s.save 0 draft).1)
            (s.save 0 draft).2 := ends_call (if_pos (users mentioned List.mem_cons_self other)) unswept
        have same : (s.save 0 draft).2.swept = s.swept := rfl
        obtain ⟨s', rests, unswept'⟩ := ih (same.trans unswept) later
        have whole : Ends Smooth s (NotificationConsumer.save draft) (.ok ()) (s.save 0 draft).2 :=
          saves.andThen (ends_pure.mpr ⟨rfl, rfl⟩)
        exact ⟨s', whole.andThen rests, unswept'⟩

theorem ends_handler {e : MessageSent} (unprocessed : s.Unprocessed e.eventId)
    (users : ∀ u ∈ e.mentions, u ≠ e.senderId → u ∈ s.users) :
    ∃ s', Ends Smooth s (Call.message e).handler (.ok ()) s' := by
  simp only [Call.handler, NotificationConsumer.onMessageSent]
  split
  next => exact ⟨s, ends_pure.mpr ⟨rfl, rfl⟩⟩
  next =>
    let k := keyOf NotificationConsumer.CONSUMER e.eventId
    have unwritten : s.ledger.Unwritten 0 := Database.unwritten_of_isEmpty unprocessed.pending
    have unheld : s.ledger.held k = none := by
      cases isHeld : s.ledger.held k with
      | none => rfl
      | some w =>
          have none : s.ledger.Unwritten w.1 := Database.unwritten_of_isEmpty unprocessed.pending
          exact absurd isHeld (none k w.2)
    have reached : s.ledger.reach 0 k = some none := by
      refine Database.reach_eq_some.mpr ⟨by simp [Database.locked, unheld], ?_⟩
      rw [unwritten.view]
      exact unprocessed.unclaimed
    let row : ProcessedEvent := ⟨NotificationConsumer.CONSUMER, e.eventId, 0, some 0⟩
    let claimed : Server := { s with ledger := s.ledger.write 0 row }
    have claims : Ends Smooth s
        (ProcessedEventLedger.claim NotificationConsumer.CONSUMER e.eventId) (.ok true) claimed := by
      refine ends_call ?_ unprocessed.swept
      simp only [effect, Server.claim]
      rw [show s.ledger.reach 0 (keyOf NotificationConsumer.CONSUMER e.eventId) = some none
        from reached]
      rfl
    obtain ⟨saved, saves, unswept⟩ : ∃ saved, Ends Smooth claimed
        (NotificationConsumer.saveMentions e e.mentions) (.ok ()) saved ∧ saved.swept = [] :=
      ends_saveMentions e unprocessed.swept users
    have commits : Ends Smooth saved (call .commit) (.ok ()) (saved.commit 0) :=
      ends_call rfl unswept
    refine ⟨saved.commit 0, Ends.andThen ?_ (commits.andThen (ends_pure.mpr ⟨rfl, rfl⟩))⟩
    exact ends_tryCatch.mpr (.inl ⟨(), claims.andThen saves, rfl⟩)

/-- Nothing need stand in the way of the first delivery. -/
theorem processed_run {events : Call → Prop} {e : MessageSent} (delivered : events (.message e))
    (unprocessed : s.Unprocessed e.eventId) (users : ∀ u ∈ e.mentions, u ≠ e.senderId → u ∈ s.users) :
    ∃ j, service.Reaches (fun _ delivery => delivery = .sweep ∨ events delivery) Retained s j ∧
      Processed j e := by
  obtain ⟨after, handles⟩ := ends_handler unprocessed users
  have settles : Ends Smooth s (settle (Call.message e).handler) (.ok (.ok ())) after :=
    ends_settle.mpr ⟨_, handles, rfl⟩
  let admits (_ : History) (delivery : Call) : Prop := delivery = .sweep ∨ events delivery
  let begun : History := (Journal.empty s).begin 0 (.message e)
  have running : begun.calls 0 = some (.message e) := Journal.begin_calls_self ..
  have may (j : History) (op : Op) (result : op.Res) (s' : Server)
      (smooth : Smooth j.state op result s') : service.exec 0 j.state op result s' ∧
        Retained j ⟨0, .message e, op, result, j.state, s'⟩ := by
    refine ⟨smooth.1, fun _ _ _ row swept => ?_⟩
    have unswept : j.state.swept = [] := smooth.2
    rw [unswept] at swept
    cases swept
  have journaled : ∃ later : List Event, Runs ((service.journaled admits Retained).exec 0) begun
      (settle (Call.message e).handler).run (.ok (.ok ())) ⟨after, begun.calls, later ++ begun.past⟩ ∧
        ∀ P : Server → Prop, (∀ x ∈ later, P x.before → P x.after) → P s → P after :=
    Service.runs_journaled may settles rfl running
  obtain ⟨later, handled, _⟩ := journaled
  let ended : History := ⟨after, begun.calls, later ++ begun.past⟩
  let entry : Event := ⟨0, .message e, .returned (.ok ()), .ok (), after, after⟩
  have performs : ended.Performs service Retained entry := ⟨running, rfl, ⟨{}, rfl⟩, nofun⟩
  have returns : Runs ((service.journaled admits Retained).exec 0) begun (Call.message e).program.run
      (.ok ()) (ended.record entry) :=
    Ends.andThen handled (runs_call.mpr ⟨entry, rfl, rfl, performs, rfl⟩)
  have started : (service.journaled admits Retained).start 0 (.empty s)
      (Call.message e).program.run begun := ⟨rfl, .message e, .inr delivered, rfl, rfl⟩
  have reachable := System.Reachable.solo .initial rfl started returns
  exact ⟨ended.record entry, ⟨_, reachable⟩, entry, List.mem_cons_self, rfl, rfl⟩

end Delivery

/-- An event notifies exactly once in every run if and only if nobody but its sender is mentioned
twice, or somebody mentioned is no user, and then the event is never processed. -/
theorem notifies_once_iff {s : Server} {events : Call → Prop} {e : MessageSent}
    (distinct : Distinct events) (delivered : events (.message e))
    (unprocessed : s.Unprocessed e.eventId) :
    NotifiesOnce s events e ↔ ((∀ u ∈ e.mentions, u ≠ e.senderId → u ∈ s.users) →
      (e.mentions.filter fun u => u ≠ e.senderId).Nodup) := by
  constructor
  · intro once users
    obtain ⟨j, reaches, processed⟩ := processed_run delivered unprocessed users
    refine List.nodup_iff_count_le_one.mpr fun userId => ?_
    rw [← notified_count distinct delivered unprocessed reaches processed userId,
      once j reaches processed userId]
    split
    · exact le_rfl
    · exact Nat.zero_le 1
  · intro known j reaches processed userId
    have nodup := known fun u => user_of_processed distinct delivered unprocessed reaches processed
    rw [notified_count distinct delivered unprocessed reaches processed userId]
    split
    next mentioned =>
      exact List.count_eq_one_of_mem nodup (List.mem_filter.mpr ⟨mentioned.1, by simpa using mentioned.2⟩)
    next unmentioned =>
      refine List.count_eq_zero.mpr fun member => unmentioned ?_
      obtain ⟨inMentions, other⟩ := List.mem_filter.mp member
      exact ⟨inMentions, by simpa using other⟩

section Doubled

/-- A server of three users that has not seen an event. -/
def untouched : Server where
  users := [1, 2, 3]
  ledger := .empty
  swept := []
  notifications := []
  pending := []
  nextId := 1

theorem untouched_unprocessed (eventId : UUID) : untouched.Unprocessed eventId :=
  ⟨rfl, rfl, rfl, rfl, fun _ => nofun, rfl⟩

/-- User 1 mentions these users. -/
def mentioning (mentions : List UUID) : MessageSent where
  chatroomId := 7
  messageId := 1
  sequenceNumber := 1
  senderId := 1
  senderName := [65]
  preview := [66]
  mentions := mentions
  eventId := 9

/-- Every delivery is one of this event. -/
def Alone (e : MessageSent) (delivery : Call) : Prop :=
  delivery = .message e

theorem alone_distinct (e : MessageSent) : Distinct (Alone e) :=
  fun _ _ first second _ _ _ => first.trans second.symm

theorem notifies_once_iff_three :
    NotifiesOnce untouched (Alone (mentioning [2, 1, 3])) (mentioning [2, 1, 3]) ∧
      ¬NotifiesOnce untouched (Alone (mentioning [2, 1, 2])) (mentioning [2, 1, 2]) := by
  refine ⟨(notifies_once_iff (alone_distinct _) rfl (untouched_unprocessed _)).mpr fun _ => ?_,
    fun once => ?_⟩
  · simp [mentioning]
  · have nodup := (notifies_once_iff (alone_distinct _) rfl (untouched_unprocessed _)).mp once
    simp [mentioning, untouched] at nodup

theorem notified_twice :
    ¬NotifiesOnce untouched (Alone (mentioning [2, 2])) (mentioning [2, 2]) := by
  intro once
  have delivered : Alone (mentioning [2, 2]) (.message (mentioning [2, 2])) := rfl
  obtain ⟨j, reaches, processed⟩ := processed_run delivered (untouched_unprocessed 9)
    (by simp [mentioning, untouched])
  have count := notified_count (alone_distinct _) delivered (untouched_unprocessed 9) reaches
    processed 2
  rw [once j reaches processed 2] at count
  revert count
  decide

end Doubled

end Notifications
