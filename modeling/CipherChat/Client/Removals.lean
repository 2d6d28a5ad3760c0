import CipherChat.Client.Drains

/-!
No item leaves the queue before the server has it, where every item that the service worker posts
gets as far as a service that would not let it in at another time only.
-/

namespace Client

open Async Rooms

theorem World.perform_cases {s s' : World} {op : Op} {a : Choice} {answer : op.Res}
    (performed : s.perform op a = some (answer, s')) :
    (answer = .error () ∧ s' = s) ∨
      ∃ v, s.react op a = some (v, s') ∧ (answer = .ok v ∨ answer = .error ()) := by
  unfold perform at performed
  split at performed
  · obtain ⟨rfl, rfl⟩ := Prod.mk.inj (Option.some.inj performed)
    exact .inl ⟨rfl, rfl⟩
  · obtain ⟨⟨v, s₁⟩, reacted, isAfter⟩ := Option.map_eq_some_iff.mp performed
    obtain ⟨rfl, rfl⟩ := Prod.mk.inj isAfter
    refine .inr ⟨v, reacted, ?_⟩
    cases a.lost with
    | false => exact .inl rfl
    | true => exact .inr rfl

/-- An acknowledged client id belongs to a message that the server has had. -/
def Truthful (known : UUID → Prop) (ack : WireAck) : Prop :=
  ack.settles → ∀ cid, ack.clientMessageId = some cid → known cid

/-- What holds of the queue, of the frames on their way and of the answers to them. -/
structure Good (owner : UUID → Origin) (userId : UUID) (known : UUID → Prop) (s : World) : Prop where
  user : s.userId = userId
  member : userId ∈ s.site.users
  sound : s.site.Sound owner
  below : ∀ row ∈ s.rows, row.id < s.nextId
  owned : ∀ row ∈ s.rows, Owns owner row.item.clientMessageId (row.item.origin userId)
  distinct : ∀ row ∈ s.rows, ∀ row' ∈ s.rows, row'.id = row.id → row' = row
  sent : ∀ frame ∈ s.sent, Owns owner frame.clientMessageId (frame.origin userId)
  left : ∀ batch ∈ s.batches, ∀ frame ∈ batch.left,
    Owns owner frame.clientMessageId ((Frame.room frame).origin userId)
  acks : ∀ ack ∈ s.acks, Truthful known ack
  results : ∀ batch ∈ s.batches, ∀ ack ∈ batch.results, Truthful known ack

/-- The operation sends and keeps messages under client ids that are theirs. -/
def Op.Owned (owner : UUID → Origin) (userId : UUID) : Op → Prop
  | .add item | .post _ item => Owns owner item.clientMessageId (item.origin userId)
  | .emitSync frames => ∀ frame ∈ frames,
      Owns owner frame.clientMessageId ((Frame.room frame).origin userId)
  | .directMessage item payload => item.payload = .dm payload
  | .send frame => Owns owner frame.clientMessageId (frame.origin userId)
  | _ => True

/-- Rows are added at the end of the ids only, and the server goes on. -/
structure Advances (owner : UUID → Origin) (s s' : World) : Prop where
  site : Site.Grows owner s.site s'.site
  nextId : s.nextId ≤ s'.nextId
  rows : ∀ row ∈ s'.rows, row ∈ s.rows ∨ s.nextId ≤ row.id

theorem Site.Grows.refl {owner : UUID → Origin} (s : Site) : Site.Grows owner s s :=
  { Grows.of_name s 0 with named := fun _ => id }

theorem Advances.of_site {owner : UUID → Origin} {s : World} {site : Site}
    (grows : Site.Grows owner s.site site) : Advances owner s { s with site } :=
  ⟨grows, le_rfl, fun _ => .inl⟩

theorem Advances.of_same {owner : UUID → Origin} {s s' : World} (site : s'.site = s.site)
    (nextId : s'.nextId = s.nextId) (rows : s'.rows = s.rows) : Advances owner s s' :=
  ⟨site ▸ .refl _, nextId.ge, fun _ member => .inl (rows ▸ member)⟩

section

variable {owner : UUID → Origin} {userId : UUID} {known known' : UUID → Prop} {s s' : World}

theorem Truthful.mono {ack : WireAck} (more : ∀ cid, known cid → known' cid)
    (truthful : Truthful known ack) : Truthful known' ack :=
  fun settled cid isId => more cid (truthful settled cid isId)

theorem Good.mono (good : Good owner userId known s) (more : ∀ cid, known cid → known' cid) :
    Good owner userId known' s :=
  { good with
    acks := fun ack member => (good.acks ack member).mono more
    results := fun batch member ack result => (good.results batch member ack result).mono more }

/-- The server has gone on. -/
theorem Good.at_site (good : Good owner userId known s) {site : Site}
    (grows : Site.Grows owner s.site site) : Good owner userId known { s with site } :=
  { good with
    member := grows.users _ good.member
    sound := good.sound.grow grows }

theorem Owns.of_drain {item : QueuedItem} {payload : ChatroomQueuePayload}
    (isPayload : item.payload = .chatroom payload)
    (owns : Owns owner item.clientMessageId (item.origin userId)) :
    Owns owner item.clientMessageId
      ((Frame.room (drainFrame item.clientMessageId item.targetId payload)).origin userId) := by
  simp only [QueuedItem.origin, isPayload] at owns
  exact owns

/-- A message is acknowledged under its own client id, and once it is there. -/
theorem Site.attempt_truthful {site : Site} {frame : RoomSend} {a : Chance} (sound : site.Sound owner)
    (owns : Owns owner frame.clientMessageId ((Frame.room frame).origin userId))
    (knows : ∀ cid, (site.attempt userId frame a).2.Stores (owner cid) (some cid) → known cid) :
    Truthful known (site.attempt userId frame a).1 := by
  intro settled cid isId
  have stores := Site.attempt_settles sound owns settled
  have named : frame.clientMessageId = some cid := by
    unfold Site.attempt at isId
    split at isId
    · exact isId
    · exact isId
  apply knows cid
  rw [owns cid named, ← named]
  exact stores

theorem Site.attemptDm_truthful {site : Site} {conversationId : UUID} {req : DmRequest} {a : Chance}
    (sound : site.Sound owner)
    (owns : Owns owner req.clientMessageId ((Frame.dm conversationId req).origin userId))
    (knows : ∀ cid, (site.attemptDm userId conversationId req a).2.Stores (owner cid) (some cid) →
      known cid) :
    Truthful known (site.attemptDm userId conversationId req a).1 := by
  intro settled cid isId
  have stores := Site.attemptDm_settles sound owns settled
  have named : req.clientMessageId = some cid := by
    unfold Site.attemptDm at isId
    split at isId
    · exact isId
    · exact isId
  apply knows cid
  rw [owns cid named, ← named]
  exact stores

theorem World.handle_truthful {frame : Frame} {a : Chance} (sound : s.site.Sound owner)
    (owns : Owns owner frame.clientMessageId (frame.origin s.userId))
    (knows : ∀ cid, (s.handle frame a).2.Stores (owner cid) (some cid) → known cid) :
    Site.Grows owner s.site (s.handle frame a).2 ∧ Truthful known (s.handle frame a).1 := by
  cases frame with
  | room frame =>
      simp only [World.handle] at knows ⊢
      split at knows
      next valid =>
        rw [if_pos valid]
        exact ⟨Site.attempt_grows a owns, Site.attempt_truthful sound owns knows⟩
      next invalid =>
        rw [if_neg invalid]
        exact ⟨.refl _, nofun⟩
  | dm conversationId req =>
      simp only [World.handle] at knows ⊢
      split at knows
      next valid =>
        rw [if_pos valid]
        exact ⟨Site.attemptDm_grows a owns, Site.attemptDm_truthful sound owns knows⟩
      next invalid =>
        rw [if_neg invalid]
        exact ⟨.refl _, nofun⟩

theorem Good.react {op : Op} {a : Choice} {v : op.Val} (good : Good owner userId known s)
    (owned : op.Owned owner userId) (drawn : op.Drawn owner userId a)
    (knows : ∀ cid, s'.site.Stores (owner cid) (some cid) → known cid)
    (reacted : s.react op a = some (v, s')) :
    Good owner userId known s' ∧ Advances owner s s' := by
  cases op with
  | matchAll | getAll | refresh | expire | guard =>
      obtain ⟨rfl, rfl⟩ := Prod.mk.inj (Option.some.inj reacted)
      exact ⟨{ good with }, .of_same rfl rfl rfl⟩
  | add item =>
      obtain ⟨rfl, rfl⟩ := Prod.mk.inj (Option.some.inj reacted)
      refine ⟨{ good with below := ?_, owned := ?_, distinct := ?_ }, .refl _, Nat.le_succ _, ?_⟩
      · intro row member
        rcases List.mem_append.mp member with old | new
        · exact (good.below row old).trans (Nat.lt_succ_self _)
        · obtain rfl := List.mem_singleton.mp new
          exact Nat.lt_succ_self _
      · intro row member
        rcases List.mem_append.mp member with old | new
        · exact good.owned row old
        · obtain rfl := List.mem_singleton.mp new
          exact owned
      · intro row member row' member' same
        rcases List.mem_append.mp member with old | new
        · rcases List.mem_append.mp member' with old' | new'
          · exact good.distinct row old row' old' same
          · obtain rfl := List.mem_singleton.mp new'
            exact absurd same (good.below row old).ne'
        · obtain rfl := List.mem_singleton.mp new
          rcases List.mem_append.mp member' with old' | new'
          · exact absurd same (good.below row' old').ne
          · exact List.mem_singleton.mp new'
      · intro row member
        rcases List.mem_append.mp member with old | new
        · exact .inl old
        · obtain rfl := List.mem_singleton.mp new
          exact .inr le_rfl
  | remove id =>
      obtain ⟨rfl, rfl⟩ := Prod.mk.inj (Option.some.inj reacted)
      have kept : ∀ row ∈ s.rows.filter fun row => row.id ≠ id, row ∈ s.rows :=
        fun row member => List.mem_of_mem_filter member
      refine ⟨{ good with
        below := fun row member => good.below row (kept row member)
        owned := fun row member => good.owned row (kept row member)
        distinct := fun row member row' member' => good.distinct row (kept row member) row' (kept row' member')
        }, .refl _, le_rfl, fun row member => .inl (kept row member)⟩
  | post token item =>
      simp only [World.react] at reacted
      split at reacted
      · obtain ⟨rfl, rfl⟩ := Prod.mk.inj (Option.some.inj reacted)
        exact ⟨good, .of_same rfl rfl rfl⟩
      split at reacted
      · obtain ⟨rfl, rfl⟩ := Prod.mk.inj (Option.some.inj reacted)
        exact ⟨good, .of_same rfl rfl rfl⟩
      · obtain ⟨rfl, rfl⟩ := Prod.mk.inj (Option.some.inj reacted)
        have grows : Site.Grows owner s.site (s.site.post s.userId item a.chance).2 :=
          Site.post_grows a.chance (good.user ▸ owned)
        exact ⟨good.at_site grows, .of_site grows⟩
  | emitSync frames =>
      obtain ⟨rfl, rfl⟩ := Prod.mk.inj (Option.some.inj reacted)
      split
      · refine ⟨{ good with left := ?_, results := ?_ }, .of_same rfl rfl rfl⟩
        · intro batch member
          rcases List.mem_append.mp member with old | new
          · exact good.left batch old
          · obtain rfl := List.mem_singleton.mp new
            exact owned
        · intro batch member
          rcases List.mem_append.mp member with old | new
          · exact good.results batch old
          · obtain rfl := List.mem_singleton.mp new
            exact fun _ none => by cases none
      · exact ⟨good, .of_same rfl rfl rfl⟩
  | syncResult =>
      obtain ⟨_, _, isAfter⟩ := Option.map_eq_some_iff.mp reacted
      obtain ⟨rfl, rfl⟩ := Prod.mk.inj isAfter
      exact ⟨good, .of_same rfl rfl rfl⟩
  | directMessage item payload =>
      obtain ⟨rfl, rfl⟩ := Prod.mk.inj (Option.some.inj reacted)
      refine ⟨{ good with sent := fun frame member => ?_ }, .of_same rfl rfl rfl⟩
      rcases List.mem_append.mp member with old | new
      · exact good.sent frame old
      · obtain rfl := List.mem_singleton.mp new
        exact drawn
  | ack clientMessageId =>
      obtain ⟨_, _, isAfter⟩ := Option.map_eq_some_iff.mp reacted
      obtain ⟨rfl, rfl⟩ := Prod.mk.inj isAfter
      exact ⟨good, .of_same rfl rfl rfl⟩
  | send frame =>
      obtain ⟨rfl, rfl⟩ := Prod.mk.inj (Option.some.inj reacted)
      refine ⟨{ good with sent := fun frame' member => ?_ }, .of_same rfl rfl rfl⟩
      rcases List.mem_append.mp member with old | new
      · exact good.sent frame' old
      · obtain rfl := List.mem_singleton.mp new
        exact owned
  | receive index =>
      simp only [World.react] at reacted
      split at reacted
      · contradiction
      next frame isFrame =>
        obtain ⟨rfl, rfl⟩ := Prod.mk.inj (Option.some.inj reacted)
        obtain ⟨grows, truthful⟩ := World.handle_truthful (a := a.chance) good.sound
          (good.user ▸ good.sent frame (List.mem_of_getElem? isFrame)) knows
        refine ⟨{ good.at_site grows with sent := ?_, acks := ?_ }, grows, le_rfl, fun _ => .inl⟩
        · exact fun frame' member => good.sent frame' (List.mem_of_mem_eraseIdx member)
        · intro ack member
          rcases List.mem_append.mp member with old | new
          · exact good.acks ack old
          · obtain rfl := List.mem_singleton.mp new
            exact truthful
  | serve index =>
      simp only [World.react] at reacted
      split at reacted
      next frame left results isBatch =>
        obtain ⟨rfl, rfl⟩ := Prod.mk.inj (Option.some.inj reacted)
        have here := List.mem_of_getElem? isBatch
        have owns := good.left _ here
        have grows : Site.Grows owner s.site (s.site.attempt s.userId frame a.chance).2 :=
          Site.attempt_grows a.chance (good.user ▸ owns frame List.mem_cons_self)
        have truthful : Truthful known (s.site.attempt s.userId frame a.chance).1 :=
          Site.attempt_truthful good.sound (good.user ▸ owns frame List.mem_cons_self) knows
        refine ⟨{ good.at_site grows with left := ?_, results := ?_ }, grows, le_rfl, fun _ => .inl⟩
        · intro batch member
          rcases List.mem_or_eq_of_mem_set member with old | rfl
          · exact good.left batch old
          · exact fun frame' member' => owns frame' (List.mem_cons_of_mem _ member')
        · intro batch member
          rcases List.mem_or_eq_of_mem_set member with old | rfl
          · exact good.results batch old
          · intro ack member'
            rcases List.mem_append.mp member' with old | new
            · exact good.results _ here ack old
            · obtain rfl := List.mem_singleton.mp new
              exact truthful
      · contradiction
  | elsewhere => cases reacted

theorem Good.exec {op : Op} {answer : op.Res} (good : Good owner userId known s)
    (owned : op.Owned owner userId) (knows : ∀ cid, s'.site.Stores (owner cid) (some cid) → known cid)
    (exec : Exec owner s op answer s') : Good owner userId known s' ∧ Advances owner s s' := by
  rcases exec with ⟨a, drawn, performed⟩ | ⟨_, site, step, rfl⟩
  · rcases World.perform_cases performed with ⟨_, rfl⟩ | ⟨v, reacted, _⟩
    · exact ⟨good, .of_same rfl rfl rfl⟩
    · exact good.react owned (good.user ▸ drawn) knows reacted
  · exact ⟨good.at_site step.grows, .of_site step.grows⟩

end

/-- A message of this client id has been at the server. -/
def Known (owner : UUID → Origin) (past : List Event) (cid : UUID) : Prop :=
  ∃ e ∈ past, e.after.site.Stores (owner cid) (some cid)

/-- The server has had the message of the item. -/
def Arrived (userId : UUID) (past : List Event) (item : QueuedItem) : Prop :=
  ∃ e ∈ past, e.after.site.Persists userId item

/-- What an answer in the past means now. -/
def Meant (owner : UUID → Origin) (userId : UUID) (past : List Event) (s : World) : Done → Prop
  | ⟨.getAll, .ok rows⟩ => ∀ row ∈ rows, row.id < s.nextId ∧
      Owns owner row.item.clientMessageId (row.item.origin userId) ∧
        ∀ row' ∈ s.rows, row'.id = row.id → row' = row
  | ⟨.post _ item, .ok status⟩ => Owns owner item.clientMessageId (item.origin userId) ∧
      (Site.removes status → Arrived userId past item ∨ s.site.Shut userId item)
  | ⟨.syncResult, .ok (some results)⟩ => ∀ ack ∈ results, Truthful (Known owner past) ack
  | ⟨.directMessage item _, .ok cid⟩ => Owns owner (some cid) (item.origin userId) ∧
      (item.clientMessageId = none ∨ some cid = item.clientMessageId)
  | ⟨.ack cid, .ok (some ack)⟩ => ack.clientMessageId = some cid ∧ Truthful (Known owner past) ack
  | _ => True

/-- What a request may be about, and how far a post may get. -/
def Call.Owned (owner : UUID → Origin) (userId : UUID) : Call → Prop
  | .enqueue item => Owns owner item.clientMessageId (item.origin userId)
  | .send frame => Owns owner frame.clientMessageId (frame.origin userId)
  | _ => True

def Reached (_ : History) (e : Event) : Prop :=
  match e.op with
  | .post token item => (∀ status, e.before.gate = some status → ¬Site.removes status) ∧
      token ∉ e.before.expired ∧ e.before.site.Entitled e.before.userId item
  | _ => True

/-- The server has had whatever is removed here, or never will. -/
def Justified (owner : UUID → Origin) (userId : UUID) (earlier : List Event) (e : Event) : Prop :=
  ∀ id, e.op = .remove id → ∀ row ∈ e.before.rows, row.id = id →
    Arrived userId earlier row.item ∨ Site.Doomed owner e.before.site userId row.item

structure Kept (owner : UUID → Origin) (userId : UUID) (j : History) : Prop where
  calls : ∀ t request, j.calls t = some request → request.Owned owner userId
  good : Good owner userId (Known owner j.past) j.state
  meant : ∀ e ∈ j.past, Meant owner userId j.past j.state e.logged
  justified : ∀ later e earlier, j.past = later ++ e :: earlier → Justified owner userId earlier e

section

variable {owner : UUID → Origin} {userId : UUID} {permits : History → Event → Prop} {j : History}
  {e : Event} {s s' : World} {past : List Event}

theorem Known.cons {cid : UUID} (knows : Known owner past cid) : Known owner (e :: past) cid := by
  obtain ⟨e', old, stores⟩ := knows
  exact ⟨e', List.mem_cons_of_mem _ old, stores⟩

theorem Arrived.cons {item : QueuedItem} (arrived : Arrived userId past item) :
    Arrived userId (e :: past) item := by
  obtain ⟨e', old, persists⟩ := arrived
  exact ⟨e', List.mem_cons_of_mem _ old, persists⟩

theorem Meant.cons {x : Done} (advances : Advances owner s s')
    (meant : Meant owner userId past s x) : Meant owner userId (e :: past) s' x := by
  unfold Meant at meant ⊢
  split
  · intro row member
    obtain ⟨below, owned, only⟩ := meant row member
    refine ⟨below.trans_le advances.nextId, owned, fun row' member' same => ?_⟩
    rcases advances.rows row' member' with old | new
    · exact only row' old same
    · exact absurd (same ▸ below) new.not_gt
  · refine ⟨meant.1, fun removed => (meant.2 removed).imp Arrived.cons fun shut => ?_⟩
    exact shut.step meant.1 advances.site
  · exact fun ack member => (meant ack member).mono fun _ => Known.cons
  · exact meant
  · exact ⟨meant.1, meant.2.mono fun _ => Known.cons⟩
  · trivial

/-- A row that a program has read is its own, and the only one of its id. -/
theorem Kept.of_read (kept : Kept owner userId j) {t : Nat} {row : Row} (read : Read (j.log t) row) :
    Owns owner row.item.clientMessageId (row.item.origin userId) ∧
      ∀ row' ∈ j.state.rows, row'.id = row.id → row' = row := by
  obtain ⟨rows, answered, member⟩ := read
  obtain ⟨e, old, _, isLogged⟩ := mem_of_own answered
  have meant := kept.meant e old
  rw [isLogged] at meant
  exact (meant row member).2

theorem Kept.owned (kept : Kept owner userId j) (running : j.calls e.thread = some e.call)
    (lawful : law e.call (j.log e.thread) e.op) : e.op.Owned owner userId := by
  have admitted := kept.calls _ _ running
  cases isOp : e.op <;> rw [isOp] at lawful
  case add item =>
    rw [show e.call = .enqueue item from lawful] at admitted
    exact admitted
  case send frame =>
    rw [show e.call = .send frame from lawful] at admitted
    exact admitted
  case post token item =>
    obtain ⟨row, read, rfl⟩ := lawful
    exact (kept.of_read read).1
  case emitSync frames =>
    intro frame member
    obtain ⟨row, payload, read, isPayload, rfl⟩ := lawful frame member
    exact Owns.of_drain isPayload (kept.of_read read).1
  case directMessage item payload => exact lawful.1
  all_goals trivial

theorem Meant.of_error (op : Op) : Meant owner userId past s ⟨op, .error ()⟩ := by
  cases op <;> trivial

theorem Meant.of_elsewhere {op : Op} {answer : op.Res} (isOp : op = .elsewhere) :
    Meant owner userId past s ⟨op, answer⟩ := by
  subst isOp
  cases answer <;> trivial

theorem World.result_cases {a : Choice} {results : List WireAck}
    (isResult : s.result a = some (some results)) : ∃ batch ∈ s.batches, batch.results = results := by
  unfold World.result at isResult
  split at isResult
  · cases isResult
  split at isResult
  next i _ results' isBatch =>
    obtain rfl := Option.some.inj (Option.some.inj isResult)
    exact ⟨_, List.mem_of_getElem? isBatch, rfl⟩
  · cases isResult

theorem World.acknowledged_cases {a : Choice} {cid : UUID} {ack : WireAck}
    (isAck : s.acknowledged cid a = some (some ack)) : ack ∈ s.acks ∧ ack.clientMessageId = some cid := by
  unfold World.acknowledged at isAck
  split at isAck
  · cases isAck
  split at isAck
  next ack' isHere =>
    split at isAck
    next named =>
      obtain rfl := Option.some.inj (Option.some.inj isAck)
      exact ⟨List.mem_of_getElem? isHere, named⟩
    · cases isAck
  · cases isAck

/-- What an answer means when it is given. -/
theorem Good.means {op : Op} {a : Choice} {v : op.Val} (good : Good owner userId (Known owner past) s)
    (owned : op.Owned owner userId) (drawn : op.Drawn owner userId a)
    (reached : ∀ token item, op = .post token item →
      (∀ status, s.gate = some status → ¬Site.removes status) ∧ token ∉ s.expired ∧
        s.site.Entitled s.userId item)
    (reacted : s.react op a = some (v, s')) (after : e.after = s') :
    Meant owner userId (e :: past) s' ⟨op, .ok v⟩ := by
  have more : ∀ cid, Known owner past cid → Known owner (e :: past) cid := fun _ => Known.cons
  cases op with
  | getAll =>
      obtain ⟨rfl, rfl⟩ := Prod.mk.inj (Option.some.inj reacted)
      exact fun row member => ⟨good.below row member, good.owned row member, good.distinct row member⟩
  | post token item =>
      refine ⟨owned, fun removed => ?_⟩
      obtain ⟨open', valid, entitled⟩ := reached token item rfl
      simp only [World.react] at reacted
      split at reacted
      next status isGate =>
        obtain ⟨rfl, rfl⟩ := Prod.mk.inj (Option.some.inj reacted)
        exact absurd removed (open' status isGate)
      next =>
        rw [if_neg valid] at reacted
        obtain ⟨rfl, rfl⟩ := Prod.mk.inj (Option.some.inj reacted)
        have isUser := good.user
        subst isUser
        rcases Site.post_settles good.sound good.member owned entitled a.chance removed with persists | shut
        · exact .inl ⟨e, List.mem_cons_self, after ▸ persists⟩
        · exact .inr shut
  | syncResult =>
      obtain ⟨found, isResult, isAfter⟩ := Option.map_eq_some_iff.mp reacted
      obtain ⟨rfl, rfl⟩ := Prod.mk.inj isAfter
      cases found with
      | none => trivial
      | some results =>
          obtain ⟨batch, member, rfl⟩ := World.result_cases isResult
          exact fun ack inResults => (good.results batch member ack inResults).mono more
  | directMessage item payload =>
      obtain ⟨rfl, rfl⟩ := Prod.mk.inj (Option.some.inj reacted)
      have isPayload : item.payload = .dm payload := owned
      refine ⟨?_, ?_⟩
      · simp only [QueuedItem.origin, isPayload]
        exact drawn
      · cases item.clientMessageId with
        | none => exact .inl rfl
        | some own => exact .inr rfl
  | ack cid =>
      obtain ⟨found, isAck, isAfter⟩ := Option.map_eq_some_iff.mp reacted
      obtain ⟨rfl, rfl⟩ := Prod.mk.inj isAfter
      cases found with
      | none => trivial
      | some ack =>
          obtain ⟨member, named⟩ := World.acknowledged_cases isAck
          exact ⟨named, (good.acks ack member).mono more⟩
  | matchAll | add | remove | refresh | emitSync | send | receive | serve | expire | guard | elsewhere =>
      trivial

theorem Kept.means (kept : Kept owner userId j) (performs : j.Performs (service owner) permits e)
    (reached : Reached j e) (owned : e.op.Owned owner userId) :
    Meant owner userId (e :: j.past) e.after e.logged := by
  have before := performs.before
  rcases performs.exec with ⟨a, drawn, performed⟩ | ⟨isOp, _⟩
  · rw [before, kept.good.user] at drawn
    rw [before] at performed
    unfold Entry.logged
    rcases World.perform_cases performed with ⟨isError, _⟩ | ⟨v, reacted, isOk | isError⟩
    · rw [isError]
      exact .of_error e.op
    · rw [isOk]
      refine kept.good.means owned drawn (fun token item isPost => ?_) reacted rfl
      simp only [Reached, isPost, before] at reached
      exact reached
    · rw [isError]
      exact .of_error e.op
  · exact .of_elsewhere isOp

/-- Whoever removes a row has been answered about it. -/
theorem Kept.justifies (kept : Kept owner userId j) (performs : j.Performs (service owner) permits e)
    (lawful : law e.call (j.log e.thread) e.op) : Justified owner userId j.past e := by
  intro id isRemove row member isId
  rw [isRemove] at lawful
  obtain ⟨row', read, rfl, answered⟩ := lawful
  obtain ⟨owns, only⟩ := kept.of_read read
  obtain rfl := only row (performs.before ▸ member) isId
  have known : ∀ cid, Known owner j.past cid → Owns owner (some cid) (row.item.origin userId) →
      row.item.clientMessageId = none ∨ some cid = row.item.clientMessageId → Arrived userId j.past row.item := by
    rintro cid ⟨e', old, stores⟩ owned isCid
    rw [owned cid rfl] at stores
    exact ⟨e', old, some cid, stores, isCid⟩
  cases answered with
  | posted token status posted removed =>
      obtain ⟨e', old, _, isLogged⟩ := mem_of_own posted
      have meant := kept.meant e' old
      rw [isLogged] at meant
      refine (meant.2 removed).imp id fun shut => ?_
      rw [performs.before]
      exact shut.doomed owns
  | listed results ack listed inResults same settled =>
      obtain ⟨e', old, _, isLogged⟩ := mem_of_own listed
      have meant := kept.meant e' old
      rw [isLogged] at meant
      simp only [sameId, Bool.and_eq_true, decide_eq_true_eq] at same
      obtain ⟨cid, isCid⟩ := Option.isSome_iff_exists.mp same.1
      have named : some cid = row.item.clientMessageId := isCid.symm.trans same.2
      exact .inl (known cid (meant ack inResults settled cid isCid) (named ▸ owns) (.inr named))
  | acked payload cid ack sent acked settled =>
      obtain ⟨e', old, _, isLogged⟩ := mem_of_own sent
      have meant := kept.meant e' old
      rw [isLogged] at meant
      obtain ⟨e'', old', _, isLogged'⟩ := mem_of_own acked
      have truthful := kept.meant e'' old'
      rw [isLogged'] at truthful
      exact .inl (known cid (truthful.2 settled cid truthful.1) meant.1 meant.2)

theorem Kept.record (kept : Kept owner userId j) (performs : j.Performs (service owner) permits e)
    (lawful : law e.call (j.log e.thread) e.op) (reached : Reached j e) : Kept owner userId (j.record e) := by
  have owned := kept.owned performs.running lawful
  have more : ∀ cid, Known owner j.past cid → Known owner (e :: j.past) cid := fun _ => Known.cons
  obtain ⟨good, advances⟩ := (kept.good.mono more).exec owned
    (fun cid stores => ⟨e, List.mem_cons_self, stores⟩) (performs.before ▸ performs.exec)
  refine ⟨kept.calls, good, fun e' member => ?_, fun later e' earlier isPast => ?_⟩
  · rcases List.mem_cons.mp member with rfl | old
    · exact kept.means performs reached owned
    · exact (kept.meant e' old).cons advances
  · cases later with
    | nil =>
        obtain ⟨rfl, rfl⟩ := List.cons.inj isPast
        exact kept.justifies performs lawful
    | cons last rest =>
        obtain ⟨rfl, isRest⟩ := List.cons.inj isPast
        exact kept.justified rest e' earlier isRest

end

/-- A queue with nothing on its way, and the server at which its user is known. -/
structure Ready (owner : UUID → Origin) (s : World) : Prop where
  member : s.userId ∈ s.site.users
  sound : s.site.Sound owner
  below : ∀ row ∈ s.rows, row.id < s.nextId
  owned : ∀ row ∈ s.rows, Owns owner row.item.clientMessageId (row.item.origin s.userId)
  distinct : ∀ row ∈ s.rows, ∀ row' ∈ s.rows, row'.id = row.id → row' = row
  sent : s.sent = []
  acks : s.acks = []
  batches : s.batches = []

theorem Ready.kept {owner : UUID → Origin} {s : World} (ready : Ready owner s) :
    Kept owner s.userId (.empty s) := by
  refine ⟨fun _ _ running => (by cases running), ⟨rfl, ready.member, ready.sound, ready.below, ready.owned,
    ready.distinct, ?_, ?_, ?_, ?_⟩, fun e old => (by cases old), fun later e earlier isPast => ?_⟩
  · simp [ready.sent]
  · simp [ready.batches]
  · simp [ready.acks]
  · simp [ready.batches]
  · exact absurd isPast (by simp)

/-- In every run from `s` whose operations are those `permits`, a row leaves the queue only when its
message has been at the server, or is one that the server never accepts again. -/
def NeverDrops (owner : UUID → Origin) (s : World) (permits : History → Event → Prop) : Prop :=
  ∀ j, (service owner).Reaches (fun _ request => request.Owned owner s.userId) permits s j →
    ∀ later e earlier, j.past = later ++ e :: earlier → Justified owner s.userId earlier e

theorem never_drops (owner : UUID → Origin) (s : World) (ready : Ready owner s) :
    NeverDrops owner s Reached := by
  intro j reaches
  have kept : Kept owner s.userId j := by
    refine reaches.invariant (Kept owner s.userId) service_follows ready.kept ?_ ?_
    · rintro j t request kept idle _ owned
      refine { kept with calls := fun u request' running => ?_ }
      rcases Journal.of_calls_begin running with ⟨_, rfl⟩ | before
      · exact owned
      · exact kept.calls u request' before
    · exact fun j e kept performs lawful => kept.record performs lawful performs.permitted
  exact kept.justified

section Examples

/-- The one message that the user 1 writes, to the room 1. -/
def hi : QueuedItem where
  clientMessageId := some 7
  targetId := 1
  payload := .chatroom { message := [104, 105], replyTo := none, expiresIn := none }

def writes (_ : UUID) : Origin :=
  hi.origin 1

def offline : World where
  userId := 1
  rows := []
  nextId := 0
  site := { users := [1], chatrooms := [(1, { privateRoom := false })], members := [], messages := [],
            conversations := [], dms := [], named := [] }
  expired := []
  nextToken := 0
  gate := none
  sent := []
  acks := []
  batches := []

theorem offline_ready : Ready writes offline := by
  refine ⟨?_, ⟨?_, ?_⟩, ?_, ?_, ?_, rfl, rfl, rfl⟩ <;> simp [offline]

theorem never_drops_offline : NeverDrops writes offline Reached :=
  never_drops writes offline offline_ready

/-- The user 1 writes nothing else. -/
def greets (request : Call) : Bool :=
  match request with
  | .enqueue item =>
      match item.payload with
      | .chatroom p => item.targetId = 1 && p.message = [104, 105]
      | .dm _ => false
  | .send _ => false
  | _ => true

theorem greets_owned {request : Call} (said : greets request) : request.Owned writes 1 := by
  unfold greets at said
  split at said
  next item =>
    split at said
    next p isPayload =>
      simp only [Bool.and_eq_true, decide_eq_true_eq] at said
      intro cid _
      simp only [writes, QueuedItem.origin, hi, isPayload, said]
    · cases said
  · cases said
  next unsaid unsent =>
    cases request
    case enqueue item => exact absurd rfl (unsaid item)
    case send frame => exact absurd rfl (unsent frame)
    all_goals trivial

/-- No id is drawn. -/
def answer (_ : Nat) (s : World) (op : Op) (a : Choice) : Option (op.Res × World) :=
  match op with
  | .directMessage .. => none
  | op => s.perform op a

theorem answer_exec {t : Nat} {s s' : World} {op : Op} {a : Choice} {result : op.Res}
    (answered : answer t s op a = some (result, s')) : Exec writes s op result s' := by
  cases op with
  | directMessage => cases answered
  | _ => exact .inl ⟨a, trivial, answered⟩

/-- The service worker has read the queue and got a token, which expires before it is used. -/
def dropped : Option History :=
  (((service writes).schedule answer greets).follow (Service.unstarted offline)
    (.start 0 (.enqueue hi) :: .await 0 {} :: .start 1 .flushOutbox :: List.replicate 3 (.await 1 {}) ++
      [.start 2 (.expire 0), .await 2 {}, .await 1 {}, .await 1 {}])).map Config.state

/-- What a row is answered with that is posted with a good token. -/
def prospects (s : World) : List (Nat × Nat) :=
  s.rows.map fun row => (row.id, (s.site.post 1 row.item {}).1)

def removal : Op → Option Nat
  | .remove id => some id
  | _ => none

theorem dropped_removes : dropped.map (fun j => (j.past.head?.map fun e => (removal e.op, prospects e.before),
    j.past.all fun e => e.after.site.messages.isEmpty && e.after.site.dms.isEmpty)) =
      some (some (some 0, [(0, 201)]), true) := by
  decide +kernel

theorem prospects_cases {id st : Nat} {s : World} (prospect : (id, st) ∈ prospects s) :
    ∃ row ∈ s.rows, row.id = id ∧ (s.site.post 1 row.item {}).1 = st := by
  obtain ⟨row, member, isRow⟩ := List.mem_map.mp prospect
  obtain ⟨isId, isStatus⟩ := Prod.mk.inj isRow
  exact ⟨row, member, isId, isStatus⟩

theorem removal_eq {op : Op} {id : Nat} (isRemoval : removal op = some id) : op = .remove id := by
  unfold removal at isRemoval
  split at isRemoval
  · rw [Option.some.inj isRemoval]
  · contradiction

theorem not_persists {site : Site} {userId : UUID} {item : QueuedItem} (messages : site.messages = [])
    (dms : site.dms = []) : ¬site.Persists userId item := by
  rintro ⟨cid, stores, _⟩
  unfold Site.Stores at stores
  split at stores
  · obtain ⟨m, member, _⟩ := stores
    rw [messages] at member
    cases member
  · rw [dms] at stores
    cases stores
  · exact stores

theorem drops_expired : ¬NeverDrops writes offline fun _ _ => True := by
  intro claim
  obtain ⟨j, ran, isDropped⟩ := Option.map_eq_some_iff.mp dropped_removes
  obtain ⟨isHead, isEmpty⟩ := Prod.mk.inj isDropped
  have reaches : (service writes).Reaches (fun _ request => request.Owned writes offline.userId)
      (fun _ _ => True) offline j := by
    obtain ⟨config, followed, rfl⟩ := Option.map_eq_some_iff.mp ran
    exact Service.reaches_follow (fun _ _ => greets_owned) (fun _ _ _ _ _ _ => answer_exec)
      (fun _ _ => trivial) followed
  obtain ⟨e, isPast, isRemoval⟩ := Option.map_eq_some_iff.mp isHead
  obtain ⟨earlier, isCons⟩ := List.head?_eq_some_iff.mp isPast
  obtain ⟨isRemove, isProspect⟩ := Prod.mk.inj isRemoval
  have prospect : ((0, 201) : Nat × Nat) ∈ prospects e.before := by
    rw [isProspect]
    exact List.mem_cons_self
  obtain ⟨row, member, isId, isStatus⟩ := prospects_cases prospect
  rcases claim j reaches [] e earlier isCons 0 (removal_eq isRemove) row member isId with arrived | doomed
  · obtain ⟨e', old, persists⟩ := arrived
    have inPast : e' ∈ j.past := by
      rw [isCons]
      exact List.mem_cons_of_mem _ old
    have empty := List.all_eq_true.mp isEmpty e' inPast
    simp only [Bool.and_eq_true, List.isEmpty_iff] at empty
    exact not_persists empty.1 empty.2 persists
  · refine doomed _ .refl {} (.inl ?_)
    change 200 ≤ (e.before.site.post 1 row.item {}).1 ∧ (e.before.site.post 1 row.item {}).1 < 300
    rw [isStatus]
    decide

end Examples

end Client
