import CipherChat.Presence.Registry

/-!
The roster and the sockets. A user with a socket is in the roster once all calls are over, as long as
each command meets what it was written for, which `Permitted` says.
-/

namespace PresenceRegistry

open Async
open Presence (PresenceStatus)
open Rooms (UUID JavaString JavaError)

/-! ## Sockets -/

section Sockets

variable (j : History) (socket : Nat) (userId : UUID)

/-- The first command of a disconnect. -/
def Left : Prop :=
  ∃ e ∈ j.past, e.call = .disconnected socket userId ∧ e.op = .increment userId (-1)

def Open : Prop :=
  (∃ t, j.calls t = some (.connected socket userId)) ∧ ¬Left j socket userId

/-- The socket's connect has written its fields. -/
def Written : Prop :=
  ∃ e ∈ j.past, e.call = .connected socket userId ∧ ∃ fields, e.op = .putAll userId fields

/-- The first command of a connect or of a heartbeat. -/
def Beats (e : Event) : Prop :=
  (e.call = .connected socket userId ∧ e.op = .find userId) ∨
    (e.call = .heartbeat socket userId ∧ e.op = .hasKey userId)

/-- The socket has shown itself since the user's hash last timed out. -/
def Awake : List Event → Prop
  | [] => False
  | e :: earlier => Beats socket userId e ∨ (e.op ≠ .timeOut userId ∧ Awake earlier)

end Sockets

/-- A socket connects once, and for a user who is known. -/
def Admitted (j : History) : Call → Prop
  | .connected socket userId =>
      (∀ t other, j.calls t ≠ some (.connected socket other)) ∧ j.state.users userId ≠ none
  | _ => True

def Store.sessions (s : Store) (userId : UUID) : Int :=
  (s.hash userId).sessions.getD 0

/-- A user is taken out only when no socket has announced itself, the index loses no hash, a status
is only written to a hash, a user with a socket is the only one who is put in, and the last socket
finds no other counted. -/
def Permitted (j : History) (e : Event) : Prop :=
  match e.op, e.call with
  | .delete userId, _ =>
      j.state.hashes userId = none ∨ ∀ socket, Open j socket userId → ¬Written j socket userId
  | .removeMember userId, _ => j.state.hashes userId = none
  | .putAll userId _, .updateStatus .. => j.state.hashes userId ≠ none
  | .putAll userId _, _ => ∃ socket, Open j socket userId
  | .increment userId _, .disconnected socket _ =>
      (∃ other, other ≠ socket ∧ Open j other userId) ∨ j.state.sessions userId ≤ 1
  | .increment userId _, _ => ∃ socket, Open j socket userId
  | _, _ => True

/-! ## What a call has still to do -/

inductive Stage
  | rest
  | finding
  | incrementing
  | putting
  | expiring
  | adding
  | leaving
  | deleting
  | probing
  | updating
  deriving DecidableEq

abbrev Code := Program Op Op.Res (Except JavaError Unit)

def Call.Joins (request : Call) (userId : UUID) : Prop :=
  ∃ socket, request = .connected socket userId ∨ request = .heartbeat socket userId

def Call.Leaves (request : Call) (userId : UUID) : Prop :=
  ∃ socket, request = .disconnected socket userId

def Call.Updates (request : Call) (userId : UUID) : Prop :=
  ∃ status note, request = .updateStatus userId status note

/-- Commands that put no hash there, and take none away before its time. -/
def Mild : Op → Prop
  | .increment .. | .putAll .. | .delete _ | .hasKey _ | .find _ => False
  | _ => True

inductive At (request : Call) : Stage → Code → Prop
  | rest {p} : Uses Mild p → At request .rest p
  | finding {userId next} : request.Joins userId →
      (∀ user, At request .incrementing (next (.ok (some user)))) →
      At request .rest (next (.ok none)) → At request .finding (.await (.find userId) next)
  | incrementing {userId next} : request.Joins userId →
      (∀ sessions, At request .putting (next (.ok sessions))) →
      At request .incrementing (.await (.increment userId 1) next)
  | putting {userId fields next} : request.Joins userId → At request .expiring (next (.ok ())) →
      At request .putting (.await (.putAll userId fields) next)
  | expiring {userId next} : request.Joins userId →
      (∀ there, At request .adding (next (.ok there))) →
      At request .expiring (.await (.expire userId) next)
  | adding {userId next} : request.Joins userId → At request .rest (next (.ok ())) →
      At request .adding (.await (.addMember userId) next)
  | leaving {userId next} : request.Leaves userId →
      (∀ sessions, sessions ≤ 0 → At request .deleting (next (.ok sessions))) →
      (∀ sessions, ¬sessions ≤ 0 → At request .rest (next (.ok sessions))) →
      At request .leaving (.await (.increment userId (-1)) next)
  | deleting {userId next} : request.Leaves userId → At request .rest (next (.ok ())) →
      At request .deleting (.await (.delete userId) next)
  | probing {socket userId next} : request = .heartbeat socket userId →
      At request .finding (next (.ok false)) → At request .rest (next (.ok true)) →
      At request .probing (.await (.hasKey userId) next)
  | updating {userId p} : request.Updates userId →
      Uses (fun op => Mild op ∨ op = .hasKey userId ∨ ∃ fields, op = .putAll userId fields) p →
      At request .updating p

def Call.stage : Call → Stage
  | .connected .. => .finding
  | .disconnected .. => .leaving
  | .heartbeat .. => .probing
  | .updateStatus .. => .updating
  | .roster | .timeOut _ => .rest

section Start

variable (request : Call)

theorem at_connected (userId : UUID) (joins : request.Joins userId) {f : Except JavaError Bool → Code}
    (after : ∀ result, Uses Mild (f result)) :
    At request .finding ((connected userId).run >>= f) := by
  refine .finding joins (fun user => .incrementing joins fun sessions => .putting joins
    (.expiring joins fun there => .adding joins (.rest ?_))) (.rest ?_)
  · refine uses_bind ?_ after
    -- the news of a first session
    generalize decide (sessions = 1) = cameOnline
    cases cameOnline with
    | false => trivial
    | true =>
        refine ⟨trivial, fun result => ?_⟩
        cases result with
        | error e => trivial
        | ok _ => exact ⟨trivial, fun result => by cases result <;> trivial⟩
  · exact after (.ok false)

theorem at_disconnected (userId : UUID) (leaves : request.Leaves userId)
    {f : Except JavaError Bool → Code} (after : ∀ result, Uses Mild (f result)) :
    At request .leaving ((disconnected userId).run >>= f) := by
  let announce (wentOffline : Bool) : Prog Bool := do
    if wentOffline then
      call (.setOnline userId false)
      call (.publishUserOffline userId)
    return wentOffline
  have news (wentOffline : Bool) : Uses Mild ((announce wentOffline).run >>= f) := by
    refine uses_bind ?_ after
    cases wentOffline with
    | false => trivial
    | true =>
        refine ⟨trivial, fun result => ?_⟩
        cases result with
        | error e => trivial
        | ok _ => exact ⟨trivial, fun result => by cases result <;> trivial⟩
  let decide' (sessions : Int) : Prog Bool := do
    if sessions ≤ 0 then
      call (.delete userId)
      call (.removeMember userId)
      return true
    else return false
  refine .leaving leaves (fun sessions last => ?_) (fun sessions more => ?_)
  · change At request .deleting ((decide' sessions >>= announce).run >>= f)
    rw [show decide' sessions = _ from if_pos last]
    refine .deleting leaves (.rest ⟨trivial, fun result => ?_⟩)
    cases result with
    | error e => exact after (.error e)
    | ok _ => exact news true
  · change At request .rest ((decide' sessions >>= announce).run >>= f)
    rw [show decide' sessions = _ from if_neg more]
    exact .rest (news false)

theorem at_heartbeat {socket : Nat} {userId : UUID} (isCall : request = .heartbeat socket userId)
    {f : Except JavaError Bool → Code} (after : ∀ result, Uses Mild (f result)) :
    At request .probing ((heartbeat userId).run >>= f) := by
  refine .probing isCall ?_ (.rest ?_)
  · exact at_connected request userId ⟨socket, .inr isCall⟩ after
  · refine ⟨trivial, fun result => ?_⟩
    cases result with
    | error e => exact after (.error e)
    | ok _ => exact after (.ok false)

theorem at_updateStatus {userId : UUID} (updates : request.Updates userId)
    (status : Option PresenceStatus) (note : Option JavaString) :
    At request .updating (updateStatus userId status note).run := by
  refine .updating updates ⟨.inl trivial, fun result => ?_⟩
  cases result with
  | error e => trivial
  | ok updated =>
      refine ⟨.inr (.inl rfl), fun result => ?_⟩
      cases result with
      | error e => trivial
      | ok there =>
          cases there with
          | false => trivial
          | true => exact ⟨.inr (.inr ⟨_, rfl⟩), fun result => by cases result <;> trivial⟩

theorem uses_collect (ids : List UUID) : Uses Mild (collect ids).run := by
  induction ids with
  | nil => trivial
  | cons userId rest ih =>
      refine ⟨trivial, fun result => ?_⟩
      rcases result with e | _ | hash
      · trivial
      · exact ⟨trivial, fun result => by
          cases result with
          | error e => trivial
          | ok _ => exact ih⟩
      · exact uses_throwing_bind ih fun _ => trivial

/-- Where every call begins. -/
theorem at_stage (compareToIgnoreCase : JavaString → JavaString → Int) :
    At request request.stage (request.body compareToIgnoreCase).run := by
  have ends : ∀ {α : Type} (result : Except JavaError α),
      Uses Mild (ExceptT.bindCont (fun _ => pure ()) result : Code) := by
    intro α result
    cases result <;> trivial
  cases request with
  | connected socket userId => exact at_connected _ userId ⟨socket, .inl rfl⟩ ends
  | disconnected socket userId => exact at_disconnected _ userId ⟨socket, rfl⟩ ends
  | heartbeat socket userId => exact at_heartbeat _ rfl ends
  | updateStatus userId status note => exact at_updateStatus _ ⟨status, note, rfl⟩ status note
  | timeOut userId => exact .rest ⟨trivial, fun _ => trivial⟩
  | roster =>
      refine .rest (uses_throwing_bind ?_ fun _ => trivial)
      refine uses_throwing_bind ?_ fun _ => trivial
      refine ⟨trivial, fun result => ?_⟩
      cases result with
      | error e => trivial
      | ok ids => exact uses_throwing_bind (uses_collect ids) fun _ => trivial

end Start

/-! ## One command -/

/-- Where a command leads. -/
inductive Goes (request : Call) (s : Store) : Stage → Op → Stage → Prop
  | mild {op} : Mild op → Goes request s .rest op .rest
  | found {userId} : request.Joins userId → Goes request s .finding (.find userId) .incrementing
  | unknown {userId} : request.Joins userId → s.users userId = none →
      Goes request s .finding (.find userId) .rest
  | incremented {userId} : request.Joins userId →
      Goes request s .incrementing (.increment userId 1) .putting
  | put {userId fields} : request.Joins userId →
      Goes request s .putting (.putAll userId fields) .expiring
  | expired {userId} : request.Joins userId → Goes request s .expiring (.expire userId) .adding
  | added {userId} : request.Joins userId → Goes request s .adding (.addMember userId) .rest
  | emptied {userId} : request.Leaves userId → s.sessions userId ≤ 1 →
      Goes request s .leaving (.increment userId (-1)) .deleting
  | reduced {userId} : request.Leaves userId → 1 < s.sessions userId →
      Goes request s .leaving (.increment userId (-1)) .rest
  | deleted {userId} : request.Leaves userId → Goes request s .deleting (.delete userId) .rest
  | probed {socket userId} : request = .heartbeat socket userId → s.hashes userId ≠ none →
      Goes request s .probing (.hasKey userId) .rest
  | missed {socket userId} : request = .heartbeat socket userId → s.hashes userId = none →
      Goes request s .probing (.hasKey userId) .finding
  | asked {userId} : request.Updates userId → Goes request s .updating (.hasKey userId) .updating
  | updated {userId fields} : request.Updates userId →
      Goes request s .updating (.putAll userId fields) .updating
  | mildly {op} : Mild op → Goes request s .updating op .updating

theorem at_step {request : Call} {stage : Stage} {t : Nat} {s s' : Store} {op : Op} {result : op.Res}
    {next : op.Res → Code} (here : At request stage (.await op next)) (exec : Exec t s op result s') :
    ∃ stage', Goes request s stage op stage' ∧ At request stage' (next result) := by
  obtain ⟨rfl, -⟩ := exec_effect exec
  cases here with
  | rest uses => exact ⟨.rest, .mild uses.1, .rest (uses.2 _)⟩
  | @finding userId _ joins known unknown =>
      cases row : s.users userId with
      | none =>
          refine ⟨.rest, .unknown joins row, ?_⟩
          simp only [effect, row]
          exact unknown
      | some user =>
          refine ⟨.incrementing, .found joins, ?_⟩
          simp only [effect, row]
          exact known user
  | incrementing joins later => exact ⟨.putting, .incremented joins, later _⟩
  | putting joins later => exact ⟨.expiring, .put joins, later⟩
  | @expiring userId _ joins later =>
      refine ⟨.adding, .expired joins, ?_⟩
      cases there : s.hashes userId with
      | none =>
          simp only [effect, there]
          exact later false
      | some hash =>
          simp only [effect, there]
          exact later true
  | adding joins later => exact ⟨.rest, .added joins, later⟩
  | @leaving userId _ leaves last more =>
      by_cases few : s.sessions userId ≤ 1
      · have none : s.sessions userId + -1 ≤ 0 := by omega
        exact ⟨.deleting, .emptied leaves few, last _ none⟩
      · have some : ¬s.sessions userId + -1 ≤ 0 := by omega
        exact ⟨.rest, .reduced leaves (not_le.mp few), more _ some⟩
  | deleting leaves later => exact ⟨.rest, .deleted leaves, later⟩
  | @probing socket userId _ isCall missing there =>
      by_cases none : s.hashes userId = none
      · refine ⟨.finding, .missed isCall none, ?_⟩
        simp only [effect, none]
        exact missing
      · refine ⟨.rest, .probed isCall none, ?_⟩
        simp only [effect, Option.isSome_iff_ne_none.mpr none]
        exact there
  | updating updates uses =>
      obtain ⟨mild | rfl | ⟨fields, rfl⟩, later⟩ := uses
      · exact ⟨.updating, .mildly mild, .updating updates (later _)⟩
      · exact ⟨.updating, .asked updates, .updating updates (later _)⟩
      · exact ⟨.updating, .updated updates, .updating updates (later _)⟩

/-- The user's hash and place in the index are as before, but for what makes them last less. -/
structure Quiet (userId : UUID) (s s' : Store) : Prop where
  hash : s'.hashes userId = none ↔ s.hashes userId = none
  ttl : ∀ hash, s'.hashes userId = some hash → hash.ttl = false →
    ∃ old, s.hashes userId = some old ∧ old.ttl = false
  index : userId ∈ s.index → userId ∈ s'.index ∨ s.hashes userId = none

def Op.userId : Op → Option UUID
  | find userId | setOnline userId _ | setPresence userId _ _ | publishUserOnline userId
  | publishUserOffline userId | increment userId _ | putAll userId _ | expire userId | delete userId
  | hasKey userId | entries userId | addMember userId | removeMember userId | timeOut userId =>
      some userId
  | members => none

section Effects

variable {s s' : Store} {op : Op} {userId : UUID}

theorem Quiet.of_eq (hashes : s'.hashes userId = s.hashes userId)
    (index : userId ∈ s.index → userId ∈ s'.index) : Quiet userId s s' where
  hash := by rw [hashes]
  ttl hash isHash lasting := ⟨hash, hashes ▸ isHash, lasting⟩
  index member := .inl (index member)

/-- A hash that is written to and keeps its TTL. -/
theorem Quiet.of_written {old new : Hash} (there : s.hashes userId = some old)
    (lasting : new.ttl = old.ttl ∨ new.ttl = true) :
    Quiet userId s (s.setHash userId (some new)) where
  hash := by simp [Store.setHash, there]
  ttl hash isHash short := by
    simp only [Store.setHash, Function.update_self, Option.some.injEq] at isHash
    subst isHash
    refine ⟨old, there, ?_⟩
    rcases lasting with same | long
    · rwa [← same]
    · rw [long] at short
      cases short
  index member := .inl member

theorem effect_users (known : s.users userId ≠ none) : (effect s op).2.users userId ≠ none := by
  have set (user : User) (target : UUID) : (s.setUser target user).users userId ≠ none := by
    by_cases same : userId = target
    · subst same
      simp [Store.setUser]
    · simpa [Store.setUser, Function.update_of_ne same] using known
  unfold effect
  split <;> try exact known
  · split
    · exact set _ _
    · exact known
  · split
    · exact set _ _
    · exact known
  · split
    · exact known
    · exact known

/-- No command touches the hash of another user. -/
theorem effect_other (other : op.userId ≠ some userId) : Quiet userId s (effect s op).2 := by
  have set (target : UUID) (hash : Option Hash) (apart : target ≠ userId) :
      Quiet userId s (s.setHash target hash) :=
    .of_eq (by simp [Store.setHash, Function.update_of_ne apart.symm]) id
  have same : Quiet userId s s := .of_eq rfl id
  cases op with
  | setOnline target online =>
      simp only [effect]
      split
      · exact .of_eq rfl id
      · exact same
  | setPresence target status note =>
      simp only [effect]
      split
      · exact .of_eq rfl id
      · exact same
  | increment target delta => exact set _ _ fun equal => other (equal ▸ rfl)
  | putAll target fields => exact set _ _ fun equal => other (equal ▸ rfl)
  | delete target => exact set _ _ fun equal => other (equal ▸ rfl)
  | timeOut target => exact set _ _ fun equal => other (equal ▸ rfl)
  | expire target =>
      simp only [effect]
      split
      · exact set _ _ fun equal => other (equal ▸ rfl)
      · exact same
  | addMember target =>
      refine .of_eq rfl fun member => ?_
      simp only [effect]
      split
      · exact member
      · exact List.mem_append_left _ member
  | removeMember target =>
      refine .of_eq rfl fun member => ?_
      simp only [effect, List.mem_filter, decide_eq_true_eq]
      exact ⟨member, fun equal => other (equal ▸ rfl)⟩
  | _ => exact same

/-- A mild command keeps a user's hash, unless it is that hash that times out. -/
theorem mild_quiet (mild : Mild op) (keeps : op ≠ .timeOut userId)
    (empty : op = .removeMember userId → s.hashes userId = none) : Quiet userId s (effect s op).2 := by
  by_cases other : op.userId ≠ some userId
  · exact effect_other other
  · rw [not_not] at other
    cases op with
    | members => cases other
    | increment | putAll | delete | hasKey | find => exact mild.elim
    | timeOut target =>
        cases other
        exact absurd rfl keeps
    | removeMember target =>
        cases other
        exact ⟨Iff.rfl, fun hash isHash short => ⟨hash, isHash, short⟩, fun _ => .inr (empty rfl)⟩
    | expire target =>
        cases other
        simp only [effect]
        split
        · next hash there => exact .of_written there (.inr rfl)
        · exact .of_eq rfl id
    | addMember target =>
        refine .of_eq rfl fun member => ?_
        simp only [effect]
        split
        · exact member
        · exact List.mem_append_left _ member
    | setOnline target online =>
        simp only [effect]
        split
        · exact .of_eq rfl id
        · exact .of_eq rfl id
    | setPresence target status note =>
        simp only [effect]
        split
        · exact .of_eq rfl id
        · exact .of_eq rfl id
    | publishUserOnline | publishUserOffline | entries => exact .of_eq rfl id

end Effects

/-! ## What holds of a user at any time -/

/-- Who is on the way in or out. -/
def Call.Moves (request : Call) (userId : UUID) : Prop :=
  request.Joins userId ∨ request.Leaves userId

def Call.userId : Call → Option UUID
  | .connected _ userId | .disconnected _ userId | .heartbeat _ userId | .updateStatus userId _ _
  | .timeOut userId => some userId
  | .roster => none

theorem Call.Moves.userId {request : Call} {userId : UUID} (moves : request.Moves userId) :
    request.userId = some userId := by
  rcases moves with ⟨socket, rfl | rfl⟩ | ⟨socket, rfl⟩ <;> rfl

def Owes (j : History) (stages : Nat → Stage) (userId : UUID) (due : List Stage) : Prop :=
  ∃ t request, j.calls t = some request ∧ request.Moves userId ∧ stages t ∈ due

structure Kept (j : History) (stages : Nat → Stage) (userId : UUID) : Prop where
  expires : ∀ hash, j.state.hashes userId = some hash → hash.ttl = false →
    Owes j stages userId [.putting, .expiring, .deleting]
  indexed : j.state.hashes userId ≠ none → userId ∈ j.state.index ∨
    Owes j stages userId [.putting, .expiring, .adding, .deleting]
  present : ∀ socket, Open j socket userId → Awake socket userId j.past →
    j.state.hashes userId ≠ none ∨ Owes j stages userId [.finding, .incrementing, .putting]
  absent : (∀ socket, ¬Open j socket userId) →
    j.state.hashes userId = none ∨ Owes j stages userId [.deleting]
  known : ∀ t socket, j.calls t = some (.connected socket userId) → j.state.users userId ≠ none
  announced : ∀ t socket, j.calls t = some (.connected socket userId) →
    Written j socket userId ∨ stages t ∈ [.finding, .incrementing, .putting]

section Record

variable {j : History} {e : Event} {stages : Nat → Stage} {stage : Stage} {userId : UUID}
  {due : List Stage}

theorem Owes.kept (owes : Owes j stages userId due) (running : j.calls e.thread = some e.call)
    (still : e.call.Moves userId → stages e.thread ∈ due → stage ∈ due) :
    Owes (j.record e) (Function.update stages e.thread stage) userId due := by
  obtain ⟨t, request, isCall, moves, member⟩ := owes
  refine ⟨t, request, isCall, moves, ?_⟩
  by_cases own : t = e.thread
  · subst own
    obtain rfl := Option.some.inj (running.symm.trans isCall)
    rw [Function.update_self]
    exact still moves member
  · rwa [Function.update_of_ne own]

theorem owes_own (running : j.calls e.thread = some e.call) (moves : e.call.Moves userId)
    (member : stage ∈ due) :
    Owes (j.record e) (Function.update stages e.thread stage) userId due := by
  refine ⟨e.thread, e.call, running, moves, ?_⟩
  rwa [Function.update_self]

theorem open_record {socket : Nat} : Open (j.record e) socket userId ↔ Open j socket userId ∧
    ¬(e.call = .disconnected socket userId ∧ e.op = .increment userId (-1)) := by
  unfold Open Left
  simp only [Journal.record_calls, Journal.record_past, List.mem_cons, exists_eq_or_imp, not_or]
  tauto

theorem Written.record {socket : Nat} (written : Written j socket userId) :
    Written (j.record e) socket userId := by
  obtain ⟨old, member, rest⟩ := written
  exact ⟨old, List.mem_cons_of_mem _ member, rest⟩

theorem Kept.known_record (kept : Kept j stages userId)
    (users : j.state.users userId ≠ none → e.after.users userId ≠ none) (t socket : Nat)
    (isCall : (j.record e).calls t = some (.connected socket userId)) :
    (j.record e).state.users userId ≠ none :=
  users (kept.known t socket isCall)

theorem Kept.announced_record (kept : Kept j stages userId)
    (running : j.calls e.thread = some e.call)
    (still : ∀ socket, e.call = .connected socket userId →
      stages e.thread ∈ [.finding, .incrementing, .putting] →
      Written (j.record e) socket userId ∨ stage ∈ [.finding, .incrementing, .putting])
    (t socket : Nat) (isCall : (j.record e).calls t = some (.connected socket userId)) :
    Written (j.record e) socket userId ∨
      Function.update stages e.thread stage t ∈ [.finding, .incrementing, .putting] := by
  rw [Journal.record_calls] at isCall
  rcases kept.announced t socket isCall with written | waiting
  · exact .inl written.record
  · by_cases own : t = e.thread
    · subst own
      rw [Function.update_self]
      exact still socket (Option.some.inj (running.symm.trans isCall)) waiting
    · rw [Function.update_of_ne own]
      exact .inr waiting

/-- A socket that is awake was so before, unless it shows itself now. -/
theorem Awake.record {socket : Nat} (awake : Awake socket userId (j.record e).past) :
    Beats socket userId e ∨ (e.op ≠ .timeOut userId ∧ Awake socket userId j.past) :=
  awake

/-- Nothing changes for a user whose hash and sockets stay. -/
theorem Kept.quiet (kept : Kept j stages userId) (running : j.calls e.thread = some e.call)
    (quiet : Quiet userId j.state e.after)
    (users : j.state.users userId ≠ none → e.after.users userId ≠ none)
    (alone : (∀ socket, ¬Open (j.record e) socket userId) → ∀ socket, ¬Open j socket userId)
    (beats : ∀ socket, Open j socket userId → Beats socket userId e →
      e.after.hashes userId ≠ none ∨ Owes (j.record e) (Function.update stages e.thread stage) userId
        [.finding, .incrementing, .putting])
    (still : e.call.Moves userId → ∀ due ∈ [[.putting, .expiring, .deleting],
      [.putting, .expiring, .adding, .deleting], [.finding, .incrementing, .putting], [.deleting]],
      stages e.thread ∈ due → stage ∈ due) :
    Kept (j.record e) (Function.update stages e.thread stage) userId where
  expires hash isHash lasting := by
    obtain ⟨old, isOld, oldLasting⟩ := quiet.ttl hash isHash lasting
    exact (kept.expires old isOld oldLasting).kept running fun moves => still moves _ (by simp)
  indexed exists' := by
    have there : j.state.hashes userId ≠ none := fun none => exists' (quiet.hash.mpr none)
    rcases kept.indexed there with member | owes
    · exact .inl ((quiet.index member).resolve_right there)
    · exact .inr (owes.kept running fun moves => still moves _ (by simp))
  present socket isOpen awake := by
    have wasOpen := (open_record.mp isOpen).1
    rcases awake.record with here | ⟨_, before⟩
    · exact beats socket wasOpen here
    · rcases kept.present socket wasOpen before with there | owes
      · exact .inl fun none => there (quiet.hash.mp none)
      · exact .inr (owes.kept running fun moves => still moves _ (by simp))
  absent nobody := by
    rcases kept.absent (alone nobody) with none | owes
    · exact .inl (quiet.hash.mpr none)
    · exact .inr (owes.kept running fun moves => still moves _ (by simp))
  known := kept.known_record users
  announced := kept.announced_record running fun socket isCall waiting =>
    .inr (still (.inl ⟨socket, .inl isCall⟩) _ (by simp) waiting)

theorem users_after (isAfter : e.after = (effect j.state e.op).2) (userId : UUID) :
    j.state.users userId ≠ none → e.after.users userId ≠ none := by
  rw [isAfter]
  exact effect_users

theorem kept_mild (kept : Kept j stages userId) (running : j.calls e.thread = some e.call)
    (isAfter : e.after = (effect j.state e.op).2) (permitted : Permitted j e) (mild : Mild e.op)
    (same : stage = stages e.thread) :
    Kept (j.record e) (Function.update stages e.thread stage) userId := by
  have stays : ∀ socket, Open (j.record e) socket userId ↔ Open j socket userId := by
    intro socket
    rw [open_record, and_iff_left]
    rintro ⟨_, isOp⟩
    rw [isOp] at mild
    exact mild
  have silent : ∀ socket, ¬Beats socket userId e := by
    rintro socket (⟨_, isOp⟩ | ⟨_, isOp⟩) <;> exact (isOp ▸ mild : Mild _)
  have users := users_after isAfter userId
  by_cases lapses : e.op = .timeOut userId
  · have none : e.after.hashes userId = none := by
      rw [isAfter, lapses]
      simp [effect, Store.setHash]
    refine ⟨?_, fun there => absurd none there, ?_, fun _ => .inl none, kept.known_record users, ?_⟩
    · intro hash isHash
      rw [Journal.record_state, none] at isHash
      cases isHash
    · intro socket _ awake
      rcases awake.record with here | ⟨other, _⟩
      · exact absurd here (silent socket)
      · exact absurd lapses other
    · exact kept.announced_record running fun _ _ waiting => .inr (same ▸ waiting)
  · refine kept.quiet running ?_ users (fun nobody socket => mt (stays socket).mpr (nobody socket))
      (fun socket _ here => absurd here (silent socket)) fun _ due _ member => same ▸ member
    rw [isAfter]
    refine mild_quiet mild lapses fun isOp => ?_
    rw [Permitted, isOp] at permitted
    exact permitted

theorem kept_other (kept : Kept j stages userId) (running : j.calls e.thread = some e.call)
    (isAfter : e.after = (effect j.state e.op).2) {target : UUID} (isOp : e.op.userId = some target)
    (isCall : e.call.userId = some target) (other : userId ≠ target) :
    Kept (j.record e) (Function.update stages e.thread stage) userId := by
  have apart : e.op.userId ≠ some userId := by
    rw [isOp]
    exact fun same => other (Option.some.inj same).symm
  refine kept.quiet running (isAfter ▸ effect_other apart) (isAfter ▸ effect_users) ?_ ?_ ?_
  · intro nobody socket isOpen
    refine nobody socket (open_record.mpr ⟨isOpen, ?_⟩)
    rintro ⟨_, isOp'⟩
    exact apart (isOp' ▸ rfl)
  · rintro socket _ (⟨_, isOp'⟩ | ⟨_, isOp'⟩)
    · exact absurd (isOp' ▸ rfl) apart
    · exact absurd (isOp' ▸ rfl) apart
  · intro moves
    rw [moves.userId] at isCall
    exact absurd (Option.some.inj isCall) other

/-- Only a disconnect makes a socket leave. -/
theorem open_same (stays : ∀ socket, e.call ≠ .disconnected socket userId) {socket : Nat} :
    Open (j.record e) socket userId ↔ Open j socket userId := by
  rw [open_record, and_iff_left]
  exact fun leaves => stays socket leaves.1

theorem Call.Joins.stays {request : Call} (joins : request.Joins userId) (socket : Nat) :
    request ≠ .disconnected socket userId := by
  rintro rfl
  obtain ⟨_, isCall | isCall⟩ := joins <;> cases isCall

section Joining

variable (kept : Kept j stages userId) (running : j.calls e.thread = some e.call)
  (isAfter : e.after = (effect j.state e.op).2) (joins : e.call.Joins userId)
include kept running isAfter joins

theorem kept_found (isStage : stages e.thread = .finding) (isOp : e.op = .find userId) :
    Kept (j.record e) (Function.update stages e.thread .incrementing) userId := by
  have same : e.after = j.state := by
    rw [isAfter, isOp]
    rfl
  refine kept.quiet running (same ▸ .of_eq rfl id) (same ▸ id) ?_ ?_ ?_
  · exact fun nobody socket => mt (open_same joins.stays).mpr (nobody socket)
  · exact fun _ _ _ => .inr (owes_own running (.inl joins) (by decide))
  · rw [isStage]
    exact fun _ => by decide

omit joins in
theorem kept_unknown (isStage : stages e.thread = .finding) (isOp : e.op = .find userId)
    (unknown : j.state.users userId = none) :
    Kept (j.record e) (Function.update stages e.thread .rest) userId := by
  have same : e.after = j.state := by
    rw [isAfter, isOp]
    rfl
  have nobody : ∀ t socket, j.calls t ≠ some (.connected socket userId) := fun t socket isCall =>
    kept.known t socket isCall unknown
  have kept' (due : List Stage) (none : .finding ∉ due) : Owes j stages userId due →
      Owes (j.record e) (Function.update stages e.thread .rest) userId due := fun owes =>
    owes.kept running fun _ member => absurd (isStage ▸ member) none
  refine ⟨fun hash isHash lasting => ?_, fun there => ?_, fun socket isOpen => ?_, fun alone => ?_,
    fun t socket isCall => absurd isCall (nobody t socket),
    fun t socket isCall => absurd isCall (nobody t socket)⟩
  · rw [Journal.record_state, same] at isHash
    exact kept' _ (by decide) (kept.expires hash isHash lasting)
  · rw [Journal.record_state, same] at there ⊢
    exact (kept.indexed there).imp id (kept' _ (by decide))
  · obtain ⟨t, isCall⟩ := (open_record.mp isOpen).1.1
    exact absurd isCall (nobody t socket)
  · rw [Journal.record_state, same]
    refine (kept.absent fun socket isOpen => ?_).imp id (kept' _ (by decide))
    obtain ⟨t, isCall⟩ := isOpen.1
    exact nobody t socket isCall

/-- A hash that is written for a user with a socket, by a call that will see to the rest. -/
theorem kept_written (there : e.after.hashes userId ≠ none)
    (someone : ∃ socket, Open j socket userId)
    (member : stage = .putting ∨ stage = .expiring)
    (announced : ∀ socket, e.call = .connected socket userId →
      Written (j.record e) socket userId ∨ stage ∈ [.finding, .incrementing, .putting]) :
    Kept (j.record e) (Function.update stages e.thread stage) userId := by
  have users := users_after isAfter userId
  refine ⟨fun hash _ _ => ?_, fun _ => ?_, fun _ _ _ => .inl there, fun nobody => ?_,
    kept.known_record users, kept.announced_record running fun socket isCall _ => announced socket isCall⟩
  · refine owes_own running (.inl joins) ?_
    rcases member with rfl | rfl <;> decide
  · refine .inr (owes_own running (.inl joins) ?_)
    rcases member with rfl | rfl <;> decide
  · obtain ⟨socket, isOpen⟩ := someone
    exact absurd ((open_same joins.stays).mpr isOpen) (nobody socket)

/-- The last commands of a connect, when the fields are there. -/
theorem kept_late (late : stages e.thread = .expiring ∨ stages e.thread = .adding)
    (quiet : Quiet userId j.state e.after) (silent : ∀ socket, ¬Beats socket userId e)
    (expires : ∀ hash, e.after.hashes userId = some hash → hash.ttl = false →
      Owes (j.record e) (Function.update stages e.thread stage) userId
        [.putting, .expiring, .deleting])
    (indexed : e.after.hashes userId ≠ none → userId ∈ e.after.index ∨
      Owes (j.record e) (Function.update stages e.thread stage) userId
        [.putting, .expiring, .adding, .deleting]) :
    Kept (j.record e) (Function.update stages e.thread stage) userId := by
  have users := users_after isAfter userId
  have early (due : List Stage) (apart : .expiring ∉ due ∧ .adding ∉ due) : stages e.thread ∉ due := by
    rcases late with isStage | isStage
    · exact isStage ▸ apart.1
    · exact isStage ▸ apart.2
  refine ⟨expires, indexed, fun socket isOpen awake => ?_, fun nobody => ?_,
    kept.known_record users,
    kept.announced_record running fun _ _ waiting => absurd waiting (early _ (by decide))⟩
  · rcases awake.record with here | ⟨_, before⟩
    · exact absurd here (silent socket)
    · exact (kept.present socket (open_record.mp isOpen).1 before).imp (mt quiet.hash.mp)
        fun owes => owes.kept running fun _ member => absurd member (early _ (by decide))
  · exact (kept.absent fun socket => mt (open_same joins.stays).mpr (nobody socket)).imp
      quiet.hash.mpr fun owes => owes.kept running fun _ member => absurd member (early _ (by decide))

theorem kept_expired (isStage : stages e.thread = .expiring) (isOp : e.op = .expire userId) :
    Kept (j.record e) (Function.update stages e.thread .adding) userId := by
  have quiet : Quiet userId j.state e.after := by
    rw [isAfter, isOp]
    exact mild_quiet trivial nofun nofun
  refine kept_late kept running isAfter joins (.inl isStage) quiet ?_ ?_ ?_
  · rintro socket (⟨_, isOp'⟩ | ⟨_, isOp'⟩) <;> rw [isOp] at isOp' <;> cases isOp'
  · intro hash isHash short
    rw [isAfter, isOp] at isHash
    simp only [effect] at isHash
    split at isHash
    · simp only [Store.setHash, Function.update_self, Option.some.injEq] at isHash
      rw [← isHash] at short
      cases short
    · next none =>
        rw [none] at isHash
        cases isHash
  · intro there
    refine (kept.indexed (mt quiet.hash.mpr there)).imp (fun member => ?_) fun owes =>
      owes.kept running fun _ _ => by decide
    exact (quiet.index member).resolve_right (mt quiet.hash.mpr there)

theorem kept_added (isStage : stages e.thread = .adding) (isOp : e.op = .addMember userId) :
    Kept (j.record e) (Function.update stages e.thread .rest) userId := by
  have quiet : Quiet userId j.state e.after := by
    rw [isAfter, isOp]
    exact mild_quiet trivial nofun nofun
  refine kept_late kept running isAfter joins (.inr isStage) quiet ?_ ?_ fun _ => .inl ?_
  · rintro socket (⟨_, isOp'⟩ | ⟨_, isOp'⟩) <;> rw [isOp] at isOp' <;> cases isOp'
  · intro hash isHash short
    obtain ⟨old, isOld, oldShort⟩ := quiet.ttl hash isHash short
    refine (kept.expires old isOld oldShort).kept running fun _ member => ?_
    rw [isStage] at member
    revert member
    decide
  · rw [isAfter, isOp]
    simp only [effect]
    split
    · assumption
    · simp

end Joining

section Leaving

variable (kept : Kept j stages userId) (running : j.calls e.thread = some e.call)
  (isAfter : e.after = (effect j.state e.op).2) (permitted : Permitted j e)
  (leaves : e.call.Leaves userId)
include kept running isAfter leaves

omit kept running isAfter in
theorem not_connected (socket : Nat) : e.call ≠ .connected socket userId := by
  obtain ⟨other, isCall⟩ := leaves
  rw [isCall]
  nofun

theorem kept_emptied (isOp : e.op = .increment userId (-1)) :
    Kept (j.record e) (Function.update stages e.thread .deleting) userId := by
  have users := users_after isAfter userId
  have there : e.after.hashes userId ≠ none := by
    rw [isAfter, isOp]
    simp [effect, Store.setHash]
  have owes (due : List Stage) (member : .deleting ∈ due) :
      Owes (j.record e) (Function.update stages e.thread .deleting) userId due :=
    owes_own running (.inr leaves) member
  exact ⟨fun _ _ _ => owes _ (by decide), fun _ => .inr (owes _ (by decide)), fun _ _ _ => .inl there,
    fun _ => .inr (owes _ (by decide)), kept.known_record users,
    kept.announced_record running fun socket isCall => absurd isCall (not_connected leaves socket)⟩

include permitted

theorem kept_reduced (isStage : stages e.thread = .leaving) (isOp : e.op = .increment userId (-1))
    (counted : 1 < j.state.sessions userId) :
    Kept (j.record e) (Function.update stages e.thread .rest) userId := by
  obtain ⟨socket, isCall⟩ := id leaves
  have users := users_after isAfter userId
  refine kept.quiet running ?_ users (fun nobody => ?_) (fun other _ here => ?_) fun _ due among => ?_
  · cases there : j.state.hashes userId with
    | none => simp [Store.sessions, Store.hash, there] at counted
    | some hash =>
        rw [isAfter, isOp]
        simp only [effect, Store.hash, there, Option.getD_some]
        exact .of_written there (.inl rfl)
  · simp only [Permitted, isOp, isCall] at permitted
    rcases permitted with ⟨other, apart, isOpen⟩ | few
    · refine absurd (open_record.mpr ⟨isOpen, ?_⟩) (nobody other)
      rintro ⟨isCall', _⟩
      rw [isCall] at isCall'
      cases isCall'
      exact apart rfl
    · omega
  · rcases here with ⟨isCall', _⟩ | ⟨isCall', _⟩ <;> rw [isCall] at isCall' <;> cases isCall'
  · rw [isStage]
    revert due
    decide

theorem kept_deleted (isStage : stages e.thread = .deleting) (isOp : e.op = .delete userId) :
    Kept (j.record e) (Function.update stages e.thread .rest) userId := by
  have users := users_after isAfter userId
  have none : e.after.hashes userId = none := by
    rw [isAfter, isOp]
    simp [effect, Store.setHash]
  refine ⟨fun hash isHash => ?_, fun there => absurd none there, fun socket isOpen awake => ?_,
    fun _ => .inl none, kept.known_record users,
    kept.announced_record running fun socket isCall => absurd isCall (not_connected leaves socket)⟩
  · rw [Journal.record_state, none] at isHash
    cases isHash
  · have wasOpen := (open_record.mp isOpen).1
    have owes : Owes j stages userId [.finding, .incrementing, .putting] := by
      simp only [Permitted, isOp] at permitted
      rcases permitted with gone | unwritten
      · rcases awake.record with (⟨_, isOp'⟩ | ⟨_, isOp'⟩) | ⟨_, before⟩
        · rw [isOp] at isOp'
          cases isOp'
        · rw [isOp] at isOp'
          cases isOp'
        · exact (kept.present socket wasOpen before).resolve_left (not_not.mpr gone)
      · obtain ⟨t, isCall⟩ := wasOpen.1
        exact ⟨t, _, isCall, .inl ⟨socket, .inl rfl⟩,
          (kept.announced t socket isCall).resolve_left (unwritten socket wasOpen)⟩
    refine .inr (owes.kept running fun _ member => ?_)
    rw [isStage] at member
    revert member
    decide

end Leaving

/-- Asking whether a user is online. -/
theorem kept_hasKey (kept : Kept j stages userId) (running : j.calls e.thread = some e.call)
    (isAfter : e.after = (effect j.state e.op).2) (isOp : e.op = .hasKey userId)
    (beats : ∀ socket, e.call = .heartbeat socket userId →
      j.state.hashes userId ≠ none ∨ stage = .finding)
    (same : stage = stages e.thread ∨ stages e.thread = .probing) :
    Kept (j.record e) (Function.update stages e.thread stage) userId := by
  have isState : e.after = j.state := by
    rw [isAfter, isOp]
    rfl
  refine kept.quiet running (isState ▸ .of_eq rfl id) (isState ▸ id) (fun nobody socket => ?_)
    (fun socket _ here => ?_) fun _ due among member => ?_
  · refine mt (fun isOpen => open_record.mpr ⟨isOpen, ?_⟩) (nobody socket)
    rintro ⟨_, isOp'⟩
    rw [isOp] at isOp'
    cases isOp'
  · rcases here with ⟨_, isOp'⟩ | ⟨isCall, _⟩
    · rw [isOp] at isOp'
      cases isOp'
    · rw [isState]
      refine (beats socket isCall).imp id fun isStage => ?_
      exact owes_own running (.inl ⟨socket, .inr isCall⟩) (by rw [isStage]; decide)
  · rcases same with rfl | isStage
    · exact member
    · have never : ∀ due ∈ [[Stage.putting, .expiring, .deleting],
          [.putting, .expiring, .adding, .deleting], [.finding, .incrementing, .putting], [.deleting]],
          .probing ∉ due := by decide
      exact absurd (isStage ▸ member) (never due among)

/-- A status is only written to a hash that is there. -/
theorem kept_updated (kept : Kept j stages userId) (running : j.calls e.thread = some e.call)
    (isAfter : e.after = (effect j.state e.op).2) (permitted : Permitted j e)
    (updates : e.call.Updates userId) {fields : Fields} (isOp : e.op = .putAll userId fields)
    (same : stage = stages e.thread) :
    Kept (j.record e) (Function.update stages e.thread stage) userId := by
  obtain ⟨status, note, isCall⟩ := updates
  have users := users_after isAfter userId
  refine kept.quiet running ?_ users (fun nobody socket => ?_) (fun socket _ here => ?_)
    fun _ _ _ member => same ▸ member
  · simp only [Permitted, isOp, isCall] at permitted
    obtain ⟨hash, there⟩ := Option.ne_none_iff_exists'.mp permitted
    rw [isAfter, isOp]
    simp only [effect, Store.hash, there, Option.getD_some]
    exact .of_written there (.inl rfl)
  · refine mt (fun isOpen => open_record.mpr ⟨isOpen, ?_⟩) (nobody socket)
    rintro ⟨isCall', _⟩
    rw [isCall] at isCall'
    cases isCall'
  · rcases here with ⟨isCall', _⟩ | ⟨isCall', _⟩ <;> rw [isCall] at isCall' <;> cases isCall'

theorem Kept.record (kept : Kept j stages userId) (running : j.calls e.thread = some e.call)
    (isAfter : e.after = (effect j.state e.op).2) (permitted : Permitted j e)
    (goes : Goes e.call j.state (stages e.thread) e.op stage) :
    Kept (j.record e) (Function.update stages e.thread stage) userId := by
  have elsewhere (target : UUID) (isOp : e.op.userId = some target)
      (isCall : e.call.userId = some target) (here : userId = target →
        Kept (j.record e) (Function.update stages e.thread stage) userId) :
      Kept (j.record e) (Function.update stages e.thread stage) userId := by
    by_cases same : userId = target
    · exact here same
    · exact kept_other kept running isAfter isOp isCall same
  generalize isOp : e.op = op at goes
  generalize isStage : stages e.thread = before at goes
  cases goes with
  | mild mild => exact kept_mild kept running isAfter permitted (isOp ▸ mild) isStage.symm
  | mildly mild => exact kept_mild kept running isAfter permitted (isOp ▸ mild) isStage.symm
  | @found target joins =>
      refine elsewhere target (isOp ▸ rfl) (Call.Moves.userId (.inl joins)) ?_
      rintro rfl
      exact kept_found kept running isAfter joins isStage isOp
  | @unknown target joins unknown =>
      refine elsewhere target (isOp ▸ rfl) (Call.Moves.userId (.inl joins)) ?_
      rintro rfl
      exact kept_unknown kept running isAfter isStage isOp unknown
  | @incremented target joins =>
      refine elsewhere target (isOp ▸ rfl) (Call.Moves.userId (.inl joins)) ?_
      rintro rfl
      refine kept_written kept running isAfter joins ?_ ?_ (.inl rfl) fun _ _ => .inr (by decide)
      · rw [isAfter, isOp]
        simp [effect, Store.setHash]
      · obtain ⟨socket, isCall | isCall⟩ := joins <;> rw [Permitted, isOp, isCall] at permitted <;>
          exact permitted
  | @put target fields joins =>
      refine elsewhere target (isOp ▸ rfl) (Call.Moves.userId (.inl joins)) ?_
      rintro rfl
      refine kept_written kept running isAfter joins ?_ ?_ (.inr rfl) fun socket isCall => .inl ?_
      · rw [isAfter, isOp]
        simp [effect, Store.setHash]
      · obtain ⟨socket, isCall | isCall⟩ := joins <;> rw [Permitted, isOp, isCall] at permitted <;>
          exact permitted
      · exact ⟨e, List.mem_cons_self, isCall, _, isOp⟩
  | @expired target joins =>
      refine elsewhere target (isOp ▸ rfl) (Call.Moves.userId (.inl joins)) ?_
      rintro rfl
      exact kept_expired kept running isAfter joins isStage isOp
  | @added target joins =>
      refine elsewhere target (isOp ▸ rfl) (Call.Moves.userId (.inl joins)) ?_
      rintro rfl
      exact kept_added kept running isAfter joins isStage isOp
  | @emptied target leaves _ =>
      refine elsewhere target (isOp ▸ rfl) (Call.Moves.userId (.inr leaves)) ?_
      rintro rfl
      exact kept_emptied kept running isAfter leaves isOp
  | @reduced target leaves counted =>
      refine elsewhere target (isOp ▸ rfl) (Call.Moves.userId (.inr leaves)) ?_
      rintro rfl
      exact kept_reduced kept running isAfter permitted leaves isStage isOp counted
  | @deleted target leaves =>
      refine elsewhere target (isOp ▸ rfl) (Call.Moves.userId (.inr leaves)) ?_
      rintro rfl
      exact kept_deleted kept running isAfter permitted leaves isStage isOp
  | @probed socket target isCall there =>
      refine elsewhere target (isOp ▸ rfl) (isCall ▸ rfl) ?_
      rintro rfl
      exact kept_hasKey kept running isAfter isOp (fun _ _ => .inl there) (.inr isStage)
  | @missed socket target isCall gone =>
      refine elsewhere target (isOp ▸ rfl) (isCall ▸ rfl) ?_
      rintro rfl
      exact kept_hasKey kept running isAfter isOp (fun _ _ => .inr rfl) (.inr isStage)
  | @asked target updates =>
      obtain ⟨status, note, isCall⟩ := updates
      refine elsewhere target (isOp ▸ rfl) (isCall ▸ rfl) ?_
      rintro rfl
      refine kept_hasKey kept running isAfter isOp (fun socket isCall' => ?_) (.inl isStage.symm)
      rw [isCall] at isCall'
      cases isCall'
  | @updated target fields updates =>
      obtain ⟨status, note, isCall⟩ := updates
      refine elsewhere target (isOp ▸ rfl) (isCall ▸ rfl) ?_
      rintro rfl
      exact kept_updated kept running isAfter permitted ⟨status, note, isCall⟩ isOp isStage.symm

end Record

theorem Kept.begin {j : History} {stages : Nat → Stage} {userId : UUID} {t : Nat} {request : Call}
    (kept : Kept j stages userId) (idle : j.calls t = none) (admitted : Admitted j request) :
    Kept (j.begin t request) (Function.update stages t request.stage) userId := by
  have still {due : List Stage} (owes : Owes j stages userId due) :
      Owes (j.begin t request) (Function.update stages t request.stage) userId due := by
    obtain ⟨u, running, isCall, moves, member⟩ := owes
    have other : u ≠ t := by
      rintro rfl
      rw [idle] at isCall
      cases isCall
    refine ⟨u, running, Journal.calls_begin idle isCall, moves, ?_⟩
    rwa [Function.update_of_ne other]
  refine ⟨fun hash isHash short => still (kept.expires hash isHash short),
    fun there => (kept.indexed there).imp id still, fun socket isOpen awake => ?_, fun nobody => ?_,
    fun u socket isCall => ?_, fun u socket isCall => ?_⟩
  · obtain ⟨⟨u, isCall⟩, stays⟩ := isOpen
    rcases Journal.of_calls_begin isCall with ⟨rfl, isNew⟩ | before
    · refine .inr ⟨u, request, Journal.begin_calls_self .., .inl ⟨socket, .inl isNew.symm⟩, ?_⟩
      rw [Function.update_self, ← isNew]
      exact List.mem_cons_self
    · exact (kept.present socket ⟨⟨u, before⟩, stays⟩ awake).imp id still
  · refine (kept.absent fun socket isOpen => ?_).imp id still
    obtain ⟨⟨u, isCall⟩, stays⟩ := isOpen
    exact nobody socket ⟨⟨u, Journal.calls_begin idle isCall⟩, stays⟩
  · rcases Journal.of_calls_begin isCall with ⟨rfl, rfl⟩ | before
    · exact admitted.2
    · exact kept.known u socket before
  · rcases Journal.of_calls_begin isCall with ⟨rfl, rfl⟩ | before
    · refine .inr ?_
      rw [Function.update_self]
      exact List.mem_cons_self
    · have other : u ≠ t := by
        rintro rfl
        rw [idle] at before
        cases before
      rw [Function.update_of_ne other]
      exact kept.announced u socket before

section Runs

variable (compareToIgnoreCase : JavaString → JavaString → Int)

/-- What the calls of all replicas may come to, if they meet the condition. -/
abbrev system (permits : History → Event → Prop) : System Op Op.Res History (Except JavaError Unit) :=
  (service compareToIgnoreCase).journaled Admitted permits

/-- Every call is where its stage says. -/
def Tracked (config : Config Op Op.Res History (Except JavaError Unit)) (stages : Nat → Stage) : Prop :=
  ∀ t request, config.state.calls t = some request →
    ∃ p, config.threads t = some p ∧ At request (stages t) p

theorem reachable_kept {s : Store} (started : ∀ userId, s.hashes userId = none)
    {config : Config Op Op.Res History (Except JavaError Unit)}
    (reachable : (system compareToIgnoreCase Permitted).Reachable (.empty s) config) :
    ∃ stages, Tracked config stages ∧ ∀ userId, Kept config.state stages userId := by
  induction reachable with
  | initial =>
      refine ⟨fun _ => .rest, nofun, fun userId => ⟨?_, fun there => absurd (started userId) there,
        fun _ isOpen => ?_, fun _ => .inl (started userId), nofun, nofun⟩⟩
      · intro hash isHash
        rw [Journal.empty_state, started userId] at isHash
        cases isHash
      · obtain ⟨⟨_, isCall⟩, _⟩ := isOpen
        cases isCall
  | @step c c' _ step ih =>
      obtain ⟨stages, tracked, kept⟩ := ih
      cases step with
      | @start t p j' free started =>
          obtain ⟨idle, request, admitted, rfl, rfl⟩ := started
          refine ⟨Function.update stages t request.stage, fun u running isCall => ?_,
            fun userId => (kept userId).begin idle admitted⟩
          rcases Journal.of_calls_begin isCall with ⟨rfl, rfl⟩ | before
          · exact ⟨_, Function.update_self .., by
              rw [Function.update_self]
              exact at_stage running compareToIgnoreCase⟩
          · have other : u ≠ t := by
              rintro rfl
              rw [idle] at before
              cases before
            simp only [Function.update_of_ne other]
            exact tracked u running before
      | @await t op next result j' waiting performed =>
          obtain ⟨⟨t, request, op, result, before, after⟩, rfl, isLogged, performs, rfl⟩ := performed
          obtain ⟨rfl, isResult⟩ := Sigma.mk.inj isLogged
          obtain rfl := eq_of_heq isResult
          obtain ⟨p, isThread, here⟩ := tracked t request performs.running
          rw [waiting] at isThread
          obtain rfl := Option.some.inj isThread
          have isBefore := performs.before
          have exec := performs.exec
          subst isBefore
          obtain ⟨stage, goes, there⟩ := at_step here exec
          refine ⟨Function.update stages t stage, fun u running isCall => ?_, fun userId =>
            (kept userId).record performs.running (exec_effect exec).2 performs.permitted goes⟩
          by_cases own : u = t
          · subst own
            obtain rfl := Option.some.inj (performs.running.symm.trans isCall)
            exact ⟨_, Function.update_self .., by rwa [Function.update_self]⟩
          · simp only [Function.update_of_ne own]
            exact tracked u running isCall

/-- No call is in progress. -/
def Idle (config : Config Op Op.Res History (Except JavaError Unit)) : Prop :=
  ∀ t p, config.threads t = some p → ∃ result, p = .done result

theorem idle_owes {config : Config Op Op.Res History (Except JavaError Unit)} {stages : Nat → Stage}
    (tracked : Tracked config stages) (idle : Idle config) {userId : UUID} {due : List Stage}
    (pending : .rest ∉ due ∧ .updating ∉ due) : ¬Owes config.state stages userId due := by
  rintro ⟨t, request, isCall, _, member⟩
  obtain ⟨p, isThread, here⟩ := tracked t request isCall
  obtain ⟨result, rfl⟩ := idle t p isThread
  generalize stages t = stage at here member
  cases here with
  | rest => exact pending.1 member
  | updating => exact pending.2 member

/-- The roster as one call reads it while no other does anything. -/
def Listed (s : Store) (userId : UUID) : Prop :=
  ∃ entries s', Ends (Exec 0) s (list compareToIgnoreCase) (.ok entries) s' ∧
    ∃ e ∈ entries, e.userId = userId

/-- No call is in progress, and every socket has had a heartbeat since the last expiry. -/
structure Quiescent (config : Config Op Op.Res History (Except JavaError Unit)) : Prop where
  idle : Idle config
  awake : ∀ socket userId, Open config.state socket userId → Awake socket userId config.state.past

theorem listed_iff {s : Store} {userId : UUID} :
    Listed compareToIgnoreCase s userId ↔ userId ∈ s.index ∧ s.hashes userId ≠ none := by
  constructor
  · rintro ⟨entries, s', ends, member⟩
    exact (list_ends compareToIgnoreCase ends userId).mp member
  · intro there
    obtain ⟨entries, s', ends⟩ := list_total (t := 0) (s := s) compareToIgnoreCase
    exact ⟨entries, s', ends, (list_ends compareToIgnoreCase ends userId).mpr there⟩

/-- Whenever all is quiet, who is listed has a socket and who has a socket is listed, and every hash
has a TTL. -/
def AgreesWithSockets (permits : History → Event → Prop) (s : Store) : Prop :=
  ∀ config, (system compareToIgnoreCase permits).Reachable (.empty s) config → Quiescent config →
    (∀ userId, Listed compareToIgnoreCase config.state.state userId ↔
      ∃ socket, Open config.state socket userId) ∧
    ∀ userId hash, config.state.state.hashes userId = some hash → hash.ttl = true

theorem agrees_permitted {s : Store} (started : ∀ userId, s.hashes userId = none) :
    AgreesWithSockets compareToIgnoreCase Permitted s := by
  intro config reachable quiescent
  obtain ⟨stages, tracked, kept⟩ := reachable_kept compareToIgnoreCase started reachable
  have done {userId : UUID} {due : List Stage} (pending : .rest ∉ due ∧ .updating ∉ due) :
      ¬Owes config.state stages userId due := idle_owes tracked quiescent.idle pending
  refine ⟨fun userId => ?_, fun userId hash isHash => ?_⟩
  · rw [listed_iff]
    constructor
    · rintro ⟨_, there⟩
      by_contra nobody
      rcases (kept userId).absent (not_exists.mp nobody) with gone | owes
      · exact there gone
      · exact done (by decide) owes
    · rintro ⟨socket, isOpen⟩
      have awake := quiescent.awake socket userId isOpen
      have there := ((kept userId).present socket isOpen awake).resolve_right (done (by decide))
      exact ⟨((kept userId).indexed there).resolve_right (done (by decide)), there⟩
  · by_contra short
    exact done (by decide) ((kept userId).expires hash isHash (Bool.eq_false_iff.mpr short))

end Runs

end PresenceRegistry
