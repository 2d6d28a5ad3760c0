import CipherChat.Async.Contract
import CipherChat.Presence.Sockets

/-!
The count of sessions and the sockets. While the calls on a user come one after the other, and his
hash lasts as long as a socket of his is open, `sessions` is the number of his sockets.
-/

namespace PresenceRegistry

open Async
open Presence (PresenceStatus)
open Rooms (UUID JavaString JavaError)

/-- No hash expires while a socket of the user is open; a heartbeat comes while a socket of the user
is connected, and a socket leaves once, after its connect; and between two commands of a call on a
user no other call touches that user. -/
structure Serial (j : History) (e : Event) : Prop where
  lasting : ∀ userId, e.op = .timeOut userId → ∀ socket, ¬Open j socket userId
  shown : ∀ socket userId, e.call = .heartbeat socket userId → e.op = .hasKey userId →
    ∃ other, Written j other userId ∧ ¬Left j other userId
  leaves : ∀ socket userId, e.call = .disconnected socket userId → e.op = .increment userId (-1) →
    Written j socket userId ∧ ¬Left j socket userId
  alone : ∀ userId, e.op.userId = some userId → ∀ later own earlier, j.past = later ++ own :: earlier →
    own.thread = e.thread → own.op.userId = some userId →
    ∀ x ∈ later, x.op.userId = some userId → x.thread = e.thread

/-! ## What a call has done before it writes -/

abbrev Done := (op : Op) × op.Res

/-- A connect counts its socket before it writes the fields; a heartbeat does so after it has found
no hash; the last to leave deletes, and an index entry is removed with its hash. -/
def leads (request : Call) (log : Log Op Op.Res) : Op → Prop
  | .increment userId delta =>
      (∃ socket, request = .connected socket userId ∧ delta = 1 ∧ ∀ x ∈ log, x.1 = .find userId) ∨
      (∃ socket, request = .heartbeat socket userId ∧ (⟨.hasKey userId, .ok false⟩ : Done) ∈ log) ∨
      (∃ socket, request = .disconnected socket userId ∧ delta = -1)
  | .putAll userId _ =>
      (∃ socket, request = .connected socket userId ∧
        ∃ sessions, (⟨.increment userId 1, .ok sessions⟩ : Done) ∈ log ∧
          ∀ x ∈ log, ∀ fields, x.1 ≠ .putAll userId fields) ∨
      (∃ socket, request = .heartbeat socket userId ∧ (⟨.hasKey userId, .ok false⟩ : Done) ∈ log) ∨
      (∃ status note, request = .updateStatus userId status note) ∧
        ∃ earlier, log = (⟨.hasKey userId, .ok true⟩ : Done) :: earlier
  | .delete userId => ∃ sessions : Int, sessions ≤ 0 ∧
      ∃ earlier, log = (⟨.increment userId (-1), .ok sessions⟩ : Done) :: earlier
  | .removeMember userId => ∃ earlier, log = (⟨.delete userId, .ok ()⟩ : Done) :: earlier ∨
      log = (⟨.entries userId, .ok none⟩ : Done) :: earlier
  | _ => True

/-- Commands that need nothing before them. -/
def Free : Op → Prop
  | .increment .. | .putAll .. | .delete _ | .removeMember _ => False
  | _ => True

section Programs

variable (compareToIgnoreCase : JavaString → JavaString → Int) (permits : History → Event → Prop)

abbrev leading : Contract (service compareToIgnoreCase) permits :=
  .ofLaw _ permits leads

variable {compareToIgnoreCase permits} {t : Nat} {request : Call} {α : Type}

theorem Free.leads {op : Op} (free : Free op) (log : Log Op Op.Res) : leads request log op := by
  cases op <;> first | exact free.elim | trivial

theorem leading_free {p : Prog α} (uses : Uses Free p.run) :
    (leading compareToIgnoreCase permits).Yields t request (fun _ => True) p fun _ _ => True :=
  Contract.ofLaw_uses (fun _ => True) (fun _ free log _ => ⟨free.leads log, fun _ => trivial⟩) uses

/-- A command, and what it answers. -/
theorem leading_call {op : Op} (pre : Log Op Op.Res → Prop) (post : op.Val → Log Op Op.Res → Prop)
    (step : ∀ log, pre log → leads request log op ∧ ∀ value, post value (⟨op, .ok value⟩ :: log)) :
    (leading compareToIgnoreCase permits).Yields t request (fun j => pre (j.log t)) (call op)
      fun value j => post value (j.log t) :=
  Contract.ofLaw_call pre post fun log known => ⟨(step log known).1, fun _ value _ _ => (step log known).2 value⟩

theorem uses_news (changed : Bool) {first second : Prog Unit} (isFirst : Uses Free first.run)
    (isSecond : Uses Free second.run) : Uses Free (do
      if changed then
        first
        second
      return changed : Prog Bool).run := by
  cases changed with
  | false => trivial
  | true => exact uses_throwing_bind isFirst fun _ => uses_throwing_bind isSecond fun _ => trivial

theorem uses_command {op : Op} (free : Free op) : Uses Free (call op).run :=
  ⟨free, fun _ => trivial⟩

/-- A connect, from where `start` holds; it counts where `found` holds, and writes where `counted`. -/
theorem leading_connected {userId : UUID} (start found counted : Log Op Op.Res → Prop)
    (finds : ∀ log user, start log → found (⟨.find userId, .ok user⟩ :: log))
    (counts : ∀ log, found log → leads request log (.increment userId 1) ∧
      ∀ sessions, counted (⟨.increment userId 1, .ok sessions⟩ :: log))
    (writes : ∀ log fields, counted log → leads request log (.putAll userId fields)) :
    (leading compareToIgnoreCase permits).Yields t request (fun j => start (j.log t)) (connected userId)
      fun _ _ => True := by
  refine Contract.yields_bind _ (leading_call start (fun _ => found)
    fun log known => ⟨trivial, fun user => finds log user known⟩) fun user => ?_
  cases user with
  | none => exact Contract.yields_pure fun _ _ => trivial
  | some user =>
      refine Contract.yields_bind (fun _ _ => True) ?_ fun cameOnline => ?_
      · refine Contract.yields_bind _ (leading_call found (fun _ => counted) counts) fun sessions => ?_
        refine Contract.yields_bind _ (leading_call counted (fun _ _ => True)
          fun log known => ⟨writes log _ known, fun _ => trivial⟩) fun _ => ?_
        refine leading_free ⟨trivial, fun result => ?_⟩
        cases result with
        | error e => trivial
        | ok there => exact ⟨trivial, fun result => by cases result <;> trivial⟩
      · have online : Uses Free (call (.setOnline userId true)).run := uses_command trivial
        have published : Uses Free (call (.publishUserOnline userId)).run := uses_command trivial
        exact leading_free (uses_news cameOnline online published)

theorem leading_disconnected {socket : Nat} {userId : UUID} (isCall : request = .disconnected socket userId) :
    (leading compareToIgnoreCase permits).Yields t request (fun _ => True) (disconnected userId)
      fun _ _ => True := by
  refine Contract.yields_bind (fun _ _ => True) ?_ fun wentOffline => ?_
  · let counted (sessions : Int) (log : Log Op Op.Res) : Prop :=
      ∃ earlier, log = (⟨.increment userId (-1), .ok sessions⟩ : Done) :: earlier
    refine Contract.yields_bind _ (leading_call (fun _ => True) counted
      fun log _ => ⟨.inr (.inr ⟨socket, isCall, rfl⟩), fun sessions => ⟨log, rfl⟩⟩) fun sessions => ?_
    by_cases last : sessions ≤ 0
    · rw [if_pos last]
      let deleted (log : Log Op Op.Res) : Prop :=
        ∃ earlier, log = (⟨.delete userId, .ok ()⟩ : Done) :: earlier
      refine Contract.yields_bind _ (leading_call (counted sessions) (fun _ => deleted)
        fun log known => ⟨⟨sessions, last, known⟩, fun _ => ⟨log, rfl⟩⟩) fun _ => ?_
      refine Contract.yields_bind _ (leading_call deleted (fun _ _ => True)
        fun log known => ⟨known.imp fun _ => .inl, fun _ => trivial⟩) fun _ => ?_
      exact Contract.yields_pure fun _ _ => trivial
    · rw [if_neg last]
      exact Contract.yields_pure fun _ _ => trivial
  · have offline : Uses Free (call (.setOnline userId false)).run := uses_command trivial
    have published : Uses Free (call (.publishUserOffline userId)).run := uses_command trivial
    exact leading_free (uses_news wentOffline offline published)

theorem leading_heartbeat {socket : Nat} {userId : UUID} (isCall : request = .heartbeat socket userId) :
    (leading compareToIgnoreCase permits).Yields t request (fun _ => True) (heartbeat userId)
      fun _ _ => True := by
  let missed (log : Log Op Op.Res) : Prop := (⟨.hasKey userId, .ok false⟩ : Done) ∈ log
  refine Contract.yields_bind _ (leading_call (fun _ => True) (fun there log => there = false → missed log)
    fun log _ => ⟨trivial, fun there => ?_⟩) fun there => ?_
  · rintro rfl
    exact List.mem_cons_self
  · cases there with
    | true =>
        refine Contract.Yields.weaken (leading_free (p := do
          touch userId
          return false) ⟨trivial, fun result => by cases result <;> trivial⟩) (fun _ _ => trivial)
          fun _ _ => id
    | false =>
        have lasts (log : Log Op Op.Res) (x : Done) (known : missed log) : missed (x :: log) :=
          List.mem_cons_of_mem _ known
        have joined : (leading compareToIgnoreCase permits).Yields t request (fun j => missed (j.log t))
            (connected userId) fun _ _ => True :=
          leading_connected missed missed missed (fun log user known => lasts log _ known)
            (fun log known => ⟨.inr (.inl ⟨socket, isCall, known⟩), fun sessions => lasts log _ known⟩)
            fun log fields known => .inr (.inl ⟨socket, isCall, known⟩)
        exact joined.weaken (fun _ known => known rfl) fun _ _ => id

theorem leading_updateStatus {userId : UUID} {status : Option PresenceStatus} {note : Option JavaString}
    (isCall : request = .updateStatus userId status note) :
    (leading compareToIgnoreCase permits).Yields t request (fun _ => True) (updateStatus userId status note)
      fun _ _ => True := by
  refine Contract.yields_bind (fun _ _ => True) (leading_free ⟨trivial, fun result => ?_⟩) fun updated => ?_
  · cases result <;> trivial
  · let told (there : Bool) (log : Log Op Op.Res) : Prop :=
      ∃ earlier, log = (⟨.hasKey userId, .ok there⟩ : Done) :: earlier
    refine Contract.yields_bind _ (leading_call (fun _ => True) told
      fun log _ => ⟨trivial, fun there => ⟨log, rfl⟩⟩) fun there => ?_
    cases there with
    | false => exact Contract.yields_pure fun _ _ => trivial
    | true =>
        exact leading_call (told true) (fun _ _ => True)
          fun log known => ⟨.inr (.inr ⟨⟨status, note, isCall⟩, known⟩), fun _ => trivial⟩

theorem leading_collect (ids : List UUID) :
    (leading compareToIgnoreCase permits).Yields t request (fun _ => True) (collect ids) fun _ _ => True := by
  induction ids with
  | nil => exact Contract.yields_pure fun _ _ => trivial
  | cons userId rest ih =>
      let read (entry : Option Hash) (log : Log Op Op.Res) : Prop :=
        ∃ earlier, log = (⟨.entries userId, .ok entry⟩ : Done) :: earlier
      refine Contract.yields_bind _ (leading_call (fun _ => True) read
        fun log _ => ⟨trivial, fun entry => ⟨log, rfl⟩⟩) fun entry => ?_
      cases entry with
      | none =>
          exact Contract.yields_bind _ (leading_call (read none) (fun _ _ => True)
            fun log known => ⟨known.imp fun _ => .inr, fun _ => trivial⟩) fun _ => ih
      | some hash =>
          refine Contract.yields_bind (fun _ _ => True) (ih.weaken (fun _ _ => trivial) fun _ _ => id) fun out => ?_
          exact Contract.yields_pure fun _ _ => trivial

theorem leading_ends {start : History → Prop} {p : Prog α}
    (yields : (leading compareToIgnoreCase permits).Yields t request start p fun _ _ => True) :
    (leading compareToIgnoreCase permits).Yields t request start (do let _ ← p : Prog Unit) fun _ _ => True :=
  Contract.yields_bind _ yields fun _ => Contract.yields_pure fun _ _ => trivial

theorem leading_anyway {start : History → Prop} {p : Prog Unit}
    (yields : (leading compareToIgnoreCase permits).Yields t request (fun _ => True) p fun _ _ => True) :
    (leading compareToIgnoreCase permits).Yields t request start p fun _ _ => True :=
  yields.weaken (fun _ _ => trivial) fun _ _ => id

theorem leading_body (t : Nat) (request : Call) :
    (leading compareToIgnoreCase permits).Yields t request (fun j => j.log t = [])
      (request.body compareToIgnoreCase) fun _ _ => True := by
  cases request with
  | connected socket userId =>
      let found (log : Log Op Op.Res) : Prop := ∀ x ∈ log, x.1 = .find userId
      let counted (log : Log Op Op.Res) : Prop :=
        ∃ sessions earlier, log = (⟨.increment userId 1, .ok sessions⟩ : Done) :: earlier ∧ found earlier
      refine leading_ends (leading_connected (fun log => log = []) found counted ?_ ?_ ?_)
      · rintro log user rfl x member
        obtain rfl := List.mem_singleton.mp member
        rfl
      · exact fun log known => ⟨.inl ⟨socket, rfl, rfl, known⟩, fun sessions => ⟨sessions, log, rfl, known⟩⟩
      · rintro log fields ⟨sessions, earlier, rfl, known⟩
        refine .inl ⟨socket, rfl, sessions, List.mem_cons_self, fun x member other isOp => ?_⟩
        rcases List.mem_cons.mp member with rfl | old
        · cases isOp
        · rw [known x old] at isOp
          cases isOp
  | disconnected socket userId => exact leading_anyway (leading_ends (leading_disconnected rfl))
  | heartbeat socket userId => exact leading_anyway (leading_ends (leading_heartbeat rfl))
  | updateStatus userId status note => exact leading_anyway (leading_updateStatus rfl)
  | timeOut userId => exact leading_anyway (leading_free (uses_command trivial))
  | roster =>
      refine leading_anyway (leading_ends (Contract.yields_bind (fun _ _ => True) ?_ fun _ =>
        Contract.yields_pure fun _ _ => trivial))
      refine Contract.yields_bind (fun _ _ => True) (leading_free (uses_command trivial)) fun ids => ?_
      exact Contract.yields_bind _ (leading_collect ids) fun _ => Contract.yields_pure fun _ _ => trivial

end Programs

/-! ## The sockets that are counted -/

/-- The sockets of a user whose connect has counted them and which have not left. -/
def live (userId : UUID) : List Event → List Nat
  | [] => []
  | e :: earlier =>
      match e.call, e.op with
      | .connected socket _, .increment user _ =>
          if user = userId then socket :: live userId earlier else live userId earlier
      | .disconnected socket _, .increment user _ =>
          if user = userId then (live userId earlier).erase socket else live userId earlier
      | _, _ => live userId earlier

/-- The socket's connect has counted it. -/
def Joined (j : History) (socket : Nat) (userId : UUID) : Prop :=
  ∃ e ∈ j.past, e.call = .connected socket userId ∧ e.op = .increment userId 1

structure Counts (j : History) (userId : UUID) : Prop where
  nodup : (live userId j.past).Nodup
  mem : ∀ socket, socket ∈ live userId j.past ↔ Joined j socket userId ∧ ¬Left j socket userId
  written : ∀ socket, Written j socket userId → Joined j socket userId
  left : ∀ socket, Left j socket userId → Written j socket userId
  shown : ∀ e ∈ j.past, ∀ socket, e.call = .heartbeat socket userId →
    e.logged ≠ ⟨.hasKey userId, .ok false⟩
  counted : j.state.sessions userId = (live userId j.past).length
  after : ∀ later e earlier, j.past = later ++ e :: earlier →
    e.after.sessions userId = (live userId (e :: earlier)).length

section Effects

variable {s : Store} {op : Op} {userId : UUID}

theorem hashes_other (other : op.userId ≠ some userId) :
    (effect s op).2.hashes userId = s.hashes userId := by
  have set (target : UUID) (hash : Option Hash) (apart : target ≠ userId) :
      (s.setHash target hash).hashes userId = s.hashes userId :=
    Function.update_of_ne apart.symm _ _
  cases op with
  | setOnline target online =>
      simp only [effect]
      split <;> rfl
  | setPresence target status note =>
      simp only [effect]
      split <;> rfl
  | increment target delta => exact set _ _ fun equal => other (equal ▸ rfl)
  | putAll target fields => exact set _ _ fun equal => other (equal ▸ rfl)
  | delete target => exact set _ _ fun equal => other (equal ▸ rfl)
  | timeOut target => exact set _ _ fun equal => other (equal ▸ rfl)
  | expire target =>
      simp only [effect]
      split
      · exact set _ _ fun equal => other (equal ▸ rfl)
      · rfl
  | _ => rfl

theorem sessions_of_hashes {s' : Store} (same : s'.hashes userId = s.hashes userId) :
    s'.sessions userId = s.sessions userId := by
  rw [Store.sessions, Store.sessions, Store.hash, Store.hash, same]

theorem sessions_of_none (gone : s.hashes userId = none) : s.sessions userId = 0 := by
  rw [Store.sessions, Store.hash, gone]
  rfl

/-- A hash that counts somebody is there. -/
theorem hash_of_counted (counted : 0 < s.sessions userId) : s.hashes userId ≠ none := by
  intro gone
  rw [sessions_of_none gone] at counted
  omega

theorem hashes_gone (gone : op = .delete userId ∨ op = .timeOut userId) :
    (effect s op).2.hashes userId = none := by
  rcases gone with rfl | rfl
  · exact Function.update_self ..
  · exact Function.update_self ..

theorem sessions_increment (delta : Int) :
    (effect s (.increment userId delta)).2.sessions userId = s.sessions userId + delta := by
  simp [effect, Store.sessions, Store.hash, Store.setHash]

theorem sessions_kept (same : ∀ delta, op ≠ .increment userId delta) (kept : op ≠ .delete userId)
    (lasting : op ≠ .timeOut userId) : (effect s op).2.sessions userId = s.sessions userId := by
  by_cases other : op.userId = some userId
  · cases op with
    | members => cases other
    | increment target delta =>
        cases other
        exact absurd rfl (same delta)
    | delete target =>
        cases other
        exact absurd rfl kept
    | timeOut target =>
        cases other
        exact absurd rfl lasting
    | putAll target fields =>
        cases other
        simp [effect, Store.sessions, Store.hash, Store.setHash]
    | expire target =>
        cases other
        simp only [effect]
        split
        next hash there => simp [Store.sessions, Store.hash, Store.setHash, there]
        next => rfl
    | setOnline target online =>
        simp only [effect]
        split <;> rfl
    | setPresence target status note =>
        simp only [effect]
        split <;> rfl
    | _ => rfl
  · exact sessions_of_hashes (hashes_other other)

end Effects

section Live

variable {e : Event} {past : List Event} {userId : UUID}

theorem live_cons (same : ∀ delta, e.op ≠ .increment userId delta) :
    live userId (e :: past) = live userId past := by
  have apart {user : UUID} {delta : Int} (isOp : e.op = .increment user delta) : user ≠ userId := by
    rintro rfl
    exact same delta isOp
  rw [live]
  split
  next isOp => exact if_neg (apart isOp)
  next isOp => exact if_neg (apart isOp)
  next => rfl

theorem live_other (other : e.op.userId ≠ some userId) : live userId (e :: past) = live userId past :=
  live_cons fun _ isOp => other (congrArg Op.userId isOp)

theorem live_append {later : List Event} (other : ∀ e ∈ later, e.op.userId ≠ some userId) :
    live userId (later ++ past) = live userId past := by
  induction later with
  | nil => rfl
  | cons e rest ih =>
      rw [List.cons_append, live_other (other e List.mem_cons_self)]
      exact ih fun e' member => other e' (List.mem_cons_of_mem _ member)

theorem live_joins {socket : Nat} {user : UUID} {delta : Int} (isCall : e.call = .connected socket user)
    (isOp : e.op = .increment userId delta) : live userId (e :: past) = socket :: live userId past := by
  simp [live, isCall, isOp]

theorem live_leaves {socket : Nat} {user : UUID} {delta : Int}
    (isCall : e.call = .disconnected socket user) (isOp : e.op = .increment userId delta) :
    live userId (e :: past) = (live userId past).erase socket := by
  simp [live, isCall, isOp]

end Live

section Record

variable {j : History} {e : Event} {socket : Nat} {userId : UUID}

theorem joined_record : Joined (j.record e) socket userId ↔
    (e.call = .connected socket userId ∧ e.op = .increment userId 1) ∨ Joined j socket userId := by
  simp only [Joined, Journal.record_past, List.mem_cons, exists_eq_or_imp]

theorem left_record : Left (j.record e) socket userId ↔
    (e.call = .disconnected socket userId ∧ e.op = .increment userId (-1)) ∨ Left j socket userId := by
  simp only [Left, Journal.record_past, List.mem_cons, exists_eq_or_imp]

theorem written_record : Written (j.record e) socket userId ↔
    (e.call = .connected socket userId ∧ ∃ fields, e.op = .putAll userId fields) ∨
      Written j socket userId := by
  simp only [Written, Journal.record_past, List.mem_cons, exists_eq_or_imp]

/-- A command that counts writes no fields. -/
theorem written_increment {user : UUID} {delta : Int} (isOp : e.op = .increment user delta) :
    Written (j.record e) socket userId ↔ Written j socket userId := by
  rw [written_record]
  refine or_iff_right fun writes => ?_
  obtain ⟨_, fields, isPut⟩ := writes
  rw [isOp] at isPut
  cases isPut

end Record

section Runs

variable {compareToIgnoreCase : JavaString → JavaString → Int} {s : Store} {j : History} {e : Event}
  {userId : UUID} (reaches : (service compareToIgnoreCase).Reaches Admitted Serial s j)
include reaches

theorem connects_once {t u socket : Nat} {user user' : UUID}
    (isCall : j.calls t = some (.connected socket user))
    (isOther : j.calls u = some (.connected socket user')) : t = u := by
  revert t u socket user user'
  refine reaches.kept (fun j => ∀ {t u socket user user'}, j.calls t = some (.connected socket user) →
    j.calls u = some (.connected socket user') → t = u) ?_ ?_ ?_
  · intro t u socket user user' isCall
    cases isCall
  · intro j t request once idle admitted u v socket user user' isCall isOther
    rcases Journal.of_calls_begin isCall with ⟨rfl, rfl⟩ | old
    · rcases Journal.of_calls_begin isOther with ⟨rfl, _⟩ | old
      · rfl
      · exact absurd old (admitted.1 v user')
    · rcases Journal.of_calls_begin isOther with ⟨rfl, rfl⟩ | old'
      · exact absurd old (admitted.1 u user)
      · exact once old old'
  · exact fun _ _ once _ _ _ => once

theorem effect_of_past (member : e ∈ j.past) :
    e.result = (effect e.before e.op).1 ∧ e.after = (effect e.before e.op).2 := by
  obtain ⟨later, earlier, isPast⟩ := List.append_of_mem member
  obtain ⟨j', _, _, performs⟩ := reaches.at_entry isPast
  exact exec_effect performs.exec

theorem effect_of_logged (member : e ∈ j.past) {op : Op} {result : op.Res}
    (isLogged : e.logged = (⟨op, result⟩ : Done)) :
    result = (effect e.before op).1 ∧ e.after = (effect e.before op).2 := by
  obtain ⟨t, call, op', result', before, after⟩ := e
  obtain ⟨rfl, same⟩ := Sigma.mk.inj isLogged
  obtain rfl := eq_of_heq same
  exact effect_of_past reaches member

theorem ran_self (running : j.calls e.thread = some e.call) {x : Done} (member : x ∈ j.log e.thread) :
    ∃ own ∈ j.past, own.thread = e.thread ∧ own.call = e.call ∧ own.logged = x := by
  obtain ⟨own, inPast, isThread, isLogged⟩ := mem_of_own member
  have isCall := reaches.ran own inPast
  rw [isThread, running] at isCall
  exact ⟨own, inPast, isThread, (Option.some.inj isCall).symm, isLogged⟩

omit reaches in
/-- Since the last command of its own on a user, a call has had no company. -/
theorem untouched_since (serial : Serial j e) (isUser : e.op.userId = some userId) {x : Done}
    {earlier : Log Op Op.Res} (isLog : j.log e.thread = x :: earlier) (isOwn : x.1.userId = some userId) :
    ∃ later own before, j.past = later ++ own :: before ∧ own.logged = x ∧
      ∀ y ∈ later, y.op.userId ≠ some userId := by
  have split : own e.thread j.past = [] ++ x :: earlier := isLog
  obtain ⟨later, own, before, isPast, isThread, rfl, none, _⟩ := own_split split
  refine ⟨later, own, before, isPast, rfl, fun y member touches => ?_⟩
  exact own_eq_nil none y member
    (serial.alone userId isUser later own before isPast isThread isOwn y member touches)

/-- The hash is there, or not, as the last command of the call left it. -/
theorem hash_since {later before : List Event} {own : Event} (isPast : j.past = later ++ own :: before)
    (untouched : ∀ y ∈ later, y.op.userId ≠ some userId) :
    j.state.hashes userId = own.after.hashes userId := by
  refine reaches.stays (P := fun s => s.hashes userId = own.after.hashes userId) isPast rfl ?_
  intro x member same
  have inPast : x ∈ j.past := isPast ▸ List.mem_append_left _ member
  rw [(effect_of_past reaches inPast).2, hashes_other (untouched x member)]
  exact same

end Runs

section Counting

variable {compareToIgnoreCase : JavaString → JavaString → Int} {s : Store} {j : History} {e : Event}
  {userId : UUID}

/-- The connects of a socket are one call. -/
theorem own_of_connected (reaches : (service compareToIgnoreCase).Reaches Admitted Serial s j)
    (running : j.calls e.thread = some e.call) {socket : Nat} (isCall : e.call = .connected socket userId)
    {x : Event} (member : x ∈ j.past) (isOther : x.call = .connected socket userId) :
    x.logged ∈ j.log e.thread := by
  have ran := reaches.ran x member
  rw [isOther] at ran
  rw [isCall] at running
  rw [← connects_once reaches ran running]
  exact logged_mem_own member

/-- A connect that has only looked the user up has not counted its socket. -/
theorem not_joined (reaches : (service compareToIgnoreCase).Reaches Admitted Serial s j)
    (running : j.calls e.thread = some e.call) {socket : Nat} (isCall : e.call = .connected socket userId)
    (found : ∀ x ∈ j.log e.thread, x.1 = .find userId) : ¬Joined j socket userId := by
  rintro ⟨x, inPast, isOther, isOp⟩
  have isFind := found _ (own_of_connected reaches running isCall inPast isOther)
  rw [show x.logged.1 = .increment userId 1 from isOp] at isFind
  cases isFind

/-- A connect that has not written the fields has not done so for its socket. -/
theorem not_written (reaches : (service compareToIgnoreCase).Reaches Admitted Serial s j)
    (running : j.calls e.thread = some e.call) {socket : Nat} (isCall : e.call = .connected socket userId)
    (unwritten : ∀ x ∈ j.log e.thread, ∀ fields, x.1 ≠ .putAll userId fields) :
    ¬Written j socket userId := by
  rintro ⟨x, inPast, isOther, fields, isOp⟩
  exact unwritten _ (own_of_connected reaches running isCall inPast isOther) fields isOp

namespace Counts

theorem open_of_mem (counts : Counts j userId)
    (reaches : (service compareToIgnoreCase).Reaches Admitted Serial s j) {socket : Nat}
    (member : socket ∈ live userId j.past) : Open j socket userId := by
  obtain ⟨⟨x, inPast, isCall, _⟩, stays⟩ := (counts.mem socket).mp member
  refine ⟨⟨x.thread, ?_⟩, stays⟩
  rw [reaches.ran x inPast, isCall]

theorem hash_of_mem (counts : Counts j userId) {socket : Nat} (member : socket ∈ live userId j.past) :
    j.state.hashes userId ≠ none := by
  apply hash_of_counted
  rw [counts.counted]
  exact_mod_cast List.length_pos_of_mem member

theorem mem_of_written (counts : Counts j userId) {socket : Nat} (written : Written j socket userId)
    (stays : ¬Left j socket userId) : socket ∈ live userId j.past :=
  (counts.mem socket).mpr ⟨counts.written socket written, stays⟩

/-- When the last to leave deletes the hash, nobody is counted. -/
theorem empty_of_delete (counts : Counts j userId)
    (reaches : (service compareToIgnoreCase).Reaches Admitted Serial s j) (serial : Serial j e)
    (lawful : leads e.call (j.log e.thread) e.op) (isOp : e.op = .delete userId) :
    live userId j.past = [] := by
  rw [isOp] at lawful
  obtain ⟨sessions, few, earlier, isLog⟩ := lawful
  have isUser : e.op.userId = some userId := congrArg Op.userId isOp
  obtain ⟨later, own, before, isPast, isLogged, untouched⟩ :=
    untouched_since serial isUser isLog rfl
  have inPast : own ∈ j.past := isPast ▸ List.mem_append_right _ List.mem_cons_self
  obtain ⟨isResult, isAfter⟩ := effect_of_logged reaches inPast isLogged
  have told : sessions = own.before.sessions userId + -1 := Except.ok.inj isResult
  have left : own.after.sessions userId = sessions := by
    rw [told, isAfter]
    exact sessions_increment (-1)
  have counted := counts.after later own before isPast
  rw [left] at counted
  rw [isPast, live_append untouched]
  apply List.eq_nil_of_length_eq_zero
  omega

/-- When a hash expires, nobody is counted. -/
theorem empty_of_timeOut (counts : Counts j userId)
    (reaches : (service compareToIgnoreCase).Reaches Admitted Serial s j) (serial : Serial j e)
    (isOp : e.op = .timeOut userId) : live userId j.past = [] := by
  rw [List.eq_nil_iff_forall_not_mem]
  exact fun socket member => serial.lasting userId isOp socket (counts.open_of_mem reaches member)

/-- No heartbeat of the user has found no hash. -/
theorem not_missed (counts : Counts j userId)
    (reaches : (service compareToIgnoreCase).Reaches Admitted Serial s j)
    (running : j.calls e.thread = some e.call) {socket : Nat} (isCall : e.call = .heartbeat socket userId) :
    (⟨.hasKey userId, .ok false⟩ : Done) ∉ j.log e.thread := by
  intro member
  obtain ⟨own, inPast, _, same, isLogged⟩ := ran_self reaches running member
  exact counts.shown own inPast socket (same.trans isCall) isLogged

theorem sessions_record (performs : j.Performs (service compareToIgnoreCase) Serial e) {delta : Int}
    (isOp : e.op = .increment userId delta) :
    e.after.sessions userId = j.state.sessions userId + delta := by
  obtain ⟨_, isAfter⟩ := exec_effect performs.exec
  rw [isAfter, performs.before, isOp]
  exact sessions_increment delta

/-- The counts of the events before still stand. -/
theorem after_record (counts : Counts j userId)
    (counted : e.after.sessions userId = (live userId (e :: j.past)).length) :
    ∀ later x earlier, (j.record e).past = later ++ x :: earlier →
      x.after.sessions userId = (live userId (x :: earlier)).length := by
  intro later x earlier isPast
  cases later with
  | nil =>
      obtain ⟨rfl, rfl⟩ := List.cons.inj isPast
      exact counted
  | cons _ rest => exact counts.after rest x earlier (List.cons.inj isPast).2

theorem shown_record (counts : Counts j userId) (found : ∀ socket, e.call = .heartbeat socket userId →
      e.logged ≠ ⟨.hasKey userId, .ok false⟩) :
    ∀ x ∈ (j.record e).past, ∀ socket, x.call = .heartbeat socket userId →
      x.logged ≠ ⟨.hasKey userId, .ok false⟩ := by
  intro x member socket isCall
  rcases List.mem_cons.mp member with rfl | old
  · exact found socket isCall
  · exact counts.shown x old socket isCall

section Record

variable (counts : Counts j userId)
  (reaches : (service compareToIgnoreCase).Reaches Admitted Serial s j)
  (performs : j.Performs (service compareToIgnoreCase) Serial e)
  (lawful : leads e.call (j.log e.thread) e.op)
include counts reaches performs lawful

/-- A command that counts nobody. -/
theorem record_same (same : ∀ delta, e.op ≠ .increment userId delta) : Counts (j.record e) userId := by
  obtain ⟨isResult, isAfter⟩ := exec_effect performs.exec
  rw [performs.before] at isResult isAfter
  have live_eq : live userId (j.record e).past = live userId j.past := live_cons same
  have joined (socket : Nat) : Joined (j.record e) socket userId ↔ Joined j socket userId := by
    rw [joined_record]
    exact or_iff_right fun joins => same 1 joins.2
  have left (socket : Nat) : Left (j.record e) socket userId ↔ Left j socket userId := by
    rw [left_record]
    exact or_iff_right fun leaves => same (-1) leaves.2
  have counted : e.after.sessions userId = (live userId (e :: j.past)).length := by
    rw [live_cons same, isAfter]
    by_cases gone : e.op = .delete userId ∨ e.op = .timeOut userId
    · have empty : live userId j.past = [] := by
        rcases gone with isOp | isOp
        · exact counts.empty_of_delete reaches performs.permitted lawful isOp
        · exact counts.empty_of_timeOut reaches performs.permitted isOp
      rw [sessions_of_none (hashes_gone gone), empty]
      rfl
    · rw [not_or] at gone
      rw [sessions_kept same gone.1 gone.2]
      exact counts.counted
  refine ⟨?_, fun socket => ?_, fun socket written => ?_, fun socket leaves => ?_,
    counts.shown_record ?_, counted, counts.after_record counted⟩
  · rw [live_eq]
    exact counts.nodup
  · rw [live_eq, joined, left]
    exact counts.mem socket
  · rw [joined]
    rcases written_record.mp written with ⟨isCall, fields, isOp⟩ | old
    · rw [isOp, isCall] at lawful
      rcases lawful with ⟨other, same, sessions, member, _⟩ | ⟨_, differs, _⟩ | ⟨⟨_, _, differs⟩, _⟩
      · obtain ⟨own, inPast, _, isOwn, isLogged⟩ := ran_self reaches performs.running member
        exact ⟨own, inPast, isOwn.trans isCall, congrArg Sigma.fst isLogged⟩
      · cases differs
      · cases differs
    · exact counts.written socket old
  · rw [written_record]
    exact .inr (counts.left socket ((left socket).mp leaves))
  · intro socket isCall isLogged
    obtain ⟨t, call, op, result, before, after⟩ := e
    obtain ⟨rfl, equal⟩ := Sigma.mk.inj isLogged
    obtain rfl := eq_of_heq equal
    obtain ⟨other, written, stays⟩ := performs.permitted.shown socket userId isCall rfl
    have there := counts.hash_of_mem (counts.mem_of_written written stays)
    have missed : false = (j.state.hashes userId).isSome := Except.ok.inj isResult
    rw [Option.isSome_iff_ne_none.mpr there] at missed
    cases missed

omit lawful in
/-- A connect adds its socket, which nobody has seen before. -/
theorem record_joined {socket : Nat} (isCall : e.call = .connected socket userId)
    (isOp : e.op = .increment userId 1) (found : ∀ x ∈ j.log e.thread, x.1 = .find userId) :
    Counts (j.record e) userId := by
  have unjoined := not_joined reaches performs.running isCall found
  have stays : ¬Left j socket userId := fun leaves =>
    unjoined (counts.written socket (counts.left socket leaves))
  have live_eq : live userId (e :: j.past) = socket :: live userId j.past := live_joins isCall isOp
  have left (other : Nat) : Left (j.record e) other userId ↔ Left j other userId := by
    rw [left_record, isCall]
    refine or_iff_right fun leaves => ?_
    cases leaves.1
  have counted : e.after.sessions userId = (live userId (e :: j.past)).length := by
    rw [sessions_record performs isOp, counts.counted, live_eq, List.length_cons]
    push_cast
    rfl
  refine ⟨?_, fun other => ?_, fun other writes => ?_, fun other leaves => ?_,
    counts.shown_record fun other isHeartbeat => ?_, counted, counts.after_record counted⟩
  · rw [Journal.record_past, live_eq, List.nodup_cons]
    exact ⟨fun member => unjoined ((counts.mem socket).mp member).1, counts.nodup⟩
  · rw [Journal.record_past, live_eq, List.mem_cons, counts.mem, joined_record, left, isCall, isOp]
    constructor
    · rintro (rfl | ⟨joined, stays⟩)
      · exact ⟨.inl ⟨rfl, rfl⟩, stays⟩
      · exact ⟨.inr joined, stays⟩
    · rintro ⟨⟨same, _⟩ | joined, stays⟩
      · cases same
        exact .inl rfl
      · exact .inr ⟨joined, stays⟩
  · rw [joined_record]
    exact .inr (counts.written other ((written_increment isOp).mp writes))
  · rw [written_increment isOp]
    exact counts.left other ((left other).mp leaves)
  · rw [isCall] at isHeartbeat
    cases isHeartbeat

omit reaches lawful in
/-- A disconnect takes its socket away. -/
theorem record_left {socket : Nat} (isCall : e.call = .disconnected socket userId)
    (isOp : e.op = .increment userId (-1)) : Counts (j.record e) userId := by
  obtain ⟨wrote, stays⟩ := performs.permitted.leaves socket userId isCall isOp
  have member : socket ∈ live userId j.past := counts.mem_of_written wrote stays
  have live_eq : live userId (e :: j.past) = (live userId j.past).erase socket :=
    live_leaves isCall isOp
  have joined (other : Nat) : Joined (j.record e) other userId ↔ Joined j other userId := by
    rw [joined_record, isCall]
    refine or_iff_right fun joins => ?_
    cases joins.1
  have counted : e.after.sessions userId = (live userId (e :: j.past)).length := by
    have some := List.length_pos_of_mem member
    rw [sessions_record performs isOp, counts.counted, live_eq, List.length_erase_of_mem member]
    omega
  refine ⟨?_, fun other => ?_, fun other writes => ?_, fun other leaves => ?_,
    counts.shown_record fun other isHeartbeat => ?_, counted, counts.after_record counted⟩
  · rw [Journal.record_past, live_eq]
    exact counts.nodup.erase socket
  · rw [Journal.record_past, live_eq, counts.nodup.mem_erase_iff, counts.mem, joined, left_record,
      isCall, isOp, not_or]
    constructor
    · rintro ⟨apart, joined, stays⟩
      refine ⟨joined, fun leaves => ?_, stays⟩
      cases leaves.1
      exact apart rfl
    · rintro ⟨joined, other', stays⟩
      refine ⟨fun same => ?_, joined, stays⟩
      subst same
      exact other' ⟨rfl, rfl⟩
  · rw [joined]
    exact counts.written other ((written_increment isOp).mp writes)
  · rw [written_increment isOp]
    rcases left_record.mp leaves with ⟨isOther, _⟩ | old
    · rw [isCall] at isOther
      cases isOther
      exact wrote
    · exact counts.left other old
  · rw [isCall] at isHeartbeat
    cases isHeartbeat

/-- The count follows the sockets that come and go. -/
theorem record_counted {delta : Int} (isOp : e.op = .increment userId delta) :
    Counts (j.record e) userId := by
  rw [isOp] at lawful
  rcases lawful with ⟨socket, isCall, rfl, found⟩ | ⟨socket, isCall, missed⟩ | ⟨socket, isCall, rfl⟩
  · exact counts.record_joined reaches performs isCall isOp found
  · exact absurd missed (counts.not_missed reaches performs.running isCall)
  · exact counts.record_left performs isCall isOp

theorem record : Counts (j.record e) userId := by
  by_cases same : ∀ delta, e.op ≠ .increment userId delta
  · exact counts.record_same reaches performs lawful same
  · push Not at same
    obtain ⟨delta, isOp⟩ := same
    exact counts.record_counted reaches performs lawful isOp

end Record

/-- The socket of a connect is open until it has written the fields. -/
theorem open_of_connected (counts : Counts j userId) (running : j.calls e.thread = some e.call)
    {socket : Nat} (isCall : e.call = .connected socket userId) (unwritten : ¬Written j socket userId) :
    Open j socket userId :=
  ⟨⟨e.thread, isCall ▸ running⟩, fun leaves => unwritten (counts.left socket leaves)⟩

section Commands

variable (counts : Counts j userId)
  (reaches : (service compareToIgnoreCase).Reaches Admitted Serial s j)
  (performs : j.Performs (service compareToIgnoreCase) Serial e)
  (lawful : leads e.call (j.log e.thread) e.op)
include counts reaches performs lawful

theorem deletes (isOp : e.op = .delete userId) (socket : Nat) (isOpen : Open j socket userId) :
    ¬Written j socket userId := by
  intro written
  have member := counts.mem_of_written written isOpen.2
  rw [counts.empty_of_delete reaches performs.permitted lawful isOp] at member
  cases member

omit counts in
theorem removes (isOp : e.op = .removeMember userId) : j.state.hashes userId = none := by
  rw [isOp] at lawful
  have isUser : e.op.userId = some userId := congrArg Op.userId isOp
  obtain ⟨earlier, isLog | isLog⟩ := lawful
  · obtain ⟨later, own, before, isPast, isLogged, untouched⟩ :=
      untouched_since performs.permitted isUser isLog rfl
    have inPast : own ∈ j.past := isPast ▸ List.mem_append_right _ List.mem_cons_self
    rw [hash_since reaches isPast untouched, (effect_of_logged reaches inPast isLogged).2]
    exact hashes_gone (.inl rfl)
  · obtain ⟨later, own, before, isPast, isLogged, untouched⟩ :=
      untouched_since performs.permitted isUser isLog rfl
    have inPast : own ∈ j.past := isPast ▸ List.mem_append_right _ List.mem_cons_self
    obtain ⟨isResult, isAfter⟩ := effect_of_logged reaches inPast isLogged
    rw [hash_since reaches isPast untouched, isAfter]
    exact (Except.ok.inj isResult).symm

omit counts in
theorem updates {fields : Fields} (isOp : e.op = .putAll userId fields) {user : UUID}
    {status : Option PresenceStatus} {note : Option JavaString}
    (isCall : e.call = .updateStatus user status note) : j.state.hashes userId ≠ none := by
  rw [isOp, isCall] at lawful
  have isUser : e.op.userId = some userId := congrArg Op.userId isOp
  rcases lawful with ⟨_, differs, _⟩ | ⟨_, differs, _⟩ | ⟨_, earlier, isLog⟩
  · cases differs
  · cases differs
  · obtain ⟨later, own, before, isPast, isLogged, untouched⟩ :=
      untouched_since performs.permitted isUser isLog rfl
    have inPast : own ∈ j.past := isPast ▸ List.mem_append_right _ List.mem_cons_self
    obtain ⟨isResult, isAfter⟩ := effect_of_logged reaches inPast isLogged
    have there : true = (own.before.hashes userId).isSome := Except.ok.inj isResult
    rw [hash_since reaches isPast untouched, isAfter]
    exact Option.isSome_iff_ne_none.mp there.symm

theorem puts {fields : Fields} (isOp : e.op = .putAll userId fields)
    (joins : ∀ user status note, e.call ≠ .updateStatus user status note) :
    ∃ socket, Open j socket userId := by
  rw [isOp] at lawful
  rcases lawful with ⟨socket, isCall, _, _, unwritten⟩ | ⟨socket, isCall, missed⟩ | ⟨⟨_, _, isCall⟩, _⟩
  · exact ⟨socket, counts.open_of_connected performs.running isCall
      (not_written reaches performs.running isCall unwritten)⟩
  · exact absurd missed (counts.not_missed reaches performs.running isCall)
  · exact absurd isCall (joins _ _ _)

theorem joins {delta : Int} (isOp : e.op = .increment userId delta)
    (joins : ∀ socket user, e.call ≠ .disconnected socket user) : ∃ socket, Open j socket userId := by
  rw [isOp] at lawful
  rcases lawful with ⟨socket, isCall, _, found⟩ | ⟨socket, isCall, missed⟩ | ⟨socket, isCall, _⟩
  · refine ⟨socket, counts.open_of_connected performs.running isCall fun written => ?_⟩
    exact not_joined reaches performs.running isCall found (counts.written socket written)
  · exact absurd missed (counts.not_missed reaches performs.running isCall)
  · exact absurd isCall (joins _ _)

/-- When the last socket leaves, no other is counted. -/
theorem leaves {delta : Int} (isOp : e.op = .increment userId delta) {socket : Nat} {user : UUID}
    (isCall : e.call = .disconnected socket user) :
    (∃ other, other ≠ socket ∧ Open j other userId) ∨ j.state.sessions userId ≤ 1 := by
  rw [isOp, isCall] at lawful
  rcases lawful with ⟨_, differs, _⟩ | ⟨_, differs, _⟩ | ⟨_, same, isDelta⟩
  · cases differs
  · cases differs
  · cases same
    subst isDelta
    by_cases few : j.state.sessions userId ≤ 1
    · exact .inr few
    · have counted := counts.counted
      obtain ⟨wrote, stays⟩ := performs.permitted.leaves socket userId isCall isOp
      have member := counts.mem_of_written wrote stays
      have others : 0 < ((live userId j.past).erase socket).length := by
        rw [List.length_erase_of_mem member]
        omega
      obtain ⟨other, inOthers⟩ := List.exists_mem_of_length_pos others
      obtain ⟨apart, inLive⟩ := counts.nodup.mem_erase_iff.mp inOthers
      exact .inl ⟨other, apart, counts.open_of_mem reaches inLive⟩

end Commands

end Counts

/-- Each command meets what it was written for. -/
theorem permitted_of_counts (counts : ∀ userId, Counts j userId)
    (reaches : (service compareToIgnoreCase).Reaches Admitted Serial s j)
    (performs : j.Performs (service compareToIgnoreCase) Serial e)
    (lawful : leads e.call (j.log e.thread) e.op) : Permitted j e := by
  unfold Permitted
  cases isOp : e.op with
  | delete userId => exact .inr ((counts userId).deletes reaches performs lawful isOp)
  | removeMember userId => exact Counts.removes reaches performs lawful isOp
  | putAll userId fields =>
      cases isCall : e.call with
      | updateStatus user status note => exact Counts.updates reaches performs lawful isOp isCall
      | _ => exact (counts userId).puts reaches performs lawful isOp (by simp [isCall])
  | increment userId delta =>
      cases isCall : e.call with
      | disconnected socket user => exact (counts userId).leaves reaches performs lawful isOp isCall
      | _ => exact (counts userId).joins reaches performs lawful isOp (by simp [isCall])
  | _ => trivial

theorem counts_empty (started : ∀ userId, s.hashes userId = none) (userId : UUID) :
    Counts (.empty s) userId where
  nodup := List.nodup_nil
  mem socket := by simp [live, Joined]
  written socket := by simp [Written]
  left socket := by simp [Left]
  shown := by simp
  counted := sessions_of_none (started userId)
  after := by simp

/-- In every run without company the sessions are the sockets. -/
theorem counts_of_reaches (started : ∀ userId, s.hashes userId = none)
    (reaches : (service compareToIgnoreCase).Reaches Admitted Serial s j) (userId : UUID) :
    Counts j userId := by
  revert userId
  refine reaches.kept (fun j => ∀ userId, Counts j userId) (counts_empty started) ?_ ?_
  · intro j t request counts idle _ userId
    have old := counts userId
    exact ⟨old.nodup, old.mem, old.written, old.left, old.shown, old.counted, old.after⟩
  · intro j e counts reaches performs after userId
    exact (counts userId).record reaches performs (after.allowed leading_body performs.running)

theorem reachable_permitted (started : ∀ userId, s.hashes userId = none)
    {config : Config Op Op.Res History (Except JavaError Unit)}
    (reachable : (system compareToIgnoreCase Serial).Reachable (.empty s) config) :
    (system compareToIgnoreCase Permitted).Reachable (.empty s) config := by
  refine Service.strengthened (fun j e reaches _ performs after => ?_) reachable
  exact permitted_of_counts (counts_of_reaches started reaches) reaches performs
    (after.allowed leading_body performs.running)

end Counting

end PresenceRegistry
