import CipherChat.Auth.Ledger

/-!
Every call keeps the contract: a rotation has claimed its row before it continues the family,
and a revocation holds every row it has found when it commits.
-/

namespace Auth

open Async ReadCommitted
open Rooms (UUID Instant JavaError)

variable {permits : History → Event → Prop} {t : Nat} {request : Call} {α β : Type}

/-- What is known when no exception was thrown. -/
def Passing (post : α → History → Prop) : Except JavaError α → History → Prop
  | .ok value, j => post value j
  | .error _, _ => True

variable (permits t request) in
/-- A part of a call, from what is known before it to what is known unless it throws. -/
def Guides (pre : History → Prop) (p : Prog α) (post : α → History → Prop) : Prop :=
  (contract permits).Guides t request pre p (Passing post)

variable (t) in
def Stable (pre : History → Prop) : Prop :=
  ∀ j j', Rely t j j' → pre j → pre j'

variable {pre : History → Prop}

theorem Stable.and {pre' : History → Prop} (stable : Stable t pre) (stable' : Stable t pre') :
    Stable t fun j => pre j ∧ pre' j :=
  fun j j' rely known => ⟨stable j j' rely known.1, stable' j j' rely known.2⟩

theorem stable_const {fact : Prop} : Stable t fun _ => fact :=
  fun _ _ _ => id

theorem guides_bind {p : Prog α} {f : α → Prog β} {post : β → History → Prop}
    (middle : α → History → Prop) (first : Guides permits t request pre p middle)
    (rest : ∀ value, Guides permits t request (middle value) (f value) post) :
    Guides permits t request pre (p >>= f) post :=
  Contract.guides_bind _ first rest fun _ _ _ => trivial

theorem guides_pure {value : α} {post : α → History → Prop} (holds : ∀ j, pre j → post value j) :
    Guides permits t request pre (pure value) post :=
  Contract.guides_pure holds

theorem guides_throw {e : JavaError} {post : α → History → Prop} :
    Guides permits t request pre (throw e) post :=
  Contract.guides_throw fun _ _ => trivial

theorem Guides.weaken {pre' : History → Prop} {p : Prog α} {post post' : α → History → Prop}
    (guides : Guides permits t request pre p post) (before : ∀ j, pre' j → pre j)
    (after : ∀ value j, post value j → post' value j) :
    Guides permits t request pre' p post' :=
  Contract.Guides.weaken guides before fun result j ends => by
    cases result with
    | ok value => exact after value j ends
    | error e => trivial

theorem guides_onlyIf {action : Prog Unit} (condition : Bool)
    (guides : Guides permits t request pre action fun _ => pre) :
    Guides permits t request pre (onlyIf condition action) fun _ => pre := by
  cases condition with
  | true => exact guides
  | false => exact guides_pure fun _ => id

/-- The history after an operation that has answered. -/
abbrev answered (request : Call) (t : Nat) (j : History) (op : Op) (value : op.Val) (s' : Server) :
    History :=
  j.record ⟨t, request, op, .ok value, j.state, s'⟩

theorem answered_log {j : History} {op : Op} {value : op.Val} {s' : Server} :
    (answered request t j op value s').log t = ⟨op, .ok value⟩ :: j.log t :=
  Journal.record_log_self ..

theorem guides_op {op : Op} {post : op.Val → History → Prop} (stable : Stable t pre)
    (step : ∀ j, Kept j → j.calls t = some request → pre j → Justified t j op ∧
      ∀ value s', j.Performs service permits ⟨t, request, op, .ok value, j.state, s'⟩ →
        post value (answered request t j op value s')) :
    Guides permits t request pre (call op) post := by
  intro j start
  change (contract permits).discipline.Safe t
    (fun result j => j.calls t = some request ∧ Passing post result j) (Program.call op) j
  have stays : (contract permits).Stable t pre := stable
  refine Contract.safe_step stays ?_ start
  intro j kept running known
  obtain ⟨justified, after⟩ := step j kept running known
  refine ⟨justified, fun result s' performs => ?_⟩
  cases result with
  | ok value => exact after value s' performs
  | error e => trivial

theorem guides_call {op : Op} {post : op.Val → History → Prop} (stable : Stable t pre)
    (step : ∀ j, Kept j → j.calls t = some request → pre j → Justified t j op ∧
      ∀ value s', Exec t j.state op (.ok value) s' → post value (answered request t j op value s')) :
    Guides permits t request pre (call op) post := by
  refine guides_op stable fun j kept running known => ?_
  obtain ⟨justified, after⟩ := step j kept running known
  exact ⟨justified, fun value s' performs => after value s' performs.exec⟩

section Quiet

/-- Operations that change neither rows nor transactions, and begin no revocation. -/
def Quiet : Op → Prop
  | .now | .findByTokenHash _ | .findByIdAndUserId .. | .findLive .. | .requireUser _
  | .setOnline _ | .publish .. | .setCookie _ => True
  | .select _ (.unused ..) | .select _ (.expired ..) => True
  | _ => False

theorem Quiet.justified {op : Op} (quiet : Quiet op) (j : History) : Justified t j op := by
  cases op <;> simp only [Quiet] at quiet <;> exact ⟨trivial, trivial⟩

theorem Quiet.same {op : Op} (quiet : Quiet op) {s s' : Server} {result : op.Res}
    (outcome : Outcome t s op result s') : Same s s' := by
  cases outcome with
  | same same _ => exact same
  | used | erased | saved | committed => exact quiet.elim
  | closed _ ends _ => cases op <;> first | exact quiet.elim | cases ends

theorem Quiet.revoking {op : Op} (quiet : Quiet op) (result : op.Res) (scope : Scope)
    (log : Log Op Op.Res) : revoking scope (⟨op, result⟩ :: log) = revoking scope log := by
  cases op with
  | select scope' target =>
      cases result with
      | error e => rfl
      | ok rows =>
          cases target <;> simp only [Quiet] at quiet <;> simp [Auth.revoking, Target.revoked]
  | _ => first | rfl | exact quiet.elim

/-- Whoever performs a quiet operation can rely on what it could rely on anyway. -/
theorem Quiet.rely {j : History} {e : Event} (quiet : Quiet e.op)
    (performs : j.Performs service permits e) : Rely e.thread j (j.record e) := by
  have same : Same j.state e.after := quiet.same (performs_outcome performs)
  refine ⟨fun k scope version => by rw [Journal.record_state, same.db], fun scope => ?_,
    List.suffix_cons _ _, fun h F u known => ?_, fun F u owned => ?_, fun F surfaced => ?_,
    fun scope F _ => .inr fun r stored family => ⟨r, ?_, rfl, family⟩⟩
  · rw [Journal.record_log_self]
    exact quiet.revoking ..
  · simpa only [Known, Server.Version, Server.Stored, Server.Pends, Journal.record_state, same.db,
      same.raws] using known
  · simpa only [Owned, Server.Version, Server.Stored, Server.Pends, Journal.record_state, same.db,
      same.uuids] using owned
  · simpa only [Surfaced, Server.Stored, Server.Pends, Journal.record_state, same.db, same.uuids]
      using surfaced
  · simpa only [Server.Stored, Journal.record_state, same.db] using stored

/-- What a quiet operation may answer, besides leaving everything else as it was. -/
theorem guides_quiet {op : Op} (quiet : Quiet op) (stable : Stable t pre)
    {fact : op.Val → History → Prop}
    (learns : ∀ j value s', Kept j → pre j → Exec t j.state op (.ok value) s' → fact value j)
    (lasting : ∀ value, Stable t (fact value)) :
    Guides permits t request pre (call op) fun value j => pre j ∧ fact value j := by
  refine guides_op stable fun j kept _ known => ⟨quiet.justified j, fun value s' performs => ?_⟩
  have rely := quiet.rely performs
  exact ⟨stable _ _ rely known,
    lasting value _ _ rely (learns j value s' kept known performs.exec)⟩

theorem guides_still {op : Op} (quiet : Quiet op) (stable : Stable t pre) :
    Guides permits t request pre (call op) fun _ => pre :=
  let learnt (_ : op.Val) (_ : History) : Prop := True
  have guides : Guides permits t request pre (call op) fun value j => pre j ∧ learnt value j :=
    guides_quiet quiet stable (fun _ _ _ _ _ _ => trivial) fun _ => stable_const
  guides.weaken (fun _ => id) fun _ _ => And.left

end Quiet

section Transactions

/-- The transaction may commit: it revokes nothing, or has all there is in its hands. -/
def Revokes (t : Nat) (scope : Scope) (j : History) : Prop :=
  revoking scope (j.log t) = [] ∨ Deletes j.state (t, scope) ∧
    ∀ F ∈ revoking scope (j.log t), Disturbed j.past F ∨ Doomed j.state (t, scope) F []

theorem guides_transactional {scope : Scope} {body : Prog α} {done after : α → History → Prop}
    (inside : Guides permits t request pre body done) (stable : ∀ value, Stable t (done value))
    (commits : ∀ value j, Kept j → done value j → Revokes t scope j ∧
      after value (answered request t j (.commit scope) () (j.state.setDb (j.state.db.commit (t, scope))))) :
    Guides permits t request pre (transactional scope body) after := by
  have rollback (e : JavaError) : Guides permits t request (fun _ => True)
      (do call (.rollback scope); throw e : Prog α) done :=
    guides_bind (fun _ _ => True)
      (guides_call stable_const fun j _ _ _ => ⟨⟨trivial, trivial⟩, fun _ _ _ => trivial⟩)
      fun _ => guides_throw
  refine guides_bind done (Contract.guides_tryCatch (Passing done) inside (fun _ _ => id) rollback)
    fun value => guides_bind (fun _ => after value) (guides_call (stable value) ?_)
      fun _ => guides_pure fun _ => id
  intro j kept _ known
  obtain ⟨revokes, ends⟩ := commits value j kept known
  refine ⟨⟨trivial, revokes⟩, fun _ s' exec => ?_⟩
  obtain ⟨_, effected⟩ := exec.effect_of_ok
  obtain ⟨_, rfl⟩ := Prod.mk.inj (Option.some.inj effected)
  exact ends

theorem guides_answer {response : Except JavaError α → Response} {body : Prog α}
    {after : α → History → Prop} (inside : Guides permits t request pre body after)
    (stable : ∀ value, Stable t (after value))
    (justified : ∀ result j, j.calls t = some request → Passing after result j →
      Justified t j (.respond (response result))) :
    Guides permits t request pre (answer response body) fun _ _ => True := by
  have lasting (result : Except JavaError α) : Stable t (Passing after result) := by
    cases result with
    | ok value => exact stable value
    | error e => exact stable_const
  have settled : Guides permits t request pre (settle body) fun result => Passing after result :=
    Contract.guides_settle inside
  exact guides_bind _ settled fun result => guides_call (lasting result) fun j _ running known =>
    ⟨justified result j running known, fun _ _ _ => trivial⟩

end Transactions

section Idle

/-- No revocation of the thread is open. -/
def Idle (t : Nat) (j : History) : Prop :=
  ∀ scope, revoking scope (j.log t) = []

theorem stable_idle : Stable t (Idle t) :=
  fun _ _ rely idle scope => (rely.revoking scope).trans (idle scope)

theorem Idle.revokes {j : History} (idle : Idle t j) (scope : Scope) : Revokes t scope j :=
  .inl (idle scope)

/-- Operations that are justified whatever is known, and begin no revocation. -/
def Tame (op : Op) : Prop :=
  Quiet op ∨ (∃ scope target id, op = .modify scope target .delete id) ∨
    ∃ userId expiresAt, op = .save userId expiresAt none

theorem Tame.justified {op : Op} (tame : Tame op) (j : History) : Justified t j op := by
  rcases tame with quiet | ⟨scope, target, id, rfl⟩ | ⟨userId, expiresAt, rfl⟩
  · exact quiet.justified j
  · exact ⟨trivial, trivial⟩
  · exact ⟨trivial, trivial⟩

theorem Tame.revoking {op : Op} (tame : Tame op) (result : op.Res) (scope : Scope)
    (log : Log Op Op.Res) : revoking scope (⟨op, result⟩ :: log) = revoking scope log := by
  rcases tame with quiet | ⟨_, target, id, rfl⟩ | ⟨userId, expiresAt, rfl⟩
  · exact quiet.revoking ..
  · rfl
  · rfl

theorem guides_tame {p : Prog α} (uses : Uses Tame p.run) :
    Guides permits t request (Idle t) p fun _ => Idle t := by
  refine Contract.Guides.weaken (Contract.guides_uses (C := contract permits) stable_idle ?_ uses) (fun _ => id)
    fun result j idle => ?_
  · intro op tame j _ _ idle
    refine ⟨tame.justified j, fun result s' _ scope => ?_⟩
    rw [Journal.record_log_self (e := ⟨t, request, op, result, j.state, s'⟩)]
    exact (tame.revoking ..).trans (idle scope)
  · cases result with
    | ok value => exact idle
    | error e => trivial

theorem Idle.answered {j : History} {op : Op} {value : op.Val} {s' : Server} (idle : Idle t j)
    (silent : ∀ scope, revoking scope (⟨op, .ok value⟩ :: j.log t) = revoking scope (j.log t)) :
    Idle t (answered request t j op value s') := by
  intro scope
  rw [answered_log]
  exact (silent scope).trans (idle scope)

/-- The thread has written nothing and is deleting nothing. -/
structure Ready (t : Nat) (j : History) : Prop where
  unwritten : ∀ k scope version, j.state.db.held k ≠ some ((t, scope), version)
  idle : Idle t j

theorem stable_ready : Stable t (Ready t) :=
  fun j j' rely ready => ⟨fun k scope version isHeld =>
    ready.unwritten k scope version ((rely.held k scope version).mp isHeld),
    stable_idle j j' rely ready.idle⟩

theorem Rely.pends {j j' : History} (rely : Rely t j j') {scope : Scope} {r : RefreshToken} :
    j'.state.Pends (t, scope) r ↔ j.state.Pends (t, scope) r :=
  rely.held r.key scope (some r)

end Idle

end Auth
