import CipherChat.Service.Calls
import Mathlib.Logic.Relation

/-!
The browsers of one account with everything that has happened on them, newest first, and
the rely rule over such histories: a thread relies on the steps the others may take.
-/

namespace E2EEService

open Async Number Primitives KeyStore Envelope EnvelopeV2 Store

/-- A call made on one of the browsers. -/
structure Client extends Request where
  device : Nat

/-- An operation that was performed. -/
structure Event where
  thread : Nat
  client : Client
  op : Op
  result : op.Res
  before : Device

structure World where
  devices : Nat → Device
  calls : Nat → Option Client
  past : List Event

namespace World

def begin (w : World) (t : Nat) (client : Client) : World :=
  { w with calls := Function.update w.calls t (some client) }

def event (w : World) (t : Nat) (client : Client) (op : Op) (result : op.Res) : Event where
  thread := t
  client := client
  op := op
  result := result
  before := w.devices client.device

def record (w : World) (e : Event) (d : Device) : World :=
  { w with devices := Function.update w.devices e.client.device d, past := e :: w.past }

variable (w : World) (t u : Nat) (client : Client) (e : Event) (d : Device)

@[simp] theorem record_past : (w.record e d).past = e :: w.past := by
  rfl

theorem begin_calls_self : (w.begin t client).calls t = some client := by
  simp [begin]

theorem begin_calls_of_ne (other : u ≠ t) : (w.begin t client).calls u = w.calls u := by
  simp [begin, other]

theorem record_device_self : (w.record e d).devices e.client.device = d := by
  simp [record]

theorem record_device_of_ne {n : Nat} (other : n ≠ e.client.device) :
    (w.record e d).devices n = w.devices n := by
  simp [record, other]

theorem calls_begin {w : World} {t u : Nat} {client client' : Client} (idle : w.calls t = none)
    (running : w.calls u = some client') : (w.begin t client).calls u = some client' := by
  have other : u ≠ t := by
    intro equal
    rw [equal, idle] at running
    cases running
  rw [World.begin_calls_of_ne _ _ _ _ other]
  exact running

/-- An operation a thread may perform now. -/
structure Performs (w : World) (permits : World → Event → Prop) (e : Event) (d : Device) :
    Prop where
  running : w.calls e.thread = some e.client
  before : e.before = w.devices e.client.device
  exec : Exec e.thread e.before e.op e.result d
  permitted : permits w e

end World

/-- The calls `admits` are made, on any browser, and the operations `permits` are performed. -/
def recorded (admits : World → Client → Prop) (permits : World → Event → Prop) :
    System Op Op.Res World Report where
  start t w p w' := w.calls t = none ∧ ∃ client, admits w client ∧ p = client.program ∧
    w' = w.begin t client
  exec t w op result w' := ∃ client d, w.Performs permits (w.event t client op result) d ∧
    w' = w.record (w.event t client op result) d

namespace World

/-- No call has a number from 8 on. -/
def Few (w : World) : Prop :=
  ∀ t, 8 ≤ t → w.calls t = none

/-- Calls and answers as chosen, as far as the two checks allow. -/
def schedule (admits : Client → Bool) (permits : World → Event → Bool) :
    Schedule Op Op.Res World Report Client Answer where
  start t w client :=
    if w.calls t = none ∧ t < 8 ∧ admits client then some (client.program, w.begin t client)
    else none
  perform t w op a :=
    match w.calls t with
    | none => none
    | some client =>
        match Store.perform t (w.devices client.device) op a with
        | none => none
        | some (result, d) =>
            if permits w (w.event t client op result) then
              some (result, w.record (w.event t client op result) d)
            else none

theorem schedule_sound {admits : Client → Bool} {permits : World → Event → Bool}
    {admitted : World → Client → Prop} {permitted : World → Event → Prop}
    (calls : ∀ w client, admits client → admitted w client)
    (events : ∀ w e, Few w → permits w e → permitted w e) :
    (schedule admits permits).Sound (recorded admitted permitted) Few := by
  refine ⟨fun t w client p w' few started => ?_, fun t w op a result w' few performed => ?_⟩
  · simp only [schedule] at started
    split at started
    next allowed =>
      obtain ⟨idle, small, isAdmitted⟩ := allowed
      simp only [Option.some.injEq, Prod.mk.injEq] at started
      obtain ⟨rfl, rfl⟩ := started
      refine ⟨⟨idle, client, calls w client isAdmitted, rfl, rfl⟩, fun u large => ?_⟩
      rw [begin_calls_of_ne _ _ _ _ (by omega)]
      exact few u large
    next => contradiction
  · simp only [schedule] at performed
    split at performed
    next => contradiction
    next client running =>
      split at performed
      next => contradiction
      next answer d executed =>
        split at performed
        next allowed =>
          simp only [Option.some.injEq, Prod.mk.injEq] at performed
          obtain ⟨rfl, rfl⟩ := performed
          refine ⟨⟨client, d, ?_, rfl⟩, few⟩
          exact ⟨running, rfl, ⟨a, executed⟩, events w _ few allowed⟩
        next => contradiction

end World

def untouched : World where
  devices _ := freshDevice
  calls _ := none
  past := []

theorem untouched_few : untouched.Few := by
  intro t _
  rfl

def idle : Config Op Op.Res World Report where
  state := untouched
  threads _ := none

/-- A call from the tab of browser `n`. -/
def tabClient (n : Nat) (call : Call) : Client where
  this := tab
  call := call
  device := n

/-- A call is started, and performs its next `n` operations. -/
def begins (t : Nat) (client : Client) (n : Nat) (a : Answer) : List (Move Client Answer) :=
  .start t client :: List.replicate n (.await t a)

section Threads

variable {admits : World → Client → Prop} {permits : World → Event → Prop} {t : Nat}
  {config config' : Config Op Op.Res World Report}

theorem calls_step {client : Client} (step : (recorded admits permits).Step config config')
    (running : config.state.calls t = some client) : config'.state.calls t = some client := by
  cases step with
  | start _ started =>
      obtain ⟨idle, other, _, _, rfl⟩ := started
      exact World.calls_begin idle running
  | await _ performed =>
      obtain ⟨other, d, _, rfl⟩ := performed
      exact running

theorem calls_steps {client : Client}
    (steps : Relation.ReflTransGen (recorded admits permits).Step config config')
    (running : config.state.calls t = some client) : config'.state.calls t = some client := by
  induction steps with
  | refl => exact running
  | tail _ step ih => exact calls_step step ih

end Threads

/-- A step of another thread than `t`: a call begins, or an operation with `fair` is performed. -/
inductive Other (permits fair : World → Event → Prop) (t : Nat) : World → World → Prop
  | begin {w u client} : u ≠ t → w.calls u = none → Other permits fair t w (w.begin u client)
  | event {w e d} : e.thread ≠ t → w.Performs permits e d → fair w e →
      Other permits fair t w (w.record e d)

/-- Histories with an invariant, in which every operation is `fair`. -/
def histories (permits fair : World → Event → Prop) (inv : World → Prop) :
    Discipline Op Op.Res World where
  exec t w op result w' := ∃ client d, w.Performs permits (w.event t client op result) d ∧
    w' = w.record (w.event t client op result) d
  inv := inv
  rely t := Relation.ReflTransGen fun w w' => inv w ∧ Other permits fair t w w'
  refl _ _ := .refl
  trans _ _ _ _ := .trans

section

variable {permits fair : World → Event → Prop} {inv : World → Prop} {t : Nat} {α : Type}

/-- What a thread knows lasts while others take fair steps. -/
def Lasts (permits fair : World → Event → Prop) (inv : World → Prop) (t : Nat)
    (known : World → Prop) : Prop :=
  ∀ w w', inv w → known w → Other permits fair t w w' → known w'

theorem Lasts.rely {known : World → Prop} (lasts : Lasts permits fair inv t known) (w w' : World)
    (start : known w) (steps : (histories permits fair inv).rely t w w') : known w' := by
  induction steps with
  | refl => exact start
  | tail _ step ih => exact lasts _ _ step.1 ih step.2

/-- The rule for one operation: it is fair, and its answer establishes `post`. -/
theorem triple_call {op : Op} {client : Client} {pre : World → Prop}
    {post : op.Res → World → Prop} (lasts : Lasts permits fair inv t pre)
    (mine : ∀ w, pre w → w.calls t = some client)
    (kept : ∀ w e d, inv w → w.Performs permits e d → fair w e → inv (w.record e d))
    (step : ∀ w result d, inv w → pre w → w.Performs permits (w.event t client op result) d →
      fair w (w.event t client op result) ∧
        post result (w.record (w.event t client op result) d)) :
    (histories permits fair inv).Triple t pre (call op) post := by
  intro w start
  refine Discipline.safe_call lasts.rely ?_ start
  rintro w answer w' holds known ⟨client', d, performs, rfl⟩
  have same : client' = client := by
    have running : w.calls t = some client' := performs.running
    rw [mine w known] at running
    exact (Option.some.inj running).symm
  subst same
  obtain ⟨isFair, after⟩ := step w answer d holds known performs
  refine ⟨kept w _ d holds performs isFair, fun u other => ?_, after⟩
  exact .single ⟨holds, .event (Ne.symm other) performs isFair⟩

/-- Operations that change nothing the thread knows. -/
theorem triple_inert {allowed : Op → Prop} {client : Client} {pre : World → Prop}
    (lasts : Lasts permits fair inv t pre) (mine : ∀ w, pre w → w.calls t = some client)
    (kept : ∀ w e d, inv w → w.Performs permits e d → fair w e → inv (w.record e d))
    (inert : ∀ op, allowed op → ∀ w result d, inv w → pre w →
      w.Performs permits (w.event t client op result) d →
      fair w (w.event t client op result) ∧ pre (w.record (w.event t client op result) d))
    {p : Prog α} (uses : Uses allowed p.run) :
    (histories permits fair inv).Triple t pre p fun _ => pre := by
  refine Discipline.triple_uses lasts.rely ?_ uses
  rintro op fine w answer w' holds known ⟨client', d, performs, rfl⟩
  have same : client' = client := by
    have running : w.calls t = some client' := performs.running
    rw [mine w known] at running
    exact (Option.some.inj running).symm
  subst same
  obtain ⟨isFair, after⟩ := inert op fine w answer d holds known performs
  refine ⟨kept w _ d holds performs isFair, fun u other => ?_, after⟩
  exact .single ⟨holds, .event (Ne.symm other) performs isFair⟩

/-- A call of the application, from the rule for its program. -/
theorem safe_request {request : Request} {outcome : Except JsError α → Outcome} {p : Prog α}
    {D : Discipline Op Op.Res World} {pre : World → Prop} {post : Except JsError α → World → Prop}
    {holds : Report → World → Prop} (triple : D.Triple t pre p post)
    (reports : ∀ result w, post result w → holds { request with outcome := outcome result } w)
    {w : World} (start : pre w) : D.Safe t holds (request.report outcome p) w :=
  Discipline.safe_bind ((triple w start).mono reports)

end

end E2EEService
