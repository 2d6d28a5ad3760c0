import CipherChat.Auth.Rotation

/-!
Sign-ins, refreshes and sweeps, one after the other, with a clock that goes on meanwhile.
-/

namespace Auth

open Async ReadCommitted
open Rooms (UUID Instant JavaError)

structure Moment where
  clock : Instant
  server : Server

/-- The time an operation tells. -/
def reading : (op : Op) → op.Res → Option Instant
  | .now, .ok now => some now
  | _, _ => none

/-- An operation takes time; the clock is read at its end. -/
structure Timed (t : Nat) (m : Moment) (op : Op) (result : op.Res) (m' : Moment) : Prop where
  exec : Exec t m.server op result m'.server
  onward : m.clock ≤ m'.clock
  tells : ∀ now ∈ reading op result, now = m'.clock

structure Turn where
  call : Call
  before : Moment
  after : Moment

/-- The calls that issue tokens, rotate them, and sweep the table. -/
def Call.Routine : Call → Prop
  | login _ | refresh _ | sweepExpired => True
  | _ => False

/-- Calls one at a time, the last one first. -/
inductive Turns (start : Moment) : List Turn → Moment → Prop
  | nil : Turns start [] start
  | wait {past m clock} : Turns start past m → m.clock ≤ clock → Turns start past ⟨clock, m.server⟩
  | turn {past m call result m'} : Turns start past m → call.Routine →
      Ends (Timed past.length) m call.program result m' → Turns start (⟨call, m, m'⟩ :: past) m'

variable {start m m' : Moment} {past : List Turn} {call : Call} {result : Except JavaError Unit}

theorem Timed.runs {t : Nat} {α : Type} {p : Prog α} {result : Except JavaError α}
    (ends : Ends (Timed t) m p result m') : Ends (Exec t) m.server p result m'.server :=
  Runs.image Moment.server (fun _ _ _ _ timed => timed.exec) ends

theorem Timed.onward_of_ends {t : Nat} {α : Type} {p : Prog α} {result : Except JavaError α}
    (ends : Ends (Timed t) m p result m') : m.clock ≤ m'.clock := by
  have kept (m₁ : Moment) (op : Op) (answer : op.Res) (m₂ : Moment) (timed : Timed t m₁ op answer m₂)
      (before : m.clock ≤ m₁.clock) : m.clock ≤ m₂.clock := before.trans timed.onward
  exact Runs.invariant kept ends le_rfl

/-- The whole service, in any interleaving. -/
abbrev interleaved : System Op Op.Res History (Except JavaError Unit) :=
  service.journaled (fun _ _ => True) (fun _ _ => True)

/-- Calls one at a time are one of the interleavings, and later threads have not begun. -/
theorem Turns.reachable (turns : Turns start past m) :
    ∃ c, interleaved.Reachable (.empty start.server) c ∧ c.state.state = m.server ∧
      ∀ t, past.length ≤ t → c.threads t = none ∧ c.state.calls t = none := by
  induction turns with
  | nil => exact ⟨_, .initial, rfl, fun _ _ => ⟨rfl, rfl⟩⟩
  | wait _ _ ih => exact ih
  | @turn past m call result m' _ _ ends ih =>
      obtain ⟨c, reachable, isServer, fresh⟩ := ih
      obtain ⟨idle, unused⟩ := fresh past.length le_rfl
      have run := isServer ▸ Timed.runs ends
      obtain ⟨later, after, _⟩ := Service.reachable_solo (fun _ _ => trivial) reachable idle unused
        trivial run
      refine ⟨_, after, rfl, fun t above => ?_⟩
      have other : t ≠ past.length := (Nat.lt_of_succ_le above).ne'
      obtain ⟨idle', unused'⟩ := fresh t (Nat.le_of_succ_le above)
      exact ⟨(Function.update_of_ne other _ _).trans idle',
        (Journal.begin_calls_of_ne other).trans unused'⟩

/-- Between calls every family is a chain, and nothing is held by a thread to come. -/
theorem Turns.settled (fresh : Fresh start.server) (turns : Turns start past m) :
    Chained m.server ∧ ∀ t, past.length ≤ t → ∀ k scope version,
      m.server.db.held k ≠ some ((t, scope), version) := by
  obtain ⟨c, reachable, isServer, unstarted⟩ := turns.reachable
  have reaches : service.Reaches (fun _ _ => True) (fun _ _ => True) start.server c.state :=
    ⟨c.threads, reachable⟩
  have kept := service_kept fresh reaches
  rw [← isServer]
  refine ⟨kept.chained, fun t above k scope version isHeld => ?_⟩
  exact kept.begun t scope k version isHeld (reaches.silent (unstarted t above).2)

/-- What each operation keeps, a call keeps. -/
theorem Turns.carries (fresh : Fresh start.server) (turns : Turns start past m)
    (ends : Ends (Timed past.length) m call.program result m') (P : Server → Prop)
    (stable : ∀ {t s s' op result}, Chained s → Outcome t s op result s' → Fine t s op → P s → P s')
    (holds : P m.server) : P m'.server := by
  obtain ⟨c, reachable, isServer, unstarted⟩ := turns.reachable
  obtain ⟨idle, unused⟩ := unstarted past.length le_rfl
  have run := isServer ▸ Timed.runs ends
  obtain ⟨later, after, keeps⟩ := Service.reachable_solo (fun _ _ => trivial) reachable idle unused
    trivial run
  have kept := service_kept fresh ⟨_, after⟩
  refine keeps P (fun e member before => ?_) (isServer ▸ holds)
  obtain ⟨chained, fine, outcome⟩ := kept.steady e (List.mem_append_left _ member)
  exact stable chained outcome fine before

/-- An operation with its answer, at the time of the answer. -/
def timed (t : Nat) (m : Moment) (op : Op) (a : Answer) : Option (op.Res × Moment) :=
  if m.clock ≤ a.now then
    (perform t m.server op a).map fun (result, s) => (result, ⟨a.now, s⟩)
  else none

theorem timed_sound {t : Nat} {op : Op} {a : Answer} {result : op.Res}
    (performed : timed t m op a = some (result, m')) : Timed t m op result m' := by
  simp only [timed] at performed
  split at performed
  next onward =>
    obtain ⟨⟨result', s⟩, executed, same⟩ := Option.map_eq_some_iff.mp performed
    obtain ⟨rfl, rfl⟩ := Prod.mk.inj same
    refine ⟨⟨a, executed⟩, onward, fun now told => ?_⟩
    cases op with
    | now =>
        rcases faulty_cases executed with effected | ⟨_, rfl, _⟩
        · obtain ⟨rfl, _⟩ := Prod.mk.inj (Option.some.inj effected)
          exact (Option.some.inj told).symm
        · cases told
    | _ => cases told
  next => contradiction

theorem timed_ends {t : Nat} {α : Type} {p : Prog α} {result : Except JavaError α}
    {answers : List Answer} (ran : interpret (timed t) p.run m answers = some (result, m')) :
    Ends (Timed t) m p result m' :=
  (interpret_runs ran).mono fun _ _ _ _ ⟨_, performed⟩ => timed_sound performed

/-- Calls with the answers they are given, one after the other. -/
def play : List Turn → Moment → List (Call × List Answer) → Option (List Turn × Moment)
  | past, m, [] => some (past, m)
  | past, m, (call, answers) :: rest =>
      match interpret (timed past.length) call.program.run m answers with
      | some (_, m') => play (⟨call, m, m'⟩ :: past) m' rest
      | none => none

theorem play_turns {past' : List Turn} {script : List (Call × List Answer)}
    (turns : Turns start past m) (routine : ∀ x ∈ script, x.1.Routine)
    (played : play past m script = some (past', m')) : Turns start past' m' := by
  induction script generalizing past m with
  | nil =>
      obtain ⟨rfl, rfl⟩ := Prod.mk.inj (Option.some.inj played)
      exact turns
  | cons x rest ih =>
      obtain ⟨call, answers⟩ := x
      simp only [play] at played
      split at played
      next result m₁ ran =>
        exact ih (turns.turn (routine _ List.mem_cons_self) (timed_ends ran))
          (fun x member => routine x (List.mem_cons_of_mem _ member)) played
      next => contradiction

end Auth
