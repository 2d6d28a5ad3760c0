import Mathlib.Logic.Basic
import Mathlib.Tactic.Common

/-!
Asynchronous programs as trees of awaited operations, and their uninterrupted
runs against a state.  An operation answers with a value of its own type; what
an answer may be, and what it does to the state, is a parameter.  Programs that
throw are programs under `ExceptT`.
-/

namespace Async

inductive Program (Op : Type) (Res : Op → Type) (α : Type) : Type
  | done (value : α)
  | await (op : Op) (next : Res op → Program Op Res α)

namespace Program

variable {Op : Type} {Res : Op → Type} {α β γ : Type}

def bind : Program Op Res α → (α → Program Op Res β) → Program Op Res β
  | done value, f => f value
  | await op next, f => await op fun answer => bind (next answer) f

instance : Monad (Program Op Res) where
  pure := done
  bind := bind

/-- One awaited operation. -/
def call (op : Op) : Program Op Res (Res op) :=
  await op done

end Program

section Runs

variable {Op : Type} {Res : Op → Type} {σ α β ε : Type}

/-- `exec s op answer s'`: performed in `s`, the operation may answer so and leave `s'`. -/
inductive Runs (exec : σ → (op : Op) → Res op → σ → Prop) :
    σ → Program Op Res α → α → σ → Prop
  | done {s value} : Runs exec s (.done value) value s
  | await {s s₁ s₂ op next answer value} : exec s op answer s₁ →
      Runs exec s₁ (next answer) value s₂ → Runs exec s (.await op next) value s₂

variable {exec : σ → (op : Op) → Res op → σ → Prop}

theorem runs_done {s s' : σ} {value result : α} :
    Runs exec s (Program.done value : Program Op Res α) result s' ↔ result = value ∧ s' = s := by
  constructor
  · rintro ⟨⟩
    exact ⟨rfl, rfl⟩
  · rintro ⟨rfl, rfl⟩
    exact .done

theorem runs_await {s s' : σ} {op : Op} {next : Res op → Program Op Res α} {result : α} :
    Runs exec s (.await op next) result s' ↔
      ∃ answer s₁, exec s op answer s₁ ∧ Runs exec s₁ (next answer) result s' := by
  constructor
  · intro run
    cases run with
    | await performed rest => exact ⟨_, _, performed, rest⟩
  · rintro ⟨answer, s₁, performed, rest⟩
    exact .await performed rest

theorem runs_call {s s' : σ} {op : Op} {result : Res op} :
    Runs exec s (Program.call op) result s' ↔ exec s op result s' := by
  rw [Program.call, runs_await]
  constructor
  · rintro ⟨answer, s₁, performed, rest⟩
    obtain ⟨rfl, rfl⟩ := runs_done.mp rest
    exact performed
  · exact fun performed => ⟨result, s', performed, .done⟩

/-- A run of a bind is a run of the first program, then of its continuation. -/
theorem runs_bind {s s' : σ} {p : Program Op Res α} {f : α → Program Op Res β} {result : β} :
    Runs exec s (p >>= f) result s' ↔
      ∃ value s₁, Runs exec s p value s₁ ∧ Runs exec s₁ (f value) result s' := by
  change Runs exec s (p.bind f) result s' ↔ _
  induction p generalizing s with
  | done value =>
      simp only [Program.bind]
      constructor
      · exact fun run => ⟨value, s, .done, run⟩
      · rintro ⟨value', s₁, first, rest⟩
        obtain ⟨rfl, rfl⟩ := runs_done.mp first
        exact rest
  | await op next ih =>
      simp only [Program.bind, runs_await]
      constructor
      · rintro ⟨answer, s₁, performed, rest⟩
        obtain ⟨value, s₂, first, second⟩ := ih answer |>.mp rest
        exact ⟨value, s₂, ⟨answer, s₁, performed, first⟩, second⟩
      · rintro ⟨value, s₂, ⟨answer, s₁, performed, first⟩, second⟩
        exact ⟨answer, s₁, performed, ih answer |>.mpr ⟨value, s₂, first, second⟩⟩

theorem Runs.mono {weaker : σ → (op : Op) → Res op → σ → Prop}
    (allowed : ∀ s op answer s', exec s op answer s' → weaker s op answer s')
    {s s' : σ} {p : Program Op Res α} {result : α} (run : Runs exec s p result s') :
    Runs weaker s p result s' := by
  induction run with
  | done => exact .done
  | await performed _ ih => exact .await (allowed _ _ _ _ performed) ih

/-- A run, seen through a view of its states. -/
theorem Runs.image {τ : Type} {exec' : τ → (op : Op) → Res op → τ → Prop} (view : σ → τ)
    (seen : ∀ s op answer s', exec s op answer s' → exec' (view s) op answer (view s'))
    {s s' : σ} {p : Program Op Res α} {result : α} (run : Runs exec s p result s') :
    Runs exec' (view s) p result (view s') := by
  induction run with
  | done => exact .done
  | await performed _ ih => exact .await (seen _ _ _ _ performed) ih

/-- What every operation of a run preserves, the run preserves. -/
theorem Runs.invariant {inv : σ → Prop}
    (kept : ∀ s op answer s', exec s op answer s' → inv s → inv s')
    {s s' : σ} {p : Program Op Res α} {result : α} (run : Runs exec s p result s')
    (start : inv s) : inv s' := by
  induction run with
  | done => exact start
  | await performed _ ih => exact ih (kept _ _ _ _ performed start)

end Runs

section Relabel

variable {Op Op' : Type} {Res : Op → Type} {Res' : Op' → Type} {σ α : Type}

/-- The same program by way of other operations, whose answers are read as its own. -/
def Program.relabel (by' : Op → Op') (read : (op : Op) → Res' (by' op) → Res op) :
    Program Op Res α → Program Op' Res' α
  | done value => done value
  | await op next => await (by' op) fun answer => relabel by' read (next (read op answer))

theorem Program.relabel_bind {β : Type} {by' : Op → Op'} {read : (op : Op) → Res' (by' op) → Res op}
    {p : Program Op Res α} {f : α → Program Op Res β} :
    (p >>= f).relabel by' read = p.relabel by' read >>= fun value => (f value).relabel by' read := by
  change (p.bind f).relabel by' read = (p.relabel by' read).bind fun value => (f value).relabel by' read
  induction p with
  | done value => rfl
  | await op next ih =>
      simp only [Program.bind, Program.relabel]
      exact congrArg _ (funext fun answer => ih (read op answer))

/-- It runs as the program does where an operation comes to what the other one does. -/
theorem runs_relabel {exec : σ → (op : Op') → Res' op → σ → Prop} {by' : Op → Op'}
    {read : (op : Op) → Res' (by' op) → Res op} {p : Program Op Res α} {s s' : σ} {result : α} :
    Runs exec s (p.relabel by' read) result s' ↔
      Runs (fun s op answer s' => ∃ answer', exec s (by' op) answer' s' ∧ read op answer' = answer)
        s p result s' := by
  induction p generalizing s with
  | done value => rw [Program.relabel, runs_done, runs_done]
  | await op next ih =>
      rw [Program.relabel, runs_await, runs_await]
      constructor
      · rintro ⟨answer, s₁, performed, rest⟩
        exact ⟨_, s₁, ⟨answer, performed, rfl⟩, (ih _).mp rest⟩
      · rintro ⟨_, s₁, ⟨answer, performed, rfl⟩, rest⟩
        exact ⟨answer, s₁, performed, (ih _).mpr rest⟩

end Relabel

/-- Programs that may throw. -/
abbrev Throwing (ε : Type) (Op : Type) (Res : Op → Type) :=
  ExceptT ε (Program Op Res)

section Throwing

variable {Op : Type} {Res : Op → Type} {σ α β ε : Type}
  {exec : σ → (op : Op) → Res op → σ → Prop}

/-- A run of a throwing program, up to its value or its error. -/
def Ends (exec : σ → (op : Op) → Res op → σ → Prop) (s : σ) (p : Throwing ε Op Res α)
    (result : Except ε α) (s' : σ) : Prop :=
  Runs exec s p.run result s'

theorem ends_pure {s s' : σ} {value : α} {result : Except ε α} :
    Ends exec s (pure value : Throwing ε Op Res α) result s' ↔ result = .ok value ∧ s' = s :=
  runs_done

theorem ends_throw {s s' : σ} {e : ε} {result : Except ε α} :
    Ends exec s (throw e : Throwing ε Op Res α) result s' ↔ result = .error e ∧ s' = s :=
  runs_done

theorem ends_bind {s s' : σ} {p : Throwing ε Op Res α} {f : α → Throwing ε Op Res β}
    {result : Except ε β} :
    Ends exec s (p >>= f) result s' ↔
      (∃ value s₁, Ends exec s p (.ok value) s₁ ∧ Ends exec s₁ (f value) result s') ∨
      ∃ e, Ends exec s p (.error e) s' ∧ result = .error e := by
  change Runs exec s (p.run >>= ExceptT.bindCont f) result s' ↔ _
  rw [runs_bind]
  constructor
  · rintro ⟨value | value, s₁, first, rest⟩
    · obtain ⟨rfl, rfl⟩ := runs_done.mp rest
      exact .inr ⟨value, first, rfl⟩
    · exact .inl ⟨value, s₁, first, rest⟩
  · rintro (⟨value, s₁, first, rest⟩ | ⟨e, first, rfl⟩)
    · exact ⟨.ok value, s₁, first, rest⟩
    · exact ⟨.error e, s', first, .done⟩

theorem Ends.andThen {s s₁ s' : σ} {p : Throwing ε Op Res α} {f : α → Throwing ε Op Res β}
    {value : α} {result : Except ε β} (first : Ends exec s p (.ok value) s₁)
    (rest : Ends exec s₁ (f value) result s') : Ends exec s (p >>= f) result s' :=
  ends_bind.mpr (.inl ⟨value, s₁, first, rest⟩)

theorem Ends.stop {s s' : σ} {p : Throwing ε Op Res α} {f : α → Throwing ε Op Res β}
    {e : ε} (first : Ends exec s p (.error e) s') : Ends exec s (p >>= f) (.error e) s' :=
  ends_bind.mpr (.inr ⟨e, first, rfl⟩)

theorem ends_bind_ok {s s' : σ} {p : Throwing ε Op Res α} {f : α → Throwing ε Op Res β}
    {result : β} :
    Ends exec s (p >>= f) (.ok result) s' ↔
      ∃ value s₁, Ends exec s p (.ok value) s₁ ∧ Ends exec s₁ (f value) (.ok result) s' := by
  simp [ends_bind]

theorem ends_tryCatch {s s' : σ} {p : Throwing ε Op Res α} {handler : ε → Throwing ε Op Res α}
    {result : Except ε α} :
    Ends exec s (tryCatch p handler) result s' ↔
      (∃ value, Ends exec s p (.ok value) s' ∧ result = .ok value) ∨
      ∃ e s₁, Ends exec s p (.error e) s₁ ∧ Ends exec s₁ (handler e) result s' := by
  change Runs exec s (ExceptT.tryCatch p handler) result s' ↔ _
  rw [ExceptT.tryCatch, ExceptT.mk, runs_bind]
  constructor
  · rintro ⟨value | value, s₁, first, rest⟩
    · exact .inr ⟨value, s₁, first, rest⟩
    · obtain ⟨rfl, rfl⟩ := runs_done.mp rest
      exact .inl ⟨value, first, rfl⟩
  · rintro (⟨value, first, rfl⟩ | ⟨e, s₁, first, rest⟩)
    · exact ⟨.ok value, s', first, .done⟩
    · exact ⟨.error e, s₁, first, rest⟩

/-- The step that inspects a result instead of propagating its error. -/
def settle (p : Throwing ε Op Res α) : Throwing ε Op Res (Except ε α) :=
  ExceptT.mk (Except.ok <$> p.run)

theorem ends_settle {s s' : σ} {p : Throwing ε Op Res α} {result : Except ε (Except ε α)} :
    Ends exec s (settle p) result s' ↔ ∃ value, Ends exec s p value s' ∧ result = .ok value := by
  change Runs exec s (p.run >>= fun r => pure (Except.ok r)) result s' ↔ _
  rw [runs_bind]
  constructor
  · rintro ⟨value, s₁, first, rest⟩
    obtain ⟨rfl, rfl⟩ := runs_done.mp rest
    exact ⟨value, first, rfl⟩
  · rintro ⟨value, first, rfl⟩
    exact ⟨value, s', first, .done⟩

/-- A pure computation that may throw, as a program without operations. -/
def lift (result : Except ε α) : Throwing ε Op Res α :=
  ExceptT.mk (.done result)

theorem ends_lift {s s' : σ} {value result : Except ε α} :
    Ends exec s (lift value : Throwing ε Op Res α) result s' ↔ result = value ∧ s' = s :=
  runs_done

/-- The same program by way of other operations, with its exceptions. -/
def Throwing.relabel {Op' : Type} {Res' : Op' → Type} (p : Throwing ε Op Res α) (by' : Op → Op')
    (read : (op : Op) → Res' (by' op) → Res op) : Throwing ε Op' Res' α :=
  ExceptT.mk (p.run.relabel by' read)

section Relabel

variable {Op' : Type} {Res' : Op' → Type} {by' : Op → Op'} {read : (op : Op) → Res' (by' op) → Res op}

theorem relabel_bind {p : Throwing ε Op Res α} {f : α → Throwing ε Op Res β} :
    Throwing.relabel (p >>= f) by' read =
      Throwing.relabel p by' read >>= fun value => Throwing.relabel (f value) by' read := by
  change ExceptT.mk ((p.run >>= ExceptT.bindCont f).relabel by' read) =
    ExceptT.mk (p.run.relabel by' read >>=
      ExceptT.bindCont fun value => Throwing.relabel (f value) by' read)
  rw [Program.relabel_bind]
  refine congrArg (fun rest => ExceptT.mk (p.run.relabel by' read >>= rest)) (funext fun result => ?_)
  cases result with
  | error e => rfl
  | ok value => rfl

theorem relabel_tryCatch {p : Throwing ε Op Res α} {handler : ε → Throwing ε Op Res α} :
    Throwing.relabel (tryCatch p handler) by' read =
      tryCatch (Throwing.relabel p by' read) fun e => Throwing.relabel (handler e) by' read := by
  refine Program.relabel_bind.trans ?_
  refine congrArg (fun rest => p.run.relabel by' read >>= rest) (funext fun result => ?_)
  cases result with
  | error e => rfl
  | ok value => rfl

theorem relabel_settle {p : Throwing ε Op Res α} :
    Throwing.relabel (settle p) by' read = settle (Throwing.relabel p by' read) :=
  Program.relabel_bind

end Relabel

/-- A transaction ends with its body, and leaves nothing when that throws. -/
def transactional (rollback commit : Throwing ε Op Res Unit) (body : Throwing ε Op Res α) :
    Throwing ε Op Res α := do
  let value ← tryCatch body fun e => do
    rollback
    throw e
  commit
  return value

end Throwing

section Interpreter

variable {Op : Type} {Res : Op → Type} {σ ι α : Type}

/-- Runs a program against answers given in advance; `none` when an operation cannot
be performed or the answers run out. -/
def interpret (perform : σ → (op : Op) → ι → Option (Res op × σ)) :
    Program Op Res α → σ → List ι → Option (α × σ)
  | .done value, s, _ => some (value, s)
  | .await _ _, _, [] => none
  | .await op next, s, answer :: rest =>
      match perform s op answer with
      | some (result, s₁) => interpret perform (next result) s₁ rest
      | none => none

theorem interpret_runs {perform : σ → (op : Op) → ι → Option (Res op × σ)}
    {p : Program Op Res α} {s s' : σ} {answers : List ι} {result : α}
    (ran : interpret perform p s answers = some (result, s')) :
    Runs (fun s op answer s₁ => ∃ choice, perform s op choice = some (answer, s₁))
      s p result s' := by
  induction p generalizing s answers with
  | done value =>
      simp only [interpret, Option.some.injEq, Prod.mk.injEq] at ran
      obtain ⟨rfl, rfl⟩ := ran
      exact .done
  | await op next ih =>
      cases answers with
      | nil => simp [interpret] at ran
      | cons choice rest =>
          simp only [interpret] at ran
          split at ran
          next answer s₁ performed => exact .await ⟨choice, performed⟩ (ih answer ran)
          next => contradiction

end Interpreter

end Async
