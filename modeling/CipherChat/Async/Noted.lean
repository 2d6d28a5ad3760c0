import CipherChat.Async.Program

/-!
Programs that leave notes between their operations.  Erasing the notes gives a plain
program, and the two run alike.
-/

namespace Async

inductive Noted (Op event : Type) : Type
  | own (o : Op)
  | note (e : event)

variable {Op : Type} {Res : Op → Type} {event σ α β ε : Type}

def Noted.Answer (Res : Op → Type) : Noted Op event → Type
  | .own o => Res o
  | .note _ => Unit

abbrev Noting (event : Type) (Res : Op → Type) (α : Type) :=
  Program (Noted Op event) (Noted.Answer Res) α

/-- A program that leaves no notes. -/
def Program.silent (p : Program Op Res α) : Noting event Res α :=
  p.relabel .own fun _ answer => answer

def Program.erase : Noting event Res α → Program Op Res α
  | done value => done value
  | await (.own o) next => await o fun answer => erase (next answer)
  | await (.note _) next => erase (next ())

theorem erase_bind (p : Noting event Res α) (f : α → Noting event Res β) :
    Program.erase (p >>= f) = p.erase >>= fun value => (f value).erase := by
  change Program.erase (p.bind f) = p.erase.bind fun value => (f value).erase
  induction p with
  | done value => rfl
  | await op next ih =>
      cases op with
      | own o => exact congrArg (Program.await o) (funext ih)
      | note e => exact ih ()

theorem erase_silent (p : Program Op Res α) : (p.silent : Noting event Res α).erase = p := by
  induction p with
  | done value => rfl
  | await op next ih => exact congrArg (Program.await op) (funext ih)

/-- The operations as they are, and a log of the notes. -/
def Logging (exec : σ → (op : Op) → Res op → σ → Prop) :
    σ × List event → (op : Noted Op event) → Noted.Answer Res op → σ × List event → Prop
  | s, .own o, answer, s' => exec s.1 o answer s'.1 ∧ s'.2 = s.2
  | s, .note e, _, s' => s' = (s.1, s.2 ++ [e])

variable {exec : σ → (op : Op) → Res op → σ → Prop}

/-- Without its notes a program runs as it does with them. -/
theorem runs_erase {p : Noting event Res α} {s s' : σ} {log : List event} {result : α} :
    Runs exec s p.erase result s' ↔
      ∃ log', Runs (Logging exec) (s, log) p result (s', log') := by
  induction p generalizing s log with
  | done value => simp [Program.erase, runs_done]
  | await op next ih =>
      cases op with
      | own o =>
          simp only [Program.erase, runs_await, Prod.exists, Logging]
          constructor
          · rintro ⟨answer, s₁, performed, rest⟩
            obtain ⟨log', ran⟩ := (ih answer).mp rest
            exact ⟨log', answer, s₁, log, ⟨performed, rfl⟩, ran⟩
          · rintro ⟨log', answer, s₁, _, ⟨performed, rfl⟩, ran⟩
            exact ⟨answer, s₁, performed, (ih answer).mpr ⟨log', ran⟩⟩
      | note e =>
          simp only [Program.erase, runs_await, Prod.exists, Logging, Prod.mk.injEq]
          constructor
          · intro ran
            obtain ⟨log', ran⟩ := (ih ()).mp ran
            exact ⟨log', (), s, log ++ [e], ⟨rfl, rfl⟩, ran⟩
          · rintro ⟨log', _, _, _, ⟨rfl, rfl⟩, ran⟩
            exact (ih ()).mpr ⟨log', ran⟩

theorem runs_silent {p : Program Op Res α} {s s' : σ × List event} {result : α} :
    Runs (Logging exec) s p.silent result s' ↔ Runs exec s.1 p result s'.1 ∧ s'.2 = s.2 := by
  induction p generalizing s with
  | done value =>
      simp only [Program.silent, Program.relabel, runs_done, Prod.ext_iff, and_assoc]
  | await op next ih =>
      simp only [Program.silent, Program.relabel, runs_await, Prod.exists, Logging] at ih ⊢
      constructor
      · rintro ⟨answer, s₁, log₁, ⟨performed, same⟩, rest⟩
        obtain ⟨ran, kept⟩ := (ih answer).mp rest
        exact ⟨⟨answer, s₁, performed, ran⟩, kept.trans same⟩
      · rintro ⟨⟨answer, s₁, performed, ran⟩, kept⟩
        exact ⟨answer, s₁, s.2, ⟨performed, rfl⟩, (ih answer).mpr ⟨ran, kept⟩⟩

section Throwing

abbrev NotingThrowing (ε event : Type) (Res : Op → Type) (α : Type) :=
  Throwing ε (Noted Op event) (Noted.Answer Res) α

def Throwing.silent (p : Throwing ε Op Res α) : NotingThrowing ε event Res α :=
  ExceptT.mk (Program.silent p.run)

def Throwing.erase (p : NotingThrowing ε event Res α) : Throwing ε Op Res α :=
  ExceptT.mk (Program.erase p.run)

def note (e : event) : NotingThrowing ε event Res Unit :=
  ExceptT.mk (.await (.note e) fun _ => .done (.ok ()))

@[simp] theorem erase_throwing_silent (p : Throwing ε Op Res α) :
    (p.silent : NotingThrowing ε event Res α).erase = p :=
  erase_silent p.run

theorem erase_throwing_bind (p : NotingThrowing ε event Res α)
    (f : α → NotingThrowing ε event Res β) :
    Throwing.erase (p >>= f) = p.erase >>= fun value => (f value).erase := by
  change ExceptT.mk (Program.erase (p.run >>= ExceptT.bindCont f)) =
    ExceptT.mk (Program.erase p.run >>= ExceptT.bindCont fun value => Throwing.erase (f value))
  rw [erase_bind]
  refine congrArg (fun rest => ExceptT.mk (Program.erase p.run >>= rest)) (funext fun result => ?_)
  cases result with
  | error e => rfl
  | ok value => rfl

theorem erase_tryCatch (p : NotingThrowing ε event Res α)
    (handler : ε → NotingThrowing ε event Res α) :
    Throwing.erase (tryCatch p handler) =
      tryCatch (Throwing.erase p) fun e => Throwing.erase (handler e) := by
  refine (erase_bind _ _).trans ?_
  refine congrArg (fun rest => Program.erase p.run >>= rest) (funext fun result => ?_)
  cases result with
  | error e => rfl
  | ok value => rfl

theorem ends_erase {p : NotingThrowing ε event Res α} {s s' : σ} {result : Except ε α}
    (log : List event) :
    Ends exec s p.erase result s' ↔
      ∃ log', Ends (Logging exec) (s, log) p result (s', log') :=
  runs_erase

theorem ends_silent {p : Throwing ε Op Res α} {s s' : σ × List event} {result : Except ε α} :
    Ends (Logging exec) s p.silent result s' ↔ Ends exec s.1 p result s'.1 ∧ s'.2 = s.2 :=
  runs_silent

theorem ends_note {e : event} {s s' : σ × List event} {result : Except ε Unit} :
    Ends (Logging exec) s (note e : NotingThrowing ε event Res Unit) result s' ↔
      result = .ok () ∧ s' = (s.1, s.2 ++ [e]) := by
  change Runs _ _ (.await _ _) _ _ ↔ _
  simp only [runs_await, runs_done, Logging]
  constructor
  · rintro ⟨_, _, rfl, rfl, rfl⟩
    exact ⟨rfl, rfl⟩
  · rintro ⟨rfl, rfl⟩
    exact ⟨(), _, rfl, rfl, rfl⟩

end Throwing

end Async
