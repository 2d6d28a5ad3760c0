import CipherChat.Async.Program
import Mathlib.Logic.Function.Basic
import Mathlib.Logic.Relation

/-!
Any number of asynchronous programs over one state, switching at every awaited
operation, and the rely rule for proving an invariant of all their
interleavings: a thread is verified alone, against whatever the others are
known to leave unchanged.
-/

namespace Async

/-- Threads are started and perform their operations under the rules of a system. -/
structure System (Op : Type) (Res : Op → Type) (σ α : Type) where
  start : Nat → σ → Program Op Res α → σ → Prop
  exec : Nat → σ → (op : Op) → Res op → σ → Prop

structure Config (Op : Type) (Res : Op → Type) (σ α : Type) where
  state : σ
  threads : Nat → Option (Program Op Res α)

variable {Op : Type} {Res : Op → Type} {σ α β ε ι : Type}

namespace System

inductive Step (sys : System Op Res σ α) : Config Op Res σ α → Config Op Res σ α → Prop
  | start {c t p s} : c.threads t = none → sys.start t c.state p s →
      Step sys c ⟨s, Function.update c.threads t (some p)⟩
  | await {c t op next answer s} : c.threads t = some (.await op next) →
      sys.exec t c.state op answer s →
      Step sys c ⟨s, Function.update c.threads t (some (next answer))⟩

inductive Reachable (sys : System Op Res σ α) (init : σ) : Config Op Res σ α → Prop
  | initial : Reachable sys init ⟨init, fun _ => none⟩
  | step {c c'} : Reachable sys init c → Step sys c c' → Reachable sys init c'

end System

/-- How a system is verified: an invariant of the shared state, and what each thread relies
on between its own steps. -/
structure Discipline (Op : Type) (Res : Op → Type) (σ : Type) where
  exec : Nat → σ → (op : Op) → Res op → σ → Prop
  inv : σ → Prop
  rely : Nat → σ → σ → Prop
  refl : ∀ t s, rely t s s
  trans : ∀ t {s s₁ s₂}, rely t s s₁ → rely t s₁ s₂ → rely t s s₂

namespace Discipline

variable (D : Discipline Op Res σ)

/-- Thread `t` may run `p` from here: each operation keeps the invariant and what the
other threads rely on, and the value returned satisfies `post`. -/
def Safe (t : Nat) (post : α → σ → Prop) : Program Op Res α → σ → Prop
  | .done value, s => post value s
  | .await op next, s => ∀ s₁, D.rely t s s₁ → D.inv s₁ → ∀ answer s₂, D.exec t s₁ op answer s₂ →
      D.inv s₂ ∧ (∀ u, u ≠ t → D.rely u s₁ s₂) ∧ Safe t post (next answer) s₂

/-- From every state with `pre` the throwing program is safe, and ends with `post` of its
value or of its error. -/
def Triple (t : Nat) (pre : σ → Prop) (p : Throwing ε Op Res α) (post : Except ε α → σ → Prop) :
    Prop :=
  ∀ s, pre s → D.Safe t post p.run s

variable {D} {t : Nat} {pre : σ → Prop}

theorem Safe.mono {post weaker : α → σ → Prop} {p : Program Op Res α} {s : σ}
    (weaken : ∀ value s, post value s → weaker value s) (safe : D.Safe t post p s) :
    D.Safe t weaker p s := by
  induction p generalizing s with
  | done value => exact weaken value s safe
  | await op next ih =>
      intro s₁ relied inv answer s₂ performed
      obtain ⟨kept, others, rest⟩ := safe s₁ relied inv answer s₂ performed
      exact ⟨kept, others, ih answer rest⟩

theorem safe_bind {post : β → σ → Prop} {p : Program Op Res α} {f : α → Program Op Res β} {s : σ}
    (safe : D.Safe t (fun value s => D.Safe t post (f value) s) p s) :
    D.Safe t post (p >>= f) s := by
  change D.Safe t post (p.bind f) s
  induction p generalizing s with
  | done value => exact safe
  | await op next ih =>
      intro s₁ relied inv answer s₂ performed
      obtain ⟨kept, others, rest⟩ := safe s₁ relied inv answer s₂ performed
      exact ⟨kept, others, ih answer rest⟩

/-- One awaited operation. -/
theorem safe_call {op : Op} {post : Res op → σ → Prop}
    (stable : ∀ s s₁, pre s → D.rely t s s₁ → pre s₁)
    (step : ∀ s answer s', D.inv s → pre s → D.exec t s op answer s' →
      D.inv s' ∧ (∀ u, u ≠ t → D.rely u s s') ∧ post answer s')
    {s : σ} (start : pre s) : D.Safe t post (Program.call op) s := by
  intro s₁ relied inv answer s₂ performed
  exact step s₁ answer s₂ inv (stable s s₁ start relied) performed

theorem Triple.weaken {pre' : σ → Prop} {p : Throwing ε Op Res α}
    {post post' : Except ε α → σ → Prop} (triple : D.Triple t pre p post)
    (before : ∀ s, pre' s → pre s) (after : ∀ result s, post result s → post' result s) :
    D.Triple t pre' p post' :=
  fun s start => (triple s (before s start)).mono after

theorem triple_pure {value : α} {post : Except ε α → σ → Prop}
    (holds : ∀ s, pre s → post (.ok value) s) :
    D.Triple t pre (pure value : Throwing ε Op Res α) post :=
  holds

theorem triple_throw {e : ε} {post : Except ε α → σ → Prop}
    (holds : ∀ s, pre s → post (.error e) s) :
    D.Triple t pre (throw e : Throwing ε Op Res α) post :=
  holds

theorem triple_lift {result : Except ε α} {post : Except ε α → σ → Prop}
    (holds : ∀ s, pre s → post result s) :
    D.Triple t pre (lift result : Throwing ε Op Res α) post :=
  holds

theorem triple_bind {p : Throwing ε Op Res α} {f : α → Throwing ε Op Res β}
    {post : Except ε β → σ → Prop} (middle : Except ε α → σ → Prop)
    (first : D.Triple t pre p middle)
    (rest : ∀ value, D.Triple t (middle (.ok value)) (f value) post)
    (failed : ∀ e s, middle (.error e) s → post (.error e) s) :
    D.Triple t pre (p >>= f) post := by
  intro s start
  change D.Safe t post (p.run >>= ExceptT.bindCont f) s
  refine safe_bind ((first s start).mono fun result s' holds => ?_)
  cases result with
  | ok value => exact rest value s' holds
  | error e => exact failed e s' holds

theorem triple_tryCatch {p : Throwing ε Op Res α} {handler : ε → Throwing ε Op Res α}
    {post : Except ε α → σ → Prop} (middle : Except ε α → σ → Prop)
    (first : D.Triple t pre p middle)
    (rest : ∀ value s, middle (.ok value) s → post (.ok value) s)
    (handled : ∀ e, D.Triple t (middle (.error e)) (handler e) post) :
    D.Triple t pre (tryCatch p handler) post := by
  intro s start
  change D.Safe t post (ExceptT.tryCatch p handler) s
  rw [ExceptT.tryCatch, ExceptT.mk]
  refine safe_bind ((first s start).mono fun result s' holds => ?_)
  cases result with
  | ok value => exact rest value s' holds
  | error e => exact handled e s' holds

theorem triple_settle {p : Throwing ε Op Res α} {post : Except ε (Except ε α) → σ → Prop}
    (body : D.Triple t pre p fun result => post (.ok result)) :
    D.Triple t pre (settle p) post := by
  intro s start
  change D.Safe t post (p.run >>= fun result => pure (Except.ok result)) s
  exact safe_bind (body s start)

theorem triple_map {f : α → β} {p : Throwing ε Op Res α} {post : Except ε β → σ → Prop}
    (body : D.Triple t pre p fun result => post (result.map f)) :
    D.Triple t pre (f <$> p) post := by
  intro s start
  change D.Safe t post (ExceptT.map f p) s
  rw [ExceptT.map, ExceptT.mk]
  refine safe_bind ((body s start).mono fun result s' holds => ?_)
  cases result with
  | ok value => exact holds
  | error e => exact holds

/-- What a thread runs on its own ends as it is known to end among others. -/
theorem Safe.of_runs {post : α → σ → Prop} {p : Program Op Res α} {s s' : σ} {value : α}
    (safe : D.Safe t post p s) (inv : D.inv s) (run : Runs (D.exec t) s p value s') :
    post value s' := by
  induction run with
  | done => exact safe
  | await performed _ ih =>
      obtain ⟨kept, _, rest⟩ := safe _ (D.refl _ _) inv _ _ performed
      exact ih rest kept

/-- A thread while no other does anything. -/
def solo (exec : σ → (op : Op) → Res op → σ → Prop) (t : Nat) : Discipline Op Res σ where
  exec _ := exec
  inv _ := True
  rely u s s' := u = t → s' = s
  refl _ _ _ := rfl
  trans _ _ _ _ first second mine := (second mine).trans (first mine)

theorem solo_call {exec : σ → (op : Op) → Res op → σ → Prop} {op : Op} {post : Res op → σ → Prop}
    (step : ∀ s answer s', pre s → exec s op answer s' → post answer s') {s : σ} (start : pre s) :
    (solo exec t).Safe t post (Program.call op) s := by
  refine safe_call (fun s s₁ known relied => ?_) (fun s answer s' _ known performed => ?_) start
  · exact (relied rfl : s₁ = s) ▸ known
  · exact ⟨trivial, fun u other mine => absurd mine other, step s answer s' known performed⟩

theorem Triple.of_ends {exec : σ → (op : Op) → Res op → σ → Prop} {p : Throwing ε Op Res α}
    {post : Except ε α → σ → Prop} (triple : (solo exec t).Triple t pre p post) {s s' : σ}
    {result : Except ε α} (start : pre s) (ends : Ends exec s p result s') : post result s' :=
  (triple s start).of_runs trivial ends

/-- A fact about values alone may be taken out of the precondition. -/
theorem triple_assuming {fact : Prop} {p : Throwing ε Op Res α} {post : Except ε α → σ → Prop}
    (triple : fact → D.Triple t pre p post) : D.Triple t (fun s => fact ∧ pre s) p post :=
  fun s start => triple start.1 s start.2

end Discipline

/-- Every operation the program may perform satisfies `allowed`. -/
def Uses (allowed : Op → Prop) : Program Op Res α → Prop
  | .done _ => True
  | .await op next => allowed op ∧ ∀ answer, Uses allowed (next answer)

section Uses

variable {allowed : Op → Prop}

theorem uses_bind {p : Program Op Res α} {f : α → Program Op Res β} (first : Uses allowed p)
    (rest : ∀ value, Uses allowed (f value)) : Uses allowed (p >>= f) := by
  change Uses allowed (p.bind f)
  induction p with
  | done value => exact rest value
  | await op next ih => exact ⟨first.1, fun answer => ih answer (first.2 answer)⟩

theorem uses_any (p : Program Op Res α) : Uses (fun _ => True) p := by
  induction p with
  | done value => trivial
  | await op next ih => exact ⟨trivial, ih⟩

theorem uses_relabel {Op' : Type} {Res' : Op' → Type} {allowed : Op' → Prop} {by' : Op → Op'}
    {read : (op : Op) → Res' (by' op) → Res op} {p : Program Op Res α}
    (uses : Uses (fun op => allowed (by' op)) p) : Uses allowed (p.relabel by' read) := by
  induction p with
  | done value => trivial
  | await op next ih => exact ⟨uses.1, fun answer => ih _ (uses.2 _)⟩

theorem uses_call {op : Op} (fine : allowed op) :
    Uses allowed (Program.call op : Program Op Res (Res op)) :=
  ⟨fine, fun _ => trivial⟩

theorem uses_throwing_bind {p : Throwing ε Op Res α} {f : α → Throwing ε Op Res β}
    (first : Uses allowed p.run) (rest : ∀ value, Uses allowed (f value).run) :
    Uses allowed (p >>= f).run := by
  change Uses allowed (p.run >>= ExceptT.bindCont f)
  apply uses_bind first
  rintro (e | value)
  · trivial
  · exact rest value

theorem uses_lift {result : Except ε α} :
    Uses allowed (lift result : Throwing ε Op Res α).run := by
  trivial

theorem uses_throwing_pure {value : α} :
    Uses allowed (pure value : Throwing ε Op Res α).run := by
  trivial

theorem uses_throw {e : ε} : Uses allowed (throw e : Throwing ε Op Res α).run := by
  trivial

theorem uses_throwing_map {p : Throwing ε Op Res α} {f : α → β} (body : Uses allowed p.run) :
    Uses allowed (f <$> p).run := by
  change Uses allowed (ExceptT.map f p)
  rw [ExceptT.map, ExceptT.mk]
  apply uses_bind body
  intro result
  cases result with
  | error e => trivial
  | ok value => trivial

theorem uses_tryCatch {p : Throwing ε Op Res α} {handler : ε → Throwing ε Op Res α}
    (first : Uses allowed p.run) (rest : ∀ e, Uses allowed (handler e).run) :
    Uses allowed (tryCatch p handler : Throwing ε Op Res α).run := by
  change Uses allowed (ExceptT.tryCatch p handler)
  rw [ExceptT.tryCatch, ExceptT.mk]
  apply uses_bind first
  intro result
  cases result with
  | error e => exact rest e
  | ok value => trivial

theorem uses_settle {p : Throwing ε Op Res α} (body : Uses allowed p.run) :
    Uses allowed (settle p).run := by
  change Uses allowed (p.run >>= fun result => pure (Except.ok result))
  exact uses_bind body fun _ => trivial

theorem Uses.mono {weaker : Op → Prop} (weaken : ∀ op, allowed op → weaker op)
    {p : Program Op Res α} (uses : Uses allowed p) : Uses weaker p := by
  induction p with
  | done value => trivial
  | await op next ih => exact ⟨weaken op uses.1, fun answer => ih answer (uses.2 answer)⟩

theorem Runs.invariant_of_uses {exec : σ → (op : Op) → Res op → σ → Prop} {inv : σ → Prop}
    (kept : ∀ s op answer s', allowed op → exec s op answer s' → inv s → inv s')
    {s s' : σ} {p : Program Op Res α} {result : α} (uses : Uses allowed p)
    (run : Runs exec s p result s') (start : inv s) : inv s' := by
  induction run with
  | done => exact start
  | await performed _ ih => exact ih (uses.2 _) (kept _ _ _ _ uses.1 performed start)

/-- A program of harmless operations keeps what its thread has established. -/
theorem Discipline.triple_uses {D : Discipline Op Res σ} {t : Nat} {held : σ → Prop}
    (stable : ∀ s s₁, held s → D.rely t s s₁ → held s₁)
    (harmless : ∀ op, allowed op → ∀ s answer s', D.inv s → held s → D.exec t s op answer s' →
      D.inv s' ∧ (∀ u, u ≠ t → D.rely u s s') ∧ held s')
    {p : Throwing ε Op Res α} (uses : Uses allowed p.run) :
    D.Triple t held p fun _ => held := by
  intro s start
  generalize p.run = program at uses
  induction program generalizing s with
  | done value => exact start
  | await op next ih =>
      intro s₁ relied inv answer s₂ performed
      obtain ⟨kept, others, holds⟩ := harmless op uses.1 s₁ answer s₂ inv
        (stable s s₁ start relied) performed
      exact ⟨kept, others, ih answer s₂ holds (uses.2 answer)⟩

end Uses

namespace System

variable {sys : System Op Res σ α}

/-- The rely rule: when every thread is safe from its start, the invariant holds of
every reachable configuration and every thread in it is still safe. -/
theorem Reachable.safe {D : Discipline Op Res σ} {post : Nat → α → σ → Prop} {init : σ}
    (exec : D.exec = sys.exec) (initial : D.inv init)
    (starts : ∀ t s p s₁, D.inv s → sys.start t s p s₁ →
      D.inv s₁ ∧ (∀ u, u ≠ t → D.rely u s s₁) ∧ D.Safe t (post t) p s₁)
    {c : Config Op Res σ α} (reachable : sys.Reachable init c) :
    D.inv c.state ∧ ∀ t p, c.threads t = some p →
      ∃ s₀, D.rely t s₀ c.state ∧ D.Safe t (post t) p s₀ := by
  induction reachable with
  | initial => exact ⟨initial, fun t p running => by simp at running⟩
  | @step c c' _ step ih =>
      obtain ⟨inv, safe⟩ := ih
      cases step with
      | @start t p s idle started =>
          obtain ⟨kept, others, ready⟩ := starts t c.state p s inv started
          refine ⟨kept, fun u q running => ?_⟩
          by_cases same : u = t
          · subst u
            simp only [Function.update_self, Option.some.injEq] at running
            subst running
            exact ⟨s, D.refl _ _, ready⟩
          · simp only [Function.update_of_ne same] at running
            obtain ⟨s₀, relied, before⟩ := safe u q running
            exact ⟨s₀, D.trans u relied (others u same), before⟩
      | @await t op next answer s waiting performed =>
          obtain ⟨s₀, relied, before⟩ := safe t _ waiting
          obtain ⟨kept, others, ready⟩ :=
            before c.state relied inv answer s (by rw [exec]; exact performed)
          refine ⟨kept, fun u q running => ?_⟩
          by_cases same : u = t
          · subst u
            simp only [Function.update_self, Option.some.injEq] at running
            subst running
            exact ⟨s, D.refl _ _, ready⟩
          · simp only [Function.update_of_ne same] at running
            obtain ⟨s₁, relied', before'⟩ := safe u q running
            exact ⟨s₁, D.trans u relied' (others u same), before'⟩

end System

section Keeps

/-- Nothing is relied on between steps: what a thread knows must hold of values alone. -/
def Discipline.free (exec : Nat → σ → (op : Op) → Res op → σ → Prop) (inv : σ → Prop) :
    Discipline Op Res σ where
  exec := exec
  inv := inv
  rely _ _ _ := True
  refl _ _ := trivial
  trans _ _ _ _ _ _ := trivial

/-- Whatever runs beside it, the program keeps the invariant and ends in a result with `post`. -/
def Keeps (exec : Nat → σ → (op : Op) → Res op → σ → Prop) (inv : σ → Prop) (t : Nat)
    (p : Throwing ε Op Res α) (post : Except ε α → Prop) : Prop :=
  (Discipline.free exec inv).Triple t (fun _ => True) p fun result _ => post result

variable {exec : Nat → σ → (op : Op) → Res op → σ → Prop} {inv : σ → Prop} {t : Nat}

theorem keeps_pure {value : α} {post : Except ε α → Prop} (holds : post (.ok value)) :
    Keeps exec inv t (pure value : Throwing ε Op Res α) post :=
  Discipline.triple_pure fun _ _ => holds

theorem keeps_throw {e : ε} {post : Except ε α → Prop} (holds : post (.error e)) :
    Keeps exec inv t (throw e : Throwing ε Op Res α) post :=
  Discipline.triple_throw fun _ _ => holds

theorem keeps_lift {result : Except ε α} {post : Except ε α → Prop} (holds : post result) :
    Keeps exec inv t (lift result : Throwing ε Op Res α) post :=
  Discipline.triple_lift fun _ _ => holds

theorem Keeps.mono {p : Throwing ε Op Res α} {post weaker : Except ε α → Prop}
    (keeps : Keeps exec inv t p post) (weaken : ∀ result, post result → weaker result) :
    Keeps exec inv t p weaker :=
  Discipline.Triple.weaken keeps (fun _ => id) fun result _ => weaken result

theorem keeps_bind {p : Throwing ε Op Res α} {f : α → Throwing ε Op Res β}
    {post : Except ε β → Prop} (middle : Except ε α → Prop) (first : Keeps exec inv t p middle)
    (rest : ∀ value, middle (.ok value) → Keeps exec inv t (f value) post)
    (failed : ∀ e, middle (.error e) → post (.error e)) : Keeps exec inv t (p >>= f) post :=
  Discipline.triple_bind (fun result _ => middle result) first
    (fun value s holds => rest value holds s trivial) fun e _ => failed e

theorem keeps_tryCatch {p : Throwing ε Op Res α} {handler : ε → Throwing ε Op Res α}
    {post : Except ε α → Prop} (middle : Except ε α → Prop) (first : Keeps exec inv t p middle)
    (rest : ∀ value, middle (.ok value) → post (.ok value))
    (handled : ∀ e, middle (.error e) → Keeps exec inv t (handler e) post) :
    Keeps exec inv t (tryCatch p handler) post :=
  Discipline.triple_tryCatch (fun result _ => middle result) first
    (fun value _ => rest value) fun e s holds => handled e holds s trivial

theorem keeps_settle {p : Throwing ε Op Res α} {post : Except ε (Except ε α) → Prop}
    (body : Keeps exec inv t p fun result => post (.ok result)) :
    Keeps exec inv t (settle p) post :=
  Discipline.triple_settle body

theorem keeps_call {op : Op} {post : Res op → Prop}
    (step : ∀ s answer s', inv s → exec t s op answer s' → inv s' ∧ post answer) (s : σ) :
    (Discipline.free exec inv).Safe t (fun answer _ => post answer) (Program.call op) s := by
  intro s₁ _ holds answer s₂ performed
  obtain ⟨kept, after⟩ := step s₁ answer s₂ holds performed
  exact ⟨kept, fun _ _ => trivial, after⟩

theorem keeps_uses {allowed : Op → Prop}
    (harmless : ∀ op, allowed op → ∀ s answer s', inv s → exec t s op answer s' → inv s')
    {p : Throwing ε Op Res α} (uses : Uses allowed p.run) :
    Keeps exec inv t p fun _ => True := by
  refine Discipline.triple_uses (fun _ _ _ _ => trivial) ?_ uses
  intro op fine s answer s' holds _ performed
  exact ⟨harmless op fine s answer s' holds performed, fun _ _ => trivial, trivial⟩

theorem System.Reachable.keeps {sys : System Op Res σ α} {init : σ} {post : α → Prop}
    (initial : inv init)
    (starts : ∀ t s p s', inv s → sys.start t s p s' → inv s' ∧
      (Discipline.free sys.exec inv).Safe t (fun value _ => post value) p s')
    {c : Config Op Res σ α} (reachable : sys.Reachable init c) :
    inv c.state ∧ ∀ t value, c.threads t = some (.done value) → post value := by
  have ready : ∀ t s p s', (Discipline.free sys.exec inv).inv s → sys.start t s p s' →
      (Discipline.free sys.exec inv).inv s' ∧
        (∀ u, u ≠ t → (Discipline.free sys.exec inv).rely u s s') ∧
        (Discipline.free sys.exec inv).Safe t (fun value _ => post value) p s' := by
    intro t s p s' holds started
    obtain ⟨kept, safe⟩ := starts t s p s' holds started
    exact ⟨kept, fun _ _ => trivial, safe⟩
  obtain ⟨kept, safe⟩ := reachable.safe rfl
    (show (Discipline.free sys.exec inv).inv init from initial) ready
  refine ⟨kept, fun t value finished => ?_⟩
  obtain ⟨_, _, holds⟩ := safe t _ finished
  exact holds

end Keeps

/-- A system whose steps are steps of another while an invariant of its own holds. -/
theorem System.Reachable.within {sys weaker : System Op Res σ α} {init : σ} (inv : σ → Prop)
    (initial : inv init)
    (starts : ∀ t s p s', inv s → sys.start t s p s' → weaker.start t s p s' ∧ inv s')
    (performs : ∀ t s op answer s', inv s → sys.exec t s op answer s' →
      weaker.exec t s op answer s' ∧ inv s')
    {c : Config Op Res σ α} (reachable : sys.Reachable init c) :
    weaker.Reachable init c ∧ inv c.state := by
  induction reachable with
  | initial => exact ⟨.initial, initial⟩
  | step _ step ih =>
      obtain ⟨reachable, holds⟩ := ih
      cases step with
      | start idle started =>
          obtain ⟨started, after⟩ := starts _ _ _ _ holds started
          exact ⟨reachable.step (.start idle started), after⟩
      | await waiting performed =>
          obtain ⟨performed, after⟩ := performs _ _ _ _ _ holds performed
          exact ⟨reachable.step (.await waiting performed), after⟩

theorem System.Reachable.mono {sys weaker : System Op Res σ α} {init : σ}
    (starts : ∀ t s p s', sys.start t s p s' → weaker.start t s p s')
    (performs : ∀ t s op answer s', sys.exec t s op answer s' → weaker.exec t s op answer s')
    {c : Config Op Res σ α} (reachable : sys.Reachable init c) : weaker.Reachable init c :=
  (reachable.within (fun _ => True) trivial
    (fun _ _ _ _ _ started => ⟨starts _ _ _ _ started, trivial⟩)
    (fun _ _ _ _ _ _ performed => ⟨performs _ _ _ _ _ performed, trivial⟩)).1

/-- A thread may run to its end with no switch in between. -/
theorem System.Reachable.solo {sys : System Op Res σ α} {init : σ} {c : Config Op Res σ α}
    {t : Nat} {p : Program Op Res α} {s s' : σ} {value : α} (reachable : sys.Reachable init c)
    (idle : c.threads t = none) (started : sys.start t c.state p s)
    (run : Runs (sys.exec t) s p value s') :
    sys.Reachable init ⟨s', Function.update c.threads t (some (.done value))⟩ := by
  have begun := reachable.step (.start idle started)
  clear started reachable
  generalize threads : c.threads = others at begun idle
  clear threads idle
  induction run with
  | done => exact begun
  | @await s s₁ s₂ op next answer value performed _ ih =>
      have stepped := begun.step (.await (Function.update_self t _ others) performed)
      simp only [Function.update_idem] at stepped
      exact ih stepped

/-- A way of choosing the steps of a system: the calls to start and the answers to give. -/
structure Schedule (Op : Type) (Res : Op → Type) (σ α κ ι : Type) where
  start : Nat → σ → κ → Option (Program Op Res α × σ)
  perform : Nat → σ → (op : Op) → ι → Option (Res op × σ)

/-- Thread `t` starts a call, or performs its next operation. -/
inductive Move (κ ι : Type)
  | start (t : Nat) (call : κ)
  | await (t : Nat) (choice : ι)

namespace Schedule

variable {κ : Type}

def advance (schedule : Schedule Op Res σ α κ ι) (c : Config Op Res σ α) :
    Move κ ι → Option (Config Op Res σ α)
  | .start t call =>
      match c.threads t, schedule.start t c.state call with
      | none, some (p, s) => some ⟨s, Function.update c.threads t (some p)⟩
      | _, _ => none
  | .await t choice =>
      match c.threads t with
      | some (.await op next) =>
          match schedule.perform t c.state op choice with
          | some (answer, s) => some ⟨s, Function.update c.threads t (some (next answer))⟩
          | none => none
      | _ => none

def follow (schedule : Schedule Op Res σ α κ ι) :
    Config Op Res σ α → List (Move κ ι) → Option (Config Op Res σ α)
  | c, [] => some c
  | c, move :: rest =>
      match schedule.advance c move with
      | some c' => schedule.follow c' rest
      | none => none

/-- The steps chosen are steps of the system, while an invariant of the schedule holds. -/
structure Sound (schedule : Schedule Op Res σ α κ ι) (sys : System Op Res σ α)
    (inv : σ → Prop) : Prop where
  start : ∀ t s call p s', inv s → schedule.start t s call = some (p, s') →
    sys.start t s p s' ∧ inv s'
  perform : ∀ t s op choice answer s', inv s → schedule.perform t s op choice = some (answer, s') →
    sys.exec t s op answer s' ∧ inv s'

variable {schedule : Schedule Op Res σ α κ ι} {sys : System Op Res σ α} {inv : σ → Prop}

theorem Sound.advance (sound : schedule.Sound sys inv) {c c' : Config Op Res σ α}
    {move : Move κ ι} (holds : inv c.state) (advanced : schedule.advance c move = some c') :
    sys.Step c c' ∧ inv c'.state := by
  cases move with
  | start t call =>
      simp only [Schedule.advance] at advanced
      split at advanced
      next p s idle started =>
        obtain ⟨step, after⟩ := sound.start _ _ _ _ _ holds started
        obtain rfl := Option.some.inj advanced
        exact ⟨.start idle step, after⟩
      next => contradiction
  | await t choice =>
      simp only [Schedule.advance] at advanced
      split at advanced
      next op next waiting =>
        split at advanced
        next answer s performed =>
          obtain ⟨step, after⟩ := sound.perform _ _ _ _ _ _ holds performed
          obtain rfl := Option.some.inj advanced
          exact ⟨.await waiting step, after⟩
        next => contradiction
      next => contradiction

theorem Sound.follow (sound : schedule.Sound sys inv) {init : σ} {c c' : Config Op Res σ α}
    (reachable : sys.Reachable init c) (holds : inv c.state) {moves : List (Move κ ι)}
    (followed : schedule.follow c moves = some c') :
    sys.Reachable init c' ∧ inv c'.state := by
  induction moves generalizing c with
  | nil =>
      obtain rfl := Option.some.inj followed
      exact ⟨reachable, holds⟩
  | cons move rest ih =>
      simp only [Schedule.follow] at followed
      split at followed
      next c₁ advanced =>
        obtain ⟨step, after⟩ := sound.advance holds advanced
        exact ih (reachable.step step) after followed
      next => contradiction

theorem Sound.steps (sound : schedule.Sound sys inv) {c c' : Config Op Res σ α}
    (holds : inv c.state) {moves : List (Move κ ι)} (followed : schedule.follow c moves = some c') :
    Relation.ReflTransGen sys.Step c c' := by
  induction moves generalizing c with
  | nil =>
      obtain rfl := Option.some.inj followed
      exact .refl
  | cons move rest ih =>
      simp only [Schedule.follow] at followed
      split at followed
      next c₁ advanced =>
        obtain ⟨step, after⟩ := sound.advance holds advanced
        exact .head step (ih after followed)
      next => contradiction

end Schedule

end Async
