import CipherChat.Async.Journal

/-!
Contracts of a service: an invariant of the journal that every justified operation keeps, and
what a thread may rely on while the others perform justified ones.  A call keeps the contract
when its program justifies each operation it performs.
-/

namespace Async

variable {Op : Type} {Res : Op → Type} {σ κ ε α β γ : Type}

structure Contract (S : Service Op Res σ κ α)
    (permits : Journal Op Res σ κ → Entry Op Res σ κ → Prop) where
  inv : Journal Op Res σ κ → Prop
  rely : Nat → Journal Op Res σ κ → Journal Op Res σ κ → Prop
  justified : Nat → Journal Op Res σ κ → Op → Prop
  refl : ∀ t j, rely t j j
  trans : ∀ t {j j₁ j₂}, rely t j j₁ → rely t j₁ j₂ → rely t j j₂
  kept : ∀ j e, inv j → j.Performs S permits e → justified e.thread j e.op → inv (j.record e)
  others : ∀ j e t, inv j → j.Performs S permits e → justified e.thread j e.op → t ≠ e.thread →
    rely t j (j.record e)

namespace Contract

variable {S : Service Op Res σ κ α} {permits : Journal Op Res σ κ → Entry Op Res σ κ → Prop}
  (C : Contract S permits)

def discipline : Discipline Op Res (Journal Op Res σ κ) where
  exec := (S.journaled (fun _ _ => True) permits).exec
  inv j := C.inv j ∧ ∀ t, j.calls t = none → j.log t = []
  rely t j j' := C.rely t j j' ∧ ∀ call, j.calls t = some call → j'.calls t = some call
  refl t j := ⟨C.refl t j, fun _ => id⟩
  trans t _ _ _ first second :=
    ⟨C.trans t first.1 second.1, fun call running => second.2 call (first.2 call running)⟩

variable (t : Nat) (call : κ)

/-- Thread `t`, running `call`, justifies what the program does from where `pre` holds, and
ends with `post` of its result. -/
def Guides (pre : Journal Op Res σ κ → Prop) (p : Throwing ε Op Res β)
    (post : Except ε β → Journal Op Res σ κ → Prop) : Prop :=
  C.discipline.Triple t (fun j => j.calls t = some call ∧ pre j) p
    fun result j => j.calls t = some call ∧ post result j

def Stable (pre : Journal Op Res σ κ → Prop) : Prop :=
  ∀ j j', C.rely t j j' → pre j → pre j'

variable {C t call} {pre : Journal Op Res σ κ → Prop}

theorem Guides.weaken {pre' : Journal Op Res σ κ → Prop} {p : Throwing ε Op Res β}
    {post post' : Except ε β → Journal Op Res σ κ → Prop} (guides : C.Guides t call pre p post)
    (before : ∀ j, pre' j → pre j) (after : ∀ result j, post result j → post' result j) :
    C.Guides t call pre' p post' :=
  Discipline.Triple.weaken guides (fun _ start => ⟨start.1, before _ start.2⟩)
    fun result _ ends => ⟨ends.1, after result _ ends.2⟩

theorem guides_pure {value : β} {post : Except ε β → Journal Op Res σ κ → Prop}
    (holds : ∀ j, pre j → post (.ok value) j) : C.Guides t call pre (pure value) post :=
  Discipline.triple_pure fun _ start => ⟨start.1, holds _ start.2⟩

theorem guides_throw {e : ε} {post : Except ε β → Journal Op Res σ κ → Prop}
    (holds : ∀ j, pre j → post (.error e) j) : C.Guides t call pre (throw e) post :=
  Discipline.triple_throw fun _ start => ⟨start.1, holds _ start.2⟩

theorem guides_bind {p : Throwing ε Op Res β} {f : β → Throwing ε Op Res γ}
    {post : Except ε γ → Journal Op Res σ κ → Prop}
    (middle : Except ε β → Journal Op Res σ κ → Prop) (first : C.Guides t call pre p middle)
    (rest : ∀ value, C.Guides t call (middle (.ok value)) (f value) post)
    (failed : ∀ e j, middle (.error e) j → post (.error e) j) :
    C.Guides t call pre (p >>= f) post :=
  Discipline.triple_bind _ first rest fun e _ ends => ⟨ends.1, failed e _ ends.2⟩

theorem guides_tryCatch {p : Throwing ε Op Res β} {handler : ε → Throwing ε Op Res β}
    {post : Except ε β → Journal Op Res σ κ → Prop}
    (middle : Except ε β → Journal Op Res σ κ → Prop) (first : C.Guides t call pre p middle)
    (rest : ∀ value j, middle (.ok value) j → post (.ok value) j)
    (handled : ∀ e, C.Guides t call (middle (.error e)) (handler e) post) :
    C.Guides t call pre (tryCatch p handler) post :=
  Discipline.triple_tryCatch _ first (fun value _ ends => ⟨ends.1, rest value _ ends.2⟩) handled

theorem guides_settle {p : Throwing ε Op Res β}
    {post : Except ε (Except ε β) → Journal Op Res σ κ → Prop}
    (body : C.Guides t call pre p fun result => post (.ok result)) :
    C.Guides t call pre (settle p) post :=
  Discipline.triple_settle body

/-- A fact about values alone may be taken out of the precondition. -/
theorem guides_assuming {fact : Prop} {p : Throwing ε Op Res β}
    {post : Except ε β → Journal Op Res σ κ → Prop} (guides : fact → C.Guides t call pre p post) :
    C.Guides t call (fun j => fact ∧ pre j) p post :=
  fun j start => guides start.2.1 j ⟨start.1, start.2.2⟩

/-- One operation: it is justified, and what is known of its answer. -/
theorem safe_step {op : Op} {post : Res op → Journal Op Res σ κ → Prop}
    (stable : C.Stable t pre)
    (step : ∀ j, C.inv j → j.calls t = some call → pre j → C.justified t j op ∧
      ∀ result s', j.Performs S permits ⟨t, call, op, result, j.state, s'⟩ →
        post result (j.record ⟨t, call, op, result, j.state, s'⟩))
    {j : Journal Op Res σ κ} (start : j.calls t = some call ∧ pre j) :
    C.discipline.Safe t (fun result j => j.calls t = some call ∧ post result j)
      (Program.call op) j := by
  have stays : ∀ j j', (j.calls t = some call ∧ pre j) → C.discipline.rely t j j' →
      j'.calls t = some call ∧ pre j' :=
    fun j j' known relied => ⟨relied.2 call known.1, stable j j' relied.1 known.2⟩
  refine Discipline.safe_call stays ?_ start
  rintro j result j' ⟨holds, quiet⟩ ⟨running, known⟩ ⟨e, rfl, isOp, performs, rfl⟩
  obtain ⟨justified, after⟩ := step j holds running known
  obtain ⟨u, call', op', result', before, s'⟩ := e
  obtain ⟨rfl, same⟩ := Sigma.mk.inj isOp
  obtain rfl := eq_of_heq same
  obtain rfl : before = j.state := performs.before
  obtain rfl : call = call' := Option.some.inj (running.symm.trans performs.running)
  refine ⟨⟨C.kept j _ holds performs justified, fun v idle => ?_⟩,
    fun v other => ⟨C.others j _ v holds performs justified other, fun _ => id⟩, running,
    after _ s' performs⟩
  have other : u ≠ v := by
    rintro rfl
    rw [Journal.record_calls, running] at idle
    cases idle
  rw [Journal.record_log_of_ne other]
  exact quiet v idle

/-- Operations that are always justified and keep what is known. -/
theorem guides_uses {allowed : Op → Prop} (stable : C.Stable t pre)
    (harmless : ∀ op, allowed op → ∀ j, C.inv j → j.calls t = some call → pre j →
      C.justified t j op ∧ ∀ result s', j.Performs S permits ⟨t, call, op, result, j.state, s'⟩ →
        pre (j.record ⟨t, call, op, result, j.state, s'⟩))
    {p : Throwing ε Op Res β} (uses : Uses allowed p.run) :
    C.Guides t call pre p fun _ => pre := by
  intro j start
  change C.discipline.Safe t (fun _ j => j.calls t = some call ∧ pre j) p.run j
  generalize p.run = program at uses
  induction program generalizing j with
  | done value => exact start
  | await op next ih =>
      have first : C.discipline.Safe t (fun _ j => j.calls t = some call ∧ pre j)
          (Program.call op) j :=
        safe_step stable (fun j holds running known => harmless op uses.1 j holds running known) start
      exact Discipline.safe_bind (first.mono fun result j' known => ih result j' known (uses.2 result))

section Yields

/-- What is known when no exception was thrown. -/
def Passing (post : β → Journal Op Res σ κ → Prop) : Except ε β → Journal Op Res σ κ → Prop
  | .ok value, j => post value j
  | .error _, _ => True

variable (C t call) in
/-- A part of a call, from what is known before it to what is known unless it throws. -/
def Yields (pre : Journal Op Res σ κ → Prop) (p : Throwing ε Op Res β)
    (post : β → Journal Op Res σ κ → Prop) : Prop :=
  C.Guides t call pre p (Passing post)

theorem yields_bind {p : Throwing ε Op Res β} {f : β → Throwing ε Op Res γ}
    {post : γ → Journal Op Res σ κ → Prop} (middle : β → Journal Op Res σ κ → Prop)
    (first : C.Yields t call pre p middle)
    (rest : ∀ value, C.Yields t call (middle value) (f value) post) :
    C.Yields t call pre (p >>= f) post :=
  guides_bind _ first rest fun _ _ _ => trivial

theorem yields_pure {value : β} {post : β → Journal Op Res σ κ → Prop}
    (holds : ∀ j, pre j → post value j) :
    C.Yields t call pre (pure value : Throwing ε Op Res β) post :=
  guides_pure holds

theorem yields_throw {e : ε} {post : β → Journal Op Res σ κ → Prop} :
    C.Yields t call pre (throw e : Throwing ε Op Res β) post :=
  guides_throw fun _ _ => trivial

theorem Yields.weaken {pre' : Journal Op Res σ κ → Prop} {p : Throwing ε Op Res β}
    {post post' : β → Journal Op Res σ κ → Prop} (yields : C.Yields t call pre p post)
    (before : ∀ j, pre' j → pre j) (after : ∀ value j, post value j → post' value j) :
    C.Yields t call pre' p post' :=
  Guides.weaken yields before fun result j ends => by
    cases result with
    | ok value => exact after value j ends
    | error e => trivial

/-- A fact about values alone may be taken out of the precondition. -/
theorem yields_assuming {fact : Prop} {p : Throwing ε Op Res β}
    {post : β → Journal Op Res σ κ → Prop} (yields : fact → C.Yields t call pre p post) :
    C.Yields t call (fun j => fact ∧ pre j) p post :=
  guides_assuming yields

theorem yields_settle {p : Throwing ε Op Res β} {post : β → Journal Op Res σ κ → Prop}
    (yields : C.Yields t call pre p post) :
    C.Yields t call pre (settle p) (Passing post) :=
  guides_settle yields

theorem yields_uses {allowed : Op → Prop} (stable : C.Stable t pre)
    (harmless : ∀ op, allowed op → ∀ j, C.inv j → j.calls t = some call → pre j →
      C.justified t j op ∧ ∀ result s', j.Performs S permits ⟨t, call, op, result, j.state, s'⟩ →
        pre (j.record ⟨t, call, op, result, j.state, s'⟩))
    {p : Throwing ε Op Res β} (uses : Uses allowed p.run) :
    C.Yields t call pre p fun _ => pre :=
  (guides_uses stable harmless uses).weaken (fun _ => id) fun result j known => by
    cases result with
    | ok value => exact known
    | error e => trivial

theorem yields_tryCatch {p : Throwing ε Op Res β} {handler : ε → Throwing ε Op Res β}
    {post : β → Journal Op Res σ κ → Prop} (first : C.Yields t call pre p post)
    (handled : ∀ e, C.Yields t call (fun _ => True) (handler e) post) :
    C.Yields t call pre (tryCatch p handler) post :=
  guides_tryCatch (Passing post) first (fun _ _ => id) handled

/-- A transaction that the body opens ends with it. -/
theorem yields_transactional {rollback commit : Throwing ε Op Res Unit} {body : Throwing ε Op Res β}
    {done after : β → Journal Op Res σ κ → Prop} (inside : C.Yields t call pre body done)
    (rolls : C.Yields t call (fun _ => True) rollback fun _ _ => True)
    (commits : ∀ value, C.Yields t call (done value) commit fun _ => after value) :
    C.Yields t call pre (transactional rollback commit body) after := by
  have handler (e : ε) : C.Yields t call (fun _ => True) (do rollback; throw e : Throwing ε Op Res β) done :=
    yields_bind _ rolls fun _ => yields_throw
  exact yields_bind done (yields_tryCatch inside handler) fun value => yields_bind _ (commits value) fun _ => yields_pure fun _ => id

end Yields

section Answers

variable {Val : Op → Type} {S : Service Op (fun op => Except ε (Val op)) σ κ α}
  {permits : Journal Op (fun op => Except ε (Val op)) σ κ →
    Entry Op (fun op => Except ε (Val op)) σ κ → Prop}
  {C : Contract S permits} {pre : Journal Op (fun op => Except ε (Val op)) σ κ → Prop}

/-- One operation that may throw: it is justified, and what is known of what it answers. -/
theorem yields_call {op : Op} {post : Val op → Journal Op (fun op => Except ε (Val op)) σ κ → Prop}
    (stable : C.Stable t pre)
    (step : ∀ j, C.inv j → j.calls t = some call → pre j → C.justified t j op ∧
      ∀ value s', j.Performs S permits ⟨t, call, op, .ok value, j.state, s'⟩ →
        post value (j.record ⟨t, call, op, .ok value, j.state, s'⟩)) :
    C.Yields t call pre (ExceptT.mk (Program.call op)) post := by
  intro j start
  change C.discipline.Safe t (fun result j => j.calls t = some call ∧ Passing post result j)
    (Program.call op) j
  refine safe_step stable (fun j holds running known => ?_) start
  obtain ⟨justified, after⟩ := step j holds running known
  refine ⟨justified, fun result s' performs => ?_⟩
  cases result with
  | ok value => exact after value s' performs
  | error e => trivial

/-- The same, when what is known does not depend on what the run permits. -/
theorem yields_exec {op : Op} {post : Val op → Journal Op (fun op => Except ε (Val op)) σ κ → Prop}
    (stable : C.Stable t pre)
    (step : ∀ j, C.inv j → j.calls t = some call → pre j → C.justified t j op ∧
      ∀ value s', S.exec t j.state op (.ok value) s' →
        post value (j.record ⟨t, call, op, .ok value, j.state, s'⟩)) :
    C.Yields t call pre (ExceptT.mk (Program.call op)) post := by
  refine yields_call stable fun j holds running known => ?_
  obtain ⟨justified, after⟩ := step j holds running known
  exact ⟨justified, fun value s' performs => after value s' performs.exec⟩

end Answers

end Contract

/-- The invariant holds of whatever a service reaches when every call keeps the contract. -/
theorem Service.Reaches.under {S : Service Op Res σ κ (Except ε β)}
    {permits : Journal Op Res σ κ → Entry Op Res σ κ → Prop} (C : Contract S permits)
    {admits : Journal Op Res σ κ → κ → Prop} {s : σ} {j : Journal Op Res σ κ}
    (initial : C.inv (.empty s))
    (begins : ∀ j t call, C.inv j → j.calls t = none → admits j call →
      C.inv (j.begin t call) ∧ ∀ u, u ≠ t → C.rely u j (j.begin t call))
    (guided : ∀ t call, C.Guides t call (fun j => C.inv j ∧ j.log t = [])
      (ExceptT.mk (S.program call))
      fun _ _ => True)
    (reaches : S.Reaches admits permits s j) : C.inv j := by
  obtain ⟨threads, reachable⟩ := reaches
  have starts : ∀ t j p j', C.discipline.inv j → (S.journaled admits permits).start t j p j' →
      C.discipline.inv j' ∧ (∀ u, u ≠ t → C.discipline.rely u j j') ∧
        C.discipline.Safe t (fun _ _ => True) p j' := by
    rintro t j p j' ⟨holds, quiet⟩ ⟨idle, call, admitted, rfl, rfl⟩
    obtain ⟨after, relied⟩ := begins j t call holds idle admitted
    refine ⟨⟨after, fun u idle' => ?_⟩, fun u other => ⟨relied u other, fun call' running => ?_⟩, ?_⟩
    · by_cases same : u = t
      · exact same ▸ quiet t idle
      · rw [Journal.begin_calls_of_ne same] at idle'
        exact quiet u idle'
    · rw [Journal.begin_calls_of_ne other]
      exact running
    · have begun : (j.begin t call).log t = [] := quiet t idle
      exact (guided t call (j.begin t call) ⟨Journal.begin_calls_self .., after, begun⟩).mono
        fun _ _ _ => trivial
  have exec : C.discipline.exec = (S.journaled admits permits).exec := rfl
  exact (reachable.safe exec ⟨initial, fun _ _ => rfl⟩ starts).1.1

section Law

variable (S : Service Op Res σ κ α) (permits : Journal Op Res σ κ → Entry Op Res σ κ → Prop)
  (law : κ → Log Op Res → Op → Prop)

/-- A law that each thread's log follows on its own. -/
def Contract.ofLaw : Contract S permits where
  inv := (lawful S permits law).inv
  rely t j j' := j'.log t = j.log t
  justified t j op := ∀ call, j.calls t = some call → law call (j.log t) op
  refl _ _ := rfl
  trans _ _ _ _ first second := second.trans first
  kept j e holds performs allowed t := by
    by_cases mine : e.thread = t
    · subst mine
      rw [Journal.record_log_self, Journal.record_calls]
      refine ⟨fun idle => ?_, fun call running => ⟨allowed call running, (holds _).2 call running⟩⟩
      cases performs.running.symm.trans idle
    · rw [Journal.record_log_of_ne mine]
      exact holds t
  others _ _ _ _ _ _ other := Journal.record_log_of_ne (Ne.symm other)

variable {S permits law}

theorem Contract.stable_ofLaw {t : Nat} {P : Log Op Res → Prop} :
    (Contract.ofLaw S permits law).Stable t fun j => P (j.log t) :=
  fun _ _ relied known => (congrArg P relied).mpr known

section Answers

variable {Val : Op → Type} {S : Service Op (fun op => Except ε (Val op)) σ κ α}
  {permits : Journal Op (fun op => Except ε (Val op)) σ κ →
    Entry Op (fun op => Except ε (Val op)) σ κ → Prop}
  {law : κ → Log Op (fun op => Except ε (Val op)) → Op → Prop} {t : Nat} {call : κ}
  (pre : Log Op (fun op => Except ε (Val op)) → Prop)

/-- One operation that the law allows, and what it answers. -/
theorem Contract.ofLaw_call {op : Op} (post : Val op → Log Op (fun op => Except ε (Val op)) → Prop)
    (step : ∀ log, pre log → law call log op ∧ ∀ s value s', S.exec t s op (.ok value) s' →
      post value (⟨op, .ok value⟩ :: log)) :
    (Contract.ofLaw S permits law).Yields t call (fun j => pre (j.log t)) (ExceptT.mk (Program.call op))
      fun value j => post value (j.log t) := by
  refine Contract.yields_exec Contract.stable_ofLaw fun j _ running known => ?_
  obtain ⟨allowed, after⟩ := step _ known
  refine ⟨fun call' running' => ?_, fun value s' exec => ?_⟩
  · obtain rfl := Option.some.inj (running.symm.trans running')
    exact allowed
  · rw [Journal.log_record]
    exact after _ value s' exec

/-- Operations that the law allows anyway, and that leave what is known. -/
theorem Contract.ofLaw_uses {allowed : Op → Prop} {p : Throwing ε Op (fun op => Except ε (Val op)) β}
    (free : ∀ op, allowed op → ∀ log, pre log → law call log op ∧ ∀ result, pre (⟨op, result⟩ :: log))
    (uses : Uses allowed p.run) :
    (Contract.ofLaw S permits law).Yields t call (fun j => pre (j.log t)) p fun _ j => pre (j.log t) := by
  refine Contract.yields_uses Contract.stable_ofLaw (fun op isAllowed j _ running known => ?_) uses
  obtain ⟨lawful, after⟩ := free op isAllowed _ known
  refine ⟨fun call' running' => ?_, fun result s' _ => ?_⟩
  · obtain rfl := Option.some.inj (running.symm.trans running')
    exact lawful
  · rw [Journal.log_record]
    exact after result

end Answers

end Law

/-- In every run each operation of a thread follows the law of its call. -/
theorem Service.Reaches.allowed {S : Service Op Res σ κ (Except ε β)}
    {permits : Journal Op Res σ κ → Entry Op Res σ κ → Prop} {law : κ → Log Op Res → Op → Prop}
    {admits : Journal Op Res σ κ → κ → Prop} {s : σ} {j : Journal Op Res σ κ} {e : Entry Op Res σ κ}
    (guided : ∀ t call, (Contract.ofLaw S permits law).Yields t call (fun j => j.log t = [])
      (ExceptT.mk (S.program call)) fun _ _ => True)
    (reaches : S.Reaches admits permits s (j.record e)) (running : j.calls e.thread = some e.call) :
    law e.call (j.log e.thread) e.op := by
  have holds := reaches.under (Contract.ofLaw S permits law)
    (fun t => ⟨fun _ => rfl, fun _ running => by cases running⟩) (fun j t call holds idle _ => ?_)
    fun t call => Contract.Guides.weaken (guided t call) (fun _ start => start.2) fun _ _ _ => trivial
  · have here := (holds e.thread).2 e.call running
    rw [Journal.record_log_self] at here
    exact here.1
  · have before : (Async.lawful S permits law).inv j := holds
    exact ⟨lawful_begin before idle, fun _ _ => rfl⟩

end Async
