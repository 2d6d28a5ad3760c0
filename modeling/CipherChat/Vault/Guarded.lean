import CipherChat.Vault.Critical

/-!
`encrypt` and `decrypt` keep the contract of the vault: the parts of the calls that run under the lock
of their conversation, and what is known between their steps.
-/

namespace Vault

open Async Contract Number Symbolic Primitives KeyStore Envelope EnvelopeV2 Store E2EEService

variable {permits : History → Event → Prop} {I : Invariant permits} {t n : Nat} {c : String}
  {call : Call} {α β : Type}

/-- A call knows this while it holds the lock of its conversation. -/
def Held (t n : Nat) (c : String) (f : History → Prop) (j : History) : Prop :=
  j.state.dead t = false → Owns j t n c ∧ f j

/-- What others cannot change while the lock is held. -/
def Steady (t n : Nat) (c : String) (f : History → Prop) : Prop :=
  ∀ j j', Rely t j j' → j'.state.dead t = false → Owns j t n c → f j → f j'

/-- A part of a call under the lock of the conversation. -/
def Under (I : Invariant permits) (t n : Nat) (c : String) (call : Call) (f : History → Prop)
    (p : Acting α) (post : α → History → Prop) : Prop :=
  I.contract.Guides t call (Held t n c f) p fun result => Held t n c (Passing post result)

theorem Steady.held {f : History → Prop} (steady : Steady t n c f) :
    I.contract.Stable t (Held t n c f) := by
  intro j j' relied held alive
  obtain ⟨owns, known⟩ := held (relied.dead alive)
  exact ⟨(relied.locked n c alive owns).1, steady j j' relied alive owns known⟩

theorem Steady.and {f g : History → Prop} (first : Steady t n c f) (second : Steady t n c g) :
    Steady t n c fun j => f j ∧ g j :=
  fun j j' relied alive owns known =>
    ⟨first j j' relied alive owns known.1, second j j' relied alive owns known.2⟩

theorem steady_drew (draws : Event → Prop) : Steady t n c (Drew t · draws) := by
  rintro j j' relied _ _ ⟨e, old, mine, isDraw⟩
  exact ⟨e, relied.past e old, mine, isDraw⟩

/-- What is stored for the conversation. -/
theorem steady_vault {g : Device → Prop} (about : ∀ d d', SameVault c d d' → g d → g d') :
    Steady t n c fun j => g (j.state.device n) :=
  fun _ _ relied alive owns known => about _ _ (relied.locked n c alive owns).2.1 known

/-- The call has not committed anything yet. -/
def Quiet (t : Nat) (j : History) : Prop :=
  ∀ e ∈ j.past, e.thread = t → committed e = none

section Rules

variable {f : History → Prop}

theorem under_pure {value : α} {post : α → History → Prop} (holds : ∀ j, f j → post value j) :
    Under I t n c call f (pure value) post :=
  guides_pure fun j held alive => ⟨(held alive).1, holds j (held alive).2⟩

theorem under_throw {e : JsError} {post : α → History → Prop} :
    Under I t n c call f (throw e) post :=
  guides_throw fun _ held alive => ⟨(held alive).1, trivial⟩

theorem under_lift {result : Except JsError α} {post : α → History → Prop}
    (holds : ∀ value, result = .ok value → ∀ j, f j → post value j) :
    Under I t n c call f (lift result) post := by
  cases result with
  | ok value => exact under_pure (holds value rfl)
  | error e => exact under_throw

/-- What a computation yields is known of the values it is given. -/
theorem under_lift_bind {result : Except JsError α} {q : α → Acting β} {post : β → History → Prop}
    (rest : ∀ value, result = .ok value → Under I t n c call f (q value) post) :
    Under I t n c call f (lift result >>= q) post := by
  cases result with
  | ok value => exact rest value rfl
  | error e => exact under_throw

theorem under_bind {p : Acting α} {q : α → Acting β} {post : β → History → Prop}
    (middle : α → History → Prop) (first : Under I t n c call f p middle)
    (rest : ∀ value, Under I t n c call (middle value) (q value) post) :
    Under I t n c call f (p >>= q) post :=
  guides_bind _ first rest fun _ _ held alive => ⟨(held alive).1, trivial⟩

theorem under_tryCatch {p : Acting α} {handler : JsError → Acting α} {post : α → History → Prop}
    (middle : Except JsError α → History → Prop)
    (first : I.contract.Guides t call (Held t n c f) p fun result => Held t n c (middle result))
    (passes : ∀ value j, middle (.ok value) j → post value j)
    (handled : ∀ e, Under I t n c call (middle (.error e)) (handler e) post) :
    Under I t n c call f (tryCatch p handler) post :=
  guides_tryCatch _ first
    (fun value j held alive => ⟨(held alive).1, passes value j (held alive).2⟩) handled

theorem Under.weaken {g : History → Prop} {p : Acting α} {post post' : α → History → Prop}
    (under : Under I t n c call f p post) (before : ∀ j, g j → f j)
    (after : ∀ value j, post value j → post' value j) : Under I t n c call g p post' := by
  refine Guides.weaken under (fun j held alive => ⟨(held alive).1, before j (held alive).2⟩) ?_
  intro result j held alive
  refine ⟨(held alive).1, ?_⟩
  cases result with
  | ok value => exact after value j (held alive).2
  | error e => trivial

/-- One operation under the lock, whether it fails or not. -/
theorem guides_act {op : Op} {post : op.Res → History → Prop} (steady : Steady t n c f)
    (justified : ∀ j, j.calls t = some call → Held t n c f j → Justified t j (.on n op))
    (step : ∀ j, Base j → I.holds j → j.calls t = some call → Owns j t n c → f j → ∀ result s',
      j.Performs service permits ⟨t, call, .on n op, result, j.state, s'⟩ →
        Owns (j.record ⟨t, call, .on n op, result, j.state, s'⟩) t n c ∧
          post result (j.record ⟨t, call, .on n op, result, j.state, s'⟩)) :
    I.contract.Guides t call (Held t n c f) (act (.on n op)) fun result =>
      Held t n c (post result) := by
  intro j start
  refine safe_step steady.held (fun j holds running held => ?_) start
  refine ⟨justified j running held, fun result s' performs _ => ?_⟩
  obtain ⟨owns, known⟩ := held (exec_alive performs.exec)
  exact step j holds.1 holds.2 running owns known result s' performs

theorem owns_error {j : History} {op : Op} {e : JsError} {s' : Browsers} (owns : Owns j t n c)
    (performs : j.Performs service permits ⟨t, call, .on n op, .error e, j.state, s'⟩) :
    s' = j.state ∧ Owns (j.record ⟨t, call, .on n op, .error e, j.state, s'⟩) t n c := by
  obtain ⟨_, d, executed, isAfter⟩ := exec_on.mp performs.exec
  change s' = j.state.set n d at isAfter
  have isDevice : d = j.state.device n := exec_error executed
  rw [isDevice, Browsers.set, Function.update_eq_self] at isAfter
  refine ⟨isAfter, ?_⟩
  rw [Owns, Journal.record_state, isAfter]
  exact owns

/-- One operation under the lock. -/
theorem under_act {op : Op} {post : op.Val → History → Prop} (steady : Steady t n c f)
    (justified : ∀ j, j.calls t = some call → Held t n c f j → Justified t j (.on n op))
    (step : ∀ j, Base j → I.holds j → j.calls t = some call → Owns j t n c → f j → ∀ value s',
      j.Performs service permits ⟨t, call, .on n op, .ok value, j.state, s'⟩ →
        Owns (j.record ⟨t, call, .on n op, .ok value, j.state, s'⟩) t n c ∧
          post value (j.record ⟨t, call, .on n op, .ok value, j.state, s'⟩)) :
    Under I t n c call f (act (.on n op)) post := by
  refine (guides_act steady justified ?_ : I.contract.Guides t call (Held t n c f) (act (.on n op))
    fun result => Held t n c (Passing post result))
  intro j base holds running owns known result s' performs
  cases result with
  | ok value => exact step j base holds running owns known value s' performs
  | error e => exact ⟨(owns_error owns performs).2, trivial⟩

theorem justified_neutral {op : Op} (neutral : Neutral op) (j : History) :
    Justified t j (.on n op) := by
  cases op <;> trivial

/-- A neutral operation keeps what is known. -/
theorem under_neutral {op : Op} {post : op.Val → History → Prop} (neutral : Neutral op)
    (steady : Steady t n c f)
    (step : ∀ j, Base j → Owns j t n c → f j → ∀ value s',
      j.Performs service permits ⟨t, call, .on n op, .ok value, j.state, s'⟩ →
        f (j.record ⟨t, call, .on n op, .ok value, j.state, s'⟩) →
          post value (j.record ⟨t, call, .on n op, .ok value, j.state, s'⟩)) :
    Under I t n c call f (act (.on n op)) post := by
  refine under_act steady (fun j _ _ => justified_neutral neutral j) ?_
  intro j base _ running owns known value s' performs
  obtain ⟨same, dead⟩ := neutral_step neutral performs.exec
  have relied := rely_neutral (j := j) t same dead (committed_neutral neutral)
  have alive := exec_alive performs.exec
  have alive' : s'.dead t = false := by
    change s'.dead = _ at dead
    rw [dead]
    exact alive
  exact ⟨(relied.locked n c alive' owns).1,
    step j base owns known value s' performs (steady _ _ relied alive' owns known)⟩

theorem under_uses {p : Prog α} (steady : Steady t n c f) (uses : Uses Neutral p.run) :
    Under I t n c call f (on n p) fun _ => f := by
  have guides : I.contract.Guides t call (Held t n c f) (on n p) fun _ => Held t n c f := by
    have uses' : Uses (fun a => ∃ op, a = .on n op ∧ Neutral op) (on n p).run :=
      uses_on n (uses.mono fun op neutral => ⟨op, rfl, neutral⟩)
    refine guides_uses steady.held ?_ uses'
    rintro _ ⟨op, rfl, neutral⟩ j holds running held
    refine ⟨justified_neutral neutral j, fun result s' performs alive => ?_⟩
    obtain ⟨same, dead⟩ := neutral_step neutral performs.exec
    have relied := rely_neutral (j := j) t same dead (committed_neutral neutral)
    obtain ⟨owns, known⟩ := held (exec_alive performs.exec)
    exact ⟨(relied.locked n c alive owns).1, steady _ _ relied alive owns known⟩
  refine Guides.weaken guides (fun _ => id) fun result j held alive => ?_
  refine ⟨(held alive).1, ?_⟩
  cases result with
  | ok value => exact (held alive).2
  | error e => trivial

/-- A fact about the past stays one. -/
def Lasting (post : α → History → Prop) : Prop :=
  ∀ value j j', (∀ e ∈ j.past, e ∈ j'.past) → post value j → post value j'

/-- What only a commit of the call, or another identity, can change. -/
def Calm (t : Nat) (f : History → Prop) : Prop :=
  ∀ j j', (∀ e ∈ j'.past, e.thread = t → e ∈ j.past ∨ committed e = none) →
    (∀ n, (j'.state.device n).identity = (j.state.device n).identity) → f j → f j'

theorem calm_quiet : Calm t (Quiet t) := by
  intro j j' own _ quiet e member mine
  exact (own e member mine).elim (fun old => quiet e old mine) id

theorem Calm.stable (calm : Calm t f) : I.contract.Stable t f :=
  fun j j' relied known => calm j j' relied.own relied.identity known

theorem Calm.steady (calm : Calm t f) : Steady t n c f :=
  fun j j' relied _ _ known => calm j j' relied.own relied.identity known

theorem Calm.record (calm : Calm t f) {j : History} {e : Event} (none : committed e = none)
    (same : ∀ n, (e.after.device n).identity = (j.state.device n).identity) (known : f j) :
    f (j.record e) := by
  refine calm j _ (fun e' member mine => ?_) same known
  rcases List.mem_cons.mp member with rfl | old
  · exact .inr none
  · exact .inl old

theorem guides_neutral {p : Prog α} (calm : Calm t f) (uses : Uses Neutral p.run) :
    I.contract.Guides t call f (on n p) fun _ => f := by
  have uses' : Uses (fun a => ∃ op, a = .on n op ∧ Neutral op) (on n p).run :=
    uses_on n (uses.mono fun op neutral => ⟨op, rfl, neutral⟩)
  refine guides_uses calm.stable ?_ uses'
  rintro _ ⟨op, rfl, neutral⟩ j holds running known
  refine ⟨justified_neutral neutral j, fun result s' performs => ?_⟩
  have same := (neutral_step neutral performs.exec).1
  exact calm.record (committed_neutral neutral) (fun m => (same m).identity) known

theorem guides_acquire (calm : Calm t f) : I.contract.Guides t call f (act (.on n (.acquire c)))
    fun _ => Held t n c f := by
  intro j start
  refine safe_step calm.stable (fun j holds running known => ?_) start
  have justified : Justified t j (.on n (.acquire c)) := trivial
  refine ⟨justified, fun result s' performs alive => ?_⟩
  obtain ⟨_, d, executed, isAfter⟩ := exec_on.mp performs.exec
  change s' = _ at isAfter
  obtain ⟨e, rfl, _⟩ | ⟨value, rfl, rfl, _⟩ := exec_cases executed
  · obtain ⟨a, performed⟩ := executed
    simp only [Store.perform, Op.canFail, reply] at performed
    grind
  refine ⟨?_, calm.record rfl (fun m => ?_) known⟩
  · rw [Owns, Journal.record_state, isAfter, Browsers.set_device, if_pos rfl]
    simp [effect]
  · change (s'.device m).identity = _
    rw [isAfter, Browsers.set_device]
    split
    next here => rw [here]; rfl
    next => rfl

theorem guides_release {post : Except JsError α → History → Prop} {result : Except JsError α}
    (lasting : Lasting post) :
    I.contract.Guides t call (Held t n c (post result)) (act (.on n (.release c)))
      fun _ => post result := by
  have steady : Steady t n c (post result) := fun j j' relied _ _ known =>
    lasting result j j' relied.past known
  intro j start
  refine safe_step steady.held (fun j holds running held => ?_) start
  have justified : Justified t j (.on n (.release c)) := fun alive => (held alive).1
  refine ⟨justified, fun answer s' performs => ?_⟩
  exact lasting result j _ (fun _ => List.mem_cons_of_mem _) (held (exec_alive performs.exec)).2

/-- A whole call under the lock of its conversation. -/
theorem guides_withLock {body : Prog α} {post : α → History → Prop} (calm : Calm t f)
    (lasting : Lasting post) (inside : Under I t n c call f (on n body) post) :
    I.contract.Guides t call f (on n (withLock c body)) (Passing post) := by
  have lasts : Lasting (Passing post : Except JsError α → History → Prop) := by
    intro result j j' more known
    cases result with
    | ok value => exact lasting value j j' more known
    | error e => trivial
  rw [withLock, on_bind, on_call]
  refine guides_bind _ (guides_acquire calm) (fun _ => ?_) fun _ _ _ => trivial
  rw [on_bind, on_settle]
  refine guides_bind (fun settled => match settled with
    | .ok result => Held t n c (Passing post result)
    | .error _ => fun _ => True) (guides_settle inside) (fun result => ?_) fun _ _ _ => trivial
  rw [on_bind, on_call]
  refine guides_bind _ (guides_release lasts) (fun _ => ?_) fun _ _ _ => trivial
  rw [on_lift]
  cases result with
  | ok value => exact guides_pure fun _ known => known
  | error e => exact guides_throw fun _ _ => trivial

end Rules

end Vault
