import CipherChat.Async.Interleaving
import Mathlib.Data.List.Nodup
import Mathlib.Data.List.Pairwise

/-!
Services that keep a journal of the operations their threads perform, newest first.
What a thread does is a matter of its own part of the journal: a law that its program
follows on its own holds of it in every interleaving.
-/

namespace Async

variable {Op : Type} {Res : Op → Type} {σ κ ε α β ι : Type}

/-- What the calls of a service run, and what the operations may do. -/
structure Service (Op : Type) (Res : Op → Type) (σ κ α : Type) where
  program : κ → Program Op Res α
  exec : Nat → σ → (op : Op) → Res op → σ → Prop

structure Entry (Op : Type) (Res : Op → Type) (σ κ : Type) where
  thread : Nat
  call : κ
  op : Op
  result : Res op
  before : σ
  after : σ

structure Journal (Op : Type) (Res : Op → Type) (σ κ : Type) where
  state : σ
  calls : Nat → Option κ
  past : List (Entry Op Res σ κ)

/-- Operations with their answers, the last one first. -/
abbrev Log (Op : Type) (Res : Op → Type) :=
  List ((op : Op) × Res op)

def Entry.logged (e : Entry Op Res σ κ) : (op : Op) × Res op :=
  ⟨e.op, e.result⟩

/-- The operations of one thread. -/
def own (t : Nat) : List (Entry Op Res σ κ) → Log Op Res
  | [] => []
  | e :: earlier => if e.thread = t then e.logged :: own t earlier else own t earlier

theorem own_append (t : Nat) (later earlier : List (Entry Op Res σ κ)) :
    own t (later ++ earlier) = own t later ++ own t earlier := by
  induction later with
  | nil => rfl
  | cons e rest ih =>
      simp only [List.cons_append, own, ih]
      split
      · rfl
      · rfl

theorem mem_of_own {t : Nat} {past : List (Entry Op Res σ κ)} {x : (op : Op) × Res op}
    (member : x ∈ own t past) : ∃ e ∈ past, e.thread = t ∧ e.logged = x := by
  induction past with
  | nil => cases member
  | cons e rest ih =>
      simp only [own] at member
      split at member
      next mine =>
        rcases List.mem_cons.mp member with rfl | old
        · exact ⟨e, List.mem_cons_self, mine, rfl⟩
        · obtain ⟨e', inRest, here⟩ := ih old
          exact ⟨e', List.mem_cons_of_mem _ inRest, here⟩
      next =>
        obtain ⟨e', inRest, here⟩ := ih member
        exact ⟨e', List.mem_cons_of_mem _ inRest, here⟩

theorem logged_mem_own {past : List (Entry Op Res σ κ)} {e : Entry Op Res σ κ} (member : e ∈ past) :
    e.logged ∈ own e.thread past := by
  obtain ⟨later, earlier, rfl⟩ := List.append_of_mem member
  rw [own_append]
  apply List.mem_append_right
  simp [own]

/-- A thread that has performed nothing has no entry. -/
theorem own_eq_nil {t : Nat} {past : List (Entry Op Res σ κ)} (none : own t past = []) :
    ∀ e ∈ past, e.thread ≠ t := by
  induction past with
  | nil => exact fun _ member => by cases member
  | cons e rest ih =>
      simp only [own] at none
      split at none
      · cases none
      next other =>
        intro e' member
        rcases List.mem_cons.mp member with rfl | old
        · exact other
        · exact ih none e' old

/-- An operation of one thread's log, where it stands in the journal. -/
theorem own_split {t : Nat} {past : List (Entry Op Res σ κ)} {later earlier : Log Op Res}
    {x : (op : Op) × Res op} (isOwn : own t past = later ++ x :: earlier) :
    ∃ after e before, past = after ++ e :: before ∧ e.thread = t ∧ e.logged = x ∧
      own t after = later ∧ own t before = earlier := by
  induction past generalizing later with
  | nil => exact absurd isOwn (by simp [own])
  | cons e rest ih =>
      simp only [own] at isOwn
      split at isOwn
      next mine =>
        cases later with
        | nil =>
            obtain ⟨isLogged, isRest⟩ := List.cons.inj isOwn
            exact ⟨[], e, rest, rfl, mine, isLogged, rfl, isRest⟩
        | cons y later =>
            obtain ⟨rfl, isRest⟩ := List.cons.inj isOwn
            obtain ⟨after, e', before, rfl, thread, logged, isLater, isEarlier⟩ := ih isRest
            refine ⟨e :: after, e', before, rfl, thread, logged, ?_, isEarlier⟩
            simp only [own, if_pos mine, isLater]
      next others =>
        obtain ⟨after, e', before, rfl, thread, logged, isLater, isEarlier⟩ := ih isOwn
        refine ⟨e :: after, e', before, rfl, thread, logged, ?_, isEarlier⟩
        simp only [own, if_neg others, isLater]

/-- What is done once in the past is done by one entry of it. -/
theorem done_once {past : List (Entry Op Res σ κ)} {done : Entry Op Res σ κ → List ε}
    (once : (past.flatMap done).Nodup) {e e' : Entry Op Res σ κ} (member : e ∈ past)
    (member' : e' ∈ past) {x : ε} (does : x ∈ done e) (does' : x ∈ done e') : e = e' := by
  have disjoint := (List.nodup_flatMap.mp once).2
  by_contra differ
  have symmetric : Std.Symm (Function.onFun List.Disjoint done) :=
    ⟨fun _ _ => List.disjoint_symm⟩
  exact disjoint.forall member member' differ does does'

namespace Journal

def empty (s : σ) : Journal Op Res σ κ where
  state := s
  calls _ := none
  past := []

def begin (j : Journal Op Res σ κ) (t : Nat) (call : κ) : Journal Op Res σ κ :=
  { j with calls := Function.update j.calls t (some call) }

def record (j : Journal Op Res σ κ) (e : Entry Op Res σ κ) : Journal Op Res σ κ :=
  { j with state := e.after, past := e :: j.past }

def log (j : Journal Op Res σ κ) (t : Nat) : Log Op Res :=
  own t j.past

variable (j : Journal Op Res σ κ) (t u : Nat) (call : κ) (e : Entry Op Res σ κ)

@[simp] theorem begin_state : (j.begin t call).state = j.state := by
  rfl

@[simp] theorem begin_past : (j.begin t call).past = j.past := by
  rfl

@[simp] theorem begin_log : (j.begin t call).log u = j.log u := by
  rfl

@[simp] theorem record_state : (j.record e).state = e.after := by
  rfl

@[simp] theorem record_calls : (j.record e).calls = j.calls := by
  rfl

@[simp] theorem record_past : (j.record e).past = e :: j.past := by
  rfl

@[simp] theorem empty_state (s : σ) : (empty s : Journal Op Res σ κ).state = s := by
  rfl

@[simp] theorem empty_past (s : σ) : (empty s : Journal Op Res σ κ).past = [] := by
  rfl

theorem record_log_self : (j.record e).log e.thread = e.logged :: j.log e.thread := by
  simp [log, own]

theorem log_record {j : Journal Op Res σ κ} {t : Nat} {call : κ} {op : Op} {result : Res op} {s s' : σ} :
    (j.record ⟨t, call, op, result, s, s'⟩).log t = ⟨op, result⟩ :: j.log t :=
  record_log_self j ⟨t, call, op, result, s, s'⟩

theorem record_log_of_ne {j : Journal Op Res σ κ} {t : Nat} {e : Entry Op Res σ κ}
    (other : e.thread ≠ t) : (j.record e).log t = j.log t := by
  simp [log, own, other]

theorem begin_calls_self : (j.begin t call).calls t = some call := by
  simp [begin]

theorem begin_calls_of_ne {j : Journal Op Res σ κ} {t u : Nat} {call : κ} (other : u ≠ t) :
    (j.begin t call).calls u = j.calls u := by
  simp [begin, other]

theorem calls_begin {j : Journal Op Res σ κ} {t u : Nat} {call call' : κ}
    (idle : j.calls t = none) (running : j.calls u = some call') :
    (j.begin t call).calls u = some call' := by
  have other : u ≠ t := by
    intro equal
    rw [equal, idle] at running
    cases running
  rw [begin_calls_of_ne other]
  exact running

/-- Starting a call adds no other. -/
theorem of_calls_begin {j : Journal Op Res σ κ} {t u : Nat} {call call' : κ}
    (running : (j.begin t call).calls u = some call') :
    (u = t ∧ call' = call) ∨ j.calls u = some call' := by
  by_cases same : u = t
  · subst same
    rw [begin_calls_self] at running
    exact .inl ⟨rfl, (Option.some.inj running).symm⟩
  · rw [begin_calls_of_ne same] at running
    exact .inr running

/-- An operation a thread may perform now. -/
structure Performs (S : Service Op Res σ κ α) (permits : Journal Op Res σ κ → Entry Op Res σ κ → Prop)
    (j : Journal Op Res σ κ) (e : Entry Op Res σ κ) : Prop where
  running : j.calls e.thread = some e.call
  before : e.before = j.state
  exec : S.exec e.thread e.before e.op e.result e.after
  permitted : permits j e

end Journal

namespace Service

variable (S : Service Op Res σ κ α)

/-- The calls `admits` are made, and the operations `permits` are performed. -/
def journaled (admits : Journal Op Res σ κ → κ → Prop)
    (permits : Journal Op Res σ κ → Entry Op Res σ κ → Prop) :
    System Op Res (Journal Op Res σ κ) α where
  start t j p j' := j.calls t = none ∧ ∃ call, admits j call ∧ p = S.program call ∧
    j' = j.begin t call
  exec t j op result j' := ∃ e, e.thread = t ∧ e.logged = ⟨op, result⟩ ∧ j.Performs S permits e ∧
    j' = j.record e

/-- What the system may come to, as a journal. -/
def Reaches (admits : Journal Op Res σ κ → κ → Prop)
    (permits : Journal Op Res σ κ → Entry Op Res σ κ → Prop) (s : σ)
    (j : Journal Op Res σ κ) : Prop :=
  ∃ threads, (S.journaled admits permits).Reachable (.empty s) ⟨j, threads⟩

end Service

section Law

/-- Each operation follows the law, as far as the operations before it show. -/
def Lawful (law : Log Op Res → Op → Prop) : Log Op Res → Prop
  | [] => True
  | ⟨op, _⟩ :: earlier => law earlier op ∧ Lawful law earlier

theorem Lawful.of_append {law : Log Op Res → Op → Prop} {later earlier : Log Op Res}
    (lawful : Lawful law (later ++ earlier)) : Lawful law earlier := by
  induction later with
  | nil => exact lawful
  | cons x rest ih => exact ih lawful.2

variable (S : Service Op Res σ κ α) (permits : Journal Op Res σ κ → Entry Op Res σ κ → Prop)
  (law : κ → Log Op Res → Op → Prop)

/-- Every thread follows the law of its call; it relies on nobody else touching its log. -/
def lawful : Discipline Op Res (Journal Op Res σ κ) where
  exec := (S.journaled (fun _ _ => True) permits).exec
  inv j := ∀ t, (j.calls t = none → j.log t = []) ∧
    ∀ call, j.calls t = some call → Lawful (law call) (j.log t)
  rely t j j' := j'.log t = j.log t ∧ ∀ call, j.calls t = some call → j'.calls t = some call
  refl _ _ := ⟨rfl, fun _ => id⟩
  trans _ _ _ _ first second :=
    ⟨second.1.trans first.1, fun call running => second.2 call (first.2 call running)⟩

variable {S permits law} in
/-- A call that starts has done nothing yet. -/
theorem lawful_begin {j : Journal Op Res σ κ} {t : Nat} {call : κ}
    (holds : (lawful S permits law).inv j) (idle : j.calls t = none) :
    (lawful S permits law).inv (j.begin t call) := by
  refine fun u => ⟨fun idle' => ?_, fun call' running => ?_⟩
  · by_cases same : u = t
    · exact same ▸ (holds t).1 idle
    · rw [Journal.begin_calls_of_ne same] at idle'
      exact (holds u).1 idle'
  · rcases Journal.of_calls_begin running with ⟨rfl, rfl⟩ | before
    · rw [Journal.begin_log, (holds u).1 idle]
      trivial
    · exact (holds u).2 call' before

/-- The program follows the law of `call`, from a log with `pre` to one with `post`. -/
def Follows (call : κ) (pre : Log Op Res → Prop) (p : Throwing ε Op Res β)
    (post : Except ε β → Log Op Res → Prop) : Prop :=
  ∀ t, (lawful S permits law).Triple t (fun j => j.calls t = some call ∧ pre (j.log t)) p
    fun result j => j.calls t = some call ∧ post result (j.log t)

variable {S permits law} {call : κ} {pre : Log Op Res → Prop}

theorem Follows.weaken {pre' : Log Op Res → Prop} {p : Throwing ε Op Res β}
    {post post' : Except ε β → Log Op Res → Prop} (follows : Follows S permits law call pre p post)
    (before : ∀ log, pre' log → pre log) (after : ∀ result log, post result log → post' result log) :
    Follows S permits law call pre' p post' :=
  fun t => (follows t).weaken (fun _ start => ⟨start.1, before _ start.2⟩)
    fun result _ ends => ⟨ends.1, after result _ ends.2⟩

theorem follows_pure {value : β} {post : Except ε β → Log Op Res → Prop}
    (holds : ∀ log, pre log → post (.ok value) log) :
    Follows S permits law call pre (pure value) post :=
  fun _ => Discipline.triple_pure fun _ start => ⟨start.1, holds _ start.2⟩

theorem follows_throw {e : ε} {post : Except ε β → Log Op Res → Prop}
    (holds : ∀ log, pre log → post (.error e) log) :
    Follows S permits law call pre (throw e) post :=
  fun _ => Discipline.triple_throw fun _ start => ⟨start.1, holds _ start.2⟩

theorem follows_bind {γ : Type} {p : Throwing ε Op Res β} {f : β → Throwing ε Op Res γ}
    {post : Except ε γ → Log Op Res → Prop} (middle : Except ε β → Log Op Res → Prop)
    (first : Follows S permits law call pre p middle)
    (rest : ∀ value, Follows S permits law call (middle (.ok value)) (f value) post)
    (failed : ∀ e log, middle (.error e) log → post (.error e) log) :
    Follows S permits law call pre (p >>= f) post :=
  fun t => Discipline.triple_bind _ (first t) (fun value => rest value t)
    fun e _ ends => ⟨ends.1, failed e _ ends.2⟩

theorem follows_tryCatch {p : Throwing ε Op Res β} {handler : ε → Throwing ε Op Res β}
    {post : Except ε β → Log Op Res → Prop} (middle : Except ε β → Log Op Res → Prop)
    (first : Follows S permits law call pre p middle)
    (rest : ∀ value log, middle (.ok value) log → post (.ok value) log)
    (handled : ∀ e, Follows S permits law call (middle (.error e)) (handler e) post) :
    Follows S permits law call pre (tryCatch p handler) post :=
  fun t => Discipline.triple_tryCatch _ (first t)
    (fun value _ ends => ⟨ends.1, rest value _ ends.2⟩) fun e => handled e t

theorem follows_settle {p : Throwing ε Op Res β}
    {post : Except ε (Except ε β) → Log Op Res → Prop}
    (body : Follows S permits law call pre p fun result => post (.ok result)) :
    Follows S permits law call pre (settle p) post :=
  fun t => Discipline.triple_settle (body t)

/-- One operation, with an answer it may have. -/
theorem safe_op {op : Op} {t : Nat} {post : Res op → Log Op Res → Prop}
    (step : ∀ log, pre log → law call log op ∧
      ∀ s result s', S.exec t s op result s' → post result (⟨op, result⟩ :: log))
    {j : Journal Op Res σ κ} (start : j.calls t = some call ∧ pre (j.log t)) :
    (lawful S permits law).Safe t (fun result j => j.calls t = some call ∧ post result (j.log t))
      (Program.call op) j := by
  have stable : ∀ j j', (j.calls t = some call ∧ pre (j.log t)) →
      (lawful S permits law).rely t j j' → j'.calls t = some call ∧ pre (j'.log t) :=
    fun j j' known relied => ⟨relied.2 call known.1, relied.1 ▸ known.2⟩
  refine Discipline.safe_call stable ?_ start
  rintro j result j' holds ⟨running, known⟩ ⟨e, rfl, isOp, performs, rfl⟩
  obtain ⟨allowed, after⟩ := step _ known
  obtain ⟨u, call', op', result', before, s'⟩ := e
  obtain ⟨rfl, same⟩ := Sigma.mk.inj isOp
  obtain rfl := eq_of_heq same
  refine ⟨fun v => ?_, fun v other => ⟨?_, fun _ => id⟩, running, ?_⟩
  · by_cases mine : u = v
    · subst mine
      refine ⟨fun idle => ?_, fun call'' running' => ?_⟩
      · rw [Journal.record_calls, running] at idle
        cases idle
      · obtain rfl : call = call'' := Option.some.inj (running.symm.trans running')
        rw [Journal.record_log_self]
        exact ⟨allowed, (holds _).2 _ running⟩
    · rw [Journal.record_log_of_ne mine]
      exact holds v
  · exact Journal.record_log_of_ne (Ne.symm other)
  · rw [Journal.record_log_self]
    exact after _ _ _ performs.exec

/-- Operations as they are written down. -/
def logged (log : Log Op Res) (op : Op) (result : Res op) (log' : Log Op Res) : Prop :=
  log' = ⟨op, result⟩ :: log

/-- What has been written down stays. -/
theorem ends_extends {p : Throwing ε Op Res β} {result : Except ε β} {log log₀ : Log Op Res}
    (ends : Ends logged log₀ p result log) : ∃ later, log = later ++ log₀ := by
  have kept : ∀ (log : Log Op Res) op result log', logged log op result log' →
      (∃ later, log = later ++ log₀) → ∃ later, log' = later ++ log₀ := by
    rintro log op result log' rfl ⟨later, rfl⟩
    exact ⟨⟨op, result⟩ :: later, rfl⟩
  exact Runs.invariant kept ends ⟨[], rfl⟩

/-- A program of lawful operations writes down a run of its own. -/
theorem follows_ends {allowed : Op → Prop} {first : Log Op Res → Prop}
    (harmless : ∀ op, allowed op → ∀ log, pre log → law call log op ∧
      ∀ result, pre (⟨op, result⟩ :: log))
    {p : Throwing ε Op Res β} (uses : Uses allowed p.run) :
    Follows S permits law call (fun log => pre log ∧ first log) p fun result log =>
      pre log ∧ ∃ log₀, first log₀ ∧ Ends logged log₀ p result log := by
  intro t j start
  let ran (program : Program Op Res (Except ε β)) (log₀ : Log Op Res) (result : Except ε β)
      (j : Journal Op Res σ κ) : Prop :=
    j.calls t = some call ∧ pre (j.log t) ∧ Runs logged log₀ program result (j.log t)
  have safe : ∀ program : Program Op Res (Except ε β), Uses allowed program →
      ∀ j : Journal Op Res σ κ, j.calls t = some call ∧ pre (j.log t) → ∀ log₀, j.log t = log₀ →
        (lawful S permits law).Safe t (ran program log₀) program j := by
    intro program uses
    induction program with
    | done value =>
        rintro j ⟨running, known⟩ log₀ rfl
        exact ⟨running, known, .done⟩
    | await op next ih =>
        rintro j start log₀ isLog
        let here (log : Log Op Res) : Prop := pre log ∧ log = log₀
        let after (result : Res op) (log : Log Op Res) : Prop := pre log ∧ log = ⟨op, result⟩ :: log₀
        have step : ∀ log, here log → law call log op ∧ ∀ s result s',
            S.exec t s op result s' → after result (⟨op, result⟩ :: log) := by
          rintro log ⟨known, rfl⟩
          obtain ⟨allowed, stays⟩ := harmless op uses.1 log known
          exact ⟨allowed, fun _ result _ _ => ⟨stays result, rfl⟩⟩
        have begun : (lawful S permits law).Safe t
            (fun result j => j.calls t = some call ∧ after result (j.log t)) (Program.call op) j :=
          safe_op step ⟨start.1, start.2, isLog⟩
        refine Discipline.safe_bind (begun.mono fun result j' known => ?_)
        refine (ih result (uses.2 result) j' ⟨known.1, known.2.1⟩ _ rfl).mono fun value j'' ends => ?_
        exact ⟨ends.1, ends.2.1, .await known.2.2 ends.2.2⟩
  exact (safe p.run uses j ⟨start.1, start.2.1⟩ _ rfl).mono fun result j' ends =>
    ⟨ends.1, ends.2.1, _, start.2.2, ends.2.2⟩

/-- Operations that are always lawful and change nothing that is known. -/
theorem follows_uses {allowed : Op → Prop}
    (harmless : ∀ op, allowed op → ∀ log, pre log → law call log op ∧
      ∀ result, pre (⟨op, result⟩ :: log))
    {p : Throwing ε Op Res β} (uses : Uses allowed p.run) :
    Follows S permits law call pre p fun _ => pre := by
  intro t j start
  change (lawful S permits law).Safe t (fun _ j => j.calls t = some call ∧ pre (j.log t)) p.run j
  generalize p.run = program at uses
  induction program generalizing j with
  | done value => exact start
  | await op next ih =>
      have first : (lawful S permits law).Safe t
          (fun _ j => j.calls t = some call ∧ pre (j.log t)) (Program.call op) j := by
        refine safe_op (fun log known => ?_) start
        obtain ⟨allowed, after⟩ := harmless op uses.1 log known
        exact ⟨allowed, fun _ result _ _ => after result⟩
      exact Discipline.safe_bind (first.mono fun result j' known => ih result j' known (uses.2 result))

end Law

namespace Service

variable {S : Service Op Res σ κ (Except ε β)} {admits : Journal Op Res σ κ → κ → Prop}
  {permits : Journal Op Res σ κ → Entry Op Res σ κ → Prop} {law : κ → Log Op Res → Op → Prop}
  {s : σ} {j : Journal Op Res σ κ}

/-- The program of every call follows the law of the call. -/
def Follows (S : Service Op Res σ κ (Except ε β))
    (permits : Journal Op Res σ κ → Entry Op Res σ κ → Prop) (law : κ → Log Op Res → Op → Prop) :
    Prop :=
  ∀ call, Async.Follows S permits law call (fun log => log = []) (ExceptT.mk (S.program call))
    fun _ _ => True

theorem Reaches.lawful (follows : S.Follows permits law) (reaches : S.Reaches admits permits s j)
    (t : Nat) {call : κ} (running : j.calls t = some call) : Lawful (law call) (j.log t) := by
  obtain ⟨threads, reachable⟩ := reaches
  have starts : ∀ t j p j', (Async.lawful S permits law).inv j →
      (S.journaled admits permits).start t j p j' → (Async.lawful S permits law).inv j' ∧
        (∀ u, u ≠ t → (Async.lawful S permits law).rely u j j') ∧
        (Async.lawful S permits law).Safe t (fun _ _ => True) p j' := by
    rintro t j p j' holds ⟨idle, call, _, rfl, rfl⟩
    refine ⟨lawful_begin holds idle, fun u other => ⟨rfl, ?_⟩, ?_⟩
    · intro call' running
      rw [Journal.begin_calls_of_ne other]
      exact running
    · refine (follows call t (j.begin t call) ⟨Journal.begin_calls_self .., ?_⟩).mono
        fun _ _ _ => trivial
      rw [Journal.begin_log]
      exact (holds t).1 idle
  have initial : (Async.lawful S permits law).inv (.empty s) :=
    fun t => ⟨fun _ => rfl, fun _ running => by cases running⟩
  have exec : (Async.lawful S permits law).exec = (S.journaled admits permits).exec := rfl
  exact ((reachable.safe exec initial starts).1 t).2 call running

/-- Every operation was performed where the history before it had led. -/
theorem Reaches.at_entry {later earlier : List (Entry Op Res σ κ)} {e : Entry Op Res σ κ}
    (reaches : S.Reaches admits permits s j) (isPast : j.past = later ++ e :: earlier) :
    ∃ j', S.Reaches admits permits s j' ∧ j'.past = earlier ∧ j'.Performs S permits e := by
  obtain ⟨threads, reachable⟩ := reaches
  generalize config : (⟨j, threads⟩ : Config Op Res (Journal Op Res σ κ) (Except ε β)) = c at reachable
  obtain rfl : c.state = j := by rw [← config]
  clear config
  induction reachable generalizing later with
  | initial => exact absurd isPast (by simp)
  | @step c c' before step ih =>
      cases step with
      | start _ started =>
          obtain ⟨_, _, _, _, rfl⟩ := started
          exact ih isPast
      | await waiting performed =>
          obtain ⟨last, _, _, performs, rfl⟩ := performed
          cases later with
          | nil =>
              obtain ⟨rfl, rfl⟩ := List.cons.inj isPast
              exact ⟨c.state, ⟨_, before⟩, rfl, performs⟩
          | cons _ rest => exact ih (List.cons.inj isPast).2

/-- Every operation of a thread follows the law of its call, after those before it. -/
theorem Reaches.lawful_at (follows : S.Follows permits law) (reaches : S.Reaches admits permits s j)
    {later earlier : List (Entry Op Res σ κ)} {e : Entry Op Res σ κ}
    (isPast : j.past = later ++ e :: earlier) {call : κ} (running : j.calls e.thread = some call) :
    law call (own e.thread earlier) e.op := by
  have lawful := reaches.lawful follows e.thread running
  rw [Journal.log, isPast, own_append] at lawful
  have here := lawful.of_append
  simp only [own, if_true] at here
  exact here.1

/-- What holds at first and is kept by every call begun and every operation performed. -/
theorem Reaches.kept (inv : Journal Op Res σ κ → Prop) (initial : inv (.empty s))
    (begins : ∀ j t call, inv j → j.calls t = none → admits j call → inv (j.begin t call))
    (records : ∀ j e, inv j → S.Reaches admits permits s j → j.Performs S permits e →
      S.Reaches admits permits s (j.record e) → inv (j.record e))
    (reaches : S.Reaches admits permits s j) : inv j := by
  obtain ⟨threads, reachable⟩ := reaches
  generalize config : (⟨j, threads⟩ : Config Op Res (Journal Op Res σ κ) (Except ε β)) = c at reachable
  obtain rfl : c.state = j := by rw [← config]
  clear config
  induction reachable with
  | initial => exact initial
  | @step c c' before step ih =>
      cases step with
      | start _ started =>
          obtain ⟨idle, call, admitted, _, rfl⟩ := started
          exact begins _ _ _ ih idle admitted
      | @await t op next result j' waiting performed =>
          have after : S.Reaches admits permits s j' := ⟨_, before.step (.await waiting performed)⟩
          obtain ⟨e, rfl, _, performs, rfl⟩ := performed
          exact records _ e ih ⟨_, before⟩ performs after

/-- What every operation of a run is found to be, given that those before it are. -/
theorem strengthened {permits' : Journal Op Res σ κ → Entry Op Res σ κ → Prop}
    (found : ∀ j e, S.Reaches admits permits s j → S.Reaches admits permits' s j →
      j.Performs S permits e → S.Reaches admits permits s (j.record e) → permits' j e)
    {c : Config Op Res (Journal Op Res σ κ) (Except ε β)}
    (reachable : (S.journaled admits permits).Reachable (.empty s) c) :
    (S.journaled admits permits').Reachable (.empty s) c := by
  induction reachable with
  | initial => exact .initial
  | @step c c' before step ih =>
      cases step with
      | start idle started => exact ih.step (.start idle started)
      | @await t op next result j' waiting performed =>
          have after : S.Reaches admits permits s j' := ⟨_, before.step (.await waiting performed)⟩
          obtain ⟨e, thread, isOp, performs, rfl⟩ := performed
          have permitted := found _ e ⟨_, before⟩ ⟨_, ih⟩ performs after
          exact ih.step (.await waiting
            ⟨e, thread, isOp, ⟨performs.running, performs.before, performs.exec, permitted⟩, rfl⟩)

theorem Reaches.strengthen {permits' : Journal Op Res σ κ → Entry Op Res σ κ → Prop}
    (found : ∀ j e, S.Reaches admits permits s j → S.Reaches admits permits' s j →
      j.Performs S permits e → S.Reaches admits permits s (j.record e) → permits' j e)
    (reaches : S.Reaches admits permits s j) : S.Reaches admits permits' s j := by
  obtain ⟨threads, reachable⟩ := reaches
  exact ⟨threads, strengthened found reachable⟩

/-- The state is the one the last operation left. -/
theorem Reaches.state_eq {e : Entry Op Res σ κ} {earlier : List (Entry Op Res σ κ)}
    (reaches : S.Reaches admits permits s j) (isPast : j.past = e :: earlier) : j.state = e.after := by
  revert e earlier
  refine reaches.kept (fun j => ∀ {e earlier}, j.past = e :: earlier → j.state = e.after) ?_ ?_ ?_
  · intro e earlier isPast
    cases isPast
  · exact fun _ _ _ holds _ _ => holds
  · intro j e _ _ _ _ e' earlier isPast
    obtain ⟨rfl, _⟩ := List.cons.inj isPast
    rfl

/-- What held after an operation, and every later one keeps, holds still. -/
theorem Reaches.stays {P : σ → Prop} {later earlier : List (Entry Op Res σ κ)} {e : Entry Op Res σ κ}
    (reaches : S.Reaches admits permits s j) (isPast : j.past = later ++ e :: earlier) (start : P e.after)
    (kept : ∀ x ∈ later, P x.before → P x.after) : P j.state := by
  induction later generalizing j with
  | nil =>
      rw [reaches.state_eq isPast]
      exact start
  | cons x rest ih =>
      have isHead : j.past = [] ++ x :: (rest ++ e :: earlier) := isPast
      obtain ⟨j', reaches', isPast', performs⟩ := reaches.at_entry isHead
      rw [reaches.state_eq isPast]
      apply kept x List.mem_cons_self
      rw [performs.before]
      exact ih reaches' isPast' fun y member => kept y (List.mem_cons_of_mem _ member)

theorem Reaches.ran (reaches : S.Reaches admits permits s j) :
    ∀ e ∈ j.past, j.calls e.thread = some e.call := by
  refine reaches.kept (fun j => ∀ e ∈ j.past, j.calls e.thread = some e.call)
    (fun e old => by cases old) ?_ ?_
  · intro j t call ran idle _ e old
    exact Journal.calls_begin idle (ran e old)
  · intro j e ran _ performs _ e' member
    rcases List.mem_cons.mp member with rfl | old
    · exact performs.running
    · exact ran e' old

/-- Who has not been called has done nothing. -/
theorem Reaches.silent (reaches : S.Reaches admits permits s j) {t : Nat} (idle : j.calls t = none) :
    j.log t = [] := by
  rw [List.eq_nil_iff_forall_not_mem]
  intro x member
  obtain ⟨e, inPast, rfl, _⟩ := mem_of_own member
  rw [reaches.ran e inPast] at idle
  cases idle

/-- The same, with the law every operation follows; a call begins with an empty log. -/
theorem Reaches.invariant (inv : Journal Op Res σ κ → Prop) (follows : S.Follows permits law)
    (initial : inv (.empty s))
    (begins : ∀ j t call, inv j → j.calls t = none → j.log t = [] → admits j call →
      inv (j.begin t call))
    (records : ∀ j e, inv j → j.Performs S permits e → law e.call (j.log e.thread) e.op →
      inv (j.record e))
    (reaches : S.Reaches admits permits s j) : inv j := by
  have both := reaches.kept (fun j => inv j ∧ ∀ t, j.calls t = none → j.log t = [])
    ⟨initial, fun _ _ => rfl⟩ ?_ ?_
  · exact both.1
  · rintro j t call ⟨holds, quiet⟩ idle admitted
    refine ⟨begins j t call holds idle (quiet t idle) admitted, fun u idle' => ?_⟩
    by_cases same : u = t
    · exact same ▸ quiet t idle
    · rw [Journal.begin_calls_of_ne same] at idle'
      exact quiet u idle'
  · rintro j e ⟨holds, quiet⟩ _ performs after
    have lawful := after.lawful follows e.thread performs.running
    rw [Journal.record_log_self] at lawful
    refine ⟨records j e holds performs lawful.1, fun t idle => ?_⟩
    have other : e.thread ≠ t := by
      rintro rfl
      rw [Journal.record_calls, performs.running] at idle
      cases idle
    rw [Journal.record_log_of_ne other]
    exact quiet t idle

end Service

/-- The next `n` operations of a thread, with nothing special about their answers. -/
def steps [Inhabited ι] (t n : Nat) : List (Move κ ι) :=
  List.replicate n (.await t default)

namespace Service

variable {S : Service Op Res σ κ (Except ε β)} {admits : Journal Op Res σ κ → κ → Prop}
  {permits : Journal Op Res σ κ → Entry Op Res σ κ → Prop} {s : σ}

/-- Calls and answers as chosen, of the calls that are allowed. -/
def schedule (S : Service Op Res σ κ (Except ε β))
    (perform : Nat → σ → (op : Op) → ι → Option (Res op × σ)) (allows : κ → Bool) :
    Schedule Op Res (Journal Op Res σ κ) (Except ε β) κ ι where
  start t j call :=
    match j.calls t with
    | some _ => none
    | none => if allows call then some (S.program call, j.begin t call) else none
  perform t j op a :=
    match j.calls t with
    | none => none
    | some call =>
        match perform t j.state op a with
        | none => none
        | some (result, s') => some (result, j.record ⟨t, call, op, result, j.state, s'⟩)

theorem schedule_sound {perform : Nat → σ → (op : Op) → ι → Option (Res op × σ)} {allows : κ → Bool}
    (calls : ∀ j call, allows call → admits j call)
    (performs : ∀ t s op a result s', perform t s op a = some (result, s') →
      S.exec t s op result s') (free : ∀ j e, permits j e) :
    (S.schedule perform allows).Sound (S.journaled admits permits) fun _ => True := by
  refine ⟨fun t j call p j' _ started => ?_, fun t j op a result j' _ performed => ?_⟩
  · simp only [schedule] at started
    split at started
    · contradiction
    next idle =>
      split at started
      next allowed =>
        obtain ⟨rfl, rfl⟩ := Prod.mk.inj (Option.some.inj started)
        exact ⟨⟨idle, call, calls j call allowed, rfl, rfl⟩, trivial⟩
      · contradiction
  · simp only [schedule] at performed
    split at performed
    · contradiction
    next call running =>
      split at performed
      · contradiction
      next answer s' executed =>
        obtain ⟨rfl, rfl⟩ := Prod.mk.inj (Option.some.inj performed)
        exact ⟨⟨_, rfl, rfl, ⟨running, rfl, performs _ _ _ _ _ _ executed, free _ _⟩, rfl⟩, trivial⟩

/-- The same for a few threads, where each call and each step is looked at first. -/
def vetted (S : Service Op Res σ κ (Except ε β))
    (perform : Nat → σ → (op : Op) → ι → Option (Res op × σ)) (threads : Nat)
    (starts : Journal Op Res σ κ → κ → Bool)
    (allows : Journal Op Res σ κ → Entry Op Res σ κ → Bool) :
    Schedule Op Res (Journal Op Res σ κ) (Except ε β) κ ι where
  start t j call :=
    match j.calls t with
    | some _ => none
    | none =>
        if t < threads && starts j call then some (S.program call, j.begin t call) else none
  perform t j op a :=
    match j.calls t with
    | none => none
    | some call =>
        match perform t j.state op a with
        | none => none
        | some (result, s') =>
            let e : Entry Op Res σ κ := ⟨t, call, op, result, j.state, s'⟩
            if allows j e then some (result, j.record e) else none

/-- Only the first threads run. -/
def Few (threads : Nat) (j : Journal Op Res σ κ) : Prop :=
  ∀ t, threads ≤ t → j.calls t = none

theorem vetted_sound {perform : Nat → σ → (op : Op) → ι → Option (Res op × σ)} {threads : Nat}
    {starts : Journal Op Res σ κ → κ → Bool}
    {allows : Journal Op Res σ κ → Entry Op Res σ κ → Bool}
    (calls : ∀ j call, Few threads j → starts j call → admits j call)
    (performs : ∀ t s op a result s', perform t s op a = some (result, s') →
      S.exec t s op result s') (allowed : ∀ j e, Few threads j → allows j e → permits j e) :
    (S.vetted perform threads starts allows).Sound (S.journaled admits permits)
      (Few threads) := by
  refine ⟨fun t j call p j' few started => ?_, fun t j op a result j' few performed => ?_⟩
  · simp only [vetted] at started
    split at started
    · contradiction
    next idle =>
      split at started
      next fine =>
        rw [Bool.and_eq_true, decide_eq_true_eq] at fine
        obtain ⟨rfl, rfl⟩ := Prod.mk.inj (Option.some.inj started)
        refine ⟨⟨idle, call, calls j call few fine.2, rfl, rfl⟩, fun u above => ?_⟩
        rw [Journal.begin_calls_of_ne (by omega)]
        exact few u above
      · contradiction
  · simp only [vetted] at performed
    split at performed
    · contradiction
    next call running =>
      split at performed
      · contradiction
      next answer s' executed =>
        split at performed
        next fine =>
          obtain ⟨rfl, rfl⟩ := Prod.mk.inj (Option.some.inj performed)
          exact ⟨⟨_, rfl, rfl, ⟨running, rfl, performs _ _ _ _ _ _ executed, allowed _ _ few fine⟩,
            rfl⟩, few⟩
        · contradiction

def unstarted (s : σ) : Config Op Res (Journal Op Res σ κ) (Except ε β) where
  state := .empty s
  threads _ := none

/-- A call is started, and given its answers. -/
def moves (t : Nat) (call : κ) (answers : List ι) : List (Move κ ι) :=
  .start t call :: answers.map (.await t)

/-- What a schedule comes to, the system reaches. -/
theorem reaches_follow {perform : Nat → σ → (op : Op) → ι → Option (Res op × σ)} {allows : κ → Bool}
    (calls : ∀ j call, allows call → admits j call)
    (performs : ∀ t s op a result s', perform t s op a = some (result, s') →
      S.exec t s op result s') (free : ∀ j e, permits j e)
    {plan : List (Move κ ι)} {config : Config Op Res (Journal Op Res σ κ) (Except ε β)}
    (followed : (S.schedule perform allows).follow (unstarted s) plan = some config) :
    S.Reaches admits permits s config.state :=
  ⟨config.threads, ((schedule_sound calls performs free).follow .initial trivial followed).1⟩

theorem reaches_vetted {perform : Nat → σ → (op : Op) → ι → Option (Res op × σ)} {threads : Nat}
    {starts : Journal Op Res σ κ → κ → Bool}
    {allows : Journal Op Res σ κ → Entry Op Res σ κ → Bool}
    (calls : ∀ j call, Few threads j → starts j call → admits j call)
    (performs : ∀ t s op a result s', perform t s op a = some (result, s') →
      S.exec t s op result s') (allowed : ∀ j e, Few threads j → allows j e → permits j e)
    {plan : List (Move κ ι)} {config : Config Op Res (Journal Op Res σ κ) (Except ε β)}
    (followed : (S.vetted perform threads starts allows).follow (unstarted s) plan = some config) :
    S.Reaches admits permits s config.state :=
  ⟨config.threads, ((vetted_sound calls performs allowed).follow .initial (fun _ _ => rfl) followed).1⟩

/-- What a thread runs on its own, with a journal kept of it; `exec` is what it performs of what
it may. -/
theorem runs_journaled {t : Nat} {call : κ} {exec : σ → (op : Op) → Res op → σ → Prop}
    (may : ∀ (j : Journal Op Res σ κ) op result s', exec j.state op result s' →
      S.exec t j.state op result s' ∧ permits j ⟨t, call, op, result, j.state, s'⟩)
    {α : Type} {p : Program Op Res α} {value : α} {before after : σ}
    (run : Runs exec before p value after)
    {j : Journal Op Res σ κ} (isState : j.state = before) (running : j.calls t = some call) :
    ∃ later : List (Entry Op Res σ κ),
      Runs ((S.journaled admits permits).exec t) j p value ⟨after, j.calls, later ++ j.past⟩ ∧
      ∀ P : σ → Prop, (∀ e ∈ later, P e.before → P e.after) → P before → P after := by
  induction run generalizing j with
  | done =>
      subst isState
      exact ⟨[], .done, fun _ _ => id⟩
  | @await s s₁ s₂ op next answer value performed _ ih =>
      subst isState
      let e : Entry Op Res σ κ := ⟨t, call, op, answer, j.state, s₁⟩
      obtain ⟨executed, permitted⟩ := may j op answer s₁ performed
      obtain ⟨later, rest, keeps⟩ := ih (j := j.record e) rfl running
      refine ⟨later ++ [e], ?_, fun P each start => ?_⟩
      · rw [List.append_assoc]
        exact .await ⟨e, rfl, rfl, ⟨running, rfl, executed, permitted⟩, rfl⟩ rest
      · have first : P s₁ := each e (List.mem_append_right _ (List.mem_singleton_self _)) start
        exact keeps P (fun e' member => each e' (List.mem_append_left _ member)) first

/-- A call may run to its end with no switch in between. -/
theorem reachable_solo (free : ∀ j e, permits j e) {t : Nat} {call : κ} {value : Except ε β}
    {c : Config Op Res (Journal Op Res σ κ) (Except ε β)} {after : σ}
    (reachable : (S.journaled admits permits).Reachable (.empty s) c) (idle : c.threads t = none)
    (unused : c.state.calls t = none) (admitted : admits c.state call)
    (run : Runs (S.exec t) c.state.state (S.program call) value after) :
    ∃ later, (S.journaled admits permits).Reachable (.empty s)
        ⟨⟨after, (c.state.begin t call).calls, later ++ c.state.past⟩,
          Function.update c.threads t (some (.done value))⟩ ∧
      ∀ P : σ → Prop, (∀ e ∈ later, P e.before → P e.after) → P c.state.state → P after := by
  have running : (c.state.begin t call).calls t = some call := Journal.begin_calls_self ..
  obtain ⟨later, journaled, keeps⟩ := runs_journaled (S := S)
    (fun j op result s' performed => ⟨performed, free j _⟩) run (j := c.state.begin t call) rfl
    running
  exact ⟨later, reachable.solo idle ⟨unused, call, admitted, rfl, rfl⟩ journaled, keeps⟩

end Service

end Async
