import Mathlib.Data.List.Nodup
import Mathlib.Logic.Function.Basic
import Mathlib.Tactic.Common

/-!
`services/stompSocket.ts`: the handlers of a socket, and the dispatches that call them.  A handler
may do to the socket whatever any other code may, so dispatches are within one another.
-/

namespace Listeners

variable {Fn : Type} [DecidableEq Fn]

/-- What the set of an event holds: a function, or what `once` has made of one. -/
inductive Handler (Fn : Type)
  | passed (f : Fn)
  | wrapped (name : Nat) (event : String) (f : Fn)
  deriving DecidableEq

/-- The function its caller knows it by. -/
def Handler.handler : Handler Fn → Fn
  | .passed f => f
  | .wrapped _ _ f => f

/-- The loop of a dispatch, with what it has yet to call of its copy of the set. -/
structure Frame (Fn : Type) where
  dispatch : Nat
  event : String
  remaining : List (Handler Fn)

/-- The innermost dispatch is first. -/
structure Socket (Fn : Type) where
  listeners : String → Option (List (Handler Fn)) := fun _ => none
  wrappers : Nat := 0
  dispatches : Nat := 0
  running : List (Frame Fn) := []

/-- `Set.prototype.add` -/
def add (set : List (Handler Fn)) (h : Handler Fn) : List (Handler Fn) :=
  if h ∈ set then set else set ++ [h]

namespace Socket

/-- `on`, of a function or of a wrapper. -/
def on (s : Socket Fn) (event : String) (h : Handler Fn) : Socket Fn :=
  { s with
    listeners := Function.update s.listeners event (some (add ((s.listeners event).getD []) h)) }

def once (s : Socket Fn) (event : String) (f : Fn) : Socket Fn :=
  { s with wrappers := s.wrappers + 1 }.on event (.wrapped s.wrappers event f)

/-- `off`, of a function or of a wrapper, or of all. -/
def off (s : Socket Fn) (event : String) : Option (Handler Fn) → Socket Fn
  | none => { s with listeners := Function.update s.listeners event none }
  | some h =>
      { s with
        listeners := Function.update s.listeners event
          ((s.listeners event).map fun set => set.filter (· ≠ h)) }

def dispatch (s : Socket Fn) (event : String) : Socket Fn :=
  { s with
    dispatches := s.dispatches + 1
    running := ⟨s.dispatches, event, (s.listeners event).getD []⟩ :: s.running }

/-- A wrapper takes itself off before it calls its function. -/
def enter (s : Socket Fn) : Handler Fn → Socket Fn
  | .passed _ => s
  | .wrapped name event f => s.off event (some (.wrapped name event f))

end Socket

/-- What happens on a socket.  An exception of a handler ends the dispatch that has called it. -/
inductive Entry (Fn : Type)
  | on (event : String) (f : Fn)
  | once (event : String) (f : Fn) (name : Nat)
  | off (event : String) (f : Option Fn)
  | began (dispatch : Nat) (event : String)
  | called (dispatch : Nat) (event : String) (h : Handler Fn)
  | ended (dispatch : Nat)
  | threw (dispatch : Nat)
  deriving DecidableEq

/-- The latest first. -/
abbrev Log (Fn : Type) :=
  List (Entry Fn)

def step (s : Socket Fn) : Entry Fn → Option (Socket Fn)
  | .on event f => some (s.on event (.passed f))
  | .once event f name => if name = s.wrappers then some (s.once event f) else none
  | .off event f => some (s.off event (f.map .passed))
  | .began d event => if d = s.dispatches then some (s.dispatch event) else none
  | .called d event h =>
      match s.running with
      | ⟨d', event', h' :: remaining⟩ :: outer =>
          if d = d' ∧ event = event' ∧ h = h' then
            some ({ s with running := ⟨d', event', remaining⟩ :: outer }.enter h)
          else none
      | _ => none
  | .ended d =>
      match s.running with
      | ⟨d', _, []⟩ :: outer => if d = d' then some { s with running := outer } else none
      | _ => none
  | .threw d =>
      match s.running with
      | frame :: outer => if d = frame.dispatch then some { s with running := outer } else none
      | [] => none

/-- The handlers that are registered for an event: neither removed since nor, from `once`, called. -/
def registered : Log Fn → String → List (Handler Fn)
  | [], _ => []
  | .on event' f :: earlier, event =>
      if event = event' then add (registered earlier event) (.passed f) else registered earlier event
  | .once event' f name :: earlier, event =>
      if event = event' then add (registered earlier event) (.wrapped name event' f)
      else registered earlier event
  | .off event' f :: earlier, event =>
      if event = event' then (registered earlier event).filter fun h => f.any (h.handler ≠ ·)
      else registered earlier event
  | .called _ _ (.wrapped name event' f) :: earlier, event =>
      if event = event' then (registered earlier event).filter (· ≠ .wrapped name event' f)
      else registered earlier event
  | _ :: earlier, event => registered earlier event

/-- What was registered when a dispatch began. -/
def beganWith : Log Fn → Nat → List (Handler Fn)
  | [], _ => []
  | .began d' event :: earlier, d => if d = d' then registered earlier event else beganWith earlier d
  | _ :: earlier, d => beganWith earlier d

/-- What a dispatch has called, in order. -/
def calls : Log Fn → Nat → List (Handler Fn)
  | [], _ => []
  | .called d' _ h :: earlier, d => if d = d' then calls earlier d ++ [h] else calls earlier d
  | _ :: earlier, d => calls earlier d

def Entry.calls (h : Handler Fn) : Entry Fn → Bool
  | .called _ _ h' => h = h'
  | _ => false

/-- A dispatch calls what was registered when it began, all of it and in order, and each as long
as it is registered still; and what `once` has registered is called once. -/
structure Law (log : Log Fn) : Prop where
  whole : ∀ later d earlier, log = later ++ .ended d :: earlier ∨ log = later ++ .threw d :: earlier →
    calls earlier d = beganWith earlier d
  standing : ∀ later d event h earlier, log = later ++ .called d event h :: earlier →
    h ∈ registered earlier event
  once : ∀ name event f, log.countP (Entry.calls (.wrapped name event f)) ≤ 1

/-- The handlers a dispatch of the event would call. -/
def Socket.handlers (s : Socket Fn) (event : String) : List (Handler Fn) :=
  (s.listeners event).getD []

/-- `off` is of no function that `once` has registered; and no dispatch ends by an exception
before its last handler. -/
def Recognises (s : Socket Fn) : Entry Fn → Prop
  | .off event (some f) => ∀ name event', .wrapped name event' f ∉ s.handlers event
  | .threw _ => ∀ frame ∈ s.running.head?, frame.remaining = []
  | _ => True

/-- Nothing is taken off that a dispatch of the event has yet to call, and no dispatch begins
within one that has yet to call what `once` has registered. -/
def Settled (s : Socket Fn) : Entry Fn → Prop
  | .off event f => ∀ frame ∈ s.running, frame.event = event →
      ∀ h ∈ frame.remaining, f.any (h.handler ≠ ·)
  | .began _ event => ∀ frame ∈ s.running, frame.event = event →
      ∀ name event' f, .wrapped name event' f ∉ frame.remaining
  | _ => True

/-- A run from a socket without handlers, all of whose steps meet a condition. -/
inductive Reaches (allowed : Socket Fn → Entry Fn → Prop) : Socket Fn → Log Fn → Prop
  | start : Reaches allowed {} []
  | step {s s' log entry} : Reaches allowed s log → allowed s entry → step s entry = some s' →
      Reaches allowed s' (entry :: log)

/-- What a step can do. -/
inductive Step (s : Socket Fn) : Entry Fn → Socket Fn → Prop
  | on (event f) : Step s (.on event f) (s.on event (.passed f))
  | once (event f) : Step s (.once event f s.wrappers) (s.once event f)
  | off (event f) : Step s (.off event f) (s.off event (f.map .passed))
  | began (event) : Step s (.began s.dispatches event) (s.dispatch event)
  | called {d event h remaining outer} : s.running = ⟨d, event, h :: remaining⟩ :: outer →
      Step s (.called d event h) ({ s with running := ⟨d, event, remaining⟩ :: outer }.enter h)
  | ended {d event outer} : s.running = ⟨d, event, []⟩ :: outer →
      Step s (.ended d) { s with running := outer }
  | threw {frame outer} : s.running = frame :: outer →
      Step s (.threw frame.dispatch) { s with running := outer }

theorem step_cases {s s' : Socket Fn} {entry : Entry Fn} (performed : step s entry = some s') :
    Step s entry s' := by
  cases entry with
  | on event f => exact Option.some.inj performed ▸ .on event f
  | once event f name =>
      simp only [step] at performed
      split at performed
      next isName =>
        subst isName
        exact Option.some.inj performed ▸ .once event f
      · cases performed
  | off event f => exact Option.some.inj performed ▸ .off event f
  | began d event =>
      simp only [step] at performed
      split at performed
      next isName =>
        subst isName
        exact Option.some.inj performed ▸ .began event
      · cases performed
  | called d event h =>
      simp only [step] at performed
      split at performed
      next d' event' h' remaining outer isRunning =>
        split at performed
        next same =>
          obtain ⟨rfl, rfl, rfl⟩ := same
          exact Option.some.inj performed ▸ .called isRunning
        · cases performed
      · cases performed
  | ended d =>
      simp only [step] at performed
      split at performed
      next d' event' outer isRunning =>
        split at performed
        next same =>
          subst same
          exact Option.some.inj performed ▸ .ended isRunning
        · cases performed
      · cases performed
  | threw d =>
      simp only [step] at performed
      split at performed
      next frame outer isRunning =>
        split at performed
        next same =>
          subst same
          exact Option.some.inj performed ▸ .threw isRunning
        · cases performed
      · cases performed

section Sets

variable {s : Socket Fn} {event event' : String} {h : Handler Fn}

theorem mem_add {set : List (Handler Fn)} {h h' : Handler Fn} : h' ∈ add set h ↔ h' ∈ set ∨ h' = h := by
  unfold add
  by_cases already : h ∈ set
  · rw [if_pos already]
    grind
  · rw [if_neg already]
    simp

theorem nodup_add {set : List (Handler Fn)} (distinct : set.Nodup) (h : Handler Fn) :
    (add set h).Nodup := by
  unfold add
  by_cases already : h ∈ set
  · rwa [if_pos already]
  · rw [if_neg already]
    exact List.nodup_append.mpr ⟨distinct, List.nodup_singleton h, by grind⟩

theorem handlers_on : (s.on event h).handlers event' =
    if event' = event then add (s.handlers event) h else s.handlers event' := by
  by_cases same : event' = event
  · subst same
    simp [Socket.on, Socket.handlers]
  · simp [Socket.on, Socket.handlers, same]

theorem handlers_off : (s.off event (some h)).handlers event' =
    if event' = event then (s.handlers event).filter (· ≠ h) else s.handlers event' := by
  by_cases same : event' = event
  · subst same
    cases held : s.listeners event' <;> simp [Socket.off, Socket.handlers, held]
  · simp [Socket.off, Socket.handlers, same]

theorem handlers_clear : (s.off event none).handlers event' =
    if event' = event then [] else s.handlers event' := by
  by_cases same : event' = event
  · subst same
    simp [Socket.off, Socket.handlers]
  · simp [Socket.off, Socket.handlers, same]

@[simp] theorem running_enter : (s.enter h).running = s.running := by
  cases h <;> rfl

@[simp] theorem dispatches_enter : (s.enter h).dispatches = s.dispatches := by
  cases h <;> rfl

omit [DecidableEq Fn] in
@[simp] theorem handlers_running {running : List (Frame Fn)} :
    ({ s with running := running } : Socket Fn).handlers event = s.handlers event := by
  rfl

/-- A call takes a wrapper from the set, and from nowhere else. -/
theorem mem_handlers_enter {h' : Handler Fn} : h' ∈ (s.enter h).handlers event →
    h' ∈ s.handlers event := by
  cases h with
  | passed f => exact id
  | wrapped name event' f =>
      rw [Socket.enter, handlers_off]
      split
      next same =>
        subst same
        exact fun member => (List.mem_filter.mp member).1
      · exact id

end Sets

section Whole

variable {s s' : Socket Fn} {log : Log Fn} {entry : Entry Fn}

/-- The sets hold what is registered, and each loop has before it what it has yet to call. -/
structure Whole (s : Socket Fn) (log : Log Fn) : Prop where
  same : ∀ event, s.handlers event = registered log event
  frames : ∀ frame ∈ s.running,
    calls log frame.dispatch ++ frame.remaining = beganWith log frame.dispatch
  names : (s.running.map Frame.dispatch).Nodup
  below : ∀ frame ∈ s.running, frame.dispatch < s.dispatches
  unused : ∀ d, s.dispatches ≤ d → calls log d = []

theorem handlers_step (same : ∀ event, s.handlers event = registered log event)
    (recognises : Recognises s entry) (performed : step s entry = some s') (event : String) :
    s'.handlers event = registered (entry :: log) event := by
  cases step_cases performed with
  | on event' f =>
      rw [handlers_on, registered, same, same]
      split
      next isEvent => rw [isEvent]
      · rfl
  | once event' f =>
      have made : (s.once event' f).handlers event =
          if event = event' then add (s.handlers event') (.wrapped s.wrappers event' f)
          else s.handlers event := handlers_on
      rw [made, registered, same, same]
      split
      next isEvent => rw [isEvent]
      · rfl
  | off event' f =>
      cases f with
      | none =>
          rw [Option.map_none, handlers_clear, registered, same]
          simp
      | some f =>
          rw [Option.map_some, handlers_off, registered, same event]
          split
          next isEvent =>
            subst isEvent
            rw [← same]
            refine List.filter_congr fun h member => ?_
            cases h with
            | passed g => by_cases isSame : g = f <;> simp [Handler.handler, isSame]
            | wrapped name event' g =>
                have other : g ≠ f := fun isSame => recognises name event' (isSame ▸ member)
                simp [Handler.handler, other]
          · rfl
  | began event' => exact same event
  | @called d event' h remaining outer isRunning =>
      cases h with
      | passed f => exact same event
      | wrapped name event'' f =>
          simp only [Socket.enter, handlers_off, handlers_running, registered, same]
          split
          next isEvent => rw [isEvent]
          · rfl
  | ended isRunning => exact same event
  | threw isRunning => exact same event

theorem Whole.step (whole : Whole s log) (recognises : Recognises s entry)
    (performed : step s entry = some s') : Whole s' (entry :: log) := by
  have same := handlers_step whole.same recognises performed
  cases step_cases performed with
  | on event f => exact ⟨same, whole.frames, whole.names, whole.below, whole.unused⟩
  | once event f => exact ⟨same, whole.frames, whole.names, whole.below, whole.unused⟩
  | off event f => cases f <;> exact ⟨same, whole.frames, whole.names, whole.below, whole.unused⟩
  | began event =>
      have new : ∀ frame ∈ s.running, frame.dispatch ≠ s.dispatches :=
        fun frame member => Nat.ne_of_lt (whole.below frame member)
      refine ⟨same, ?_, ?_, ?_, ?_⟩
      · intro frame member
        rcases List.mem_cons.mp member with rfl | older
        · have isNone := whole.unused s.dispatches (Nat.le_refl _)
          simp only [calls, beganWith, if_true, isNone, List.nil_append, ← whole.same]
          rfl
        · simp only [calls, beganWith, if_neg (new frame older)]
          exact whole.frames frame older
      · refine List.nodup_cons.mpr ⟨fun member => ?_, whole.names⟩
        obtain ⟨frame, older, isName⟩ := List.mem_map.mp member
        exact new frame older isName
      · intro frame member
        rcases List.mem_cons.mp member with rfl | older
        · exact Nat.lt_succ_self _
        · exact Nat.lt_succ_of_lt (whole.below frame older)
      · intro d beyond
        exact whole.unused d (Nat.le_of_succ_le beyond)
  | @called d event h remaining outer isRunning =>
      obtain ⟨_, frames, names, below, unused⟩ := whole
      rw [isRunning] at frames names below
      have others : ∀ frame ∈ outer, frame.dispatch ≠ d := by
        intro frame member isName
        exact (List.nodup_cons.mp names).1 (List.mem_map.mpr ⟨frame, member, isName⟩)
      have isBelow := below ⟨d, event, h :: remaining⟩ (by simp)
      refine ⟨same, ?_, ?_, ?_, ?_⟩
      · intro frame member
        rw [running_enter] at member
        rcases List.mem_cons.mp member with rfl | older
        · have here := frames ⟨d, event, h :: remaining⟩ (by simp)
          simpa [calls, beganWith] using here
        · simp only [calls, beganWith, if_neg (others frame older)]
          exact frames frame (by simp [older])
      · rw [running_enter]
        exact names
      · intro frame member
        rw [running_enter] at member
        rw [dispatches_enter]
        rcases List.mem_cons.mp member with rfl | older
        · exact isBelow
        · exact below frame (by simp [older])
      · intro d' beyond
        rw [dispatches_enter] at beyond
        have other : d' ≠ d := by
          have less : d < s.dispatches := isBelow
          have atLeast : s.dispatches ≤ d' := beyond
          omega
        simp only [calls, if_neg other]
        exact unused d' beyond
  | ended isRunning =>
      obtain ⟨_, frames, names, below, unused⟩ := whole
      rw [isRunning] at frames names below
      exact ⟨same, fun frame member => frames frame (by simp [member]), (List.nodup_cons.mp names).2,
        fun frame member => below frame (by simp [member]), unused⟩
  | threw isRunning =>
      obtain ⟨_, frames, names, below, unused⟩ := whole
      rw [isRunning] at frames names below
      exact ⟨same, fun frame member => frames frame (by simp [member]), (List.nodup_cons.mp names).2,
        fun frame member => below frame (by simp [member]), unused⟩

end Whole

section Standing

variable {s s' : Socket Fn} {log : Log Fn} {entry : Entry Fn}

/-- What a loop has yet to call is registered, and what `once` has registered is in one loop. -/
structure Standing (s : Socket Fn) (log : Log Fn) : Prop where
  registered : ∀ frame ∈ s.running, ∀ h ∈ frame.remaining, h ∈ s.handlers frame.event
  distinct : ∀ frame ∈ s.running, frame.remaining.Nodup
  nodup : ∀ event, (s.handlers event).Nodup
  own : ∀ event name event' f, .wrapped name event' f ∈ s.handlers event →
    name < s.wrappers ∧ event' = event
  inner : s.running.Pairwise fun inner outer => inner.event = outer.event →
    ∀ name event f, .wrapped name event f ∉ outer.remaining
  fired : ∀ name event f, 0 < log.countP (Entry.calls (.wrapped name event f)) →
    name < s.wrappers ∧ ∀ event', .wrapped name event f ∉ s.handlers event'
  once : ∀ name event f, log.countP (Entry.calls (.wrapped name event f)) ≤ 1

/-- One more handler in the set of an event. -/
theorem Standing.add {t : Socket Fn} {event : String} {h : Handler Fn} (standing : Standing s log)
    (running : t.running = s.running) (wrappers : s.wrappers ≤ t.wrappers)
    (handlers : ∀ event', t.handlers event' =
      if event' = event then Listeners.add (s.handlers event) h else s.handlers event')
    (new : ∀ name event' f, h = .wrapped name event' f →
      name < t.wrappers ∧ s.wrappers ≤ name ∧ event' = event) : Standing t log := by
  have grows : ∀ event' h', h' ∈ s.handlers event' → h' ∈ t.handlers event' := by
    intro event' h' member
    rw [handlers]
    split
    next isEvent => exact mem_add.mpr (.inl (isEvent ▸ member))
    · exact member
  have only : ∀ event' h', h' ∈ t.handlers event' → h' ∈ s.handlers event' ∨ h' = h ∧ event' = event := by
    intro event' h' member
    rw [handlers] at member
    split at member
    next isEvent =>
      rcases mem_add.mp member with old | isNew
      · exact .inl (isEvent ▸ old)
      · exact .inr ⟨isNew, isEvent⟩
    · exact .inl member
  refine ⟨?_, by rw [running]; exact standing.distinct, ?_, ?_, by rw [running]; exact standing.inner, ?_,
    standing.once⟩
  · intro frame member h' inFrame
    rw [running] at member
    exact grows _ _ (standing.registered frame member h' inFrame)
  · intro event'
    rw [handlers]
    split
    · exact nodup_add (standing.nodup event) h
    · exact standing.nodup event'
  · intro event' name event'' f member
    rcases only _ _ member with old | ⟨isNew, isEvent⟩
    · obtain ⟨less, same⟩ := standing.own event' name event'' f old
      exact ⟨Nat.lt_of_lt_of_le less wrappers, same⟩
    · obtain ⟨less, _, same⟩ := new name event'' f isNew.symm
      exact ⟨less, same.trans isEvent.symm⟩
  · intro name event' f was
    obtain ⟨less, gone⟩ := standing.fired name event' f was
    refine ⟨Nat.lt_of_lt_of_le less wrappers, fun event'' member => ?_⟩
    rcases only _ _ member with old | ⟨isNew, _⟩
    · exact gone event'' old
    · obtain ⟨_, atLeast, _⟩ := new name event' f isNew.symm
      omega

/-- Fewer handlers, none of which a loop has yet to call. -/
theorem Standing.less {t : Socket Fn} (standing : Standing s log) (running : t.running = s.running)
    (wrappers : t.wrappers = s.wrappers)
    (nodup : ∀ event, (t.handlers event).Nodup)
    (fewer : ∀ event h, h ∈ t.handlers event → h ∈ s.handlers event)
    (keeps : ∀ frame ∈ s.running, ∀ h ∈ frame.remaining, h ∈ t.handlers frame.event) :
    Standing t log := by
  refine ⟨by rw [running]; exact keeps, by rw [running]; exact standing.distinct, nodup, ?_,
    by rw [running]; exact standing.inner, ?_, standing.once⟩
  · intro event name event' f member
    rw [wrappers]
    exact standing.own event name event' f (fewer _ _ member)
  · intro name event f was
    obtain ⟨less, gone⟩ := standing.fired name event f was
    exact ⟨wrappers ▸ less, fun event' member => gone event' (fewer _ _ member)⟩

/-- An entry that calls nothing leaves the counts as they are. -/
theorem Standing.note (standing : Standing s log)
    (quiet : ∀ name event f, Entry.calls (.wrapped name event f) entry = false) :
    Standing s (entry :: log) := by
  have same : ∀ name event f, (entry :: log).countP (Entry.calls (.wrapped name event f)) =
      log.countP (Entry.calls (.wrapped name event f)) := by
    intro name event f
    rw [List.countP_cons_of_neg (by simp [quiet])]
  refine ⟨standing.registered, standing.distinct, standing.nodup, standing.own, standing.inner, ?_, ?_⟩
  · intro name event f
    rw [same]
    exact standing.fired name event f
  · intro name event f
    rw [same]
    exact standing.once name event f

theorem Standing.off (standing : Standing s log) {event : String} {f : Option Fn}
    (settled : Settled s (.off event f)) : Standing (s.off event (f.map .passed)) log := by
  have running : (s.off event (f.map .passed)).running = s.running := by cases f <;> rfl
  have wrappers : (s.off event (f.map .passed)).wrappers = s.wrappers := by cases f <;> rfl
  have handlers : ∀ event', (s.off event (f.map .passed)).handlers event' =
      if event' = event then (s.handlers event).filter fun h => f.any (h ≠ .passed ·)
      else s.handlers event' := by
    intro event'
    cases f with
    | none => simp [handlers_clear]
    | some f => simp [handlers_off]
  refine standing.less running wrappers ?_ ?_ ?_
  · intro event'
    rw [handlers]
    split
    · exact (standing.nodup event).filter _
    · exact standing.nodup event'
  · intro event' h member
    rw [handlers] at member
    split at member
    next isEvent => exact isEvent ▸ (List.mem_filter.mp member).1
    · exact member
  · intro frame member h inFrame
    rw [handlers]
    split
    next isEvent =>
      refine List.mem_filter.mpr ⟨isEvent ▸ standing.registered frame member h inFrame, ?_⟩
      have kept := settled frame member isEvent h inFrame
      cases f with
      | none => simp at kept
      | some f =>
          simp only [Option.any_some, decide_eq_true_eq] at kept ⊢
          rintro rfl
          exact kept rfl
    · exact standing.registered frame member h inFrame

theorem Standing.dispatch (standing : Standing s log) {event : String}
    (settled : Settled s (.began s.dispatches event)) : Standing (s.dispatch event) log := by
  refine ⟨?_, ?_, standing.nodup, standing.own, ?_, standing.fired, standing.once⟩
  · intro frame member h inFrame
    rcases List.mem_cons.mp member with rfl | older
    · exact inFrame
    · exact standing.registered frame older h inFrame
  · intro frame member
    rcases List.mem_cons.mp member with rfl | older
    · exact standing.nodup event
    · exact standing.distinct frame older
  · refine List.pairwise_cons.mpr ⟨fun frame member isEvent => ?_, standing.inner⟩
    exact settled frame member isEvent.symm

theorem Standing.pop {frame : Frame Fn} {outer : List (Frame Fn)} (standing : Standing s log)
    (isRunning : s.running = frame :: outer) : Standing { s with running := outer } log := by
  obtain ⟨registered, distinct, nodup, own, inner, fired, once⟩ := standing
  rw [isRunning] at registered distinct inner
  exact ⟨fun frame member => registered frame (by simp [member]),
    fun frame member => distinct frame (by simp [member]), nodup, own,
    (List.pairwise_cons.mp inner).2, fired, once⟩

/-- A call of the next handler. -/
theorem Standing.call {d : Nat} {event : String} {h : Handler Fn} {remaining : List (Handler Fn)}
    {outer : List (Frame Fn)} (standing : Standing s log)
    (isRunning : s.running = ⟨d, event, h :: remaining⟩ :: outer) :
    Standing ({ s with running := ⟨d, event, remaining⟩ :: outer }.enter h)
      (.called d event h :: log) := by
  obtain ⟨registered, distinct, nodup, own, inner, fired, once⟩ := standing
  rw [isRunning] at registered distinct inner
  have distinct' := List.nodup_cons.mp (distinct ⟨d, event, h :: remaining⟩ (by simp))
  have here : h ∈ s.handlers event := registered ⟨d, event, h :: remaining⟩ (by simp) h (by simp)
  have moved : Standing { s with running := ⟨d, event, remaining⟩ :: outer } log := by
    refine ⟨?_, ?_, nodup, own, ?_, fired, once⟩
    · intro frame member h' inFrame
      rcases List.mem_cons.mp member with rfl | older
      · exact registered ⟨d, event, h :: remaining⟩ (by simp) h' (by simp [inFrame])
      · exact registered frame (by simp [older]) h' inFrame
    · intro frame member
      rcases List.mem_cons.mp member with rfl | older
      · exact distinct'.2
      · exact distinct frame (by simp [older])
    · obtain ⟨first, rest⟩ := List.pairwise_cons.mp inner
      exact List.pairwise_cons.mpr ⟨fun frame member => first frame member, rest⟩
  cases h with
  | passed f => exact moved.note fun name event' g => rfl
  | wrapped name event' f =>
      obtain ⟨less, isEvent⟩ := own event name event' f here
      subst isEvent
      have unfired : log.countP (Entry.calls (.wrapped name event' f)) = 0 := by
        by_contra was
        exact (fired name event' f (Nat.pos_of_ne_zero was)).2 event' here
      have handlers : ∀ event, (Socket.enter { s with running := ⟨d, event', remaining⟩ :: outer }
          (.wrapped name event' f)).handlers event =
          if event = event' then (s.handlers event').filter (· ≠ .wrapped name event' f)
          else s.handlers event := fun event => handlers_off
      have reduced : Standing (Socket.enter { s with running := ⟨d, event', remaining⟩ :: outer }
          (.wrapped name event' f)) log := by
        refine moved.less rfl rfl ?_ (fun event h => mem_handlers_enter) ?_
        · intro event
          rw [handlers]
          split
          · exact (nodup event').filter _
          · exact nodup event
        · intro frame member h inFrame
          have there := moved.registered frame member h inFrame
          rw [handlers]
          split
          next isEvent =>
            refine List.mem_filter.mpr ⟨isEvent ▸ there, ?_⟩
            rw [decide_eq_true_eq]
            rintro rfl
            rcases List.mem_cons.mp member with rfl | older
            · exact distinct'.1 inFrame
            · exact (List.pairwise_cons.mp inner).1 frame older isEvent.symm _ _ _ inFrame
          · exact there
      refine ⟨reduced.registered, reduced.distinct, reduced.nodup, reduced.own, reduced.inner, ?_, ?_⟩
      · intro name' event'' g was
        by_cases same : Handler.wrapped name' event'' g = .wrapped name event' f
        · rw [same]
          obtain ⟨rfl, rfl, rfl⟩ := Handler.wrapped.inj same
          refine ⟨less, fun event member => ?_⟩
          rw [handlers] at member
          split at member
          · exact absurd (List.mem_filter.mp member).2 (by simp)
          next other => exact other (own event name' event'' g member).2.symm
        · rw [List.countP_cons_of_neg (by simpa [Entry.calls] using same)] at was
          exact reduced.fired name' event'' g was
      · intro name' event'' g
        by_cases same : Handler.wrapped name' event'' g = .wrapped name event' f
        · rw [same, List.countP_cons, unfired]
          simp [Entry.calls]
        · rw [List.countP_cons_of_neg (by simpa [Entry.calls] using same)]
          exact once name' event'' g

theorem Standing.step (standing : Standing s log) (settled : Settled s entry)
    (performed : step s entry = some s') : Standing s' (entry :: log) := by
  cases step_cases performed with
  | on event f =>
      have more : Standing (s.on event (.passed f)) log :=
        standing.add rfl (Nat.le_refl _) (fun event' => handlers_on) nofun
      exact more.note fun _ _ _ => rfl
  | once event f =>
      have more : Standing (s.once event f) log := by
        refine standing.add rfl (Nat.le_succ _) (fun event' => handlers_on) ?_
        intro name event' g same
        obtain ⟨rfl, rfl, rfl⟩ := Handler.wrapped.inj same
        exact ⟨Nat.lt_succ_self _, Nat.le_refl _, rfl⟩
      exact more.note fun _ _ _ => rfl
  | off event f => exact (standing.off settled).note fun _ _ _ => rfl
  | began event => exact (standing.dispatch settled).note fun _ _ _ => rfl
  | called isRunning => exact standing.call isRunning
  | ended isRunning => exact (standing.pop isRunning).note fun _ _ _ => rfl
  | threw isRunning => exact (standing.pop isRunning).note fun _ _ _ => rfl

end Standing

section Runs

variable {allowed : Socket Fn → Entry Fn → Prop} {s : Socket Fn} {log : Log Fn}

theorem Reaches.whole (recognises : ∀ s entry, allowed s entry → Recognises s entry)
    (reaches : Reaches allowed s log) : Whole s log := by
  induction reaches with
  | start =>
      exact ⟨fun _ => rfl, nofun, List.nodup_nil, nofun, fun _ _ => rfl⟩
  | step _ permitted performed ih => exact ih.step (recognises _ _ permitted) performed

theorem Reaches.standing (settled : ∀ s entry, allowed s entry → Settled s entry)
    (reaches : Reaches allowed s log) : Standing s log := by
  induction reaches with
  | start =>
      exact ⟨nofun, nofun, fun _ => List.nodup_nil, nofun, List.Pairwise.nil,
        fun _ _ _ was => absurd was (by simp), fun _ _ _ => by simp⟩
  | step _ permitted performed ih => exact ih.step (settled _ _ permitted) performed

/-- An entry of a log was once the latest, after a step that was allowed. -/
theorem Reaches.at_entry {later earlier : Log Fn} {entry : Entry Fn} (reaches : Reaches allowed s log)
    (split : log = later ++ entry :: earlier) :
    ∃ before after, Reaches allowed before earlier ∧ allowed before entry ∧
      Listeners.step before entry = some after := by
  induction reaches generalizing later with
  | start => exact absurd split (by simp)
  | @step before after log' entry' reaches' permitted performed ih =>
      cases later with
      | nil =>
          obtain ⟨rfl, rfl⟩ := List.cons.inj split
          exact ⟨before, after, reaches', permitted, performed⟩
      | cons last later => exact ih (List.cons.inj split).2

/-- Whatever else the handlers do, a dispatch calls what was registered when it began. -/
theorem Reaches.calls_whole (recognises : ∀ s entry, allowed s entry → Recognises s entry)
    (reaches : Reaches allowed s log) {later earlier : Log Fn} {d : Nat}
    (split : log = later ++ .ended d :: earlier ∨ log = later ++ .threw d :: earlier) :
    calls earlier d = beganWith earlier d := by
  rcases split with split | split
  · obtain ⟨before, after, reaches', permitted, performed⟩ := reaches.at_entry split
    have whole := reaches'.whole recognises
    cases step_cases performed with
    | ended isRunning =>
        have frame := whole.frames _ (isRunning ▸ List.mem_cons_self)
        simpa using frame
  · obtain ⟨before, after, reaches', permitted, performed⟩ := reaches.at_entry split
    have whole := reaches'.whole recognises
    cases step_cases performed with
    | threw isRunning =>
        have frame := whole.frames _ (isRunning ▸ List.mem_cons_self)
        have none := recognises _ _ permitted _ (by rw [isRunning]; rfl)
        rw [none, List.append_nil] at frame
        exact frame

end Runs

/-- What a step may do: name the handlers it takes off by what they are registered by, and leave
alone what a running dispatch has yet to call. -/
def Permits (s : Socket Fn) (entry : Entry Fn) : Prop :=
  Recognises s entry ∧ Settled s entry

/-- In a run whose steps are all of this kind the handlers are called as they should be. -/
theorem dispatch_law {s : Socket Fn} {log : Log Fn} (reaches : Reaches Permits s log) : Law log where
  whole := fun later d earlier split => reaches.calls_whole (fun _ _ => And.left) split
  standing := by
    intro later d event h earlier split
    obtain ⟨before, after, reaches', permitted, performed⟩ := reaches.at_entry split
    have whole := reaches'.whole fun _ _ => And.left
    have standing := reaches'.standing fun _ _ => And.right
    cases step_cases performed with
    | called isRunning =>
        rw [← whole.same]
        exact standing.registered _ (isRunning ▸ List.mem_cons_self) h (by simp)
  once := (reaches.standing fun _ _ => And.right).once

/-- A function and one that is to be called once, and the dispatch that calls both. -/
theorem dispatch_law_both : Law [.ended 0, .called 0 "connect" (.wrapped 0 "connect" 2),
    .called 0 "connect" (.passed 1), .began 0 "connect", .once "connect" 2 0, .on "connect" 1] :=
  dispatch_law (.step (.step (.step (.step (.step (.step .start
    ⟨trivial, trivial⟩ rfl) ⟨trivial, trivial⟩ rfl) ⟨trivial, nofun⟩ rfl) ⟨trivial, trivial⟩ rfl)
    ⟨trivial, trivial⟩ rfl) ⟨trivial, trivial⟩ rfl)

/-- `drain` takes its handler off when it has waited long enough; the next result still reaches it. -/
theorem not_dispatch_law :
    ¬∀ (s : Socket Nat) (log : Log Nat), Reaches (fun _ _ => True) s log → Law log := by
  intro claimed
  have law := claimed _ [.called 0 "syncOfflineQueueResult" (.wrapped 0 "syncOfflineQueueResult" 1),
    .began 0 "syncOfflineQueueResult", .off "syncOfflineQueueResult" (some 1),
    .once "syncOfflineQueueResult" 1 0]
    (.step (.step (.step (.step .start trivial rfl) trivial rfl) trivial rfl) trivial rfl)
  exact absurd (law.standing [] _ _ _ _ rfl) (by decide)

end Listeners
