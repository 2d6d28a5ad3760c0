import CipherChat.Ratchet.Work
import Mathlib.Data.List.GetD

/-!
`services/stompSocket.ts`: the acknowledgements a socket waits for, from `timeout(ms).emit` to
the call of its callback.
-/

namespace Acks

open RatchetWork (WireNumber)

/-- Wire shape of `/user/queue/acks`; what is null is left out. -/
structure WireAck where
  ok : Bool
  messageId : Option String := none
  sequenceNumber : Option Int := none
  duplicate : Option Bool := none
  error : Option String := none
  clientMessageId : Option String := none
  deriving DecidableEq

inductive SendEvent
  | chatroomMessage
  | directMessage
  deriving DecidableEq

/-- A `MessageAck` or a `DmMessageAck`. -/
inductive Ack
  | message (ok : Bool) (messageId : Option String) (sequenceNumber : Option Int)
      (duplicate : Option Bool) (error : Option String)
  | dm (ok : Bool) (messageId : Option String) (duplicate : Option Bool) (error : Option String)
  deriving DecidableEq

def toMessageAck (ack : WireAck) : Ack :=
  .message ack.ok ack.messageId ack.sequenceNumber ack.duplicate ack.error

def toDmAck (ack : WireAck) : Ack :=
  .dm ack.ok ack.messageId ack.duplicate ack.error

def toAck : SendEvent → WireAck → Ack
  | .chatroomMessage => toMessageAck
  | .directMessage => toDmAck

/-- One that was passed to `timeout(ms).emit`, under a name of its own, or to `emit`. -/
inductive Callback
  | timed (name : Nat) (event : SendEvent)
  | plain (event : SendEvent)
  deriving DecidableEq

structure Pending where
  cb : Callback
  timer : Option Nat
  deriving DecidableEq

/-- A timeout that is running. -/
structure Timer where
  name : Nat
  clientMessageId : String
  cb : Callback
  deriving DecidableEq

inductive Answer
  | failed (message : String)
  | acknowledged (ack : Ack)
  deriving DecidableEq

/-- What has happened. -/
inductive Entry
  | passed (name : Nat) (event : SendEvent) (clientMessageId : String)
  | received (ack : WireAck)
  | invoked (cb : Callback) (answer : Answer)
  deriving DecidableEq

structure Socket where
  connected : Bool := false
  pendingAcks : List (String × Pending) := []
  timers : List Timer := []
  timerNames : Nat := 0
  callbacks : Nat := 0
  log : List Entry := []

/-- `Map.prototype.set` -/
def set (pendingAcks : List (String × Pending)) (key : String) (p : Pending) :
    List (String × Pending) :=
  if pendingAcks.any (·.1 = key) then
    pendingAcks.map fun e => if e.1 = key then (key, p) else e
  else pendingAcks ++ [(key, p)]

def delete (pendingAcks : List (String × Pending)) (key : String) : List (String × Pending) :=
  pendingAcks.filter (·.1 ≠ key)

/-- Whether a number counts as true. -/
def truthy : WireNumber → Bool
  | .nan => false
  | .finite x => x ≠ 0
  | .infinite _ => true

/-- What a callback makes of an acknowledgement. -/
def Callback.answer : Callback → WireAck → Answer
  | .timed _ event, a =>
      if a.error = some "timeout" then .failed "ack timeout" else .acknowledged (toAck event a)
  | .plain event, a => .acknowledged (toAck event a)

namespace Socket

def note (s : Socket) (entry : Entry) : Socket :=
  { s with log := entry :: s.log }

def invoke (s : Socket) (cb : Callback) (a : WireAck) : Socket :=
  s.note (.invoked cb (cb.answer a))

def clearTimeout (s : Socket) (timer : Option Nat) : Socket :=
  match timer with
  | some name => { s with timers := s.timers.filter (·.name ≠ name) }
  | none => s

/-- The frame itself changes nothing here. -/
def sendWithAck (s : Socket) (clientMessageId : String) (cb : Option Callback)
    (timeoutMs : Option WireNumber) : Socket :=
  match cb with
  | none => s
  | some cb =>
      if timeoutMs.any truthy then
        { s with
          timers := s.timers ++ [⟨s.timerNames, clientMessageId, cb⟩]
          timerNames := s.timerNames + 1
          pendingAcks := set s.pendingAcks clientMessageId ⟨cb, some s.timerNames⟩ }
      else { s with pendingAcks := set s.pendingAcks clientMessageId ⟨cb, none⟩ }

/-- `emit` of a message, perhaps with a callback. -/
def emit (s : Socket) (event : SendEvent) (clientMessageId : String) (ack : Bool) : Socket :=
  s.sendWithAck clientMessageId (if ack then some (.plain event) else none) none

def timeoutEmit (s : Socket) (ms : WireNumber) (event : SendEvent) (clientMessageId : String) :
    Socket :=
  let cb := Callback.timed s.callbacks event
  let s := { s with callbacks := s.callbacks + 1 }.note (.passed s.callbacks event clientMessageId)
  if !s.connected then s.note (.invoked cb (.failed "not connected"))
  else s.sendWithAck clientMessageId (some cb) (some ms)

def onAck (s : Socket) : Option WireAck → Socket
  | none => s
  | some ack =>
      let s := s.note (.received ack)
      let key := ack.clientMessageId.getD ""
      match s.pendingAcks.find? (·.1 = key) with
      | some (_, pending) =>
          ({ s with pendingAcks := delete s.pendingAcks key }.clearTimeout pending.timer).invoke
            pending.cb ack
      | none => s

def disconnect (s : Socket) : Socket :=
  { s.pendingAcks.foldl (fun s e => s.clearTimeout e.2.timer) s with pendingAcks := [] }

/-- What a timeout does when it is over. -/
def expire (s : Socket) (timer : Timer) : Socket :=
  { s.clearTimeout (some timer.name) with
    pendingAcks := delete s.pendingAcks timer.clientMessageId }.invoke timer.cb
      { ok := false, error := some "timeout", clientMessageId := some timer.clientMessageId }

end Socket

/-- What happens to a socket.  The id of a message is the one it has, or one made for it. -/
inductive Event
  | opened
  | dropped
  | connect
  | disconnect
  | emit (event : SendEvent) (clientMessageId : String) (ack : Bool)
  | timeoutEmit (ms : WireNumber) (event : SendEvent) (clientMessageId : String)
  | onAck (ack : Option WireAck)
  | expired (timer : Timer)

def step (s : Socket) : Event → Option Socket
  | .opened => some { s with connected := true }
  | .dropped => some { s with connected := false }
  | .connect => some s
  | .disconnect => some s.disconnect
  | .emit event clientMessageId ack => some (s.emit event clientMessageId ack)
  | .timeoutEmit ms event clientMessageId => some (s.timeoutEmit ms event clientMessageId)
  | .onAck ack => some (s.onAck ack)
  | .expired timer => if timer ∈ s.timers then some (s.expire timer) else none

/-- A socket from its creation on. -/
structure Run where
  states : Nat → Socket
  events : Nat → Event
  start : states 0 = {}
  valid : ∀ i, step (states i) (events i) = some (states (i + 1))

/-- A timeout that is not cleared is over at some time. -/
def Run.Fair (run : Run) : Prop :=
  ∀ i, ∀ timer ∈ (run.states i).timers, ∃ j, i ≤ j ∧ timer ∉ (run.states j).timers

def Entry.invokes (name : Nat) : Entry → Bool
  | .invoked (.timed name' _) _ => name' = name
  | _ => false

/-- How often a callback has been called. -/
def invocations (log : List Entry) (name : Nat) : Nat :=
  log.countP (Entry.invokes name)

/-- An answer is an error, or an acknowledgement that came for the message. -/
def Proper (log : List Entry) (event : SendEvent) (clientMessageId : String) : Answer → Prop
  | .failed _ => True
  | .acknowledged ack => ∃ a : WireAck, .received a ∈ log ∧
      a.clientMessageId.getD "" = clientMessageId ∧ ack = toAck event a

/-- Each callback is called once, and with what it should be called with. -/
structure Law (run : Run) : Prop where
  once : ∀ i name event clientMessageId, .passed name event clientMessageId ∈ (run.states i).log →
    ∃ j, ∀ k, j ≤ k → invocations (run.states k).log name = 1
  never : ∀ i name, invocations (run.states i).log name ≤ 1
  proper : ∀ i name event clientMessageId event' answer,
    .passed name event clientMessageId ∈ (run.states i).log →
    .invoked (.timed name event') answer ∈ (run.states i).log →
    Proper (run.states i).log event clientMessageId answer

/-- No callback has a timeout of nothing, and the socket is not disconnected while one waits. -/
def Permits (s : Socket) : Event → Prop
  | .timeoutEmit ms _ _ => s.connected → truthy ms
  | .disconnect => ∀ e ∈ s.pendingAcks, ∀ name event, e.2.cb ≠ .timed name event
  | _ => True

section Maps

variable {pendingAcks : List (String × Pending)} {key : String} {p : Pending} {e : String × Pending}

theorem mem_set (member : e ∈ set pendingAcks key p) : e = (key, p) ∨ e ∈ pendingAcks := by
  unfold set at member
  split at member
  · obtain ⟨old, there, same⟩ := List.mem_map.mp member
    split at same
    · exact .inl same.symm
    · exact .inr (same ▸ there)
  · rcases List.mem_append.mp member with old | new
    · exact .inr old
    · exact .inl (List.mem_singleton.mp new)

theorem mem_delete : e ∈ delete pendingAcks key ↔ e ∈ pendingAcks ∧ e.1 ≠ key := by
  simp [delete]

theorem invocations_cons (entry : Entry) (log : List Entry) (name : Nat) :
    invocations (entry :: log) name = invocations log name + if entry.invokes name then 1 else 0 :=
  List.countP_cons

theorem invokes_iff {entry : Entry} {name : Nat} :
    entry.invokes name ↔ ∃ event answer, entry = .invoked (.timed name event) answer := by
  cases entry with
  | passed _ _ _ => simp [Entry.invokes]
  | received _ => simp [Entry.invokes]
  | invoked cb answer =>
      cases cb with
      | timed name' event =>
          simp only [Entry.invokes, decide_eq_true_eq, Entry.invoked.injEq, Callback.timed.injEq]
          constructor
          · rintro rfl
            exact ⟨event, answer, ⟨rfl, rfl⟩, rfl⟩
          · rintro ⟨_, _, ⟨rfl, _⟩, _⟩
            rfl
      | plain event => simp [Entry.invokes]

theorem Proper.mono {log : List Entry} {event : SendEvent} {clientMessageId : String} {answer : Answer}
    (isProper : Proper log event clientMessageId answer) (entry : Entry) :
    Proper (entry :: log) event clientMessageId answer := by
  cases answer with
  | failed message => trivial
  | acknowledged ack =>
      obtain ⟨a, received, matching⟩ := isProper
      exact ⟨a, List.mem_cons_of_mem _ received, matching⟩

end Maps

section Invariant

variable {s s' : Socket}

/-- A callback that has not been called has a timeout that is running; so does what waits in the
map for an acknowledgement. -/
structure Inv (s : Socket) : Prop where
  owed : ∀ name event clientMessageId, .passed name event clientMessageId ∈ s.log →
    invocations s.log name = 1 ∨
      ∃ timer ∈ s.timers, timer.cb = .timed name event ∧ timer.clientMessageId = clientMessageId
  waiting : ∀ timer ∈ s.timers, ∀ name event, timer.cb = .timed name event →
    invocations s.log name = 0 ∧ .passed name event timer.clientMessageId ∈ s.log
  pending : ∀ e ∈ s.pendingAcks, ∀ name event, e.2.cb = .timed name event →
    ∃ timer ∈ s.timers, e.2.timer = some timer.name ∧ timer.clientMessageId = e.1 ∧
      timer.cb = e.2.cb
  plain : ∀ e ∈ s.pendingAcks, ∀ event, e.2.cb = .plain event → e.2.timer = none
  names : ∀ timer ∈ s.timers, ∀ timer' ∈ s.timers, timer.name = timer'.name → timer = timer'
  callbacks : ∀ timer ∈ s.timers, ∀ timer' ∈ s.timers, ∀ name event event',
    timer.cb = .timed name event → timer'.cb = .timed name event' → timer = timer'
  below : ∀ timer ∈ s.timers, timer.name < s.timerNames
  fresh : ∀ name, s.callbacks ≤ name → invocations s.log name = 0 ∧
    ∀ event clientMessageId, .passed name event clientMessageId ∉ s.log
  never : ∀ name, invocations s.log name ≤ 1
  proper : ∀ name event clientMessageId event' answer,
    .passed name event clientMessageId ∈ s.log → .invoked (.timed name event') answer ∈ s.log →
    Proper s.log event clientMessageId answer

theorem inv_start : Inv {} := by
  refine ⟨nofun, nofun, nofun, nofun, nofun, nofun, nofun, ?_, ?_, nofun⟩
  · intro name _
    exact ⟨rfl, nofun⟩
  · intro name
    exact Nat.zero_le 1

theorem Inv.connected (inv : Inv s) (connected : Bool) : Inv { s with connected } :=
  ⟨inv.owed, inv.waiting, inv.pending, inv.plain, inv.names, inv.callbacks, inv.below, inv.fresh,
    inv.never, inv.proper⟩

/-- The map may forget, and take up what waits without a timeout. -/
theorem Inv.keep (inv : Inv s) {pendingAcks : List (String × Pending)}
    (kept : ∀ e ∈ pendingAcks, e ∈ s.pendingAcks ∨ ∃ event, e.2 = ⟨.plain event, none⟩) :
    Inv { s with pendingAcks } := by
  refine ⟨inv.owed, inv.waiting, ?_, ?_, inv.names, inv.callbacks, inv.below, inv.fresh, inv.never,
    inv.proper⟩
  · intro e member name event isTimed
    rcases kept e member with old | ⟨event', isPlain⟩
    · exact inv.pending e old name event isTimed
    · simp [isPlain] at isTimed
  · intro e member event isPlain
    rcases kept e member with old | ⟨event', same⟩
    · exact inv.plain e old event isPlain
    · rw [same]

/-- An entry that says nothing about a callback of `timeout(ms).emit`. -/
theorem Inv.note (inv : Inv s) {entry : Entry} (quiet : ∀ name, entry.invokes name = false)
    (quiet' : ∀ name event clientMessageId, entry ≠ .passed name event clientMessageId) :
    Inv (s.note entry) := by
  have count : ∀ name, invocations (entry :: s.log) name = invocations s.log name := by
    intro name
    rw [invocations_cons, quiet name]
    rfl
  have passed : ∀ {name event clientMessageId}, .passed name event clientMessageId ∈ entry :: s.log →
      .passed name event clientMessageId ∈ s.log := by
    intro name event clientMessageId member
    exact (List.mem_cons.mp member).resolve_left fun same => quiet' _ _ _ same.symm
  refine ⟨?_, ?_, inv.pending, inv.plain, inv.names, inv.callbacks, inv.below, ?_, ?_, ?_⟩
  · intro name event clientMessageId member
    rw [show (s.note entry).log = entry :: s.log from rfl, count]
    exact inv.owed name event clientMessageId (passed member)
  · intro timer member name event isTimed
    obtain ⟨zero, isPassed⟩ := inv.waiting timer member name event isTimed
    exact ⟨(count name).trans zero, List.mem_cons_of_mem _ isPassed⟩
  · intro name beyond
    obtain ⟨zero, absent⟩ := inv.fresh name beyond
    exact ⟨(count name).trans zero, fun event clientMessageId member => absent _ _ (passed member)⟩
  · intro name
    exact (count name).trans_le (inv.never name)
  · intro name event clientMessageId event' answer member invoked
    refine (inv.proper name event clientMessageId event' answer (passed member) ?_).mono entry
    refine (List.mem_cons.mp invoked).resolve_left fun same => ?_
    have calls := quiet name
    rw [← same] at calls
    simp [Entry.invokes] at calls

/-- A timeout ends with a call, its own or that of an acknowledgement. -/
theorem Inv.resolve (inv : Inv s) {timer : Timer} (member : timer ∈ s.timers) (answer : Answer)
    (isProper : ∀ name event, timer.cb = .timed name event →
      Proper s.log event timer.clientMessageId answer) :
    Inv { s with
      timers := s.timers.filter (·.name ≠ timer.name)
      pendingAcks := delete s.pendingAcks timer.clientMessageId
      log := .invoked timer.cb answer :: s.log } := by
  have left : ∀ timer', timer' ∈ s.timers.filter (·.name ≠ timer.name) ↔
      timer' ∈ s.timers ∧ timer' ≠ timer := by
    intro timer'
    simp only [List.mem_filter, decide_eq_true_eq]
    constructor
    · rintro ⟨there, other⟩
      exact ⟨there, fun same => other (same ▸ rfl)⟩
    · rintro ⟨there, other⟩
      exact ⟨there, fun same => other (inv.names timer' there timer member same)⟩
  have passed : ∀ {name event clientMessageId}, .passed name event clientMessageId ∈
      Entry.invoked timer.cb answer :: s.log → .passed name event clientMessageId ∈ s.log := by
    intro name event clientMessageId there
    exact (List.mem_cons.mp there).resolve_left nofun
  have count : ∀ name, (∀ event, timer.cb ≠ .timed name event) →
      invocations (.invoked timer.cb answer :: s.log) name = invocations s.log name := by
    intro name other
    have quiet : ¬(Entry.invoked timer.cb answer).invokes name := by
      rw [invokes_iff]
      rintro ⟨event, _, same⟩
      exact other event (Entry.invoked.inj same).1
    rw [invocations_cons, if_neg quiet, Nat.add_zero]
  have called : ∀ name event, timer.cb = .timed name event →
      invocations (.invoked timer.cb answer :: s.log) name = 1 := by
    intro name event isTimed
    have calls : (Entry.invoked timer.cb answer).invokes name := by
      rw [invokes_iff, isTimed]
      exact ⟨event, answer, rfl⟩
    rw [invocations_cons, if_pos calls, (inv.waiting timer member name event isTimed).1]
  refine ⟨?_, ?_, ?_, ?_, ?_, ?_, ?_, ?_, ?_, ?_⟩
  · intro name event clientMessageId isPassed
    by_cases own : ∃ event, timer.cb = .timed name event
    · obtain ⟨event', isTimed⟩ := own
      exact .inl (called name event' isTimed)
    · rcases inv.owed name event clientMessageId (passed isPassed) with once | ⟨timer', there, isTimed, isId⟩
      · exact .inl ((count name fun event same => own ⟨event, same⟩).trans once)
      · exact .inr ⟨timer', (left timer').mpr ⟨there, fun same => own ⟨event, same ▸ isTimed⟩⟩,
          isTimed, isId⟩
  · intro timer' there name event isTimed
    obtain ⟨old, other⟩ := (left timer').mp there
    obtain ⟨zero, isPassed⟩ := inv.waiting timer' old name event isTimed
    refine ⟨(count name fun event' same => ?_).trans zero, List.mem_cons_of_mem _ isPassed⟩
    exact other (inv.callbacks timer' old timer member name event event' isTimed same)
  · intro e there name event isTimed
    obtain ⟨old, otherKey⟩ := mem_delete.mp there
    obtain ⟨timer', isThere, isTimer, isKey, isCb⟩ := inv.pending e old name event isTimed
    refine ⟨timer', (left timer').mpr ⟨isThere, fun same => otherKey ?_⟩, isTimer, isKey, isCb⟩
    rw [← isKey, same]
  · exact fun e there => inv.plain e (mem_delete.mp there).1
  · intro first there second there'
    exact inv.names first ((left first).mp there).1 second ((left second).mp there').1
  · intro first there second there'
    exact inv.callbacks first ((left first).mp there).1 second ((left second).mp there').1
  · exact fun timer' there => inv.below timer' ((left timer').mp there).1
  · intro name beyond
    obtain ⟨zero, absent⟩ := inv.fresh name beyond
    refine ⟨(count name fun event isTimed => ?_).trans zero,
      fun event clientMessageId isPassed => absent _ _ (passed isPassed)⟩
    exact absent _ _ (inv.waiting timer member name event isTimed).2
  · intro name
    by_cases own : ∃ event, timer.cb = .timed name event
    · obtain ⟨event, isTimed⟩ := own
      exact (called name event isTimed).le
    · exact (count name fun event same => own ⟨event, same⟩).trans_le (inv.never name)
  · intro name event clientMessageId event' answer' isPassed invoked
    rcases List.mem_cons.mp invoked with same | old
    · obtain ⟨isCb, rfl⟩ := Entry.invoked.inj same
      rcases inv.owed name event clientMessageId (passed isPassed) with once | ⟨timer', there, isTimed, isId⟩
      · rw [(inv.waiting timer member name event' isCb.symm).1] at once
        cases once
      · have isTimer := inv.callbacks timer' there timer member name event event' isTimed isCb.symm
        subst isTimer
        exact (isId ▸ isProper name event isTimed).mono _
    · exact (inv.proper name event clientMessageId event' answer' (passed isPassed) old).mono _

/-- A callback that is called at once. -/
theorem Inv.refuse (inv : Inv s) (event : SendEvent) (clientMessageId message : String) :
    Inv { s with
      callbacks := s.callbacks + 1
      log := .invoked (.timed s.callbacks event) (.failed message) ::
        .passed s.callbacks event clientMessageId :: s.log } := by
  obtain ⟨zero, absent⟩ := inv.fresh s.callbacks (Nat.le_refl _)
  have count : ∀ name, invocations (.invoked (.timed s.callbacks event) (.failed message) ::
      .passed s.callbacks event clientMessageId :: s.log) name =
      invocations s.log name + if s.callbacks = name then 1 else 0 := by
    intro name
    simp [invocations_cons, Entry.invokes]
  have passed : ∀ {name event' clientMessageId'}, .passed name event' clientMessageId' ∈
      Entry.invoked (.timed s.callbacks event) (.failed message) ::
        .passed s.callbacks event clientMessageId :: s.log →
      name = s.callbacks ∨ .passed name event' clientMessageId' ∈ s.log := by
    intro name event' clientMessageId' member
    rcases List.mem_cons.mp member with same | member
    · cases same
    rcases List.mem_cons.mp member with same | old
    · exact .inl (Entry.passed.inj same).1
    · exact .inr old
  refine ⟨?_, ?_, inv.pending, inv.plain, inv.names, inv.callbacks, inv.below, ?_, ?_, ?_⟩
  · intro name event' clientMessageId' member
    rw [count]
    by_cases own : s.callbacks = name
    · subst own
      simp [zero]
    · rw [if_neg own]
      exact inv.owed name event' clientMessageId' ((passed member).resolve_left (Ne.symm own))
  · intro timer member name event' isTimed
    obtain ⟨isZero, isPassed⟩ := inv.waiting timer member name event' isTimed
    have other : s.callbacks ≠ name := fun same => absent _ _ (same ▸ isPassed)
    rw [count, if_neg other]
    exact ⟨isZero, List.mem_cons_of_mem _ (List.mem_cons_of_mem _ isPassed)⟩
  · intro name beyond
    have beyond' : s.callbacks + 1 ≤ name := beyond
    obtain ⟨isZero, unpassed⟩ := inv.fresh name (by omega)
    have other : s.callbacks ≠ name := by omega
    rw [count, if_neg other]
    refine ⟨isZero, fun event' clientMessageId' member => ?_⟩
    rcases passed member with same | old
    · exact other same.symm
    · exact unpassed _ _ old
  · intro name
    rw [count]
    by_cases own : s.callbacks = name
    · subst own
      simp [zero]
    · rw [if_neg own]
      exact inv.never name
  · intro name event' clientMessageId' event'' answer member invoked
    rcases List.mem_cons.mp invoked with same | invoked
    · obtain ⟨-, rfl⟩ := Entry.invoked.inj same
      trivial
    have old : .invoked (.timed name event'') answer ∈ s.log :=
      (List.mem_cons.mp invoked).resolve_left nofun
    rcases passed member with rfl | isPassed
    · have calls : 0 < invocations s.log s.callbacks :=
        List.countP_pos_iff.mpr ⟨_, old, invokes_iff.mpr ⟨_, _, rfl⟩⟩
      omega
    · exact ((inv.proper name event' clientMessageId' event'' answer isPassed old).mono _).mono _

/-- A callback that waits, with its timeout. -/
theorem Inv.register (inv : Inv s) (event : SendEvent) (clientMessageId : String) :
    Inv { s with
      callbacks := s.callbacks + 1
      log := .passed s.callbacks event clientMessageId :: s.log
      timers := s.timers ++ [⟨s.timerNames, clientMessageId, .timed s.callbacks event⟩]
      timerNames := s.timerNames + 1
      pendingAcks := set s.pendingAcks clientMessageId
        ⟨.timed s.callbacks event, some s.timerNames⟩ } := by
  obtain ⟨zero, absent⟩ := inv.fresh s.callbacks (Nat.le_refl _)
  have count : ∀ name, invocations (.passed s.callbacks event clientMessageId :: s.log) name =
      invocations s.log name := by
    intro name
    simp [invocations_cons, Entry.invokes]
  have timers : ∀ {timer}, timer ∈
      s.timers ++ [⟨s.timerNames, clientMessageId, .timed s.callbacks event⟩] →
      timer ∈ s.timers ∨ timer = ⟨s.timerNames, clientMessageId, .timed s.callbacks event⟩ := by
    intro timer member
    rcases List.mem_append.mp member with old | new
    · exact .inl old
    · exact .inr (List.mem_singleton.mp new)
  have older : ∀ timer ∈ s.timers, ∀ name event', timer.cb = .timed name event' →
      name ≠ s.callbacks := by
    intro timer member name event' isTimed same
    exact absent _ _ (same ▸ (inv.waiting timer member name event' isTimed).2)
  refine ⟨?_, ?_, ?_, ?_, ?_, ?_, ?_, ?_, ?_, ?_⟩
  · intro name event' clientMessageId' member
    rcases List.mem_cons.mp member with same | old
    · obtain ⟨rfl, rfl, rfl⟩ := Entry.passed.inj same
      exact .inr ⟨_, List.mem_append_right _ (List.mem_singleton_self _), rfl, rfl⟩
    · rcases inv.owed name event' clientMessageId' old with once | ⟨timer, there, rest⟩
      · exact .inl ((count name).trans once)
      · exact .inr ⟨timer, List.mem_append_left _ there, rest⟩
  · intro timer member name event' isTimed
    rcases timers member with old | rfl
    · obtain ⟨isZero, isPassed⟩ := inv.waiting timer old name event' isTimed
      exact ⟨(count name).trans isZero, List.mem_cons_of_mem _ isPassed⟩
    · obtain ⟨rfl, rfl⟩ := Callback.timed.inj isTimed
      exact ⟨(count _).trans zero, List.mem_cons_self⟩
  · intro e member name event' isTimed
    rcases mem_set member with rfl | old
    · exact ⟨_, List.mem_append_right _ (List.mem_singleton_self _), rfl, rfl, rfl⟩
    · obtain ⟨timer, there, rest⟩ := inv.pending e old name event' isTimed
      exact ⟨timer, List.mem_append_left _ there, rest⟩
  · intro e member event' isPlain
    rcases mem_set member with rfl | old
    · cases isPlain
    · exact inv.plain e old event' isPlain
  · intro first member second member' same
    rcases timers member with old | rfl <;> rcases timers member' with old' | rfl
    · exact inv.names first old second old' same
    · have less := inv.below first old
      rw [same] at less
      exact absurd less (Nat.lt_irrefl _)
    · have less := inv.below second old'
      rw [← same] at less
      exact absurd less (Nat.lt_irrefl _)
    · rfl
  · intro first member second member' name event' event'' isTimed isTimed'
    rcases timers member with old | rfl <;> rcases timers member' with old' | rfl
    · exact inv.callbacks first old second old' name event' event'' isTimed isTimed'
    · obtain ⟨rfl, _⟩ := Callback.timed.inj isTimed'
      exact absurd rfl (older first old _ _ isTimed)
    · obtain ⟨rfl, _⟩ := Callback.timed.inj isTimed
      exact absurd rfl (older second old' _ _ isTimed')
    · rfl
  · intro timer member
    rcases timers member with old | rfl
    · exact Nat.lt_succ_of_lt (inv.below timer old)
    · exact Nat.lt_succ_self _
  · intro name beyond
    have beyond' : s.callbacks + 1 ≤ name := beyond
    obtain ⟨isZero, unpassed⟩ := inv.fresh name (by omega)
    refine ⟨(count name).trans isZero, fun event' clientMessageId' member => ?_⟩
    rcases List.mem_cons.mp member with same | old
    · have isName := (Entry.passed.inj same).1
      omega
    · exact unpassed _ _ old
  · intro name
    exact (count name).trans_le (inv.never name)
  · intro name event' clientMessageId' event'' answer member invoked
    have old : .invoked (.timed name event'') answer ∈ s.log :=
      (List.mem_cons.mp invoked).resolve_left nofun
    rcases List.mem_cons.mp member with same | isPassed
    · obtain ⟨rfl, rfl, rfl⟩ := Entry.passed.inj same
      have calls : 0 < invocations s.log s.callbacks :=
        List.countP_pos_iff.mpr ⟨_, old, invokes_iff.mpr ⟨_, _, rfl⟩⟩
      omega
    · exact (inv.proper name event' clientMessageId' event'' answer isPassed old).mono _

theorem Inv.timeoutEmit (inv : Inv s) {ms : WireNumber} (timed : s.connected → truthy ms)
    (event : SendEvent) (clientMessageId : String) : Inv (s.timeoutEmit ms event clientMessageId) := by
  cases online : s.connected with
  | false =>
      have result := inv.refuse event clientMessageId "not connected"
      simp only [Socket.timeoutEmit, Socket.note, online, Bool.not_false, if_true]
      rw [← online]
      exact result
  | true =>
      have result := inv.register event clientMessageId
      simp only [Socket.timeoutEmit, Socket.note, online, Bool.not_true, Bool.false_eq_true, if_false,
        Socket.sendWithAck, Option.any_some, timed online, if_true]
      rw [← online]
      exact result

theorem Inv.emit (inv : Inv s) (event : SendEvent) (clientMessageId : String) (ack : Bool) :
    Inv (s.emit event clientMessageId ack) := by
  cases ack with
  | false => exact inv
  | true =>
      refine inv.keep fun e member => ?_
      rcases mem_set member with rfl | old
      · exact .inr ⟨event, rfl⟩
      · exact .inl old

theorem proper_answer {log : List Entry} {ack : WireAck} (received : .received ack ∈ log)
    (name : Nat) (event : SendEvent) :
    Proper log event (ack.clientMessageId.getD "") ((Callback.timed name event).answer ack) := by
  simp only [Callback.answer]
  split
  · trivial
  · exact ⟨ack, received, rfl, rfl⟩

theorem Inv.onAck (inv : Inv s) (ack : Option WireAck) : Inv (s.onAck ack) := by
  cases ack with
  | none => exact inv
  | some ack =>
      have noted : Inv (s.note (.received ack)) := inv.note (fun _ => rfl) nofun
      simp only [Socket.onAck]
      cases found : (s.note (.received ack)).pendingAcks.find? (·.1 = ack.clientMessageId.getD "") with
      | none => exact noted
      | some e =>
          obtain ⟨key, cb, timeout⟩ := e
          have member := List.mem_of_find?_eq_some found
          have isKey : key = ack.clientMessageId.getD "" := by simpa using List.find?_some found
          subst isKey
          cases cb with
          | plain event =>
              have untimed : timeout = none := noted.plain _ member event rfl
              subst untimed
              have forgot : Inv { s.note (.received ack) with
                  pendingAcks := delete s.pendingAcks (ack.clientMessageId.getD "") } :=
                noted.keep fun e there => .inl (mem_delete.mp there).1
              exact forgot.note (fun _ => rfl) nofun
          | timed name event =>
              obtain ⟨timer, there, isTimer, isId, same⟩ := noted.pending _ member name event rfl
              dsimp only at isTimer isId same
              subst isTimer
              have result := noted.resolve there ((Callback.timed name event).answer ack) ?_
              · rw [isId, same] at result
                exact result
              · intro name' event' isTimed
                obtain ⟨rfl, rfl⟩ := Callback.timed.inj (same.symm.trans isTimed)
                rw [isId]
                exact proper_answer List.mem_cons_self name event

theorem Inv.expire (inv : Inv s) {timer : Timer} (member : timer ∈ s.timers) :
    Inv (s.expire timer) := by
  refine inv.resolve member _ fun name event isTimed => ?_
  rw [isTimed]
  trivial

/-- What waits without a timeout has none to clear. -/
theorem Inv.disconnect (inv : Inv s)
    (idle : ∀ e ∈ s.pendingAcks, ∀ name event, e.2.cb ≠ .timed name event) : Inv s.disconnect := by
  have untimed : ∀ pendingAcks : List (String × Pending), (∀ e ∈ pendingAcks, e.2.timer = none) →
      pendingAcks.foldl (fun s e => s.clearTimeout e.2.timer) s = s := by
    intro pendingAcks none
    induction pendingAcks with
    | nil => rfl
    | cons e rest ih =>
        rw [List.foldl_cons, none e (by simp)]
        exact ih fun e' there => none e' (by simp [there])
  have none : ∀ e ∈ s.pendingAcks, e.2.timer = none := by
    intro e member
    cases isCb : e.2.cb with
    | timed name event => exact absurd isCb (idle e member name event)
    | plain event => exact inv.plain e member event isCb
  rw [Socket.disconnect, untimed _ none]
  exact inv.keep nofun

theorem Inv.step (inv : Inv s) {event : Event} (permitted : Permits s event)
    (stepped : step s event = some s') : Inv s' := by
  cases event with
  | opened => exact Option.some.inj stepped ▸ inv.connected true
  | dropped => exact Option.some.inj stepped ▸ inv.connected false
  | connect => exact Option.some.inj stepped ▸ inv
  | disconnect => exact Option.some.inj stepped ▸ inv.disconnect permitted
  | emit event clientMessageId ack => exact Option.some.inj stepped ▸ inv.emit event clientMessageId ack
  | timeoutEmit ms event clientMessageId =>
      exact Option.some.inj stepped ▸ inv.timeoutEmit permitted event clientMessageId
  | onAck ack => exact Option.some.inj stepped ▸ inv.onAck ack
  | expired timer =>
      simp only [Acks.step] at stepped
      split at stepped
      next member => exact Option.some.inj stepped ▸ inv.expire member
      · cases stepped

end Invariant

section Runs

variable {run : Run}

theorem Run.inv (permitted : ∀ i, Permits (run.states i) (run.events i)) (i : Nat) :
    Inv (run.states i) := by
  induction i with
  | zero => exact run.start ▸ inv_start
  | succ i ih => exact ih.step (permitted i) (run.valid i)

/-- A socket forgets nothing of what has happened, and starts timeouts for new callbacks only. -/
structure Onward (s s' : Socket) : Prop where
  log : ∃ later, s'.log = later ++ s.log
  callbacks : s.callbacks ≤ s'.callbacks
  timers : ∀ timer ∈ s'.timers, timer ∈ s.timers ∨
    ∃ name event, timer.cb = .timed name event ∧ s.callbacks ≤ name

theorem Onward.refl (s : Socket) : Onward s s :=
  ⟨⟨[], rfl⟩, Nat.le_refl _, fun _ => .inl⟩

theorem Onward.trans {s t u : Socket} (first : Onward s t) (second : Onward t u) : Onward s u := by
  obtain ⟨before, isLog⟩ := first.log
  obtain ⟨after, isLog'⟩ := second.log
  refine ⟨⟨after ++ before, by rw [isLog', isLog, List.append_assoc]⟩,
    first.callbacks.trans second.callbacks, fun timer member => ?_⟩
  rcases second.timers timer member with old | ⟨name, event, isTimed, beyond⟩
  · exact first.timers timer old
  · exact .inr ⟨name, event, isTimed, first.callbacks.trans beyond⟩

theorem onward_clearTimeout (s : Socket) (timer : Option Nat) : Onward s (s.clearTimeout timer) := by
  cases timer with
  | none => exact .refl s
  | some name =>
      exact ⟨⟨[], rfl⟩, Nat.le_refl _, fun timer member => .inl (List.mem_filter.mp member).1⟩

theorem onward_note (s : Socket) (entry : Entry) : Onward s (s.note entry) :=
  ⟨⟨[entry], rfl⟩, Nat.le_refl _, fun _ => .inl⟩

theorem onward_pending (s : Socket) (pendingAcks : List (String × Pending)) :
    Onward s { s with pendingAcks } :=
  ⟨⟨[], rfl⟩, Nat.le_refl _, fun _ => .inl⟩

theorem onward_timeoutEmit (s : Socket) (ms : WireNumber) (event : SendEvent)
    (clientMessageId : String) : Onward s (s.timeoutEmit ms event clientMessageId) := by
  have passed : Onward s ({ s with callbacks := s.callbacks + 1 }.note
      (.passed s.callbacks event clientMessageId)) :=
    ⟨⟨[_], rfl⟩, Nat.le_succ _, fun _ => .inl⟩
  simp only [Socket.timeoutEmit, Socket.sendWithAck]
  split
  · exact passed.trans (onward_note _ _)
  split
  · refine ⟨⟨[_], rfl⟩, Nat.le_succ _, fun timer member => ?_⟩
    rcases List.mem_append.mp member with old | new
    · exact .inl old
    · exact .inr ⟨s.callbacks, event, List.mem_singleton.mp new ▸ rfl, Nat.le_refl _⟩
  · exact passed.trans (onward_pending _ _)

theorem onward_onAck (s : Socket) (ack : Option WireAck) : Onward s (s.onAck ack) := by
  cases ack with
  | none => exact .refl s
  | some ack =>
      refine (onward_note s (.received ack)).trans ?_
      simp only [Socket.onAck]
      split
      · exact ((onward_pending _ _).trans (onward_clearTimeout _ _)).trans (onward_note _ _)
      · exact .refl _

theorem onward_disconnect (s : Socket) : Onward s s.disconnect := by
  have cleared : ∀ (pendingAcks : List (String × Pending)) (t : Socket),
      Onward t (pendingAcks.foldl (fun s e => s.clearTimeout e.2.timer) t) := by
    intro pendingAcks
    induction pendingAcks with
    | nil => exact Onward.refl
    | cons e rest ih => exact fun t => (onward_clearTimeout t e.2.timer).trans (ih _)
  exact (cleared s.pendingAcks s).trans (onward_pending _ _)

theorem onward_step {s s' : Socket} {event : Event} (stepped : step s event = some s') :
    Onward s s' := by
  cases event with
  | opened => exact Option.some.inj stepped ▸ ⟨⟨[], rfl⟩, Nat.le_refl _, fun _ => .inl⟩
  | dropped => exact Option.some.inj stepped ▸ ⟨⟨[], rfl⟩, Nat.le_refl _, fun _ => .inl⟩
  | connect => exact Option.some.inj stepped ▸ .refl s
  | disconnect => exact Option.some.inj stepped ▸ onward_disconnect s
  | emit event clientMessageId ack =>
      cases ack with
      | false => exact Option.some.inj stepped ▸ .refl s
      | true => exact Option.some.inj stepped ▸ onward_pending s _
  | timeoutEmit ms event clientMessageId =>
      exact Option.some.inj stepped ▸ onward_timeoutEmit s ms event clientMessageId
  | onAck ack => exact Option.some.inj stepped ▸ onward_onAck s ack
  | expired timer =>
      simp only [step] at stepped
      split at stepped
      · refine Option.some.inj stepped ▸ ?_
        exact ((onward_clearTimeout s _).trans (onward_pending _ _)).trans (onward_note _ _)
      · cases stepped

theorem Run.onward (run : Run) {i j : Nat} (later : i ≤ j) : Onward (run.states i) (run.states j) := by
  induction j, later using Nat.le_induction with
  | base => exact .refl _
  | succ j _ ih => exact ih.trans (onward_step (run.valid j))

/-- A timeout that is over has led to a call. -/
theorem Run.called (permitted : ∀ i, Permits (run.states i) (run.events i)) (fair : run.Fair) {i : Nat}
    {name : Nat} {event : SendEvent} {clientMessageId : String}
    (passed : .passed name event clientMessageId ∈ (run.states i).log) :
    ∃ j, i ≤ j ∧ invocations (run.states j).log name = 1 := by
  rcases (run.inv permitted i).owed _ _ _ passed with once | ⟨timer, running, isTimed, _⟩
  · exact ⟨i, Nat.le_refl _, once⟩
  obtain ⟨j, later, ended⟩ := fair i timer running
  have onward := run.onward later
  obtain ⟨after, isLog⟩ := onward.log
  have passed' : .passed name event clientMessageId ∈ (run.states j).log := by
    rw [isLog]
    exact List.mem_append_right _ passed
  rcases (run.inv permitted j).owed _ _ _ passed' with once | ⟨timer', running', isTimed', _⟩
  · exact ⟨j, later, once⟩
  -- no other timeout is for the same callback
  rcases onward.timers timer' running' with old | ⟨name', event', isTimed'', beyond⟩
  · have same := (run.inv permitted i).callbacks timer' old timer running name event event isTimed' isTimed
    exact absurd (same ▸ running') ended
  · obtain ⟨rfl, _⟩ := Callback.timed.inj (isTimed'.symm.trans isTimed'')
    exact absurd passed (((run.inv permitted i).fresh name beyond).2 event clientMessageId)

end Runs

/-- In a run whose steps all meet the condition each callback is called once. -/
theorem called_once (run : Run) (fair : run.Fair)
    (permitted : ∀ i, Permits (run.states i) (run.events i)) : Law run where
  once := by
    intro i name event clientMessageId passed
    obtain ⟨j, later, once⟩ := run.called permitted fair passed
    refine ⟨j, fun k after => ?_⟩
    have most := (run.inv permitted k).never name
    obtain ⟨rest, isLog⟩ := (run.onward after).log
    have least : invocations (run.states j).log name ≤ invocations (run.states k).log name := by
      simp only [invocations, isLog, List.countP_append]
      omega
    omega
  never := fun i name => (run.inv permitted i).never name
  proper := fun i name event clientMessageId event' answer =>
    (run.inv permitted i).proper name event clientMessageId event' answer

/-- What comes of some events, after which nothing happens. -/
def after (events : List Event) : Nat → Socket
  | 0 => {}
  | i + 1 => (step (after events i) (events.getD i .connect)).getD {}

/-- None of the events is the end of a timeout, which may not be there. -/
def runOf (events : List Event) (steps : ∀ e ∈ events, ∀ s, (step s e).isSome) : Run where
  states := after events
  events i := events.getD i .connect
  start := rfl
  valid i := by
    have enabled : (step (after events i) (events.getD i .connect)).isSome := by
      rcases Nat.lt_or_ge i events.length with inside | beyond
      · rw [List.getD_eq_getElem _ _ inside]
        exact steps _ (List.getElem_mem inside) _
      · rw [List.getD_eq_default _ _ beyond]
        rfl
    obtain ⟨s', stepped⟩ := Option.isSome_iff_exists.mp enabled
    rw [after, stepped]
    rfl

theorem after_end (events : List Event) {i : Nat} (beyond : events.length ≤ i) :
    after events i = after events events.length := by
  induction i, beyond using Nat.le_induction with
  | base => rfl
  | succ i beyond ih =>
      rw [after, List.getD_eq_default _ _ beyond, ← ih]
      rfl

theorem fair_of_end {events : List Event} {steps : ∀ e ∈ events, ∀ s, (step s e).isSome}
    (ended : (after events events.length).timers = []) : (runOf events steps).Fair := by
  intro i timer _
  refine ⟨max i events.length, Nat.le_max_left _ _, ?_⟩
  change timer ∉ (after events (max i events.length)).timers
  rw [after_end events (Nat.le_max_right _ _), ended]
  exact List.not_mem_nil

/-- A message that is sent and acknowledged. -/
def acknowledged : List Event :=
  [.opened, .timeoutEmit (.finite 5000) .chatroomMessage "k",
    .onAck (some { ok := true, clientMessageId := some "k" })]

theorem called_once_acknowledged : Law (runOf acknowledged (by simp [acknowledged, step])) := by
  refine called_once _ (fair_of_end (by decide +kernel)) fun i => ?_
  match i with
  | 0 => trivial
  | 1 => exact fun _ => by decide +kernel
  | 2 => trivial
  | i + 3 => trivial

/-- A message that is sent, and a disconnect before the acknowledgement. -/
def disconnected : List Event :=
  [.opened, .timeoutEmit (.finite 5000) .chatroomMessage "k", .disconnect]

theorem not_called_once : ¬∀ run : Run, run.Fair → Law run := by
  intro claimed
  have law := claimed (runOf disconnected (by simp [disconnected, step]))
    (fair_of_end (by decide +kernel))
  obtain ⟨j, once⟩ := law.once 2 0 .chatroomMessage "k" (by decide +kernel)
  have called := once (max j 3) (Nat.le_max_left _ _)
  change invocations (after disconnected (max j 3)).log 0 = 1 at called
  rw [after_end disconnected (show disconnected.length ≤ max j 3 from Nat.le_max_right _ _)] at called
  exact absurd called (by decide +kernel)

end Acks
