import CipherChat.Presence.Sessions

/-!
The registry agrees with the sockets, and a run in which it does not: a hash expires, and the
heartbeats of two sockets count one.
-/

namespace PresenceRegistry

open Async
open Rooms (UUID JavaString JavaError)

section Agreement

variable (compareToIgnoreCase : JavaString → JavaString → Int)

theorem agrees_with_sockets {s : Store} (started : ∀ userId, s.hashes userId = none) :
    AgreesWithSockets compareToIgnoreCase Serial s := by
  intro config reachable quiescent
  exact agrees_permitted compareToIgnoreCase started config (reachable_permitted started reachable) quiescent

end Agreement

/-! ## Calls one after the other -/

instance decidableBeats (socket : Nat) (userId : UUID) (e : Event) : Decidable (Beats socket userId e) :=
  inferInstanceAs (Decidable (_ ∨ _))

instance decidableAwake (socket : Nat) (userId : UUID) :
    ∀ past : List Event, Decidable (Awake socket userId past)
  | [] => .isFalse id
  | _ :: earlier =>
      have := decidableAwake socket userId earlier
      inferInstanceAs (Decidable (_ ∨ _))

section Alone

/-- A call from here to its end, while no other does anything. -/
def play (allows : History → Event → Bool) (t : Nat) (request : Call) : Code → History → Option History
  | .done _, j => some j
  | .await op next, j =>
      match perform t j.state op () with
      | some (result, s') =>
          let e : Event := ⟨t, request, op, result, j.state, s'⟩
          if allows j e then play allows t request (next result) (j.record e) else none
      | none => none

variable {compareToIgnoreCase : JavaString → JavaString → Int} {permits : History → Event → Prop}
  {allows : History → Event → Bool} (sound : ∀ j e, allows j e → permits j e)
include sound

theorem reachable_play {t : Nat} {request : Call} {init : History} {p : Code} {j j' : History}
    {threads : Nat → Option Code}
    (reachable : (system compareToIgnoreCase permits).Reachable init ⟨j, threads⟩)
    (isThread : threads t = some p) (running : j.calls t = some request)
    (played : play allows t request p j = some j') :
    (∃ result, (system compareToIgnoreCase permits).Reachable init
      ⟨j', Function.update threads t (some (.done result))⟩) ∧ j'.calls = j.calls := by
  induction p generalizing j threads with
  | done result =>
      obtain rfl := Option.some.inj played
      refine ⟨⟨result, ?_⟩, rfl⟩
      rwa [← isThread, Function.update_eq_self]
  | await op next ih =>
      rw [play] at played
      split at played
      next result s' performed =>
        simp only at played
        split at played
        next allowed =>
          have step := reachable.step (.await isThread
            ⟨⟨t, request, op, result, j.state, s'⟩, rfl, rfl,
              ⟨running, rfl, performed, sound _ _ allowed⟩, rfl⟩)
          have ends := ih result step (Function.update_self ..) running played
          simp only [Function.update_idem] at ends
          exact ends
        next => cases played
      next => cases played

/-- A quiet system after one more call. -/
theorem idle_play {t : Nat} {request : Call} {init : History}
    {config : Config Op Op.Res History (Except JavaError Unit)} {j' : History}
    (reachable : (system compareToIgnoreCase permits).Reachable init config) (idle : Idle config)
    (free : config.threads t = none) (unused : config.state.calls t = none)
    (admitted : Admitted config.state request)
    (played : play allows t request (request.body compareToIgnoreCase).run
      (config.state.begin t request) = some j') :
    ∃ config', (system compareToIgnoreCase permits).Reachable init config' ∧ config'.state = j' ∧
      Idle config' ∧ j'.calls = Function.update config.state.calls t (some request) ∧
      ∀ u, u ≠ t → config'.threads u = config.threads u := by
  have start := reachable.step (.start free ⟨unused, request, admitted, rfl, rfl⟩)
  obtain ⟨⟨result, ends⟩, calls⟩ := reachable_play sound start (Function.update_self ..)
    (Journal.begin_calls_self ..) played
  rw [Function.update_idem] at ends
  refine ⟨_, ends, rfl, fun u p isThread => ?_, calls, fun u other => Function.update_of_ne other _ _⟩
  by_cases own : u = t
  · subst own
    simp only [Function.update_self] at isThread
    exact ⟨result, (Option.some.inj isThread).symm⟩
  · simp only [Function.update_of_ne own] at isThread
    exact idle u p isThread

omit sound
/-- Whether a call may be made, when the calls before it are those of the threads before `t`. -/
def admits (t : Nat) (j : History) : Call → Bool
  | .connected socket userId =>
      ((List.range t).all fun u =>
        match j.calls u with
        | some (.connected other _) => other ≠ socket
        | _ => true) && (j.state.users userId).isSome
  | _ => true

theorem admitted_of_admits {t : Nat} {j : History} {request : Call} (may : admits t j request)
    (beyond : ∀ u, t ≤ u → j.calls u = none) : Admitted j request := by
  cases request with
  | connected socket userId =>
      obtain ⟨fresh, row⟩ := Bool.and_eq_true_iff.mp may
      refine ⟨fun u other isCall => ?_, Option.isSome_iff_ne_none.mp row⟩
      by_cases early : u < t
      · have apart := List.all_eq_true.mp fresh u (List.mem_range.mpr early)
        simp [isCall] at apart
      · rw [beyond u (not_lt.mp early)] at isCall
        cases isCall
  | _ => trivial

/-- One call after the other, by one thread each. -/
def playAll (compareToIgnoreCase : JavaString → JavaString → Int) (allows : History → Event → Bool) :
    Nat → List Call → History → Option History
  | _, [], j => some j
  | t, request :: rest, j =>
      if admits t j request then
        (play allows t request (request.body compareToIgnoreCase).run (j.begin t request)).bind
          (playAll compareToIgnoreCase allows (t + 1) rest)
      else none

include sound in
theorem reachable_playAll {s : Store} {requests : List Call} {t : Nat}
    {config : Config Op Op.Res History (Except JavaError Unit)} {j : History}
    (reachable : (system compareToIgnoreCase permits).Reachable (.empty s) config)
    (idle : Idle config)
    (beyond : ∀ u, t ≤ u → config.threads u = none ∧ config.state.calls u = none)
    (played : playAll compareToIgnoreCase allows t requests config.state = some j) :
    ∃ config', (system compareToIgnoreCase permits).Reachable (.empty s) config' ∧
      config'.state = j ∧ Idle config' ∧ ∀ u, t + requests.length ≤ u → j.calls u = none := by
  induction requests generalizing t config with
  | nil =>
      obtain rfl := Option.some.inj played
      exact ⟨config, reachable, rfl, idle, fun u late => (beyond u late).2⟩
  | cons request rest ih =>
      rw [playAll] at played
      split at played
      · next may =>
          obtain ⟨j₁, first, later⟩ := Option.bind_eq_some_iff.mp played
          obtain ⟨config₁, reachable₁, rfl, idle₁, calls, threads⟩ := idle_play sound reachable idle
            (beyond t le_rfl).1 (beyond t le_rfl).2
            (admitted_of_admits may fun u late => (beyond u late).2) first
          have beyond₁ : ∀ u, t + 1 ≤ u → config₁.threads u = none ∧ config₁.state.calls u = none := by
            intro u late
            rw [threads u (by omega), calls, Function.update_of_ne (by omega)]
            exact beyond u (by omega)
          obtain ⟨config', ends, isState, idle', none⟩ := ih reachable₁ idle₁ beyond₁ later
          refine ⟨config', ends, isState, idle', fun u late => none u ?_⟩
          rw [List.length_cons] at late
          omega
      · cases played

end Alone

/-- User 7 is known. -/
def before : Store where
  hashes _ := none
  index := []
  users userId := if userId = 7 then some ⟨[0x55], [], .available, [], false⟩ else none

section Plans

/-- What the calls of a plan leave, when all of them are over. -/
theorem quiescent_of_plan {requests : List Call}
    {config : Config Op Op.Res History (Except JavaError Unit)} (idle : Idle config)
    (isCalls : (List.range requests.length).map config.state.calls = requests.map some)
    (none : ∀ u, 0 + requests.length ≤ u → config.state.calls u = none)
    (awake : ∀ socket userId, .connected socket userId ∈ requests →
      Awake socket userId config.state.past) : Quiescent config := by
  refine ⟨idle, ?_⟩
  rintro socket userId ⟨⟨t, isCall⟩, _⟩
  apply awake
  have early : t < requests.length := by
    by_contra late
    rw [none t (by omega)] at isCall
    cases isCall
  have member : some (Call.connected socket userId) ∈ requests.map some := by
    rw [← isCalls, ← isCall]
    exact List.mem_map_of_mem (List.mem_range.mpr early)
  simpa using member

theorem call_of_plan {requests : List Call} {j : History} {t : Nat} {request : Call}
    (isCalls : (List.range requests.length).map j.calls = requests.map some)
    (isRequest : requests[t]? = some request) : j.calls t = some request := by
  have early : t < requests.length := (List.getElem?_eq_some_iff.mp isRequest).1
  have same := congrArg (fun list => list[t]?) isCalls
  simp only [List.getElem?_map, List.getElem?_range early, isRequest, Option.map_some] at same
  exact Option.some.inj same

theorem stays_open {j : History} {t socket : Nat} {userId : UUID}
    (isCall : j.calls t = some (.connected socket userId))
    (stays : (j.past.any fun e => e.call = .disconnected socket userId) = false) :
    Open j socket userId := by
  refine ⟨⟨t, isCall⟩, ?_⟩
  rintro ⟨e, member, leaves, _⟩
  have never := List.any_eq_false.mp stays e member
  simp [leaves] at never

end Plans

section Vetted

def Op.puts (userId : UUID) : Op → Bool
  | .putAll user _ => user = userId
  | _ => false

theorem Op.puts_iff {op : Op} {userId : UUID} :
    op.puts userId = true ↔ ∃ fields, op = .putAll userId fields := by
  cases op <;> simp [Op.puts]

instance decidablePut (op : Op) (userId : UUID) : Decidable (∃ fields, op = .putAll userId fields) :=
  decidable_of_iff _ Op.puts_iff

instance decidableWritten (j : History) (socket : Nat) (userId : UUID) : Decidable (Written j socket userId) :=
  inferInstanceAs (Decidable (∃ e ∈ j.past, _ ∧ _))

instance decidableLeft (j : History) (socket : Nat) (userId : UUID) : Decidable (Left j socket userId) :=
  inferInstanceAs (Decidable (∃ e ∈ j.past, _ ∧ _))

/-- Nothing expires, sockets show themselves and leave while they are connected, and no call comes
back after another. -/
def vets (j : History) (e : Event) : Bool :=
  (match e.op with
    | .timeOut _ => false
    | _ => true) &&
  (match e.call with
    | .heartbeat socket userId | .disconnected socket userId =>
        e.op.userId = some userId → e.op = .hasKey userId ∨ e.op = .increment userId (-1) →
          Written j socket userId ∧ ¬Left j socket userId
    | _ => true) &&
  (j.past.dropWhile fun x => x.thread = e.thread).all fun x => x.thread ≠ e.thread

theorem apart_of_vets {t : Nat} {past later earlier : List Event} {own : Event}
    (apart : ((past.dropWhile fun x => x.thread = t).all fun x => x.thread ≠ t) = true)
    (isPast : past = later ++ own :: earlier) (isThread : own.thread = t) :
    ∀ x ∈ later, x.thread = t := by
  induction later generalizing past with
  | nil => exact fun x member => by cases member
  | cons first rest ih =>
      subst isPast
      intro x member
      by_cases mine : first.thread = t
      · rw [List.cons_append, List.dropWhile_cons_of_pos (by simpa using mine)] at apart
        rcases List.mem_cons.mp member with rfl | old
        · exact mine
        · exact ih apart rfl x old
      · rw [List.cons_append, List.dropWhile_cons_of_neg (by simpa using mine)] at apart
        have other := List.all_eq_true.mp apart own (by simp)
        simp [isThread] at other

theorem serial_of_vets (j : History) (e : Event) (vetted : vets j e) : Serial j e := by
  simp only [vets, Bool.and_eq_true] at vetted
  obtain ⟨⟨lasting, there⟩, apart⟩ := vetted
  refine ⟨fun userId isOp => ?_, fun socket userId isCall isOp => ⟨socket, ?_⟩,
    fun socket userId isCall isOp => ?_, ?_⟩
  · rw [isOp] at lasting
    cases lasting
  · simp only [isCall, isOp] at there
    exact of_decide_eq_true there rfl (.inl trivial)
  · simp only [isCall, isOp] at there
    exact of_decide_eq_true there rfl (.inr trivial)
  · exact fun userId _ later own earlier isPast isThread _ x member _ =>
      apart_of_vets apart isPast isThread x member

end Vetted

section Runs

/-- Of two sockets, one shows itself and the other leaves. -/
def leaving : List Call :=
  [.connected 0 7, .connected 1 7, .heartbeat 1 7, .disconnected 0 7]

theorem leaving_facts : (playAll (fun _ _ => 0) vets 0 leaving (.empty before)).map (fun j =>
    ((List.range leaving.length).map j.calls, decide (Awake 0 7 j.past), decide (Awake 1 7 j.past),
      j.past.any (fun e => e.call = .disconnected 1 7), decide (Left j 0 7))) =
    some (leaving.map some, true, true, false, true) := by
  decide +kernel

theorem agrees_connected : ∃ config,
    (system (fun _ _ => 0) Serial).Reachable (.empty before) config ∧ Quiescent config ∧
      Left config.state 0 7 ∧ Listed (fun _ _ => 0) config.state.state 7 := by
  obtain ⟨j, ran, facts⟩ := Option.map_eq_some_iff.mp leaving_facts
  obtain ⟨isCalls, awake₀, awake₁, stays, left⟩ := by simpa only [Prod.mk.injEq] using facts
  have start : (system (fun _ _ => 0) Serial).Reachable (.empty before)
      ⟨.empty before, fun _ => none⟩ := .initial
  obtain ⟨config, reachable, rfl, idle, none⟩ := reachable_playAll serial_of_vets start
    (fun _ _ isThread => by cases isThread) (fun _ _ => ⟨rfl, rfl⟩) ran
  have quiescent : Quiescent config := by
    refine quiescent_of_plan idle isCalls none fun socket userId member => ?_
    have listed : socket = 0 ∧ userId = 7 ∨ socket = 1 ∧ userId = 7 := by simpa [leaving] using member
    rcases listed with ⟨rfl, rfl⟩ | ⟨rfl, rfl⟩
    · exact of_decide_eq_true awake₀
    · exact of_decide_eq_true awake₁
  have isOpen : Open config.state 1 7 := stays_open (t := 1) (call_of_plan isCalls rfl) stays
  have agrees := agrees_with_sockets (fun _ _ => 0) (fun _ => rfl) config reachable quiescent
  exact ⟨config, reachable, quiescent, of_decide_eq_true left, (agrees.1 7).mpr ⟨1, isOpen⟩⟩

/-- The hash of a user with two sockets expires; the sockets show themselves, and one leaves. -/
def expiring : List Call :=
  [.connected 0 7, .connected 1 7, .timeOut 7, .heartbeat 0 7, .heartbeat 1 7, .disconnected 0 7]

theorem expiring_facts : (playAll (fun _ _ => 0) (fun _ _ => true) 0 expiring (.empty before)).map (fun j =>
    ((List.range expiring.length).map j.calls, decide (Awake 0 7 j.past), decide (Awake 1 7 j.past),
      j.past.any (fun e => e.call = .disconnected 1 7), (j.state.hashes 7).isSome)) =
    some (expiring.map some, true, true, false, false) := by
  decide +kernel

theorem online_user_missing :
    ¬∀ compareToIgnoreCase s, (∀ userId, s.hashes userId = none) →
      AgreesWithSockets compareToIgnoreCase (fun _ _ => True) s := by
  intro claim
  obtain ⟨j, ran, facts⟩ := Option.map_eq_some_iff.mp expiring_facts
  obtain ⟨isCalls, awake₀, awake₁, stays, gone⟩ := by simpa only [Prod.mk.injEq] using facts
  have start : (system (fun _ _ => 0) fun _ _ => True).Reachable (.empty before)
      ⟨.empty before, fun _ => none⟩ := .initial
  obtain ⟨config, reachable, rfl, idle, none⟩ := reachable_playAll (fun _ _ _ => trivial) start
    (fun _ _ isThread => by cases isThread) (fun _ _ => ⟨rfl, rfl⟩) ran
  have quiescent : Quiescent config := by
    refine quiescent_of_plan idle isCalls none fun socket userId member => ?_
    have listed : socket = 0 ∧ userId = 7 ∨ socket = 1 ∧ userId = 7 := by simpa [expiring] using member
    rcases listed with ⟨rfl, rfl⟩ | ⟨rfl, rfl⟩
    · exact of_decide_eq_true awake₀
    · exact of_decide_eq_true awake₁
  have isOpen : Open config.state 1 7 := stays_open (t := 1) (call_of_plan isCalls rfl) stays
  have listed := ((claim (fun _ _ => 0) before (fun _ => rfl) config reachable quiescent).1 7).mpr
    ⟨1, isOpen⟩
  rw [listed_iff, ← Option.isSome_iff_ne_none, gone] at listed
  cases listed.2

end Runs

end PresenceRegistry
