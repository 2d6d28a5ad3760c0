import Mathlib.Logic.Function.Basic
import Mathlib.Tactic.Common

/-!
`gateway/RosterBroadcaster.java`: every access to a field that threads share is a step, and so is
the start of the read of the roster.
-/

namespace RosterBroadcaster

/-- What a thread does next. -/
inductive Pc
  | idle
  | claim
  | mark
  | clear
  | read
  | reading (begun : Nat)
  | schedule
  | release
  | check
  deriving DecidableEq

/-- Thread 0 is the scheduler's.  A broadcast is known by how many requests had begun when the
read of its roster started. -/
structure Broadcaster where
  inFlight : Bool
  dirty : Bool
  scheduled : Nat
  threads : Nat → Pc
  begun : Nat
  broadcasts : List Nat

inductive Move
  | request (thread : Nat)
  | run (thread : Nat)
  | fail (thread : Nat)
  | start
  deriving DecidableEq

namespace Broadcaster

def initial : Broadcaster where
  inFlight := false
  dirty := false
  scheduled := 0
  threads _ := .idle
  begun := 0
  broadcasts := []

def goto (s : Broadcaster) (thread : Nat) (pc : Pc) : Broadcaster :=
  { s with threads := Function.update s.threads thread pc }

/-- `request`, `fire` and the task, one access after the other. -/
def run (s : Broadcaster) (thread : Nat) : Option Broadcaster :=
  match s.threads thread with
  | .idle => none
  | .claim =>
      some (if s.inFlight then s.goto thread .mark
        else { s.goto thread .clear with inFlight := true })
  | .mark => some { s.goto thread .idle with dirty := true }
  | .clear => some { s.goto thread .read with dirty := false }
  | .read => some (s.goto thread (.reading s.begun))
  | .reading begun =>
      some { s.goto thread .schedule with broadcasts := begun :: s.broadcasts }
  | .schedule => some { s.goto thread .idle with scheduled := s.scheduled + 1 }
  | .release => some { s.goto thread .check with inFlight := false }
  | .check =>
      some (if s.dirty then { s.goto thread .claim with begun := s.begun + 1 }
        else s.goto thread .idle)

/-- The `finally` of `fire`, when `presence.roster()` throws. -/
def fail (s : Broadcaster) (thread : Nat) : Option Broadcaster :=
  match s.threads thread with
  | .reading _ => some (s.goto thread .schedule)
  | _ => none

def request (s : Broadcaster) (thread : Nat) : Option Broadcaster :=
  if thread ≠ 0 ∧ s.threads thread = .idle then
    some { s.goto thread .claim with begun := s.begun + 1 }
  else none

/-- The scheduler has one thread. -/
def start (s : Broadcaster) : Option Broadcaster :=
  match s.scheduled with
  | 0 => none
  | rest + 1 =>
      if s.threads 0 = .idle then some { s.goto 0 .release with scheduled := rest } else none

def step (s : Broadcaster) : Move → Option Broadcaster
  | .request thread => s.request thread
  | .run thread => s.run thread
  | .fail thread => s.fail thread
  | .start => s.start

/-- Every request has returned and every task has run. -/
def Quiescent (s : Broadcaster) : Prop :=
  s.scheduled = 0 ∧ ∀ thread, s.threads thread = .idle

/-- Of every request a broadcast is known whose roster was read later. -/
def Covered (s : Broadcaster) : Prop :=
  ∀ request < s.begun, ∃ read ∈ s.broadcasts, request < read

end Broadcaster

inductive Reaches (allowed : Broadcaster → Move → Prop) : Broadcaster → Prop
  | initial : Reaches allowed .initial
  | step {s s' : Broadcaster} (earlier : Reaches allowed s) (move : Move) (may : allowed s move)
      (taken : s.step move = some s') : Reaches allowed s'

/-- The flag is set while somebody is still to look at it, or another request is still to make its
claim; a roster is read in vain only if the flag tells it to the task, or another request will. -/
def Permitted (s : Broadcaster) : Move → Prop
  | .run thread => s.threads thread = .mark →
      s.inFlight = true ∨ ∃ other, s.threads other = .check ∨ s.threads other = .claim
  | .fail _ => s.dirty = true ∨ ∃ other, s.threads other = .claim ∨ s.threads other = .mark
  | _ => True

/-- From the claim to the end of the cool-down. -/
def Pc.holds : Pc → Bool
  | .clear | .read | .reading _ | .schedule | .release => true
  | _ => false

/-- The claim is held by one thread or by one task. -/
structure Claimed (s : Broadcaster) : Prop where
  thread : ∀ i, (s.threads i).holds = true → s.inFlight = true ∧ s.scheduled = 0
  alone : ∀ i j, (s.threads i).holds = true → (s.threads j).holds = true → i = j
  task : 0 < s.scheduled → s.inFlight = true ∧ s.scheduled = 1
  held : s.inFlight = true → 0 < s.scheduled ∨ ∃ i, (s.threads i).holds = true

/-- On the way to a read of the roster, or to the flag. -/
def Pc.asks : Pc → Bool
  | .claim | .mark | .clear | .read => true
  | _ => false

/-- A roster will be read, or the flag will be looked at. -/
def Live (s : Broadcaster) : Prop :=
  (∃ i, (s.threads i).asks = true) ∨
    s.dirty = true ∧ (s.inFlight = true ∨ ∃ i, s.threads i = .check)

/-- What is not broadcast yet is being read or will be. -/
def Owed (s : Broadcaster) : Prop :=
  ∀ request < s.begun, (∃ read ∈ s.broadcasts, request < read) ∨
    (∃ i begun, s.threads i = .reading begun ∧ request < begun) ∨ Live s

section Steps

variable {s s' : Broadcaster} {thread : Nat} {pc : Pc}

theorem goto_threads (s : Broadcaster) (thread : Nat) (pc : Pc) (i : Nat) :
    (s.goto thread pc).threads i = if i = thread then pc else s.threads i := by
  simp [Broadcaster.goto, Function.update_apply]

theorem Claimed.congr (claimed : Claimed s) (threads : ∀ i, (s'.threads i).holds = (s.threads i).holds)
    (inFlight : s'.inFlight = s.inFlight) (scheduled : s'.scheduled = s.scheduled) :
    Claimed s' := by
  constructor
  · intro i holds
    rw [inFlight, scheduled]
    exact claimed.thread i ((threads i).symm.trans holds)
  · intro i j first second
    exact claimed.alone i j ((threads i).symm.trans first) ((threads j).symm.trans second)
  · rw [inFlight, scheduled]
    exact claimed.task
  · rw [inFlight, scheduled]
    simpa only [threads] using claimed.held

theorem holds_goto (same : pc.holds = (s.threads thread).holds) (i : Nat) :
    ((s.goto thread pc).threads i).holds = (s.threads i).holds := by
  rw [goto_threads]
  by_cases here : i = thread
  · rw [if_pos here, same, here]
  · rw [if_neg here]

/-- A thread that was none of the holders becomes the only one. -/
theorem Claimed.claim (free : s.inFlight = false) (claimed : Claimed s)
    (holds : pc.holds = true) : Claimed { s.goto thread pc with inFlight := true } := by
  have nobody : ∀ i, (s.threads i).holds = false := by
    intro i
    by_contra holder
    have taken := (claimed.thread i (by simpa using holder)).1
    simp [free] at taken
  have nothing : s.scheduled = 0 := by
    by_contra task
    have taken := (claimed.task (Nat.pos_of_ne_zero task)).1
    simp [free] at taken
  have only : ∀ i, ((s.goto thread pc).threads i).holds = true → i = thread := by
    intro i holder
    by_contra elsewhere
    rw [goto_threads, if_neg elsewhere, nobody] at holder
    cases holder
  constructor
  · intro i holder
    exact ⟨rfl, nothing⟩
  · intro i j first second
    rw [only i first, only j second]
  · intro task
    exact absurd nothing (Nat.ne_of_gt task)
  · intro taken
    refine Or.inr ⟨thread, ?_⟩
    simp [goto_threads, holds]

/-- The holder lets go. -/
theorem nobody_after (claimed : Claimed s) (holder : (s.threads thread).holds = true)
    (lets : pc.holds = false) (i : Nat) : ((s.goto thread pc).threads i).holds = false := by
  rw [goto_threads]
  by_cases here : i = thread
  · rw [if_pos here, lets]
  · rw [if_neg here]
    by_contra other
    exact here (claimed.alone i thread (by simpa using other) holder)

/-- The claim goes from the thread to the task. -/
theorem Claimed.schedule (claimed : Claimed s) (holder : (s.threads thread).holds = true) :
    Claimed { s.goto thread .idle with scheduled := s.scheduled + 1 } := by
  have before := claimed.thread thread holder
  have nobody := nobody_after claimed holder (show Pc.holds .idle = false from rfl)
  constructor
  · intro i holds
    exact absurd holds (by simpa using nobody i)
  · intro i _ holds
    exact absurd holds (by simpa using nobody i)
  · intro _
    exact ⟨before.1, by simp [before.2]⟩
  · intro _
    exact Or.inl (Nat.succ_pos _)

theorem Claimed.release (claimed : Claimed s) (holder : (s.threads thread).holds = true) :
    Claimed { s.goto thread .check with inFlight := false } := by
  have before := claimed.thread thread holder
  have nobody := nobody_after claimed holder (show Pc.holds .check = false from rfl)
  constructor
  · intro i holds
    exact absurd holds (by simpa using nobody i)
  · intro i _ holds
    exact absurd holds (by simpa using nobody i)
  · intro task
    exact absurd before.2 (Nat.ne_of_gt task)
  · intro inFlight
    cases inFlight

/-- The claim goes from the task to the scheduler's thread. -/
theorem Claimed.start {rest : Nat} (claimed : Claimed s) (task : s.scheduled = rest + 1) :
    Claimed { s.goto 0 .release with scheduled := rest } := by
  have before := claimed.task (by omega)
  have nobody : ∀ i, (s.threads i).holds = false := by
    intro i
    by_contra holder
    have none := (claimed.thread i (by simpa using holder)).2
    omega
  have only : ∀ i, ((s.goto 0 .release).threads i).holds = true → i = 0 := by
    intro i holder
    by_contra elsewhere
    rw [goto_threads, if_neg elsewhere, nobody] at holder
    cases holder
  constructor
  · intro i _
    refine ⟨before.1, ?_⟩
    simp only
    omega
  · intro i j first second
    rw [only i first, only j second]
  · intro more
    simp only at more
    omega
  · intro _
    refine Or.inr ⟨0, ?_⟩
    simp [goto_threads, Pc.holds]

theorem Claimed.run (claimed : Claimed s) (taken : s.run thread = some s') : Claimed s' := by
  unfold Broadcaster.run at taken
  cases at_ : s.threads thread with
  | idle => simp [at_] at taken
  | claim =>
      simp only [at_, Option.some.injEq] at taken
      subst taken
      by_cases inFlight : s.inFlight = true
      · rw [if_pos inFlight]
        exact claimed.congr (holds_goto (by rw [at_]; rfl)) rfl rfl
      · rw [if_neg inFlight]
        exact claimed.claim (by simpa using inFlight) rfl
  | mark | clear | read | reading =>
      simp only [at_, Option.some.injEq] at taken
      subst taken
      exact claimed.congr (holds_goto (by rw [at_]; rfl)) rfl rfl
  | schedule =>
      simp only [at_, Option.some.injEq] at taken
      subst taken
      exact claimed.schedule (by rw [at_]; rfl)
  | release =>
      simp only [at_, Option.some.injEq] at taken
      subst taken
      exact claimed.release (by rw [at_]; rfl)
  | check =>
      simp only [at_, Option.some.injEq] at taken
      subst taken
      by_cases dirty : s.dirty = true
      · rw [if_pos dirty]
        exact claimed.congr (holds_goto (by rw [at_]; rfl)) rfl rfl
      · rw [if_neg dirty]
        exact claimed.congr (holds_goto (by rw [at_]; rfl)) rfl rfl

theorem fail_eq (failed : s.fail thread = some s') :
    (∃ begun, s.threads thread = .reading begun) ∧ s' = s.goto thread .schedule := by
  unfold Broadcaster.fail at failed
  cases at_ : s.threads thread with
  | reading begun =>
      simp only [at_, Option.some.injEq] at failed
      exact ⟨⟨begun, rfl⟩, failed.symm⟩
  | _ => simp [at_] at failed

theorem request_eq (requested : s.request thread = some s') :
    s.threads thread = .idle ∧ s' = { s.goto thread .claim with begun := s.begun + 1 } := by
  unfold Broadcaster.request at requested
  by_cases may : thread ≠ 0 ∧ s.threads thread = .idle
  · rw [if_pos may, Option.some.injEq] at requested
    exact ⟨may.2, requested.symm⟩
  · simp [if_neg may] at requested

theorem start_eq (started : s.start = some s') :
    ∃ rest, s.scheduled = rest + 1 ∧ s.threads 0 = .idle ∧
      s' = { s.goto 0 .release with scheduled := rest } := by
  unfold Broadcaster.start at started
  cases task : s.scheduled with
  | zero => simp [task] at started
  | succ rest =>
      simp only [task] at started
      by_cases idle : s.threads 0 = .idle
      · rw [if_pos idle, Option.some.injEq] at started
        exact ⟨rest, rfl, idle, started.symm⟩
      · simp [if_neg idle] at started

theorem Claimed.step (claimed : Claimed s) {move : Move} (taken : s.step move = some s') :
    Claimed s' := by
  cases move with
  | request thread =>
      obtain ⟨idle, rfl⟩ := request_eq taken
      exact claimed.congr (holds_goto (by rw [idle]; rfl)) rfl rfl
  | run thread => exact claimed.run taken
  | fail thread =>
      obtain ⟨⟨begun, at_⟩, rfl⟩ := fail_eq taken
      exact claimed.congr (holds_goto (by rw [at_]; rfl)) rfl rfl
  | start =>
      obtain ⟨rest, task, -, rfl⟩ := start_eq taken
      exact claimed.start task

theorem goto_thread (s : Broadcaster) (thread : Nat) (pc : Pc) :
    (s.goto thread pc).threads thread = pc := by
  rw [goto_threads, if_pos rfl]

/-- Another thread is where it was. -/
theorem still {i : Nat} {elsewhere : Pc} (there : s.threads i = elsewhere)
    (differs : s.threads thread ≠ elsewhere) : (s.goto thread pc).threads i = elsewhere := by
  rw [goto_threads, if_neg]
  · exact there
  · rintro rfl
    exact differs there

theorem Live.keep (live : Live s) (at_ : (s.threads thread).asks = false)
    (look : s.threads thread = .check → s.dirty = false)
    (threads : ∀ i, i ≠ thread → s'.threads i = s.threads i) (dirty : s'.dirty = s.dirty)
    (inFlight : s.dirty = true → s'.inFlight = s.inFlight) : Live s' := by
  rcases live with ⟨i, asks⟩ | ⟨set, eyes⟩
  · refine Or.inl ⟨i, ?_⟩
    rw [threads i]
    · exact asks
    · rintro rfl
      simp [at_] at asks
  · refine Or.inr ⟨dirty.trans set, ?_⟩
    rcases eyes with held | ⟨i, check⟩
    · exact Or.inl ((inFlight set).trans held)
    · refine Or.inr ⟨i, (threads i ?_).trans check⟩
      rintro rfl
      simp [look check] at set

theorem Owed.of_live (live : Live s) : Owed s :=
  fun _ _ => Or.inr (Or.inr live)

/-- A step of a thread that neither reads nor asks leaves what is owed. -/
theorem Owed.keep (owed : Owed s) (at_ : (s.threads thread).asks = false)
    (look : s.threads thread = .check → s.dirty = false)
    (read : ∀ begun, s.threads thread = .reading begun → begun ∈ s'.broadcasts)
    (threads : ∀ i, i ≠ thread → s'.threads i = s.threads i) (dirty : s'.dirty = s.dirty)
    (inFlight : s.dirty = true → s'.inFlight = s.inFlight) (begun : s'.begun = s.begun)
    (broadcasts : ∀ n ∈ s.broadcasts, n ∈ s'.broadcasts) : Owed s' := by
  intro request asked
  rw [begun] at asked
  rcases owed request asked with ⟨n, known, later⟩ | ⟨i, n, reading, later⟩ | live
  · exact Or.inl ⟨n, broadcasts n known, later⟩
  · by_cases here : i = thread
    · subst here
      exact Or.inl ⟨n, read n reading, later⟩
    · exact Or.inr (Or.inl ⟨i, n, (threads i here).trans reading, later⟩)
  · exact Or.inr (Or.inr (live.keep at_ look threads dirty inFlight))

theorem goto_apart (s : Broadcaster) (thread : Nat) (pc : Pc) (i : Nat) (differs : i ≠ thread) :
    (s.goto thread pc).threads i = s.threads i := by
  rw [goto_threads, if_neg differs]

theorem Owed.run (owed : Owed s) (permitted : Permitted s (.run thread))
    (taken : s.run thread = some s') : Owed s' := by
  unfold Broadcaster.run at taken
  cases at_ : s.threads thread with
  | idle => simp [at_] at taken
  | claim =>
      simp only [at_, Option.some.injEq] at taken
      subst taken
      by_cases inFlight : s.inFlight = true
      · rw [if_pos inFlight]
        exact Owed.of_live (Or.inl ⟨thread, by rw [goto_thread]; rfl⟩)
      · rw [if_neg inFlight]
        exact Owed.of_live (Or.inl ⟨thread, by simp [goto_thread, Pc.asks]⟩)
  | mark =>
      simp only [at_, Option.some.injEq] at taken
      subst taken
      apply Owed.of_live
      rcases permitted at_ with inFlight | ⟨other, check | claim⟩
      · exact Or.inr ⟨rfl, Or.inl inFlight⟩
      · exact Or.inr ⟨rfl, Or.inr ⟨other, still check (by simp [at_])⟩⟩
      · have stays : (s.goto thread .idle).threads other = .claim := still claim (by simp [at_])
        exact Or.inl ⟨other, by simp [stays, Pc.asks]⟩
  | clear =>
      simp only [at_, Option.some.injEq] at taken
      subst taken
      exact Owed.of_live (Or.inl ⟨thread, by simp [goto_thread, Pc.asks]⟩)
  | read =>
      simp only [at_, Option.some.injEq] at taken
      subst taken
      intro request asked
      exact Or.inr (Or.inl ⟨thread, s.begun, goto_thread s thread _, asked⟩)
  | reading begun =>
      simp only [at_, Option.some.injEq] at taken
      subst taken
      refine owed.keep (by rw [at_]; rfl) (by simp [at_]) ?_ (goto_apart s thread .schedule) rfl
        (fun _ => rfl) rfl fun n known => List.mem_cons_of_mem begun known
      intro n reading
      cases at_.symm.trans reading
      exact List.mem_cons_self
  | schedule =>
      simp only [at_, Option.some.injEq] at taken
      subst taken
      exact owed.keep (by rw [at_]; rfl) (by simp [at_]) (by simp [at_]) (goto_apart s thread .idle)
        rfl (fun _ => rfl) rfl fun n known => known
  | release =>
      simp only [at_, Option.some.injEq] at taken
      subst taken
      by_cases dirty : s.dirty = true
      · exact Owed.of_live (Or.inr ⟨dirty, Or.inr ⟨thread, goto_thread s thread _⟩⟩)
      · exact owed.keep (by rw [at_]; rfl) (by simp [at_]) (by simp [at_])
          (goto_apart s thread .check) rfl (fun set => absurd set dirty) rfl fun n known => known
  | check =>
      simp only [at_, Option.some.injEq] at taken
      subst taken
      by_cases dirty : s.dirty = true
      · rw [if_pos dirty]
        exact Owed.of_live (Or.inl ⟨thread, by simp [goto_thread, Pc.asks]⟩)
      · rw [if_neg dirty]
        exact owed.keep (by rw [at_]; rfl) (fun _ => by simpa using dirty) (by simp [at_])
          (goto_apart s thread .idle) rfl (fun _ => rfl) rfl fun n known => known

theorem Owed.step (owed : Owed s) (claimed : Claimed s) {move : Move} (permitted : Permitted s move)
    (taken : s.step move = some s') : Owed s' := by
  cases move with
  | request thread =>
      obtain ⟨-, rfl⟩ := request_eq taken
      exact Owed.of_live (Or.inl ⟨thread, by simp [goto_thread, Pc.asks]⟩)
  | run thread => exact owed.run permitted taken
  | fail thread =>
      obtain ⟨⟨begun, at_⟩, rfl⟩ := fail_eq taken
      apply Owed.of_live
      rcases permitted with dirty | ⟨other, claim | mark⟩
      · exact Or.inr ⟨dirty, Or.inl (claimed.thread thread (by rw [at_]; rfl)).1⟩
      · have stays : (s.goto thread .schedule).threads other = .claim := still claim (by simp [at_])
        exact Or.inl ⟨other, by rw [stays]; rfl⟩
      · have stays : (s.goto thread .schedule).threads other = .mark := still mark (by simp [at_])
        exact Or.inl ⟨other, by rw [stays]; rfl⟩
  | start =>
      obtain ⟨rest, -, idle, rfl⟩ := start_eq taken
      exact owed.keep (by rw [idle]; rfl) (by simp [idle]) (by simp [idle])
        (goto_apart s 0 .release) rfl (fun _ => rfl) rfl fun n known => known

/-- When nothing runs and nothing is scheduled, nobody holds the claim and nothing is owed. -/
theorem Owed.covered (owed : Owed s) (claimed : Claimed s) (quiescent : s.Quiescent) :
    s.Covered := by
  have free : s.inFlight = false := by
    by_contra held
    rcases claimed.held (by simpa using held) with task | ⟨i, holds⟩
    · exact absurd quiescent.1 (Nat.ne_of_gt task)
    · simp [quiescent.2 i, Pc.holds] at holds
  intro request asked
  rcases owed request asked with known | ⟨i, begun, reading, -⟩ | live
  · exact known
  · simp [quiescent.2 i] at reading
  · rcases live with ⟨i, asks⟩ | ⟨-, held | ⟨i, check⟩⟩
    · simp [quiescent.2 i, Pc.asks] at asks
    · simp [free] at held
    · simp [quiescent.2 i] at check

end Steps

theorem claimed_initial : Claimed .initial where
  thread i holds := by cases holds
  alone i j holds := by cases holds
  task more := by cases more
  held inFlight := by cases inFlight

theorem Reaches.invariants {s : Broadcaster} (reached : Reaches Permitted s) : Claimed s ∧ Owed s := by
  induction reached with
  | initial => exact ⟨claimed_initial, fun request asked => by cases asked⟩
  | step _ move permitted taken ih =>
      exact ⟨ih.1.step taken, ih.2.step ih.1 permitted taken⟩

/-- Every request has its broadcast by the time that the tasks have run, unless the flag is set
when nobody will look at it, or a roster is lost that nobody will read again. -/
theorem request_broadcast (s : Broadcaster) (reached : Reaches Permitted s)
    (quiescent : s.Quiescent) : s.Covered :=
  reached.invariants.2.covered reached.invariants.1 quiescent

/-- The state after some moves, each of which is allowed where it is made. -/
def Leads (allowed : Broadcaster → Move → Prop) : Broadcaster → List Move → Broadcaster → Prop
  | s, [], after => s = after
  | s, move :: moves, after =>
      allowed s move ∧ ∃ s', s.step move = some s' ∧ Leads allowed s' moves after

theorem Reaches.leads {allowed : Broadcaster → Move → Prop} {s after : Broadcaster}
    (reached : Reaches allowed s) (moves : List Move) (run : Leads allowed s moves after) :
    Reaches allowed after := by
  induction moves generalizing s with
  | nil =>
      rw [← run]
      exact reached
  | cons move moves ih =>
      obtain ⟨may, s', taken, rest⟩ := run
      exact ih (.step reached move may taken) rest

def quiet (dirty : Bool) (begun : Nat) (broadcasts : List Nat) : Broadcaster where
  inFlight := false
  dirty := dirty
  scheduled := 0
  threads _ := .idle
  begun := begun
  broadcasts := broadcasts

/-- A first request that is broadcast, and a second whose claim fails. -/
def twoRequests : List Move :=
  [.request 1, .run 1, .run 1, .run 1, .run 1, .run 1, .request 2, .run 2]

/-- The second sets the flag when the task has looked at it. -/
theorem request_broadcast_lost :
    ¬∀ s, Reaches (fun _ _ => True) s → s.Quiescent → s.Covered := by
  intro always
  have run : Leads (fun _ _ => True) .initial
      (twoRequests ++ [.start, .run 0, .run 0, .run 2]) (quiet true 2 [1]) := by
    simp [Leads, twoRequests, Broadcaster.step, Broadcaster.request, Broadcaster.run,
      Broadcaster.start, Broadcaster.goto, Broadcaster.initial, quiet]
    funext i
    grind [Function.update_apply]
  have covered := always _ (Reaches.initial.leads _ run) ⟨rfl, fun _ => rfl⟩
  obtain ⟨read, known, later⟩ := covered 1 (by decide)
  simp only [quiet, List.mem_singleton] at known
  omega

/-- The second sets the flag in time, and the task broadcasts again. -/
theorem request_broadcast_coalesced : (quiet false 3 [3, 1]).Covered := by
  have run : Leads Permitted .initial (twoRequests ++ [.run 2, .start, .run 0, .run 0, .run 0, .run 0,
      .run 0, .run 0, .run 0, .start, .run 0, .run 0]) (quiet false 3 [3, 1]) := by
    simp [Leads, twoRequests, Broadcaster.step, Broadcaster.request, Broadcaster.run,
      Broadcaster.start, Broadcaster.goto, Broadcaster.initial, Permitted, quiet]
  exact request_broadcast _ (Reaches.initial.leads _ run) ⟨rfl, fun _ => rfl⟩

end RosterBroadcaster
