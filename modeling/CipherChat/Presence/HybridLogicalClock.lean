import CipherChat.Causality.HappensBefore
import Mathlib.Data.Prod.Lex

/-!
The hybrid logical clocks of the replicas and the timestamps they issue.  A run is any
sequence of local events and of receipts of earlier timestamps; the physical clocks may read
anything.
-/

namespace Presence

variable {ρ : Type}

structure HlcTimestamp (ρ : Type) where
  physical : Nat
  logical : Nat
  replicaId : ρ
deriving DecidableEq

namespace HlcTimestamp

variable [LinearOrder ρ]

def compareTo (a b : HlcTimestamp ρ) : Ordering :=
  match compare a.physical b.physical with
  | .eq =>
      match compare a.logical b.logical with
      | .eq => compare a.replicaId b.replicaId
      | byLogical => byLogical
  | byPhysical => byPhysical

def key (a : HlcTimestamp ρ) : Nat ×ₗ Nat ×ₗ ρ :=
  toLex (a.physical, toLex (a.logical, a.replicaId))

omit [LinearOrder ρ] in
theorem key_injective : Function.Injective (key : HlcTimestamp ρ → _) := by
  rintro ⟨p, l, r⟩ ⟨q, m, s⟩ same
  simpa [key] using same

instance : LinearOrder (HlcTimestamp ρ) :=
  LinearOrder.lift' key key_injective

theorem lt_iff {a b : HlcTimestamp ρ} :
    a < b ↔ a.physical < b.physical ∨ a.physical = b.physical ∧
      (a.logical < b.logical ∨ a.logical = b.logical ∧ a.replicaId < b.replicaId) := by
  change a.key < b.key ↔ _
  simp [key, Prod.Lex.toLex_lt_toLex]

theorem compareTo_lt {a b : HlcTimestamp ρ} : a.compareTo b = .lt ↔ a < b := by
  rw [lt_iff]
  unfold compareTo
  rcases lt_trichotomy a.physical b.physical with less | same | more
  · simp [compare_lt_iff_lt.mpr less, less]
  · rcases lt_trichotomy a.logical b.logical with lower | equal | higher
    · simp [same, compare_lt_iff_lt.mpr lower, lower]
    · simp [same, equal, compare_lt_iff_lt]
    · simp [same, compare_gt_iff_gt.mpr higher, not_lt_of_gt higher, ne_of_gt higher]
  · simp [compare_gt_iff_gt.mpr more, not_lt_of_gt more, ne_of_gt more]

end HlcTimestamp

structure HybridLogicalClock (ρ : Type) where
  replicaId : ρ
  l : Nat
  c : Nat
deriving DecidableEq

namespace HybridLogicalClock

def new (replicaId : ρ) : HybridLogicalClock ρ where
  replicaId := replicaId
  l := 0
  c := 0

/-- `pt` is what the physical clock reads during the call. -/
def now (clock : HybridLogicalClock ρ) (pt : Nat) : HlcTimestamp ρ × HybridLogicalClock ρ :=
  let lNew := max clock.l pt
  let c := if lNew = clock.l then clock.c + 1 else 0
  (⟨lNew, c, clock.replicaId⟩, { clock with l := lNew, c := c })

def update (clock : HybridLogicalClock ρ) (remote : HlcTimestamp ρ) (pt : Nat) :
    HlcTimestamp ρ × HybridLogicalClock ρ :=
  let lNew := max (max clock.l remote.physical) pt
  let c :=
    if lNew = clock.l ∧ lNew = remote.physical then max clock.c remote.logical + 1
    else if lNew = clock.l then clock.c + 1
    else if lNew = remote.physical then remote.logical + 1
    else 0
  (⟨lNew, c, clock.replicaId⟩, { clock with l := lNew, c := c })

/-- The timestamp the clock stands at: what it issued last. -/
def reading (clock : HybridLogicalClock ρ) : HlcTimestamp ρ :=
  ⟨clock.l, clock.c, clock.replicaId⟩

/-- What a call makes of the clock: the timestamp it returns is where the clock then stands,
after all the clock knew and received, and its physical part is one it was given. -/
structure Advance [LinearOrder ρ] (clock : HybridLogicalClock ρ)
    (remote : Option (HlcTimestamp ρ)) (pt : Nat)
    (result : HlcTimestamp ρ × HybridLogicalClock ρ) : Prop where
  shown : result.1 = result.2.reading
  own : result.2.replicaId = clock.replicaId
  after : clock.reading < result.1
  received : ∀ sent ∈ remote, sent < result.1
  given : result.1.physical ≤ pt ∨ result.1.physical ≤ clock.l ∨
    ∃ sent ∈ remote, result.1.physical ≤ sent.physical

variable [LinearOrder ρ] {clock : HybridLogicalClock ρ} {pt : Nat} {remote : HlcTimestamp ρ}

theorem reading_lt_now : clock.reading < (clock.now pt).1 := by
  rw [HlcTimestamp.lt_iff]
  by_cases still : max clock.l pt = clock.l
  · have ticked : (clock.now pt).1.logical = clock.c + 1 := by simp [now, still]
    refine .inr ⟨still.symm, .inl ?_⟩
    rw [ticked]
    exact Nat.lt_succ_self clock.c
  · exact .inl (lt_of_le_of_ne (le_max_left clock.l pt) (Ne.symm still))

theorem reading_lt_update : clock.reading < (clock.update remote pt).1 := by
  rw [HlcTimestamp.lt_iff]
  have le : clock.l ≤ max (max clock.l remote.physical) pt := by simp
  by_cases still : max (max clock.l remote.physical) pt = clock.l
  · refine .inr ⟨still.symm, .inl ?_⟩
    simp only [update, still, reading, true_and, if_true]
    split_ifs <;> omega
  · exact .inl (lt_of_le_of_ne le (Ne.symm still))

theorem remote_lt_update : remote < (clock.update remote pt).1 := by
  rw [HlcTimestamp.lt_iff]
  have le : remote.physical ≤ max (max clock.l remote.physical) pt := by simp
  by_cases still : max (max clock.l remote.physical) pt = remote.physical
  · refine .inr ⟨still.symm, .inl ?_⟩
    simp only [update, still, and_true, if_true]
    split_ifs <;> omega
  · exact .inl (lt_of_le_of_ne le (Ne.symm still))

theorem now_advance : Advance clock none pt (clock.now pt) where
  shown := rfl
  own := rfl
  after := reading_lt_now
  received := by simp
  given := by
    change max clock.l pt ≤ pt ∨ max clock.l pt ≤ clock.l ∨ _
    rcases le_total clock.l pt with behind | ahead
    · exact .inl (max_le behind le_rfl)
    · exact .inr (.inl (max_le le_rfl ahead))

theorem update_advance : Advance clock (some remote) pt (clock.update remote pt) where
  shown := rfl
  own := rfl
  after := reading_lt_update
  received sent given := by
    obtain rfl := Option.mem_some.mp given
    exact remote_lt_update
  given := by
    have physical : (clock.update remote pt).1.physical =
        max (max clock.l remote.physical) pt := rfl
    rw [physical]
    have largest : max (max clock.l remote.physical) pt ≤ pt ∨
        max (max clock.l remote.physical) pt ≤ clock.l ∨
        max (max clock.l remote.physical) pt ≤ remote.physical := by omega
    exact largest.imp_right (Or.imp_right fun le => ⟨remote, rfl, le⟩)

end HybridLogicalClock

/-- One timestamp of a run: who issued it, what the physical clock read, and the position of
the earlier issue whose timestamp was received, if one was. -/
structure Issue (ρ : Type) where
  replica : ρ
  pt : Nat
  remote : Option Nat
  timestamp : HlcTimestamp ρ
deriving DecidableEq

def pattern : Causality.Pattern (Issue ρ) ρ where
  process := Issue.replica
  received := Issue.remote

inductive Tick (ρ : Type) where
  | now (replica : ρ) (pt : Nat)
  | update (replica : ρ) (pt : Nat) (remote : Nat)

structure Clocks (ρ : Type) where
  clock : ρ → HybridLogicalClock ρ
  issues : List (Issue ρ)

namespace Clocks

def start : Clocks ρ where
  clock := HybridLogicalClock.new
  issues := []

variable [LinearOrder ρ]

def issue (clocks : Clocks ρ) (replica : ρ) (pt : Nat) (remote : Option Nat)
    (result : HlcTimestamp ρ × HybridLogicalClock ρ) : Clocks ρ where
  clock := Function.update clocks.clock replica result.2
  issues := clocks.issues ++ [⟨replica, pt, remote, result.1⟩]

def tick (clocks : Clocks ρ) : Tick ρ → Option (Clocks ρ)
  | .now replica pt => some (clocks.issue replica pt none ((clocks.clock replica).now pt))
  | .update replica pt remote => do
      let sent ← clocks.issues[remote]?
      some (clocks.issue replica pt (some remote)
        ((clocks.clock replica).update sent.timestamp pt))

inductive Reached : Clocks ρ → Prop
  | start : Reached start
  | tick {clocks later : Clocks ρ} (earlier : Reached clocks) (step : Tick ρ)
      (taken : clocks.tick step = some later) : Reached later

variable {clocks later : Clocks ρ}

def heard (clocks : Clocks ρ) (remote : Option Nat) : Option (HlcTimestamp ρ) :=
  remote.bind fun position => clocks.issues[position]?.map Issue.timestamp

/-- All that a step can do. -/
theorem tick_cases {step : Tick ρ} (taken : clocks.tick step = some later) :
    ∃ replica pt remote result, later = clocks.issue replica pt remote result ∧
      (clocks.clock replica).Advance (clocks.heard remote) pt result := by
  cases step with
  | now replica pt =>
      obtain rfl := Option.some.inj taken
      exact ⟨replica, pt, none, _, rfl, HybridLogicalClock.now_advance⟩
  | update replica pt remote =>
      simp only [tick, Option.bind_eq_bind, Option.bind_eq_some_iff, Option.some.injEq] at taken
      obtain ⟨sent, found, rfl⟩ := taken
      refine ⟨replica, pt, some remote, _, rfl, ?_⟩
      have given : clocks.heard (some remote) = some sent.timestamp := by simp [heard, found]
      rw [given]
      exact HybridLogicalClock.update_advance

abbrev Issued (clocks : Clocks ρ) (i : Nat) (a : Issue ρ) : Prop :=
  clocks.issues[i]? = some a

structure Sound (clocks : Clocks ρ) : Prop where
  own : ∀ replica, (clocks.clock replica).replicaId = replica
  stands : ∀ replica, clocks.clock replica = .new replica ∨
    ∃ i a, clocks.Issued i a ∧ a.replica = replica ∧
      a.timestamp = (clocks.clock replica).reading
  signed : ∀ i a, clocks.Issued i a →
    a.timestamp.replicaId = a.replica ∧ a.timestamp ≤ (clocks.clock a.replica).reading
  ordered : ∀ i j a b, clocks.Issued i a → clocks.Issued j b →
    Causality.Direct pattern clocks.issues i j → a.timestamp < b.timestamp
  read : ∀ j b, clocks.Issued j b → ∃ i a, clocks.Issued i a ∧
    Causality.Past pattern clocks.issues i j ∧ b.timestamp.physical ≤ a.pt

theorem start_sound : (start : Clocks ρ).Sound where
  own _ := rfl
  stands _ := .inl rfl
  signed i a found := by simp [Issued, start] at found
  ordered i j a b first := by simp [Issued, start] at first
  read j b found := by simp [Issued, start] at found

section Issue

variable {replica : ρ} {pt : Nat} {remote : Option Nat}
  {result : HlcTimestamp ρ × HybridLogicalClock ρ}

theorem issue_last :
    (clocks.issue replica pt remote result).Issued clocks.issues.length
      ⟨replica, pt, remote, result.1⟩ := by
  simp [Issued, issue]

/-- An issue of the longer run is an old one or the last. -/
theorem issue_found {i : Nat} {a : Issue ρ}
    (found : (clocks.issue replica pt remote result).Issued i a) :
    clocks.Issued i a ∨
      i = clocks.issues.length ∧ a = ⟨replica, pt, remote, result.1⟩ :=
  Causality.found_append found

theorem reading_le_issue
    (advance : (clocks.clock replica).Advance (clocks.heard remote) pt result) (other : ρ) :
    (clocks.clock other).reading ≤
      ((clocks.issue replica pt remote result).clock other).reading := by
  by_cases same : other = replica
  · subst other
    simp only [issue, Function.update_self]
    rw [← advance.shown]
    exact advance.after.le
  · simp [issue, same]

/-- A new timestamp is above every timestamp with an edge to it. -/
theorem Sound.edge_last (sound : clocks.Sound)
    (advance : (clocks.clock replica).Advance (clocks.heard remote) pt result) {i : Nat}
    {a : Issue ρ} (found : clocks.Issued i a)
    (direct : Causality.Direct pattern (clocks.issue replica pt remote result).issues i
      clocks.issues.length) : a.timestamp < result.1 := by
  obtain ⟨b, again, edge⟩ := Causality.direct_last.mp direct
  obtain rfl := Option.some.inj (found.symm.trans again)
  rcases edge with same | sent
  · have below := (sound.signed i a found).2
    have replicaEq : a.replica = replica := same
    rw [replicaEq] at below
    exact below.trans_lt advance.after
  · have given : clocks.heard remote = some a.timestamp := by
      have position : remote = some i := sent
      simp [heard, position, found]
    exact advance.received a.timestamp given

theorem Sound.read_last (sound : clocks.Sound)
    (advance : (clocks.clock replica).Advance (clocks.heard remote) pt result) :
    ∃ i a, (clocks.issue replica pt remote result).Issued i a ∧
      Causality.Past pattern (clocks.issue replica pt remote result).issues i
        clocks.issues.length ∧ result.1.physical ≤ a.pt := by
  have own : result.1.physical ≤ pt → ∃ i a,
      (clocks.issue replica pt remote result).Issued i a ∧
      Causality.Past pattern (clocks.issue replica pt remote result).issues i
        clocks.issues.length ∧ result.1.physical ≤ a.pt :=
    fun le => ⟨_, _, issue_last, .inl rfl, le⟩
  -- what a causally earlier issue had read is read in the past of the new one too
  have inherited : ∀ k b, clocks.Issued k b →
      (b.replica = replica ∨ remote = some k) → result.1.physical ≤ b.timestamp.physical →
      ∃ i a, (clocks.issue replica pt remote result).Issued i a ∧
        Causality.Past pattern (clocks.issue replica pt remote result).issues i
          clocks.issues.length ∧ result.1.physical ≤ a.pt := by
    intro k b found edge le
    obtain ⟨i, a, early, past, bounded⟩ := sound.read k b found
    have before := Causality.before_last (e := ⟨replica, pt, remote, result.1⟩) |>.mpr
      ⟨k, b, found, edge, past⟩
    refine ⟨i, a, ?_, .inr before, le.trans bounded⟩
    exact (Causality.getElem?_append_old (Causality.bound_of_getElem? early)).trans early
  rcases advance.given with le | le | ⟨sent, given, le⟩
  · exact own le
  · rcases sound.stands replica with fresh | ⟨k, b, found, mine, shown⟩
    · rw [fresh] at le
      exact own (le.trans (Nat.zero_le pt))
    · refine inherited k b found (.inl mine) ?_
      rw [shown]
      exact le
  · obtain ⟨k, position, heardIt⟩ := Option.bind_eq_some_iff.mp given
    obtain ⟨b, found, rfl⟩ := Option.map_eq_some_iff.mp heardIt
    exact inherited k b found (.inr position) le

theorem Sound.issue (sound : clocks.Sound)
    (advance : (clocks.clock replica).Advance (clocks.heard remote) pt result) :
    (clocks.issue replica pt remote result).Sound where
  own other := by
    by_cases same : other = replica
    · subst other
      simp only [Clocks.issue, Function.update_self]
      exact advance.own.trans (sound.own _)
    · simpa [Clocks.issue, same] using sound.own other
  stands other := by
    by_cases same : other = replica
    · subst other
      refine .inr ⟨_, _, issue_last, rfl, ?_⟩
      simp only [Clocks.issue, Function.update_self]
      exact advance.shown
    · simp only [Clocks.issue, ne_eq, same, not_false_eq_true, Function.update_of_ne]
      refine (sound.stands other).imp_right ?_
      rintro ⟨i, a, found, mine, shown⟩
      exact ⟨i, a, (Causality.getElem?_append_old
        (Causality.bound_of_getElem? found)).trans found, mine, shown⟩
  signed i a found := by
    rcases issue_found found with old | ⟨rfl, rfl⟩
    · obtain ⟨name, below⟩ := sound.signed i a old
      exact ⟨name, below.trans (reading_le_issue advance a.replica)⟩
    · have shown : result.1 = result.2.reading := advance.shown
      refine ⟨?_, ?_⟩
      · rw [shown]
        exact advance.own.trans (sound.own replica)
      · simp only [Clocks.issue, Function.update_self]
        exact shown.le
  ordered i j a b first second direct := by
    have less := direct.less
    rcases issue_found second with old | ⟨rfl, rfl⟩
    · have bound := Causality.bound_of_getElem? old
      rw [Clocks.issue, Causality.direct_append bound] at direct
      have early := (Causality.getElem?_append_old (less.trans bound)).symm.trans first
      exact sound.ordered i j a b early old direct
    · have early := (Causality.getElem?_append_old less).symm.trans first
      exact sound.edge_last advance early direct
  read j b found := by
    rcases issue_found found with old | ⟨rfl, rfl⟩
    · obtain ⟨i, a, early, past, le⟩ := sound.read j b old
      exact ⟨i, a, (Causality.getElem?_append_old
          (Causality.bound_of_getElem? early)).trans early,
        (Causality.past_append (Causality.bound_of_getElem? old)).mpr past, le⟩
    · exact sound.read_last advance

end Issue

theorem Reached.sound (reached : Reached clocks) : clocks.Sound := by
  induction reached with
  | start => exact start_sound
  | tick earlier step taken ih =>
      obtain ⟨replica, pt, remote, result, rfl, advance⟩ := tick_cases taken
      exact ih.issue advance

theorem Sound.before_lt (sound : clocks.Sound) {i j : Nat} {a b : Issue ρ}
    (first : clocks.Issued i a) (second : clocks.Issued j b)
    (before : Causality.Before pattern clocks.issues i j) : a.timestamp < b.timestamp := by
  -- positions without an issue have no edges; they get an arbitrary value
  let value : Nat → HlcTimestamp ρ := fun k =>
    ((clocks.issues[k]?).map Issue.timestamp).getD a.timestamp
  have rises : ∀ k m, Causality.Direct pattern clocks.issues k m → value k < value m := by
    intro k m direct
    have edge := direct
    obtain ⟨_, c, d, foundC, foundD, _⟩ := edge
    have less := sound.ordered k m c d foundC foundD direct
    simpa [value, foundC, foundD] using less
  have increases := before.increases value rises
  have firstEq : value i = a.timestamp := by simp [value, first]
  have secondEq : value j = b.timestamp := by simp [value, second]
  rwa [firstEq, secondEq] at increases

theorem Sound.distinct (sound : clocks.Sound) {i j : Nat} {a b : Issue ρ}
    (first : clocks.Issued i a) (second : clocks.Issued j b) (differ : i ≠ j) :
    a.timestamp ≠ b.timestamp := by
  intro equal
  have same : a.replica = b.replica := by
    rw [← (sound.signed i a first).1, ← (sound.signed j b second).1, equal]
  rcases Nat.lt_or_gt_of_ne differ with less | more
  · exact (sound.ordered i j a b first second
      ⟨less, a, b, first, second, .inl same⟩).ne equal
  · exact (sound.ordered j i b a second first
      ⟨more, b, a, second, first, .inl same.symm⟩).ne equal.symm

/-- No two timestamps of a run are equal, the causal order agrees with `compareTo`, and no
physical part runs ahead of every physical clock in its causal past. -/
theorem timestamps_lawful (reached : Reached clocks) :
    (∀ i j a b, clocks.Issued i a → clocks.Issued j b →
      i ≠ j → a.timestamp ≠ b.timestamp) ∧
    (∀ i j a b, clocks.Issued i a → clocks.Issued j b →
      Causality.Before pattern clocks.issues i j → a.timestamp.compareTo b.timestamp = .lt) ∧
    (∀ j b, clocks.Issued j b → ∃ i a, clocks.Issued i a ∧
      Causality.Past pattern clocks.issues i j ∧ b.timestamp.physical ≤ a.pt) := by
  have sound := reached.sound
  refine ⟨fun i j a b first second differ => sound.distinct first second differ, ?_, sound.read⟩
  intro i j a b first second before
  exact HlcTimestamp.compareTo_lt.mpr (sound.before_lt first second before)

def received : Clocks Nat :=
  ((start.issue 0 5 none ((HybridLogicalClock.new 0).now 5)).issue 1 3 (some 0)
    ((HybridLogicalClock.new 1).update ⟨5, 0, 0⟩ 3))

theorem timestamps_lawful_received :
    received.issues.map Issue.timestamp = [⟨5, 0, 0⟩, ⟨5, 1, 1⟩] ∧
    (⟨5, 0, 0⟩ : HlcTimestamp Nat).compareTo ⟨5, 1, 1⟩ = .lt := by
  have reached : Reached received := .tick (.tick .start (.now 0 5) rfl) (.update 1 3 0) rfl
  refine ⟨rfl, (timestamps_lawful reached).2.1 0 1 ⟨0, 5, none, ⟨5, 0, 0⟩⟩
    ⟨1, 3, some 0, ⟨5, 1, 1⟩⟩ rfl rfl ?_⟩
  exact .single ⟨Nat.one_pos, _, _, rfl, rfl, .inr rfl⟩

end Clocks

end Presence
