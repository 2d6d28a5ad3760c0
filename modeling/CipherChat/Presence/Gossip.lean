import CipherChat.Presence.Replicated

/-!
Replicas of one user's presence that apply operations to their own states and merge each
other's, old states included, in any order.
-/

namespace Presence

variable {υ ρ : Type}

inductive Act (ρ : Type) where
  | firstConnect (written : LwwRegister ρ StatusNote)
  | connect
  | disconnect
  | updateStatus (written : LwwRegister ρ StatusNote)
  | merge (sent : Nat)

namespace Act

def connects : Act ρ → Bool
  | .firstConnect _ | .connect => true
  | _ => false

def disconnects : Act ρ → Bool
  | .disconnect => true
  | _ => false

def written : Act ρ → Option (LwwRegister ρ StatusNote)
  | .firstConnect register | .updateStatus register => some register
  | _ => none

def sent : Act ρ → Option Nat
  | .merge sent => some sent
  | _ => none

theorem written_sent {act : Act ρ} {w : LwwRegister ρ StatusNote}
    (wrote : act.written = some w) :
    act.sent = none := by
  cases act <;> first | rfl | cases wrote

end Act

variable [LinearOrder ρ]

/-- What a replica did, and its state after it. -/
structure Event (υ ρ : Type) [LinearOrder ρ] where
  replica : ρ
  act : Act ρ
  after : ReplicatedPresence υ ρ

/-- A merge receives the state that was there after an earlier event. -/
def gossip : Causality.Pattern (Event υ ρ) ρ where
  process := Event.replica
  received := fun event => event.act.sent

/-- A clock serves all users of its replica: it may tick and hear timestamps besides. -/
inductive Step (ρ : Type) where
  | firstConnect (replica : ρ) (pt : Nat) (initial : StatusNote)
  | connect (replica : ρ)
  | disconnect (replica : ρ)
  | updateStatus (replica : ρ) (pt : Nat) (value : StatusNote)
  | merge (replica : ρ) (pt : Nat) (sent : Nat)
  | now (replica : ρ) (pt : Nat)
  | update (replica : ρ) (pt : Nat) (remote : HlcTimestamp ρ)

structure Regions (υ ρ : Type) [LinearOrder ρ] where
  userId : υ
  clock : ρ → HybridLogicalClock ρ
  states : ρ → Option (ReplicatedPresence υ ρ)
  events : List (Event υ ρ)

namespace Regions

def start (userId : υ) : Regions υ ρ where
  userId := userId
  clock := HybridLogicalClock.new
  states := fun _ => none
  events := []

def setClock (regions : Regions υ ρ) (replica : ρ) (clock : HybridLogicalClock ρ) :
    Regions υ ρ :=
  { regions with clock := Function.update regions.clock replica clock }

/-- A call that throws leaves the replica with the state it had. -/
def record (regions : Regions υ ρ) (replica : ρ) (act : Act ρ) :
    Except String (ReplicatedPresence υ ρ) → Regions υ ρ
  | .ok after =>
      { regions with
        states := Function.update regions.states replica (some after)
        events := regions.events ++ [⟨replica, act, after⟩] }
  | .error _ => regions

variable [DecidableEq υ] [ToString υ]

def step (regions : Regions υ ρ) : Step ρ → Option (Regions υ ρ)
  | .firstConnect replica pt initial =>
      match regions.states replica with
      | some _ => none
      | none =>
          let (timestamp, clock) := (regions.clock replica).now pt
          some ((regions.setClock replica clock).record replica
            (.firstConnect (.initial initial timestamp))
            (ReplicatedPresence.firstConnect regions.userId replica timestamp initial))
  | .connect replica => do
      let presence ← regions.states replica
      some (regions.record replica .connect (presence.connect replica))
  | .disconnect replica => do
      let presence ← regions.states replica
      some (regions.record replica .disconnect (presence.disconnect replica))
  | .updateStatus replica pt value => do
      let presence ← regions.states replica
      let (timestamp, clock) := (regions.clock replica).now pt
      some ((regions.setClock replica clock).record replica
        (.updateStatus (.initial value timestamp)) (.ok (presence.updateStatus value timestamp)))
  | .merge replica pt sent => do
      let remote ← regions.events[sent]?
      let (_, clock) := (regions.clock replica).update remote.after.status.timestamp pt
      let result := match regions.states replica with
        | none => .ok remote.after
        | some presence => presence.merge remote.after
      some ((regions.setClock replica clock).record replica (.merge sent) result)
  | .now replica pt =>
      some (regions.setClock replica ((regions.clock replica).now pt).2)
  | .update replica pt remote =>
      some (regions.setClock replica ((regions.clock replica).update remote pt).2)

inductive Reached (userId : υ) : Regions υ ρ → Prop
  | start : Reached userId (start userId)
  | step {regions later : Regions υ ρ} (earlier : Reached userId regions) (step : Step ρ)
      (taken : regions.step step = some later) : Reached userId later

end Regions

section Cuts

variable {events : List (Event υ ρ)} {event : Event υ ρ}

open Classical in
/-- The events in the causal past of an event: what its state has incorporated. -/
noncomputable def incorporated (events : List (Event υ ρ)) (j : Nat) : Finset Nat :=
  (Finset.range events.length).filter fun i => Causality.Past gossip events i j

open Classical in
/-- The events a replica has incorporated by now. -/
noncomputable def known (events : List (Event υ ρ)) (replica : ρ) : Finset Nat :=
  (Finset.range events.length).filter fun i => ∃ k e, events[k]? = some e ∧
    e.replica = replica ∧ Causality.Past gossip events i k

theorem mem_incorporated {i j : Nat} (bound : j < events.length) :
    i ∈ incorporated events j ↔ Causality.Past gossip events i j := by
  simp only [incorporated, Finset.mem_filter, Finset.mem_range, and_iff_right_iff_imp]
  exact fun past => past.le.trans_lt bound

theorem mem_known {i : Nat} {replica : ρ} : i ∈ known events replica ↔
    ∃ k e, events[k]? = some e ∧ e.replica = replica ∧ Causality.Past gossip events i k := by
  simp only [known, Finset.mem_filter, Finset.mem_range, and_iff_right_iff_imp]
  rintro ⟨k, e, found, _, past⟩
  exact past.le.trans_lt (Causality.bound_of_getElem? found)

theorem incorporated_append {j : Nat} (bound : j < events.length) :
    incorporated (events ++ [event]) j = incorporated events j := by
  ext i
  rw [mem_incorporated (by simp; omega), mem_incorporated bound, Causality.past_append bound]

theorem known_append_other {replica : ρ} (other : event.replica ≠ replica) :
    known (events ++ [event]) replica = known events replica := by
  ext i
  rw [mem_known, mem_known]
  constructor
  · rintro ⟨k, e, found, mine, past⟩
    rcases Causality.found_append found with old | ⟨_, rfl⟩
    · have bound := Causality.bound_of_getElem? old
      exact ⟨k, e, old, mine, (Causality.past_append bound).mp past⟩
    · exact absurd mine other
  · rintro ⟨k, e, found, mine, past⟩
    have old := Causality.bound_of_getElem? found
    exact ⟨k, e, (Causality.getElem?_append_old old).trans found, mine,
      (Causality.past_append old).mpr past⟩

/-- The last event has incorporated itself, what its replica knew and what it received. -/
theorem mem_incorporated_last {i : Nat} :
    i ∈ incorporated (events ++ [event]) events.length ↔ i = events.length ∨
      i ∈ known events event.replica ∨
      ∃ k e, events[k]? = some e ∧ event.act.sent = some k ∧ i ∈ incorporated events k := by
  rw [mem_incorporated (by simp), Causality.past_last, mem_known]
  refine or_congr_right (or_congr_right (exists_congr fun k => exists_congr fun e => ?_))
  refine and_congr_right fun found => and_congr_right fun _ => ?_
  rw [mem_incorporated (Causality.bound_of_getElem? found)]

theorem incorporated_last_own (alone : event.act.sent = none) :
    incorporated (events ++ [event]) events.length =
      insert events.length (known events event.replica) := by
  ext i
  simp [mem_incorporated_last, alone]

theorem incorporated_last_merge {k : Nat} {e : Event υ ρ} (found : events[k]? = some e)
    (received : event.act.sent = some k) :
    incorporated (events ++ [event]) events.length =
      insert events.length (known events event.replica ∪ incorporated events k) := by
  ext i
  simp only [mem_incorporated_last, received, Finset.mem_insert, Finset.mem_union,
    Option.some.injEq]
  refine or_congr_right (or_congr_right ⟨?_, fun member => ⟨k, e, found, rfl, member⟩⟩)
  rintro ⟨_, _, _, rfl, member⟩
  exact member

theorem known_append_own :
    known (events ++ [event]) event.replica =
      incorporated (events ++ [event]) events.length := by
  ext i
  have last : (events ++ [event])[events.length]? = some event := by simp
  rw [mem_known, mem_incorporated (by simp)]
  constructor
  · rintro ⟨k, e, found, mine, past⟩
    have bound := Causality.bound_of_getElem? found
    simp only [List.length_append, List.length_singleton] at bound
    exact past.trans (Causality.past_of_process found last mine (Nat.lt_succ_iff.mp bound))
  · exact fun past => ⟨events.length, event, last, rfl, past⟩

/-- Of each replica's events a cut holds the first ones. -/
def Prefixes (events : List (Event υ ρ)) (cut : Finset Nat) : Prop :=
  ∀ i j a b, events[i]? = some a → events[j]? = some b → a.replica = b.replica → i ≤ j →
    j ∈ cut → i ∈ cut

theorem prefixes_incorporated {j : Nat} (bound : j < events.length) :
    Prefixes events (incorporated events j) := by
  intro i k a b first second same le member
  rw [mem_incorporated bound] at member ⊢
  exact (Causality.past_of_process first second same le).trans member

theorem prefixes_known (replica : ρ) : Prefixes events (known events replica) := by
  intro i j a b first second same le member
  rw [mem_known] at member ⊢
  obtain ⟨k, e, found, mine, past⟩ := member
  exact ⟨k, e, found, mine, (Causality.past_of_process first second same le).trans past⟩

theorem known_bounded (replica : ρ) : known events replica ⊆ Finset.range events.length := by
  intro i member
  obtain ⟨k, e, found, _, past⟩ := mem_known.mp member
  exact Finset.mem_range.mpr (past.le.trans_lt (Causality.bound_of_getElem? found))

theorem incorporated_bounded (j : Nat) :
    incorporated events j ⊆ Finset.range events.length := by
  intro i member
  simp only [incorporated, Finset.mem_filter] at member
  exact member.1

def counts (kind : Act ρ → Bool) (events : List (Event υ ρ)) (i : Nat) : Bool :=
  events[i]?.any fun e => kind e.act

def share (kind : Act ρ → Bool) (events : List (Event υ ρ)) (cut : Finset Nat) (replica : ρ) :
    Finset Nat :=
  cut.filter fun i => events[i]?.any fun e => kind e.act && decide (e.replica = replica)

def writes (events : List (Event υ ρ)) (i : Nat) : Option (LwwRegister ρ StatusNote) :=
  events[i]?.bind fun e => e.act.written

variable {kind : Act ρ → Bool} {cut other : Finset Nat} {replica : ρ}

theorem mem_share {i : Nat} : i ∈ share kind events cut replica ↔
    i ∈ cut ∧ ∃ e, events[i]? = some e ∧ kind e.act = true ∧ e.replica = replica := by
  simp [share, Option.any_eq_true]

theorem share_append (event : Event υ ρ) (bounded : cut ⊆ Finset.range events.length) :
    share kind (events ++ [event]) cut replica = share kind events cut replica := by
  ext i
  rw [mem_share, mem_share]
  refine and_congr_right fun member => ?_
  rw [Causality.getElem?_append_old (Finset.mem_range.mp (bounded member))]

theorem share_insert (bounded : cut ⊆ Finset.range events.length) :
    share kind (events ++ [event]) (insert events.length cut) replica =
      if kind event.act ∧ event.replica = replica
      then insert events.length (share kind events cut replica)
      else share kind events cut replica := by
  have last : (events ++ [event])[events.length]? = some event := by simp
  rw [share, Finset.filter_insert, last, ← share_append event bounded]
  simp [share]

theorem share_union : share kind events (cut ∪ other) replica =
    share kind events cut replica ∪ share kind events other replica :=
  Finset.filter_union _ _ _

/-- Of two cuts, one has seen all that the other has of a replica. -/
theorem share_nested (mine : Prefixes events cut) (theirs : Prefixes events other) :
    share kind events cut replica ⊆ share kind events other replica ∨
      share kind events other replica ⊆ share kind events cut replica := by
  by_cases within : share kind events cut replica ⊆ share kind events other replica
  · exact .inl within
  obtain ⟨i, member, missing⟩ := Finset.not_subset.mp within
  refine .inr fun j found => ?_
  obtain ⟨inCut, a, first, counted, own⟩ := mem_share.mp member
  obtain ⟨inOther, b, second, counted', own'⟩ := mem_share.mp found
  rcases Nat.le_total j i with earlier | later
  · exact mem_share.mpr ⟨mine j i b a second first (own'.trans own.symm) earlier inCut,
      b, second, counted', own'⟩
  · have also := theirs i j a b first second (own.trans own'.symm) later inOther
    exact absurd (mem_share.mpr ⟨also, a, first, counted, own⟩) missing

theorem card_share_union (mine : Prefixes events cut) (theirs : Prefixes events other) :
    (share kind events (cut ∪ other) replica).card =
      max (share kind events cut replica).card (share kind events other replica).card := by
  rw [share_union]
  rcases share_nested mine theirs with within | within
  · rw [Finset.union_eq_right.mpr within, max_eq_right (Finset.card_le_card within)]
  · rw [Finset.union_eq_left.mpr within, max_eq_left (Finset.card_le_card within)]

theorem card_share_insert (bounded : cut ⊆ Finset.range events.length) :
    (share kind (events ++ [event]) (insert events.length cut) replica).card =
      if kind event.act ∧ event.replica = replica
      then (share kind events cut replica).card + 1
      else (share kind events cut replica).card := by
  rw [share_insert bounded]
  split_ifs
  · refine Finset.card_insert_of_notMem fun member => ?_
    have below := Finset.mem_range.mp (bounded (mem_share.mp member).1)
    exact lt_irrefl _ below
  · rfl

theorem writes_append {i : Nat} (bound : i < events.length) :
    writes (events ++ [event]) i = writes events i := by
  simp [writes, Causality.getElem?_append_old bound]

theorem writes_last : writes (events ++ [event]) events.length = event.act.written := by
  simp [writes]

end Cuts

section Evaluation

variable {events : List (Event υ ρ)} {event : Event υ ρ} {cut other : Finset Nat}

def Tallied (kind : Act ρ → Bool) (events : List (Event υ ρ)) (cut : Finset Nat)
    (counter : GCounter ρ) : Prop :=
  ∀ replica, GCounter.slot counter.counts replica =
    GCounter.tally (share kind events cut replica).card

namespace Tallied

variable {kind : Act ρ → Bool} {counter counter' : GCounter ρ}

theorem empty : Tallied kind events ∅ .empty := fun _ => rfl

theorem append (tallied : Tallied kind events cut counter)
    (bounded : cut ⊆ Finset.range events.length) :
    Tallied kind (events ++ [event]) cut counter := by
  intro replica
  rw [share_append event bounded]
  exact tallied replica

theorem skip (tallied : Tallied kind events cut counter)
    (bounded : cut ⊆ Finset.range events.length) (uncounted : kind event.act = false) :
    Tallied kind (events ++ [event]) (insert events.length cut) counter := by
  intro replica
  rw [card_share_insert bounded, if_neg (by simp [uncounted])]
  exact tallied replica

theorem count (tallied : Tallied kind events cut counter)
    (bounded : cut ⊆ Finset.range events.length) (counted : kind event.act = true) :
    Tallied kind (events ++ [event]) (insert events.length cut)
      (counter.incremented event.replica) := by
  intro replica
  rw [card_share_insert bounded, GCounter.slot_incremented, tallied replica]
  by_cases own : event.replica = replica
  · rw [if_pos own, if_pos ⟨counted, own⟩, GCounter.merge_tally_one]
  · rw [if_neg own, if_neg fun both => own both.2]

theorem merge (mine : Tallied kind events cut counter) (theirs : Tallied kind events other counter')
    (ours : Prefixes events cut) (others : Prefixes events other) :
    Tallied kind events (cut ∪ other) (counter.merge counter') := by
  intro replica
  rw [GCounter.slot_merge, mine replica, theirs replica, GCounter.merge_tally,
    card_share_union ours others]

theorem value (tallied : Tallied kind events cut counter) :
    counter.value = (cut.filter fun i => counts kind events i).card := by
  refine GCounter.value_of_tallied tallied (fun i => ?_) fun r s differ => ?_
  · simp only [Finset.mem_filter, counts, Option.any_eq_true, mem_share]
    constructor
    · rintro ⟨member, e, found, counted⟩
      exact ⟨e.replica, member, e, found, counted, rfl⟩
    · rintro ⟨_, member, e, found, counted, _⟩
      exact ⟨member, e, found, counted⟩
  · rw [Finset.disjoint_left]
    intro i first second
    obtain ⟨_, a, found, _, rfl⟩ := mem_share.mp first
    obtain ⟨_, b, again, _, rfl⟩ := mem_share.mp second
    exact differ (congrArg Event.replica (Option.some.inj (found.symm.trans again)))

end Tallied

/-- The register holds a write of the cut, and none of the cut is later. -/
def Newest (events : List (Event υ ρ)) (cut : Finset Nat)
    (register : LwwRegister ρ StatusNote) : Prop :=
  (∃ i ∈ cut, writes events i = some register) ∧
  ∀ j ∈ cut, ∀ written, writes events j = some written →
    written.timestamp ≤ register.timestamp

namespace Newest

variable {register register' : LwwRegister ρ StatusNote}

theorem append (newest : Newest events cut register)
    (bounded : cut ⊆ Finset.range events.length) :
    Newest (events ++ [event]) cut register := by
  obtain ⟨⟨i, member, written⟩, above⟩ := newest
  refine ⟨⟨i, member, ?_⟩, fun j inCut other wrote => ?_⟩
  · rw [writes_append (Finset.mem_range.mp (bounded member)), written]
  · rw [writes_append (Finset.mem_range.mp (bounded inCut))] at wrote
    exact above j inCut other wrote

theorem skip (newest : Newest events cut register)
    (bounded : cut ⊆ Finset.range events.length) (silent : event.act.written = none) :
    Newest (events ++ [event]) (insert events.length cut) register := by
  obtain ⟨⟨i, member, written⟩, above⟩ : Newest (events ++ [event]) cut register :=
    newest.append bounded
  refine ⟨⟨i, Finset.mem_insert_of_mem member, written⟩, fun j inCut other wrote => ?_⟩
  rcases Finset.mem_insert.mp inCut with rfl | old
  · rw [writes_last, silent] at wrote
    cases wrote
  · exact above j old other wrote

theorem write (bounded : cut ⊆ Finset.range events.length)
    (wrote : event.act.written = some register)
    (above : ∀ j ∈ cut, ∀ written, writes events j = some written →
      written.timestamp ≤ register.timestamp) :
    Newest (events ++ [event]) (insert events.length cut) register := by
  refine ⟨⟨_, Finset.mem_insert_self _ _, writes_last.trans wrote⟩, ?_⟩
  intro j inCut other found
  rcases Finset.mem_insert.mp inCut with rfl | old
  · rw [writes_last, wrote, Option.some.injEq] at found
    exact found ▸ le_rfl
  · rw [writes_append (Finset.mem_range.mp (bounded old))] at found
    exact above j old other found

theorem merge (mine : Newest events cut register) (theirs : Newest events other register') :
    Newest events (cut ∪ other) (register.merge register') := by
  obtain ⟨⟨i, inCut, first⟩, above⟩ := mine
  obtain ⟨⟨j, inOther, second⟩, above'⟩ := theirs
  rw [LwwRegister.merge_eq]
  split_ifs with le
  · refine ⟨⟨i, Finset.mem_union_left _ inCut, first⟩, fun k member written found => ?_⟩
    rcases Finset.mem_union.mp member with old | received
    · exact above k old written found
    · exact (above' k received written found).trans le
  · refine ⟨⟨j, Finset.mem_union_right _ inOther, second⟩, fun k member written found => ?_⟩
    rcases Finset.mem_union.mp member with old | received
    · exact (above k old written found).trans (not_le.mp le).le
    · exact above' k received written found

end Newest

/-- The presence is what the operations of the cut amount to. -/
structure Evaluates (userId : υ) (events : List (Event υ ρ)) (cut : Finset Nat)
    (presence : ReplicatedPresence υ ρ) : Prop where
  user : presence.userId = userId
  connects : Tallied Act.connects events cut presence.sessions.increments
  disconnects : Tallied Act.disconnects events cut presence.sessions.decrements
  newest : Newest events cut presence.status

theorem Evaluates.append {userId : υ} {presence : ReplicatedPresence υ ρ}
    (evaluates : Evaluates userId events cut presence)
    (bounded : cut ⊆ Finset.range events.length) :
    Evaluates userId (events ++ [event]) cut presence where
  user := evaluates.user
  connects := evaluates.connects.append bounded
  disconnects := evaluates.disconnects.append bounded
  newest := evaluates.newest.append bounded

end Evaluation

end Presence
