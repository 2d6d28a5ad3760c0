import CipherChat.Presence.HybridLogicalClock
import CipherChat.Store.Table
import CipherChat.Text.Utf
import Mathlib.Algebra.BigOperators.Group.Finset.Basic
import Mathlib.Algebra.BigOperators.Ring.Finset
import Mathlib.Data.Finset.Card

/-!
Presence that several regions can write at once: grow-only counters, the counter that also
goes down, the last-writer-wins register, and the presence made of them.
-/

namespace Presence

variable {ρ : Type} [LinearOrder ρ]

/-- One slot for each replica that ever counted. -/
structure GCounter (ρ : Type) [LinearOrder ρ] where
  counts : Table (Prod.fst : ρ × Int → ρ)

namespace GCounter

def empty : GCounter ρ where
  counts := .empty

/-- `Map.merge`: an absent slot takes the value, a present one is remapped. -/
def mergeSlot (remap : Int → Int → Int) (counts : Table (Prod.fst : ρ × Int → ρ))
    (entry : ρ × Int) : Table (Prod.fst : ρ × Int → ρ) :=
  match counts.get entry.1 with
  | none => counts.put entry
  | some old => counts.put (entry.1, remap old.2 entry.2)

def increment (counter : GCounter ρ) (replicaId : ρ) (delta : Int) :
    Except String (GCounter ρ) :=
  if delta < 0 then .error s!"GCounter only grows: delta must be >= 0, got {delta}"
  else .ok ⟨mergeSlot (· + ·) counter.counts (replicaId, delta)⟩

def merge (counter other : GCounter ρ) : GCounter ρ where
  counts := other.counts.rows.foldl (mergeSlot max) counter.counts

def value (counter : GCounter ρ) : Int :=
  (counter.counts.rows.map Prod.snd).sum

def slot (counts : Table (Prod.fst : ρ × Int → ρ)) (replicaId : ρ) : Option Int :=
  (counts.get replicaId).map Prod.snd

theorem ext_slot {a b : GCounter ρ} (same : ∀ replicaId, slot a.counts replicaId =
    slot b.counts replicaId) : a = b := by
  have counts : a.counts = b.counts := by
    refine Table.ext_get fun replicaId => ?_
    have slots := same replicaId
    unfold slot at slots
    cases first : a.counts.get replicaId with
    | none =>
        rw [first, Option.map_none, eq_comm, Option.map_eq_none_iff] at slots
        exact slots.symm
    | some entry =>
        rw [first, Option.map_some, eq_comm, Option.map_eq_some_iff] at slots
        obtain ⟨entry', second, value⟩ := slots
        have keys : entry.1 = entry'.1 :=
          (Table.key_of_get first).trans (Table.key_of_get second).symm
        rw [second, Prod.ext keys value.symm]
  cases a
  cases b
  exact congrArg mk counts

theorem slot_mergeSlot (remap : Int → Int → Int) (counts : Table (Prod.fst : ρ × Int → ρ))
    (entry : ρ × Int) (replicaId : ρ) :
    slot (mergeSlot remap counts entry) replicaId =
      if entry.1 = replicaId then Option.merge remap (slot counts replicaId) (some entry.2)
      else slot counts replicaId := by
  unfold slot mergeSlot
  by_cases mine : entry.1 = replicaId
  · subst replicaId
    cases counts.get entry.1 <;> simp
  · cases counts.get entry.1 <;> simp [Table.get_put, mine]

theorem slot_foldl (remap : Int → Int → Int) {rows : List (ρ × Int)}
    (ordered : rows.Pairwise fun a b => a.1 < b.1) (counts : Table (Prod.fst : ρ × Int → ρ))
    (replicaId : ρ) :
    slot (rows.foldl (mergeSlot remap) counts) replicaId =
      Option.merge remap (slot counts replicaId)
        ((rows.find? fun entry => entry.1 = replicaId).map Prod.snd) := by
  induction rows generalizing counts with
  | nil => simp
  | cons entry rest ih =>
      rw [List.pairwise_cons] at ordered
      rw [List.foldl_cons, ih ordered.2, slot_mergeSlot]
      by_cases mine : entry.1 = replicaId
      · have absent : rest.find? (fun entry => entry.1 = replicaId) = none := by
          refine List.find?_eq_none.mpr fun later member => ?_
          simpa using (mine ▸ ordered.1 later member).ne'
        simp [mine, absent]
      · simp [mine]

theorem slot_merge (a b : GCounter ρ) (replicaId : ρ) :
    slot (a.merge b).counts replicaId =
      Option.merge max (slot a.counts replicaId) (slot b.counts replicaId) :=
  slot_foldl max b.counts.ordered a.counts replicaId

theorem merge_comm (a b : GCounter ρ) : a.merge b = b.merge a := by
  refine ext_slot fun replicaId => ?_
  rw [slot_merge, slot_merge]
  cases slot a.counts replicaId <;> cases slot b.counts replicaId <;> simp [max_comm]

theorem merge_assoc (a b c : GCounter ρ) : (a.merge b).merge c = a.merge (b.merge c) := by
  refine ext_slot fun replicaId => ?_
  simp only [slot_merge]
  cases slot a.counts replicaId <;> cases slot b.counts replicaId <;>
    cases slot c.counts replicaId <;> simp [max_assoc]

theorem merge_idem (a : GCounter ρ) : a.merge a = a := by
  refine ext_slot fun replicaId => ?_
  rw [slot_merge]
  cases slot a.counts replicaId <;> simp

def incremented (counter : GCounter ρ) (replicaId : ρ) : GCounter ρ where
  counts := mergeSlot (· + ·) counter.counts (replicaId, 1)

theorem slot_incremented (counter : GCounter ρ) (replicaId other : ρ) :
    slot (counter.incremented replicaId).counts other =
      if replicaId = other then Option.merge (· + ·) (slot counter.counts other) (some 1)
      else slot counter.counts other :=
  slot_mergeSlot (· + ·) counter.counts (replicaId, 1) other

/-- The slot of a replica that counted `n` times. -/
def tally (n : Nat) : Option Int :=
  if n = 0 then none else some n

theorem merge_tally (m n : Nat) :
    Option.merge max (tally m) (tally n) = tally (max m n) := by
  unfold tally
  by_cases first : m = 0
  · by_cases second : n = 0 <;> simp [first, second]
  by_cases second : n = 0
  · simp [first, second]
  have both : max m n ≠ 0 := by omega
  rw [if_neg first, if_neg second, if_neg both, Option.merge_some_some]
  exact congrArg some (by omega)

theorem merge_tally_one (n : Nat) :
    Option.merge (· + ·) (tally n) (some 1) = tally (n + 1) := by
  unfold tally
  by_cases fresh : n = 0 <;> simp [fresh]

section Counting

variable {ι : Type} {counted : Finset ι} {share : ρ → Finset ι} {counter : GCounter ρ}

theorem mem_keys
    (tallied : ∀ replicaId, slot counter.counts replicaId = tally (share replicaId).card)
    {replicaId : ρ} {i : ι} (member : i ∈ share replicaId) :
    replicaId ∈ (counter.counts.rows.map Prod.fst).toFinset := by
  have positive : (share replicaId).card ≠ 0 := Finset.card_ne_zero.mpr ⟨i, member⟩
  have present := tallied replicaId
  rw [tally, if_neg positive, slot, Option.map_eq_some_iff] at present
  obtain ⟨entry, found, _⟩ := present
  rw [List.mem_toFinset, List.mem_map]
  exact ⟨entry, Table.mem_of_get found, Table.key_of_get found⟩

/-- Slots that count each replica's share of a set add up to the size of the set. -/
theorem value_of_tallied [DecidableEq ι]
    (tallied : ∀ replicaId, slot counter.counts replicaId = tally (share replicaId).card)
    (shared : ∀ i, i ∈ counted ↔ ∃ replicaId, i ∈ share replicaId)
    (disjoint : ∀ r s, r ≠ s → Disjoint (share r) (share s)) :
    counter.value = counted.card := by
  have keys : (counter.counts.rows.map Prod.fst).Nodup := by
    rw [List.Nodup, List.pairwise_map]
    exact counter.counts.ordered.imp ne_of_lt
  have slots : counter.counts.rows.map Prod.snd =
      counter.counts.rows.map fun entry => ((share entry.1).card : Int) := by
    refine List.map_congr_left fun entry member => ?_
    have present := tallied entry.1
    rw [slot, Table.get_of_mem member, Option.map_some, tally] at present
    split at present
    · cases present
    · exact Option.some.inj present
  have whole : counted = (counter.counts.rows.map Prod.fst).toFinset.biUnion share := by
    ext i
    rw [shared, Finset.mem_biUnion]
    exact ⟨fun ⟨r, member⟩ => ⟨r, mem_keys tallied member, member⟩,
      fun ⟨r, _, member⟩ => ⟨r, member⟩⟩
  rw [whole, Finset.card_biUnion fun r _ s _ differ => disjoint r s differ, Nat.cast_sum,
    List.sum_toFinset _ keys, List.map_map]
  unfold value
  rw [slots]
  rfl

end Counting

end GCounter

structure PNCounter (ρ : Type) [LinearOrder ρ] where
  increments : GCounter ρ
  decrements : GCounter ρ

namespace PNCounter

def zero : PNCounter ρ where
  increments := .empty
  decrements := .empty

def increment (counter : PNCounter ρ) (replicaId : ρ) (delta : Int) :
    Except String (PNCounter ρ) := do
  let increments ← counter.increments.increment replicaId delta
  return { counter with increments }

def decrement (counter : PNCounter ρ) (replicaId : ρ) (delta : Int) :
    Except String (PNCounter ρ) := do
  let decrements ← counter.decrements.increment replicaId delta
  return { counter with decrements }

def merge (counter other : PNCounter ρ) : PNCounter ρ where
  increments := counter.increments.merge other.increments
  decrements := counter.decrements.merge other.decrements

def value (counter : PNCounter ρ) : Int :=
  counter.increments.value - counter.decrements.value

theorem merge_comm (a b : PNCounter ρ) : a.merge b = b.merge a := by
  simp [merge, GCounter.merge_comm]

theorem merge_assoc (a b c : PNCounter ρ) : (a.merge b).merge c = a.merge (b.merge c) := by
  simp [merge, GCounter.merge_assoc]

theorem merge_idem (a : PNCounter ρ) : a.merge a = a := by
  simp [merge, GCounter.merge_idem]

end PNCounter

structure LwwRegister (ρ τ : Type) where
  value : τ
  timestamp : HlcTimestamp ρ

namespace LwwRegister

variable {τ : Type}

def initial (value : τ) (timestamp : HlcTimestamp ρ) : LwwRegister ρ τ where
  value := value
  timestamp := timestamp

def set (_register : LwwRegister ρ τ) (value : τ) (timestamp : HlcTimestamp ρ) :
    LwwRegister ρ τ where
  value := value
  timestamp := timestamp

def merge (register other : LwwRegister ρ τ) : LwwRegister ρ τ :=
  if (register.timestamp.compareTo other.timestamp).isGE then register else other

theorem merge_eq (a b : LwwRegister ρ τ) :
    a.merge b = if b.timestamp ≤ a.timestamp then a else b := by
  have decided : (a.timestamp.compareTo b.timestamp).isGE ↔ b.timestamp ≤ a.timestamp := by
    rw [← not_lt, ← HlcTimestamp.compareTo_lt]
    cases a.timestamp.compareTo b.timestamp <;> simp
  unfold merge
  simp only [decided]

/-- Two registers that agree wherever their timestamps do: copies of one write. -/
theorem merge_comm {a b : LwwRegister ρ τ}
    (sameWrite : a.timestamp = b.timestamp → a = b) : a.merge b = b.merge a := by
  rw [merge_eq, merge_eq]
  rcases lt_trichotomy a.timestamp b.timestamp with less | same | more
  · rw [if_neg (not_le.mpr less), if_pos less.le]
  · rw [sameWrite same]
  · rw [if_pos more.le, if_neg (not_le.mpr more)]

theorem merge_assoc (a b c : LwwRegister ρ τ) :
    (a.merge b).merge c = a.merge (b.merge c) := by
  simp only [merge_eq]
  by_cases first : b.timestamp ≤ a.timestamp
  · by_cases second : c.timestamp ≤ b.timestamp
    · rw [if_pos first, if_pos second, if_pos first, if_pos (second.trans first)]
    · rw [if_pos first, if_neg second]
  · have less := not_le.mp first
    by_cases second : c.timestamp ≤ b.timestamp
    · rw [if_neg first, if_pos second, if_neg first]
    · have above := less.trans (not_le.mp second)
      rw [if_neg first, if_neg second, if_neg (not_le.mpr above)]

theorem merge_idem (a : LwwRegister ρ τ) : a.merge a = a := by
  simp [merge_eq]

end LwwRegister

inductive PresenceStatus where
  | available
  | coding
  | inMeeting
  | focusing
  | driving
  | away
  | busy
deriving DecidableEq

def PresenceStatus.value : PresenceStatus → List UInt16
  | available => Utf.ofString "available"
  | coding => Utf.ofString "coding"
  | inMeeting => Utf.ofString "in_meeting"
  | focusing => Utf.ofString "focusing"
  | driving => Utf.ofString "driving"
  | away => Utf.ofString "away"
  | busy => Utf.ofString "busy"

structure StatusNote where
  status : PresenceStatus
  note : String
deriving DecidableEq

structure ReplicatedPresence (υ ρ : Type) [LinearOrder ρ] where
  userId : υ
  sessions : PNCounter ρ
  status : LwwRegister ρ StatusNote

namespace ReplicatedPresence

variable {υ : Type}

def firstConnect (userId : υ) (replicaId : ρ) (timestamp : HlcTimestamp ρ)
    (initial : StatusNote) : Except String (ReplicatedPresence υ ρ) := do
  let sessions ← PNCounter.zero.increment replicaId 1
  return ⟨userId, sessions, .initial initial timestamp⟩

def connect (presence : ReplicatedPresence υ ρ) (replicaId : ρ) :
    Except String (ReplicatedPresence υ ρ) := do
  let sessions ← presence.sessions.increment replicaId 1
  return { presence with sessions }

def disconnect (presence : ReplicatedPresence υ ρ) (replicaId : ρ) :
    Except String (ReplicatedPresence υ ρ) := do
  let sessions ← presence.sessions.decrement replicaId 1
  return { presence with sessions }

def updateStatus (presence : ReplicatedPresence υ ρ) (value : StatusNote)
    (timestamp : HlcTimestamp ρ) : ReplicatedPresence υ ρ :=
  { presence with status := presence.status.set value timestamp }

def isOnline (presence : ReplicatedPresence υ ρ) : Bool :=
  presence.sessions.value > 0

def sessionCount (presence : ReplicatedPresence υ ρ) : Int :=
  presence.sessions.value

def statusNote (presence : ReplicatedPresence υ ρ) : StatusNote :=
  presence.status.value

def merge [DecidableEq υ] [ToString υ] (presence other : ReplicatedPresence υ ρ) :
    Except String (ReplicatedPresence υ ρ) :=
  if presence.userId ≠ other.userId then
    let mine := toString presence.userId
    let theirs := toString other.userId
    .error s!"Cannot merge presence for different users: {mine} vs {theirs}"
  else
    .ok ⟨presence.userId, presence.sessions.merge other.sessions,
      presence.status.merge other.status⟩

/-- `equals`: what can be observed, not the bookkeeping of the replicas. -/
def equals [DecidableEq υ] (presence other : ReplicatedPresence υ ρ) : Bool :=
  presence.userId = other.userId && presence.sessionCount = other.sessionCount &&
    presence.statusNote = other.statusNote

variable {presence other : ReplicatedPresence υ ρ}

theorem merge_of_same [DecidableEq υ] [ToString υ] (same : presence.userId = other.userId) :
    presence.merge other = .ok ⟨presence.userId, presence.sessions.merge other.sessions,
      presence.status.merge other.status⟩ := by
  simp [merge, same]

end ReplicatedPresence

end Presence
