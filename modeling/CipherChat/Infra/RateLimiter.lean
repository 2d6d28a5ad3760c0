import Mathlib.Algebra.Order.Floor.Ring
import Mathlib.Data.Rat.Floor
import Mathlib.Tactic.Linarith
import Mathlib.Tactic.Ring

/-!
`shared/infra/RedisRateLimiter.java`: the token bucket, and what the clocks of its callers
may do to the number of calls it permits.
-/

namespace RateLimiter

/-- The hash under the key, and the time to live it was given last. -/
structure Bucket where
  tokens : Rat
  ts : Int
  ttl : Int
  deriving DecidableEq

/-- `SCRIPT` -/
def script (bucket : Option Bucket) (capacity refillPerMs : Rat) (now ttl : Int) : Int × Bucket :=
  let tokens := match bucket with
    | none => capacity
    | some b => b.tokens
  let ts := match bucket with
    | none => now
    | some b => b.ts
  let elapsed := max 0 (now - ts)
  let tokens := min capacity (tokens + elapsed * refillPerMs)
  if 1 ≤ tokens then (1, { tokens := tokens - 1, ts := now, ttl })
  else (0, { tokens, ts := now, ttl })

inductive Redis
  | reachable (bucket : Option Bucket)
  | unreachable

def tryAcquire (redis : Redis) (capacity : Nat) (refillPerSecond : Rat) (currentTimeMillis : Int) :
    Bool × Redis :=
  let ttlMs := ⌈(capacity : Rat) / refillPerSecond * 1000⌉ * 2
  match redis with
  | .unreachable => (true, .unreachable)
  | .reachable bucket =>
      let (allowed, bucket) := script bucket capacity (refillPerSecond / 1000) currentTimeMillis
        (max ttlMs 1000)
      (allowed = 1, .reachable (some bucket))

/-- How many of the calls are permitted, and what they leave; each is given as its clock reading. -/
def permitted (capacity : Nat) (refillPerSecond : Rat) : Redis → List Int → Nat × Redis
  | redis, [] => (0, redis)
  | redis, now :: rest =>
      let (allowed, redis) := tryAcquire redis capacity refillPerSecond now
      let (count, redis) := permitted capacity refillPerSecond redis rest
      (allowed.toNat + count, redis)

/-- How far the readings move up, all in all. -/
def climb : List Int → Int
  | a :: b :: rest => max 0 (b - a) + climb (b :: rest)
  | _ => 0

/-- The largest reading less the smallest. -/
def spread : List Int → Int
  | [] => 0
  | a :: rest => rest.foldr max a - rest.foldr min a

/-- One or more calls at each reading. -/
def repeated (bursts : List (Int × Nat)) : List Int :=
  bursts.flatMap fun burst => List.replicate (burst.2 + 1) burst.1

/-- Calls with these readings, after any calls, keep to the bound, whatever the limits. -/
def Bounded (readings : List Int) : Prop :=
  ∀ (prior : List Int) (capacity : Nat) (refillPerSecond : Rat) (bursts : List (Int × Nat)),
    0 ≤ refillPerSecond → bursts.map Prod.fst = readings →
    ((permitted capacity refillPerSecond
        (permitted capacity refillPerSecond (.reachable none) prior).2 (repeated bursts)).1 : Rat) ≤
      capacity + refillPerSecond / 1000 * spread readings

section Script

variable (capacity refillPerMs : Rat) (now : Int) {ttl : Int}

/-- What the bucket holds before a call takes its token. -/
def refilled (bucket : Bucket) (capacity refillPerMs : Rat) (now : Int) : Rat :=
  min capacity (bucket.tokens + max 0 (now - bucket.ts) * refillPerMs)

/-- A call takes one token, or there is not one. -/
theorem script_some (bucket : Bucket) :
    (1 ≤ refilled bucket capacity refillPerMs now ∧ script (some bucket) capacity refillPerMs now ttl =
      (1, { tokens := refilled bucket capacity refillPerMs now - 1, ts := now, ttl })) ∨
    (refilled bucket capacity refillPerMs now < 1 ∧ script (some bucket) capacity refillPerMs now ttl =
      (0, { tokens := refilled bucket capacity refillPerMs now, ts := now, ttl })) := by
  by_cases enough : 1 ≤ refilled bucket capacity refillPerMs now
  · left
    refine ⟨enough, ?_⟩
    simp only [refilled] at enough ⊢
    simp only [script, enough, if_true]
  · right
    refine ⟨not_le.mp enough, ?_⟩
    simp only [refilled] at enough ⊢
    simp only [script, enough, if_false]

end Script

section Bound

variable (capacity : Nat) {refillPerSecond : Rat}

/-- What a call answers and leaves, by what the bucket holds once it is refilled. -/
theorem tryAcquire_eq (bucket : Bucket) (now : Int) :
    tryAcquire (.reachable (some bucket)) capacity refillPerSecond now =
      if 1 ≤ refilled bucket capacity (refillPerSecond / 1000) now then
        (true, .reachable (some {
          tokens := refilled bucket capacity (refillPerSecond / 1000) now - 1
          ts := now
          ttl := max (⌈(capacity : Rat) / refillPerSecond * 1000⌉ * 2) 1000 }))
      else
        (false, .reachable (some {
          tokens := refilled bucket capacity (refillPerSecond / 1000) now
          ts := now
          ttl := max (⌈(capacity : Rat) / refillPerSecond * 1000⌉ * 2) 1000 })) := by
  simp only [tryAcquire]
  rcases script_some (capacity : Rat) (refillPerSecond / 1000) now bucket with ⟨enough, same⟩ | ⟨short, same⟩
  · rw [same, if_pos enough]
    rfl
  · rw [same, if_neg (not_le.mpr short)]
    rfl

/-- The step of the bound: what a call is permitted and leaves, it had before or was refilled. -/
theorem tryAcquire_some (bucket : Bucket) (now : Int) (rate : 0 ≤ refillPerSecond)
    (filled : 0 ≤ bucket.tokens) :
    ∃ after : Bucket, (tryAcquire (.reachable (some bucket)) capacity refillPerSecond now).2 =
        .reachable (some after) ∧ after.ts = now ∧ 0 ≤ after.tokens ∧
      after.tokens + (tryAcquire (.reachable (some bucket)) capacity refillPerSecond now).1.toNat =
        refilled bucket capacity (refillPerSecond / 1000) now := by
  have room : 0 ≤ refilled bucket capacity (refillPerSecond / 1000) now := by
    refine le_min (Nat.cast_nonneg _) (add_nonneg filled (mul_nonneg ?_ ?_))
    · exact_mod_cast le_max_left 0 (now - bucket.ts)
    · exact div_nonneg rate (by norm_num)
  rw [tryAcquire_eq]
  by_cases enough : 1 ≤ refilled bucket capacity (refillPerSecond / 1000) now
  · rw [if_pos enough]
    exact ⟨_, rfl, rfl, sub_nonneg.mpr enough, by simp⟩
  · rw [if_neg enough]
    exact ⟨_, rfl, rfl, room, by simp⟩

theorem permitted_cons (redis : Redis) (now : Int) (rest : List Int) :
    (permitted capacity refillPerSecond redis (now :: rest)).1 =
      (tryAcquire redis capacity refillPerSecond now).1.toNat +
        (permitted capacity refillPerSecond (tryAcquire redis capacity refillPerSecond now).2 rest).1 := by
  rfl

theorem permitted_cons_snd (redis : Redis) (now : Int) (rest : List Int) :
    (permitted capacity refillPerSecond redis (now :: rest)).2 =
      (permitted capacity refillPerSecond (tryAcquire redis capacity refillPerSecond now).2 rest).2 := by
  rfl

/-- The tokens of a bucket and the upward moves of the clock pay for every call permitted. -/
theorem permitted_le (rate : 0 ≤ refillPerSecond) (readings : List Int) (bucket : Bucket)
    (filled : 0 ≤ bucket.tokens) :
    ((permitted capacity refillPerSecond (.reachable (some bucket)) readings).1 : Rat) ≤
      bucket.tokens + refillPerSecond / 1000 * climb (bucket.ts :: readings) := by
  induction readings generalizing bucket with
  | nil => simpa [permitted, climb] using filled
  | cons now rest ih =>
      obtain ⟨after, left, isNow, stays, paid⟩ := tryAcquire_some capacity bucket now rate filled
      have later := ih after stays
      have most : refilled bucket capacity (refillPerSecond / 1000) now ≤
          bucket.tokens + max 0 (now - bucket.ts) * (refillPerSecond / 1000) := min_le_right _ _
      rw [permitted_cons, left]
      rw [isNow] at later
      push_cast [climb]
      push_cast at most
      linarith

/-- From the second reading on, whatever the bucket held before. -/
theorem permitted_le_capacity (rate : 0 ≤ refillPerSecond) (bucket : Bucket) (filled : 0 ≤ bucket.tokens)
    (now : Int) (rest : List Int) :
    ((permitted capacity refillPerSecond (.reachable (some bucket)) (now :: rest)).1 : Rat) ≤
      capacity + refillPerSecond / 1000 * climb (now :: rest) := by
  obtain ⟨after, left, isNow, stays, paid⟩ := tryAcquire_some capacity bucket now rate filled
  have later := permitted_le capacity rate rest after stays
  have most : refilled bucket capacity (refillPerSecond / 1000) now ≤ capacity := min_le_left _ _
  rw [permitted_cons, left]
  rw [isNow] at later
  push_cast
  linarith

end Bound

section Clocks

theorem climb_cons_self (a : Int) (rest : List Int) : climb (a :: a :: rest) = climb (a :: rest) := by
  simp [climb]

theorem climb_replicate (a : Int) (n : Nat) (rest : List Int) :
    climb (List.replicate (n + 1) a ++ rest) = climb (a :: rest) := by
  induction n with
  | zero => rfl
  | succ n ih =>
      rw [List.replicate_succ, List.cons_append]
      rw [List.replicate_succ, List.cons_append] at ih ⊢
      rw [climb_cons_self]
      exact ih

/-- Calls at one reading move the clock no further. -/
theorem climb_repeated (bursts : List (Int × Nat)) :
    climb (repeated bursts) = climb (bursts.map Prod.fst) := by
  induction bursts with
  | nil => rfl
  | cons burst rest ih =>
      obtain ⟨a, n⟩ := burst
      have first : repeated ((a, n) :: rest) = List.replicate (n + 1) a ++ repeated rest := rfl
      rw [first, climb_replicate]
      cases rest with
      | nil => rfl
      | cons next rest =>
          obtain ⟨b, m⟩ := next
          have second : repeated ((b, m) :: rest) = b :: (List.replicate m b ++ repeated rest) := rfl
          rw [second] at ih ⊢
          simp only [List.map_cons] at ih ⊢
          simp only [climb]
          rw [ih]

theorem mem_spread {a x : Int} {rest : List Int} (member : x ∈ a :: rest) :
    rest.foldr min a ≤ x ∧ x ≤ rest.foldr max a := by
  induction rest with
  | nil =>
      obtain rfl := List.mem_singleton.mp member
      exact ⟨le_rfl, le_rfl⟩
  | cons b rest ih =>
      simp only [List.foldr_cons]
      rcases List.mem_cons.mp member with rfl | later
      · have bounds := ih List.mem_cons_self
        exact ⟨(min_le_right _ _).trans bounds.1, bounds.2.trans (le_max_right _ _)⟩
      · rcases List.mem_cons.mp later with rfl | inRest
        · exact ⟨min_le_left _ _, le_max_left _ _⟩
        · have bounds := ih (List.mem_cons_of_mem _ inRest)
          exact ⟨(min_le_right _ _).trans bounds.1, bounds.2.trans (le_max_right _ _)⟩

/-- No reading is further from another than the spread. -/
theorem sub_le_spread {readings : List Int} {x y : Int} (member : x ∈ readings)
    (member' : y ∈ readings) : y - x ≤ spread readings := by
  cases readings with
  | nil => cases member
  | cons a rest =>
      have low := (mem_spread member).1
      have high := (mem_spread member').2
      simp only [spread]
      omega

theorem foldr_max_swap (a b : Int) (rest : List Int) :
    max b (rest.foldr max a) = max a (rest.foldr max b) := by
  induction rest with
  | nil => exact max_comm b a
  | cons c rest ih =>
      simp only [List.foldr_cons]
      rw [max_left_comm, ih, max_left_comm]

theorem foldr_min_eq {a : Int} {rest : List Int} (least : ∀ c ∈ rest, a ≤ c) :
    rest.foldr min a = a := by
  induction rest with
  | nil => rfl
  | cons b rest ih =>
      simp only [List.foldr_cons]
      rw [ih fun c member => least c (List.mem_cons_of_mem _ member)]
      exact min_eq_right (least b List.mem_cons_self)

theorem climb_ordered {a : Int} {rest : List Int} (ordered : (a :: rest).Pairwise (· ≤ ·)) :
    a + climb (a :: rest) = rest.foldr max a := by
  induction rest generalizing a with
  | nil => simp [climb]
  | cons b rest ih =>
      obtain ⟨least, later⟩ := List.pairwise_cons.mp ordered
      have below : a ≤ b := least b List.mem_cons_self
      have reached : b + climb (b :: rest) = rest.foldr max b := ih later
      have above : b ≤ rest.foldr max b := (mem_spread List.mem_cons_self).2
      simp only [List.foldr_cons, climb]
      rw [foldr_max_swap]
      omega

/-- A clock that never goes back climbs by its spread. -/
theorem climb_of_ordered {readings : List Int} (ordered : readings.Pairwise (· ≤ ·)) :
    climb readings = spread readings := by
  cases readings with
  | nil => rfl
  | cons a rest =>
      have reached := climb_ordered ordered
      have least : rest.foldr min a = a := foldr_min_eq (List.pairwise_cons.mp ordered).1
      simp only [spread]
      omega

end Clocks

section Reached

variable (capacity : Nat) {refillPerSecond : Rat}

/-- What calls leave under the key is a bucket with no debt. -/
theorem permitted_reachable (rate : 0 ≤ refillPerSecond) (prior : List Int) (bucket : Bucket)
    (filled : 0 ≤ bucket.tokens) :
    ∃ after : Bucket, 0 ≤ after.tokens ∧
      (permitted capacity refillPerSecond (.reachable (some bucket)) prior).2 =
        .reachable (some after) := by
  induction prior generalizing bucket with
  | nil => exact ⟨bucket, filled, rfl⟩
  | cons now rest ih =>
      obtain ⟨after, left, _, stays, _⟩ := tryAcquire_some capacity bucket now rate filled
      rw [permitted_cons_snd, left]
      exact ih after stays

/-- A key with nothing under it is a full bucket. -/
theorem permitted_none (now : Int) (rest : List Int) :
    permitted capacity refillPerSecond (.reachable none) (now :: rest) =
      permitted capacity refillPerSecond
        (.reachable (some { tokens := capacity, ts := now, ttl := 0 })) (now :: rest) := by
  rfl

theorem bounded_of_climb {readings : List Int} (limited : climb readings ≤ spread readings) :
    Bounded readings := by
  intro prior capacity refillPerSecond bursts rate isReadings
  have climbed : climb (repeated bursts) ≤ spread readings := by
    rw [climb_repeated, isReadings]
    exact limited
  have paid : refillPerSecond / 1000 * climb (repeated bursts) ≤
      refillPerSecond / 1000 * spread readings := by
    refine mul_le_mul_of_nonneg_left ?_ (div_nonneg rate (by norm_num))
    exact_mod_cast climbed
  refine le_trans ?_ (add_le_add_right paid _)
  obtain ⟨redis, isAfter⟩ : ∃ redis,
      (permitted capacity refillPerSecond (.reachable none) prior).2 = redis := ⟨_, rfl⟩
  rw [isAfter]
  cases calls : repeated bursts with
  | nil => simp [permitted, climb]
  | cons now rest =>
      cases prior with
      | nil =>
          obtain rfl : Redis.reachable none = redis := isAfter
          rw [permitted_none]
          exact permitted_le_capacity capacity rate _ (Nat.cast_nonneg _) now rest
      | cons first earlier =>
          rw [permitted_none] at isAfter
          obtain ⟨bucket, filled, left⟩ := permitted_reachable capacity rate
            (first :: earlier) { tokens := capacity, ts := first, ttl := 0 } (Nat.cast_nonneg _)
          rw [left] at isAfter
          subst isAfter
          exact permitted_le_capacity capacity rate bucket filled now rest

end Reached

section Drained

variable (capacity : Nat)

/-- The bucket after a call of one of these runs: some tokens, at one reading. -/
def holding (capacity tokens : Nat) (now : Int) : Redis :=
  .reachable (some {
    tokens := tokens
    ts := now
    ttl := max (⌈(capacity : Rat) / 1000 * 1000⌉ * 2) 1000 })

/-- A call takes a token of those it finds and those that have come since. -/
theorem tryAcquire_holding (tokens : Nat) (before now : Int)
    (within : tokens + (max 0 (now - before)).toNat ≤ capacity) :
    tryAcquire (holding capacity tokens before) capacity 1000 now =
      if tokens + (max 0 (now - before)).toNat = 0 then (false, holding capacity 0 now)
      else (true, holding capacity (tokens + (max 0 (now - before)).toNat - 1) now) := by
  obtain ⟨gain, isGain⟩ : ∃ gain : Nat, max 0 (now - before) = gain :=
    ⟨_, (Int.toNat_of_nonneg (le_max_left _ _)).symm⟩
  rw [isGain, Int.toNat_natCast] at within ⊢
  have sum : ∀ ttl, refilled { tokens := (tokens : Rat), ts := before, ttl } capacity (1000 / 1000) now =
      (tokens + gain : Nat) := by
    intro ttl
    simp only [refilled, isGain]
    norm_num
    exact_mod_cast within
  rw [holding, tryAcquire_eq, sum]
  cases left : tokens + gain with
  | zero => simp [holding]
  | succ rest => simp [holding]

/-- Enough calls at one reading take every token there is. -/
theorem permitted_replicate (rest : List Int) (now : Int) (calls tokens : Nat) (enough : tokens ≤ calls)
    (within : tokens ≤ capacity) :
    (permitted capacity 1000 (holding capacity tokens now) (List.replicate calls now ++ rest)).1 =
      tokens + (permitted capacity 1000 (holding capacity 0 now) rest).1 := by
  induction calls generalizing tokens with
  | zero =>
      obtain rfl : tokens = 0 := Nat.le_zero.mp enough
      simp
  | succ calls ih =>
      have still : tokens + (max 0 (now - now)).toNat = tokens := by simp
      rw [List.replicate_succ, List.cons_append, permitted_cons, tryAcquire_holding _ _ _ _
        (by rw [still]; exact within), still]
      cases tokens with
      | zero => simpa using ih 0 (Nat.zero_le _) (Nat.zero_le _)
      | succ tokens =>
          have later := ih tokens (by omega) (by omega)
          simp only [Nat.add_eq_zero_iff, one_ne_zero, and_false, if_false, Nat.add_sub_cancel,
            Bool.toNat_true]
          omega

/-- The first of the calls at a later reading finds what has come since. -/
theorem permitted_burst (rest : List Int) (before now : Int) (calls : Nat)
    (enough : (max 0 (now - before)).toNat ≤ calls + 1)
    (within : (max 0 (now - before)).toNat ≤ capacity) :
    (permitted capacity 1000 (holding capacity 0 before)
        (List.replicate (calls + 1) now ++ rest)).1 =
      (max 0 (now - before)).toNat + (permitted capacity 1000 (holding capacity 0 now) rest).1 := by
  rw [List.replicate_succ, List.cons_append, permitted_cons, tryAcquire_holding _ _ _ _ (by omega),
    Nat.zero_add]
  cases gain : (max 0 (now - before)).toNat with
  | zero => simpa using permitted_replicate capacity rest now calls 0 (Nat.zero_le _) (Nat.zero_le _)
  | succ more =>
      have later := permitted_replicate capacity rest now calls more (by omega) (by omega)
      simp only [Nat.add_eq_zero_iff, one_ne_zero, and_false, if_false, Nat.add_sub_cancel,
        Bool.toNat_true]
      omega

/-- Bursts that drain the bucket are permitted every upward move of the clock. -/
theorem permitted_bursts (readings : List Int) (before : Int)
    (near : ∀ x ∈ before :: readings, ∀ y ∈ before :: readings, y - x ≤ capacity) :
    ((permitted capacity 1000 (holding capacity 0 before)
      (repeated (readings.map fun now => (now, capacity)))).1 : Int) = climb (before :: readings) := by
  induction readings generalizing before with
  | nil => rfl
  | cons now rest ih =>
      have step : now - before ≤ capacity := near before List.mem_cons_self now (by simp)
      have later := ih now fun x member y member' =>
        near x (List.mem_cons_of_mem _ member) y (List.mem_cons_of_mem _ member')
      have split : repeated ((now :: rest).map fun now => (now, capacity)) =
          List.replicate (capacity + 1) now ++ repeated (rest.map fun now => (now, capacity)) := rfl
      rw [split, permitted_burst _ _ _ _ _ (by omega) (by omega)]
      simp only [climb]
      omega

theorem climb_of_bounded {readings : List Int} (bounded : Bounded readings) :
    climb readings ≤ spread readings := by
  cases readings with
  | nil => exact le_rfl
  | cons a rest =>
      have wide : 0 ≤ spread (a :: rest) := by
        simpa using sub_le_spread (List.mem_cons_self : a ∈ a :: rest) List.mem_cons_self
      obtain ⟨capacity, isSpread⟩ : ∃ capacity : Nat, spread (a :: rest) = capacity :=
        ⟨_, (Int.toNat_of_nonneg wide).symm⟩
      have limited := bounded [] capacity 1000 ((a :: rest).map fun now => (now, capacity))
        (by norm_num) (by simp [Function.comp_def])
      have near : ∀ x ∈ a :: rest, ∀ y ∈ a :: rest, y - x ≤ capacity := fun x member y member' =>
        isSpread ▸ sub_le_spread member member'
      have split : repeated ((a :: rest).map fun now => (now, capacity)) =
          a :: (List.replicate capacity a ++ repeated (rest.map fun now => (now, capacity))) := rfl
      have full : permitted capacity 1000 (.reachable none)
          (a :: (List.replicate capacity a ++ repeated (rest.map fun now => (now, capacity)))) =
          permitted capacity 1000 (holding capacity capacity a)
          (List.replicate (capacity + 1) a ++ repeated (rest.map fun now => (now, capacity))) := rfl
      have drained := permitted_replicate capacity (repeated (rest.map fun now => (now, capacity))) a
        (capacity + 1) capacity (Nat.le_succ _) le_rfl
      have climbed := permitted_bursts capacity rest a near
      rw [split] at limited
      change ((permitted capacity 1000 (.reachable none) _).1 : Rat) ≤ _ at limited
      rw [full, drained, isSpread] at limited
      rw [isSpread]
      norm_num at limited
      omega

end Drained

/-- Two replicas one millisecond apart, called in turn. -/
theorem turns_exceed : ¬Bounded [0, 1, 0, 1] := by
  intro bounded
  have limited := bounded [] 1 1000 [(0, 0), (1, 0), (0, 0), (1, 0)] (by norm_num) rfl
  norm_num [permitted, tryAcquire, script, repeated, spread] at limited

/-- The bound holds for calls with these clock readings exactly when the readings move up no
further, all in all, than from the smallest of them to the largest. -/
theorem bounded_iff (readings : List Int) :
    Bounded readings ↔ climb readings ≤ spread readings :=
  ⟨climb_of_bounded, bounded_of_climb⟩

end RateLimiter
