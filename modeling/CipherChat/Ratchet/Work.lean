import CipherChat.Async.Metered
import CipherChat.Ratchet.Steps

/-!
What one frame makes `ratchetDecrypt` do: the chain steps it takes and the keys it stores.
The functions of `crypto/doubleRatchet.ts` once more, with a log and with fuel for the
loop, over every value of the type `number`.
-/

namespace RatchetWork

open Symbolic Number Primitives DoubleRatchet Metered

/-- A value of the type `number`.  A difference with a counter below `2 ^ 53` that decides
a comparison here is exact. -/
inductive WireNumber
  | nan
  | infinite (negative : Bool)
  | finite (x : JsNumber)
  deriving DecidableEq

namespace WireNumber

def text : WireNumber → String
  | .nan => "NaN"
  | .infinite true => "-Infinity"
  | .infinite false => "Infinity"
  | .finite x => Number.text x

def minus : WireNumber → Nat → WireNumber
  | .finite x, n => .finite (x - n)
  | x, _ => x

def below : WireNumber → WireNumber → Bool
  | .finite x, .finite y => x < y
  | .infinite true, .finite _ => true
  | .finite _, .infinite false => true
  | .infinite true, .infinite false => true
  | _, _ => false

end WireNumber

structure Frame where
  dh : Base64
  pn : WireNumber
  n : WireNumber
  ciphertext : Term

def Frame.of (message : RatchetMessage) : Frame where
  dh := message.header.dh
  pn := .finite message.header.pn
  n := .finite message.header.n
  ciphertext := message.ciphertext

inductive Event
  | derived
  | stored (key : SkippedKey)
  deriving DecidableEq

abbrev Counted := Metered JsError Event

def deriveStep (ck : Term) : Counted ChainStep := do
  record .derived
  return kdfChain ck

def headerBytes (frame : Frame) : Term :=
  let counters := "\",\"pn\":" ++ frame.pn.text ++ ",\"n\":" ++ frame.n.text ++ "\x7d"
  match frame.dh with
  | .raw s => .text ("\x7b\"dh\":\"" ++ s ++ counters)
  | .enc spelling t => .cat (.text "\x7b\"dh\":\"") (.cat t (.text (toString spelling ++ counters)))

def tryOpen (mk : Term) (frame : Frame) (associatedData : Term) : Except JsError (List UInt16) :=
  let { key, iv } := cipherParams mk
  match aesGcmDecrypt key iv frame.ciphertext (concatBytes [associatedData, headerBytes frame]) with
  | .ok plaintext => .ok (utf8Decode plaintext)
  | .error _ => .error (.ratchet .authFailed "Message failed authentication.")

/-- The loop in `skipUntil`; `fuel` is how often it may go round. -/
def skipLoop (now : Nat) : Nat → RatchetState → WireNumber → Term → Counted (RatchetState × Term)
  | fuel, state, until_, ck =>
      if WireNumber.below (.finite state.nr) until_ then
        match fuel with
        | 0 => exhausted
        | fuel + 1 => do
            let step ← deriveStep ck
            let key : SkippedKey :=
              { dh := state.dhr, n := state.nr, mk := toBase64 step.mk, «at» := now }
            record (.stored key)
            skipLoop now fuel { state with skipped := state.skipped ++ [key], nr := state.nr + 1 }
              until_ step.ck
      else pure (state, ck)

def skipUntil (fuel : Nat) (state : RatchetState) (until_ : WireNumber) (now : Nat) :
    Counted RatchetState :=
  match state.ckr with
  | none => pure state
  | some ckr =>
      if WireNumber.below (.finite MAX_SKIP) (until_.minus state.nr) then
        fail (.ratchet .tooManySkipped ("Refusing to skip " ++ (until_.minus state.nr).text ++
          " message keys (limit 1000)."))
      else do
        let (state, ck) ← skipLoop now fuel state until_ (← lift (fromBase64 ckr))
        return { state with
          ckr := some (toBase64 ck)
          skipped := state.skipped.drop (state.skipped.length - MAX_STORED_SKIPPED) }

/-- `dhRatchet` reads the key of a header only, and takes no chain step. -/
def followHeader (fuel : Nat) (state : RatchetState) (frame : Frame) (now fresh : Nat) :
    Counted RatchetState :=
  if some frame.dh ≠ state.dhr then do
    let closed ← skipUntil fuel state frame.pn now
    lift (dhRatchet closed { dh := frame.dh, pn := 0, n := 0 } fresh)
  else if frame.n.below (.finite state.nr) then
    fail (.ratchet .duplicateOrExpired "Message key already used or no longer held.")
  else pure state

def isSkipped (frame : Frame) (s : SkippedKey) : Bool :=
  s.dh = some frame.dh && frame.n = .finite s.n

def ratchetDecrypt (fuel : Nat) (state : RatchetState) (frame : Frame) (associatedData : Term)
    (now fresh : Nat) : Counted (List UInt16 × RatchetState) :=
  match state.skipped.find? (isSkipped frame) with
  | some held => do
      let plaintext ← lift (tryOpen (← lift (fromBase64 held.mk)) frame associatedData)
      return (plaintext, { state with skipped := state.skipped.eraseP (isSkipped frame) })
  | none => do
      let followed ← followHeader fuel state frame now fresh
      let work ← skipUntil fuel followed frame.n now
      let step ← deriveStep (← lift (fromBase64OrNull work.ckr))
      let plaintext ← lift (tryOpen step.mk frame associatedData)
      return (plaintext, { work with ckr := some (toBase64 step.ck), nr := work.nr + 1 })

def storedKeys (work : List Event) : List SkippedKey :=
  work.filterMap fun e =>
    match e with
    | .stored key => some key
    | .derived => none

def chainSteps (work : List Event) : Nat :=
  work.count .derived

/-- How many keys were stored for the chain of a ratchet key. -/
def storedFor (dh : Option Base64) (work : List Event) : Nat :=
  (storedKeys work).countP fun key => key.dh = dh

/-- The log of a loop that stores `keys`. -/
def loopWork (keys : List SkippedKey) : List Event :=
  keys.flatMap fun key => [.derived, .stored key]

@[simp] theorem storedKeys_loopWork (keys : List SkippedKey) : storedKeys (loopWork keys) = keys := by
  induction keys with
  | nil => simp [loopWork, storedKeys]
  | cons key keys ih =>
      simp only [storedKeys, loopWork, List.flatMap_cons, List.filterMap_append] at ih ⊢
      simp [ih]

@[simp] theorem storedKeys_append (first second : List Event) :
    storedKeys (first ++ second) = storedKeys first ++ storedKeys second := by
  simp [storedKeys]

@[simp] theorem chainSteps_loopWork (keys : List SkippedKey) :
    chainSteps (loopWork keys) = keys.length := by
  induction keys with
  | nil => simp [loopWork, chainSteps]
  | cons key keys ih =>
      simp only [chainSteps, loopWork, List.flatMap_cons, List.count_append] at ih ⊢
      simp [ih, Nat.add_comm]

@[simp] theorem chainSteps_append (first second : List Event) :
    chainSteps (first ++ second) = chainSteps first + chainSteps second := by
  simp [chainSteps]

theorem runs_deriveStep (ck : Term) : Runs (deriveStep ck) (.ok (kdfChain ck)) [.derived] :=
  (runs_record _).bind (runs_pure _)

theorem skipLoop_runs (now : Nat) {count fuel : Nat} (enough : count ≤ fuel) {state : RatchetState}
    {limit : WireNumber} (ck : Term)
    (rounds : ∀ m, WireNumber.below (.finite (state.nr + m : Nat)) limit ↔ m < count) :
    Runs (skipLoop now fuel state limit ck) (.ok (skipKeys now count state ck))
      (loopWork (walked state.dhr now ck state.nr count)) := by
  induction count generalizing fuel state ck with
  | zero =>
      have done : ¬WireNumber.below (.finite state.nr) limit := by simpa using rounds 0
      unfold skipLoop
      rw [if_neg done]
      exact runs_pure _
  | succ count ih =>
      obtain ⟨fuel, rfl⟩ : ∃ less, fuel = less + 1 := ⟨fuel - 1, by omega⟩
      have goes : WireNumber.below (.finite state.nr) limit := by simpa using rounds 0
      unfold skipLoop
      rw [if_pos goes, walked_succ]
      refine (runs_deriveStep ck).bind ((runs_record _).bind (ih (by omega) _ fun m => ?_))
      have later := rounds (m + 1)
      rw [show state.nr + (m + 1) = state.nr + 1 + m by omega] at later
      simpa using later

/-- What one `skipUntil` may do: store few keys, all for the chain of the state. -/
structure Skips (state : RatchetState) (result : Except JsError RatchetState)
    (keys : List SkippedKey) : Prop where
  short : keys.length ≤ MAX_SKIP
  chain : ∀ key ∈ keys, key.dh = state.dhr
  kept : ∀ next, result = .ok next →
    next.dhr = state.dhr ∧ next.skipped = keepNewest (state.skipped ++ keys)

theorem keepNewest_eq_self {keys : List SkippedKey} (few : keys.length ≤ MAX_STORED_SKIPPED) :
    keepNewest keys = keys := by
  simp [keepNewest, Nat.sub_eq_zero_of_le few]

theorem skips_error {state : RatchetState} (e : JsError) : Skips state (.error e) [] where
  short := Nat.zero_le _
  chain := by simp
  kept := by simp

theorem dh_of_mem_walked {dhr : Option Base64} {now first count : Nat} {ck : Term}
    {key : SkippedKey} (member : key ∈ walked dhr now ck first count) : key.dh = dhr := by
  obtain ⟨i, _, rfl⟩ := List.mem_map.mp member
  rfl

/-- The loop is reached, and goes round `count` times. -/
structure Admits (state : RatchetState) (limit : WireNumber) (count : Nat) : Prop where
  allowed : WireNumber.below (.finite MAX_SKIP) (limit.minus state.nr) = false
  rounds : ∀ m, WireNumber.below (.finite (state.nr + m : Nat)) limit ↔ m < count
  short : count ≤ MAX_SKIP

theorem Admits.finite {state : RatchetState} {limit : JsNumber}
    (allowed : limit - state.nr ≤ MAX_SKIP) :
    Admits state (.finite limit) (⌈limit⌉₊ - state.nr) where
  allowed := by simpa [WireNumber.below, WireNumber.minus] using allowed
  rounds m := by
    simp only [WireNumber.below, decide_eq_true_eq, ← Nat.lt_ceil]
    omega
  short := by
    have bound : limit ≤ (MAX_SKIP + state.nr : Nat) := by
      rw [Nat.cast_add]
      linarith
    have ceiling := Nat.ceil_le.mpr bound
    omega

theorem admits_idle {state : RatchetState} {limit : WireNumber}
    (low : ∀ x, WireNumber.below (.finite x) limit = false)
    (same : limit.minus state.nr = limit) : Admits state limit 0 where
  allowed := by rw [same, low]
  rounds m := by simp [low]
  short := Nat.zero_le _

/-- A limit is refused, or the loop goes round a number of times of its own. -/
theorem refused_or_admits (state : RatchetState) (limit : WireNumber) :
    WireNumber.below (.finite MAX_SKIP) (limit.minus state.nr) = true ∨
      ∃ count, Admits state limit count := by
  cases limit with
  | nan => exact .inr ⟨0, admits_idle (fun _ => rfl) rfl⟩
  | infinite negative =>
      cases negative with
      | true => exact .inr ⟨0, admits_idle (fun _ => rfl) rfl⟩
      | false => exact .inl rfl
  | finite x =>
      by_cases allowed : x - state.nr ≤ MAX_SKIP
      · exact .inr ⟨_, .finite allowed⟩
      · exact .inl (by simpa [WireNumber.below, WireNumber.minus] using not_le.mp allowed)

section

variable {fuel now : Nat} {state : RatchetState} {limit : WireNumber} {ckr : Base64}

theorem skipUntil_runs_none (noChain : state.ckr = none) :
    Runs (skipUntil fuel state limit now) (.ok state) [] := by
  simp only [skipUntil, noChain]
  exact runs_pure _

theorem skipUntil_runs_refused (chain : state.ckr = some ckr)
    (refused : WireNumber.below (.finite MAX_SKIP) (limit.minus state.nr) = true) :
    Runs (skipUntil fuel state limit now)
      (.error (.ratchet .tooManySkipped ("Refusing to skip " ++ (limit.minus state.nr).text ++
        " message keys (limit 1000)."))) [] := by
  simp only [skipUntil, chain, refused, if_true]
  exact runs_fail _

theorem skipUntil_runs_undecoded {count : Nat} {e : JsError} (chain : state.ckr = some ckr)
    (admits : Admits state limit count) (undecoded : fromBase64 ckr = .error e) :
    Runs (skipUntil fuel state limit now) (.error e) [] := by
  simp only [skipUntil, chain, admits.allowed, undecoded]
  exact (runs_lift _).fails

theorem skipUntil_runs_some {count : Nat} {ck : Term} (enough : MAX_SKIP ≤ fuel)
    (chain : state.ckr = some ckr) (admits : Admits state limit count)
    (decoded : fromBase64 ckr = .ok ck) :
    Runs (skipUntil fuel state limit now) (.ok { state with
        ckr := some (toBase64 (chainAfter ck count))
        nr := state.nr + count
        skipped := keepNewest (state.skipped ++ walked state.dhr now ck state.nr count) })
      (loopWork (walked state.dhr now ck state.nr count)) := by
  simp only [skipUntil, chain, admits.allowed, decoded]
  refine (runs_lift _).after ?_
  have looped := skipLoop_runs now (admits.short.trans enough) ck admits.rounds
  have ended := looped.bind (f := fun p => pure { p.1 with
    ckr := some (toBase64 p.2)
    skipped := p.1.skipped.drop (p.1.skipped.length - MAX_STORED_SKIPPED) }) (runs_pure _)
  simpa only [skipKeys_eq, List.append_nil, keepNewest] using ended

/-- `skipUntil` ends, with the same result and work for all fuel that `MAX_SKIP` covers. -/
theorem skipUntil_runs (few : state.skipped.length ≤ MAX_STORED_SKIPPED) (limit : WireNumber)
    (now : Nat) :
    ∃ result keys, Skips state result keys ∧ ∀ fuel, MAX_SKIP ≤ fuel →
      Runs (skipUntil fuel state limit now) result (loopWork keys) := by
  cases chain : state.ckr with
  | none =>
      refine ⟨.ok state, [], ⟨Nat.zero_le _, by simp, ?_⟩, fun fuel _ => skipUntil_runs_none chain⟩
      rintro _ ⟨⟩
      simp [keepNewest_eq_self few]
  | some ckr =>
      rcases refused_or_admits state limit with refused | ⟨count, admits⟩
      · exact ⟨_, [], skips_error _, fun fuel _ => skipUntil_runs_refused chain refused⟩
      · cases decoded : fromBase64 ckr with
        | error e =>
            exact ⟨_, [], skips_error _, fun fuel _ => skipUntil_runs_undecoded chain admits decoded⟩
        | ok ck =>
            refine ⟨_, _, ⟨?_, fun key => dh_of_mem_walked, ?_⟩, fun fuel enough =>
              skipUntil_runs_some enough chain admits decoded⟩
            · simpa [walked] using admits.short
            · rintro _ ⟨⟩
              simp

/-- On what JSON carries it is the `skipUntil` without a log. -/
theorem skipUntil_runs_finite (enough : MAX_SKIP ≤ fuel) (state : RatchetState) (limit : JsNumber)
    (now : Nat) :
    ∃ keys, Runs (skipUntil fuel state (.finite limit) now)
      (DoubleRatchet.skipUntil state limit now) (loopWork keys) := by
  cases chain : state.ckr with
  | none =>
      rw [skipUntil_none chain]
      exact ⟨[], skipUntil_runs_none chain⟩
  | some ckr =>
      by_cases allowed : limit - state.nr ≤ MAX_SKIP
      · cases decoded : fromBase64 ckr with
        | error e =>
            have failed : DoubleRatchet.skipUntil state limit now = .error e := by
              simp [DoubleRatchet.skipUntil, chain, decoded, not_lt.mpr allowed, bind, Except.bind]
            rw [failed]
            exact ⟨[], skipUntil_runs_undecoded chain (.finite allowed) decoded⟩
        | ok ck =>
            rw [skipUntil_some chain decoded allowed]
            exact ⟨_, skipUntil_runs_some enough chain (.finite allowed) decoded⟩
      · have failed : DoubleRatchet.skipUntil state limit now = .error (.ratchet .tooManySkipped
            ("Refusing to skip " ++ Number.text (limit - state.nr) ++
              " message keys (limit 1000).")) := by
          simp [DoubleRatchet.skipUntil, chain, not_le.mp allowed, bind, Except.bind, throw,
            throwThe, MonadExceptOf.throw]
        rw [failed]
        refine ⟨[], skipUntil_runs_refused chain ?_⟩
        simpa [WireNumber.below, WireNumber.minus] using not_le.mp allowed

end

theorem tryOpen_of (mk : Term) (message : RatchetMessage) (ad : Term) :
    tryOpen mk (Frame.of message) ad = DoubleRatchet.tryOpen mk message ad := by
  rfl

theorem isSkipped_of (message : RatchetMessage) :
    isSkipped (Frame.of message) = DoubleRatchet.isSkipped message.header := by
  funext s
  have swapped : (s.n : JsNumber) = message.header.n ↔ message.header.n = s.n := eq_comm
  simp only [isSkipped, DoubleRatchet.isSkipped, Frame.of, WireNumber.finite.injEq, swapped]
  congr!

theorem followHeader_runs_finite {fuel : Nat} (enough : MAX_SKIP ≤ fuel) (state : RatchetState)
    (message : RatchetMessage) (now fresh : Nat) :
    ∃ work, Runs (followHeader fuel state (Frame.of message) now fresh)
      (DoubleRatchet.followHeader state message.header now fresh) work := by
  unfold followHeader DoubleRatchet.followHeader
  by_cases turn : some message.header.dh ≠ state.dhr
  · rw [if_pos turn, if_pos (show some (Frame.of message).dh ≠ state.dhr from turn)]
    obtain ⟨keys, skips⟩ := skipUntil_runs_finite enough state message.header.pn now
    exact skips.bind_of fun closed => ⟨[], runs_lift _⟩
  · rw [if_neg turn, if_neg (show ¬some (Frame.of message).dh ≠ state.dhr from turn)]
    by_cases late : message.header.n < state.nr
    · simp only [Frame.of, WireNumber.below, late, decide_true, if_true]
      exact ⟨[], runs_fail _⟩
    · simp only [Frame.of, WireNumber.below, late, decide_false, if_false]
      exact ⟨[], runs_pure _⟩

/-- For a frame that JSON carries, this is the `ratchetDecrypt` without a log. -/
theorem ratchetDecrypt_runs_finite {fuel : Nat} (enough : MAX_SKIP ≤ fuel) (state : RatchetState)
    (message : RatchetMessage) (ad : Term) (now fresh : Nat) :
    ∃ work, Runs (ratchetDecrypt fuel state (Frame.of message) ad now fresh)
      (DoubleRatchet.ratchetDecrypt state message ad now fresh) work := by
  unfold ratchetDecrypt DoubleRatchet.ratchetDecrypt
  rw [isSkipped_of]
  dsimp only
  cases state.skipped.find? (DoubleRatchet.isSkipped message.header) with
  | some held =>
      refine (runs_lift _).bind_of fun mk => ?_
      rw [tryOpen_of]
      exact (runs_lift _).bind_of fun plaintext => ⟨[], runs_pure _⟩
  | none =>
      obtain ⟨work, follows⟩ := followHeader_runs_finite enough state message now fresh
      refine follows.bind_of fun followed => ?_
      obtain ⟨keys, skips⟩ := skipUntil_runs_finite enough followed message.header.n now
      refine skips.bind_of fun reached => ?_
      refine (runs_lift _).bind_of fun ck => ?_
      obtain ⟨later, opens⟩ : ∃ later, Runs
          (lift (tryOpen (kdfChain ck).mk (Frame.of message) ad) >>= fun plaintext =>
            (pure (plaintext, { reached with
              ckr := some (toBase64 (kdfChain ck).ck), nr := reached.nr + 1 }) : Counted _))
          (DoubleRatchet.tryOpen (kdfChain ck).mk message ad >>= fun plaintext =>
            .ok (plaintext, { reached with
              ckr := some (toBase64 (kdfChain ck).ck), nr := reached.nr + 1 })) later := by
        rw [tryOpen_of]
        exact (runs_lift _).bind_of fun plaintext => ⟨[], runs_pure _⟩
      exact ⟨_, (runs_deriveStep ck).bind opens⟩

/-- What happens to the store when a frame is opened: the stored key that opens it is used
up, or the keys of the frame go behind the others and the first ones make room. -/
def Rotates (state next : RatchetState) (pushed : List SkippedKey) : Prop :=
  (pushed = [] ∧ ∃ first held last, state.skipped = first ++ held :: last ∧
      next.skipped = first ++ last) ∨
    ∃ dropped, state.skipped ++ pushed = dropped ++ next.skipped ∧
      (dropped ≠ [] → next.skipped.length = MAX_STORED_SKIPPED)

/-- Decryption ends whatever the fuel past `MAX_SKIP`, with work and storage bounded. -/
def Bounded (state : RatchetState) (frame : Frame) (ad : Term) (now fresh : Nat) : Prop :=
  ∃ result work,
    (∀ fuel, MAX_SKIP ≤ fuel → Runs (ratchetDecrypt fuel state frame ad now fresh) result work) ∧
    (∀ dh, storedFor dh work ≤ MAX_SKIP) ∧
    chainSteps work ≤ 2 * MAX_SKIP + 1 ∧
    ∀ text next, result = .ok (text, next) →
      next.skipped.length ≤ MAX_STORED_SKIPPED ∧ Rotates state next (storedKeys work)

theorem length_keepNewest (keys : List SkippedKey) :
    (keepNewest keys).length = min keys.length MAX_STORED_SKIPPED := by
  simp only [keepNewest, List.length_drop]
  omega

/-- Dropping to the last `cap` twice is dropping to the last `cap` once. -/
theorem drop_drop_append {α : Type} (xs ys : List α) (cap : Nat) :
    (xs.drop (xs.length - cap) ++ ys).drop ((xs.drop (xs.length - cap) ++ ys).length - cap) =
      (xs ++ ys).drop ((xs ++ ys).length - cap) := by
  have cut : xs.drop (xs.length - cap) ++ ys = (xs ++ ys).drop (xs.length - cap) := by
    rw [List.drop_append_of_le_length (Nat.sub_le _ _)]
  rw [cut, List.drop_drop]
  congr 1
  simp only [List.length_drop, List.length_append]
  omega

theorem keepNewest_append (keys more : List SkippedKey) :
    keepNewest (keepNewest keys ++ more) = keepNewest (keys ++ more) :=
  drop_drop_append keys more MAX_STORED_SKIPPED

theorem keepNewest_split (keys : List SkippedKey) :
    ∃ dropped, keys = dropped ++ keepNewest keys ∧
      (dropped ≠ [] → (keepNewest keys).length = MAX_STORED_SKIPPED) := by
  refine ⟨keys.take (keys.length - MAX_STORED_SKIPPED), ?_, ?_⟩
  · rw [keepNewest, List.take_append_drop]
  intro some
  have long : keys.length - MAX_STORED_SKIPPED ≠ 0 := by
    intro none
    simp [none] at some
  rw [length_keepNewest]
  omega

/-- The chain a frame belongs to: the keys stored before a turn belong to the chain left. -/
structure Follows (state : RatchetState) (result : Except JsError RatchetState)
    (keys : List SkippedKey) : Prop where
  short : keys.length ≤ MAX_SKIP
  chain : ∀ key ∈ keys, key.dh = state.dhr
  turned : ∀ next, result = .ok next →
    (keys ≠ [] → next.dhr ≠ state.dhr) ∧ next.skipped = keepNewest (state.skipped ++ keys)

section

variable {state : RatchetState} (few : state.skipped.length ≤ MAX_STORED_SKIPPED)
include few

theorem follows_same : Follows state (.ok state) [] where
  short := Nat.zero_le _
  chain := by simp
  turned := by
    rintro _ ⟨⟩
    simp [keepNewest_eq_self few]

theorem followHeader_runs (frame : Frame) (now fresh : Nat) :
    ∃ result keys, Follows state result keys ∧ ∀ fuel, MAX_SKIP ≤ fuel →
      Runs (followHeader fuel state frame now fresh) result (loopWork keys) := by
  unfold followHeader
  by_cases turn : some frame.dh ≠ state.dhr
  · simp only [if_pos turn]
    obtain ⟨result, keys, skips, runs⟩ := skipUntil_runs few frame.pn now
    cases result with
    | error e =>
        exact ⟨.error e, keys, ⟨skips.short, skips.chain, by simp⟩,
          fun fuel enough => (runs fuel enough).fails⟩
    | ok closed =>
        refine ⟨dhRatchet closed { dh := frame.dh, pn := 0, n := 0 } fresh, keys,
          ⟨skips.short, skips.chain, fun next turned => ?_⟩, fun fuel enough => ?_⟩
        · obtain ⟨_, _, _, _, _, _, _, _, _, _, rfl⟩ := dhRatchet_ok turned
          exact ⟨fun _ => turn, (skips.kept closed rfl).2⟩
        · rw [← List.append_nil (loopWork keys)]
          exact (runs fuel enough).bind (runs_lift _)
  · simp only [if_neg turn]
    split
    · exact ⟨_, [], ⟨Nat.zero_le _, by simp, by simp⟩, fun _ _ => runs_fail _⟩
    · exact ⟨_, [], follows_same few, fun _ _ => runs_pure _⟩

end

theorem storedFor_two {first second : List SkippedKey} {dhr : Option Base64}
    (shortFirst : first.length ≤ MAX_SKIP) (shortSecond : second.length ≤ MAX_SKIP)
    (ofFirst : ∀ key ∈ first, key.dh = dhr)
    (ofSecond : first ≠ [] → ∀ key ∈ second, key.dh ≠ dhr) (dh : Option Base64) :
    (first ++ second).countP (fun key => key.dh = dh) ≤ MAX_SKIP := by
  by_cases none : first = []
  · subst none
    exact List.countP_le_length.trans shortSecond
  rw [List.countP_append]
  by_cases left : dh = dhr
  · have empty : second.countP (fun key => key.dh = dh) = 0 := by
      simpa [List.countP_eq_zero, left] using ofSecond none
    have bound := List.countP_le_length (p := fun key : SkippedKey => decide (key.dh = dh)) (l := first)
    omega
  · have empty : first.countP (fun key => key.dh = dh) = 0 := by
      simp only [List.countP_eq_zero, decide_eq_true_eq]
      intro key member named
      exact left (named ▸ ofFirst key member)
    have bound := List.countP_le_length (p := fun key : SkippedKey => decide (key.dh = dh)) (l := second)
    omega

/-- The work of a frame: two loops, the second for a chain other than the first, and a step. -/
theorem bounded_of_runs {state : RatchetState} {frame : Frame} {ad : Term} {now fresh : Nat}
    {result : Except JsError (List UInt16 × RatchetState)} {first second : List SkippedKey}
    {own : List Event} (alone : own = [] ∨ own = [.derived])
    (runs : ∀ fuel, MAX_SKIP ≤ fuel → Runs (ratchetDecrypt fuel state frame ad now fresh) result
      (loopWork first ++ (loopWork second ++ own)))
    (shortFirst : first.length ≤ MAX_SKIP) (shortSecond : second.length ≤ MAX_SKIP)
    (ofFirst : ∀ key ∈ first, key.dh = state.dhr)
    (ofSecond : first ≠ [] → ∀ key ∈ second, key.dh ≠ state.dhr)
    (opened : ∀ text next, result = .ok (text, next) →
      next.skipped.length ≤ MAX_STORED_SKIPPED ∧ Rotates state next (first ++ second)) :
    Bounded state frame ad now fresh := by
  have none : storedKeys own = [] := by
    rcases alone with rfl | rfl <;> simp [storedKeys]
  have keys : storedKeys (loopWork first ++ (loopWork second ++ own)) = first ++ second := by
    simp [none]
  have steps : chainSteps own ≤ 1 := by
    rcases alone with rfl | rfl <;> simp [chainSteps]
  refine ⟨result, _, runs, fun dh => ?_, ?_, ?_⟩
  · rw [storedFor, keys]
    exact storedFor_two shortFirst shortSecond ofFirst ofSecond dh
  · simp only [chainSteps_append, chainSteps_loopWork]
    omega
  · rw [keys]
    exact opened

theorem rotates_held {state : RatchetState} {frame : Frame} {held : SkippedKey}
    (search : state.skipped.find? (isSkipped frame) = some held) :
    Rotates state { state with skipped := state.skipped.eraseP (isSkipped frame) } [] := by
  have named : isSkipped frame held := List.find?_some search
  obtain ⟨key, first, last, _, _, whole, rest⟩ :=
    List.exists_of_eraseP (List.mem_of_find?_eq_some search) named
  exact .inl ⟨rfl, first, key, last, whole, rest⟩

theorem rotates_newest {state next : RatchetState} {pushed : List SkippedKey}
    (stored : next.skipped = keepNewest (state.skipped ++ pushed)) :
    next.skipped.length ≤ MAX_STORED_SKIPPED ∧ Rotates state next pushed := by
  constructor
  · rw [stored, length_keepNewest]
    omega
  · obtain ⟨dropped, whole, full⟩ := keepNewest_split (state.skipped ++ pushed)
    rw [← stored] at whole full
    exact .inr ⟨dropped, whole, full⟩

section

variable {state : RatchetState} (few : state.skipped.length ≤ MAX_STORED_SKIPPED)
include few

theorem bounded_held {frame : Frame} {held : SkippedKey}
    (search : state.skipped.find? (isSkipped frame) = some held) (ad : Term) (now fresh : Nat) :
    Bounded state frame ad now fresh := by
  let result : Except JsError (List UInt16 × RatchetState) := fromBase64 held.mk >>= fun mk =>
    tryOpen mk frame ad >>= fun plaintext =>
      .ok (plaintext, { state with skipped := state.skipped.eraseP (isSkipped frame) })
  have runs : ∀ fuel, MAX_SKIP ≤ fuel → Runs (ratchetDecrypt fuel state frame ad now fresh) result
      (loopWork [] ++ (loopWork [] ++ [])) := by
    intro fuel _
    simp only [ratchetDecrypt, search]
    exact .lift_bind fun mk _ => .lift_bind fun plaintext _ => runs_pure _
  refine bounded_of_runs (.inl rfl) runs (Nat.zero_le _) (Nat.zero_le _) (by simp) (by simp) ?_
  intro text next opened
  simp only [result, bind_eq_ok, Except.ok.injEq, Prod.mk.injEq] at opened
  obtain ⟨_, _, _, _, _, rfl⟩ := opened
  refine ⟨?_, rotates_held search⟩
  exact (List.eraseP_sublist.length_le).trans few

/-- A frame no stored key opens, once its chain has been followed. -/
theorem bounded_fresh {frame : Frame} (search : state.skipped.find? (isSkipped frame) = none)
    (ad : Term) (now fresh : Nat) : Bounded state frame ad now fresh := by
  obtain ⟨follow, first, follows, followed⟩ := followHeader_runs few frame now fresh
  have unfolded : ∀ fuel, ratchetDecrypt fuel state frame ad now fresh = do
      let followed ← followHeader fuel state frame now fresh
      let work ← skipUntil fuel followed frame.n now
      let step ← deriveStep (← lift (fromBase64OrNull work.ckr))
      let plaintext ← lift (tryOpen step.mk frame ad)
      return (plaintext, { work with ckr := some (toBase64 step.ck), nr := work.nr + 1 }) := by
    intro fuel
    simp only [ratchetDecrypt, search]
  cases follow with
  | error e =>
      have runs : ∀ fuel, MAX_SKIP ≤ fuel → Runs (ratchetDecrypt fuel state frame ad now fresh)
          (.error e) (loopWork first ++ (loopWork [] ++ [])) := by
        intro fuel enough
        rw [unfolded]
        simpa [loopWork] using (followed fuel enough).fails
      exact bounded_of_runs (.inl rfl) runs follows.short (Nat.zero_le _) follows.chain
        (by simp) (by simp)
  | ok state' =>
      obtain ⟨turned, kept⟩ := follows.turned state' rfl
      have few' : state'.skipped.length ≤ MAX_STORED_SKIPPED := by
        rw [kept, length_keepNewest]
        omega
      obtain ⟨skip, second, skips, skipped⟩ := skipUntil_runs few' frame.n now
      have other : first ≠ [] → ∀ key ∈ second, key.dh ≠ state.dhr := by
        intro some key member
        rw [skips.chain key member]
        exact turned some
      cases skip with
      | error e =>
          have runs : ∀ fuel, MAX_SKIP ≤ fuel →
              Runs (ratchetDecrypt fuel state frame ad now fresh) (.error e)
                (loopWork first ++ (loopWork second ++ [])) := by
            intro fuel enough
            rw [unfolded, List.append_nil]
            exact (followed fuel enough).bind (skipped fuel enough).fails
          exact bounded_of_runs (.inl rfl) runs follows.short skips.short follows.chain other
            (by simp)
      | ok reached =>
          obtain ⟨_, stored⟩ := skips.kept reached rfl
          rw [kept, keepNewest_append, List.append_assoc] at stored
          cases decoded : fromBase64OrNull reached.ckr with
          | error e =>
              have runs : ∀ fuel, MAX_SKIP ≤ fuel →
                  Runs (ratchetDecrypt fuel state frame ad now fresh) (.error e)
                    (loopWork first ++ (loopWork second ++ [])) := by
                intro fuel enough
                rw [unfolded]
                refine (followed fuel enough).bind ((skipped fuel enough).bind ?_)
                rw [decoded]
                exact (runs_lift _).fails
              exact bounded_of_runs (.inl rfl) runs follows.short skips.short follows.chain other
                (by simp)
          | ok ck =>
              have runs : ∀ fuel, MAX_SKIP ≤ fuel →
                  Runs (ratchetDecrypt fuel state frame ad now fresh)
                    (tryOpen (kdfChain ck).mk frame ad >>= fun plaintext =>
                      .ok (plaintext, { reached with
                        ckr := some (toBase64 (kdfChain ck).ck), nr := reached.nr + 1 }))
                    (loopWork first ++ (loopWork second ++ [.derived])) := by
                intro fuel enough
                rw [unfolded]
                refine (followed fuel enough).bind ((skipped fuel enough).bind ?_)
                rw [decoded]
                refine (runs_lift _).after ?_
                exact (runs_deriveStep ck).bind (.lift_bind fun plaintext _ => runs_pure _)
              refine bounded_of_runs (.inr rfl) runs follows.short skips.short follows.chain other
                fun text next opened => ?_
              simp only [bind_eq_ok, Except.ok.injEq, Prod.mk.injEq] at opened
              obtain ⟨_, _, rfl, rfl⟩ := opened
              exact rotates_newest stored

theorem bounded (frame : Frame) (ad : Term) (now fresh : Nat) :
    Bounded state frame ad now fresh := by
  cases search : state.skipped.find? (isSkipped frame) with
  | some held => exact bounded_held few search ad now fresh
  | none => exact bounded_fresh few search ad now fresh

end

/-- The states of one party, and all keys it stored on the way there, in order.  A frame
that fails leaves the state as it was. -/
inductive Reached : RatchetState → List SkippedKey → Prop
  | initiator {sharedSecret ratchetPub dhs state} :
      initInitiator sharedSecret ratchetPub dhs = .ok state → Reached state []
  | responder {sharedSecret ratchetPriv ratchetPub} :
      Reached (initResponder sharedSecret ratchetPriv ratchetPub) []
  | encrypt {state past next text ad message} : Reached state past →
      ratchetEncrypt state text ad = .ok (message, next) → Reached next past
  | expire {state past maxAgeMs now} : Reached state past →
      Reached (expireSkipped state maxAgeMs now).1 past
  | decrypt {state past next frame ad now fresh text work fuel} : Reached state past →
      MAX_SKIP ≤ fuel →
      Runs (ratchetDecrypt fuel state frame ad now fresh) (.ok (text, next)) work →
      Reached next (past ++ storedKeys work)

/-- What a party stores are the latest of the keys it stored, in the order they came. -/
structure Held (state : RatchetState) (past : List SkippedKey) : Prop where
  few : state.skipped.length ≤ MAX_STORED_SKIPPED
  order : state.skipped.Sublist past

theorem Rotates.sublist {state next : RatchetState} {pushed past : List SkippedKey}
    (rotates : Rotates state next pushed) (order : state.skipped.Sublist past) :
    next.skipped.Sublist (past ++ pushed) := by
  rcases rotates with ⟨rfl, first, held, last, whole, rest⟩ | ⟨dropped, whole, _⟩
  · rw [List.append_nil, rest]
    refine List.Sublist.trans ?_ order
    rw [whole]
    exact (List.sublist_cons_self held last).append_left first
  · have later : next.skipped.Sublist (state.skipped ++ pushed) := by
      rw [whole]
      exact List.sublist_append_right _ _
    exact later.trans (order.append_right pushed)

theorem Reached.held {state : RatchetState} {past : List SkippedKey}
    (reached : Reached state past) : Held state past := by
  induction reached with
  | initiator started =>
      obtain ⟨_, _, rfl⟩ := initInitiator_ok started
      exact ⟨Nat.zero_le _, List.Sublist.refl _⟩
  | responder => exact ⟨Nat.zero_le _, List.Sublist.refl _⟩
  | encrypt _ sent ih =>
      obtain ⟨_, _, _, _, _, _, rfl⟩ := ratchetEncrypt_ok sent
      exact ⟨ih.few, ih.order⟩
  | @expire state past maxAgeMs now _ ih =>
      have fewer : (expireSkipped state maxAgeMs now).1.skipped.Sublist state.skipped :=
        List.filter_sublist
      exact ⟨fewer.length_le.trans ih.few, fewer.trans ih.order⟩
  | decrypt _ enough runs ih =>
      obtain ⟨result, work, same, _, _, opened⟩ := bounded ih.few _ _ _ _
      obtain ⟨rfl, rfl⟩ := (same _ enough).unique runs
      obtain ⟨few, rotates⟩ := opened _ _ rfl
      exact ⟨few, rotates.sublist ih.order⟩

theorem ratchet_work_bounded (state : RatchetState) (past : List SkippedKey)
    (reached : Reached state past) :
    Held state past ∧ ∀ frame ad now fresh, Bounded state frame ad now fresh :=
  ⟨reached.held, bounded reached.held.few⟩

theorem ratchet_work_bounded_responder :
    Held (initResponder (.secret 0) (.secret 1) (.pub 1)) [] ∧
      ∀ frame ad now fresh,
        Bounded (initResponder (.secret 0) (.secret 1) (.pub 1)) frame ad now fresh :=
  ratchet_work_bounded _ _ .responder

end RatchetWork
