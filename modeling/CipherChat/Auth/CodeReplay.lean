import CipherChat.Auth.Totp
import CipherChat.Auth.TwoFactor

/-!
TOTP codes that are presented again.  The service of `Auth/TwoFactor.lean` is run with a clock, and
`totp` answers what `Totp.verify` says at the time.
-/

namespace TwoFactorAuth

open Async ReadCommitted
open Rooms (UUID JavaString Instant JavaError)

structure Timed where
  server : Server
  now : Instant

def Call.userId : Call → UUID
  | login userId _ | disable userId _ | setup userId | enable userId _ => userId

section Codes

-- `SecretBox.open`
variable (locale : Totp.Locale) (opened : JavaString → JavaString)

/-- What `totp` answers, unless it fails. -/
def honest (now : Instant) : (op : Op) → op.Res → Bool
  | .totp secretSealed code, .ok matched =>
      match Totp.verify locale (opened secretSealed) code now with
      | .ok answer => answer = matched
      | .error _ => false
  | _, _ => true

def timed : Service Op Op.Res Timed Call (Except JavaError Unit) where
  program call := call.program.run
  exec t s op result s' :=
    Exec t s.server op result s'.server ∧ honest locale opened s.now op result = true ∧ s.now ≤ s'.now

abbrev TimedEvent := Entry Op Op.Res Timed Call

abbrev TimedHistory := Journal Op Op.Res Timed Call

/-- A request of the user presents a code of the step, while the step is accepted. -/
def Presents (e : TimedEvent) (userId : UUID) (step : Int) : Prop :=
  e.call.userId = userId ∧ step ∈ Totp.window e.before.now ∧
    ∃ secretSealed code, e.op = .totp secretSealed code ∧
      Totp.code locale (opened secretSealed) step = .ok code

/-- The code was accepted. -/
def Matched (e : TimedEvent) : Prop :=
  ∃ secretSealed code, e.logged = ⟨.totp secretSealed code, .ok true⟩

def Accepts (e : TimedEvent) (userId : UUID) (step : Int) : Prop :=
  Presents locale opened e userId step ∧ Matched e

/-- A code that is accepted is one of a step, and of a step and a user one code at most is
accepted. -/
structure Once (j : TimedHistory) : Prop where
  steps : ∀ e ∈ j.past, Matched e → ∃ step, Accepts locale opened e e.call.userId step
  apart : j.past.Pairwise fun later earlier => ∀ userId step,
    Accepts locale opened earlier userId step → ¬Accepts locale opened later userId step

/-- Every run from `s` accepts a step once. -/
def OncePerStep (s : Timed) : Prop :=
  ∀ j, (timed locale opened).Reaches (fun _ _ => True) (fun _ _ => True) s j → Once locale opened j

/-- A request presents a code, and no fault comes between. -/
def Checks (e : TimedEvent) (userId : UUID) (step : Int) : Prop :=
  Presents locale opened e userId step ∧
    ∃ secretSealed code matched, e.logged = ⟨.totp secretSealed code, .ok matched⟩

/-- Nobody presents a code of a step again. -/
def Unrepeated (j : TimedHistory) : Prop :=
  j.past.Pairwise fun later earlier => ∀ userId step,
    Checks locale opened earlier userId step → ¬Checks locale opened later userId step

end Codes

section Runs

variable {locale : Totp.Locale} {opened : JavaString → JavaString}

/-- What is accepted is a code of a step around the time. -/
theorem accepts_of_matched {e : TimedEvent}
    (honest : honest locale opened e.before.now e.op e.result = true) (matched : Matched e) :
    ∃ step, Accepts locale opened e e.call.userId step := by
  obtain ⟨secretSealed, code, logged⟩ := id matched
  obtain ⟨t, call, op, result, before, after⟩ := e
  obtain ⟨rfl, same⟩ := Sigma.mk.inj logged
  obtain rfl := eq_of_heq same
  simp only [TwoFactorAuth.honest] at honest
  cases answer : Totp.verify locale (opened secretSealed) code before.now with
  | error failure => simp [answer] at honest
  | ok verified =>
      have isTrue : verified = true := by simpa [answer] using honest
      rw [isTrue] at answer
      obtain ⟨step, inside, isCode⟩ := Totp.verify_ok answer
      exact ⟨step, ⟨rfl, inside, secretSealed, code, rfl, isCode⟩, matched⟩

/-- Every code that is presented is accepted, whether one of its step was before or not. -/
theorem accepts_of_checks {e : TimedEvent} {userId : UUID} {step : Int}
    (honest : honest locale opened e.before.now e.op e.result = true)
    (checks : Checks locale opened e userId step) : Accepts locale opened e userId step := by
  obtain ⟨presents, secretSealed, code, matched, logged⟩ := checks
  refine ⟨presents, secretSealed, code, ?_⟩
  obtain ⟨_, inside, secretSealed', code', isOp, isCode⟩ := presents
  obtain ⟨t, call, op, result, before, after⟩ := e
  obtain ⟨rfl, same⟩ := Sigma.mk.inj logged
  obtain rfl := eq_of_heq same
  obtain ⟨rfl, rfl⟩ := Op.totp.inj isOp
  have verified := Totp.verify_of_code inside isCode
  have answered : true = matched := by simpa [TwoFactorAuth.honest, verified] using honest
  rw [← answered]
  rfl

theorem accepts_iff {e : TimedEvent} {userId : UUID} {step : Int}
    (honest : honest locale opened e.before.now e.op e.result = true) :
    Accepts locale opened e userId step ↔ Checks locale opened e userId step := by
  constructor
  · rintro ⟨presents, secretSealed, code, logged⟩
    exact ⟨presents, secretSealed, code, true, logged⟩
  · exact accepts_of_checks honest

variable {s : Timed} {j : TimedHistory}

theorem honest_of_past (reaches : (timed locale opened).Reaches (fun _ _ => True) (fun _ _ => True) s j)
    {e : TimedEvent} (member : e ∈ j.past) :
    honest locale opened e.before.now e.op e.result = true := by
  obtain ⟨later, earlier, isPast⟩ := List.append_of_mem member
  obtain ⟨_, _, _, performs⟩ := reaches.at_entry isPast
  exact performs.exec.2.1

end Runs

section Replay

/-- `12345678901234567890` in base 32. -/
def secret : JavaString :=
  "GEZDGNBVGY3TQOJQGEZDGNBVGY3TQOJQ".toList.map fun c => UInt16.ofNat c.toNat

def opensAs (_ : JavaString) : JavaString :=
  secret

def user : TwoFactor where
  userId := 1
  enabled := true
  secretSealed := []
  backupCodes := []
  enabledAt := some 0

/-- Within the second step. -/
def signedUp : Timed where
  server := ⟨(Database.empty.write 0 user).commit 0, []⟩
  now := 45

def performTimed (t : Nat) (s : Timed) (op : Op) (a : Answer) : Option (op.Res × Timed) :=
  match perform t s.server op a with
  | some (result, server) =>
      if honest Totp.Locale.root opensAs s.now op result then some (result, ⟨server, s.now⟩) else none
  | none => none

/-- A login with the code of the step. -/
def login (t : Nat) : List (Move Call Answer) :=
  Service.moves t (.login 1 (Totp.format 287082)) (List.replicate 8 { totp := true })

def runOf (plan : List (Move Call Answer)) : Option TimedHistory :=
  (((timed Totp.Locale.root opensAs).schedule performTimed fun _ => true).follow
    (Service.unstarted signedUp) plan).map Config.state

def isMatch (e : TimedEvent) : Bool :=
  e.call.userId = 1 && e.before.now = 45 &&
    match e.op, e.result with
    | .totp _ code, .ok true => code = Totp.format 287082
    | _, _ => false

theorem logins_matched :
    (runOf (login 0 ++ login 1)).map (fun j => (j.past.filter isMatch).map Entry.thread) =
      some [1, 0] := by
  decide +kernel

theorem code_secret : Totp.code Totp.Locale.root secret 1 = .ok (Totp.format 287082) := by
  decide +kernel

theorem accepts_of_isMatch {e : TimedEvent} (isMatched : isMatch e = true) :
    Accepts Totp.Locale.root opensAs e 1 1 := by
  obtain ⟨t, call, op, result, before, after⟩ := e
  rw [isMatch, Bool.and_eq_true, Bool.and_eq_true, decide_eq_true_eq, decide_eq_true_eq] at isMatched
  obtain ⟨⟨isUser, isNow⟩, isCode⟩ := isMatched
  split at isCode
  · rename_i secretSealed code isOp isResult
    subst isOp
    obtain rfl := eq_of_heq isResult
    rw [decide_eq_true_eq] at isCode
    subst isCode
    refine ⟨⟨isUser, ?_, secretSealed, _, rfl, code_secret⟩, secretSealed, _, rfl⟩
    rw [isNow]
    decide
  · cases isCode

theorem runOf_reaches {plan : List (Move Call Answer)} {j : TimedHistory} (ran : runOf plan = some j) :
    (timed Totp.Locale.root opensAs).Reaches (fun _ _ => True) (fun _ _ => True) signedUp j := by
  obtain ⟨config, followed, rfl⟩ := Option.map_eq_some_iff.mp ran
  have performs : ∀ t s op a result s', performTimed t s op a = some (result, s') →
      (timed Totp.Locale.root opensAs).exec t s op result s' := by
    intro t s op a result s' performed
    rw [performTimed] at performed
    split at performed
    · rename_i result' server answered
      split at performed
      · rename_i isHonest
        obtain ⟨rfl, rfl⟩ := Prod.mk.inj (Option.some.inj performed)
        exact ⟨⟨a, answered⟩, isHonest, le_refl _⟩
      · cases performed
    · cases performed
  exact Service.reaches_follow (fun _ _ _ => trivial) performs (fun _ _ => trivial) followed

def comparesCode : Op → Bool
  | .totp .. => true
  | _ => false

theorem login_compares : (runOf (login 0)).map (fun j => (j.past.map fun e => comparesCode e.op,
    j.past.any isMatch)) = some ([false, false, false, false, false, true, false, false], true) := by
  decide +kernel

theorem compares_of_checks {locale : Totp.Locale} {opened : JavaString → JavaString} {e : TimedEvent}
    {userId : UUID} {step : Int} (checks : Checks locale opened e userId step) :
    comparesCode e.op = true := by
  obtain ⟨⟨_, _, _, _, isOp, _⟩, _⟩ := checks
  rw [isOp]
  rfl

end Replay

end TwoFactorAuth
