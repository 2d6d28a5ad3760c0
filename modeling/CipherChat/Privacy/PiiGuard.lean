import CipherChat.Privacy.PiiRedactor

/-!
The server's own look at a transcript that a client has redacted, and when it agrees with the
client's. Java takes a mark behind a letter for a part of the word, as JavaScript does not.
-/

namespace PiiGuard

open Rooms (JavaString)
open PiiRedactor (Pattern TranscriptLine)
open Regex

/-- The loop of `luhnValid`, from the last character on. -/
def luhnLoop (sum count : Nat) (dbl : Bool) : List UInt16 → Nat × Nat
  | [] => (sum, count)
  | c :: rest =>
      if c.toNat < 48 || 57 < c.toNat then luhnLoop sum count dbl rest
      else
        let n := c.toNat - 48
        let n := if dbl then n * 2 else n
        let n := if dbl && 9 < n then n - 9 else n
        luhnLoop (sum + n) (count + 1) (!dbl) rest

def luhnValid (s : JavaString) : Bool :=
  let (sum, count) := luhnLoop 0 0 false s.reverse
  13 ≤ count && count ≤ 19 && sum % 10 = 0

/-- No match holds a digit that is not ASCII. -/
def digits (s : JavaString) : Nat :=
  (s.filter PiiRedactor.isDigit).length

structure Detector where
  name : String
  pattern : Pattern
  luhn : Bool

/-- The expressions are the client's. -/
def DETECTORS : List Detector := [
  ⟨"EMAIL", PiiRedactor.email, false⟩,
  ⟨"CARD", PiiRedactor.card, true⟩,
  ⟨"GOV_ID", PiiRedactor.govId, false⟩,
  ⟨"MRN", PiiRedactor.mrn, false⟩,
  ⟨"PHONE", PiiRedactor.phone, false⟩]

/-- `\s` of Java. -/
def isSpace (x : UInt16) : Bool :=
  (9 ≤ x.toNat && x.toNat ≤ 13) || x.toNat = 0x20

section Boundary

/-- What `Character` knows of a code point: its general category. -/
structure CharacterData where
  isNonSpacingMark : Nat → Bool
  isLetterOrDigit : Nat → Bool
  apart : ∀ ch, isNonSpacingMark ch = true → isLetterOrDigit ch = false
  ascii : ∀ x : UInt16, x.toNat < 0x80 → isNonSpacingMark x.toNat = false ∧
    isLetterOrDigit x.toNat = (PiiRedactor.isLetter x || PiiRedactor.isDigit x)
  surrogate : ∀ x : UInt16, (Utf.isHigh x || Utf.isLow x) = true →
    isNonSpacingMark x.toNat = false ∧ isLetterOrDigit x.toNat = false

def toCodePoint (high low : UInt16) : Nat :=
  0x10000 + (high.toNat - 0xD800) * 0x400 + (low.toNat - 0xDC00)

/-- The code point at the start of what lies ahead. -/
def codePointAt : JavaString → Nat
  | [] => 0
  | [x] => x.toNat
  | x :: y :: _ => if Utf.isHigh x && Utf.isLow y then toCodePoint x y else x.toNat

/-- The code point at the end of what lies behind. -/
def codePointBefore : List UInt16 → Nat
  | [] => 0
  | [y] => y.toNat
  | y :: x :: _ => if Utf.isHigh x && Utf.isLow y then toCodePoint x y else y.toNat

/-- `\w` -/
def isWord (ch : Nat) : Bool :=
  ch < 0x80 && PiiRedactor.isWord (UInt16.ofNat ch)

namespace CharacterData

variable (u : CharacterData)

/-- The loop goes back over the marks, one code unit at a time. -/
def hasBaseCharacter : List UInt16 → JavaString → Bool
  | [], after => u.isLetterOrDigit (codePointAt after)
  | x :: before, after =>
      if u.isLetterOrDigit (codePointAt after) then true
      else if u.isNonSpacingMark (codePointAt after) then hasBaseCharacter before (x :: after)
      else false

def left (c : Cursor UInt16) : Bool :=
  match c.before with
  | [] => false
  | x :: before =>
      let ch := codePointBefore (x :: before)
      isWord ch || (u.isNonSpacingMark ch && u.hasBaseCharacter before (x :: c.after))

def right (c : Cursor UInt16) : Bool :=
  match c.after with
  | [] => false
  | x :: after =>
      let ch := codePointAt (x :: after)
      isWord ch || (u.isNonSpacingMark ch && u.hasBaseCharacter c.before (x :: after))

/-- `\b` and `\s` of Java. -/
def engine : Engine PiiRedactor.Class UInt16 where
  is := PiiRedactor.reads isSpace
  edge c := u.left c != u.right c

/-- No mark stands behind a letter or a digit. -/
def bare : JavaString → Bool
  | x :: y :: rest =>
      !(u.isLetterOrDigit (codePointAt (x :: y :: rest)) && u.isNonSpacingMark (codePointAt (y :: rest))) &&
        bare (y :: rest)
  | _ => true

end CharacterData

end Boundary

def Detector.accept (d : Detector) (m : JavaString) : Bool :=
  !(d.luhn && !luhnValid m) && !(d.name = "PHONE" && digits m < 10)

def scan (u : CharacterData) (text : JavaString) : List String :=
  if text = [] then []
  else (DETECTORS.filter fun d => (hits u.engine d.pattern text).any d.accept).map Detector.name

/-- `Character.isWhitespace` -/
def isWhitespace (x : UInt16) : Bool :=
  (9 ≤ x.toNat && x.toNat ≤ 13) || (0x1C ≤ x.toNat && x.toNat ≤ 0x20) ||
    (0x2000 ≤ x.toNat && x.toNat ≤ 0x2006) || (0x2008 ≤ x.toNat && x.toNat ≤ 0x200A) ||
    [0x1680, 0x2028, 0x2029, 0x205F, 0x3000].contains x.toNat

def isBlank (text : JavaString) : Bool :=
  text.all isWhitespace

/-- The text that `summarizeRedacted` scans. -/
def transcript (lines : List TranscriptLine) : JavaString :=
  lines.flatMap fun line =>
    if isBlank line.text then [] else line.who ++ Utf.ofString ": " ++ line.text ++ [0x0A]

section Luhn

theorem luhnLoop_eq (s : JavaString) (sum count : Nat) (dbl : Bool) : luhnLoop sum count dbl s =
    (PiiRedactor.luhnSum sum dbl (s.filter PiiRedactor.isDigit),
      count + (s.filter PiiRedactor.isDigit).length) := by
  induction s generalizing sum count dbl with
  | nil => rfl
  | cons c rest ih =>
      by_cases digit : 48 ≤ c.toNat ∧ c.toNat ≤ 57
      · have isDigit : PiiRedactor.isDigit c = true := by
          simpa [PiiRedactor.isDigit, PiiRedactor.range] using digit
        have inside : (c.toNat < 48 || 57 < c.toNat) = false := by
          simp only [Bool.or_eq_false_iff, decide_eq_false_iff_not]
          omega
        rw [luhnLoop, inside, List.filter_cons_of_pos isDigit, PiiRedactor.luhnSum,
          List.length_cons]
        simp only [Bool.false_eq_true, if_false, ih]
        rw [Nat.add_assoc, Nat.add_comm 1]
      · have isOther : ¬PiiRedactor.isDigit c = true := by
          simpa [PiiRedactor.isDigit, PiiRedactor.range] using digit
        have outside : (c.toNat < 48 || 57 < c.toNat) = true := by
          simp only [Bool.or_eq_true, decide_eq_true_eq]
          omega
        rw [luhnLoop, outside, List.filter_cons_of_neg isOther]
        simp only [if_true, ih]

theorem luhnValid_eq (s : JavaString) : luhnValid s = PiiRedactor.luhnValid s := by
  have length : ((s.filter PiiRedactor.isDigit).reverse).length =
      (s.filter PiiRedactor.isDigit).length := List.length_reverse
  simp only [luhnValid, luhnLoop_eq, PiiRedactor.luhnValid, List.filter_reverse, length, Nat.zero_add]
  by_cases fits : 13 ≤ (s.filter PiiRedactor.isDigit).length ∧
      (s.filter PiiRedactor.isDigit).length ≤ 19
  · simp [fits, Nat.not_lt.mpr fits.1, Nat.not_lt.mpr fits.2]
  · by_cases short : (s.filter PiiRedactor.isDigit).length < 13
    · simp [short, Nat.not_le.mpr short]
    · have long : 19 < (s.filter PiiRedactor.isDigit).length := by omega
      simp [long, Nat.not_le.mpr long]

end Luhn

section Words

variable {u : CharacterData}

theorem isWord_unit (x : UInt16) : isWord x.toNat = PiiRedactor.isWord x := by
  have small : PiiRedactor.isWord x = true → x.toNat < 0x80 := by
    simp only [PiiRedactor.isWord, PiiRedactor.isLetter, PiiRedactor.isUpper, PiiRedactor.isDigit,
      PiiRedactor.range, Bool.or_eq_true, Bool.and_eq_true, decide_eq_true_eq]
    intro word
    rcases word with ((upper | lower) | digit) | mark
    · exact upper.2.trans_lt (by decide)
    · exact lower.2.trans_lt (by decide)
    · exact digit.2.trans_lt (by decide)
    · have isMark : x = 0x5F := by simpa [PiiRedactor.among, Utf.ofString, Utf.unitsOf] using mark
      subst isMark
      decide
  rw [isWord, UInt16.ofNat_toNat]
  cases word : PiiRedactor.isWord x with
  | false => rw [Bool.and_false]
  | true => simp [small word]

theorem isWord_pair (high low : UInt16) : isWord (toCodePoint high low) = false := by
  have large : ¬toCodePoint high low < 0x80 := by
    unfold toCodePoint
    omega
  simp [isWord, large]

theorem isWord_surrogate {x : UInt16} (half : (Utf.isHigh x || Utf.isLow x) = true) :
    PiiRedactor.isWord x = false := by
  rw [← isWord_unit]
  have large : ¬x.toNat < 0x80 := by
    simp only [Utf.isHigh, Utf.isLow, Bool.or_eq_true, Bool.and_eq_true, decide_eq_true_eq] at half
    omega
  simp [isWord, large]

theorem codePointAt_of_low {x : UInt16} (other : Utf.isHigh x = false) (rest : JavaString) :
    codePointAt (x :: rest) = x.toNat := by
  cases rest with
  | nil => rfl
  | cons y rest => simp [codePointAt, other]

theorem codePointBefore_of_high {y : UInt16} (other : Utf.isLow y = false) (rest : List UInt16) :
    codePointBefore (y :: rest) = y.toNat := by
  cases rest with
  | nil => rfl
  | cons x rest => simp [codePointBefore, other]

theorem isWord_codePointAt (x : UInt16) (rest : JavaString) :
    isWord (codePointAt (x :: rest)) = PiiRedactor.isWord x := by
  cases rest with
  | nil => exact isWord_unit x
  | cons y rest =>
      rw [codePointAt]
      split
      next isPair =>
        have half := (Bool.and_eq_true_iff.mp isPair).1
        rw [isWord_pair, isWord_surrogate (by simp [half])]
      next => exact isWord_unit x

theorem isWord_codePointBefore (y : UInt16) (rest : List UInt16) :
    isWord (codePointBefore (y :: rest)) = PiiRedactor.isWord y := by
  cases rest with
  | nil => exact isWord_unit y
  | cons x rest =>
      rw [codePointBefore]
      split
      next isPair =>
        have half := (Bool.and_eq_true_iff.mp isPair).2
        rw [isWord_pair, isWord_surrogate (by simp [half])]
      next => exact isWord_unit y

namespace CharacterData

theorem bare_of_append {first rest : JavaString} (bare : u.bare (first ++ rest) = true) :
    u.bare rest = true := by
  induction first with
  | nil => exact bare
  | cons x first ih =>
      refine ih ?_
      rw [List.cons_append] at bare
      cases whole : first ++ rest with
      | nil => rfl
      | cons y more =>
          rw [whole, CharacterData.bare] at bare
          exact (Bool.and_eq_true_iff.mp bare).2

theorem no_base_of_other {after : JavaString} (letter : u.isLetterOrDigit (codePointAt after) = false)
    (mark : u.isNonSpacingMark (codePointAt after) = false) (before : List UInt16) :
    u.hasBaseCharacter before after = false := by
  cases before with
  | nil => exact letter
  | cons x before => simp [hasBaseCharacter, letter, mark]

/-- A character that divides two texts: ASCII, no letter and no digit. -/
theorem bare_divide {first rest : JavaString} {x : UInt16} (small : x.toNat < 0x80)
    (other : (PiiRedactor.isLetter x || PiiRedactor.isDigit x) = false) (left : u.bare first = true)
    (right : u.bare rest = true) : u.bare (first ++ x :: rest) = true := by
  obtain ⟨noMark, noLetter⟩ := u.ascii x small
  rw [other] at noLetter
  have notHigh : Utf.isHigh x = false := by
    simp only [Utf.isHigh, Bool.and_eq_false_iff, decide_eq_false_iff_not]
    omega
  have notLow : Utf.isLow x = false := by
    simp only [Utf.isLow, Bool.and_eq_false_iff, decide_eq_false_iff_not]
    omega
  have here : u.bare (x :: rest) = true := by
    cases rest with
    | nil => rfl
    | cons y rest => simp [bare, codePointAt_of_low notHigh, noLetter, right]
  induction first with
  | nil => exact here
  | cons a first ih =>
      cases first with
      | nil => simp [bare, codePointAt_of_low notHigh, noMark, here]
      | cons b first =>
          obtain ⟨apart, later⟩ := Bool.and_eq_true_iff.mp left
          have same : codePointAt (b :: first ++ x :: rest) = codePointAt (b :: first) := by
            cases first with
            | nil => simp [codePointAt, notLow]
            | cons c first => rfl
          exact Bool.and_eq_true_iff.mpr ⟨same ▸ apart, ih later⟩

/-- Behind a mark there is no letter, so there is none behind a row of marks. -/
theorem no_base {before after : JavaString} (bare : u.bare (before.reverse ++ after) = true)
    (some : after ≠ []) (mark : u.isNonSpacingMark (codePointAt after) = true) :
    u.hasBaseCharacter before after = false := by
  induction before generalizing after with
  | nil => exact u.apart _ mark
  | cons x before ih =>
      rw [List.reverse_cons, List.append_assoc] at bare
      have here := bare_of_append bare
      obtain ⟨y, rest, rfl⟩ := List.exists_cons_of_ne_nil some
      rw [List.singleton_append, CharacterData.bare, mark, Bool.and_true] at here
      have other : u.isLetterOrDigit (codePointAt (x :: y :: rest)) = false := by
        simpa using (Bool.and_eq_true_iff.mp here).1
      rw [hasBaseCharacter, u.apart _ mark, mark]
      simp only [Bool.false_eq_true, if_false, if_true]
      cases again : u.isNonSpacingMark (codePointAt (x :: y :: rest)) with
      | true => exact ih bare (List.cons_ne_nil _ _) again
      | false => exact no_base_of_other other again before

theorem right_eq {c : Cursor UInt16} (bare : u.bare (c.before.reverse ++ c.after) = true) :
    u.right c = c.after.head?.any PiiRedactor.isWord := by
  obtain ⟨before, after⟩ := c
  cases after with
  | nil => rfl
  | cons x rest =>
      simp only [right, isWord_codePointAt, List.head?_cons, Option.any_some]
      cases mark : u.isNonSpacingMark (codePointAt (x :: rest)) with
      | false => simp
      | true => simp [no_base bare (List.cons_ne_nil _ _) mark]

/-- The loop begins at a code unit: at one half of a pair it ends. -/
theorem no_base_before {y : UInt16} {before after : JavaString}
    (bare : u.bare (before.reverse ++ y :: after) = true)
    (mark : u.isNonSpacingMark (codePointBefore (y :: before)) = true) :
    u.hasBaseCharacter before (y :: after) = false := by
  cases low : Utf.isLow y with
  | true =>
      have high : Utf.isHigh y = false := by
        simp only [Utf.isHigh, Utf.isLow, Bool.and_eq_true, decide_eq_true_eq, Bool.and_eq_false_iff,
          decide_eq_false_iff_not] at low ⊢
        omega
      obtain ⟨noMark, noLetter⟩ := u.surrogate y (by simp [low])
      rw [← codePointAt_of_low high after] at noMark noLetter
      exact no_base_of_other noLetter noMark before
  | false =>
      rw [codePointBefore_of_high low] at mark
      have high : Utf.isHigh y = false := by
        by_contra half
        rw [(u.surrogate y (by simpa [low] using half)).1] at mark
        cases mark
      rw [← codePointAt_of_low high after] at mark
      exact no_base bare (List.cons_ne_nil _ _) mark

theorem left_eq {c : Cursor UInt16} (bare : u.bare (c.before.reverse ++ c.after) = true) :
    u.left c = c.before.head?.any PiiRedactor.isWord := by
  obtain ⟨before, after⟩ := c
  cases before with
  | nil => rfl
  | cons y before =>
      simp only [left, isWord_codePointBefore, List.head?_cons, Option.any_some]
      have bare' : u.bare (before.reverse ++ y :: after) = true := by simpa using bare
      cases mark : u.isNonSpacingMark (codePointBefore (y :: before)) with
      | false => simp
      | true => simp [no_base_before bare' mark]

end CharacterData

end Words

section Agreement

/-- What both take for white space, or neither does. -/
def Alike (x : UInt16) : Prop :=
  Utf.isSpace x = isSpace x

instance decidableAlike : DecidablePred Alike :=
  fun x => inferInstanceAs (Decidable (Utf.isSpace x = isSpace x))

/-- The server's text is the client's and a line break. -/
theorem transcript_eq {lines : List TranscriptLine} (some : lines ≠ [])
    (shown : ∀ line ∈ lines, isBlank line.text = false) :
    transcript lines = PiiRedactor.joined lines ++ [0x0A] := by
  induction lines with
  | nil => exact absurd rfl some
  | cons line rest ih =>
      have first := shown line List.mem_cons_self
      cases rest with
      | nil => simp [transcript, PiiRedactor.joined, first]
      | cons next rest =>
          have later := ih (List.cons_ne_nil _ _) fun l member => shown l (List.mem_cons_of_mem _ member)
          have head : transcript (line :: next :: rest) =
              line.who ++ Utf.ofString ": " ++ line.text ++ [0x0A] ++ transcript (next :: rest) := by
            rw [transcript, List.flatMap_cons, first]
            rfl
          rw [head, later]
          simp [PiiRedactor.joined, List.intercalate]

theorem mem_of_intersperse {α : Type} {x sep : α} {xs : List α} (member : x ∈ xs.intersperse sep) :
    x = sep ∨ x ∈ xs := by
  induction xs with
  | nil => cases member
  | cons y rest ih =>
      cases rest with
      | nil => exact .inr member
      | cons z rest =>
          rw [List.intersperse_cons_cons] at member
          rcases List.mem_cons.mp member with rfl | later
          · exact .inr List.mem_cons_self
          · rcases List.mem_cons.mp later with rfl | last
            · exact .inl rfl
            · exact (ih last).imp id (List.mem_cons_of_mem _)

theorem alike_joined {lines : List TranscriptLine}
    (alike : ∀ line ∈ lines, ∀ x ∈ line.who ++ line.text, Alike x) :
    ∀ x ∈ PiiRedactor.joined lines, Alike x := by
  have marks : ∀ x ∈ Utf.ofString ": " ++ [0x0A], Alike x := each_of_all (by decide)
  have inside (line : TranscriptLine) (member : line ∈ lines) :
      ∀ x ∈ line.who ++ Utf.ofString ": " ++ line.text, Alike x := by
    intro x listed
    rcases List.mem_append.mp listed with early | text
    · rcases List.mem_append.mp early with who | mark
      · exact alike line member x (List.mem_append_left _ who)
      · exact marks x (List.mem_append_left _ mark)
    · exact alike line member x (List.mem_append_right _ text)
  intro x listed
  rw [PiiRedactor.joined, List.intercalate, List.mem_flatten] at listed
  obtain ⟨part, isPart, here⟩ := listed
  rcases mem_of_intersperse isPart with rfl | isLine
  · exact marks x (List.mem_append_right _ here)
  · obtain ⟨line, member, rfl⟩ := List.mem_map.mp isLine
    exact inside line member x here

/-- The line break looks like the end of the text. -/
theorem edge_extend (white : UInt16 → Bool) (c : Cursor UInt16) :
    (PiiRedactor.engine white).edge (extend 0x0A c) = (PiiRedactor.engine white).edge c := by
  obtain ⟨before, after⟩ := c
  have noWord : PiiRedactor.isWord 0x0A = false := by decide
  cases after with
  | nil => simp [extend, noWord]
  | cons x rest => rfl

/-- The server finds in its text what the client finds in its own. -/
theorem hits_transcript {u : CharacterData} {r : Pattern} {text : JavaString}
    (alike : ∀ x ∈ text, Alike x) (bare : u.bare (text ++ [0x0A]) = true)
    (unseen : blind (PiiRedactor.reads isSpace) 0x0A r = true)
    (stops : closes (PiiRedactor.reads isSpace) 0x0A r = true) (some : r.consumes = true) :
    hits u.engine r (text ++ [0x0A]) = hits (PiiRedactor.engine Utf.isSpace) r text := by
  have ascii : hits u.engine r (text ++ [0x0A]) =
      hits (PiiRedactor.engine isSpace) r (text ++ [0x0A]) := by
    refine hits_alike (fun _ _ _ => rfl) fun c isText => ?_
    rw [← isText] at bare
    simp only [CharacterData.engine, u.left_eq bare, u.right_eq bare]
  rw [ascii, hits_append (edge_extend isSpace) unseen stops some]
  refine hits_alike (fun k x member => ?_) fun _ _ => rfl
  change k (isSpace x) x = k (Utf.isSpace x) x
  rw [alike x member]

/-- Every detector of the server is one of the client's, and takes no line break at its end. -/
theorem detector_shared {d : Detector} (member : d ∈ DETECTORS) :
    (∃ d' ∈ PiiRedactor.DETECTORS, d'.regex = d.pattern ∧ d'.accept = d.accept) ∧
      blind (PiiRedactor.reads isSpace) 0x0A d.pattern = true ∧
      closes (PiiRedactor.reads isSpace) 0x0A d.pattern = true ∧ d.pattern.consumes = true := by
  have always (name : String) (pattern : Pattern) (other : name ≠ "PHONE") :
      (fun _ => true) = Detector.accept ⟨name, pattern, false⟩ := by
    funext m
    simp [Detector.accept, other]
  have checked : ∀ d ∈ DETECTORS, blind (PiiRedactor.reads isSpace) 0x0A d.pattern = true ∧
      closes (PiiRedactor.reads isSpace) 0x0A d.pattern = true ∧ d.pattern.consumes = true := by
    decide
  refine ⟨?_, checked d member⟩
  simp only [DETECTORS, List.mem_cons, List.not_mem_nil, or_false] at member
  rcases member with rfl | rfl | rfl | rfl | rfl
  · exact ⟨⟨.EMAIL, _, _⟩, by simp [PiiRedactor.DETECTORS], rfl, always _ _ (by decide)⟩
  · refine ⟨⟨.CARD, PiiRedactor.card, PiiRedactor.luhnValid⟩, by simp [PiiRedactor.DETECTORS], rfl, ?_⟩
    funext m
    simp [Detector.accept, luhnValid_eq]
  · exact ⟨⟨.GOV_ID, _, _⟩, by simp [PiiRedactor.DETECTORS], rfl, always _ _ (by decide)⟩
  · exact ⟨⟨.MRN, _, _⟩, by simp [PiiRedactor.DETECTORS], rfl, always _ _ (by decide)⟩
  · refine ⟨⟨.PHONE, PiiRedactor.phone, fun m => 10 ≤ (m.filter PiiRedactor.isDigit).length⟩,
      by simp [PiiRedactor.DETECTORS], rfl, ?_⟩
    funext m
    have few : (m.filter PiiRedactor.isDigit).length = digits m := rfl
    by_cases short : digits m < 10
    · simp [Detector.accept, few, short]
    · simp [Detector.accept, few, Nat.not_lt.mp short, short]

theorem bare_transcript {u : CharacterData} {lines : List TranscriptLine}
    (bare : ∀ line ∈ lines, u.bare line.who = true ∧ u.bare line.text = true) :
    u.bare (transcript lines) = true := by
  induction lines with
  | nil => rfl
  | cons line rest ih =>
      have later := ih fun l member => bare l (List.mem_cons_of_mem _ member)
      obtain ⟨who, text⟩ := bare line List.mem_cons_self
      have step : transcript (line :: rest) = (if isBlank line.text then [] else
          line.who ++ Utf.ofString ": " ++ line.text ++ [0x0A]) ++ transcript rest := rfl
      rw [step]
      split
      · exact later
      · have closed := u.bare_divide (x := 0x0A) (by decide) (by decide) text later
        have spaced : u.bare ([] ++ 0x20 :: (line.text ++ 0x0A :: transcript rest)) = true :=
          u.bare_divide (by decide) (by decide) rfl closed
        have whole := u.bare_divide (x := 0x3A) (by decide) (by decide) who spaced
        have colon : Utf.ofString ": " = [0x3A, 0x20] := by decide
        rw [colon]
        simpa using whole

theorem scan_of_cleared (u : CharacterData) {lines : List TranscriptLine}
    (shown : ∀ line ∈ lines, isBlank line.text = false)
    (alike : ∀ line ∈ lines, ∀ x ∈ line.who ++ line.text, Alike x)
    (bare : ∀ line ∈ lines, u.bare line.who = true ∧ u.bare line.text = true)
    (cleared : PiiRedactor.containsPii (PiiRedactor.joined lines) = []) :
    scan u (transcript lines) = [] := by
  by_cases empty : lines = []
  · subst empty
    rfl
  · have bare' := bare_transcript bare
    rw [transcript_eq empty shown] at bare' ⊢
    rw [scan, if_neg (by simp), List.map_eq_nil_iff, List.filter_eq_nil_iff]
    intro d member
    obtain ⟨⟨d', member', isRegex, isAccept⟩, unseen, stops, some⟩ := detector_shared member
    rw [PiiRedactor.containsPii, List.map_eq_nil_iff, List.filter_eq_nil_iff] at cleared
    rw [hits_transcript (alike_joined alike) bare' unseen stops some, ← isRegex, ← isAccept]
    exact cleared d' member'

/-- The two gates agree on texts that are shown, whose white space is white to both and whose letters
and digits carry no mark. -/
theorem gates_agree (u : CharacterData) : (∀ s, luhnValid s = PiiRedactor.luhnValid s) ∧
    ∀ lines : List TranscriptLine, (∀ line ∈ lines, isBlank line.text = false) →
      (∀ line ∈ lines, ∀ x ∈ line.who ++ line.text, Alike x) →
      (∀ line ∈ lines, u.bare line.who = true ∧ u.bare line.text = true) →
      PiiRedactor.containsPii (PiiRedactor.joined lines) = [] → scan u (transcript lines) = [] :=
  ⟨luhnValid_eq, fun _ => scan_of_cleared u⟩

/-- The combining diacritical marks. -/
def isDiacritical (ch : Nat) : Bool :=
  0x300 ≤ ch && ch < 0x370

def isAlphanumeric (ch : Nat) : Bool :=
  ch < 0x80 && (PiiRedactor.isLetter (UInt16.ofNat ch) || PiiRedactor.isDigit (UInt16.ofNat ch))

theorem isAlphanumeric_large {ch : Nat} (large : ¬ch < 0x80) : isAlphanumeric ch = false := by
  simp [isAlphanumeric, large]

theorem isAlphanumeric_diacritical (ch : Nat) (mark : isDiacritical ch = true) :
    isAlphanumeric ch = false := by
  simp only [isDiacritical, Bool.and_eq_true, decide_eq_true_eq] at mark
  exact isAlphanumeric_large (by omega)

theorem alphanumeric_ascii (x : UInt16) (small : x.toNat < 0x80) : isDiacritical x.toNat = false ∧
    isAlphanumeric x.toNat = (PiiRedactor.isLetter x || PiiRedactor.isDigit x) := by
  have noMark : ¬0x300 ≤ x.toNat := by omega
  simp [isDiacritical, isAlphanumeric, small, noMark]

theorem alphanumeric_surrogate (x : UInt16) (half : (Utf.isHigh x || Utf.isLow x) = true) :
    isDiacritical x.toNat = false ∧ isAlphanumeric x.toNat = false := by
  simp only [Utf.isHigh, Utf.isLow, Bool.or_eq_true, Bool.and_eq_true, decide_eq_true_eq] at half
  have noMark : ¬x.toNat < 0x370 := by omega
  exact ⟨by simp [isDiacritical, noMark], isAlphanumeric_large (by omega)⟩

/-- The combining diacritical marks, and the letters and digits of ASCII. -/
def latin : CharacterData :=
  ⟨isDiacritical, isAlphanumeric, isAlphanumeric_diacritical, alphanumeric_ascii, alphanumeric_surrogate⟩

def redacted : List TranscriptLine :=
  [⟨Utf.ofString "[PERSON_1]", Utf.ofString "my MRN is [MRN_1]"⟩,
    ⟨Utf.ofString "[PERSON_2]", Utf.ofString "10:45 then \u0301"⟩]

theorem gates_agree_redacted : scan latin (transcript redacted) = [] := by
  refine (gates_agree latin).2 redacted (each_of_all (by decide)) ?_ ?_ (by decide +kernel)
  · rintro line (_ | ⟨_, _ | ⟨_, ⟨⟩⟩⟩) <;> exact each_of_all (by decide)
  · rintro line (_ | ⟨_, _ | ⟨_, ⟨⟩⟩⟩) <;> decide +kernel

/-- A no-break space joins digits for the client, who then looks behind them. -/
def spaced : List TranscriptLine :=
  [⟨Utf.ofString "a", Utf.ofString "1\u00A0\u00A0\u00A0\u00A0\u00A0\u00A0\u00A0\u00A02 345 678 9012"⟩]

theorem gates_differ : ¬∀ lines, PiiRedactor.containsPii (PiiRedactor.joined lines) = [] →
    scan latin (transcript lines) = [] := by
  intro claim
  have refused : PiiRedactor.containsPii (PiiRedactor.joined spaced) = [] ∧
      scan latin (transcript spaced) = ["PHONE"] := by decide +kernel
  rw [claim spaced refused.1] at refused
  cases refused.2

/-- The number stands in two lines; the one between them is blank to the server alone. -/
def split : List TranscriptLine :=
  [⟨Utf.ofString "a", Utf.ofString "1 2345"⟩, ⟨Utf.ofString "b", Utf.ofString "\u001C"⟩,
    ⟨Utf.ofString "6789 0", Utf.ofString "c"⟩]

example : PiiRedactor.containsPii (PiiRedactor.joined split) = [] ∧
    scan latin (transcript split) = ["PHONE"] := by
  decide +kernel

/-- The word of the accented letter ends behind the accent for the server alone. -/
example : PiiRedactor.containsPii (PiiRedactor.joined [⟨[], Utf.ofString "e\u0301.@b.co"⟩]) = [] ∧
    scan latin (transcript [⟨[], Utf.ofString "e\u0301.@b.co"⟩]) = ["EMAIL"] := by
  decide +kernel

end Agreement

end PiiGuard
