import CipherChat.Rooms.Messages
import CipherChat.Text.Regex

/-!
The detectors of `PiiRedactor`. An expression is read with the engine's own idea of white space; all
else that it names is ASCII.
-/

namespace PiiRedactor

open Rooms (JavaString)
open Utf (isSpace)
open Regex

inductive EntityType
  | PERSON
  | EMAIL
  | PHONE
  | CARD
  | GOV_ID
  | MRN
  | IP
  | URL
  deriving DecidableEq

/-- A class of characters, by whether the engine takes the character for white space. -/
abbrev Class := Bool → UInt16 → Bool

abbrev Pattern := Regex Class

/-- A class as an engine reads it that has this white space. -/
def reads (white : UInt16 → Bool) (k : Class) (x : UInt16) : Bool :=
  k (white x) x

def range (first last : Char) (x : UInt16) : Bool :=
  first.toNat ≤ x.toNat && x.toNat ≤ last.toNat

def among (cs : String) (x : UInt16) : Bool :=
  (Utf.ofString cs).contains x

def isDigit : UInt16 → Bool :=
  range '0' '9'

def isUpper : UInt16 → Bool :=
  range 'A' 'Z'

def isLetter (x : UInt16) : Bool :=
  isUpper x || range 'a' 'z' x

def isWord (x : UInt16) : Bool :=
  isLetter x || isDigit x || among "_" x

/-- An engine that has this white space, and whose words are of ASCII characters. -/
abbrev engine (white : UInt16 → Bool) : Engine Class UInt16 where
  is := reads white
  edge c := c.before.head?.any isWord != c.after.head?.any isWord

section Notation

/-- `\d`, and other classes without white space. -/
def plain (p : UInt16 → Bool) : Class :=
  fun _ => p

/-- `\s` -/
def space : Class :=
  fun white _ => white

def cat : List Pattern → Pattern
  | [] => .empty
  | [r] => r
  | r :: rest => .seq r (cat rest)

def any : List Pattern → Pattern
  | [] => .empty
  | [r] => r
  | r :: rest => .alt r (any rest)

def plus (k : Class) : Pattern :=
  .seq (.one k) (.star k)

/-- So many or more. -/
def least (n : Nat) (k : Class) : Pattern :=
  .seq (.times (.one k) n n) (.star k)

def digits (n : Nat) : Pattern :=
  .times (.one (plain isDigit)) n n

def char (c : String) : Pattern :=
  .one (plain (among c))

def literal (cs : List String) : Pattern :=
  cat (cs.map char)

/-- `\b` -/
def edge : Pattern :=
  .boundary

end Notation

/-- `/\b[A-Za-z0-9._%+-]+@[A-Za-z0-9.-]+\.[A-Za-z]{2,}\b/g` -/
def email : Pattern :=
  cat [edge, plus (plain fun x => isLetter x || isDigit x || among "._%+-" x), char "@",
    plus (plain fun x => isLetter x || isDigit x || among ".-" x), char ".",
    least 2 (plain isLetter), edge]

/-- `/\bhttps?:\/\/[^\s<>()"']+/g` -/
def url : Pattern :=
  cat [edge, literal ["h", "t", "t", "p"], opt (char "s"), literal [":", "/", "/"],
    plus fun white x => !white && !among "<>()\"'" x]

/-- `/\b(?:\d[ -]?){12,18}\d\b/g` -/
def card : Pattern :=
  cat [edge, .times (.seq (.one (plain isDigit)) (opt (char " -"))) 12 18, digits 1, edge]

/-- `/\b\d{3}-\d{2}-\d{4}\b|\b\d{4}\s\d{4}\s\d{4}\b|\b[A-Z]{5}\d{4}[A-Z]\b/g` -/
def govId : Pattern :=
  any [cat [edge, digits 3, char "-", digits 2, char "-", digits 4, edge],
    cat [edge, digits 4, .one space, digits 4, .one space, digits 4, edge],
    cat [edge, .times (.one (plain isUpper)) 5 5, digits 4, .one (plain isUpper), edge]]

/-- `/\b(?:MRN|UHID|Patient\s?ID)\s*[:#-]?\s*[A-Z0-9-]{4,}\b/gi` -/
def mrn : Pattern :=
  cat [edge, any [literal ["Mm", "Rr", "Nn"], literal ["Uu", "Hh", "Ii", "Dd"],
      cat [literal ["Pp", "Aa", "Tt", "Ii", "Ee", "Nn", "Tt"], opt (.one space),
        literal ["Ii", "Dd"]]],
    .star space, opt (char ":#-"), .star space,
    least 4 (plain fun x => isLetter x || isDigit x || among "-" x), edge]

/-- `25[0-5]|2[0-4]\d|1?\d?\d` -/
def octet : Pattern :=
  any [cat [char "2", char "5", .one (plain (range '0' '5'))],
    cat [char "2", .one (plain (range '0' '4')), digits 1],
    cat [opt (char "1"), opt (digits 1), digits 1]]

/-- `/\b(?:(?:25[0-5]|2[0-4]\d|1?\d?\d)\.){3}(?:25[0-5]|2[0-4]\d|1?\d?\d)\b/g` -/
def ip : Pattern :=
  cat [edge, .times (.seq octet (char ".")) 3 3, octet, edge]

/-- `/(?<![\w.])\+?\d[\d\s().-]{8,16}\d(?!\w|\.\d)/g` -/
def phone : Pattern :=
  cat [.notBehind (plain fun x => isWord x || among "." x), opt (char "+"), digits 1,
    .times (.one fun white x => isDigit x || white || among "().-" x) 8 16, digits 1,
    .notAhead (any [.one (plain isWord), cat [char ".", digits 1]])]

/-- The loop of `luhnValid`, from the last digit on. -/
def luhnSum (sum : Nat) (double : Bool) : List UInt16 → Nat
  | [] => sum
  | x :: rest =>
      let n := x.toNat - 48
      let n := if double then n * 2 else n
      let n := if double && 9 < n then n - 9 else n
      luhnSum (sum + n) (!double) rest

def luhnValid (digits : JavaString) : Bool :=
  let d := digits.filter isDigit
  if d.length < 13 || 19 < d.length then false else luhnSum 0 false d.reverse % 10 = 0

structure Detector where
  type : EntityType
  regex : Pattern
  accept : JavaString → Bool

def DETECTORS : List Detector := [
  ⟨.EMAIL, email, fun _ => true⟩,
  ⟨.URL, url, fun _ => true⟩,
  ⟨.CARD, card, luhnValid⟩,
  ⟨.GOV_ID, govId, fun _ => true⟩,
  ⟨.MRN, mrn, fun _ => true⟩,
  ⟨.IP, ip, fun _ => true⟩,
  ⟨.PHONE, phone, fun m => 10 ≤ (m.filter isDigit).length⟩]

def containsPii (text : JavaString) : List EntityType :=
  (DETECTORS.filter fun d => (hits (engine isSpace) d.regex text).any d.accept).map Detector.type

structure TranscriptLine where
  who : JavaString
  text : JavaString

/-- The text of the self-check in `summarizeRedacted`. -/
def joined (transcript : List TranscriptLine) : JavaString :=
  List.intercalate [0x0A] (transcript.map fun l => l.who ++ Utf.ofString ": " ++ l.text)

example : containsPii (Utf.ofString "SSN 123-45-6789, card 4111 1111 1111 1111") =
    [.CARD, .GOV_ID, .PHONE] := by
  decide +kernel

end PiiRedactor
