import Mathlib.Data.List.Sort
import CipherChat.Privacy.PiiRedactor
import CipherChat.Text.Language

/-!
One redaction session: the passes of `PiiRedactor.redact` over a text, the tokens that they hand
out, and `rehydrate`. What a browser knows of Unicode is a parameter.
-/

namespace PiiRedactor

open Rooms (JavaString)
open Utf (isSpace)
open Regex

def EntityType.name : EntityType → String
  | .PERSON => "PERSON"
  | .EMAIL => "EMAIL"
  | .PHONE => "PHONE"
  | .CARD => "CARD"
  | .GOV_ID => "GOV_ID"
  | .MRN => "MRN"
  | .IP => "IP"
  | .URL => "URL"

def spelled (s : String) : Pattern :=
  literal (s.toList.map Char.toString)

/-- `PERSON|EMAIL|PHONE|CARD|GOV_ID|MRN|IP|URL` -/
def anyType : Pattern :=
  any ([EntityType.PERSON, .EMAIL, .PHONE, .CARD, .GOV_ID, .MRN, .IP, .URL].map fun type =>
    spelled type.name)

/-- `/\[(PERSON|EMAIL|PHONE|CARD|GOV_ID|MRN|IP|URL)_(\d+)\]/g` -/
def TOKEN : Pattern :=
  .seq (char "[") (.seq (.seq anyType (.seq (char "_") (plus (plain isDigit)))) (char "]"))

section Names

/-- What the flag `u` takes for one character. -/
abbrev Character := JavaString

def characters : JavaString → List Character
  | [] => []
  | [x] => [[x]]
  | x :: y :: rest =>
      if Utf.isHigh x && Utf.isLow y then [x, y] :: characters rest
      else [x] :: characters (y :: rest)

structure Unicode where
  /-- Simple case folding. -/
  fold : Character → Character
  /-- `[\p{L}\p{N}_]` with the flags `iu`. -/
  isWord : Character → Bool
  toLowerCase : JavaString → JavaString
  /-- Only letters have a case. -/
  count_lower : ∀ s x, x.toNat < 0x80 → isLetter x = false → (toLowerCase s).count x = s.count x

def trim (s : JavaString) : JavaString :=
  ((s.dropWhile isSpace).reverse.dropWhile isSpace).reverse

/-- The parts of a name; empty ones are too short. -/
def partsOf (n : JavaString) : List JavaString :=
  (n.splitOnP isSpace).filter fun p => 3 ≤ p.length

/-- The names and their parts, the longest first. -/
def dictionary (names : List JavaString) : List JavaString :=
  (((names.map trim).filter fun n => 2 ≤ n.length).eraseDups.flatMap fun n => n :: partsOf n).insertionSort
    fun a b => b.length ≤ a.length

abbrev NameRegex := Regex (Character → Bool)

variable (u : Unicode)

/-- The name as it stands, in any case. -/
def escapeRegex (s : JavaString) : NameRegex :=
  (characters s).foldr (fun x r => .seq (.one fun y => u.fold y = u.fold x) r) .empty

def joinOr : List NameRegex → NameRegex
  | [] => .empty
  | [r] => r
  | r :: rest => .alt r (joinOr rest)

def nameRegex (names : List JavaString) : Option NameRegex :=
  if dictionary names = [] then none
  else some (.seq (.notBehind u.isWord) (.seq (joinOr ((dictionary names).eraseDups.map (escapeRegex u)))
    (.notAhead (.one u.isWord))))

end Names

/-- The fields of a `PiiRedactor`. -/
structure Session where
  byValue : List ((EntityType × JavaString) × JavaString) := []
  map : List (JavaString × JavaString) := []
  counters : EntityType → Nat := fun _ => 0

variable (u : Unicode)

def tokenOf (type : EntityType) (n : Nat) : JavaString :=
  Utf.ofString ("[" ++ type.name ++ "_" ++ toString n ++ "]")

/-- The value under which a token is remembered. -/
def keyOf (type : EntityType) (value : JavaString) : EntityType × JavaString :=
  (type, if type = .PERSON ∨ type = .EMAIL then u.toLowerCase value else value)

def tokenFor (type : EntityType) (value : JavaString) (r : Session) : JavaString × Session :=
  let key := keyOf u type value
  match r.byValue.lookup key with
  | some existing => (existing, r)
  | none =>
      let n := r.counters type + 1
      let token := tokenOf type n
      (token, {
        byValue := r.byValue ++ [(key, token)]
        map := r.map ++ [(token, value)]
        counters := Function.update r.counters type n })

/-- `text.replace`, when the text is cut into the matches and what is between them. -/
def replace (type : EntityType) (accept : JavaString → Bool) :
    List (Piece UInt16) → Session → JavaString × Session
  | [], r => ([], r)
  | .gap x :: rest, r =>
      let (text, r) := replace type accept rest r
      (x :: text, r)
  | .hit m :: rest, r =>
      if accept m then
        let (token, r) := tokenFor u type m r
        let (text, r) := replace type accept rest r
        (token ++ text, r)
      else
        let (text, r) := replace type accept rest r
        (m ++ text, r)

/-- One expression and what becomes of its matches. -/
structure Pass where
  type : EntityType
  split : JavaString → List (Piece UInt16)
  accept : JavaString → Bool

def Detector.pass (d : Detector) : Pass :=
  ⟨d.type, cut (engine isSpace) d.regex, d.accept⟩

def units (ps : List (Piece Character)) : List (Piece UInt16) :=
  ps.flatMap fun
    | .gap x => x.map .gap
    | .hit m => [.hit m.flatten]

/-- Its `\b` does not matter, as no name expression has one. -/
def nameEngine : Engine (Character → Bool) Character where
  is k x := k x
  edge _ := false

def namePass (regex : NameRegex) : Pass :=
  ⟨.PERSON, fun text => units (cut nameEngine regex (characters text)), fun _ => true⟩

def Pass.run (p : Pass) (now : JavaString × Session) : JavaString × Session :=
  replace u p.type p.accept (p.split now.1) now.2

/-- The text and the session when these passes are done. -/
def runAll (passes : List Pass) (input : JavaString) (r : Session) : JavaString × Session :=
  passes.foldl (fun now p => p.run u now) (input, r)

def passes (names : List JavaString) : List Pass :=
  DETECTORS.map Detector.pass ++ (nameRegex u names).toList.map namePass

structure RedactionResult where
  text : JavaString
  map : List (JavaString × JavaString)
  counts : EntityType → Nat

def redact (input : JavaString) (names : List JavaString) : RedactionResult :=
  let (text, r) := runAll u (passes u names) input {}
  ⟨text, r.map, r.counters⟩

/-- What stands for a token when the text is put together again. -/
def valueOf (map : List (JavaString × JavaString)) (token : JavaString) : JavaString :=
  (map.lookup token).getD token

def rehydrate (text : JavaString) (map : List (JavaString × JavaString)) : JavaString :=
  (cut (engine isSpace) TOKEN text).flatMap fun
    | .gap x => [x]
    | .hit token => valueOf map token

end PiiRedactor
