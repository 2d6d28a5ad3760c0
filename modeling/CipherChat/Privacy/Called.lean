import CipherChat.Privacy.Rehydrate

/-!
Where the names of the dictionary stand in a text as whole words, from left to right: what the
expression of the names finds.
-/

namespace PiiRedactor

open Rooms (JavaString)
open Regex

variable (u : Unicode)

/-- The text begins with the name, in any case. -/
def begins : List Character → List Character → Bool
  | [], _ => true
  | _ :: _, [] => false
  | x :: name, y :: text => u.fold y = u.fold x && begins name text

/-- How long the first of the names is that the text begins with, up to the end of a word. -/
def calledHere (names : List JavaString) (text : List Character) : Option Nat :=
  (names.find? fun n => begins u (characters n) text &&
    !(text.drop (characters n).length).head?.any u.isWord).map fun n => (characters n).length

/-- The text cut into the names, none of which begins inside a word, and what is between them. -/
def calls (names : List JavaString) : Nat → Option Character → List Character → List (Piece Character)
  | 0, _, _ => []
  | _ + 1, _, [] => []
  | fuel + 1, last, x :: rest =>
      match if last.any u.isWord then none else calledHere u names (x :: rest) with
      | some k => .hit ((x :: rest).take k) ::
          calls names fuel ((x :: rest).take k).getLast? ((x :: rest).drop k)
      | none => .gap x :: calls names fuel (some x) rest

/-- The text with its names, in UTF-16 units. -/
def callsIn (names : List JavaString) (text : JavaString) : List (Piece UInt16) :=
  units (calls u (dictionary names).eraseDups ((characters text).length + 1) none (characters text))

variable {u}

section Names

theorem flatten_characters (text : JavaString) : (characters text).flatten = text := by
  induction text using characters.induct with
  | case1 => rfl
  | case2 x => rfl
  | case3 x y rest pair ih => rw [characters, if_pos pair, List.flatten_cons, ih]; rfl
  | case4 x y rest single ih => rw [characters, if_neg single, List.flatten_cons, ih]; rfl

theorem whole_units (ps : List (Piece Character)) : whole (units ps) = (whole ps).flatten := by
  induction ps with
  | nil => rfl
  | cons p ps ih =>
      rw [units, List.flatMap_cons, whole_append, ← units, ih]
      cases p with
      | gap x => simp
      | hit m => simp

theorem consumes_escape {s : JavaString} (some : s ≠ []) : (escapeRegex u s).consumes = true := by
  have first : characters s ≠ [] := by
    intro none
    rw [← flatten_characters s, none] at some
    exact some rfl
  obtain ⟨x, rest, isCons⟩ := List.exists_cons_of_ne_nil first
  rw [escapeRegex, isCons]
  rfl

theorem consumes_joinOr {rs : List NameRegex} (some : rs ≠ []) (all : ∀ r ∈ rs, r.consumes = true) :
    (joinOr rs).consumes = true := by
  induction rs with
  | nil => exact absurd rfl some
  | cons r rs ih =>
      have first := all r List.mem_cons_self
      cases rs with
      | nil => exact first
      | cons r' rs =>
          rw [joinOr, consumes, first, ih (List.cons_ne_nil _ _) fun q member =>
            all q (List.mem_cons_of_mem _ member)]
          · rfl
          · simp

theorem dictionary_some {names : List JavaString} {n : JavaString} (member : n ∈ dictionary names) :
    n ≠ [] := by
  rw [dictionary, List.mem_insertionSort, List.mem_flatMap] at member
  obtain ⟨name, isName, here⟩ := member
  rintro rfl
  rcases List.mem_cons.mp here with rfl | isPart
  · have long := (List.mem_filter.mp (List.mem_eraseDups.mp isName)).2
    simp at long
  · have long := (List.mem_filter.mp isPart).2
    simp at long

/-- The names and their parts, each once. -/
theorem names_of_regex {names : List JavaString} {regex : NameRegex} (found : nameRegex u names = some regex) :
    (dictionary names).eraseDups ≠ [] ∧ regex = .seq (.notBehind u.isWord)
      (.seq (joinOr ((dictionary names).eraseDups.map (escapeRegex u))) (.notAhead (.one u.isWord))) := by
  rw [nameRegex] at found
  split at found
  next => cases found
  next some =>
    obtain ⟨n, rest, isCons⟩ := List.exists_cons_of_ne_nil some
    refine ⟨fun none => ?_, (Option.some.inj found).symm⟩
    have member : n ∈ (dictionary names).eraseDups := by
      rw [List.mem_eraseDups, isCons]
      exact List.mem_cons_self
    rw [none] at member
    cases member

theorem consumes_names {names : List JavaString} {regex : NameRegex} (found : nameRegex u names = some regex) :
    regex.consumes = true := by
  obtain ⟨some, rfl⟩ := names_of_regex found
  have first : joinOr ((dictionary names).eraseDups.map (escapeRegex u)) |>.consumes := by
    refine consumes_joinOr (by simpa using some) fun r member => ?_
    obtain ⟨n, listed, rfl⟩ := List.mem_map.mp member
    exact consumes_escape (dictionary_some (List.mem_eraseDups.mp listed))
  simp [Regex.consumes, first]

end Names

section Calls

theorem ends_escape (n : JavaString) (c : Cursor Character) : ends nameEngine (escapeRegex u n) c =
    if begins u (characters n) c.after then [⟨(c.after.take (characters n).length).reverse ++ c.before,
      c.after.drop (characters n).length⟩] else [] := by
  rw [escapeRegex]
  induction characters n generalizing c with
  | nil => rfl
  | cons x name ih =>
      obtain ⟨before, after⟩ := c
      cases after with
      | nil => rfl
      | cons y text =>
          have first : ends nameEngine (.one fun y => u.fold y = u.fold x) ⟨before, y :: text⟩ =
              if u.fold y = u.fold x then [⟨y :: before, text⟩] else [] := by
            simp [ends, nameEngine]
          rw [List.foldr_cons, ends, first, begins]
          split
          next same =>
            rw [List.flatMap_singleton, ih, decide_eq_true same, Bool.true_and]
            simp
          next other =>
            rw [decide_eq_false other, Bool.false_and]
            rfl

theorem ends_joinOr {rs : List NameRegex} (some : rs ≠ []) (c : Cursor Character) :
    ends nameEngine (joinOr rs) c = rs.flatMap fun r => ends nameEngine r c := by
  induction rs with
  | nil => exact absurd rfl some
  | cons r rs ih =>
      cases rs with
      | nil => simp [joinOr]
      | cons r' rs =>
          change ends nameEngine r c ++ ends nameEngine (joinOr (r' :: rs)) c = _
          rw [ih (List.cons_ne_nil _ _)]
          rfl

theorem ends_ahead (k : Character → Bool) (c : Cursor Character) :
    ends nameEngine (.notAhead (.one k)) c = if c.after.head?.any k then [] else [c] := by
  obtain ⟨before, after⟩ := c
  cases after with
  | nil => rfl
  | cons x rest =>
      cases isOne : k x with
      | true => simp [ends, nameEngine, isOne]
      | false => simp [ends, nameEngine, isOne]

/-- The first match of the expression of the names is the first name that stands there. -/
theorem head_names {names : List JavaString} (some : names ≠ []) (c : Cursor Character) :
    (ends nameEngine (.seq (.notBehind u.isWord) (.seq (joinOr (names.map (escapeRegex u)))
      (.notAhead (.one u.isWord)))) c).head? =
        (if c.before.head?.any u.isWord then none else calledHere u names c.after).map fun k =>
          ⟨(c.after.take k).reverse ++ c.before, c.after.drop k⟩ := by
  have guard : ends nameEngine (.notBehind u.isWord) c =
      if c.before.head?.any u.isWord then [] else [c] := rfl
  rw [ends, guard]
  split
  next => rfl
  next =>
    rw [List.flatMap_singleton, ends, ends_joinOr (by simpa using some), List.flatMap_map, List.flatMap_assoc,
      List.head?_flatMap, calledHere, Option.map_map]
    clear some guard
    induction names with
    | nil => rfl
    | cons n names ih =>
        rw [List.findSome?_cons, List.find?_cons, ends_escape]
        cases here : begins u (characters n) c.after with
        | false => simpa using ih
        | true =>
            rw [if_pos rfl, List.flatMap_singleton, ends_ahead]
            cases next : (c.after.drop (characters n).length).head?.any u.isWord with
            | true => exact ih
            | false => rfl

theorem calledHere_long {names : List JavaString} (some : ∀ n ∈ names, n ≠ []) {text : List Character} {k : Nat}
    (found : calledHere u names text = .some k) : text.take k ≠ [] := by
  obtain ⟨n, isName, rfl⟩ := Option.map_eq_some_iff.mp found
  have stands := List.find?_some isName
  rw [Bool.and_eq_true] at stands
  obtain ⟨x, name, isCons⟩ : ∃ x name, characters n = x :: name := by
    cases isNil : characters n with
    | nil =>
        have whole := flatten_characters n
        rw [isNil] at whole
        exact absurd whole.symm (some n (List.mem_of_find?_eq_some isName))
    | cons x name => exact ⟨x, name, rfl⟩
  rw [isCons] at stands ⊢
  cases text with
  | nil => cases stands.1
  | cons y text => simp

/-- What the expression of the names finds are the names, one after the other. -/
theorem pieces_calls {names : List JavaString} (some : names ≠ []) (each : ∀ n ∈ names, n ≠ [])
    {regex : NameRegex} (isRegex : regex = .seq (.notBehind u.isWord)
      (.seq (joinOr (names.map (escapeRegex u))) (.notAhead (.one u.isWord))))
    (consumes : regex.consumes = true) (fuel : Nat) (c : Cursor Character) :
    pieces nameEngine regex fuel c = calls u names fuel c.before.head? c.after := by
  induction fuel generalizing c with
  | zero => rfl
  | succ fuel ih =>
      obtain ⟨before, after⟩ := c
      cases after with
      | nil => exact pieces_nil consumes _ _
      | cons x rest =>
          have head := head_names (u := u) some ⟨before, x :: rest⟩
          rw [← isRegex] at head
          rw [calls]
          cases found : (if before.head?.any u.isWord then none else calledHere u names (x :: rest)) with
          | none =>
              rw [found, Option.map_none, List.head?_eq_none_iff] at head
              rw [pieces_of_none head, ih]
              rfl
          | some k =>
              have here : calledHere u names (x :: rest) = .some k := by
                split at found
                · cases found
                · exact found
              have long := calledHere_long each here
              rw [found, Option.map_some] at head
              have spans : Spans ⟨before, x :: rest⟩ ((x :: rest).take k)
                  ⟨((x :: rest).take k).reverse ++ before, (x :: rest).drop k⟩ :=
                ⟨(List.take_append_drop k (x :: rest)).symm, rfl⟩
              rw [pieces_of_mem consumes head spans, ih]
              have last : (((x :: rest).take k).reverse ++ before).head? = ((x :: rest).take k).getLast? := by
                rw [List.head?_append, List.head?_reverse, List.getLast?_eq_some_getLast long, Option.some_or]
              simp only [last]

/-- The pass of the names cuts the text into the names that are called in it. -/
theorem split_names {names : List JavaString} {regex : NameRegex} (found : nameRegex u names = some regex)
    (text : JavaString) : (namePass regex).split text = callsIn u names text := by
  obtain ⟨some, isRegex⟩ := names_of_regex found
  exact congrArg units (pieces_calls some (fun n member => dictionary_some (List.mem_eraseDups.mp member))
    isRegex (consumes_names found) _ ⟨[], characters text⟩)

/-- Without names there is nothing to call. -/
theorem callsIn_nil {names : List JavaString} (none : dictionary names = []) (text : JavaString) :
    callsIn u names text = text.map .gap := by
  have gaps (fuel : Nat) (last : Option Character) (cs : List Character) (enough : cs.length < fuel) :
      calls u [] fuel last cs = cs.map .gap := by
    induction fuel generalizing last cs with
    | zero => cases enough
    | succ fuel ih =>
        cases cs with
        | nil => rfl
        | cons x rest =>
            have nobody : (if last.any u.isWord then Option.none else calledHere u [] (x :: rest)) = .none := by
              split <;> rfl
            rw [calls, nobody]
            simp only
            rw [ih (some x) rest (Nat.lt_of_succ_lt_succ enough), List.map_cons]
  have flat (cs : List Character) : units (cs.map .gap) = cs.flatten.map .gap := by
    induction cs with
    | nil => rfl
    | cons x cs ih => rw [List.map_cons, units, List.flatMap_cons, ← units, ih]; simp
  rw [callsIn, none, List.eraseDups_nil, gaps _ _ _ (Nat.lt_succ_self _), flat, flatten_characters]

end Calls

end PiiRedactor
