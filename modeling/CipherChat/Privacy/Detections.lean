import CipherChat.Privacy.Entities

/-!
What the detectors make of a text in which others have put their tokens.
-/

namespace PiiRedactor

open Rooms (JavaString)
open Utf (isSpace)
open Regex

section Detectors

theorem ends_nil {r : Pattern} {x : UInt16} (other : avoids (reads isSpace) x r = true)
    (some : 0 < r.shortest) (before rest : JavaString) :
    ends (engine isSpace) r ⟨before, x :: rest⟩ = [] := by
  rw [List.eq_nil_iff_forall_not_mem]
  intro c member
  obtain ⟨w, word, spans⟩ := spans_of_mem member
  have long := some.trans_le (shortest_le word)
  cases w with
  | nil => cases long
  | cons y w =>
      obtain rfl := (List.cons.inj spans.after).1
      exact not_mem_of_avoids other word List.mem_cons_self

/-- It matches nowhere in a token: not at a bracket, not inside a word, and not from the first letter
of the type on, as the type is followed by `_` too early. -/
structure Shy (r : Pattern) : Prop where
  consumes : r.consumes = true
  long : 7 ≤ r.shortest
  opens : avoids (reads isSpace) 0x5B r = true
  mark : avoids (reads isSpace) 0x5F r = true
  closes : avoids (reads isSpace) 0x5D r = true
  apart : ∀ before x y rest, isWord x = true → isWord y = true →
    ends (engine isSpace) r ⟨x :: before, y :: rest⟩ = []

theorem edge_apart (r : Pattern) (before : JavaString) (x y : UInt16) (rest : JavaString)
    (isX : isWord x = true) (isY : isWord y = true) :
    ends (engine isSpace) (.seq edge r) ⟨x :: before, y :: rest⟩ = [] := by
  simp [ends, edge, isX, isY]

/-- The detectors behind those for e-mail addresses and links. -/
theorem shy_of_mem {d : Detector} (member : d ∈ DETECTORS.drop 2) : Shy d.regex := by
  have checked : ∀ d ∈ DETECTORS.drop 2, d.regex.consumes = true ∧ 7 ≤ d.regex.shortest ∧
      avoids (reads isSpace) 0x5B d.regex = true ∧ avoids (reads isSpace) 0x5F d.regex = true ∧
      avoids (reads isSpace) 0x5D d.regex = true := by
    decide
  obtain ⟨consumes, long, opens, mark, closes⟩ := checked d member
  refine ⟨consumes, long, opens, mark, closes, fun before x y rest isX isY => ?_⟩
  simp only [DETECTORS, List.drop_succ_cons, List.drop_zero, List.mem_cons, List.not_mem_nil,
    or_false] at member
  rcases member with rfl | rfl | rfl | rfl | rfl
  · exact edge_apart _ before x y rest isX isY
  · have first := edge_apart (cat [digits 3, char "-", digits 2, char "-", digits 4, edge])
      before x y rest isX isY
    have second := edge_apart (cat [digits 4, .one space, digits 4, .one space, digits 4, edge])
      before x y rest isX isY
    have third := edge_apart (cat [.times (.one (plain isUpper)) 5 5, digits 4, .one (plain isUpper), edge])
      before x y rest isX isY
    simp only [govId, any, cat, ends] at first second third ⊢
    rw [first, second, third]
    rfl
  · exact edge_apart _ before x y rest isX isY
  · exact edge_apart _ before x y rest isX isY
  · simp [phone, cat, ends, reads, plain, isX]

theorem Shy.stuck {r : Pattern} (shy : Shy r) {t first rest : JavaString} (isToken : IsToken t)
    (same : t = first ++ rest) (some : rest ≠ []) (before after : JavaString) :
    ends (engine isSpace) r ⟨first.reverse ++ before, rest ++ after⟩ = [] := by
  have long : 0 < r.shortest := Nat.zero_lt_of_lt shy.long
  obtain ⟨type, ds, _, all, rfl⟩ := isToken_iff.mp isToken
  cases first with
  | nil =>
      rw [List.nil_append] at same
      rw [← same]
      exact ends_nil shy.opens long _ _
  | cons x first =>
      rw [List.cons_append, List.cons_append] at same
      obtain ⟨rfl, same'⟩ := List.cons.inj same
      rcases List.eq_nil_or_concat rest with rfl | ⟨rest, z, rfl⟩
      · exact absurd rfl some
      · rw [List.concat_eq_append, ← List.append_assoc] at same'
        obtain ⟨isCore, isEnd⟩ := List.append_inj' same' rfl
        obtain rfl := (List.cons.inj isEnd).1
        have isWord' : ∀ x ∈ Utf.ofString type.name ++ 0x5F :: ds, isWord x = true := isWord_core all
        rw [isCore] at isWord'
        cases rest with
        | nil => exact ends_nil shy.closes long _ _
        | cons y rest =>
            rcases List.eq_nil_or_concat first with rfl | ⟨first, x, rfl⟩
            · rw [List.eq_nil_iff_forall_not_mem]
              intro c member
              obtain ⟨w, word, spans⟩ := spans_of_mem member
              rw [List.nil_append] at isCore
              rw [List.concat_eq_append, ← isCore] at spans
              have early : w <+: Utf.ofString type.name ++ 0x5F :: (ds ++ [0x5D] ++ after) :=
                ⟨c.after, by simpa using spans.after.symm⟩
              have short : w.length ≤ (Utf.ofString type.name).length := by
                by_contra more
                rw [Nat.not_le] at more
                obtain ⟨w', rfl⟩ := List.prefix_of_prefix_length_le (List.prefix_append _ _) early more.le
                rw [List.prefix_append_right_inj] at early
                cases w' with
                | nil => simp at more
                | cons y' w' =>
                    obtain rfl := (List.cons_prefix_cons.mp early).1
                    exact not_mem_of_avoids shy.mark word (by simp)
              have enough := shy.long.trans (shortest_le word)
              have six := length_name_le type
              omega
            · rw [List.concat_eq_append, List.reverse_cons, List.reverse_append, List.reverse_singleton]
              exact shy.apart _ x y _ (isWord' x (by simp)) (isWord' y (by simp))

theorem Shy.swallowed_pieces {r : Pattern} (shy : Shy r) (accept : JavaString → Bool) {fuel : Nat}
    {c : Cursor UInt16} (enough : c.after.length < fuel) :
    swallowed (accepted accept (pieces (engine isSpace) r fuel c)) = [] := by
  induction fuel generalizing c with
  | zero => cases enough
  | succ fuel ih =>
      rcases pieces_cases shy.consumes enough with ⟨_, isNil⟩ | ⟨w, c', word, _, _, less, isHit⟩ |
          ⟨x, rest, isCons, _, less, isGap⟩
      · rw [isNil]
        rfl
      · have plain := not_mem_of_avoids shy.opens word
        have later := ih less
        rw [isHit, accepted, List.flatMap_cons, ← accepted]
        simp only
        split
        · rw [List.singleton_append, swallowed, beginIn_eq_nil plain, later]
          rfl
        · exact swallowed_plain plain later
      · have later := ih (c := ⟨x :: c.before, rest⟩) less
        have isWhole : whole (pieces (engine isSpace) r fuel ⟨x :: c.before, rest⟩) = rest :=
          whole_pieces shy.consumes less
        have here : cutOff x (accepted accept (pieces (engine isSpace) r fuel ⟨x :: c.before, rest⟩)) = [] := by
          rw [cutOff, whole_accepted, isWhole]
          cases found : tokenAt (x :: rest) with
          | none => rfl
          | some t =>
              obtain ⟨isToken, more, same⟩ := tokenAt_eq_some.mp found
              obtain ⟨core, rfl, _⟩ := brackets isToken
              rw [List.cons_append] at same
              obtain ⟨rfl, rfl⟩ := List.cons.inj same
              obtain ⟨k, rfl⟩ := Nat.exists_eq_add_of_le' (show (core ++ [0x5D]).length ≤ fuel by
                simp only [List.length_append] at less ⊢
                omega)
              have none : ∀ first last, core ++ [0x5D] = first ++ last → last ≠ [] →
                  ends (engine isSpace) r ⟨first.reverse ++ 0x5B :: c.before, last ++ more⟩ = [] := by
                intro first last isSplit some
                have same : 0x5B :: (core ++ [0x5D]) = (0x5B :: first) ++ last := by rw [isSplit]; rfl
                simpa using shy.stuck isToken same some c.before more
              have gaps : pieces (engine isSpace) r (k + (core ++ [0x5D]).length)
                  ⟨0x5B :: c.before, core ++ [0x5D] ++ more⟩ = (core ++ [0x5D]).map .gap ++
                    pieces (engine isSpace) r k ⟨(core ++ [0x5D]).reverse ++ 0x5B :: c.before, more⟩ :=
                pieces_through none
              have all := all_gaps (core ++ [0x5D]) (accepted accept
                (pieces (engine isSpace) r k ⟨(core ++ [0x5D]).reverse ++ 0x5B :: c.before, more⟩))
              have length : (0x5B :: (core ++ [0x5D])).length - 1 = (core ++ [0x5D]).length := rfl
              simp only [gaps, accepted_gaps, Option.toList_some, List.filter_cons, List.filter_nil, length,
                all, Bool.not_true, Bool.false_eq_true, if_false]
        rw [isGap, accepted, List.flatMap_cons, ← accepted, List.singleton_append, swallowed, here, later]
        rfl

/-- None of these takes a part of a token, whatever the text. -/
theorem spared_of_shy {d : Detector} (member : d ∈ DETECTORS.drop 2) (text : JavaString) :
    swallowed (d.pass.cut text) = [] :=
  (shy_of_mem member).swallowed_pieces d.accept (Nat.lt_succ_self _)

end Detectors

section Simulation

variable {u : Unicode} {keys : EntityType → List (EntityType × JavaString)}

variable (u keys) in
/-- To the engine an entity is what its token is: neither bracket is a part of a word. -/
theorem renders : Renders (engine isSpace) itemEngine 0x5B 0x5D (label u keys) where
  stands i := by
    cases i with
    | unit x => exact .one x fun _ => rfl
    | entity type value =>
        obtain ⟨core, isToken, _⟩ := brackets (isToken_tokenOf type _)
        rw [label, isToken]
        exact .block core fun _ => rfl
  edge c := by
    obtain ⟨before, after⟩ := c
    have left : (expand (label u keys) ⟨before, after⟩).before.head?.any isWord =
        before.head?.any Item.isWord := by
      cases before with
      | nil => rfl
      | cons i rest =>
          cases i with
          | unit x => rfl
          | entity type value =>
              obtain ⟨core, isToken, _⟩ := brackets (isToken_tokenOf type
                ((keys type).idxOf (keyOf u type value) + 1))
              simp [expand, label, isToken, Item.isWord]
              decide
    have right : (expand (label u keys) ⟨before, after⟩).after.head?.any isWord =
        after.head?.any Item.isWord := by
      cases after with
      | nil => rfl
      | cons i rest =>
          cases i with
          | unit x => rfl
          | entity type value =>
              obtain ⟨core, isToken, _⟩ := brackets (isToken_tokenOf type
                ((keys type).idxOf (keyOf u type value) + 1))
              simp [expand, label, isToken, Item.isWord]
              decide
    exact congrArg₂ (· != ·) left right

theorem follows_unit {r : Pattern} {c : Cursor Item}
    (head : (ends (engine isSpace) r (expand (label u keys) c)).head? =
      ((ends itemEngine r c).head?).map (expand (label u keys)))
    (inside : ∀ type value rest first last, c.after = .entity type value :: rest →
      label u keys (.entity type value) = first ++ last → first ≠ [] → last ≠ [] →
      ends (engine isSpace) r ⟨first.reverse ++ (expand (label u keys) c).before,
        last ++ rest.flatMap (label u keys)⟩ = []) :
    Follows (engine isSpace) itemEngine (label u keys) r c where
  head := head
  inside i rest first last isAfter isBlock some more := by
    cases i with
    | unit x =>
        cases first with
        | nil => exact absurd rfl some
        | cons y first =>
            obtain ⟨_, isNil⟩ := List.cons.inj (show x :: [] = y :: (first ++ last) from isBlock)
            exact absurd (List.append_eq_nil_iff.mp isNil.symm).2 more
    | entity type value => exact inside type value rest first last isAfter isBlock some more

/-- A detector behind those for e-mail addresses and links finds the same in the text of tokens. -/
theorem cut_shown {d : Detector} (member : d ∈ DETECTORS.drop 2) (items : List Item) :
    cut (engine isSpace) d.regex (items.flatMap (label u keys)) =
      (cut itemEngine d.regex items).flatMap (expandPiece (label u keys)) := by
  have shy := shy_of_mem member
  have checked : ∀ d ∈ DETECTORS.drop 2, shuns (reads isSpace) 0x5B d.regex = true ∧
      shuns (reads isSpace) 0x5D d.regex = true := by
    decide
  obtain ⟨left, right⟩ := checked d member
  refine cutFrom_expand shy.consumes (I := fun _ => True) (fun c _ => ?_) (fun _ _ _ _ => trivial)
    (fun _ _ _ _ => trivial) (c := ⟨[], items⟩) trivial
  refine follows_unit ?_ fun type value rest first last _ isToken _ more => ?_
  · rw [ends_expand (renders u keys) left right, List.head?_map]
  · exact shy.stuck (isToken_tokenOf type _) isToken more _ _

/-- In a text without entities there is nothing to take for a token. -/
theorem cut_units {d : Detector} (consumes : d.regex.consumes = true)
    (left : shuns (reads isSpace) 0x5B d.regex = true) (right : shuns (reads isSpace) 0x5D d.regex = true)
    (text : JavaString) : cut (engine isSpace) d.regex ((text.map Item.unit).flatMap (label u keys)) =
      (cut itemEngine d.regex (text.map .unit)).flatMap (expandPiece (label u keys)) := by
  refine cutFrom_expand consumes (I := fun c => ∀ type value, Item.entity type value ∉ c.after)
    (fun c none => ?_) (fun _ _ _ none type value member => none type value (List.mem_cons_of_mem _ member))
    (fun c c' none found type value member => ?_) (c := ⟨[], text.map .unit⟩) fun type value member => ?_
  · refine follows_unit ?_ fun type value rest _ _ isAfter _ _ _ => ?_
    · rw [ends_expand (renders u keys) left right, List.head?_map]
    · exact absurd (isAfter ▸ List.mem_cons_self) (none type value)
  · obtain ⟨w, _, spans⟩ := spans_of_mem (List.mem_of_head? found)
    exact none type value (spans.after ▸ List.mem_append_right _ member)
  · simp at member

end Simulation

end PiiRedactor
