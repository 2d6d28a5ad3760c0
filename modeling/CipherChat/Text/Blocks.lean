import CipherChat.Text.Language

/-!
A text of symbols, of which each stands for a character or for a block of characters between two
brackets.  An expression that knows neither bracket finds the same in the symbols and in the text.
-/

namespace Regex

variable {κ α β : Type}

/-- No class of the expression has the character. -/
def shuns (is : κ → α → Bool) (x : α) : Regex κ → Bool
  | one k | star k | notBehind k => !is k x
  | seq first second | alt first second => shuns is x first && shuns is x second
  | times body _ _ | notAhead body => shuns is x body
  | empty | boundary => true

/-- What a symbol stands for; one that stands for a block is in no class. -/
inductive Stands (e : Engine κ α) (e' : Engine κ β) (opens closes : α) (b : β) : List α → Prop
  | one (x : α) : (∀ k, e'.is k b = e.is k x) → Stands e e' opens closes b [x]
  | block (core : List α) : (∀ k, e'.is k b = false) →
      Stands e e' opens closes b (opens :: (core ++ [closes]))

variable {block : β → List α}

/-- The same place in the text. -/
def expand (block : β → List α) (c : Cursor β) : Cursor α :=
  ⟨c.before.flatMap fun b => (block b).reverse, c.after.flatMap block⟩

/-- The two engines see the same, each in its own text. -/
structure Renders (e : Engine κ α) (e' : Engine κ β) (opens closes : α) (block : β → List α) : Prop where
  stands : ∀ b, Stands e e' opens closes b (block b)
  edge : ∀ c, e.edge (expand block c) = e'.edge c

section Ends

variable {e : Engine κ α} {e' : Engine κ β} {opens closes : α}

theorem starEnds_expand {p : α → Bool} {q : β → Bool} (unseen : p opens = false)
    (each : ∀ b, (∃ x, block b = [x] ∧ q b = p x) ∨ (∃ core, block b = opens :: core) ∧ q b = false)
    (before after : List β) : starEnds p (expand block ⟨before, after⟩).before
      (expand block ⟨before, after⟩).after = (starEnds q before after).map (expand block) := by
  induction after generalizing before with
  | nil => rfl
  | cons b rest ih =>
      rcases each b with ⟨x, isBlock, same⟩ | ⟨⟨core, isBlock⟩, none⟩
      · have later := ih (b :: before)
        simp only [expand, List.flatMap_cons, isBlock, List.reverse_singleton, List.singleton_append] at later
        simp only [expand, List.flatMap_cons, isBlock, List.singleton_append, starEnds, same]
        split
        · rw [later, List.map_append, List.map_singleton]
          simp [expand, isBlock]
        · simp [expand, isBlock]
      · simp [expand, isBlock, starEnds, unseen, none]

theorem exactly_expand {step : Cursor α → List (Cursor α)} {step' : Cursor β → List (Cursor β)}
    (same : ∀ c, step (expand block c) = (step' c).map (expand block)) (n : Nat) (c : Cursor β) :
    exactly step n (expand block c) = (exactly step' n c).map (expand block) := by
  induction n generalizing c with
  | zero => rfl
  | succ n ih =>
      rw [exactly, exactly, same, List.flatMap_map, List.map_flatMap]
      exact List.flatMap_congr fun c' _ => ih c'

theorem atMost_expand {step : Cursor α → List (Cursor α)} {step' : Cursor β → List (Cursor β)}
    (same : ∀ c, step (expand block c) = (step' c).map (expand block)) (n : Nat) (c : Cursor β) :
    atMost step n (expand block c) = (atMost step' n c).map (expand block) := by
  induction n generalizing c with
  | zero => rfl
  | succ n ih =>
      rw [atMost, atMost, same, List.flatMap_map, List.map_append, List.map_flatMap, List.map_singleton]
      exact congrArg (· ++ [expand block c]) (List.flatMap_congr fun c' _ => ih c')

variable (renders : Renders e e' opens closes block)

include renders

theorem ends_expand {r : Regex κ} (left : shuns e.is opens r = true) (right : shuns e.is closes r = true)
    (c : Cursor β) : ends e r (expand block c) = (ends e' r c).map (expand block) := by
  induction r generalizing c with
  | empty => rfl
  | one k =>
      obtain ⟨before, after⟩ := c
      cases after with
      | nil => rfl
      | cons b rest =>
          have stands := renders.stands b
          generalize isBlock : block b = w at stands
          cases stands with
          | one x same =>
              simp only [ends, expand, List.flatMap_cons, isBlock, List.singleton_append, same k]
              split <;> simp [expand, isBlock]
          | block core none =>
              rw [shuns, Bool.not_eq_true'] at left
              simp [ends, expand, isBlock, left, none k]
  | star k =>
      rw [shuns, Bool.not_eq_true'] at left
      refine starEnds_expand left (fun b => ?_) c.before c.after
      have stands := renders.stands b
      generalize block b = w at stands
      cases stands with
      | one x same => exact .inl ⟨x, rfl, same k⟩
      | block core none => exact .inr ⟨⟨_, rfl⟩, none k⟩
  | seq first second ih₁ ih₂ =>
      obtain ⟨left₁, left₂⟩ := Bool.and_eq_true_iff.mp left
      obtain ⟨right₁, right₂⟩ := Bool.and_eq_true_iff.mp right
      rw [ends, ends, ih₁ left₁ right₁, List.flatMap_map, List.map_flatMap]
      exact List.flatMap_congr fun c' _ => ih₂ left₂ right₂ c'
  | alt first second ih₁ ih₂ =>
      obtain ⟨left₁, left₂⟩ := Bool.and_eq_true_iff.mp left
      obtain ⟨right₁, right₂⟩ := Bool.and_eq_true_iff.mp right
      rw [ends, ends, ih₁ left₁ right₁, ih₂ left₂ right₂, List.map_append]
  | times body least most ih =>
      have each := fun c' => ih left right c'
      rw [ends, ends, exactly_expand each, List.flatMap_map, List.map_flatMap]
      exact List.flatMap_congr fun c' _ => atMost_expand each _ c'
  | boundary =>
      simp only [ends, renders.edge c]
      split <;> rfl
  | notBehind k =>
      obtain ⟨before, after⟩ := c
      rw [shuns, Bool.not_eq_true'] at right
      have same : (expand block ⟨before, after⟩).before.head?.any (e.is k) = before.head?.any (e'.is k) := by
        cases before with
        | nil => rfl
        | cons b rest =>
            have stands := renders.stands b
            generalize isBlock : block b = w at stands
            cases stands with
            | one x same => simp [expand, isBlock, same k]
            | block core none => simp [expand, isBlock, right, none k]
      simp only [ends, same]
      split <;> rfl
  | notAhead body ih =>
      simp only [ends, ih left right, List.isEmpty_map]
      split <;> rfl

end Ends

section Pieces

/-- A text is cut from here on. -/
def cutFrom (e : Engine κ α) (r : Regex κ) (c : Cursor α) : List (Piece α) :=
  pieces e r (c.after.length + 1) c

variable {e : Engine κ α} {r : Regex κ}

/-- More fuel than the text is long makes no difference. -/
theorem pieces_enough (some : r.consumes = true) {fuel : Nat} {c : Cursor α}
    (enough : c.after.length < fuel) : pieces e r fuel c = cutFrom e r c := by
  rw [cutFrom]
  generalize isFuel : c.after.length + 1 = fuel'
  have enough' : c.after.length < fuel' := isFuel ▸ Nat.lt_succ_self _
  clear isFuel
  induction fuel generalizing fuel' c with
  | zero => cases enough
  | succ fuel ih =>
      obtain ⟨fuel', rfl⟩ := Nat.exists_eq_succ_of_ne_zero (Nat.ne_of_gt (Nat.zero_lt_of_lt enough'))
      obtain ⟨before, after⟩ := c
      cases found : (ends e r ⟨before, after⟩).head? with
      | none =>
          rw [List.head?_eq_none_iff] at found
          cases after with
          | nil => rw [pieces_nil some, pieces_nil some]
          | cons x rest =>
              rw [pieces_of_none found, pieces_of_none found]
              exact congrArg _ (ih (c := ⟨x :: before, rest⟩) (Nat.lt_of_succ_lt_succ enough) fuel'
                (Nat.lt_of_succ_lt_succ enough'))
      | some c' =>
          obtain ⟨w, _, spans⟩ := spans_of_mem (List.mem_of_head? found)
          have less := shorter some (List.mem_of_head? found)
          rw [pieces_of_mem some found spans, pieces_of_mem some found spans]
          exact congrArg _ (ih (by omega) fuel' (by omega))

theorem cutFrom_nil (some : r.consumes = true) (before : List α) : cutFrom e r ⟨before, []⟩ = [] :=
  pieces_nil some _ before

theorem cutFrom_hit (some : r.consumes = true) {c c' : Cursor α} {w : List α}
    (found : (ends e r c).head? = .some c') (spans : Spans c w c') :
    cutFrom e r c = .hit w :: cutFrom e r c' := by
  have less := shorter some (List.mem_of_head? found)
  rw [cutFrom, pieces_of_mem some found spans, pieces_enough some less]

theorem cutFrom_gaps {w before rest : List α}
    (none : ∀ u v, w = u ++ v → v ≠ [] → ends e r ⟨u.reverse ++ before, v ++ rest⟩ = []) :
    cutFrom e r ⟨before, w ++ rest⟩ = w.map .gap ++ cutFrom e r ⟨w.reverse ++ before, rest⟩ := by
  rw [cutFrom, List.length_append, Nat.add_comm w.length, Nat.add_right_comm, pieces_through none,
    cutFrom]

theorem cutFrom_gap {before rest : List α} {x : α}
    (none : ends e r ⟨before, x :: rest⟩ = []) :
    cutFrom e r ⟨before, x :: rest⟩ = .gap x :: cutFrom e r ⟨x :: before, rest⟩ :=
  pieces_of_none none

/-- What a piece of the symbols stands for. -/
def expandPiece (block : β → List α) : Piece β → List (Piece α)
  | .gap b => (block b).map .gap
  | .hit m => [.hit (m.flatMap block)]

theorem whole_expand (block : β → List α) (ps : List (Piece β)) :
    whole (ps.flatMap (expandPiece block)) = (whole ps).flatMap block := by
  induction ps with
  | nil => rfl
  | cons p ps ih =>
      rw [List.flatMap_cons, whole_append, ih]
      cases p with
      | gap b => rw [expandPiece, whole_gaps, whole_gap, List.flatMap_cons]
      | hit m => rw [expandPiece, whole_hit, whole_hit, List.flatMap_append, whole_nil, List.append_nil]

theorem spans_expand {c c' : Cursor β} {w : List β} (spans : Spans c w c') :
    Spans (expand block c) (w.flatMap block) (expand block c') where
  after := by simp [expand, spans.after]
  before := by simp [expand, spans.before, List.reverse_flatMap, Function.comp_def]

variable {e' : Engine κ β}

/-- From here on, the first match in the text is the one in the symbols, and none begins inside the
first block. -/
structure Follows (e : Engine κ α) (e' : Engine κ β) (block : β → List α) (r : Regex κ) (c : Cursor β) :
    Prop where
  head : (ends e r (expand block c)).head? = ((ends e' r c).head?).map (expand block)
  inside : ∀ b rest u v, c.after = b :: rest → block b = u ++ v → u ≠ [] → v ≠ [] →
    ends e r ⟨u.reverse ++ (expand block c).before, v ++ rest.flatMap block⟩ = []

theorem Follows.hit (some : r.consumes = true) {c c' : Cursor β} (follows : Follows e e' block r c)
    (found : (ends e' r c).head? = .some c') {w : List β} (spans : Spans c w c') :
    cutFrom e r (expand block c) = .hit (w.flatMap block) :: cutFrom e r (expand block c') :=
  cutFrom_hit some (by rw [follows.head, found, Option.map_some]) (spans_expand spans)

theorem Follows.gap {before rest : List β} {b : β}
    (follows : Follows e e' block r ⟨before, b :: rest⟩) (none : ends e' r ⟨before, b :: rest⟩ = []) :
    cutFrom e r (expand block ⟨before, b :: rest⟩) =
      (block b).map .gap ++ cutFrom e r (expand block ⟨b :: before, rest⟩) := by
  have first : ends e r (expand block ⟨before, b :: rest⟩) = [] := by
    rw [← List.head?_eq_none_iff, follows.head, none]
    rfl
  rw [expand, List.flatMap_cons, cutFrom_gaps]
  · rw [expand, List.flatMap_cons]
  · intro u v isBlock more
    rcases List.eq_nil_or_concat u with rfl | ⟨u, x, rfl⟩
    · rw [List.nil_append] at isBlock
      rw [List.reverse_nil, List.nil_append, ← isBlock]
      simpa [expand] using first
    · exact follows.inside b rest _ v rfl isBlock (by simp) more

/-- An invariant of the places at which the search goes on carries over what is found. -/
theorem cutFrom_expand (some : r.consumes = true) {I : Cursor β → Prop}
    (follows : ∀ c, I c → Follows e e' block r c)
    (skip : ∀ before b rest, I ⟨before, b :: rest⟩ → I ⟨b :: before, rest⟩)
    (jump : ∀ c c', I c → (ends e' r c).head? = .some c' → I c') {c : Cursor β} (start : I c) :
    cutFrom e r (expand block c) = (cutFrom e' r c).flatMap (expandPiece block) := by
  induction length : c.after.length using Nat.strong_induction_on generalizing c with
  | _ n ih =>
      obtain ⟨before, after⟩ := c
      cases found : (ends e' r ⟨before, after⟩).head? with
      | some c' =>
          obtain ⟨w, _, spans⟩ := spans_of_mem (List.mem_of_head? found)
          have less := shorter some (List.mem_of_head? found)
          rw [(follows _ start).hit some found spans, cutFrom_hit some found spans, List.flatMap_cons,
            ih _ (length ▸ less) (jump _ _ start found) rfl]
          rfl
      | none =>
          rw [List.head?_eq_none_iff] at found
          cases after with
          | nil =>
              rw [cutFrom_nil some]
              exact cutFrom_nil some _
          | cons b rest =>
              rw [(follows _ start).gap found, cutFrom_gap found, List.flatMap_cons,
                ih rest.length (length ▸ Nat.lt_succ_self _) (skip _ _ _ start) rfl]
              rfl

end Pieces

end Regex
