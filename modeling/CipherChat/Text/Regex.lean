import Mathlib.Algebra.Order.Group.Nat
import Mathlib.Data.List.Basic
import Mathlib.Tactic.Common

/-!
Regular expressions with their backtracking matcher. What a class of characters stands for, and
where a word begins or ends, is a parameter, so that two engines may read one expression.
-/

/-- A place in a text; what lies before it is reversed. -/
structure Cursor (α : Type) where
  before : List α
  after : List α

inductive Regex (κ : Type)
  | empty
  | one (k : κ)
  | star (k : κ)
  | seq (first second : Regex κ)
  | alt (first second : Regex κ)
  | times (body : Regex κ) (least most : Nat)
  | boundary
  | notBehind (k : κ)
  | notAhead (body : Regex κ)

/-- How an engine reads an expression: what a class has, and where `\b` holds. -/
structure Engine (κ α : Type) where
  is : κ → α → Bool
  edge : Cursor α → Bool

namespace Regex

variable {κ α : Type}

/-- What is checked of a list one element after the other. -/
theorem each_of_all {p : α → Prop} [DecidablePred p] {xs : List α} (all : xs.all (fun x => p x) = true) :
    ∀ x ∈ xs, p x := by
  simpa using all

/-- As many as there are, then one less, and so on. -/
def starEnds (p : α → Bool) (before : List α) : List α → List (Cursor α)
  | [] => [⟨before, []⟩]
  | x :: rest =>
      if p x then starEnds p (x :: before) rest ++ [⟨before, x :: rest⟩] else [⟨before, x :: rest⟩]

def exactly (step : Cursor α → List (Cursor α)) : Nat → Cursor α → List (Cursor α)
  | 0, c => [c]
  | n + 1, c => (step c).flatMap (exactly step n)

def atMost (step : Cursor α → List (Cursor α)) : Nat → Cursor α → List (Cursor α)
  | 0, c => [c]
  | n + 1, c => (step c).flatMap (atMost step n) ++ [c]

/-- Where a match from here may end, the first choice first. -/
def ends (e : Engine κ α) : Regex κ → Cursor α → List (Cursor α)
  | empty, c => [c]
  | one k, c =>
      match c.after with
      | [] => []
      | x :: rest => if e.is k x then [⟨x :: c.before, rest⟩] else []
  | star k, c => starEnds (e.is k) c.before c.after
  | seq first second, c => (ends e first c).flatMap (ends e second)
  | alt first second, c => ends e first c ++ ends e second c
  | times body least most, c =>
      (exactly (ends e body) least c).flatMap (atMost (ends e body) (most - least))
  | boundary, c => if e.edge c then [c] else []
  | notBehind k, c => if c.before.head?.any (e.is k) then [] else [c]
  | notAhead body, c => if (ends e body c).isEmpty then [c] else []

/-- A text is cut into its matches and the characters between them. -/
inductive Piece (α : Type)
  | gap (x : α)
  | hit (text : List α)

def Piece.hit? : Piece α → Option (List α)
  | gap _ => none
  | hit text => some text

def consumed (c c' : Cursor α) : List α :=
  c.after.take (c.after.length - c'.after.length)

/-- The search goes on behind each match; behind an empty one, a character further. -/
def pieces (e : Engine κ α) (r : Regex κ) : Nat → Cursor α → List (Piece α)
  | 0, _ => []
  | fuel + 1, c =>
      let further :=
        match c.after with
        | [] => []
        | x :: rest => .gap x :: pieces e r fuel ⟨x :: c.before, rest⟩
      match (ends e r c).head? with
      | none => further
      | some c' =>
          .hit (consumed c c') ::
            if c'.after.length < c.after.length then pieces e r fuel c' else further

def cut (e : Engine κ α) (r : Regex κ) (text : List α) : List (Piece α) :=
  pieces e r (text.length + 1) ⟨[], text⟩

/-- All matches. -/
def hits (e : Engine κ α) (r : Regex κ) (text : List α) : List (List α) :=
  (cut e r text).filterMap Piece.hit?

def opt (r : Regex κ) : Regex κ :=
  alt r empty

section Progress

variable {e : Engine κ α}

/-- A cursor that lies further in the same text. -/
structure Behind (c c' : Cursor α) : Prop where
  text : c'.before.reverse ++ c'.after = c.before.reverse ++ c.after
  length : c'.after.length ≤ c.after.length

theorem Behind.refl (c : Cursor α) : Behind c c :=
  ⟨rfl, le_rfl⟩

theorem Behind.trans {c c₁ c₂ : Cursor α} (first : Behind c c₁) (second : Behind c₁ c₂) :
    Behind c c₂ :=
  ⟨second.text.trans first.text, second.length.trans first.length⟩

theorem Behind.skip (before : List α) (x : α) (rest : List α) :
    Behind ⟨before, x :: rest⟩ ⟨x :: before, rest⟩ :=
  ⟨by simp, by simp⟩

theorem behind_star {p : α → Bool} {before after : List α} {c : Cursor α}
    (member : c ∈ starEnds p before after) : Behind ⟨before, after⟩ c := by
  induction after generalizing before with
  | nil =>
      rw [starEnds, List.mem_singleton] at member
      exact member ▸ .refl _
  | cons x rest ih =>
      rw [starEnds] at member
      split at member
      · rcases List.mem_append.mp member with more | last
        · exact (Behind.skip before x rest).trans (ih more)
        · exact List.mem_singleton.mp last ▸ .refl _
      · exact List.mem_singleton.mp member ▸ .refl _

theorem behind_exactly {step : Cursor α → List (Cursor α)} (each : ∀ c, ∀ c' ∈ step c, Behind c c')
    {n : Nat} {c c' : Cursor α} (member : c' ∈ exactly step n c) : Behind c c' := by
  induction n generalizing c with
  | zero => exact List.mem_singleton.mp member ▸ .refl _
  | succ n ih =>
      obtain ⟨c₁, first, later⟩ := List.mem_flatMap.mp member
      exact (each c c₁ first).trans (ih later)

theorem behind_atMost {step : Cursor α → List (Cursor α)} (each : ∀ c, ∀ c' ∈ step c, Behind c c')
    {n : Nat} {c c' : Cursor α} (member : c' ∈ atMost step n c) : Behind c c' := by
  induction n generalizing c with
  | zero => exact List.mem_singleton.mp member ▸ .refl _
  | succ n ih =>
      rcases List.mem_append.mp member with more | last
      · obtain ⟨c₁, first, later⟩ := List.mem_flatMap.mp more
        exact (each c c₁ first).trans (ih later)
      · exact List.mem_singleton.mp last ▸ .refl _

/-- A match ends behind where it begins. -/
theorem behind {r : Regex κ} {c c' : Cursor α} (member : c' ∈ ends e r c) : Behind c c' := by
  induction r generalizing c c' with
  | empty => exact List.mem_singleton.mp member ▸ .refl _
  | one k =>
      obtain ⟨before, after⟩ := c
      cases after with
      | nil => cases member
      | cons x rest =>
          simp only [ends] at member
          split at member
          · exact List.mem_singleton.mp member ▸ .skip before x rest
          · cases member
  | star k => exact behind_star member
  | seq first second ih₁ ih₂ =>
      obtain ⟨c₁, left, right⟩ := List.mem_flatMap.mp member
      exact (ih₁ left).trans (ih₂ right)
  | alt first second ih₁ ih₂ =>
      rcases List.mem_append.mp member with left | right
      · exact ih₁ left
      · exact ih₂ right
  | times body least most ih =>
      obtain ⟨c₁, left, right⟩ := List.mem_flatMap.mp member
      exact (behind_exactly (fun _ _ => ih) left).trans (behind_atMost (fun _ _ => ih) right)
  | boundary =>
      simp only [ends] at member
      split at member
      · exact List.mem_singleton.mp member ▸ .refl _
      · cases member
  | notBehind k =>
      simp only [ends] at member
      split at member
      · cases member
      · exact List.mem_singleton.mp member ▸ .refl _
  | notAhead body =>
      simp only [ends] at member
      split at member
      · exact List.mem_singleton.mp member ▸ .refl _
      · cases member

/-- Every match takes a character. -/
def consumes : Regex κ → Bool
  | one _ => true
  | seq first second => consumes first || consumes second
  | alt first second => consumes first && consumes second
  | times body least _ => consumes body && 0 < least
  | _ => false

theorem shorter {r : Regex κ} (some : r.consumes = true) {c c' : Cursor α}
    (member : c' ∈ ends e r c) : c'.after.length < c.after.length := by
  induction r generalizing c c' with
  | one k =>
      obtain ⟨before, after⟩ := c
      cases after with
      | nil => cases member
      | cons x rest =>
          simp only [ends] at member
          split at member
          · rw [List.mem_singleton.mp member]
            exact Nat.lt_succ_self _
          · cases member
  | seq first second ih₁ ih₂ =>
      obtain ⟨c₁, left, right⟩ := List.mem_flatMap.mp member
      rcases Bool.or_eq_true_iff.mp some with one | other
      · exact (behind right).length.trans_lt (ih₁ one left)
      · exact (ih₂ other right).trans_le (behind left).length
  | alt first second ih₁ ih₂ =>
      obtain ⟨one, other⟩ := Bool.and_eq_true_iff.mp some
      rcases List.mem_append.mp member with left | right
      · exact ih₁ one left
      · exact ih₂ other right
  | times body least most ih =>
      obtain ⟨one, positive⟩ := Bool.and_eq_true_iff.mp some
      obtain ⟨n, rfl⟩ := Nat.exists_eq_succ_of_ne_zero (of_decide_eq_true positive).ne'
      obtain ⟨c₁, left, right⟩ := List.mem_flatMap.mp member
      obtain ⟨c₂, first, later⟩ := List.mem_flatMap.mp left
      have tail := (behind_exactly (fun _ _ => behind) later).trans
        (behind_atMost (fun _ _ => behind) right)
      exact tail.length.trans_lt (ih one first)
  | _ => cases some

end Progress

@[simp] theorem hits_gap (x : α) (rest : List (Piece α)) :
    (Piece.gap x :: rest).filterMap Piece.hit? = rest.filterMap Piece.hit? := by
  rfl

@[simp] theorem hits_hit (text : List α) (rest : List (Piece α)) :
    (Piece.hit text :: rest).filterMap Piece.hit? = text :: rest.filterMap Piece.hit? := by
  rfl

section Extended

variable {e : Engine κ α} (x : α)

/-- The same place, when one more character follows the text. -/
def extend (c : Cursor α) : Cursor α :=
  ⟨c.before, c.after ++ [x]⟩

def isOpen (c : Cursor α) : Bool :=
  !c.after.isEmpty

theorem isOpen_extend (c : Cursor α) : isOpen (extend x c) = true := by
  simp [isOpen, extend]

theorem closed_of_behind {c c' : Cursor α} (closed : isOpen c = false) (later : Behind c c') :
    isOpen c' = false := by
  simp only [isOpen, Bool.not_eq_false', List.isEmpty_iff_length_eq_zero] at closed ⊢
  exact Nat.le_zero.mp (closed ▸ later.length)

/-- With one more character there are the same ends, and perhaps some behind that character. -/
structure Mimics (f : Cursor α → List (Cursor α)) : Prop where
  behind : ∀ c, ∀ c' ∈ f c, Behind c c'
  same : ∀ c, (f (extend x c)).filter isOpen = (f c).map (extend x)

variable {x}

theorem Mimics.seq {f g : Cursor α → List (Cursor α)} (first : Mimics x f) (second : Mimics x g) :
    Mimics x fun c => (f c).flatMap g where
  behind c c' member := by
    obtain ⟨c₁, left, right⟩ := List.mem_flatMap.mp member
    exact (first.behind c c₁ left).trans (second.behind c₁ c' right)
  same c := by
    have nothing : ∀ c₁, isOpen c₁ = false → (g c₁).filter isOpen = [] := by
      intro c₁ closed
      rw [List.filter_eq_nil_iff]
      intro c₂ member
      rw [closed_of_behind closed (second.behind c₁ c₂ member)]
      exact Bool.false_ne_true
    have only (cs : List (Cursor α)) : (cs.flatMap g).filter isOpen =
        (cs.filter isOpen).flatMap fun c₁ => (g c₁).filter isOpen := by
      induction cs with
      | nil => rfl
      | cons c₁ rest ih =>
          rw [List.flatMap_cons, List.filter_append, ih]
          by_cases here : isOpen c₁ = true
          · rw [List.filter_cons_of_pos here, List.flatMap_cons]
          · rw [List.filter_cons_of_neg here, nothing c₁ (Bool.eq_false_iff.mpr here), List.nil_append]
    rw [only, first.same, List.flatMap_map, List.map_flatMap]
    exact congrArg (fun h => (f c).flatMap h) (funext second.same)

theorem Mimics.done : Mimics x fun c => [c] where
  behind c c' member := List.mem_singleton.mp member ▸ .refl c
  same c := by simp [isOpen_extend]

theorem Mimics.either {f g : Cursor α → List (Cursor α)} (first : Mimics x f) (second : Mimics x g) :
    Mimics x fun c => f c ++ g c where
  behind c c' member := (List.mem_append.mp member).elim (first.behind c c') (second.behind c c')
  same c := by rw [List.filter_append, first.same, second.same, List.map_append]

theorem Mimics.exactly {step : Cursor α → List (Cursor α)} (each : Mimics x step) (n : Nat) :
    Mimics x (exactly step n) := by
  induction n with
  | zero => exact .done
  | succ n ih => exact each.seq ih

theorem Mimics.atMost {step : Cursor α → List (Cursor α)} (each : Mimics x step) (n : Nat) :
    Mimics x (atMost step n) := by
  induction n with
  | zero => exact .done
  | succ n ih => exact (each.seq ih).either .done

theorem mimics_star (p : α → Bool) : Mimics x fun c => starEnds p c.before c.after where
  behind c c' member := behind_star member
  same c := by
    obtain ⟨before, after⟩ := c
    simp only [extend]
    induction after generalizing before with
    | nil =>
        simp only [List.nil_append, starEnds]
        split <;> simp [isOpen, extend]
    | cons y rest ih =>
        simp only [List.cons_append, starEnds]
        split
        · rw [List.filter_append, ih, List.map_append]
          simp [isOpen, extend]
        · simp [isOpen, extend]

section Characters

variable (is : κ → α → Bool) (x : α)

/-- No match takes the character. -/
def avoids : Regex κ → Bool
  | one k | star k => !is k x
  | seq first second | alt first second => avoids first && avoids second
  | times body _ _ => avoids body
  | _ => true

/-- A look ahead takes the character for the end of the text. -/
def blind : Regex κ → Bool
  | notAhead body => avoids is x body && blind body
  | seq first second | alt first second => blind first && blind second
  | times body _ _ => blind body
  | _ => true

/-- No match ends with the character. -/
def closes : Regex κ → Bool
  | seq first second => (closes second && consumes second) || (avoids is x first && avoids is x second)
  | alt first second => closes first && closes second
  | r => avoids is x r

end Characters

theorem open_star {p : α → Bool} (other : p x = false) {before after : List α} {c : Cursor α}
    (member : c ∈ starEnds p before (after ++ [x])) : isOpen c = true := by
  induction after generalizing before with
  | nil =>
      rw [List.nil_append, starEnds, if_neg (by simp [other])] at member
      rw [List.mem_singleton.mp member]
      rfl
  | cons y rest ih =>
      simp only [List.cons_append, starEnds] at member
      split at member
      · rcases List.mem_append.mp member with more | last
        · exact ih more
        · rw [List.mem_singleton.mp last]
          rfl
      · rw [List.mem_singleton.mp member]
        rfl

theorem eq_extend {c c' : Cursor α} (later : Behind (extend x c) c') (here : isOpen c' = true) :
    ∃ c₁, c' = extend x c₁ := by
  obtain ⟨before, after⟩ := c'
  rcases List.eq_nil_or_concat after with rfl | ⟨rest, y, rfl⟩
  · cases here
  · have text := later.text
    simp only [extend, List.concat_eq_append, ← List.append_assoc] at text
    obtain ⟨_, last⟩ := List.append_inj' text rfl
    obtain rfl := (List.cons.inj last).1
    exact ⟨⟨before, rest⟩, by simp [extend]⟩

theorem open_times {step : Cursor α → List (Cursor α)}
    (later : ∀ c, ∀ c' ∈ step c, Behind c c')
    (each : ∀ c, ∀ c' ∈ step (extend x c), isOpen c' = true) (n : Nat) :
    (∀ c, ∀ c' ∈ exactly step n (extend x c), isOpen c' = true) ∧
      ∀ c, ∀ c' ∈ atMost step n (extend x c), isOpen c' = true := by
  have next {f : Cursor α → List (Cursor α)} (rest : ∀ c, ∀ c' ∈ f (extend x c), isOpen c' = true)
      (c c' : Cursor α) (member : c' ∈ (step (extend x c)).flatMap f) : isOpen c' = true := by
    obtain ⟨c₁, left, right⟩ := List.mem_flatMap.mp member
    obtain ⟨c₂, rfl⟩ := eq_extend (later _ c₁ left) (each c c₁ left)
    exact rest c₂ c' right
  induction n with
  | zero =>
      constructor <;> intro c c' member <;> rw [List.mem_singleton.mp member] <;>
        exact isOpen_extend x c
  | succ n ih =>
      refine ⟨next ih.1, fun c c' member => ?_⟩
      rcases List.mem_append.mp member with more | last
      · exact next ih.2 c c' more
      · rw [List.mem_singleton.mp last]
        exact isOpen_extend x c

theorem open_of_avoids {r : Regex κ} (other : avoids e.is x r = true) {c c' : Cursor α}
    (member : c' ∈ ends e r (extend x c)) : isOpen c' = true := by
  induction r generalizing c c' with
  | one k =>
      obtain ⟨before, after⟩ := c
      simp only [avoids, Bool.not_eq_true'] at other
      cases after with
      | nil =>
          simp only [ends, extend, List.nil_append, other, Bool.false_eq_true, if_false] at member
          cases member
      | cons y rest =>
          simp only [ends, extend, List.cons_append] at member
          split at member
          · rw [List.mem_singleton.mp member]
            simp [isOpen]
          · cases member
  | star k =>
      simp only [avoids, Bool.not_eq_true'] at other
      exact open_star other member
  | seq first second ih₁ ih₂ =>
      obtain ⟨left, right⟩ := Bool.and_eq_true_iff.mp other
      obtain ⟨c₁, before, later⟩ := List.mem_flatMap.mp member
      obtain ⟨c₂, rfl⟩ := eq_extend (behind before) (ih₁ left before)
      exact ih₂ right later
  | alt first second ih₁ ih₂ =>
      obtain ⟨left, right⟩ := Bool.and_eq_true_iff.mp other
      rcases List.mem_append.mp member with here | there
      · exact ih₁ left here
      · exact ih₂ right there
  | times body least most ih =>
      obtain ⟨c₁, before, later⟩ := List.mem_flatMap.mp member
      have each : ∀ c, ∀ c' ∈ ends e body (extend x c), isOpen c' = true := fun _ _ => ih other
      have first := (open_times (fun _ _ => behind) each least).1 c c₁ before
      obtain ⟨c₂, rfl⟩ := eq_extend (behind_exactly (fun _ _ => behind) before) first
      exact (open_times (fun _ _ => behind) each (most - least)).2 c₂ c' later
  | empty => exact List.mem_singleton.mp member ▸ isOpen_extend x c
  | boundary =>
      simp only [ends] at member
      split at member
      · exact List.mem_singleton.mp member ▸ isOpen_extend x c
      · cases member
  | notBehind k =>
      simp only [ends] at member
      split at member
      · cases member
      · exact List.mem_singleton.mp member ▸ isOpen_extend x c
  | notAhead body =>
      simp only [ends] at member
      split at member
      · exact List.mem_singleton.mp member ▸ isOpen_extend x c
      · cases member

/-- When none of the ends lies behind the last character. -/
theorem Mimics.eq {f : Cursor α → List (Cursor α)} (mimics : Mimics x f) {c : Cursor α}
    (all : ∀ c' ∈ f (extend x c), isOpen c' = true) : f (extend x c) = (f c).map (extend x) := by
  rw [← mimics.same, List.filter_eq_self.mpr all]

variable (still : ∀ c, e.edge (extend x c) = e.edge c)

include still

theorem mimics {r : Regex κ} (unseen : blind e.is x r = true) : Mimics x (ends e r) := by
  refine ⟨fun _ _ => behind, fun c => ?_⟩
  induction r generalizing c with
  | empty => exact Mimics.done.same c
  | one k =>
      obtain ⟨before, after⟩ := c
      cases after with
      | nil =>
          simp only [ends, extend, List.nil_append]
          split <;> simp [isOpen]
      | cons y rest =>
          simp only [ends, extend, List.cons_append]
          split <;> simp [isOpen, extend]
  | star k => exact (mimics_star (e.is k)).same c
  | seq first second ih₁ ih₂ =>
      obtain ⟨left, right⟩ := Bool.and_eq_true_iff.mp unseen
      exact (Mimics.seq ⟨fun _ _ => behind, fun c => ih₁ left c⟩
        ⟨fun _ _ => behind, fun c => ih₂ right c⟩).same c
  | alt first second ih₁ ih₂ =>
      obtain ⟨left, right⟩ := Bool.and_eq_true_iff.mp unseen
      exact (Mimics.either ⟨fun _ _ => behind, fun c => ih₁ left c⟩
        ⟨fun _ _ => behind, fun c => ih₂ right c⟩).same c
  | times body least most ih =>
      have each : Mimics x (ends e body) := ⟨fun _ _ => behind, fun c => ih unseen c⟩
      exact ((each.exactly least).seq (each.atMost (most - least))).same c
  | boundary =>
      simp only [ends, still]
      split <;> simp [isOpen, extend]
  | notBehind k =>
      cases edge : c.before.head?.any (e.is k) with
      | true => simp [ends, extend, edge]
      | false => simp [ends, extend, edge, isOpen]
  | notAhead body ih =>
      obtain ⟨other, blindly⟩ := Bool.and_eq_true_iff.mp unseen
      have same := Mimics.eq ⟨fun _ _ => behind, fun c => ih blindly c⟩ (c := c)
        fun _ => open_of_avoids other
      simp only [ends, same, List.isEmpty_map]
      split <;> simp [isOpen_extend]

omit still in
theorem open_of_closes {r : Regex κ} (unseen : blind e.is x r = true) (stops : closes e.is x r = true)
    {c c' : Cursor α} (member : c' ∈ ends e r (extend x c)) : isOpen c' = true := by
  induction r generalizing c c' with
  | seq first second _ ih₂ =>
      obtain ⟨_, right⟩ := Bool.and_eq_true_iff.mp unseen
      rcases Bool.or_eq_true_iff.mp stops with last | all
      · obtain ⟨stops', some⟩ := Bool.and_eq_true_iff.mp last
        obtain ⟨c₁, before, later⟩ := List.mem_flatMap.mp member
        by_cases here : isOpen c₁ = true
        · obtain ⟨c₂, rfl⟩ := eq_extend (behind before) here
          exact ih₂ right stops' later
        · have shorter := shorter some later
          simp only [isOpen, Bool.not_eq_true, Bool.not_eq_false', List.isEmpty_iff] at here
          rw [here] at shorter
          cases shorter
      · exact open_of_avoids (r := seq first second) all member
  | alt first second ih₁ ih₂ =>
      obtain ⟨left, right⟩ := Bool.and_eq_true_iff.mp unseen
      obtain ⟨one, other⟩ := Bool.and_eq_true_iff.mp stops
      rcases List.mem_append.mp member with here | there
      · exact ih₁ left one here
      · exact ih₂ right other there
  | _ => exact open_of_avoids stops member

theorem pieces_append {r : Regex κ} (unseen : blind e.is x r = true) (stops : closes e.is x r = true)
    (some : r.consumes = true) {fuel : Nat} {c : Cursor α} (enough : c.after.length < fuel) :
    (pieces e r (fuel + 1) (extend x c)).filterMap Piece.hit? =
      (pieces e r fuel c).filterMap Piece.hit? := by
  induction fuel generalizing c with
  | zero => cases enough
  | succ fuel ih =>
      have same := (mimics still unseen).eq (c := c) fun _ => open_of_closes unseen stops
      obtain ⟨before, after⟩ := c
      rw [pieces, pieces, same, List.head?_map]
      cases found : (ends e r ⟨before, after⟩).head? with
      | none =>
          simp only [Option.map_none, extend]
          cases after with
          | nil =>
              have nothing : ends e r ⟨x :: before, []⟩ = [] := by
                rw [List.eq_nil_iff_forall_not_mem]
                intro c' member
                exact Nat.not_lt_zero _ (shorter some member)
              simp [pieces, nothing]
          | cons y rest =>
              have later := ih (c := ⟨y :: before, rest⟩) (Nat.lt_of_succ_lt_succ enough)
              rw [List.cons_append, hits_gap, hits_gap]
              exact later
      | some c' =>
          have less := shorter some (List.mem_of_head? found)
          have later := ih (c := c') (by simp only at less enough; omega)
          simp only [Option.map_some]
          rw [if_pos less, if_pos (by simpa [extend] using less)]
          rw [hits_hit, hits_hit, later]
          congr 1
          simp only [consumed, extend, List.length_append, List.length_singleton]
          rw [Nat.add_sub_add_right, List.take_append_of_le_length (Nat.sub_le _ _)]

/-- One more character makes no other match. -/
theorem hits_append {r : Regex κ} (unseen : blind e.is x r = true) (stops : closes e.is x r = true)
    (some : r.consumes = true) (text : List α) : hits e r (text ++ [x]) = hits e r text := by
  have same := pieces_append still unseen stops some (c := ⟨[], text⟩) (Nat.lt_succ_self _)
  rw [hits, cut, List.length_append, List.length_singleton]
  exact same

end Extended

section Alike

variable {e e' : Engine κ α}

/-- The two engines agree on every character of the text and at every place in it. -/
structure Alike (e e' : Engine κ α) (c : Cursor α) : Prop where
  is : ∀ k, ∀ x ∈ c.before.reverse ++ c.after, e.is k x = e'.is k x
  edge : ∀ c' : Cursor α, c'.before.reverse ++ c'.after = c.before.reverse ++ c.after →
    e.edge c' = e'.edge c'

theorem Alike.behind {c c' : Cursor α} (alike : Alike e e' c) (later : Behind c c') :
    Alike e e' c' where
  is := by simpa only [later.text] using alike.is
  edge := by simpa only [later.text] using alike.edge

theorem Alike.last {c : Cursor α} (alike : Alike e e' c) (k : κ) :
    c.before.head?.any (e.is k) = c.before.head?.any (e'.is k) := by
  obtain ⟨before, after⟩ := c
  cases before with
  | nil => rfl
  | cons x rest => exact alike.is k x (by simp)

theorem flatMap_alike {f f' g g' : Cursor α → List (Cursor α)} {c : Cursor α}
    (alike : Alike e e' c) (later : ∀ c' ∈ f c, Behind c c') (first : f c = f' c)
    (second : ∀ c', Alike e e' c' → g c' = g' c') : (f c).flatMap g = (f' c).flatMap g' := by
  rw [← first]
  exact List.flatMap_congr fun c' member => second c' (alike.behind (later c' member))

theorem starEnds_alike {p p' : α → Bool} {before after : List α}
    (alike : ∀ x ∈ after, p x = p' x) : starEnds p before after = starEnds p' before after := by
  induction after generalizing before with
  | nil => rfl
  | cons x rest ih =>
      rw [starEnds, starEnds, alike x List.mem_cons_self,
        ih fun y member => alike y (List.mem_cons_of_mem _ member)]

theorem ends_alike {r : Regex κ} {c : Cursor α} (alike : Alike e e' c) :
    ends e r c = ends e' r c := by
  induction r generalizing c with
  | empty => rfl
  | one k =>
      obtain ⟨before, after⟩ := c
      cases after with
      | nil => rfl
      | cons x rest => simp only [ends, alike.is k x (by simp)]
  | star k => exact starEnds_alike fun x member => alike.is k x (List.mem_append_right _ member)
  | seq first second ih₁ ih₂ =>
      exact flatMap_alike alike (fun _ => behind) (ih₁ alike) fun _ => ih₂
  | alt first second ih₁ ih₂ => rw [ends, ends, ih₁ alike, ih₂ alike]
  | times body least most ih =>
      have exact' (n : Nat) : ∀ c, Alike e e' c →
          exactly (ends e body) n c = exactly (ends e' body) n c := by
        induction n with
        | zero => exact fun _ _ => rfl
        | succ n ih' => exact fun c alike => flatMap_alike alike (fun _ => behind) (ih alike) ih'
      have most' (n : Nat) : ∀ c, Alike e e' c →
          atMost (ends e body) n c = atMost (ends e' body) n c := by
        induction n with
        | zero => exact fun _ _ => rfl
        | succ n ih' =>
            intro c alike
            rw [atMost, atMost, flatMap_alike alike (fun _ => behind) (ih alike) ih']
      exact flatMap_alike alike (fun _ => behind_exactly fun _ _ => behind) (exact' least c alike)
        (most' (most - least))
  | boundary => simp only [ends, alike.edge c rfl]
  | notBehind k => simp only [ends, alike.last k]
  | notAhead body ih => rw [ends, ends, ih alike]

theorem pieces_alike {r : Regex κ} {fuel : Nat} {c : Cursor α} (alike : Alike e e' c) :
    pieces e r fuel c = pieces e' r fuel c := by
  induction fuel generalizing c with
  | zero => rfl
  | succ fuel ih =>
      obtain ⟨before, after⟩ := c
      rw [pieces, pieces, ← ends_alike alike]
      have later : ∀ c' ∈ (ends e r ⟨before, after⟩).head?, pieces e r fuel c' = pieces e' r fuel c' :=
        fun c' found => ih (alike.behind (behind (List.mem_of_head? found)))
      cases after with
      | nil =>
          cases found : (ends e r ⟨before, []⟩).head? with
          | none => rfl
          | some c' => simp only [later c' found]
      | cons x rest =>
          have further := ih (alike.behind (.skip before x rest))
          cases found : (ends e r ⟨before, x :: rest⟩).head? with
          | none => simp only [further]
          | some c' => simp only [further, later c' found]

/-- Two engines that agree on a text find the same in it. -/
theorem hits_alike {r : Regex κ} {text : List α} (chars : ∀ k, ∀ x ∈ text, e.is k x = e'.is k x)
    (edges : ∀ c : Cursor α, c.before.reverse ++ c.after = text → e.edge c = e'.edge c) :
    hits e r text = hits e' r text := by
  have same : Alike e e' ⟨[], text⟩ := ⟨chars, edges⟩
  rw [hits, hits, cut, cut, pieces_alike same]

end Alike

end Regex
