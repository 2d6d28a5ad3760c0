import CipherChat.Text.Regex

/-!
The words of a regular expression, when what it asks of the text around a match is left aside, and
what they say about its matches.
-/

namespace Regex

variable {κ α : Type}

/-- The word between two places of a text. -/
structure Spans (c : Cursor α) (w : List α) (c' : Cursor α) : Prop where
  after : c.after = w ++ c'.after
  before : c'.before = w.reverse ++ c.before

theorem Spans.nil (c : Cursor α) : Spans c [] c :=
  ⟨rfl, rfl⟩

theorem Spans.append {c c₁ c₂ : Cursor α} {v w : List α} (first : Spans c v c₁)
    (second : Spans c₁ w c₂) : Spans c (v ++ w) c₂ where
  after := by rw [first.after, second.after, List.append_assoc]
  before := by rw [second.before, first.before, List.reverse_append, List.append_assoc]

theorem consumed_of_spans {c c' : Cursor α} {w : List α} (spans : Spans c w c') :
    consumed c c' = w := by
  rw [consumed, spans.after, List.length_append, Nat.add_sub_cancel, List.take_left]

def Word (is : κ → α → Bool) : Regex κ → List α → Prop
  | one k, w => ∃ x, w = [x] ∧ is k x = true
  | star k, w => ∀ x ∈ w, is k x = true
  | seq first second, w => ∃ u v, w = u ++ v ∧ Word is first u ∧ Word is second v
  | alt first second, w => Word is first w ∨ Word is second w
  | times body least most, w => ∃ parts : List (List α), w = parts.flatten ∧
      least ≤ parts.length ∧ parts.length ≤ least + (most - least) ∧ ∀ part ∈ parts, Word is body part
  | _, w => w = []

variable {is : κ → α → Bool} {e : Engine κ α}

theorem spans_star {p : α → Bool} {before after : List α} {c : Cursor α}
    (member : c ∈ starEnds p before after) :
    ∃ w, (∀ x ∈ w, p x = true) ∧ Spans ⟨before, after⟩ w c := by
  induction after generalizing before with
  | nil =>
      rw [starEnds, List.mem_singleton] at member
      exact ⟨[], by simp, member ▸ .nil _⟩
  | cons x rest ih =>
      rw [starEnds] at member
      split at member
      next isOne =>
        rcases List.mem_append.mp member with more | last
        · obtain ⟨w, all, spans⟩ := ih more
          refine ⟨x :: w, by simpa using ⟨isOne, all⟩, ?_, ?_⟩
          · simpa using spans.after
          · simpa using spans.before
        · exact ⟨[], by simp, List.mem_singleton.mp last ▸ .nil _⟩
      next => exact ⟨[], by simp, List.mem_singleton.mp member ▸ .nil _⟩

section Times

variable {step : Cursor α → List (Cursor α)} {P : List α → Prop}

theorem spans_exactly (each : ∀ c, ∀ c' ∈ step c, ∃ w, P w ∧ Spans c w c') {n : Nat}
    {c c' : Cursor α} (member : c' ∈ exactly step n c) :
    ∃ parts : List (List α), parts.length = n ∧ (∀ part ∈ parts, P part) ∧
      Spans c parts.flatten c' := by
  induction n generalizing c with
  | zero => exact ⟨[], rfl, by simp, List.mem_singleton.mp member ▸ .nil _⟩
  | succ n ih =>
      obtain ⟨c₁, first, later⟩ := List.mem_flatMap.mp member
      obtain ⟨w, isPart, spans⟩ := each c c₁ first
      obtain ⟨parts, length, all, more⟩ := ih later
      exact ⟨w :: parts, by simp [length], by simpa using ⟨isPart, all⟩, spans.append more⟩

theorem spans_atMost (each : ∀ c, ∀ c' ∈ step c, ∃ w, P w ∧ Spans c w c') {n : Nat}
    {c c' : Cursor α} (member : c' ∈ atMost step n c) :
    ∃ parts : List (List α), parts.length ≤ n ∧ (∀ part ∈ parts, P part) ∧
      Spans c parts.flatten c' := by
  induction n generalizing c with
  | zero => exact ⟨[], by simp, by simp, List.mem_singleton.mp member ▸ .nil _⟩
  | succ n ih =>
      rcases List.mem_append.mp member with more | last
      · obtain ⟨c₁, first, later⟩ := List.mem_flatMap.mp more
        obtain ⟨w, isPart, spans⟩ := each c c₁ first
        obtain ⟨parts, length, all, more⟩ := ih later
        exact ⟨w :: parts, by simpa using length, by simpa using ⟨isPart, all⟩, spans.append more⟩
      · exact ⟨[], by simp, by simp, List.mem_singleton.mp last ▸ .nil _⟩

theorem exactly_of_spans (each : ∀ {c w c'}, P w → Spans c w c' → c' ∈ step c)
    {parts : List (List α)} (all : ∀ part ∈ parts, P part) {c c' : Cursor α}
    (spans : Spans c parts.flatten c') : c' ∈ exactly step parts.length c := by
  induction parts generalizing c with
  | nil =>
      obtain ⟨before, after⟩ := c'
      have isHere : c = ⟨before, after⟩ := by
        rw [← show c.before = before from spans.before.symm, ← show c.after = after from spans.after]
      exact List.mem_singleton.mpr isHere.symm
  | cons part parts ih =>
      have middle : Spans c part ⟨part.reverse ++ c.before, parts.flatten ++ c'.after⟩ :=
        ⟨by rw [spans.after, List.flatten_cons, List.append_assoc], rfl⟩
      have rest : Spans ⟨part.reverse ++ c.before, parts.flatten ++ c'.after⟩ parts.flatten c' :=
        ⟨rfl, by rw [spans.before, List.flatten_cons, List.reverse_append, List.append_assoc]⟩
      refine List.mem_flatMap.mpr ⟨_, each (all part List.mem_cons_self) middle, ?_⟩
      exact ih (fun part member => all part (List.mem_cons_of_mem _ member)) rest

theorem atMost_of_exactly {m n : Nat} (fits : m ≤ n) {c c' : Cursor α}
    (member : c' ∈ exactly step m c) : c' ∈ atMost step n c := by
  induction n generalizing m c with
  | zero =>
      obtain rfl := Nat.le_zero.mp fits
      exact member
  | succ n ih =>
      cases m with
      | zero => exact List.mem_append_right _ member
      | succ m =>
          obtain ⟨c₁, first, later⟩ := List.mem_flatMap.mp member
          exact List.mem_append_left _
            (List.mem_flatMap.mpr ⟨c₁, first, ih (Nat.le_of_succ_le_succ fits) later⟩)

end Times

/-- What a match takes is a word. -/
theorem spans_of_mem {r : Regex κ} {c c' : Cursor α} (member : c' ∈ ends e r c) :
    ∃ w, Word e.is r w ∧ Spans c w c' := by
  induction r generalizing c c' with
  | empty => exact ⟨[], rfl, List.mem_singleton.mp member ▸ .nil _⟩
  | one k =>
      obtain ⟨before, after⟩ := c
      cases after with
      | nil => cases member
      | cons x rest =>
          simp only [ends] at member
          split at member
          next isOne => exact ⟨[x], ⟨x, rfl, isOne⟩, List.mem_singleton.mp member ▸ ⟨rfl, rfl⟩⟩
          next => cases member
  | star k => exact spans_star member
  | seq first second ih₁ ih₂ =>
      obtain ⟨c₁, left, right⟩ := List.mem_flatMap.mp member
      obtain ⟨u, isFirst, toMiddle⟩ := ih₁ left
      obtain ⟨v, isSecond, toEnd⟩ := ih₂ right
      exact ⟨u ++ v, ⟨u, v, rfl, isFirst, isSecond⟩, toMiddle.append toEnd⟩
  | alt first second ih₁ ih₂ =>
      rcases List.mem_append.mp member with left | right
      · exact (ih₁ left).imp fun w found => ⟨.inl found.1, found.2⟩
      · exact (ih₂ right).imp fun w found => ⟨.inr found.1, found.2⟩
  | times body least most ih =>
      obtain ⟨c₁, left, right⟩ := List.mem_flatMap.mp member
      obtain ⟨parts, length, all, toMiddle⟩ := spans_exactly (fun _ _ => ih) left
      obtain ⟨more, length', all', toEnd⟩ := spans_atMost (fun _ _ => ih) right
      refine ⟨(parts ++ more).flatten, ⟨parts ++ more, rfl, ?_, ?_, ?_⟩, ?_⟩
      · rw [List.length_append, length]
        exact Nat.le_add_right _ _
      · rw [List.length_append, length]
        exact Nat.add_le_add_left length' _
      · intro part member
        exact (List.mem_append.mp member).elim (all part) (all' part)
      · rw [List.flatten_append]
        exact toMiddle.append toEnd
  | boundary =>
      simp only [ends] at member
      split at member
      · exact ⟨[], rfl, List.mem_singleton.mp member ▸ .nil _⟩
      · cases member
  | notBehind k =>
      simp only [ends] at member
      split at member
      · cases member
      · exact ⟨[], rfl, List.mem_singleton.mp member ▸ .nil _⟩
  | notAhead body =>
      simp only [ends] at member
      split at member
      · exact ⟨[], rfl, List.mem_singleton.mp member ▸ .nil _⟩
      · cases member

/-- It asks nothing of the text around a match. -/
def free : Regex κ → Bool
  | seq first second | alt first second => free first && free second
  | times body _ _ => free body
  | boundary | notBehind _ | notAhead _ => false
  | _ => true

/-- A free expression takes every word. -/
theorem mem_of_spans {r : Regex κ} (isFree : r.free = true) {c c' : Cursor α} {w : List α}
    (word : Word e.is r w) (spans : Spans c w c') : c' ∈ ends e r c := by
  induction r generalizing c c' w with
  | empty =>
      obtain rfl : w = [] := word
      obtain ⟨before, after⟩ := c'
      have isHere : c = ⟨before, after⟩ := by
        rw [← show c.before = before from spans.before.symm, ← show c.after = after from spans.after]
      exact List.mem_singleton.mpr isHere.symm
  | one k =>
      obtain ⟨x, rfl, isOne⟩ := word
      obtain ⟨before, after⟩ := c
      obtain ⟨before', after'⟩ := c'
      obtain rfl : after = x :: after' := spans.after
      obtain rfl : before' = x :: before := spans.before
      simp [ends, isOne]
  | star k =>
      obtain ⟨before, after⟩ := c
      obtain ⟨before', after'⟩ := c'
      obtain rfl : after = w ++ after' := spans.after
      obtain rfl : before' = w.reverse ++ before := spans.before
      simp only [ends]
      clear spans isFree
      induction w generalizing before with
      | nil =>
          cases after' with
          | nil => simp [starEnds]
          | cons y rest =>
              simp only [List.nil_append, List.reverse_nil, starEnds]
              split <;> simp
      | cons x w ih =>
          have isOne := word x List.mem_cons_self
          have more := ih (fun y member => word y (List.mem_cons_of_mem _ member)) (x :: before)
          rw [List.cons_append, starEnds, if_pos isOne, List.reverse_cons, List.append_assoc]
          exact List.mem_append_left _ more
  | seq first second ih₁ ih₂ =>
      obtain ⟨left, right⟩ := Bool.and_eq_true_iff.mp isFree
      obtain ⟨u, v, rfl, isFirst, isSecond⟩ := word
      have toMiddle : Spans c u ⟨u.reverse ++ c.before, v ++ c'.after⟩ :=
        ⟨by rw [spans.after, List.append_assoc], rfl⟩
      have toEnd : Spans ⟨u.reverse ++ c.before, v ++ c'.after⟩ v c' :=
        ⟨rfl, by rw [spans.before, List.reverse_append, List.append_assoc]⟩
      exact List.mem_flatMap.mpr ⟨_, ih₁ left isFirst toMiddle, ih₂ right isSecond toEnd⟩
  | alt first second ih₁ ih₂ =>
      obtain ⟨left, right⟩ := Bool.and_eq_true_iff.mp isFree
      rcases word with isFirst | isSecond
      · exact List.mem_append_left _ (ih₁ left isFirst spans)
      · exact List.mem_append_right _ (ih₂ right isSecond spans)
  | times body least most ih =>
      obtain ⟨parts, rfl, enough, fits, all⟩ := word
      have cutOff : parts.take least ++ parts.drop least = parts := List.take_append_drop least parts
      rw [← cutOff, List.flatten_append] at spans
      have length : (parts.take least).length = least := List.length_take_of_le enough
      have toMiddle : Spans c (parts.take least).flatten ⟨(parts.take least).flatten.reverse ++ c.before,
          (parts.drop least).flatten ++ c'.after⟩ :=
        ⟨by rw [spans.after, List.append_assoc], rfl⟩
      have toEnd : Spans ⟨(parts.take least).flatten.reverse ++ c.before,
          (parts.drop least).flatten ++ c'.after⟩ (parts.drop least).flatten c' :=
        ⟨rfl, by rw [spans.before, List.reverse_append, List.append_assoc]⟩
      have isFirst := exactly_of_spans (fun word spans => ih isFree word spans)
        (fun part member => all part (List.mem_of_mem_take member)) toMiddle
      have isSecond := exactly_of_spans (fun word spans => ih isFree word spans)
        (fun part member => all part (List.mem_of_mem_drop member)) toEnd
      rw [length] at isFirst
      exact List.mem_flatMap.mpr ⟨_, isFirst, atMost_of_exactly (by simp; omega) isSecond⟩
  | boundary | notBehind _ | notAhead _ => cases isFree

theorem not_mem_of_avoids {r : Regex κ} {x : α} (other : avoids is x r = true) {w : List α}
    (word : Word is r w) : x ∉ w := by
  induction r generalizing w with
  | one k =>
      obtain ⟨y, rfl, isOne⟩ := word
      intro member
      obtain rfl := List.mem_singleton.mp member
      simp [avoids, isOne] at other
  | star k =>
      intro member
      simp [avoids, word x member] at other
  | seq first second ih₁ ih₂ =>
      obtain ⟨left, right⟩ := Bool.and_eq_true_iff.mp other
      obtain ⟨u, v, rfl, isFirst, isSecond⟩ := word
      exact fun member => (List.mem_append.mp member).elim (ih₁ left isFirst) (ih₂ right isSecond)
  | alt first second ih₁ ih₂ =>
      obtain ⟨left, right⟩ := Bool.and_eq_true_iff.mp other
      exact word.elim (ih₁ left) (ih₂ right)
  | times body least most ih =>
      obtain ⟨parts, rfl, _, _, all⟩ := word
      intro member
      obtain ⟨part, isPart, here⟩ := List.mem_flatten.mp member
      exact ih other (all part isPart) here
  | empty | boundary | notBehind _ | notAhead _ =>
      obtain rfl : w = [] := word
      exact List.not_mem_nil

/-- The length of the shortest word, or less. -/
def shortest : Regex κ → Nat
  | one _ => 1
  | seq first second => shortest first + shortest second
  | alt first second => min (shortest first) (shortest second)
  | times body least _ => least * shortest body
  | _ => 0

theorem shortest_le {r : Regex κ} {w : List α} (word : Word is r w) : r.shortest ≤ w.length := by
  induction r generalizing w with
  | one k =>
      obtain ⟨y, rfl, _⟩ := word
      exact le_rfl
  | seq first second ih₁ ih₂ =>
      obtain ⟨u, v, rfl, isFirst, isSecond⟩ := word
      rw [List.length_append]
      exact Nat.add_le_add (ih₁ isFirst) (ih₂ isSecond)
  | alt first second ih₁ ih₂ =>
      rcases word with isFirst | isSecond
      · exact (Nat.min_le_left _ _).trans (ih₁ isFirst)
      · exact (Nat.min_le_right _ _).trans (ih₂ isSecond)
  | times body least most ih =>
      obtain ⟨parts, rfl, enough, _, all⟩ := word
      have long (parts : List (List α)) (all : ∀ part ∈ parts, Word is body part) :
          parts.length * body.shortest ≤ parts.flatten.length := by
        induction parts with
        | nil => simp
        | cons part parts ih' =>
            have first := ih (all part List.mem_cons_self)
            have rest := ih' fun part member => all part (List.mem_cons_of_mem _ member)
            rw [List.length_cons, List.flatten_cons, List.length_append, Nat.succ_mul]
            omega
      exact (Nat.mul_le_mul_right _ enough).trans (long parts all)
  | empty | star _ | boundary | notBehind _ | notAhead _ => exact Nat.zero_le _

section Cut

/-- The text that was cut. -/
def whole (ps : List (Piece α)) : List α :=
  ps.flatMap fun
    | .gap x => [x]
    | .hit m => m

@[simp] theorem whole_nil : whole ([] : List (Piece α)) = [] := by
  rfl

@[simp] theorem whole_gap (x : α) (ps : List (Piece α)) : whole (.gap x :: ps) = x :: whole ps := by
  rfl

@[simp] theorem whole_hit (m : List α) (ps : List (Piece α)) :
    whole (.hit m :: ps) = m ++ whole ps := by
  rfl

@[simp] theorem whole_append (ps qs : List (Piece α)) : whole (ps ++ qs) = whole ps ++ whole qs := by
  simp [whole]

@[simp] theorem whole_gaps (xs : List α) : whole (xs.map .gap) = xs := by
  induction xs with
  | nil => rfl
  | cons x xs ih => rw [List.map_cons, whole_gap, ih]

variable {r : Regex κ}

theorem pieces_of_mem {fuel : Nat} {c c' : Cursor α} {w : List α} (some : r.consumes = true)
    (found : (ends e r c).head? = .some c') (spans : Spans c w c') :
    pieces e r (fuel + 1) c = .hit w :: pieces e r fuel c' := by
  have less := shorter some (List.mem_of_head? found)
  rw [pieces, found]
  simp only [if_pos less, consumed_of_spans spans]

theorem pieces_of_none {fuel : Nat} {before rest : List α} {x : α}
    (none : ends e r ⟨before, x :: rest⟩ = []) :
    pieces e r (fuel + 1) ⟨before, x :: rest⟩ =
      .gap x :: pieces e r fuel ⟨x :: before, rest⟩ := by
  rw [pieces, none]
  rfl

theorem pieces_nil (some : r.consumes = true) (fuel : Nat) (before : List α) :
    pieces e r fuel ⟨before, []⟩ = [] := by
  cases fuel with
  | zero => rfl
  | succ fuel =>
      have nothing : ends e r ⟨before, []⟩ = [] := by
        rw [List.eq_nil_iff_forall_not_mem]
        intro c' member
        exact Nat.not_lt_zero _ (shorter some member)
      rw [pieces, nothing]
      rfl

/-- What holds of the pieces of every text: either a match comes first, or a character does. -/
theorem pieces_cases (some : r.consumes = true) {fuel : Nat} {c : Cursor α}
    (enough : c.after.length < fuel + 1) :
    (c.after = [] ∧ pieces e r (fuel + 1) c = []) ∨
    (∃ w c', Word e.is r w ∧ Spans c w c' ∧ c' ∈ ends e r c ∧ c'.after.length < fuel ∧
      pieces e r (fuel + 1) c = .hit w :: pieces e r fuel c') ∨
    ∃ x rest, c.after = x :: rest ∧ ends e r c = [] ∧ rest.length < fuel ∧
      pieces e r (fuel + 1) c = .gap x :: pieces e r fuel ⟨x :: c.before, rest⟩ := by
  obtain ⟨before, after⟩ := c
  cases found : (ends e r ⟨before, after⟩).head? with
  | none =>
      rw [List.head?_eq_none_iff] at found
      cases after with
      | nil => exact .inl ⟨rfl, pieces_nil some _ _⟩
      | cons x rest =>
          exact .inr (.inr ⟨x, rest, rfl, found, Nat.lt_of_succ_lt_succ enough, pieces_of_none found⟩)
  | some c' =>
      have member := List.mem_of_head? found
      have less := shorter some member
      obtain ⟨w, word, spans⟩ := spans_of_mem member
      refine .inr (.inl ⟨w, c', word, spans, member, ?_, pieces_of_mem some found spans⟩)
      simp only at enough less
      omega

theorem whole_pieces (some : r.consumes = true) {fuel : Nat} {c : Cursor α}
    (enough : c.after.length < fuel) : whole (pieces e r fuel c) = c.after := by
  induction fuel generalizing c with
  | zero => cases enough
  | succ fuel ih =>
      rcases pieces_cases some enough with ⟨empty, isNil⟩ | ⟨w, c', _, spans, _, less, isHit⟩ |
          ⟨x, rest, isCons, _, less, isGap⟩
      · rw [isNil, empty, whole_nil]
      · rw [isHit, whole_hit, ih less, spans.after]
      · rw [isGap, whole_gap, ih less, isCons]

/-- A text is what it was cut into. -/
theorem whole_cut (some : r.consumes = true) (text : List α) : whole (cut e r text) = text :=
  whole_pieces some (Nat.lt_succ_self _)

theorem word_of_hit (some : r.consumes = true) {fuel : Nat} {c : Cursor α}
    (enough : c.after.length < fuel) {m : List α} (member : .hit m ∈ pieces e r fuel c) :
    Word e.is r m := by
  induction fuel generalizing c with
  | zero => cases enough
  | succ fuel ih =>
      rcases pieces_cases some enough with ⟨_, isNil⟩ | ⟨w, c', word, _, _, less, isHit⟩ |
          ⟨x, rest, _, _, less, isGap⟩
      · rw [isNil] at member
        cases member
      · rw [isHit] at member
        rcases List.mem_cons.mp member with isFirst | later
        · exact Piece.hit.inj isFirst ▸ word
        · exact ih less later
      · rw [isGap] at member
        rcases List.mem_cons.mp member with isFirst | later
        · cases isFirst
        · exact ih (c := ⟨x :: c.before, rest⟩) less later

/-- A star takes as many characters as it can. -/
theorem head_starEnds (p : α → Bool) (before after : List α) : (starEnds p before after).head? =
    .some ⟨(after.takeWhile p).reverse ++ before, after.dropWhile p⟩ := by
  induction after generalizing before with
  | nil => rfl
  | cons x rest ih =>
      rw [starEnds, List.takeWhile_cons, List.dropWhile_cons]
      split
      · rw [List.head?_append, ih, Option.some_or, List.reverse_cons, List.append_assoc]
        rfl
      · rfl

/-- Where nothing begins, there are only characters. -/
theorem pieces_through {w : List α} {fuel : Nat} {before rest : List α}
    (none : ∀ u v, w = u ++ v → v ≠ [] → ends e r ⟨u.reverse ++ before, v ++ rest⟩ = []) :
    pieces e r (fuel + w.length) ⟨before, w ++ rest⟩ =
      w.map .gap ++ pieces e r fuel ⟨w.reverse ++ before, rest⟩ := by
  induction w generalizing before with
  | nil => rfl
  | cons x w ih =>
      have here := none [] (x :: w) rfl (List.cons_ne_nil _ _)
      have none' : ∀ u v, w = u ++ v → v ≠ [] →
          ends e r ⟨u.reverse ++ x :: before, v ++ rest⟩ = [] := by
        intro u v isWord some
        simpa using none (x :: u) v (by rw [isWord, List.cons_append]) some
      have later := ih none'
      rw [List.length_cons, ← Nat.add_assoc, List.cons_append, pieces_of_none (by simpa using here),
        later, List.map_cons, List.cons_append, List.reverse_cons, List.append_assoc]
      rfl

end Cut

end Regex
