import Mathlib.Algebra.BigOperators.Group.List.Basic
import Mathlib.Data.Int.Basic
import CipherChat.Privacy.Passes

/-!
Whether `rehydrate` undoes `redact`: it does when no match swallows a token that an earlier pass has
put into the text.
-/

namespace PiiRedactor

open Rooms (JavaString)
open Regex

variable {u : Unicode}

section Marked

/-- The first text is the second one where some values have become tokens that the map knows. -/
inductive Marked (u : Unicode) (map : List (JavaString × JavaString)) : JavaString → JavaString → Prop
  | nil : Marked u map [] []
  | unit (x : UInt16) {s t : JavaString} : Marked u map s t → Marked u map (x :: s) (x :: t)
  | token (type : EntityType) (n : Nat) (value v : JavaString) {s t : JavaString} :
      map.lookup (tokenOf type n) = some v → keyOf u type v = keyOf u type value →
      Marked u map s t → Marked u map (tokenOf type n ++ s) (value ++ t)

theorem Marked.refl (map : List (JavaString × JavaString)) (text : JavaString) :
    Marked u map text text := by
  induction text with
  | nil => exact .nil
  | cons x text ih => exact .unit x ih

theorem Marked.later {first later : List (JavaString × JavaString)} (grows : first <+: later)
    {s t : JavaString} (marked : Marked u first s t) : Marked u later s t := by
  induction marked with
  | nil => exact .nil
  | unit x _ ih => exact .unit x ih
  | token type n value v listed same _ ih =>
      exact .token type n value v (lookup_grown grows listed) same ih

/-- Where no token begins, the two texts are one. -/
theorem Marked.behind {map : List (JavaString × JavaString)} {m rest text : JavaString}
    (untouched : beginIn rest m = []) (marked : Marked u map (m ++ rest) text) :
    ∃ text', text = m ++ text' ∧ Marked u map rest text' := by
  induction m generalizing text with
  | nil => exact ⟨text, rfl, marked⟩
  | cons x m ih =>
      obtain ⟨none, later⟩ := List.append_eq_nil_iff.mp untouched
      generalize isText : x :: m ++ rest = s at marked
      cases marked with
      | nil => cases isText
      | unit y marked' =>
          obtain ⟨rfl, rfl⟩ := List.cons.inj isText
          obtain ⟨text', rfl, isRest⟩ := ih later marked'
          exact ⟨text', rfl, isRest⟩
      | token type n value v _ _ _ =>
          have found : tokenAt (x :: (m ++ rest)) = some (tokenOf type n) :=
            tokenAt_eq_some.mpr ⟨isToken_tokenOf type n, _, isText.symm⟩
          rw [found] at none
          cases none

theorem swallowed_gaps {w : JavaString} {ps : List (Piece UInt16)}
    (spared : swallowed (w.map .gap ++ ps) = []) : swallowed ps = [] := by
  induction w with
  | nil => exact spared
  | cons x w ih => exact ih (List.append_eq_nil_iff.mp spared).2

/-- A token that begins here and is spared is followed by what the pass does behind it. -/
theorem gaps_of_spared {x : UInt16} {ps : List (Piece UInt16)} {t rest : JavaString}
    (isToken : IsToken t) (same : t ++ rest = x :: whole ps) (spared : cutOff x ps = []) :
    ∃ w ps', t = x :: w ∧ ps = w.map .gap ++ ps' ∧ whole ps' = rest := by
  have found : tokenAt (x :: whole ps) = some t := tokenAt_eq_some.mpr ⟨isToken, rest, same⟩
  have all : (ps.take (t.length - 1)).all isGap = true := by
    simpa [cutOff, found] using spared
  obtain ⟨core, rfl, _⟩ := brackets isToken
  obtain ⟨rfl, later⟩ := List.cons.inj same
  obtain ⟨ps', rfl, isRest⟩ := gaps_of_all (by simpa using all) later.symm
  exact ⟨_, ps', rfl, rfl, isRest⟩

/-- A pass that swallows nothing marks its matches. -/
theorem Marked.put {type : EntityType} {n : Nat} {ps : List (Piece UInt16)} (small : ps.length ≤ n)
    {r : Session} (sound : r.Sound u) (spared : swallowed ps = []) {text : JavaString}
    (marked : Marked u r.map (whole ps) text) :
    Marked u (put u type ps r).2.map (put u type ps r).1 text := by
  induction n generalizing ps r text with
  | zero =>
      obtain rfl := List.length_eq_zero_iff.mp (Nat.le_zero.mp small)
      exact marked
  | succ n ih =>
      cases ps with
      | nil => exact marked
      | cons p ps =>
          have small' : ps.length ≤ n := Nat.le_of_succ_le_succ small
          cases p with
          | hit m =>
              obtain ⟨here, later⟩ := List.append_eq_nil_iff.mp spared
              have hands := tokenFor_hands sound type m
              obtain ⟨k, v, isToken, listed, same⟩ := hands.token
              rw [whole_hit] at marked
              obtain ⟨text', rfl, rest⟩ := marked.behind here
              have kept : (tokenFor u type m r).2.map <+:
                  (PiiRedactor.put u type ps (tokenFor u type m r).2).2.map :=
                (put_sound hands.sound).2
              rw [put_hit, isToken]
              exact .token type k m v (lookup_grown kept (isToken ▸ listed)) same
                (ih small' hands.sound later (rest.later hands.grows))
          | gap x =>
              obtain ⟨here, later⟩ := List.append_eq_nil_iff.mp spared
              generalize isText : whole (.gap x :: ps) = s at marked
              cases marked with
              | nil => cases isText
              | unit y rest =>
                  obtain ⟨rfl, rfl⟩ := List.cons.inj isText
                  exact .unit x (ih small' sound later rest)
              | token type' k value v listed same rest =>
                  obtain ⟨w, ps', isCons, rfl, rfl⟩ :=
                    gaps_of_spared (isToken_tokenOf type' k) isText.symm here
                  have short : ps'.length ≤ n := by
                    rw [List.length_append] at small'
                    omega
                  have kept : r.map <+: (PiiRedactor.put u type ps' r).2.map := (put_sound sound).2
                  rw [put_gap, put_gaps, ← List.cons_append, ← isCons]
                  exact .token type' k value v (lookup_grown kept listed) same
                    (ih short sound (swallowed_gaps later) rest)

/-- The second text is the first one, but for the case of names and e-mail addresses. -/
inductive Recased (u : Unicode) (map : List (JavaString × JavaString)) : JavaString → JavaString → Prop
  | nil : Recased u map [] []
  | unit (x : UInt16) {s t : JavaString} : Recased u map s t → Recased u map (x :: s) (x :: t)
  | value (type : EntityType) (n : Nat) (value v : JavaString) {s t : JavaString} :
      type = .PERSON ∨ type = .EMAIL → map.lookup (tokenOf type n) = some v →
      u.toLowerCase v = u.toLowerCase value →
      Recased u map s t → Recased u map (value ++ s) (v ++ t)

theorem Recased.append {map : List (JavaString × JavaString)} {s t : JavaString}
    (recased : Recased u map s t) (w : JavaString) : Recased u map (w ++ s) (w ++ t) := by
  induction w with
  | nil => exact recased
  | cons x w ih => exact .unit x ih

theorem Marked.early {map : List (JavaString × JavaString)} {w s text : JavaString} (plain : 0x5B ∉ w)
    (early : w <+: s) (marked : Marked u map s text) : w <+: text := by
  induction marked generalizing w with
  | nil => exact early
  | unit x _ ih =>
      cases w with
      | nil => exact List.nil_prefix
      | cons y w =>
          obtain ⟨rfl, early'⟩ := List.cons_prefix_cons.mp early
          exact List.cons_prefix_cons.mpr
            ⟨rfl, ih (fun member => plain (List.mem_cons_of_mem _ member)) early'⟩
  | token type n value v _ _ _ _ =>
      cases w with
      | nil => exact List.nil_prefix
      | cons y w =>
          obtain ⟨core, isToken, _⟩ := brackets (isToken_tokenOf type n)
          rw [isToken, List.cons_append] at early
          exact absurd ((List.cons_prefix_cons.mp early).1 ▸ List.mem_cons_self) plain

/-- A text without tokens comes back from its marks. -/
theorem Marked.rehydrate {map : List (JavaString × JavaString)} {s text : JavaString}
    (marked : Marked u map s text) (without : tokensIn text = []) :
    Recased u map text (rehydrate s map) := by
  induction marked with
  | nil => exact rehydrate_nil map ▸ .nil
  | unit x marked ih =>
      rename_i s text
      rw [tokensIn_cons] at without
      obtain ⟨here, later⟩ := List.append_eq_nil_iff.mp without
      have none : tokenAt (x :: s) = none := by
        cases found : tokenAt (x :: s) with
        | none => rfl
        | some t =>
            obtain ⟨isToken, early⟩ := tokenAt_eq_some.mp found
            obtain ⟨core, rfl, noMark, _⟩ := brackets isToken
            obtain ⟨rfl, early'⟩ := List.cons_prefix_cons.mp early
            have before := tokenAt_eq_some.mpr ⟨isToken, List.cons_prefix_cons.mpr
              ⟨rfl, marked.early (by simpa using noMark) early'⟩⟩
            rw [before] at here
            cases here
      rw [rehydrate_unit map none]
      exact .unit x (ih later)
  | token type n value v listed same _ ih =>
      rw [tokensIn_append] at without
      have rest := ih (List.append_eq_nil_iff.mp without).2
      rw [rehydrate_token map (isToken_tokenOf type n), valueOf, listed, Option.getD_some]
      by_cases cased : type = .PERSON ∨ type = .EMAIL
      · have lower := (Prod.mk.inj same).2
        rw [if_pos cased, if_pos cased] at lower
        exact .value type n value v cased listed lower rest
      · have equal := (Prod.mk.inj same).2
        rw [if_neg cased, if_neg cased] at equal
        exact equal ▸ rest.append v

end Marked

section Counted

variable {map : List (JavaString × JavaString)}

/-- How much more often the value has the character than its token. -/
def gain (map : List (JavaString × JavaString)) (c : UInt16) (t : JavaString) : Int :=
  (valueOf map t).count c - t.count c

theorem rehydrate_plain {w : JavaString} (plain : 0x5B ∉ w) (rest : JavaString) :
    rehydrate (w ++ rest) map = w ++ rehydrate rest map := by
  induction w with
  | nil => rfl
  | cons x w ih =>
      obtain ⟨noMark, plain'⟩ := not_or.mp (mt List.mem_cons.mpr plain)
      have none : tokenAt (x :: (w ++ rest)) = none := by
        cases found : tokenAt (x :: (w ++ rest)) with
        | none => rfl
        | some t => exact absurd (head_of_tokenAt found).symm noMark
      rw [List.cons_append, rehydrate_unit map none, ih plain', List.cons_append]

theorem count_unit (c x : UInt16) (rest : JavaString) :
    ((rehydrate (x :: rest) map).count c : Int) = [x].count c + (rehydrate rest map).count c +
      ((tokenAt (x :: rest)).toList.map (gain map c)).sum := by
  cases found : tokenAt (x :: rest) with
  | none =>
      rw [rehydrate_unit map found, ← List.singleton_append, List.count_append]
      simp
  | some t =>
      obtain ⟨isToken, rest', same⟩ := tokenAt_eq_some.mp found
      obtain ⟨core, isCons, noMark, _⟩ := brackets isToken
      have later : rehydrate rest map = (core ++ [0x5D]) ++ rehydrate rest' map := by
        rw [isCons, List.cons_append] at same
        rw [← (List.cons.inj same).2, rehydrate_plain (by simpa using noMark)]
      have first : t.count c = [x].count c + (core ++ [0x5D]).count c := by
        rw [isCons, head_of_tokenAt found, ← List.singleton_append, List.count_append]
      rw [← same, rehydrate_token map isToken, later, List.count_append, List.count_append]
      simp only [Option.toList_some, List.map_singleton, List.sum_singleton, gain]
      omega

theorem count_begin (c : UInt16) (m rest : JavaString) :
    ((rehydrate (m ++ rest) map).count c : Int) = m.count c + (rehydrate rest map).count c +
      ((beginIn rest m).map (gain map c)).sum := by
  induction m with
  | nil => simp [beginIn]
  | cons x m ih =>
      have first : (x :: m).count c = [x].count c + m.count c := by
        rw [← List.singleton_append, List.count_append]
      rw [List.cons_append, count_unit, ih, beginIn, List.map_append, List.sum_append, first]
      omega

theorem count_key {type : EntityType} {v value : JavaString} (same : keyOf u type v = keyOf u type value)
    {c : UInt16} (ascii : c.toNat < 0x80) (noLetter : isLetter c = false) : v.count c = value.count c := by
  have equal := (Prod.mk.inj same).2
  split at equal
  · rw [← u.count_lower v c ascii noLetter, equal, u.count_lower value c ascii noLetter]
  · rw [equal]

/-- What is lost of a character in a pass are the gains of the tokens that the pass swallows. -/
theorem count_put {type : EntityType} {ps : List (Piece UInt16)} {r : Session} (sound : r.Sound u)
    (grows : (put u type ps r).2.map <+: map) {c : UInt16} (ascii : c.toNat < 0x80)
    (noLetter : isLetter c = false) : ((rehydrate (whole ps) map).count c : Int) =
      (rehydrate (put u type ps r).1 map).count c + ((swallowed ps).map (gain map c)).sum := by
  induction ps generalizing r with
  | nil => simp [swallowed, replace]
  | cons p ps ih =>
      cases p with
      | hit m =>
          have hands := tokenFor_hands sound type m
          obtain ⟨n, v, _, listed, same⟩ := hands.token
          have kept : (tokenFor u type m r).2.map <+: (put u type ps (tokenFor u type m r).2).2.map :=
            (put_sound hands.sound).2
          have isValue : valueOf map (tokenFor u type m r).1 = v := by
            rw [valueOf, lookup_grown (kept.trans grows) listed, Option.getD_some]
          rw [whole_hit, count_begin, ih hands.sound grows, put_hit,
            rehydrate_token map hands.isToken, isValue, List.count_append,
            count_key same ascii noLetter, swallowed, List.map_append, List.sum_append]
          omega
      | gap x =>
          have here : ((tokenAt (x :: whole ps)).toList.map (gain map c)).sum =
              ((tokenAt (x :: (put u type ps r).1)).toList.map (gain map c)).sum +
                ((cutOff x ps).map (gain map c)).sum := by
            have kept (t : JavaString) : tokenAt (x :: (put u type ps r).1) = some t ↔
                tokenAt (x :: whole ps) = some t ∧ (ps.take (t.length - 1)).all isGap = true :=
              tokenAt_put sound x t
            cases found : tokenAt (x :: whole ps) with
            | none =>
                have none : tokenAt (x :: (put u type ps r).1) = none := by
                  cases found' : tokenAt (x :: (put u type ps r).1) with
                  | none => rfl
                  | some t => exact absurd ((kept t).mp found').1 (by rw [found]; simp)
                simp [none, cutOff, found]
            | some t =>
                by_cases gaps : (ps.take (t.length - 1)).all isGap = true
                · simp [(kept t).mpr ⟨found, gaps⟩, cutOff, found, gaps]
                · have none : tokenAt (x :: (put u type ps r).1) = none := by
                    cases found' : tokenAt (x :: (put u type ps r).1) with
                    | none => rfl
                    | some t' =>
                        obtain ⟨before, all⟩ := (kept t').mp found'
                        obtain rfl := Option.some.inj (found.symm.trans before)
                        exact absurd all gaps
                  simp [none, cutOff, found, gaps]
          rw [whole_gap, count_unit, ih sound grows, put_gap, count_unit, here, swallowed,
            List.map_append, List.sum_append]
          omega

theorem rehydrate_without {text : JavaString} (without : tokensIn text = []) :
    rehydrate text map = text := by
  induction text with
  | nil => exact rehydrate_nil map
  | cons x text ih =>
      rw [tokensIn_cons] at without
      obtain ⟨here, later⟩ := List.append_eq_nil_iff.mp without
      have none : tokenAt (x :: text) = none := by
        cases found : tokenAt (x :: text) with
        | none => rfl
        | some t =>
            rw [found] at here
            cases here
      rw [rehydrate_unit map none, ih later]

theorem Recased.count {s t : JavaString} (recased : Recased u map s t) {c : UInt16}
    (ascii : c.toNat < 0x80) (noLetter : isLetter c = false) : s.count c = t.count c := by
  induction recased with
  | nil => rfl
  | unit x _ ih => rw [List.count_cons, List.count_cons, ih]
  | value type n value v _ _ same _ ih =>
      rw [List.count_append, List.count_append, ih, ← u.count_lower v c ascii noLetter, same,
        u.count_lower value c ascii noLetter]

end Counted

end PiiRedactor
