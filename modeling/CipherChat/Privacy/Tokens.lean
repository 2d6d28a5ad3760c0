import CipherChat.Privacy.Redaction
import CipherChat.Text.Decimal

/-!
The shape of the redactor's tokens: where one begins in a text, which is the one that begins there,
and how `rehydrate` walks over them.
-/

namespace PiiRedactor

open Rooms (JavaString)
open Utf (isSpace)
open Regex

/-- The redactor's own token shape. -/
def IsToken (t : JavaString) : Prop :=
  Word (reads isSpace) TOKEN t

theorem ofString_append (s t : String) :
    Utf.ofString (s ++ t) = Utf.ofString s ++ Utf.ofString t := by
  simp [Utf.ofString]

theorem ofString_injective {s t : String} (same : Utf.ofString s = Utf.ofString t) : s = t := by
  have points := congrArg Utf.points same
  rw [← List.append_nil (Utf.ofString s), ← List.append_nil (Utf.ofString t),
    Utf.points_ofString_append, Utf.points_ofString_append, List.append_cancel_right_eq] at points
  exact String.toList_injective ((List.map_injective_iff.mpr fun _ _ => Char.toNat_inj.mp) points)

section Shape

theorem word_char {c : String} {w : JavaString} (word : Word (reads isSpace) (char c) w) :
    ∃ x ∈ Utf.ofString c, w = [x] := by
  obtain ⟨x, rfl, isOne⟩ := word
  exact ⟨x, List.contains_iff_mem.mp isOne, rfl⟩

theorem word_cat {cs : List Char} (w : JavaString) :
    Word (reads isSpace) (literal (cs.map Char.toString)) w ↔
      List.Forall₂ (fun c x => x ∈ Utf.ofString c.toString) cs w := by
  have one (c : Char) (w : JavaString) : Word (reads isSpace) (char c.toString) w ↔
      ∃ x ∈ Utf.ofString c.toString, w = [x] := by
    refine ⟨word_char, fun found => ?_⟩
    obtain ⟨x, member, rfl⟩ := found
    exact ⟨x, rfl, List.contains_iff_mem.mpr member⟩
  induction cs generalizing w with
  | nil => simp [literal, cat, Word]
  | cons c cs ih =>
      cases cs with
      | nil =>
          simp only [literal, List.map_cons, List.map_nil, cat, one]
          constructor
          · rintro ⟨x, member, rfl⟩
            exact .cons member .nil
          · rintro (_ | ⟨member, _ | _⟩)
            exact ⟨_, member, rfl⟩
      | cons c' cs =>
          have step : literal ((c :: c' :: cs).map Char.toString) =
              .seq (char c.toString) (literal ((c' :: cs).map Char.toString)) := rfl
          rw [step]
          constructor
          · rintro ⟨u, v, rfl, first, rest⟩
            obtain ⟨x, member, rfl⟩ := (one c u).mp first
            exact .cons member ((ih v).mp rest)
          · rintro (_ | ⟨member, rest⟩)
            exact ⟨[_], _, rfl, (one c _).mpr ⟨_, member, rfl⟩, (ih _).mpr rest⟩

theorem word_spelled {s : String} (ascii : ∀ c ∈ s.toList, Utf.ofString c.toString = [UInt16.ofNat c.toNat])
    {w : JavaString} : Word (reads isSpace) (spelled s) w ↔ w = s.toList.map fun c => UInt16.ofNat c.toNat := by
  rw [spelled, word_cat]
  generalize s.toList = cs at ascii
  constructor
  · intro all
    induction all with
    | nil => rfl
    | cons member _ ih =>
        rw [ascii _ List.mem_cons_self, List.mem_singleton] at member
        rw [member, ih fun c later => ascii c (List.mem_cons_of_mem _ later), List.map_cons]
  · rintro rfl
    induction cs with
    | nil => exact .nil
    | cons c cs ih =>
        refine .cons ?_ (ih fun c later => ascii c (List.mem_cons_of_mem _ later))
        rw [ascii c List.mem_cons_self]
        exact List.mem_singleton_self _

theorem word_name (type : EntityType) {w : JavaString} :
    Word (reads isSpace) (spelled type.name) w ↔ w = Utf.ofString type.name := by
  rw [word_spelled (by cases type <;> exact each_of_all (by decide))]
  cases type <;> rfl

theorem word_anyType {w : JavaString} :
    Word (reads isSpace) anyType w ↔ ∃ type : EntityType, w = Utf.ofString type.name := by
  simp only [anyType, List.map_cons, List.map_nil, any, Word, word_name]
  constructor
  · rintro (isOne | isOne | isOne | isOne | isOne | isOne | isOne | isOne) <;> exact ⟨_, isOne⟩
  · rintro ⟨type, rfl⟩
    cases type <;> simp

/-- A token is the name of a type and a number between brackets. -/
theorem isToken_iff {t : JavaString} : IsToken t ↔ ∃ (type : EntityType) (ds : JavaString), ds ≠ [] ∧
    (∀ d ∈ ds, isDigit d = true) ∧ t = 0x5B :: (Utf.ofString type.name ++ 0x5F :: ds) ++ [0x5D] := by
  constructor
  · rintro ⟨_, _, rfl, opens, _, _, rfl, ⟨_, _, rfl, isName, _, _, rfl, isMark, _, _, rfl, ⟨d, rfl, first⟩, more⟩,
      closes⟩
    obtain ⟨type, rfl⟩ := word_anyType.mp isName
    obtain ⟨x, member, rfl⟩ := word_char opens
    obtain ⟨y, member', rfl⟩ := word_char isMark
    obtain ⟨z, member'', rfl⟩ := word_char closes
    obtain rfl := List.mem_singleton.mp (show x ∈ [0x5B] from member)
    obtain rfl := List.mem_singleton.mp (show y ∈ [0x5F] from member')
    obtain rfl := List.mem_singleton.mp (show z ∈ [0x5D] from member'')
    exact ⟨type, _, List.cons_ne_nil d _, List.forall_mem_cons.mpr ⟨first, more⟩, by simp⟩
  · rintro ⟨type, ds, some, all, rfl⟩
    obtain ⟨d, ds, rfl⟩ := List.exists_cons_of_ne_nil some
    obtain ⟨first, more⟩ := List.forall_mem_cons.mp all
    refine ⟨[0x5B], _, by simp, ⟨0x5B, rfl, by decide⟩, Utf.ofString type.name ++ 0x5F :: d :: ds,
      [0x5D], rfl, ⟨_, _, rfl, word_anyType.mpr ⟨type, rfl⟩, [0x5F], _, rfl, ⟨0x5F, rfl, by decide⟩,
        [d], ds, rfl, ⟨d, rfl, first⟩, more⟩, ⟨0x5D, rfl, by decide⟩⟩

theorem isWord_name (type : EntityType) : ∀ x ∈ Utf.ofString type.name, isWord x = true := by
  cases type <;> exact each_of_all (by decide)

theorem length_name_le (type : EntityType) : (Utf.ofString type.name).length ≤ 6 := by
  cases type <;> decide

theorem isWord_core {type : EntityType} {ds : JavaString} (all : ∀ d ∈ ds, isDigit d = true) :
    ∀ x ∈ Utf.ofString type.name ++ 0x5F :: ds, isWord x = true := by
  intro x member
  rcases List.mem_append.mp member with isName | isRest
  · exact isWord_name type x isName
  · rcases List.mem_cons.mp isRest with rfl | isLast
    · decide
    · simp [isWord, all x isLast]

/-- The brackets stand at the ends of a token only. -/
theorem brackets {t : JavaString} (isToken : IsToken t) :
    ∃ core, t = 0x5B :: (core ++ [0x5D]) ∧ 0x5B ∉ core ∧ 0x5D ∉ core := by
  obtain ⟨type, ds, _, all, rfl⟩ := isToken_iff.mp isToken
  refine ⟨Utf.ofString type.name ++ 0x5F :: ds, rfl, ?_, ?_⟩ <;> intro member <;>
    exact absurd (isWord_core all _ member) (by decide)

theorem isToken_tokenOf (type : EntityType) (n : Nat) : IsToken (tokenOf type n) := by
  refine isToken_iff.mpr ⟨type, Utf.ofString (toString n), ?_, ?_, ?_⟩
  · obtain ⟨c, cs, isCons, _⟩ := Number.toDigits_head n
    intro empty
    have some : (Nat.toDigits 10 n).flatMap (fun c => Utf.unitsOf c.toNat) = [] := by
      simpa [Utf.ofString] using empty
    rw [isCons, List.flatMap_cons, List.append_eq_nil_iff, Utf.unitsOf] at some
    split at some <;> simp at some
  · intro d member
    have isUnit : d ∈ (Nat.toDigits 10 n).flatMap (fun c => Utf.unitsOf c.toNat) := by
      simpa [Utf.ofString] using member
    obtain ⟨c, listed, here⟩ := List.mem_flatMap.mp isUnit
    have digit : 48 ≤ c.toNat ∧ c.toNat ≤ 57 :=
      Char.isDigit_iff_toNat.mp (Number.isDigit_toDigits listed)
    rw [Utf.unitsOf, if_pos (by omega), List.mem_singleton] at here
    subst here
    have small : (UInt16.ofNat c.toNat).toNat = c.toNat :=
      UInt16.toNat_ofNat_of_lt' (by rw [UInt16.size]; omega)
    rw [isDigit, range, small, Bool.and_eq_true, decide_eq_true_eq, decide_eq_true_eq]
    exact digit
  · have opens : Utf.ofString "[" = [0x5B] := rfl
    have mark : Utf.ofString "_" = [0x5F] := rfl
    have closes : Utf.ofString "]" = [0x5D] := rfl
    simp [tokenOf, ofString_append, opens, mark, closes]

/-- A token tells its type and its number. -/
theorem tokenOf_injective {type type' : EntityType} {n n' : Nat}
    (same : tokenOf type n = tokenOf type' n') : type = type' ∧ n = n' := by
  have chars (type : EntityType) (n : Nat) : ("[" ++ type.name ++ "_" ++ toString n ++ "]").toList =
      '[' :: (type.name.toList ++ '_' :: (Nat.toDigits 10 n ++ [']'])) := by
    simp
  have texts := congrArg String.toList (ofString_injective same)
  rw [chars, chars] at texts
  have numbers := congrArg (List.filter Char.isDigit) texts
  have names := congrArg (List.filter fun c => !c.isDigit) texts
  have onlyDigits (n : Nat) : (Nat.toDigits 10 n).filter Char.isDigit = Nat.toDigits 10 n :=
    List.filter_eq_self.mpr fun _ => Number.isDigit_toDigits
  have noOther (n : Nat) : (Nat.toDigits 10 n).filter (fun c => !c.isDigit) = [] :=
    List.filter_eq_nil_iff.mpr fun _ member => by simp [Number.isDigit_toDigits member]
  have noDigits (type : EntityType) : type.name.toList.filter Char.isDigit = [] := by
    cases type <;> decide
  have closes : [']'].filter Char.isDigit = [] := by decide
  have marks : Char.isDigit '[' = false ∧ Char.isDigit '_' = false := by decide
  simp only [List.filter_cons, List.filter_append, onlyDigits, noOther, noDigits, closes, marks,
    Bool.false_eq_true, if_false, List.nil_append, List.append_nil, Bool.not_false, if_true] at numbers names
  refine ⟨?_, ?_⟩
  · cases type <;> cases type' <;> first | rfl | (revert names; decide)
  · rw [← Nat.ofDigitChars_ten_toDigits (n := n), numbers, Nat.ofDigitChars_ten_toDigits]

end Shape

section Walk

theorem eq_of_mark {α : Type} {x : α} {u v s t : List α} (inU : x ∉ u) (inV : x ∉ v)
    (same : u ++ x :: s = v ++ x :: t) : u = v := by
  induction u generalizing v with
  | nil =>
      cases v with
      | nil => rfl
      | cons y v =>
          obtain rfl := (List.cons.inj same).1
          exact absurd List.mem_cons_self inV
  | cons y u ih =>
      cases v with
      | nil =>
          obtain rfl := (List.cons.inj same).1
          exact absurd List.mem_cons_self inU
      | cons z v =>
          obtain ⟨rfl, rest⟩ := List.cons.inj same
          rw [ih (fun member => inU (List.mem_cons_of_mem _ member))
            (fun member => inV (List.mem_cons_of_mem _ member)) rest]

/-- One token at most begins at a place. -/
theorem isToken_unique {t t' rest rest' : JavaString} (isToken : IsToken t) (isToken' : IsToken t')
    (same : t ++ rest = t' ++ rest') : t = t' := by
  obtain ⟨core, rfl, _, noEnd⟩ := brackets isToken
  obtain ⟨core', rfl, _, noEnd'⟩ := brackets isToken'
  simp only [List.cons_append, List.append_assoc, List.cons.injEq, true_and, List.nil_append] at same
  rw [eq_of_mark noEnd noEnd' same]

/-- The token that the text begins with. -/
def tokenAt (text : JavaString) : Option JavaString :=
  (ends (engine isSpace) TOKEN ⟨[], text⟩).head?.map (consumed ⟨[], text⟩)

theorem free_token : TOKEN.free = true := by
  decide

theorem consumes_token : TOKEN.consumes = true := by
  decide

theorem head_token {t : JavaString} (isToken : IsToken t) (before rest : JavaString) :
    (ends (engine isSpace) TOKEN ⟨before, t ++ rest⟩).head? = some ⟨t.reverse ++ before, rest⟩ := by
  have spans : Spans ⟨before, t ++ rest⟩ t ⟨t.reverse ++ before, rest⟩ := ⟨rfl, rfl⟩
  have member := mem_of_spans (e := engine isSpace) free_token isToken spans
  cases found : (ends (engine isSpace) TOKEN ⟨before, t ++ rest⟩).head? with
  | none =>
      rw [List.head?_eq_none_iff.mp found] at member
      cases member
  | some c =>
      obtain ⟨w, word, spans'⟩ := spans_of_mem (List.mem_of_head? found)
      obtain ⟨b, a⟩ := c
      have same : t ++ rest = w ++ a := spans'.after
      obtain rfl := isToken_unique isToken word same
      obtain rfl := List.append_cancel_left same
      rw [show b = t.reverse ++ before from spans'.before]

theorem tokenAt_eq_some {text t : JavaString} :
    tokenAt text = some t ↔ IsToken t ∧ t <+: text := by
  constructor
  · intro found
    obtain ⟨c, isEnd, rfl⟩ := Option.map_eq_some_iff.mp found
    obtain ⟨w, word, spans⟩ := spans_of_mem (List.mem_of_head? isEnd)
    rw [consumed_of_spans spans]
    exact ⟨word, c.after, spans.after.symm⟩
  · rintro ⟨isToken, rest, rfl⟩
    rw [tokenAt, head_token isToken, Option.map_some, consumed_of_spans ⟨rfl, rfl⟩]

theorem ends_of_none {text : JavaString} (none : tokenAt text = none) (before : JavaString) :
    ends (engine isSpace) TOKEN ⟨before, text⟩ = [] := by
  rw [List.eq_nil_iff_forall_not_mem]
  intro c member
  obtain ⟨w, word, spans⟩ := spans_of_mem member
  have some := tokenAt_eq_some.mpr ⟨word, c.after, spans.after.symm⟩
  rw [none] at some
  cases some

/-- A token is not empty, and what is left of a text behind it is shorter. -/
theorem exists_rest {text t : JavaString} (found : tokenAt text = some t) :
    IsToken t ∧ ∃ rest, text = t ++ rest ∧ rest.length < text.length := by
  obtain ⟨isToken, rest, rfl⟩ := tokenAt_eq_some.mp found
  obtain ⟨core, rfl, _⟩ := brackets isToken
  refine ⟨isToken, rest, rfl, ?_⟩
  simp only [List.length_append, List.length_cons]
  omega

/-- Neither the fuel nor the text before has a part in it. -/
theorem pieces_token {fuel fuel' : Nat} {before before' text : JavaString} (enough : text.length < fuel)
    (enough' : text.length < fuel') : pieces (engine isSpace) TOKEN fuel ⟨before, text⟩ =
      pieces (engine isSpace) TOKEN fuel' ⟨before', text⟩ := by
  induction fuel generalizing fuel' before before' text with
  | zero => cases enough
  | succ fuel ih =>
      obtain ⟨fuel', rfl⟩ := Nat.exists_eq_succ_of_ne_zero (Nat.ne_of_gt (Nat.zero_lt_of_lt enough'))
      cases found : tokenAt text with
      | some t =>
          obtain ⟨isToken, rest, rfl, less⟩ := exists_rest found
          rw [pieces_of_mem consumes_token (head_token isToken before rest) ⟨rfl, rfl⟩,
            pieces_of_mem consumes_token (head_token isToken before' rest) ⟨rfl, rfl⟩]
          exact congrArg _ (ih (by omega) (by omega))
      | none =>
          cases text with
          | nil => rw [pieces_nil consumes_token, pieces_nil consumes_token]
          | cons x rest =>
              rw [List.length_cons] at enough enough'
              rw [pieces_of_none (ends_of_none found before), pieces_of_none (ends_of_none found before')]
              exact congrArg _ (ih (by omega) (by omega))

theorem cut_token {t : JavaString} (isToken : IsToken t) (rest : JavaString) :
    cut (engine isSpace) TOKEN (t ++ rest) = .hit t :: cut (engine isSpace) TOKEN rest := by
  obtain ⟨_, rest', same, less⟩ := exists_rest (tokenAt_eq_some.mpr ⟨isToken, rest, rfl⟩)
  obtain rfl := List.append_cancel_left same
  rw [cut, pieces_of_mem consumes_token (head_token isToken [] rest) ⟨rfl, rfl⟩]
  exact congrArg _ (pieces_token less (Nat.lt_succ_self _))

theorem cut_unit {x : UInt16} {rest : JavaString} (none : tokenAt (x :: rest) = none) :
    cut (engine isSpace) TOKEN (x :: rest) = .gap x :: cut (engine isSpace) TOKEN rest := by
  rw [cut, pieces_of_none (ends_of_none none [])]
  exact congrArg _ (pieces_token (Nat.lt_succ_self _) (Nat.lt_succ_self _))

variable (map : List (JavaString × JavaString))

@[simp] theorem rehydrate_nil : rehydrate [] map = [] := by
  rw [rehydrate, cut, pieces_nil consumes_token, List.flatMap_nil]

theorem rehydrate_token {t : JavaString} (isToken : IsToken t) (rest : JavaString) :
    rehydrate (t ++ rest) map = valueOf map t ++ rehydrate rest map := by
  rw [rehydrate, cut_token isToken, List.flatMap_cons, rehydrate]

theorem rehydrate_unit {x : UInt16} {rest : JavaString} (none : tokenAt (x :: rest) = none) :
    rehydrate (x :: rest) map = x :: rehydrate rest map := by
  rw [rehydrate, cut_unit none, List.flatMap_cons, rehydrate]
  rfl

/-- Only an opening bracket begins a token. -/
theorem head_of_tokenAt {x : UInt16} {rest t : JavaString} (found : tokenAt (x :: rest) = some t) :
    x = 0x5B := by
  obtain ⟨isToken, rest', same⟩ := tokenAt_eq_some.mp found
  obtain ⟨core, rfl, _⟩ := brackets isToken
  exact (List.cons.inj same).1.symm

end Walk

end PiiRedactor
