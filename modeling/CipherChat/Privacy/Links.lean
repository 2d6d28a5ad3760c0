import CipherChat.Privacy.Detections
import CipherChat.Privacy.Rehydrate

/-!
Links that have an e-mail address in them: the expression for links takes the address's token with it.
-/

namespace PiiRedactor

open Rooms (JavaString)
open Utf (isSpace)
open Regex

/-- A character that a link goes on with. -/
def inLink (x : UInt16) : Bool :=
  !isSpace x && !among "<>()\"'" x

/-- The link that goes on here has an entity in it. -/
def reaches : List Item → Bool
  | [] => false
  | .unit x :: rest => inLink x && reaches rest
  | .entity .. :: _ => true

def schemes : List JavaString :=
  [Utf.ofString "http://", Utf.ofString "https://"]

def opensLink (items : List Item) : Bool :=
  schemes.any fun scheme => (scheme.map Item.unit).isPrefixOf items

/-- Here a link begins, not inside a word, that has an entity in it. -/
def linkedHere (before items : List Item) : Bool :=
  !before.head?.any Item.isWord && opensLink items && reaches items

/-- Behind this text a link has an entity in it. -/
def linked : List Item → List Item → Bool
  | _, [] => false
  | before, i :: rest => linkedHere before (i :: rest) || linked (i :: before) rest

section Scan

theorem reaches_units {w : JavaString} (all : ∀ x ∈ w, inLink x = true) (rest : List Item) :
    reaches (w.map .unit ++ rest) = reaches rest := by
  induction w with
  | nil => rfl
  | cons x w ih =>
      rw [List.map_cons, List.cons_append, reaches, all x List.mem_cons_self, Bool.true_and,
        ih fun y member => all y (List.mem_cons_of_mem _ member)]

/-- Within a link that has no entity in it, none begins that has one. -/
theorem linked_units {w : JavaString} (all : ∀ x ∈ w, inLink x = true) {before rest : List Item}
    (none : reaches rest = false) :
    linked before (w.map .unit ++ rest) = linked ((w.map Item.unit).reverse ++ before) rest := by
  induction w generalizing before with
  | nil => rfl
  | cons x w ih =>
      have whole := reaches_units all rest
      rw [none, List.map_cons, List.cons_append] at whole
      rw [List.map_cons, List.cons_append, linked, linkedHere, whole, Bool.and_false, Bool.false_or,
        ih fun y member => all y (List.mem_cons_of_mem _ member)]
      simp

theorem inLink_scheme {scheme : JavaString} (member : scheme ∈ schemes) : ∀ x ∈ scheme, inLink x = true := by
  have checked : ∀ scheme ∈ schemes, scheme.all inLink = true := by decide
  exact List.all_eq_true.mp (checked scheme member)

theorem opensLink_iff {items : List Item} :
    opensLink items = true ↔ ∃ scheme ∈ schemes, ∃ rest, items = scheme.map .unit ++ rest := by
  simp only [opensLink, List.any_eq_true, List.isPrefixOf_iff_prefix]
  exact exists_congr fun scheme => and_congr_right fun _ =>
    ⟨fun ⟨rest, same⟩ => ⟨rest, same.symm⟩, fun ⟨rest, same⟩ => ⟨rest, same.symm⟩⟩

theorem reaches_cases {items : List Item} (found : reaches items = true) :
    ∃ (w : JavaString) (type : EntityType) (value : JavaString) (rest : List Item),
      (∀ x ∈ w, inLink x = true) ∧ items = w.map .unit ++ .entity type value :: rest := by
  induction items with
  | nil => cases found
  | cons i items ih =>
      cases i with
      | unit x =>
          rw [reaches, Bool.and_eq_true] at found
          obtain ⟨w, type, value, rest, all, rfl⟩ := ih found.2
          exact ⟨x :: w, type, value, rest, List.forall_mem_cons.mpr ⟨found.1, all⟩, rfl⟩
      | entity type value => exact ⟨[], type, value, items, by simp, rfl⟩

end Scan

section Expression

/-- The expression for links, up to the address. -/
def scheme : Pattern :=
  cat [edge, literal ["h", "t", "t", "p"], opt (char "s"), literal [":", "/", "/"]]

/-- `[^\s<>()"']` -/
def linkClass : Class :=
  fun white x => !white && !among "<>()\"'" x

theorem ends_url {α : Type} (e : Engine Class α) (c : Cursor α) :
    ends e url c = (ends e scheme c).flatMap (ends e (plus linkClass)) := by
  simp only [url, scheme, cat, ends, List.flatMap_assoc]
  rfl

theorem word_char_item {c : String} {w : List Item} (word : Word itemEngine.is (char c) w) :
    ∃ x ∈ Utf.ofString c, w = [.unit x] := by
  obtain ⟨i, rfl, isOne⟩ := word
  cases i with
  | unit x => exact ⟨x, List.contains_iff_mem.mp isOne, rfl⟩
  | entity => cases isOne

theorem scheme_of_mem {c c' : Cursor Item} (member : c' ∈ ends itemEngine scheme c) :
    c.before.head?.any Item.isWord = false ∧ ∃ s ∈ schemes, Spans c (s.map .unit) c' := by
  obtain ⟨w, word, spans⟩ := spans_of_mem member
  obtain ⟨_, _, rfl, rfl, _, _, rfl, ⟨_, _, rfl, h, _, _, rfl, t, _, _, rfl, t', p⟩, _, _, rfl, s,
    _, _, rfl, colon, _, _, rfl, slash, slash'⟩ := word
  obtain ⟨x, isX, rfl⟩ := word_char_item h
  obtain ⟨x₁, isX₁, rfl⟩ := word_char_item t
  obtain ⟨x₂, isX₂, rfl⟩ := word_char_item t'
  obtain ⟨x₃, isX₃, rfl⟩ := word_char_item p
  obtain ⟨x₄, isX₄, rfl⟩ := word_char_item colon
  obtain ⟨x₅, isX₅, rfl⟩ := word_char_item slash
  obtain ⟨x₆, isX₆, rfl⟩ := word_char_item slash'
  obtain rfl := List.mem_singleton.mp (show x ∈ [0x68] from isX)
  obtain rfl := List.mem_singleton.mp (show x₁ ∈ [0x74] from isX₁)
  obtain rfl := List.mem_singleton.mp (show x₂ ∈ [0x74] from isX₂)
  obtain rfl := List.mem_singleton.mp (show x₃ ∈ [0x70] from isX₃)
  obtain rfl := List.mem_singleton.mp (show x₄ ∈ [0x3A] from isX₄)
  obtain rfl := List.mem_singleton.mp (show x₅ ∈ [0x2F] from isX₅)
  obtain rfl := List.mem_singleton.mp (show x₆ ∈ [0x2F] from isX₆)
  constructor
  · obtain ⟨c₁, isEdge, _⟩ := List.mem_flatMap.mp member
    simp only [edge, ends] at isEdge
    split at isEdge
    next holds =>
      have next : c.after.head?.any Item.isWord = true := by
        rw [spans.after]
        rfl
      simpa [itemEngine, next] using holds
    next => cases isEdge
  · rcases s with s | rfl
    · obtain ⟨x, isX, rfl⟩ := word_char_item s
      obtain rfl := List.mem_singleton.mp (show x ∈ [0x73] from isX)
      exact ⟨Utf.ofString "https://", by simp [schemes], spans⟩
    · exact ⟨Utf.ofString "http://", by simp [schemes], spans⟩

theorem ends_scheme {s : JavaString} (member : s ∈ schemes) {before rest : List Item}
    (start : before.head?.any Item.isWord = false) : ends itemEngine scheme ⟨before, s.map .unit ++ rest⟩ =
      [⟨(s.map Item.unit).reverse ++ before, rest⟩] := by
  have holds : ends itemEngine edge ⟨before, s.map .unit ++ rest⟩ = [⟨before, s.map .unit ++ rest⟩] := by
    have next : ∀ s ∈ schemes, s.head?.any isWord = true := by decide
    have first : (s.map Item.unit ++ rest).head?.any Item.isWord = true := by
      have some := next s member
      cases s with
      | nil => cases some
      | cons x s => exact some
    have isEdge : itemEngine.edge ⟨before, s.map .unit ++ rest⟩ = true := by
      change (before.head?.any Item.isWord != (s.map Item.unit ++ rest).head?.any Item.isWord) = true
      rw [start, first]
      rfl
    rw [edge, ends, if_pos isEdge]
  have isScheme : scheme =
      .seq edge (cat [literal ["h", "t", "t", "p"], opt (char "s"), literal [":", "/", "/"]]) := rfl
  rw [isScheme, ends, holds, List.flatMap_singleton]
  simp only [schemes, List.mem_cons, List.not_mem_nil, or_false] at member
  rcases member with rfl | rfl
  · rfl
  · rfl

/-- A match begins a word with a scheme, and takes only characters of a link. -/
theorem url_of_mem {c c' : Cursor Item} (member : c' ∈ ends itemEngine url c) :
    c.before.head?.any Item.isWord = false ∧ opensLink c.after = true ∧
      ∃ w : JavaString, (∀ x ∈ w, inLink x = true) ∧ Spans c (w.map .unit) c' := by
  rw [ends_url] at member
  obtain ⟨c₁, isScheme, isRest⟩ := List.mem_flatMap.mp member
  obtain ⟨start, s, isOne, spans⟩ := scheme_of_mem isScheme
  obtain ⟨m, word, spans'⟩ := spans_of_mem isRest
  obtain ⟨w, rfl⟩ := units_of_word word
  have all : ∀ x ∈ w, inLink x = true := by
    obtain ⟨first, more, same, ⟨i, rfl, isFirst⟩, isMore⟩ := word
    intro x member
    have inside : Item.unit x ∈ [i] ++ more := same ▸ List.mem_map_of_mem member
    rcases List.mem_cons.mp inside with rfl | later
    · exact isFirst
    · exact isMore _ later
  refine ⟨start, opensLink_iff.mpr ⟨s, isOne, _, spans.after⟩, s ++ w, fun x member => ?_, ?_⟩
  · exact (List.mem_append.mp member).elim (inLink_scheme isOne x) (all x)
  · rw [List.map_append]
    exact spans.append spans'

theorem ends_url_other {x : UInt16} (other : x ≠ 0x68) (before rest : JavaString) :
    ends (engine isSpace) url ⟨before, x :: rest⟩ = [] := by
  have noStart : among "h" x = false := by
    rw [← Bool.not_eq_true]
    exact fun inside => other (List.mem_singleton.mp (show x ∈ [0x68] from List.contains_iff_mem.mp inside))
  simp only [url, cat, literal, List.map_cons, ends, edge]
  split
  · simp [char, plain, reads, noStart, ends]
  · rfl

end Expression

section Tokens

theorem inLink_digit {x : UInt16} (digit : isDigit x = true) : inLink x = true := by
  obtain ⟨low, high⟩ : 48 ≤ x.toNat ∧ x.toNat ≤ 57 := by simpa [isDigit, range] using digit
  have same : x = UInt16.ofNat x.toNat := by simp
  rw [same]
  have checked : ∀ n < 58, 48 ≤ n → inLink (UInt16.ofNat n) = true := by decide
  exact checked x.toNat (by omega) low

/-- A link takes a whole token, and none begins in it. -/
theorem token_units {t : JavaString} (isToken : IsToken t) :
    ∀ x ∈ t, inLink x = true ∧ x ≠ 0x68 := by
  obtain ⟨type, ds, _, all, rfl⟩ := isToken_iff.mp isToken
  intro x member
  simp only [List.cons_append, List.append_assoc, List.mem_cons, List.mem_append, List.not_mem_nil,
    or_false] at member
  rcases member with rfl | isName | rfl | isDigit' | rfl
  · decide
  · have checked : (Utf.ofString type.name).all (fun x => inLink x && x != 0x68) = true := by
      cases type <;> decide
    simpa using List.all_eq_true.mp checked x isName
  · decide
  · refine ⟨inLink_digit (all x isDigit'), ?_⟩
    rintro rfl
    exact absurd (all _ isDigit') (by decide)
  · decide

variable {u : Unicode} {keys : EntityType → List (EntityType × JavaString)}

theorem starEnds_link {before after : List Item} (apart : reaches after = false) :
    starEnds inLink (expand (label u keys) ⟨before, after⟩).before
        (expand (label u keys) ⟨before, after⟩).after =
      (starEnds (itemEngine.is linkClass) before after).map (expand (label u keys)) := by
  induction after generalizing before with
  | nil => rfl
  | cons i rest ih =>
      cases i with
      | unit x =>
          have isOne : itemEngine.is linkClass (.unit x) = inLink x := rfl
          have isBefore : (expand (label u keys) ⟨before, Item.unit x :: rest⟩).after =
              x :: (expand (label u keys) ⟨Item.unit x :: before, rest⟩).after := rfl
          rw [isBefore, starEnds, starEnds, isOne]
          split
          next inside =>
            rw [reaches, inside, Bool.true_and] at apart
            rw [List.map_append, ← ih apart]
            rfl
          next => rfl
      | entity => cases apart

theorem ends_url_expand {c : Cursor Item}
    (apart : ∀ c' ∈ ends itemEngine scheme c, reaches c'.after = false) :
    ends (engine isSpace) url (expand (label u keys) c) =
      (ends itemEngine url c).map (expand (label u keys)) := by
  rw [ends_url, ends_url, ends_expand (renders u keys) (r := scheme) (by decide) (by decide),
    List.flatMap_map, List.map_flatMap]
  refine List.flatMap_congr fun c' member => ?_
  obtain ⟨before, after⟩ := c'
  have none := apart _ member
  cases after with
  | nil => rfl
  | cons i rest =>
      cases i with
      | unit x =>
          change (ends (engine isSpace) (.one linkClass) _).flatMap (ends (engine isSpace) (.star linkClass)) =
            ((ends itemEngine (.one linkClass) _).flatMap (ends itemEngine (.star linkClass))).map _
          cases inside : inLink x with
          | true =>
              have first : ends (engine isSpace) (.one linkClass)
                  (expand (label u keys) ⟨before, .unit x :: rest⟩) =
                    [expand (label u keys) ⟨.unit x :: before, rest⟩] := if_pos inside
              have first' : ends itemEngine (.one linkClass) ⟨before, .unit x :: rest⟩ =
                  [⟨.unit x :: before, rest⟩] := if_pos inside
              simp only [reaches, inside, Bool.true_and] at none
              rw [first, first', List.flatMap_singleton, List.flatMap_singleton]
              exact starEnds_link none
          | false =>
              have first : ends (engine isSpace) (.one linkClass)
                  (expand (label u keys) ⟨before, .unit x :: rest⟩) = [] :=
                if_neg (Bool.not_eq_true _ ▸ inside)
              have first' : ends itemEngine (.one linkClass) ⟨before, .unit x :: rest⟩ = [] :=
                if_neg (Bool.not_eq_true _ ▸ inside)
              rw [first, first']
              rfl
      | entity => cases none

theorem apart_of_here {c : Cursor Item} (none : linkedHere c.before c.after = false) :
    ∀ c' ∈ ends itemEngine scheme c, reaches c'.after = false := by
  intro c' member
  obtain ⟨start, s, isOne, spans⟩ := scheme_of_mem member
  have opens : opensLink c.after = true := opensLink_iff.mpr ⟨s, isOne, _, spans.after⟩
  rwa [linkedHere, start, opens, spans.after, reaches_units (inLink_scheme isOne)] at none

/-- Where no such link begins, the expression finds what it finds in the items. -/
theorem follows_url {c : Cursor Item} (none : linkedHere c.before c.after = false) :
    Follows (engine isSpace) itemEngine (label u keys) url c := by
  refine follows_unit ?_ fun type value rest first last _ isToken _ more => ?_
  · rw [ends_url_expand (apart_of_here none), List.head?_map]
  · obtain ⟨x, last, rfl⟩ := List.exists_cons_of_ne_nil more
    have member : x ∈ label u keys (.entity type value) := by rw [isToken]; simp
    exact ends_url_other (token_units (isToken_tokenOf type _) x member).2 _ _

/-- A match that has no entity in it passes no link that has one. -/
theorem linked_jump {c c' : Cursor Item} (none : linkedHere c.before c.after = false)
    (member : c' ∈ ends itemEngine url c) : linked c.before c.after = linked c'.before c'.after := by
  obtain ⟨start, opens, w, all, spans⟩ := url_of_mem member
  rw [linkedHere, start, opens, spans.after, reaches_units all] at none
  rw [spans.after, linked_units all none, ← spans.before]

theorem here_of_linked {before items : List Item} (clear : linked before items = false) :
    linkedHere before items = false := by
  cases items with
  | nil => exact Bool.and_false _
  | cons i rest => exact (Bool.or_eq_false_iff.mp clear).1

theorem consumes_url : url.consumes = true := by
  decide

/-- Where no link has an entity in it, the expression for links finds the same in the text of tokens. -/
theorem cut_url_shown {items : List Item} (clear : linked [] items = false) :
    cut (engine isSpace) url (items.flatMap (label u keys)) =
      (cut itemEngine url items).flatMap (expandPiece (label u keys)) := by
  refine cutFrom_expand consumes_url (I := fun c => linked c.before c.after = false)
    (fun c clear => follows_url (here_of_linked clear))
    (fun before i rest clear => (Bool.or_eq_false_iff.mp clear).2)
    (fun c c' clear found => ?_) (c := ⟨[], items⟩) clear
  rwa [← linked_jump (here_of_linked clear) (List.mem_of_head? found)]

theorem head_plus {e : Engine Class UInt16} {k : Class} {c : Cursor UInt16} {v tail : JavaString}
    (same : c.after = v ++ tail) (some : v ≠ []) (all : ∀ x ∈ v, e.is k x = true) :
    ∃ c' more, (ends e (plus k) c).head? = .some c' ∧ Spans c (v ++ more) c' := by
  obtain ⟨before, after⟩ := c
  obtain rfl : after = v ++ tail := same
  obtain ⟨x, v, rfl⟩ := List.exists_cons_of_ne_nil some
  obtain ⟨isOne, all'⟩ := List.forall_mem_cons.mp all
  have first : ends e (.one k) ⟨before, x :: (v ++ tail)⟩ = [⟨x :: before, v ++ tail⟩] := if_pos isOne
  refine ⟨⟨(v ++ tail.takeWhile (e.is k)).reverse ++ x :: before, tail.dropWhile (e.is k)⟩,
    tail.takeWhile (e.is k), ?_, ?_, by simp⟩
  · change ((ends e (.one k) ⟨before, x :: (v ++ tail)⟩).flatMap (ends e (.star k))).head? = _
    rw [first, List.flatMap_singleton, ends, head_starEnds, List.takeWhile_append_of_pos all',
      List.dropWhile_append_of_pos all']
  · simp [List.takeWhile_append_dropWhile]

theorem mem_beginIn {t : JavaString} (isToken : IsToken t) (rest first last : JavaString) :
    t ∈ beginIn rest (first ++ t ++ last) := by
  obtain ⟨core, isCons, _⟩ := brackets isToken
  induction first with
  | nil =>
      have found : tokenAt (t ++ last ++ rest) = some t :=
        tokenAt_eq_some.mpr ⟨isToken, last ++ rest, by simp⟩
      rw [isCons] at found ⊢
      rw [List.nil_append, List.cons_append, beginIn]
      exact List.mem_append_left _ (Option.mem_toList.mpr found)
  | cons x first ih => exact List.mem_append_right _ ih

/-- A link that has an entity in it takes the entity's token. -/
theorem swallowed_here {c : Cursor Item} (here : linkedHere c.before c.after = true) :
    swallowed (cutFrom (engine isSpace) url (expand (label u keys) c)) ≠ [] := by
  obtain ⟨before, after⟩ := c
  simp only [linkedHere, Bool.and_eq_true, Bool.not_eq_true'] at here
  obtain ⟨⟨start, opens⟩, found⟩ := here
  obtain ⟨s, isOne, rest, rfl⟩ := opensLink_iff.mp opens
  rw [reaches_units (inLink_scheme isOne)] at found
  obtain ⟨w, type, value, rest, all, rfl⟩ := reaches_cases found
  generalize isToken : label u keys (.entity type value) = t
  have token : IsToken t := isToken ▸ isToken_tokenOf type _
  have first : ends (engine isSpace) scheme (expand (label u keys)
      ⟨before, s.map .unit ++ (w.map .unit ++ .entity type value :: rest)⟩) =
        [expand (label u keys) ⟨(s.map Item.unit).reverse ++ before,
          w.map .unit ++ .entity type value :: rest⟩] := by
    rw [ends_expand (renders u keys) (by decide) (by decide), ends_scheme isOne start]
    rfl
  have isText : (expand (label u keys) ⟨(s.map Item.unit).reverse ++ before,
      w.map .unit ++ .entity type value :: rest⟩).after = w ++ t ++ rest.flatMap (label u keys) := by
    simp [expand, label_units, isToken]
  have inside : ∀ x ∈ w ++ t, (engine isSpace).is linkClass x = true := fun x member =>
    (List.mem_append.mp member).elim (all x) fun isIn => (token_units token x isIn).1
  obtain ⟨core, isCons, _⟩ := brackets token
  obtain ⟨c', more, isLast, spans'⟩ := head_plus isText (by simp [isCons]) inside
  have toLink : Spans (expand (label u keys)
      ⟨before, s.map .unit ++ (w.map .unit ++ .entity type value :: rest)⟩)
        ((s.map Item.unit).flatMap (label u keys)) (expand (label u keys)
          ⟨(s.map Item.unit).reverse ++ before, w.map .unit ++ .entity type value :: rest⟩) :=
    spans_expand ⟨rfl, rfl⟩
  rw [label_units] at toLink
  have found : (ends (engine isSpace) url (expand (label u keys)
      ⟨before, s.map .unit ++ (w.map .unit ++ .entity type value :: rest)⟩)).head? = some c' := by
    rw [ends_url, first, List.flatMap_singleton, isLast]
  have split : s ++ (w ++ t ++ more) = s ++ w ++ t ++ more := by simp
  rw [cutFrom_hit consumes_url found (toLink.append spans'), split]
  exact List.ne_nil_of_mem (List.mem_append_left _ (mem_beginIn token _ (s ++ w) more))

/-- If a link has an entity in it, the expression takes a token with some link. -/
theorem swallowed_linked {c : Cursor Item} (some : linked c.before c.after = true) :
    swallowed (cutFrom (engine isSpace) url (expand (label u keys) c)) ≠ [] := by
  induction length : c.after.length using Nat.strong_induction_on generalizing c with
  | _ n ih =>
      cases here : linkedHere c.before c.after with
      | true => exact swallowed_here here
      | false =>
          have follows : Follows (engine isSpace) itemEngine (label u keys) url c := follows_url here
          cases found : (ends itemEngine url c).head? with
          | some c' =>
              have member := List.mem_of_head? found
              obtain ⟨w, _, spans⟩ := spans_of_mem member
              have later : linked c'.before c'.after = true := by rwa [← linked_jump here member]
              rw [follows.hit consumes_url found spans]
              exact fun none => ih _ (length ▸ shorter consumes_url member) later rfl
                (List.append_eq_nil_iff.mp none).2
          | none =>
              rw [List.head?_eq_none_iff] at found
              obtain ⟨before, after⟩ := c
              cases after with
              | nil => cases some
              | cons i rest =>
                  have later : linked (i :: before) rest = true := by
                    rwa [linked, here, Bool.false_or] at some
                  rw [follows.gap found]
                  exact fun none => ih rest.length (length ▸ Nat.lt_succ_self _)
                    (c := ⟨i :: before, rest⟩) later rfl (swallowed_gaps none)

/-- What begins in the text of tokens with characters that are no bracket are characters of the items. -/
theorem units_early {w : JavaString} (plain : 0x5B ∉ w) {items : List Item}
    (early : w <+: items.flatMap (label u keys)) : w.map .unit <+: items := by
  induction w generalizing items with
  | nil => exact List.nil_prefix
  | cons x w ih =>
      obtain ⟨noMark, plain'⟩ := not_or.mp (mt List.mem_cons.mpr plain)
      cases items with
      | nil => exact absurd (List.prefix_nil.mp early) (List.cons_ne_nil _ _)
      | cons i items =>
          cases i with
          | unit y =>
              obtain ⟨rfl, early'⟩ := List.cons_prefix_cons.mp early
              exact List.cons_prefix_cons.mpr ⟨rfl, ih plain' early'⟩
          | entity type value =>
              obtain ⟨core, isToken, _⟩ := brackets (isToken_tokenOf type
                ((keys type).idxOf (keyOf u type value) + 1))
              rw [List.flatMap_cons, label, isToken, List.cons_append] at early
              exact absurd (List.cons_prefix_cons.mp early).1.symm noMark

/-- Where the text had no token, none begins with a character that was left. -/
theorem tokenAt_unit {items before rest : List Item} {x : UInt16} (isItems : items = before ++ .unit x :: rest)
    (without : tokensIn (items.flatMap Item.text) = []) :
    tokenAt (x :: rest.flatMap (label u keys)) = none := by
  cases found : tokenAt (x :: rest.flatMap (label u keys)) with
  | none => rfl
  | some t =>
      obtain ⟨isToken, early⟩ := tokenAt_eq_some.mp found
      obtain ⟨core, rfl, noMark, _⟩ := brackets isToken
      obtain ⟨rfl, early'⟩ := List.cons_prefix_cons.mp early
      obtain ⟨rest', rfl⟩ := units_early (by simpa using noMark) early'
      have inside : 0x5B :: (core ++ [0x5D]) <:+: items.flatMap Item.text := by
        refine ⟨before.flatMap Item.text, rest'.flatMap Item.text, ?_⟩
        rw [isItems, List.flatMap_append, List.flatMap_cons, List.flatMap_append, text_units]
        simp [Item.text]
      have member := mem_tokensIn.mpr ⟨isToken, inside⟩
      rw [without] at member
      cases member

theorem beginIn_units {w : JavaString} {before rest : List Item}
    (without : tokensIn ((before ++ w.map Item.unit ++ rest).flatMap Item.text) = []) :
    beginIn (rest.flatMap (label u keys)) w = [] := by
  induction w generalizing before with
  | nil => rfl
  | cons x w ih =>
      have here : tokenAt (x :: (w.map Item.unit ++ rest).flatMap (label u keys)) = none :=
        tokenAt_unit (show _ = before ++ .unit x :: (w.map .unit ++ rest) by simp) without
      have without' : tokensIn ((before ++ [Item.unit x] ++ w.map Item.unit ++ rest).flatMap Item.text) = [] := by
        simpa using without
      rw [List.flatMap_append, label_units] at here
      rw [beginIn, here, ih without']
      rfl

theorem swallowed_token {t : JavaString} (isToken : IsToken t) {ps : List (Piece UInt16)}
    (later : swallowed ps = []) : swallowed (t.map .gap ++ ps) = [] := by
  obtain ⟨core, isCons, noMark, _⟩ := brackets isToken
  have found : tokenAt (0x5B :: ((core ++ [0x5D]) ++ whole ps)) = some t :=
    tokenAt_eq_some.mpr ⟨isToken, whole ps, by rw [isCons]; rfl⟩
  have length : t.length - 1 = (core ++ [0x5D]).length := by rw [isCons]; rfl
  rw [isCons, List.map_cons, List.cons_append, swallowed, swallowed_plain (by simpa using noMark) later,
    List.append_nil, cutOff, whole_append, whole_gaps, found]
  simp only [Option.toList_some, List.filter_cons, List.filter_nil, length, all_gaps (core ++ [0x5D]),
    Bool.not_true, Bool.false_eq_true, if_false]

/-- Matches that take characters only take no part of a token. -/
theorem swallowed_expand {ps : List (Piece Item)}
    (units : ∀ m, .hit m ∈ ps → ∃ w : JavaString, m = w.map .unit) {before : List Item}
    (without : tokensIn ((before ++ whole ps).flatMap Item.text) = []) :
    swallowed (ps.flatMap (expandPiece (label u keys))) = [] := by
  induction ps generalizing before with
  | nil => rfl
  | cons p ps ih =>
      have units' : ∀ m, .hit m ∈ ps → ∃ w : JavaString, m = w.map .unit :=
        fun m member => units m (List.mem_cons_of_mem _ member)
      have isWhole := whole_expand (label u keys) ps
      cases p with
      | hit m =>
          obtain ⟨w, rfl⟩ := units m List.mem_cons_self
          rw [whole_hit, ← List.append_assoc] at without
          rw [List.flatMap_cons, expandPiece, label_units, List.singleton_append, swallowed, isWhole,
            beginIn_units without, ih units' without]
          rfl
      | gap i =>
          have without' : tokensIn ((before ++ [i] ++ whole ps).flatMap Item.text) = [] := by
            simpa using without
          have later := ih units' without'
          rw [List.flatMap_cons, expandPiece]
          cases i with
          | unit x =>
              have here : tokenAt (x :: (whole ps).flatMap (label u keys)) = none :=
                tokenAt_unit (show _ = before ++ .unit x :: whole ps from rfl) without
              rw [label, List.map_singleton, List.singleton_append, swallowed, cutOff, isWhole, here, later]
              rfl
          | entity type value =>
              exact swallowed_token (isToken_tokenOf type _) later

end Tokens

end PiiRedactor
