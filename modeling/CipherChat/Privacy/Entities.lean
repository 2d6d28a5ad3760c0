import CipherChat.Privacy.Passes
import CipherChat.Text.Blocks

/-!
What the detectors find in a text, before anything becomes a token: an entity is one symbol among the
characters that are left.  With its number among the values of its type, it is shown as a token.
-/

namespace PiiRedactor

open Rooms (JavaString)
open Utf (isSpace)
open Regex

inductive Item
  | unit (x : UInt16)
  | entity (type : EntityType) (value : JavaString)
  deriving DecidableEq

namespace Item

def text : Item → JavaString
  | unit x => [x]
  | entity _ value => value

def isWord : Item → Bool
  | unit x => PiiRedactor.isWord x
  | entity .. => false

end Item

/-- An entity is in no class and no part of a word. -/
def itemEngine : Engine Class Item where
  is k
    | .unit x => reads isSpace k x
    | .entity .. => false
  edge c := c.before.head?.any Item.isWord != c.after.head?.any Item.isWord

/-- What becomes of a text that a detector has cut. -/
def Detector.entitled (d : Detector) (ps : List (Piece Item)) : List Item :=
  ps.flatMap fun
    | .gap i => [i]
    | .hit m => if d.accept (m.flatMap Item.text) then [.entity d.type (m.flatMap Item.text)] else m

def Detector.find (d : Detector) (items : List Item) : List Item :=
  d.entitled (cut itemEngine d.regex items)

/-- What the detectors find, each in what the ones before it have left. -/
def entities (input : JavaString) : List Item :=
  DETECTORS.foldl (fun items d => d.find items) (input.map .unit)

section Numbers

variable (u : Unicode)

def add {α : Type} [DecidableEq α] (seen : List α) (a : α) : List α :=
  if a ∈ seen then seen else seen ++ [a]

/-- Each once, in the order in which they come first. -/
def distinct {α : Type} [DecidableEq α] (l : List α) : List α :=
  l.foldl add []

/-- The key of an entity of this type. -/
def Item.key? (type : EntityType) : Item → Option (EntityType × JavaString)
  | unit _ => none
  | entity type' value => if type' = type then some (keyOf u type' value) else none

def keysOf (type : EntityType) (items : List Item) : List (EntityType × JavaString) :=
  items.filterMap (Item.key? u type)

/-- The keys when this value has its number. -/
def withKey (keys : EntityType → List (EntityType × JavaString)) (type : EntityType)
    (value : JavaString) : EntityType → List (EntityType × JavaString) :=
  Function.update keys type (add (keys type) (keyOf u type value))

/-- An entity is shown with its number among the keys of its type. -/
def label (keys : EntityType → List (EntityType × JavaString)) : Item → JavaString
  | .unit x => [x]
  | .entity type value => tokenOf type ((keys type).idxOf (keyOf u type value) + 1)

/-- The text in which each entity stands as `[TYPE_n]`, its value being the n-th of its type. -/
def shown (items : List Item) : JavaString :=
  items.flatMap (label u fun type => distinct (keysOf u type items))

end Numbers

section Distinct

variable {α : Type} [DecidableEq α] {a : α} {seen : List α}

theorem mem_add {b : α} : b ∈ add seen a ↔ b ∈ seen ∨ b = a := by
  rw [add]
  split
  next member =>
    refine ⟨.inl, fun either => either.elim id ?_⟩
    rintro rfl
    exact member
  next => simp

theorem prefix_add (seen : List α) (a : α) : seen <+: add seen a := by
  rw [add]
  split
  · exact List.prefix_rfl
  · exact List.prefix_append _ _

theorem prefix_foldl_add (seen l : List α) : seen <+: l.foldl add seen := by
  induction l generalizing seen with
  | nil => exact List.prefix_rfl
  | cons a l ih => exact (prefix_add seen a).trans (ih _)

theorem mem_foldl_add {l : List α} {b : α} : b ∈ l.foldl add seen ↔ b ∈ seen ∨ b ∈ l := by
  induction l generalizing seen with
  | nil => simp
  | cons a l ih => rw [List.foldl_cons, ih, mem_add, List.mem_cons, or_assoc]

theorem mem_distinct {l : List α} {b : α} : b ∈ distinct l ↔ b ∈ l := by
  simp [distinct, mem_foldl_add]

end Distinct

theorem idxOf_grown {α : Type} [BEq α] [LawfulBEq α] {a : α} {seen later : List α}
    (grows : seen <+: later) (member : a ∈ seen) : later.idxOf a = seen.idxOf a := by
  obtain ⟨more, rfl⟩ := grows
  exact List.idxOf_append_of_mem member

section Session

variable {u : Unicode}

/-- The session has numbered these keys, in this order. -/
structure Session.Numbered (r : Session) (keys : EntityType → List (EntityType × JavaString)) : Prop where
  counted : ∀ type, r.counters type = (keys type).length
  named : ∀ key, r.byValue.lookup key =
    if key ∈ keys key.1 then some (tokenOf key.1 ((keys key.1).idxOf key + 1)) else none

theorem numbered_fresh : Session.Numbered {} fun _ => [] where
  counted _ := rfl
  named _ := rfl

variable {keys : EntityType → List (EntityType × JavaString)} {r : Session}

theorem withKey_grows (type : EntityType) (value : JavaString) (type' : EntityType) :
    keys type' <+: withKey u keys type value type' := by
  rw [withKey, Function.update_apply]
  split
  next same => exact same ▸ prefix_add _ _
  next => exact List.prefix_rfl

theorem mem_withKey (type : EntityType) (value : JavaString) :
    keyOf u type value ∈ withKey u keys type value type := by
  rw [withKey, Function.update_self]
  exact mem_add.mpr (.inr rfl)

theorem withKey_old {type : EntityType} {value : JavaString} (member : keyOf u type value ∈ keys type) :
    withKey u keys type value = keys := by
  rw [withKey, add, if_pos member, Function.update_eq_self]

theorem withKey_new {type : EntityType} {value : JavaString} (fresh : keyOf u type value ∉ keys type) :
    withKey u keys type value = Function.update keys type (keys type ++ [keyOf u type value]) := by
  rw [withKey, add, if_neg fresh]

/-- A value that has no number yet gets the next one. -/
theorem Session.Numbered.next (numbered : r.Numbered keys) {type : EntityType} {value : JavaString}
    (fresh : keyOf u type value ∉ keys type) : Session.Numbered {
      byValue := r.byValue ++ [(keyOf u type value, tokenOf type (r.counters type + 1))]
      map := r.map ++ [(tokenOf type (r.counters type + 1), value)]
      counters := Function.update r.counters type (r.counters type + 1) } (withKey u keys type value) := by
  have last : (keys type ++ [keyOf u type value]).idxOf (keyOf u type value) = (keys type).length := by
    rw [List.idxOf_append_of_notMem fresh, List.idxOf_cons_self, Nat.add_zero]
  rw [withKey_new fresh]
  constructor
  · intro type'
    simp only [Function.update_apply, numbered.counted]
    split <;> simp
  · intro key
    rw [List.lookup_append, numbered.named]
    by_cases same : key.1 = type
    · rw [same, Function.update_self]
      by_cases old : key ∈ keys type
      · rw [if_pos old, if_pos (List.mem_append_left _ old), List.idxOf_append_of_mem old, Option.some_or]
      · rw [if_neg old, Option.none_or, List.lookup_cons]
        by_cases isKey : key = keyOf u type value
        · subst isKey
          rw [last, numbered.counted]
          simp
        · have other : (key == keyOf u type value) = false := by simp [isKey]
          simp [other, old, isKey]
    · have other : key ≠ keyOf u type value := by
        rintro rfl
        exact same rfl
      rw [Function.update_of_ne same]
      split <;> simp [other]

theorem Session.Numbered.tokenFor (numbered : r.Numbered keys) (type : EntityType) (value : JavaString) :
    (tokenFor u type value r).1 = label u (withKey u keys type value) (.entity type value) ∧
      (tokenFor u type value r).2.Numbered (withKey u keys type value) := by
  have isType : (keyOf u type value).1 = type := rfl
  have found := numbered.named (keyOf u type value)
  rw [isType] at found
  rw [PiiRedactor.tokenFor]
  by_cases member : keyOf u type value ∈ keys type
  · rw [if_pos member] at found
    rw [withKey_old member]
    simp only [found]
    exact ⟨rfl, numbered⟩
  · rw [if_neg member] at found
    simp only [found]
    refine ⟨?_, numbered.next member⟩
    rw [label, withKey_new member, Function.update_self, List.idxOf_append_of_notMem member,
      List.idxOf_cons_self, Nat.add_zero, numbered.counted]

/-- Every entity of the text has a number. -/
def Known (u : Unicode) (keys : EntityType → List (EntityType × JavaString)) (items : List Item) : Prop :=
  ∀ type value, .entity type value ∈ items → keyOf u type value ∈ keys type

theorem label_grown {later : EntityType → List (EntityType × JavaString)}
    (grows : ∀ type, keys type <+: later type) {items : List Item} (known : Known u keys items) {i : Item}
    (member : i ∈ items) : label u later i = label u keys i := by
  cases i with
  | unit x => rfl
  | entity type value => rw [label, label, idxOf_grown (grows type) (known type value member)]

theorem label_units (w : JavaString) : (w.map Item.unit).flatMap (label u keys) = w := by
  induction w with
  | nil => rfl
  | cons x w ih => rw [List.map_cons, List.flatMap_cons, ih]; rfl

theorem text_units (w : JavaString) : (w.map Item.unit).flatMap Item.text = w := by
  induction w with
  | nil => rfl
  | cons x w ih => rw [List.map_cons, List.flatMap_cons, ih]; rfl

variable (u) in
/-- The keys of the matches that become entities. -/
def Detector.newKeys (d : Detector) : List (Piece Item) → List (EntityType × JavaString)
  | [] => []
  | .gap _ :: ps => d.newKeys ps
  | .hit m :: ps =>
      if d.accept (m.flatMap Item.text) then keyOf u d.type (m.flatMap Item.text) :: d.newKeys ps
      else d.newKeys ps

/-- The keys when a detector's matches have their numbers. -/
def Detector.later (u : Unicode) (d : Detector) (ps : List (Piece Item))
    (keys : EntityType → List (EntityType × JavaString)) : EntityType → List (EntityType × JavaString) :=
  Function.update keys d.type ((d.newKeys u ps).foldl add (keys d.type))

theorem Detector.later_grows (d : Detector) (ps : List (Piece Item)) (type : EntityType) :
    keys type <+: d.later u ps keys type := by
  rw [Detector.later, Function.update_apply]
  split
  next same => exact same ▸ prefix_foldl_add _ _
  next => exact List.prefix_rfl

section Entitled

variable {d : Detector} {ps : List (Piece Item)}

theorem entitled_gap (i : Item) (ps : List (Piece Item)) :
    d.entitled (.gap i :: ps) = [i] ++ d.entitled ps := by
  rfl

theorem entitled_hit (w : JavaString) (ps : List (Piece Item)) : d.entitled (.hit (w.map .unit) :: ps) =
    (if d.accept w then [.entity d.type w] else w.map .unit) ++ d.entitled ps := by
  rw [Detector.entitled, List.flatMap_cons, ← Detector.entitled]
  simp only [text_units]

theorem later_gap (i : Item) : d.later u (.gap i :: ps) keys = d.later u ps keys := by
  rfl

/-- An accepted match has its number before the ones behind it. -/
theorem later_hit {w : JavaString} (accept : d.accept w = true) :
    d.later u (.hit (w.map .unit) :: ps) keys = d.later u ps (withKey u keys d.type w) := by
  rw [Detector.later, Detector.later, withKey, Detector.newKeys, text_units, if_pos accept,
    Function.update_idem, Function.update_self, List.foldl_cons]

theorem later_refused {w : JavaString} (refuse : ¬d.accept w = true) :
    d.later u (.hit (w.map .unit) :: ps) keys = d.later u ps keys := by
  rw [Detector.later, Detector.later, Detector.newKeys, text_units, if_neg refuse]

theorem accepted_expand (w : JavaString) : accepted d.accept ((Piece.hit (w.map Item.unit) :: ps).flatMap
    (expandPiece (label u keys))) = (if d.accept w then [.hit w] else w.map .gap) ++
      accepted d.accept (ps.flatMap (expandPiece (label u keys))) := by
  rw [List.flatMap_cons, expandPiece, label_units, accepted, List.flatMap_append]
  simp [accepted]

/-- A pass puts the labels of what its detector has found into the text. -/
theorem put_entitled (units : ∀ m, .hit m ∈ ps → ∃ w : JavaString, m = w.map .unit)
    {old : EntityType → List (EntityType × JavaString)} (known : Known u old (whole ps))
    (grows : ∀ type, old type <+: keys type) (numbered : r.Numbered keys) :
    (put u d.type (accepted d.accept (ps.flatMap (expandPiece (label u old)))) r).1 =
        (d.entitled ps).flatMap (label u (d.later u ps keys)) ∧
      (put u d.type (accepted d.accept (ps.flatMap (expandPiece (label u old)))) r).2.Numbered
        (d.later u ps keys) := by
  induction ps generalizing keys r with
  | nil =>
      have same : d.later u [] keys = keys := Function.update_eq_self _ _
      rw [same]
      exact ⟨rfl, numbered⟩
  | cons p ps ih =>
      have units' : ∀ m, .hit m ∈ ps → ∃ w : JavaString, m = w.map .unit :=
        fun m member => units m (List.mem_cons_of_mem _ member)
      cases p with
      | gap i =>
          have known' : Known u old (whole ps) := fun type value member =>
            known type value (List.mem_cons_of_mem _ member)
          obtain ⟨text, session⟩ := ih units' known' grows numbered
          have same : label u (d.later u ps keys) i = label u old i :=
            label_grown (fun type => (grows type).trans (d.later_grows ps type)) known List.mem_cons_self
          rw [List.flatMap_cons, expandPiece, accepted_gaps, put_gaps, later_gap, entitled_gap,
            List.flatMap_append, List.flatMap_singleton, same, text]
          exact ⟨rfl, session⟩
      | hit m =>
          obtain ⟨w, rfl⟩ := units m List.mem_cons_self
          have known' : Known u old (whole ps) := fun type value member =>
            known type value (List.mem_append_right _ member)
          rw [accepted_expand, entitled_hit]
          by_cases accept : d.accept w = true
          · obtain ⟨token, numbered'⟩ := numbered.tokenFor (u := u) d.type w
            have grows' : ∀ type, old type <+: withKey u keys d.type w type :=
              fun type => (grows type).trans (withKey_grows d.type w type)
            obtain ⟨text, session⟩ := ih units' known' grows' numbered'
            -- its label stays what it is when the later matches have their numbers
            have same : label u (d.later u ps (withKey u keys d.type w)) (.entity d.type w) =
                label u (withKey u keys d.type w) (.entity d.type w) := by
              rw [label, label, idxOf_grown (d.later_grows ps d.type) (mem_withKey d.type w)]
            rw [if_pos accept, if_pos accept, List.singleton_append, put_hit, later_hit accept,
              List.flatMap_append, List.flatMap_singleton, same, token, text]
            exact ⟨rfl, session⟩
          · obtain ⟨text, session⟩ := ih units' known' grows numbered
            rw [if_neg accept, if_neg accept, put_gaps, later_refused accept, List.flatMap_append,
              label_units, text]
            exact ⟨rfl, session⟩

end Entitled

end Session

section Passes

variable {u : Unicode}

theorem avoids_of_none {κ α : Type} {is : κ → α → Bool} {x : α} (none : ∀ k, is k x = false) (r : Regex κ) :
    avoids is x r = true := by
  induction r with
  | one k => simp [avoids, none]
  | star k => simp [avoids, none]
  | seq first second ih₁ ih₂ => rw [avoids, ih₁, ih₂, Bool.and_self]
  | alt first second ih₁ ih₂ => rw [avoids, ih₁, ih₂, Bool.and_self]
  | times body _ _ ih => exact ih
  | _ => rfl

/-- A match takes characters only. -/
theorem units_of_word {r : Pattern} {m : List Item} (word : Word itemEngine.is r m) :
    ∃ w : JavaString, m = w.map .unit := by
  have noEntity : ∀ type value, Item.entity type value ∉ m := fun type value =>
    not_mem_of_avoids (avoids_of_none (fun _ => rfl) r) word
  clear word
  induction m with
  | nil => exact ⟨[], rfl⟩
  | cons i m ih =>
      obtain ⟨w, rfl⟩ := ih fun type value member => noEntity type value (List.mem_cons_of_mem _ member)
      cases i with
      | unit x => exact ⟨x :: w, rfl⟩
      | entity type value => exact absurd List.mem_cons_self (noEntity type value)

theorem keysOf_append (type : EntityType) (items items' : List Item) :
    keysOf u type (items ++ items') = keysOf u type items ++ keysOf u type items' :=
  List.filterMap_append

theorem keysOf_units (type : EntityType) (w : JavaString) : keysOf u type (w.map .unit) = [] := by
  induction w with
  | nil => rfl
  | cons x w ih => exact ih

variable {d : Detector} {ps : List (Piece Item)}

/-- What was found still says what it was found in. -/
theorem text_entitled (units : ∀ m, .hit m ∈ ps → ∃ w : JavaString, m = w.map .unit) :
    (d.entitled ps).flatMap Item.text = (whole ps).flatMap Item.text := by
  induction ps with
  | nil => rfl
  | cons p ps ih =>
      have rest := ih fun m member => units m (List.mem_cons_of_mem _ member)
      cases p with
      | gap i => rw [entitled_gap, List.flatMap_append, rest, ← List.flatMap_append]; rfl
      | hit m =>
          obtain ⟨w, rfl⟩ := units m List.mem_cons_self
          rw [entitled_hit, whole_hit, List.flatMap_append, List.flatMap_append, rest, text_units]
          split
          · simp [Item.text]
          · rw [text_units]

/-- The entities of another type stay as they are. -/
theorem keysOf_entitled_other (units : ∀ m, .hit m ∈ ps → ∃ w : JavaString, m = w.map .unit)
    {type : EntityType} (other : type ≠ d.type) : keysOf u type (d.entitled ps) = keysOf u type (whole ps) := by
  induction ps with
  | nil => rfl
  | cons p ps ih =>
      have rest := ih fun m member => units m (List.mem_cons_of_mem _ member)
      cases p with
      | gap i => rw [entitled_gap, keysOf_append, rest, ← keysOf_append]; rfl
      | hit m =>
          obtain ⟨w, rfl⟩ := units m List.mem_cons_self
          rw [entitled_hit, whole_hit, keysOf_append, keysOf_append, rest, keysOf_units]
          split
          · simp [keysOf, Item.key?, other.symm]
          · rw [keysOf_units]

/-- The entities of the detector's own type are its matches, where there was none before. -/
theorem keysOf_entitled_self (units : ∀ m, .hit m ∈ ps → ∃ w : JavaString, m = w.map .unit)
    (fresh : keysOf u d.type (whole ps) = []) : keysOf u d.type (d.entitled ps) = d.newKeys u ps := by
  induction ps with
  | nil => rfl
  | cons p ps ih =>
      cases p with
      | gap i =>
          have split : whole (.gap i :: ps) = [i] ++ whole ps := rfl
          rw [split, keysOf_append, List.append_eq_nil_iff] at fresh
          rw [entitled_gap, keysOf_append, fresh.1, List.nil_append, Detector.newKeys,
            ih (fun m member => units m (List.mem_cons_of_mem _ member)) fresh.2]
      | hit m =>
          obtain ⟨w, rfl⟩ := units m List.mem_cons_self
          rw [whole_hit, keysOf_append, keysOf_units, List.nil_append] at fresh
          rw [entitled_hit, keysOf_append, Detector.newKeys, text_units,
            ih (fun m member => units m (List.mem_cons_of_mem _ member)) fresh]
          split
          · simp [keysOf, Item.key?]
          · rw [keysOf_units, List.nil_append]

theorem units_of_cut {r : Pattern} (consumes : r.consumes = true) {items : List Item} :
    ∀ m, .hit m ∈ cut itemEngine r items → ∃ w : JavaString, m = w.map .unit :=
  fun _ member => units_of_word (word_of_hit consumes (Nat.lt_succ_self _) member)

theorem text_find (consumes : d.regex.consumes = true) (items : List Item) :
    (d.find items).flatMap Item.text = items.flatMap Item.text := by
  rw [Detector.find, text_entitled (units_of_cut consumes), whole_cut consumes]

/-- After some passes: the text shows what their detectors have found. -/
structure Shown (u : Unicode) (now : JavaString × Session) (items : List Item) : Prop where
  text : now.1 = shown u items
  numbered : now.2.Numbered fun type => distinct (keysOf u type items)

theorem known_self (items : List Item) :
    Known u (fun type => distinct (keysOf u type items)) items := by
  intro type value member
  rw [mem_distinct, keysOf, List.mem_filterMap]
  exact ⟨_, member, by simp [Item.key?]⟩

theorem Shown.pass {now : JavaString × Session} {items : List Item} (shows : Shown u now items)
    (consumes : d.regex.consumes = true) (fresh : keysOf u d.type items = [])
    (same : cut (engine isSpace) d.regex (shown u items) = (cut itemEngine d.regex items).flatMap
      (expandPiece (label u fun type => distinct (keysOf u type items)))) :
    Shown u (d.pass.run u now) (d.find items) := by
  have isWhole : whole (cut itemEngine d.regex items) = items := whole_cut consumes items
  have units : ∀ m, .hit m ∈ cut itemEngine d.regex items → ∃ w : JavaString, m = w.map .unit :=
    units_of_cut consumes
  have known := known_self (u := u) items
  rw [← isWhole] at known
  obtain ⟨text, numbered⟩ := put_entitled (r := now.2) (d := d) units known (fun _ => List.prefix_rfl)
    (by rw [isWhole]; exact shows.numbered)
  have later : d.later u (cut itemEngine d.regex items) (fun type => distinct (keysOf u type items)) =
      fun type => distinct (keysOf u type (d.find items)) := by
    funext type
    rw [Detector.later, Function.update_apply, Detector.find]
    split
    next isType =>
      rw [isType, keysOf_entitled_self units (by rw [isWhole]; exact fresh), fresh]
      rfl
    next other => rw [keysOf_entitled_other units other, isWhole]
  rw [isWhole, later, ← same, ← shows.text] at text numbered
  rw [run_eq]
  exact ⟨text, numbered⟩

end Passes

end PiiRedactor
