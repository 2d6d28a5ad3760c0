import Mathlib.Data.List.Sort
import Mathlib.Tactic.Common

/-!
Catching up with a table whose rows have numbers: page after page, each from where the one before
it ended, and no more than so many of them. A page that is followed by others says what the highest
number is; the last page says where it ends itself.
-/

namespace Paging

variable {Row : Type}

/-- The rows after a number, the oldest first. -/
def later (number : Row → Nat) (rows : List Row) (after : Nat) : List Row :=
  (rows.filter fun m => after < number m).insertionSort fun m m' => number m ≤ number m'

def top (number : Row → Nat) (rows : List Row) : Nat :=
  rows.foldr (fun m => max (number m)) 0

/-- The number a list of rows ends with. -/
def ending (number : Row → Nat) (rows : List Row) (after : Nat) : Nat :=
  match rows.getLast? with
  | none => after
  | some m => number m

structure Delta (Row : Type) where
  rows : List Row
  watermark : Nat
  more : Bool

/-- What is said of the rows that were found, of which there may be one more than are given. -/
def reported (number : Row → Nat) (rows : List Row) (after size : Nat) (found : List Row) :
    Delta Row :=
  let more : Bool := size < found.length
  let page := if more then found.take size else found
  { rows := page
    watermark := if more then top number rows else ending number page after
    more }

def ahead (number : Row → Nat) (rows : List Row) (after size : Nat) : Delta Row :=
  reported number rows after size ((later number rows after).take (size + 1))

/-- The pages are put together while there are more, and the last delta tells the watermark. -/
def chase (number : Row → Nat) (rows : List Row) (size : Nat) :
    Nat → Nat → Delta Row → List Row → Delta Row
  | 0, _, last, all => { last with rows := all }
  | n + 1, after, _, all =>
      let delta := ahead number rows after size
      match delta.more, delta.rows.getLast? with
      | true, some tail => chase number rows size n (number tail) delta (all ++ delta.rows)
      | _, _ => { delta with rows := all ++ delta.rows }

section

variable {number : Row → Nat} {rows : List Row} {after size : Nat}

theorem mem_later {m : Row} : m ∈ later number rows after ↔ m ∈ rows ∧ after < number m := by
  rw [later, List.mem_insertionSort, List.mem_filter, decide_eq_true_eq]

theorem later_ascending (distinct : (rows.map number).Nodup) :
    (later number rows after).Pairwise fun m m' => number m < number m' := by
  have sorted : (later number rows after).Pairwise fun m m' => number m ≤ number m' :=
    List.pairwise_insertionSort _ _
  have same : (later number rows after).Perm (rows.filter fun m => after < number m) :=
    List.perm_insertionSort _ _
  have apart : ((later number rows after).map number).Nodup := by
    rw [(same.map number).nodup_iff]
    exact distinct.sublist (List.filter_sublist.map number)
  exact (sorted.and (List.pairwise_map.mp apart)).imp fun ⟨atMost, other⟩ =>
    lt_of_le_of_ne atMost other

theorem le_top {m : Row} (member : m ∈ rows) : number m ≤ top number rows := by
  induction rows with
  | nil => cases member
  | cons m' rows ih =>
      cases List.mem_cons.mp member with
      | inl same => exact same ▸ le_max_left _ _
      | inr inRest => exact (ih inRest).trans (le_max_right _ _)

/-- The rows after a number within are what follows it. -/
theorem later_within (distinct : (rows.map number).Nodup) {first rest : List Row} {m : Row}
    (split : later number rows after = first ++ m :: rest) :
    later number rows (number m) = rest := by
  have ascending : (first ++ m :: rest).Pairwise fun m m' => number m < number m' :=
    split ▸ later_ascending distinct
  obtain ⟨_, tail, across⟩ := List.pairwise_append.mp ascending
  have member : m ∈ later number rows after := by
    rw [split]
    exact List.mem_append_right _ List.mem_cons_self
  have beyond : after < number m := (mem_later.mp member).2
  have all : (later number rows after).Perm (rows.filter fun m => after < number m) :=
    List.perm_insertionSort _ _
  have again : (rows.filter fun m' => number m < number m') =
      (rows.filter fun m => after < number m).filter fun m' => number m < number m' := by
    rw [List.filter_filter]
    refine List.filter_congr fun m' _ => ?_
    rw [← Bool.decide_and, decide_eq_decide]
    omega
  have before : first.filter (fun m' => number m < number m') = [] := by
    rw [List.filter_eq_nil_iff]
    intro m' inFirst
    have lower := across m' inFirst m List.mem_cons_self
    rw [decide_eq_true_eq]
    omega
  have behind : rest.filter (fun m' => number m < number m') = rest := by
    rw [List.filter_eq_self]
    intro m' inRest
    rw [decide_eq_true_eq]
    exact List.rel_of_pairwise_cons tail inRest
  have kept : (later number rows after).filter (fun m' => number m < number m') = rest := by
    rw [split, List.filter_append, before, List.filter_cons_of_neg (by simp), behind, List.nil_append]
  have same : (later number rows (number m)).Perm rest := by
    refine (List.perm_insertionSort _ _).trans ?_
    rw [again, ← kept]
    exact (all.filter _).symm
  refine List.Perm.eq_of_pairwise (fun m m' _ _ lower lower' => ?_) (later_ascending distinct)
    (List.Pairwise.of_cons tail) same
  exact absurd lower' (not_lt.mpr lower.le)

theorem ending_append {first rest : List Row} (some : rest ≠ []) :
    ending number (first ++ rest) after = ending number rest after := by
  simp [ending, List.getLast?_append, List.getLast?_eq_some_getLast some]

/-- A page that has others after it. -/
theorem ahead_more (full : size < (later number rows after).length) :
    ahead number rows after size = ⟨(later number rows after).take size, top number rows, true⟩ := by
  simp [ahead, reported, List.take_take, full]

/-- The last page. -/
theorem ahead_last (short : (later number rows after).length ≤ size) :
    ahead number rows after size =
      ⟨later number rows after, ending number (later number rows after) after, false⟩ := by
  have whole : (later number rows after).take (size + 1) = later number rows after :=
    List.take_of_length_le (by omega)
  have few : ¬size < (later number rows after).length := by omega
  simp [ahead, reported, whole, few]

/-- After a page that has others after it the chase goes on behind its last row. -/
theorem later_tail (distinct : (rows.map number).Nodup) (positive : 0 < size)
    (full : size < (later number rows after).length) :
    ∃ tail, ((later number rows after).take size).getLast? = some tail ∧
      later number rows (number tail) = (later number rows after).drop size := by
  have some : (later number rows after).take size ≠ [] := by
    intro empty
    have none := congrArg List.length empty
    rw [List.length_take, List.length_nil] at none
    omega
  have split : later number rows after =
      ((later number rows after).take size).dropLast ++
        ((later number rows after).take size).getLast some :: (later number rows after).drop size := by
    rw [List.append_cons, List.dropLast_append_getLast, List.take_append_drop]
  exact ⟨_, List.getLast?_eq_some_getLast some, later_within distinct split⟩

/-- What a chase of one page at least comes to: as many rows as its pages have room for, and the
highest number when those are not all. -/
theorem chase_eq (distinct : (rows.map number).Nodup) (positive : 0 < size) (n after : Nat)
    (last : Delta Row) (all : List Row) :
    (chase number rows size (n + 1) after last all).rows =
        all ++ (later number rows after).take (size * (n + 1)) ∧
      (chase number rows size (n + 1) after last all).watermark =
        if (later number rows after).length ≤ size * (n + 1) then
          ending number (later number rows after) after
        else top number rows := by
  induction n generalizing after last all with
  | zero =>
      rw [Nat.mul_one]
      by_cases full : size < (later number rows after).length
      · obtain ⟨tail, isTail, _⟩ := later_tail distinct positive full
        simp [chase, ahead_more full, isTail, full]
      · have short := not_lt.mp full
        simp [chase, ahead_last short, short, List.take_of_length_le short]
  | succ n ih =>
      by_cases full : size < (later number rows after).length
      · obtain ⟨tail, isTail, isRest⟩ := later_tail distinct positive full
        have next : chase number rows size (n + 1 + 1) after last all =
            chase number rows size (n + 1) (number tail)
              ⟨(later number rows after).take size, top number rows, true⟩
              (all ++ (later number rows after).take size) := by
          rw [chase, ahead_more full]
          simp only [isTail]
        obtain ⟨isRows, isWatermark⟩ := ih (number tail)
          ⟨(later number rows after).take size, top number rows, true⟩
          (all ++ (later number rows after).take size)
        have room : size * (n + 1 + 1) = size + size * (n + 1) := by
          rw [Nat.mul_succ, Nat.add_comm]
        have ends : ending number ((later number rows after).drop size) (number tail) =
            ending number (later number rows after) after := by
          have some : (later number rows after).drop size ≠ [] := by
            intro empty
            rw [List.drop_eq_nil_iff] at empty
            omega
          conv_rhs => rw [← List.take_append_drop size (later number rows after), ending_append some]
          simp [ending, List.getLast?_eq_some_getLast some]
        rw [next, isRows, isWatermark, isRest, room]
        constructor
        · rw [List.append_assoc, List.take_add]
        · rw [List.length_drop, ends]
          exact if_congr (by omega) rfl rfl
      · have short := not_lt.mp full
        have enough : (later number rows after).length ≤ size * (n + 1 + 1) :=
          short.trans (Nat.le_mul_of_pos_right _ (Nat.succ_pos _))
        simp [chase, ahead_last short, enough, List.take_of_length_le enough]

/-- Nothing is skipped exactly when the pages have room for all rows. -/
theorem chase_complete_iff (distinct : (rows.map number).Nodup) (positive : 0 < size) (n : Nat)
    (last : Delta Row) :
    (∀ m ∈ rows, after < number m →
        number m ≤ max after (chase number rows size (n + 1) after last []).watermark →
        m ∈ (chase number rows size (n + 1) after last []).rows) ↔
      (later number rows after).length ≤ size * (n + 1) := by
  obtain ⟨isRows, isWatermark⟩ := chase_eq distinct positive n after last []
  rw [isRows, isWatermark, List.nil_append]
  constructor
  · intro complete
    by_contra many
    -- The first row that no page has room for.
    have bound : size * (n + 1) < (later number rows after).length := not_le.mp many
    let m := (later number rows after)[size * (n + 1)]
    have inLater : m ∈ later number rows after := List.getElem_mem bound
    have inTable := mem_later.mp inLater
    have taken := complete m inTable.1 inTable.2 (by
      rw [if_neg many]
      exact (le_top inTable.1).trans (le_max_right _ _))
    obtain ⟨i, inside, same⟩ := List.getElem_of_mem taken
    rw [List.getElem_take] at same
    have ascending : (later number rows after).Pairwise fun m m' => number m < number m' :=
      later_ascending distinct
    rw [List.length_take] at inside
    have lower := List.pairwise_iff_getElem.mp ascending i (size * (n + 1)) (by omega) bound (by omega)
    rw [same] at lower
    exact lt_irrefl _ lower
  · intro enough m member beyond _
    rw [List.take_of_length_le enough]
    exact mem_later.mpr ⟨member, beyond⟩

end

end Paging
