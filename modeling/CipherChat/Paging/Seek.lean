import Mathlib.Data.List.Sort
import Mathlib.Tactic.Common

/-!
Pages of a table whose rows have numbers: each is asked for by the number before which it ends,
and one row more than it has is looked for, to know whether there are more.
-/

namespace Paging

variable {Row : Type}

/-- The rows before a number, the newest first. -/
def newest (number : Row → Nat) (rows : List Row) (before : Option Nat) (limit : Nat) : List Row :=
  ((rows.filter fun m => before.all (number m < ·)).insertionSort
    fun m m' => number m' ≤ number m).take limit

structure Page (Row : Type) where
  rows : List Row
  nextCursor : Option Nat
  hasMore : Bool

/-- What is made of the rows that were found: a page in ascending order, and where the next ends. -/
def paged (number : Row → Nat) (found : List Row) (size : Nat) : Page Row :=
  let hasMore : Bool := size < found.length
  let page := (found.take (min size found.length)).reverse
  { rows := page
    nextCursor := if hasMore && !page.isEmpty then page.head?.map number else none
    hasMore }

def seek (number : Row → Nat) (rows : List Row) (before : Option Nat) (size : Nat) : Page Row :=
  paged number (newest number rows before (size + 1)) size

section Sorted

variable {number : Row → Nat} {rows : List Row} {before : Option Nat} {size : Nat}

/-- All rows before a number. -/
def older (number : Row → Nat) (rows : List Row) (before : Option Nat) : List Row :=
  (rows.filter fun m => before.all (number m < ·)).insertionSort fun m m' => number m' ≤ number m

theorem mem_older {m : Row} :
    m ∈ older number rows before ↔ m ∈ rows ∧ ∀ n ∈ before, number m < n := by
  unfold older
  rw [List.mem_insertionSort, List.mem_filter]
  cases before <;> simp

theorem older_descending (distinct : (rows.map number).Nodup) :
    (older number rows before).Pairwise fun m m' => number m' < number m := by
  have sorted : (older number rows before).Pairwise fun m m' => number m' ≤ number m :=
    List.pairwise_insertionSort _ _
  have same : (older number rows before).Perm (rows.filter fun m => before.all (number m < ·)) :=
    List.perm_insertionSort _ _
  have apart : ((older number rows before).map number).Nodup := by
    rw [(same.map number).nodup_iff]
    exact distinct.sublist (List.filter_sublist.map number)
  exact (sorted.and (List.pairwise_map.mp apart)).imp fun ⟨atMost, other⟩ =>
    lt_of_le_of_ne atMost (Ne.symm other)

/-- A page is the newest of the older rows, and says whether there are more. -/
theorem seek_eq (number : Row → Nat) (rows : List Row) (before : Option Nat) (size : Nat) :
    seek number rows before size =
      { rows := ((older number rows before).take size).reverse
        nextCursor := if size < (older number rows before).length ∧ 0 < size then
          ((older number rows before).take size).getLast?.map number else none
        hasMore := size < (older number rows before).length } := by
  have found : newest number rows before (size + 1) = (older number rows before).take (size + 1) := rfl
  simp only [seek, paged, found, List.length_take, List.take_take, List.head?_reverse]
  generalize older number rows before = sorted
  have more : size < min (size + 1) sorted.length ↔ size < sorted.length := by omega
  have short : min (min size (min (size + 1) sorted.length)) (size + 1) = min size sorted.length := by
    omega
  simp only [more, short, List.take_eq_take_min.symm]
  by_cases beyond : size < sorted.length
  · by_cases some : 0 < size
    · have nonempty : ((sorted.take size).reverse.isEmpty) = false := by
        cases sorted with
        | nil => simp at beyond
        | cons m rest =>
            obtain ⟨n, rfl⟩ : ∃ n, size = n + 1 := ⟨size - 1, by omega⟩
            simp
      simp [beyond, some, nonempty]
    · have zero : size = 0 := by omega
      subst zero
      simp
  · simp [beyond]

/-- What a page is, of rows with numbers of their own. -/
structure Turns (number : Row → Nat) (rows : List Row) (before : Option Nat) (page : Page Row) :
    Prop where
  ascending : page.rows.Pairwise fun m m' => number m < number m'
  genuine : ∀ m ∈ page.rows, m ∈ rows ∧ ∀ n ∈ before, number m < n
  last : page.nextCursor = none → ∀ m ∈ rows, (∀ n ∈ before, number m < n) → m ∈ page.rows
  more : ∀ c ∈ page.nextCursor, (∀ n ∈ before, c < n) ∧ (∀ m ∈ page.rows, c ≤ number m) ∧
    ∀ m ∈ rows, (∀ n ∈ before, number m < n) → m ∈ page.rows ∨ number m < c

theorem seek_turns (distinct : (rows.map number).Nodup) (positive : 0 < size) :
    Turns number rows before (seek number rows before size) := by
  have descending : (older number rows before).Pairwise fun m m' => number m' < number m :=
    older_descending distinct
  rw [← List.take_append_drop size (older number rows before), List.pairwise_append] at descending
  obtain ⟨inside, _, across⟩ := descending
  rw [seek_eq]
  refine ⟨List.pairwise_reverse.mpr inside, ?_, ?_, ?_⟩
  · intro m member
    exact mem_older.mp (List.mem_of_mem_take (List.mem_reverse.mp member))
  · intro none m member within
    have isOlder : m ∈ older number rows before := mem_older.mpr ⟨member, within⟩
    by_cases beyond : size < (older number rows before).length
    · rw [if_pos ⟨beyond, positive⟩, Option.map_eq_none_iff, List.getLast?_eq_none_iff,
        List.take_eq_nil_iff] at none
      rcases none with zero | empty
      · omega
      · simp [empty] at isOlder
    · rw [List.take_of_length_le (by omega), List.mem_reverse]
      exact isOlder
  · intro c isCursor
    by_cases beyond : size < (older number rows before).length
    · rw [if_pos ⟨beyond, positive⟩, Option.mem_map] at isCursor
      obtain ⟨oldest, isLast, rfl⟩ := isCursor
      have isOlder := mem_older.mp (List.mem_of_mem_take (List.mem_of_getLast? isLast))
      refine ⟨isOlder.2, fun m member => ?_, fun m member within => ?_⟩
      · obtain ⟨front, isWhole⟩ := List.getLast?_eq_some_iff.mp isLast
        rw [List.mem_reverse, isWhole, List.mem_append] at member
        rw [isWhole, List.pairwise_append] at inside
        rcases member with earlier | isOldest
        · exact (inside.2.2 m earlier oldest (by simp)).le
        · rw [List.mem_singleton.mp isOldest]
      · have isOlder' : m ∈ older number rows before := mem_older.mpr ⟨member, within⟩
        rw [← List.take_append_drop size (older number rows before), List.mem_append] at isOlder'
        rcases isOlder' with taken | left
        · exact .inl (List.mem_reverse.mpr taken)
        · exact .inr (across oldest (List.mem_of_getLast? isLast) m left)
    · rw [if_neg fun both => beyond both.1] at isCursor
      cases isCursor

end Sorted

section Browsing

variable {ε : Type} {fetch : Nat → Option Nat → Except ε (Page Row)}

/-- Page after page, the `i`-th asked for at the `i`-th time, until there is no cursor. -/
inductive Follows (fetch : Nat → Option Nat → Except ε (Page Row)) :
    Nat → Option Nat → List (Page Row) → Prop
  | last {i before page} : fetch i before = .ok page → page.nextCursor = none →
      Follows fetch i before [page]
  | more {i before page c rest} : fetch i before = .ok page → page.nextCursor = some c →
      Follows fetch (i + 1) (some c) rest → Follows fetch i before (page :: rest)

theorem Follows.unique {i : Nat} {before : Option Nat} {pages pages' : List (Page Row)}
    (follows : Follows fetch i before pages) (follows' : Follows fetch i before pages') :
    pages = pages' := by
  induction follows generalizing pages' with
  | last fetched none =>
      cases follows' with
      | last fetched' _ => rw [Except.ok.inj (fetched.symm.trans fetched')]
      | more fetched' some _ =>
          rw [← Except.ok.inj (fetched.symm.trans fetched'), none] at some
          cases some
  | more fetched some _ ih =>
      cases follows' with
      | last fetched' none =>
          rw [← Except.ok.inj (fetched.symm.trans fetched'), some] at none
          cases none
      | more fetched' some' rest' =>
          obtain rfl := Except.ok.inj (fetched.symm.trans fetched')
          obtain rfl := Option.some.inj (some.symm.trans some')
          rw [ih rest']

variable {number : Row → Nat} {rowsAt : Nat → List Row}

/-- The cursors go down, so there is a last page. -/
theorem follows_exists (turns : ∀ i before, ∃ page, fetch i before = .ok page ∧
      Turns number (rowsAt i) before page) (i : Nat) (before : Option Nat) :
    ∃ pages, Follows fetch i before pages := by
  have below : ∀ n i, ∃ pages, Follows fetch i (some n) pages := by
    intro n
    induction n using Nat.strongRecOn with
    | ind n ih =>
        intro i
        obtain ⟨page, fetched, isPage⟩ := turns i (some n)
        cases isNext : page.nextCursor with
        | none => exact ⟨[page], .last fetched isNext⟩
        | some c =>
            obtain ⟨rest, follows⟩ := ih c ((isPage.more c isNext).1 n rfl) (i + 1)
            exact ⟨page :: rest, .more fetched isNext follows⟩
  obtain ⟨page, fetched, _⟩ := turns i before
  cases isNext : page.nextCursor with
  | none => exact ⟨[page], .last fetched isNext⟩
  | some c =>
      obtain ⟨rest, follows⟩ := below c (i + 1)
      exact ⟨page :: rest, .more fetched isNext follows⟩

/-- The pages hold, newest first, what was there all the time, and nothing twice. -/
structure Exact (number : Row → Nat) (rowsAt : Nat → List Row)
    (pages : List (Page Row)) : Prop where
  ascending : ∀ page ∈ pages, page.rows.Pairwise fun m m' => number m < number m'
  descending : pages.Pairwise fun newer older =>
    ∀ m ∈ older.rows, ∀ m' ∈ newer.rows, number m < number m'
  genuine : ∀ i page, pages[i]? = some page → ∀ m ∈ page.rows, m ∈ rowsAt i
  once : ((pages.flatMap Page.rows).map number).Nodup
  throughout : ∀ m, (∀ i < pages.length, m ∈ rowsAt i) → m ∈ pages.flatMap Page.rows

/-- What is on the pages from a cursor on. -/
structure From (number : Row → Nat) (rowsAt : Nat → List Row) (i : Nat) (before : Option Nat)
    (pages : List (Page Row)) : Prop where
  ascending : ∀ page ∈ pages, page.rows.Pairwise fun m m' => number m < number m'
  descending : pages.Pairwise fun newer older =>
    ∀ m ∈ older.rows, ∀ m' ∈ newer.rows, number m < number m'
  genuine : ∀ k page, pages[k]? = some page → ∀ m ∈ page.rows, m ∈ rowsAt (i + k)
  below : ∀ page ∈ pages, ∀ m ∈ page.rows, ∀ n ∈ before, number m < n
  throughout : ∀ m, (∀ k < pages.length, m ∈ rowsAt (i + k)) → (∀ n ∈ before, number m < n) →
    ∃ page ∈ pages, m ∈ page.rows

theorem Follows.pages_from {i : Nat} {before : Option Nat} {pages : List (Page Row)}
    (turns : ∀ i before page, fetch i before = .ok page → Turns number (rowsAt i) before page)
    (follows : Follows fetch i before pages) : From number rowsAt i before pages := by
  induction follows with
  | @last i before page fetched none =>
      have isPage := turns i before page fetched
      refine ⟨?_, List.pairwise_singleton _ _, ?_, ?_, ?_⟩
      · intro page' member
        exact List.mem_singleton.mp member ▸ isPage.ascending
      · intro k page' isAt m member
        cases k with
        | zero =>
            obtain rfl := Option.some.inj isAt
            exact (isPage.genuine m member).1
        | succ k => simp at isAt
      · intro page' member m inPage
        exact (isPage.genuine m (List.mem_singleton.mp member ▸ inPage)).2
      · intro m there within
        exact ⟨page, List.mem_singleton_self _, isPage.last none m (there 0 (by simp)) within⟩
  | @more i before page c rest fetched some _ ih =>
      have isPage := turns i before page fetched
      obtain ⟨less, least, split⟩ := isPage.more c some
      refine ⟨?_, ?_, ?_, ?_, ?_⟩
      · intro page' member
        rcases List.mem_cons.mp member with rfl | later
        · exact isPage.ascending
        · exact ih.ascending page' later
      · refine List.pairwise_cons.mpr ⟨fun page' later m inLater m' inPage => ?_, ih.descending⟩
        exact Nat.lt_of_lt_of_le (ih.below page' later m inLater c rfl) (least m' inPage)
      · intro k page' isAt m member
        cases k with
        | zero =>
            obtain rfl := Option.some.inj isAt
            exact (isPage.genuine m member).1
        | succ k =>
            have there := ih.genuine k page' isAt m member
            rwa [Nat.add_assoc, Nat.add_comm 1 k] at there
      · intro page' member m inPage n isBefore
        rcases List.mem_cons.mp member with rfl | later
        · exact (isPage.genuine m inPage).2 n isBefore
        · exact (ih.below page' later m inPage c rfl).trans (less n isBefore)
      · intro m there within
        rcases split m (there 0 (by simp)) within with here | earlier
        · exact ⟨page, List.mem_cons_self, here⟩
        · obtain ⟨page', later, inPage⟩ := ih.throughout m (fun k bound => by
            have next := there (k + 1) (by simpa using bound)
            rwa [Nat.add_assoc, Nat.add_comm 1 k]) (by
              intro n isCursor
              rwa [← Option.some.inj isCursor])
          exact ⟨page', List.mem_cons_of_mem _ later, inPage⟩

theorem Follows.pages_exact {pages : List (Page Row)}
    (turns : ∀ i before page, fetch i before = .ok page → Turns number (rowsAt i) before page)
    (follows : Follows fetch 0 none pages) : Exact number rowsAt pages := by
  have all := follows.pages_from turns
  refine ⟨all.ascending, all.descending, ?_, ?_, ?_⟩
  · intro i page isAt m member
    have there := all.genuine i page isAt m member
    rwa [Nat.zero_add] at there
  · rw [List.map_flatMap, List.nodup_flatMap]
    refine ⟨fun page member => ?_, all.descending.imp fun apart => ?_⟩
    · exact List.pairwise_map.mpr ((all.ascending page member).imp Nat.ne_of_lt)
    · intro n newer older
      obtain ⟨m, inNewer, rfl⟩ := List.mem_map.mp newer
      obtain ⟨m', inOlder, same⟩ := List.mem_map.mp older
      exact absurd (apart m' inOlder m inNewer) (same ▸ lt_irrefl _)
  · intro m there
    obtain ⟨page, isPage, inPage⟩ := all.throughout m (fun k bound => by
      rw [Nat.zero_add]
      exact there k bound) nofun
    exact List.mem_flatMap.mpr ⟨page, isPage, inPage⟩

/-- Following the pages of a table that changes from one to the next. -/
theorem exact_of_seek {size : Nat}
    (fetched : ∀ i before, fetch i before = .ok (seek number (rowsAt i) before size))
    (distinct : ∀ i, ((rowsAt i).map number).Nodup) (positive : 0 < size) :
    ∃ pages, Follows fetch 0 none pages ∧ (∀ pages', Follows fetch 0 none pages' → pages' = pages) ∧
      Exact number rowsAt pages := by
  have turns : ∀ i before page, fetch i before = .ok page → Turns number (rowsAt i) before page := by
    intro i before page isPage
    rw [← Except.ok.inj ((fetched i before).symm.trans isPage)]
    exact seek_turns (distinct i) positive
  obtain ⟨pages, follows⟩ := follows_exists
    (fun i before => ⟨_, fetched i before, turns i before _ (fetched i before)⟩) 0 none
  exact ⟨pages, follows, fun pages' follows' => follows'.unique follows, follows.pages_exact turns⟩

end Browsing

end Paging
