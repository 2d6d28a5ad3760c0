import Mathlib.Data.Set.Basic
import Mathlib.Logic.Function.Basic
import Mathlib.Tactic.Common

/-!
One browser that several accounts use: what its tabs and its databases hold of each, and what
`DeviceOwner.claim` leaves of one account when another one signs in. Data is told by the account
that wrote it.
-/

namespace DeviceOwner

/-- The stores of `CipherChatKeys`, `CipherChatVault`, `CipherChatSearch` and `CipherChat`. -/
inductive Store
  | metaStore
  | identity
  | sessions
  | peers
  | previews
  | deks
  | ratchets
  | messages
  | snapshots
  | offlineQueue
  deriving DecidableEq

variable {α : Type}

/-- A page: the account it shows, whose identity `E2EEService` has cached, and whose documents the
search worker holds, if there is one. -/
structure Tab (α : Type) where
  user : Option α := none
  identity : Option α := none
  index : Option (List α) := none

/-- Where an operation writes when it comes to its end. -/
inductive Place
  | store (s : Store)
  | identity (tab : Nat)
  | index (tab : Nat)
  deriving DecidableEq

structure Write (α : Type) where
  place : Place
  account : α

structure Browser (α : Type) where
  /-- `CC_DeviceOwner` -/
  owner : Option α := none
  /-- `CC_User`, beside `CC_Token` -/
  session : Option α := none
  stores : Store → List α := fun _ => []
  /-- The operations that have begun. -/
  pending : List (Write α) := []
  tabs : Nat → Tab α := fun _ => {}

def Browser.inTab (b : Browser α) (tab : Nat) (f : Tab α → Tab α) : Browser α :=
  { b with tabs := Function.update b.tabs tab (f (b.tabs tab)) }

@[simp] theorem Browser.inTab_self (b : Browser α) (tab : Nat) (f : Tab α → Tab α) :
    (b.inTab tab f).tabs tab = f (b.tabs tab) :=
  Function.update_self ..

theorem Browser.inTab_other (b : Browser α) {tab other : Nat} (apart : other ≠ tab)
    (f : Tab α → Tab α) : (b.inTab tab f).tabs other = b.tabs other :=
  Function.update_of_ne apart ..

section Claim

/-- How a `clear` fares whose promise is fulfilled with the request: if the transaction aborts after
that, the rows stay. -/
inductive Clear
  | failed
  | aborted
  | done
  deriving DecidableEq

def Clear.fulfilled (c : Clear) : Bool :=
  c ≠ failed

/-- How the worker fares with `wipe`, and whether the snapshots are gone. The page gets an answer in
each case: `call` catches. -/
inductive SearchWipe
  | noWorker
  | crashed (cleared : Bool)
  | createFailed
  | clearFailed (cleared : Bool)
  | done (cleared : Bool)
  deriving DecidableEq

def SearchWipe.clears : SearchWipe → Bool
  | crashed cleared | clearFailed cleared | done cleared => cleared
  | _ => false

/-- What the worker holds then; a new one reads the snapshots first. -/
def SearchWipe.index (snapshots : List α) (index : Option (List α)) : SearchWipe → Option (List α)
  | noWorker => index
  | crashed _ => none
  | createFailed => some (index.getD snapshots)
  | clearFailed _ => some []
  | done _ => some []

/-- How the storage fares while an account is claimed. -/
structure Outcome where
  /-- The stores of `wipeKeyStore`, each in a transaction of its own. -/
  keyStore : Store → Clear
  /-- `wipeVault`, which waits for the end of its transaction. -/
  vault : Bool
  search : SearchWipe
  /-- `OfflineQueue.clear` -/
  queue : Clear
  /-- `localStorage.setItem(OWNER_KEY, userId)` -/
  recorded : Bool

def Outcome.clears (o : Outcome) : Store → Bool
  | .deks | .ratchets | .messages => o.vault
  | .snapshots => o.search.clears
  | .offlineQueue => o.queue = .done
  | s => o.keyStore s = .done

/-- Whether `Promise.all` resolves: `wipeSearchIndex` always does. -/
def Outcome.wiped (o : Outcome) : Bool :=
  ([Store.metaStore, .identity, .sessions, .peers, .previews].all fun s => (o.keyStore s).fulfilled) &&
    o.vault && o.queue.fulfilled

def wipe (tab : Nat) (o : Outcome) (b : Browser α) : Browser α :=
  { b with stores := fun s => if o.clears s then [] else b.stores s }.inTab tab fun t =>
    { t with index := o.search.index (b.stores .snapshots) t.index }

/-- `E2EEService.refresh` -/
def refresh (tab : Nat) (b : Browser α) : Browser α :=
  b.inTab tab fun t => { t with identity := none }

def record (userId : α) (o : Outcome) (b : Browser α) : Browser α × Bool :=
  if o.recorded then ({ b with owner := some userId }, true) else (b, false)

variable [DecidableEq α]

/-- The browser when the promise has settled, and whether it was fulfilled. What else happens in the
meantime happens before or after. -/
def claim (tab : Nat) (userId : α) (o : Outcome) (b : Browser α) : Browser α × Bool :=
  if b.owner = some userId then (b, true)
  else if b.owner.isSome then
    if o.wiped then record userId o (refresh tab (wipe tab o b)) else (wipe tab o b, false)
  else record userId o b

end Claim

section Runs

inductive Action (α : Type)
  /-- `finishLogin`, or the registration; `saved` is what becomes of `CC_Token` and `CC_User`. -/
  | signIn (tab : Nat) (userId : α) (o : Outcome) (saved : Bool)
  | signOut (tab : Nat)
  /-- A 401 takes the token away. -/
  | expire
  /-- A page is loaded, and its effect restores the session. -/
  | reload (tab : Nat) (o : Outcome)
  /-- The account of the page begins to write to a store. -/
  | start (tab : Nat) (s : Store)
  | ensureReady (tab : Nat)
  | indexMessages (tab : Nat)
  /-- The worker saves what it holds. -/
  | schedulePersist (tab : Nat)
  /-- A worker is made; `loaded` is whether it could read the snapshots. -/
  | ensureWorker (tab : Nat) (loaded : Bool)
  | crash (tab : Nat)
  /-- The operation comes to its end. -/
  | land (n : Nat)
  | fail (n : Nat)

def perform (w : Write α) (b : Browser α) : Browser α :=
  match w.place with
  | .store s => { b with stores := Function.update b.stores s (w.account :: b.stores s) }
  | .identity tab => b.inTab tab fun t => { t with identity := some w.account }
  | .index tab => b.inTab tab fun t =>
      { t with index := some (w.account :: t.index.getD (b.stores .snapshots)) }

def enqueue (ws : List (Write α)) (b : Browser α) : Browser α :=
  { b with pending := b.pending ++ ws }

/-- A page is loaded. What the old one and its worker have begun ends with them, but not what the
databases have to do. -/
def load (tab : Nat) (b : Browser α) : Browser α :=
  Browser.inTab { b with pending := b.pending.filter fun w =>
    w.place ≠ Place.identity tab ∧ w.place ≠ Place.index tab } tab fun _ => {}

variable [DecidableEq α]

def step (b : Browser α) : Action α → Browser α
  | .signIn tab userId o saved =>
      if (b.tabs tab).user.isSome then b
      else
        let (b, fulfilled) := claim tab userId o b
        if fulfilled && saved then
          { b with session := some userId }.inTab tab fun t => { t with user := some userId }
        else b
  | .signOut tab =>
      (refresh tab { b with session := none }).inTab tab fun t => { t with user := none }
  | .expire => { b with session := none }
  | .reload tab o =>
      let b := load tab b
      match b.session with
      | none => b
      -- `.catch(() => {}).finally(...)`
      | some userId => (claim tab userId o b).1.inTab tab fun t => { t with user := some userId }
  | .start tab s => enqueue ((b.tabs tab).user.toList.map (Write.mk (.store s))) b
  | .ensureReady tab =>
      if (b.tabs tab).user.isSome then
        enqueue ((b.stores .identity).map (Write.mk (.identity tab))) b
      else b
  | .indexMessages tab => enqueue ((b.tabs tab).user.toList.map (Write.mk (.index tab))) b
  | .schedulePersist tab =>
      enqueue (((b.tabs tab).index.getD []).map (Write.mk (.store .snapshots))) b
  | .ensureWorker tab loaded => b.inTab tab fun t =>
      { t with index := some (t.index.getD (if loaded then b.stores .snapshots else [])) }
  | .crash tab => b.inTab tab fun t => { t with index := none }
  | .land n =>
      match b.pending[n]? with
      | none => b
      | some w => perform w { b with pending := b.pending.eraseIdx n }
  | .fail n => { b with pending := b.pending.eraseIdx n }

def run (b : Browser α) (actions : List (Action α)) : Browser α :=
  actions.foldl step b

end Runs

section Isolation

def Tab.Holds (t : Tab α) (a : α) : Prop :=
  t.user = some a ∨ t.identity = some a ∨ ∃ docs, t.index = some docs ∧ a ∈ docs

/-- In the session of an account, nothing can be read or sent that another one has written. -/
def Isolated (b : Browser α) : Prop :=
  ∀ tab u, (b.tabs tab).user = some u →
    (∀ s, ∀ a ∈ b.stores s, a = u) ∧ ∀ a, (b.tabs tab).Holds a → a = u

/-- Something of the account is in the browser. -/
def Trace (b : Browser α) (a : α) : Prop :=
  (∃ s, a ∈ b.stores s) ∨ (∃ w ∈ b.pending, w.account = a) ∨ ∃ tab, (b.tabs tab).Holds a

/-- When this account takes the browser over in this tab, what `claim` does not reach holds nothing
of another one: operations that have begun, other tabs, and what its wipes leave. -/
structure Unreached (b : Browser α) (tab : Nat) (userId : α) (o : Outcome) : Prop where
  pending : ∀ w ∈ b.pending, w.account = userId
  others : ∀ other ≠ tab, ∀ a, (b.tabs other).Holds a → a = userId
  stores : ∀ s, o.clears s = false → ∀ a ∈ b.stores s, a = userId
  index : ∀ docs, o.search.index (b.stores .snapshots) (b.tabs tab).index = some docs →
    ∀ a ∈ docs, a = userId

/-- The step takes the browser over from another account in good order, if it does so at all. -/
def Calm (b : Browser α) : Action α → Prop
  | .signIn tab userId o _ => b.owner ≠ none → b.owner ≠ some userId → o.wiped = true →
      o.recorded = true → Unreached b tab userId o
  | .reload tab o => ∀ userId, b.session = some userId → b.owner ≠ some userId →
      o.wiped = true ∧ o.recorded = true ∧ Unreached (load tab b) tab userId o
  | _ => True

/-- Whatever is there is the recorded owner's. -/
structure Owned (b : Browser α) : Prop where
  traces : ∀ a, Trace b a → b.owner = some a
  session : b.owner = none → b.session = none

theorem Owned.isolated {b : Browser α} (owned : Owned b) : Isolated b := by
  intro tab u isUser
  have isOwner := owned.traces u (.inr (.inr ⟨tab, .inl isUser⟩))
  refine ⟨fun s a member => ?_, fun a holds => ?_⟩
  · have other := owned.traces a (.inl ⟨s, member⟩)
    exact Option.some.inj (other.symm.trans isOwner)
  · have other := owned.traces a (.inr (.inr ⟨tab, holds⟩))
    exact Option.some.inj (other.symm.trans isOwner)

theorem owned_fresh : Owned ({} : Browser α) where
  traces a trace := by
    rcases trace with ⟨s, member⟩ | ⟨w, member, _⟩ | ⟨tab, isUser | isIdentity | ⟨docs, isIndex, _⟩⟩
    · cases member
    · cases member
    · cases isUser
    · cases isIdentity
    · cases isIndex
  session _ := rfl

/-- A tab that changes adds the traces that it then holds. -/
theorem trace_inTab {b : Browser α} {tab : Nat} {f : Tab α → Tab α} {a : α}
    (trace : Trace (b.inTab tab f) a) : Trace b a ∨ (f (b.tabs tab)).Holds a := by
  rcases trace with store | pending | ⟨other, holds⟩
  · exact .inl (.inl store)
  · exact .inl (.inr (.inl pending))
  · by_cases here : other = tab
    · subst here
      rw [Browser.inTab_self] at holds
      exact .inr holds
    · rw [Browser.inTab_other b here] at holds
      exact .inl (.inr (.inr ⟨other, holds⟩))

theorem Owned.inTab {b : Browser α} (owned : Owned b) {tab : Nat} {f : Tab α → Tab α}
    (held : ∀ a, (f (b.tabs tab)).Holds a → b.owner = some a) : Owned (b.inTab tab f) where
  traces a trace := (trace_inTab trace).elim (owned.traces a) (held a)
  session := owned.session

theorem Owned.enqueue {b : Browser α} (owned : Owned b) {ws : List (Write α)}
    (begun : ∀ w ∈ ws, b.owner = some w.account) : Owned (enqueue ws b) where
  traces a trace := by
    rcases trace with store | ⟨w, member, rfl⟩ | holds
    · exact owned.traces a (.inl store)
    · exact (List.mem_append.mp member).elim
        (fun old => owned.traces _ (.inr (.inl ⟨w, old, rfl⟩))) (begun w)
    · exact owned.traces a (.inr (.inr holds))
  session := owned.session

theorem Owned.fewer {b : Browser α} (owned : Owned b) {pending : List (Write α)}
    (fewer : ∀ w ∈ pending, w ∈ b.pending) : Owned { b with pending } where
  traces a trace := by
    rcases trace with store | ⟨w, member, same⟩ | holds
    · exact owned.traces a (.inl store)
    · exact owned.traces a (.inr (.inl ⟨w, fewer w member, same⟩))
    · exact owned.traces a (.inr (.inr holds))
  session := owned.session

theorem Owned.perform {b : Browser α} (owned : Owned b) {w : Write α}
    (isOwner : b.owner = some w.account) : Owned (perform w b) := by
  rw [DeviceOwner.perform]
  split
  next s _ =>
    refine ⟨fun a trace => ?_, owned.session⟩
    rcases trace with ⟨s', member⟩ | pending | holds
    · by_cases here : s' = s
      · subst here
        simp only [Function.update_self] at member
        rcases List.mem_cons.mp member with rfl | old
        · exact isOwner
        · exact owned.traces a (.inl ⟨s', old⟩)
      · simp only [Function.update_of_ne here] at member
        exact owned.traces a (.inl ⟨s', member⟩)
    · exact owned.traces a (.inr (.inl pending))
    · exact owned.traces a (.inr (.inr holds))
  next tab _ =>
    refine owned.inTab fun a holds => ?_
    rcases holds with isUser | isIdentity | isIndex
    · exact owned.traces a (.inr (.inr ⟨tab, .inl isUser⟩))
    · exact Option.some.inj isIdentity ▸ isOwner
    · exact owned.traces a (.inr (.inr ⟨tab, .inr (.inr isIndex)⟩))
  next tab _ =>
    refine owned.inTab fun a holds => ?_
    rcases holds with isUser | isIdentity | ⟨docs, isIndex, member⟩
    · exact owned.traces a (.inr (.inr ⟨tab, .inl isUser⟩))
    · exact owned.traces a (.inr (.inr ⟨tab, .inr (.inl isIdentity)⟩))
    · obtain rfl := Option.some.inj isIndex
      rcases List.mem_cons.mp member with rfl | old
      · exact isOwner
      · cases index : (b.tabs tab).index with
        | none =>
            rw [index] at old
            exact owned.traces a (.inl ⟨.snapshots, old⟩)
        | some docs =>
            rw [index] at old
            exact owned.traces a (.inr (.inr ⟨tab, .inr (.inr ⟨docs, index, old⟩)⟩))

theorem wipe_index {snapshots : List α} {index : Option (List α)} {search : SearchWipe} {docs : List α}
    (found : search.index snapshots index = some docs) {a : α} (member : a ∈ docs) :
    a ∈ snapshots ∨ ∃ docs', index = some docs' ∧ a ∈ docs' := by
  cases search with
  | noWorker => exact .inr ⟨docs, found, member⟩
  | crashed cleared => cases found
  | createFailed =>
      obtain rfl := Option.some.inj found
      cases index with
      | none => exact .inl member
      | some docs' => exact .inr ⟨docs', rfl, member⟩
  | clearFailed _ =>
      obtain rfl := Option.some.inj found
      cases member
  | done _ =>
      obtain rfl := Option.some.inj found
      cases member

/-- A wipe leaves no new traces, whatever of it fails. -/
theorem Owned.wipe {b : Browser α} (owned : Owned b) (tab : Nat) (o : Outcome) :
    Owned (wipe tab o b) := by
  have stores : Owned { b with stores := fun s => if o.clears s then [] else b.stores s } := by
    refine ⟨fun a trace => ?_, owned.session⟩
    rcases trace with ⟨s, member⟩ | rest
    · simp only at member
      split at member
      · cases member
      · exact owned.traces a (.inl ⟨s, member⟩)
    · exact owned.traces a (.inr rest)
  refine stores.inTab fun a holds => ?_
  rcases holds with isUser | isIdentity | ⟨docs, isIndex, member⟩
  · exact owned.traces a (.inr (.inr ⟨tab, .inl isUser⟩))
  · exact owned.traces a (.inr (.inr ⟨tab, .inr (.inl isIdentity)⟩))
  · rcases wipe_index isIndex member with old | old
    · exact owned.traces a (.inl ⟨.snapshots, old⟩)
    · exact owned.traces a (.inr (.inr ⟨tab, .inr (.inr old)⟩))

theorem Owned.refresh {b : Browser α} (owned : Owned b) (tab : Nat) : Owned (refresh tab b) := by
  refine owned.inTab fun a holds => ?_
  rcases holds with isUser | isIdentity | isIndex
  · exact owned.traces a (.inr (.inr ⟨tab, .inl isUser⟩))
  · cases isIdentity
  · exact owned.traces a (.inr (.inr ⟨tab, .inr (.inr isIndex)⟩))

/-- When nothing was out of reach, only the new account has traces. -/
theorem trace_wiped {b : Browser α} {tab : Nat} {u : α} {o : Outcome}
    (unreached : Unreached b tab u o) (noUser : (b.tabs tab).user = none) {a : α}
    (trace : Trace (refresh tab (wipe tab o b)) a) : a = u := by
  rcases trace with ⟨s, member⟩ | ⟨w, member, rfl⟩ | ⟨other, holds⟩
  · simp only [refresh, wipe, Browser.inTab] at member
    split at member
    next => cases member
    next kept => exact unreached.stores s (Bool.eq_false_iff.mpr kept) a member
  · exact unreached.pending w member
  · by_cases here : other = tab
    · subst here
      simp only [refresh, wipe, Browser.inTab, Function.update_self] at holds
      rcases holds with isUser | isIdentity | ⟨docs, isIndex, member⟩
      · rw [noUser] at isUser
        cases isUser
      · cases isIdentity
      · exact unreached.index docs isIndex a member
    · simp only [refresh, wipe, Browser.inTab, Function.update_of_ne here] at holds
      exact unreached.others other here a holds

variable [DecidableEq α]

/-- The browser is its owner's when an account is claimed, and the account's if that succeeds. -/
theorem claim_owned {b : Browser α} (owned : Owned b) {tab : Nat} {u : α} {o : Outcome}
    (noUser : (b.tabs tab).user = none)
    (unreached : b.owner ≠ none → b.owner ≠ some u → o.wiped = true → o.recorded = true →
      Unreached b tab u o) :
    Owned (claim tab u o b).1 ∧ ((claim tab u o b).2 = true → (claim tab u o b).1.owner = some u) := by
  rw [claim]
  split
  next same => exact ⟨owned, fun _ => same⟩
  next other =>
    split
    next isSome =>
      have some : b.owner ≠ none := Option.isSome_iff_ne_none.mp isSome
      split
      next wiped =>
        rw [record]
        split
        next recorded =>
          refine ⟨⟨fun a trace => ?_, fun none => by cases none⟩, fun _ => rfl⟩
          exact congrArg Option.some
            (trace_wiped (unreached some other wiped recorded) noUser (a := a) trace).symm
        next => exact ⟨(owned.wipe tab o).refresh tab, fun no => by cases no⟩
      next => exact ⟨owned.wipe tab o, fun no => by cases no⟩
    next isNone =>
      have none : b.owner = none := Option.not_isSome_iff_eq_none.mp isNone
      rw [record]
      split
      next =>
        refine ⟨⟨fun a trace => ?_, fun no => by cases no⟩, fun _ => rfl⟩
        have owns := owned.traces a trace
        rw [none] at owns
        cases owns
      next => exact ⟨owned, fun no => by cases no⟩

/-- A calm step leaves the browser its owner's. -/
theorem step_owned {b : Browser α} (owned : Owned b) {action : Action α} (calm : Calm b action) :
    Owned (step b action) := by
  have ofUser {tab : Nat} {u : α} (isUser : (b.tabs tab).user = some u) : b.owner = some u :=
    owned.traces u (.inr (.inr ⟨tab, .inl isUser⟩))
  cases action with
  | signIn tab u o saved =>
      simp only [step]
      split
      next => exact owned
      next noUser =>
        have noUser' := Option.not_isSome_iff_eq_none.mp noUser
        obtain ⟨claimed, isOwner⟩ := claim_owned owned noUser' calm
        split
        next done =>
          have isOwner' := isOwner (Bool.and_eq_true_iff.mp done).1
          have named : Owned { (claim tab u o b).1 with session := some u } :=
            ⟨claimed.traces, fun none => by simp [isOwner'] at none⟩
          refine named.inTab fun a holds => ?_
          rcases holds with isUser | rest
          · exact Option.some.inj isUser ▸ isOwner'
          · exact claimed.traces a (.inr (.inr ⟨tab, .inr rest⟩))
        next => exact claimed
  | signOut tab =>
      simp only [step]
      have without : Owned { b with session := none } := ⟨owned.traces, fun _ => rfl⟩
      refine (without.refresh tab).inTab fun a holds => ?_
      rcases holds with isUser | rest
      · cases isUser
      · exact (without.refresh tab).traces a (.inr (.inr ⟨tab, .inr rest⟩))
  | expire => exact ⟨owned.traces, fun _ => rfl⟩
  | reload tab o =>
      have loaded : Owned (load tab b) := by
        refine (owned.fewer fun w member => (List.mem_filter.mp member).1).inTab fun a holds => ?_
        rcases holds with isUser | isIdentity | ⟨docs, isIndex, _⟩
        · cases isUser
        · cases isIdentity
        · cases isIndex
      have same : (load tab b).session = b.session ∧ (load tab b).owner = b.owner := ⟨rfl, rfl⟩
      simp only [step, same.1]
      cases isSession : b.session with
      | none => exact loaded
      | some u =>
          have noUser : ((load tab b).tabs tab).user = none := by simp [load]
          obtain ⟨claimed, isOwner⟩ := claim_owned (o := o) loaded noUser fun _ other _ _ =>
            (calm u isSession other).2.2
          have fulfilled : (claim tab u o (load tab b)).2 = true := by
            by_cases known : b.owner = some u
            · rw [claim, if_pos (same.2.trans known)]
            · obtain ⟨wiped, recorded, _⟩ := calm u isSession known
              simp only [claim, record, wiped, recorded, if_true]
              split_ifs <;> rfl
          refine claimed.inTab fun a holds => ?_
          rcases holds with isUser | rest
          · exact Option.some.inj isUser ▸ isOwner fulfilled
          · exact claimed.traces a (.inr (.inr ⟨tab, .inr rest⟩))
  | start tab s =>
      refine owned.enqueue fun w member => ?_
      obtain ⟨u, isUser, rfl⟩ := List.mem_map.mp member
      exact ofUser (Option.mem_toList.mp isUser)
  | ensureReady tab =>
      simp only [step]
      split
      next =>
        refine owned.enqueue fun w member => ?_
        obtain ⟨a, stored, rfl⟩ := List.mem_map.mp member
        exact owned.traces a (.inl ⟨.identity, stored⟩)
      next => exact owned
  | indexMessages tab =>
      refine owned.enqueue fun w member => ?_
      obtain ⟨u, isUser, rfl⟩ := List.mem_map.mp member
      exact ofUser (Option.mem_toList.mp isUser)
  | schedulePersist tab =>
      refine owned.enqueue fun w member => ?_
      obtain ⟨a, held, rfl⟩ := List.mem_map.mp member
      cases index : (b.tabs tab).index with
      | none =>
          rw [index] at held
          cases held
      | some docs =>
          rw [index] at held
          exact owned.traces a (.inr (.inr ⟨tab, .inr (.inr ⟨docs, index, held⟩)⟩))
  | ensureWorker tab loaded =>
      simp only [step]
      refine owned.inTab fun a holds => ?_
      rcases holds with isUser | isIdentity | ⟨docs, isIndex, member⟩
      · exact ofUser isUser
      · exact owned.traces a (.inr (.inr ⟨tab, .inr (.inl isIdentity)⟩))
      · obtain rfl := Option.some.inj isIndex
        cases index : (b.tabs tab).index with
        | none =>
            rw [index, Option.getD_none] at member
            split at member
            · exact owned.traces a (.inl ⟨.snapshots, member⟩)
            · cases member
        | some docs =>
            rw [index] at member
            exact owned.traces a (.inr (.inr ⟨tab, .inr (.inr ⟨docs, index, member⟩)⟩))
  | crash tab =>
      simp only [step]
      refine owned.inTab fun a holds => ?_
      rcases holds with isUser | isIdentity | ⟨docs, isIndex, _⟩
      · exact ofUser isUser
      · exact owned.traces a (.inr (.inr ⟨tab, .inr (.inl isIdentity)⟩))
      · cases isIndex
  | land n =>
      simp only [step]
      cases found : b.pending[n]? with
      | none => exact owned
      | some w =>
          have isOwner := owned.traces w.account (.inr (.inl ⟨w, List.mem_of_getElem? found, rfl⟩))
          have fewer : Owned { b with pending := b.pending.eraseIdx n } :=
            owned.fewer fun w' => List.mem_of_mem_eraseIdx
          exact fewer.perform isOwner
  | fail n => exact owned.fewer fun w => List.mem_of_mem_eraseIdx

/-- Every step of the run is calm. -/
def CalmRun (b : Browser α) : List (Action α) → Prop
  | [] => True
  | action :: rest => Calm b action ∧ CalmRun (step b action) rest

theorem run_owned {b : Browser α} (owned : Owned b) {actions : List (Action α)}
    (calm : CalmRun b actions) : Owned (run b actions) := by
  induction actions generalizing b with
  | nil => exact owned
  | cons first rest ih => exact ih (step_owned owned calm.1) calm.2

section Examples

def fine : Outcome :=
  ⟨fun _ => .done, true, .done true, .done, true⟩

/-- One account signs in, writes to its stores and to the index, and signs out. -/
def visit (u : Nat) : List (Action Nat) :=
  [.signIn 0 u fine true, .start 0 .identity, .land 0, .ensureReady 0, .land 0, .start 0 .messages,
    .land 0, .indexMessages 0, .land 0, .schedulePersist 0, .land 0, .signOut 0]

/-- The worker could not clear its snapshots; the page takes its answer for a success. -/
def searchFails : Outcome :=
  { fine with search := .clearFailed false }

/-- An identity that was loaded before the account changed comes back afterwards. -/
example : ((run ({} : Browser Nat) (visit 1 ++ [.signIn 0 1 fine true, .ensureReady 0, .signOut 0,
    .signIn 0 2 fine true, .land 0])).tabs 0).identity = some 1 := by
  rfl

end Examples

end Isolation

end DeviceOwner
