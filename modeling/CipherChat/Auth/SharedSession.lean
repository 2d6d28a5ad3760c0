import CipherChat.Auth.Lineage
import CipherChat.Auth.Refusals

/-!
Tabs that refresh the cookie they share.  The one that is refused clears the session of both.
-/

namespace Tabs

open Async
open Rooms (Instant JavaError)
open Auth (RawToken AccessToken REUSE_GRACE)

/-- The access tokens stored, the last one first. -/
def stored (past : List Event) : List AccessToken :=
  past.filterMap fun e => match e.op with
    | .setItem token => some token
    | _ => none

def navigations (past : List Event) : List String :=
  past.filterMap fun e => match e.op with
    | .navigate _ path => some path
    | _ => none

/-- The cookies that refreshes were sent with. -/
def sent (past : List Event) : List (Option RawToken) :=
  past.filterMap fun e => match e.op, e.result with
    | .post, .ok cookie => some cookie
    | _, _ => none

/-- The times the server has read. -/
def readings (past : List Event) : List Instant :=
  past.filterMap fun e => match e.op, e.result with
    | .server .now, .ok now => some now
    | _, _ => none

def withinGrace (past : List Event) : Bool :=
  (readings past).all fun now => (readings past).all fun later => later - now ≤ REUSE_GRACE

def isOver (log : Log Op Op.Res) : Bool :=
  log.any fun x => match x.1 with
    | .retry _ | .reject => true
    | _ => false

/-- Every flow that has begun has ended. -/
def flowsOver (past : List Event) : Bool :=
  past.all fun e => isOver (own e.thread past)

/-- Requests that are refreshed on their first 401. -/
def Refreshing (_ : History) (original : Unauthorized) : Prop :=
  original.refreshes = true ∧ original.retried = false

/-- In every run from `w` whose operations are those `permits`: when the flows of all tabs are
over, which were sent with one cookie within the grace, and one of them was given a token, it is
the token of the browser, and no tab was sent away. -/
def SignedIn (w : World) (permits : History → Event → Prop) : Prop :=
  ∀ j, service.Reaches Refreshing permits w j → flowsOver j.past →
    ∀ raw, (∀ cookie ∈ sent j.past, cookie = some raw) → withinGrace j.past →
      ∀ token, stored j.past = [token] →
        j.state.browser.CC_Token = some token ∧ navigations j.past = []

/-- The tab shows a page that needs no session. -/
def NeedsNone (w : World) (tab : Nat) : Prop :=
  w.browser.pathname tab = "/login" ∨ w.browser.pathname tab = "/"

/-- The flow goes by the refresh of `p`: its own, or the one it has found under way. -/
def Shares (j : History) (t p : Nat) : Prop :=
  t = p ∨ ∃ tab, (⟨.refreshPromise tab, .ok (some p)⟩ : Done) ∈ j.log t

structure Orderly (j : History) (e : Event) : Prop where
  /-- A refusal comes before a token has been stored, to a tab that needs no session. -/
  refused : e.op = .response → ¬Committed (j.log e.thread) →
    stored j.past = [] ∧ NeedsNone e.before e.call.tab
  /-- A token is stored after those who have been refused have removed theirs. -/
  stored : ∀ token, e.op = .setItem token → ∀ p, Refused (j.log p) → ∀ t, Shares j t p → Removes (j.log t)

/-- No refresh is under way. -/
structure Idle (w : World) : Prop where
  pending : ∀ tab, w.browser.refreshPromise tab = none
  resolved : ∀ promise, w.browser.resolved promise = none

section Step

variable {t : Nat} {w w' : World} {op : Op} {result : op.Res}

theorem Exec.pathname (exec : Exec t w op result w') (stays : ∀ tab path, op ≠ .navigate tab path) :
    w'.browser.pathname = w.browser.pathname := by
  obtain ⟨a, performed⟩ := exec
  cases op with
  | server op =>
      obtain ⟨_, _, same⟩ := Option.map_eq_some_iff.mp performed
      rw [← (Prod.mk.inj same).2]
  | awaitPromise promise =>
      obtain ⟨_, _, same⟩ := Option.map_eq_some_iff.mp performed
      rw [← (Prod.mk.inj same).2]
  | navigate tab path => exact absurd rfl (stays tab path)
  | _ => rw [← (Prod.mk.inj (Option.some.inj performed)).2] <;> rfl

theorem Exec.token (exec : Exec t w op result w') (stays : ∀ token, op ≠ .setItem token)
    (keeps : op ≠ .removeToken) : w'.browser.CC_Token = w.browser.CC_Token := by
  obtain ⟨a, performed⟩ := exec
  cases op with
  | server op =>
      obtain ⟨_, _, same⟩ := Option.map_eq_some_iff.mp performed
      rw [← (Prod.mk.inj same).2]
  | awaitPromise promise =>
      obtain ⟨_, _, same⟩ := Option.map_eq_some_iff.mp performed
      rw [← (Prod.mk.inj same).2]
  | setItem token => exact absurd rfl (stays token)
  | removeToken => exact absurd rfl keeps
  | _ => rw [← (Prod.mk.inj (Option.some.inj performed)).2] <;> rfl

theorem setItem_token {token : AccessToken} {result : Op.Res (.setItem token)}
    (exec : Exec t w (.setItem token) result w') : w'.browser.CC_Token = some token := by
  obtain ⟨a, performed⟩ := exec
  rw [← (Prod.mk.inj (Option.some.inj performed)).2]
  rfl

/-- A refresh that is under way was, or has just been begun. -/
theorem Exec.pending (exec : Exec t w op result w') {tab p : Nat}
    (pending : w'.browser.refreshPromise tab = some p) :
    w.browser.refreshPromise tab = some p ∧ (∀ token, op ≠ .resolve tab token) ∨
      p = t ∧ op = .refreshPromise tab := by
  obtain ⟨a, performed⟩ := exec
  cases op with
  | server op =>
      obtain ⟨_, _, same⟩ := Option.map_eq_some_iff.mp performed
      rw [← (Prod.mk.inj same).2] at pending
      exact .inl ⟨pending, nofun⟩
  | awaitPromise promise =>
      obtain ⟨_, _, same⟩ := Option.map_eq_some_iff.mp performed
      rw [← (Prod.mk.inj same).2] at pending
      exact .inl ⟨pending, nofun⟩
  | refreshPromise tab' =>
      rw [← (Prod.mk.inj (Option.some.inj performed)).2] at pending
      simp only [World.setBrowser] at pending
      by_cases here : tab' = tab
      · subst here
        rw [Function.update_self] at pending
        cases before : w.browser.refreshPromise tab' with
        | none =>
            rw [before] at pending
            exact .inr ⟨(Option.some.inj pending).symm, rfl⟩
        | some q =>
            rw [before] at pending
            exact .inl ⟨pending, nofun⟩
      · rw [Function.update_of_ne (Ne.symm here)] at pending
        exact .inl ⟨pending, nofun⟩
  | resolve tab' token =>
      rw [← (Prod.mk.inj (Option.some.inj performed)).2] at pending
      simp only [World.setBrowser] at pending
      by_cases here : tab' = tab
      · subst here
        rw [Function.update_self] at pending
        cases pending
      · rw [Function.update_of_ne (Ne.symm here)] at pending
        exact .inl ⟨pending, fun token' same => here (Op.resolve.inj same).1⟩
  | _ =>
      rw [← (Prod.mk.inj (Option.some.inj performed)).2] at pending
      exact .inl ⟨pending, nofun⟩

/-- A promise that has come to nothing had, or has just been resolved so. -/
theorem Exec.resolved (exec : Exec t w op result w') {p : Nat}
    (resolved : w'.browser.resolved p = some none) :
    w.browser.resolved p = some none ∨ p = t ∧ ∃ tab, op = .resolve tab none := by
  obtain ⟨a, performed⟩ := exec
  cases op with
  | server op =>
      obtain ⟨_, _, same⟩ := Option.map_eq_some_iff.mp performed
      rw [← (Prod.mk.inj same).2] at resolved
      exact .inl resolved
  | awaitPromise promise =>
      obtain ⟨_, _, same⟩ := Option.map_eq_some_iff.mp performed
      rw [← (Prod.mk.inj same).2] at resolved
      exact .inl resolved
  | resolve tab token =>
      rw [← (Prod.mk.inj (Option.some.inj performed)).2] at resolved
      simp only [World.setBrowser] at resolved
      by_cases mine : p = t
      · subst mine
        rw [Function.update_self] at resolved
        obtain rfl := Option.some.inj resolved
        exact .inr ⟨rfl, tab, rfl⟩
      · rw [Function.update_of_ne mine] at resolved
        exact .inl resolved
  | _ =>
      rw [← (Prod.mk.inj (Option.some.inj performed)).2] at resolved
      exact .inl resolved

/-! What an event has been told whose operation and answer are known. -/

variable {e : Event}

theorem logged_awaitPromise {p : Nat} {token : Option AccessToken}
    (exec : Exec e.thread e.before e.op e.result e.after)
    (isLogged : e.logged = ⟨.awaitPromise p, .ok token⟩) : e.before.browser.resolved p = some token := by
  obtain ⟨t, request, op, result, before, after⟩ := e
  obtain ⟨rfl, same⟩ := Sigma.mk.inj isLogged
  obtain rfl := eq_of_heq same
  obtain ⟨a, performed⟩ := exec
  obtain ⟨token', isToken, same⟩ := Option.map_eq_some_iff.mp performed
  rw [← Except.ok.inj (Prod.mk.inj same).1]
  exact isToken

theorem logged_refreshPromise {tab : Nat} {pending : Option Nat}
    (exec : Exec e.thread e.before e.op e.result e.after)
    (isLogged : e.logged = ⟨.refreshPromise tab, .ok pending⟩) :
    e.op = .refreshPromise tab ∧ e.before.browser.refreshPromise tab = pending := by
  obtain ⟨t, request, op, result, before, after⟩ := e
  obtain ⟨rfl, same⟩ := Sigma.mk.inj isLogged
  obtain rfl := eq_of_heq same
  obtain ⟨a, performed⟩ := exec
  exact ⟨rfl, Except.ok.inj (Prod.mk.inj (Option.some.inj performed)).1⟩

theorem logged_pathname {tab : Nat} {path : String} (exec : Exec e.thread e.before e.op e.result e.after)
    (isLogged : e.logged = ⟨.pathname tab, .ok path⟩) : e.before.browser.pathname tab = path := by
  obtain ⟨t, request, op, result, before, after⟩ := e
  obtain ⟨rfl, same⟩ := Sigma.mk.inj isLogged
  obtain rfl := eq_of_heq same
  obtain ⟨a, performed⟩ := exec
  exact Except.ok.inj (Prod.mk.inj (Option.some.inj performed)).1

end Step

section Run

variable {w : World} {j : History} {e : Event}

theorem log_record_cases {t : Nat} {x : Done} (member : x ∈ (j.record e).log t) :
    x ∈ j.log t ∨ t = e.thread ∧ x = e.logged := by
  by_cases mine : e.thread = t
  · subst mine
    rw [Journal.record_log_self] at member
    rcases List.mem_cons.mp member with rfl | old
    · exact .inr ⟨rfl, rfl⟩
    · exact .inl old
  · rw [Journal.record_log_of_ne mine] at member
    exact .inl member

theorem log_record_extends (t : Nat) : (j.record e).log t = j.log t ∨
    t = e.thread ∧ (j.record e).log t = e.logged :: j.log t := by
  by_cases mine : e.thread = t
  · subst mine
    exact .inr ⟨rfl, Journal.record_log_self j e⟩
  · exact .inl (Journal.record_log_of_ne mine)

theorem refused_record {p : Nat} (refused : Refused ((j.record e).log p)) :
    Refused (j.log p) ∨ p = e.thread ∧ e.op = .response ∧ ¬Committed (j.log p) := by
  rcases log_record_extends (j := j) (e := e) p with same | ⟨mine, grown⟩
  · exact .inl (same ▸ refused)
  · rw [grown] at refused
    obtain ⟨later, result, earlier, isLog, uncommitted⟩ := refused
    cases later with
    | nil =>
        obtain ⟨isLogged, rfl⟩ := List.cons.inj isLog
        exact .inr ⟨mine, congrArg Sigma.fst isLogged, uncommitted⟩
    | cons x later =>
        obtain ⟨_, isRest⟩ := List.cons.inj isLog
        exact .inl ⟨later, result, earlier, isRest, uncommitted⟩

theorem Refused.record {p : Nat} (refused : Refused (j.log p)) (e : Event) : Refused ((j.record e).log p) := by
  rcases log_record_extends (j := j) (e := e) p with same | ⟨_, grown⟩
  · exact same.symm ▸ refused
  · exact grown.symm ▸ refused.cons _

theorem Removes.record {t : Nat} (removes : Removes (j.log t)) (e : Event) : Removes ((j.record e).log t) := by
  rcases log_record_extends (j := j) (e := e) t with same | ⟨_, grown⟩
  · exact same.symm ▸ removes
  · exact grown.symm ▸ removes.cons _

structure Kept (w : World) (j : History) : Prop where
  calls : ∀ t original, j.calls t = some original → original.refreshes = true
  stays : navigations j.past = []
  pathname : j.state.browser.pathname = w.browser.pathname
  token : ∀ token rest, stored j.past = token :: rest → j.state.browser.CC_Token = some token
  read : ∀ t tab path, (⟨.pathname tab, .ok path⟩ : Done) ∈ j.log t → w.browser.pathname tab = path
  needsNone : ∀ p original, j.calls p = some original → Refused (j.log p) → NeedsNone w original.tab
  pending : ∀ tab p, j.state.browser.refreshPromise tab = some p →
    ¬Resolves (j.log p) ∧ ∃ original, j.calls p = some original ∧ original.tab = tab
  resolved : ∀ p, j.state.browser.resolved p = some none → Refused (j.log p)
  waited : ∀ t p, (⟨.awaitPromise p, .ok none⟩ : Done) ∈ j.log t → Refused (j.log p)
  sameTab : ∀ t tab p, (⟨.refreshPromise tab, .ok (some p)⟩ : Done) ∈ j.log t →
    (∃ original, j.calls p = some original ∧ original.tab = tab) ∧
      ∃ original, j.calls t = some original ∧ original.tab = tab
  resolves : ∀ p, Refused (j.log p) → Removes (j.log p) → Resolves (j.log p)
  removed : stored j.past ≠ [] → ∀ p, Refused (j.log p) → ∀ t, Shares j t p → Removes (j.log t)

/-- Who has been told that there is no token goes by a refresh that was refused. -/
theorem Kept.shares (kept : Kept w j) {t : Nat} {original : Unauthorized} (told : Told (j.log t))
    (running : j.calls t = some original) :
    ∃ p, Refused (j.log p) ∧ Shares j t p ∧ NeedsNone w original.tab := by
  cases told with
  | own refused _ => exact ⟨t, refused, .inl rfl, kept.needsNone t original running refused⟩
  | shared tab p pending waited _ =>
      have refused := kept.waited t p waited
      obtain ⟨⟨other, runs, isTab⟩, ⟨original', running', isTab'⟩⟩ := kept.sameTab t tab p pending
      obtain rfl : original = original' := Option.some.inj (running.symm.trans running')
      refine ⟨p, refused, .inr ⟨tab, pending⟩, ?_⟩
      rw [isTab', ← isTab]
      exact kept.needsNone p other runs refused

variable (kept : Kept w j) (performs : j.Performs service Orderly e)
  (lawful : needs e.call (j.log e.thread) e.op)

include kept performs lawful

/-- Nobody is sent away. -/
theorem Kept.moves_none (tab : Nat) (path : String) : e.op ≠ .navigate tab path := by
  intro isOp
  rw [isOp] at lawful
  obtain ⟨told, pathname, read, away, away'⟩ := lawful
  obtain ⟨p, _, _, needsNone⟩ := kept.shares told performs.running
  have isPath := kept.read _ _ _ read
  rcases needsNone with isLogin | isRoot
  · exact away (isPath.symm.trans isLogin)
  · exact away' (isPath.symm.trans isRoot)

theorem Kept.record_pathname : e.after.browser.pathname = w.browser.pathname := by
  have exec := performs.exec
  rw [performs.before] at exec
  exact (Exec.pathname exec (kept.moves_none performs lawful)).trans kept.pathname

theorem Kept.record_stays : navigations (e :: j.past) = [] := by
  have quiet := kept.moves_none performs lawful
  unfold navigations
  rw [List.filterMap_cons]
  split
  · exact kept.stays
  next path isPath =>
    split at isPath
    next tab path' isOp => exact absurd isOp (quiet tab path')
    · cases isPath

/-- No token is removed once one has been stored. -/
theorem Kept.keeps_token (some' : stored j.past ≠ []) : e.op ≠ .removeToken := by
  intro isOp
  rw [isOp] at lawful
  obtain ⟨p, refused, shares, _⟩ := kept.shares lawful.2 performs.running
  exact lawful.1 (kept.removed some' p refused e.thread shares)

theorem Kept.record_token {token : AccessToken} {rest : List AccessToken}
    (isStored : stored (e :: j.past) = token :: rest) : e.after.browser.CC_Token = some token := by
  obtain ⟨t, original, op, result, before, after⟩ := e
  obtain rfl : before = j.state := performs.before
  by_cases stores : ∃ token', op = .setItem token'
  · obtain ⟨token', rfl⟩ := stores
    obtain ⟨rfl, _⟩ := List.cons.inj isStored
    exact setItem_token performs.exec
  · have quiet : ∀ token', op ≠ .setItem token' := fun token' isOp => stores ⟨token', isOp⟩
    have isStored : stored j.past = token :: rest := by
      rw [← isStored]
      unfold stored
      rw [List.filterMap_cons]
      split
      · rfl
      next token' isToken =>
        split at isToken
        next token'' isOp => exact absurd isOp (quiet token'')
        · cases isToken
    have some' : stored j.past ≠ [] := by rw [isStored]; exact List.cons_ne_nil _ _
    rw [Exec.token performs.exec quiet (kept.keeps_token performs lawful some')]
    exact kept.token token rest isStored

omit lawful in
theorem Kept.record_needsNone {p : Nat} {original : Unauthorized} (running : j.calls p = some original)
    (refused : Refused ((j.record e).log p)) : NeedsNone w original.tab := by
  rcases refused_record refused with old | ⟨rfl, isOp, uncommitted⟩
  · exact kept.needsNone p original running old
  · obtain rfl : original = e.call := Option.some.inj (running.symm.trans performs.running)
    have away := (performs.permitted.refused isOp uncommitted).2
    rw [performs.before, NeedsNone, kept.pathname] at away
    exact away

theorem Kept.record_pending {tab p : Nat} (pending : e.after.browser.refreshPromise tab = some p) :
    ¬Resolves ((j.record e).log p) ∧ ∃ original, j.calls p = some original ∧ original.tab = tab := by
  have exec := performs.exec
  rw [performs.before] at exec
  rcases Exec.pending exec pending with ⟨before, still⟩ | ⟨rfl, isOp⟩
  · obtain ⟨unresolved, original, running, isTab⟩ := kept.pending tab p before
    refine ⟨fun resolves => ?_, original, running, isTab⟩
    rcases log_record_extends (j := j) (e := e) p with same | ⟨mine, grown⟩
    · exact unresolved (same ▸ resolves)
    · rw [grown] at resolves
      obtain ⟨x, member, tab', token, isResolve⟩ := resolves
      rcases List.mem_cons.mp member with rfl | old
      · have isOp : e.op = .resolve tab' token := isResolve
        rw [isOp] at lawful
        subst mine
        obtain rfl : original = e.call := Option.some.inj (running.symm.trans performs.running)
        exact still token (by rw [isOp, lawful.1, isTab])
      · exact unresolved ⟨x, old, tab', token, isResolve⟩
  · rw [isOp] at lawful
    refine ⟨?_, e.call, performs.running, lawful.1.symm⟩
    rw [Journal.record_log_self, lawful.2]
    rintro ⟨x, member, tab', token, isResolve⟩
    obtain rfl := List.mem_singleton.mp member
    rw [show e.logged.1 = e.op from rfl, isOp] at isResolve
    cases isResolve

theorem Kept.record_resolved {p : Nat} (resolved : e.after.browser.resolved p = some none) :
    Refused ((j.record e).log p) := by
  have exec := performs.exec
  rw [performs.before] at exec
  rcases Exec.resolved exec resolved with before | ⟨rfl, tab, isOp⟩
  · exact (kept.resolved p before).record e
  · rw [isOp] at lawful
    exact (lawful.2 rfl).record e

omit performs in
theorem Kept.record_resolves {p : Nat} (refused : Refused ((j.record e).log p))
    (removes : Removes ((j.record e).log p)) : Resolves ((j.record e).log p) := by
  rcases log_record_extends (j := j) (e := e) p with same | ⟨rfl, grown⟩
  · rw [same] at refused removes ⊢
    exact kept.resolves p refused removes
  · rw [grown] at removes ⊢
    rcases refused_record refused with old | ⟨_, isOp, _⟩
    · rcases removes_cons removes with isOp | before
      · rw [show e.op = .removeToken from isOp] at lawful
        cases lawful.2 with
        | own _ resolves => exact resolves.cons _
        | shared _ _ _ _ silent => exact absurd old.answered silent
      · exact (kept.resolves _ old before).cons _
    · rw [isOp] at lawful
      rcases removes_cons removes with isOp' | before
      · cases isOp.symm.trans isOp'
      · exact absurd before lawful

omit lawful in
theorem Kept.record_removed (some' : stored (e :: j.past) ≠ []) {p t : Nat}
    (refused : Refused ((j.record e).log p)) (shares : Shares (j.record e) t p) :
    Removes ((j.record e).log t) := by
  by_cases stores : ∃ token, e.op = .setItem token
  · obtain ⟨token, isOp⟩ := stores
    have quiet : ∀ {x : Done}, x = e.logged → x.1 = .setItem token := fun same => same ▸ isOp
    refine (performs.permitted.stored token isOp p ?_ t ?_).record e
    · rcases refused_record refused with old | ⟨_, isOp', _⟩
      · exact old
      · cases isOp.symm.trans isOp'
    · rcases shares with mine | ⟨tab, member⟩
      · exact .inl mine
      · rcases log_record_cases member with old | ⟨_, now⟩
        · exact .inr ⟨tab, old⟩
        · cases quiet now
  · have some' : stored j.past ≠ [] := by
      intro none
      refine some' ?_
      unfold stored at none ⊢
      rw [List.filterMap_cons, none]
      split
      · rfl
      next token' isToken =>
        split at isToken
        next token'' isOp => exact absurd ⟨token'', isOp⟩ stores
        · cases isToken
    have before : Refused (j.log p) := by
      rcases refused_record refused with old | ⟨rfl, isOp, uncommitted⟩
      · exact old
      · exact absurd (performs.permitted.refused isOp uncommitted).1 some'
    rcases shares with rfl | ⟨tab, member⟩
    · exact (kept.removed some' t before t (.inl rfl)).record e
    rcases log_record_cases member with old | ⟨rfl, now⟩
    · exact (kept.removed some' p before t (.inr ⟨tab, old⟩)).record e
    · -- A refresh that was refused is not under way any more.
      obtain ⟨_, isPending⟩ := logged_refreshPromise performs.exec now.symm
      rw [performs.before] at isPending
      have gone := kept.resolves p before (kept.removed some' p before p (.inl rfl))
      exact absurd gone (kept.pending tab p isPending).1

theorem Kept.record : Kept w (j.record e) := by
  refine ⟨kept.calls, kept.record_stays performs lawful, kept.record_pathname performs lawful,
    fun token rest => kept.record_token performs lawful, fun t tab path member => ?_,
    fun p original running => kept.record_needsNone performs running,
    fun tab p => kept.record_pending performs lawful, fun p => kept.record_resolved performs lawful,
    fun t p member => ?_, fun t tab p member => ?_, fun p => kept.record_resolves lawful,
    fun some' p refused t => kept.record_removed performs some' refused⟩
  · rcases log_record_cases member with old | ⟨_, now⟩
    · exact kept.read t tab path old
    · rw [← kept.pathname, ← performs.before]
      exact logged_pathname performs.exec now.symm
  · rcases log_record_cases member with old | ⟨_, now⟩
    · exact (kept.waited t p old).record e
    · have resolved := logged_awaitPromise performs.exec now.symm
      rw [performs.before] at resolved
      exact (kept.resolved p resolved).record e
  · rcases log_record_cases member with old | ⟨rfl, now⟩
    · exact kept.sameTab t tab p old
    · obtain ⟨isOp, isPending⟩ := logged_refreshPromise performs.exec now.symm
      rw [performs.before] at isPending
      rw [isOp] at lawful
      exact ⟨(kept.pending tab p isPending).2, e.call, performs.running, lawful.1.symm⟩

end Run

theorem Kept.begin {w : World} {j : History} {t : Nat} {original : Unauthorized} (kept : Kept w j)
    (idle : j.calls t = none) (unused : j.log t = []) (refreshes : original.refreshes = true) :
    Kept w (j.begin t original) := by
  have runs : ∀ {p call}, j.calls p = some call → (j.begin t original).calls p = some call :=
    fun running => Journal.calls_begin idle running
  refine ⟨fun u call running => ?_, kept.stays, kept.pathname, kept.token, kept.read,
    fun p call running refused => ?_, fun tab p pending => ?_, kept.resolved, kept.waited,
    fun u tab p member => ?_, kept.resolves, kept.removed⟩
  · rcases Journal.of_calls_begin running with ⟨_, rfl⟩ | before
    · exact refreshes
    · exact kept.calls u call before
  · rcases Journal.of_calls_begin running with ⟨rfl, _⟩ | before
    · rw [Journal.begin_log, unused] at refused
      obtain ⟨x, member, _⟩ := refused.answered
      cases member
    · exact kept.needsNone p call before refused
  · obtain ⟨unresolved, call, running, isTab⟩ := kept.pending tab p pending
    exact ⟨unresolved, call, runs running, isTab⟩
  · obtain ⟨⟨call, running, isTab⟩, ⟨call', running', isTab'⟩⟩ := kept.sameTab u tab p member
    exact ⟨⟨call, runs running, isTab⟩, call', runs running', isTab'⟩

theorem Idle.kept {w : World} (idle : Idle w) : Kept w (.empty w) := by
  refine ⟨nofun, rfl, rfl, nofun, nofun, nofun, fun tab p pending => ?_, fun p resolved => ?_, nofun, nofun,
    fun p refused => ?_, fun some' => absurd rfl some'⟩
  · rw [Journal.empty_state, idle.pending tab] at pending
    cases pending
  · rw [Journal.empty_state, idle.resolved p] at resolved
    cases resolved
  · obtain ⟨x, member, _⟩ := refused.answered
    cases member

theorem signed_in (w : World) (idle : Idle w) : SignedIn w Orderly := by
  intro j reaches _ raw _ _ token isStored
  have kept : Kept w j := by
    refine reaches.invariant (Kept w) service_follows idle.kept ?_ ?_
    · exact fun j t original kept idle unused admitted => kept.begin idle unused admitted.1
    · exact fun j e kept performs lawful => kept.record performs (lawful (kept.calls _ _ performs.running))
  exact ⟨kept.token token [] isStored, kept.stays⟩

section Race

/-- A user is signed in, and both tabs show a conversation. -/
def signedIn : World where
  browser := {
    cookie := some [1]
    CC_Token := some ⟨1, -900000⟩
    CC_User := true
    pathname := fun _ => "/chat"
    refreshPromise := fun _ => none
    resolved := fun _ => none }
  server := {
    Auth.blank with
    db := (Auth.blank.db.write (0, .main) {
      id := 1
      userId := 1
      tokenHash := .sha256 [1]
      expiresAt := Auth.refreshTokenTtl
      familyId := 2
      usedAt := none }).commit (0, .main)
    uuids := [1, 2]
    raws := [[1]] }

theorem signedIn_idle : Idle signedIn :=
  ⟨fun _ => rfl, fun _ => rfl⟩

theorem signed_in_signedIn : SignedIn signedIn Orderly :=
  signed_in signedIn signedIn_idle

def original (tab : Nat) : Unauthorized where
  tab := tab
  url := "/api/v1/users".toList
  retried := false

def allows (original : Unauthorized) : Bool :=
  original.refreshes && !original.retried

/-- Both tabs send the cookie; the second is refused after the first has stored its token. -/
def race : Option History :=
  ((service.schedule perform allows).follow (Service.unstarted signedIn)
    (.start 0 (original 0) :: .start 1 (original 1) :: steps 0 2 ++ steps 1 2 ++ steps 0 5 ++
      [.await 0 { id := 3, family := 4, raw := [2] }] ++ steps 0 4 ++ steps 0 4 ++ steps 1 4 ++
      steps 1 7)).map Config.state

structure Outcome where
  flowsEnded : Bool
  sent : List (Option RawToken)
  withinGrace : Bool
  stored : List AccessToken
  token : Option AccessToken
  navigations : List String
  deriving DecidableEq

theorem race_lost : race.map (fun j => Outcome.mk (flowsOver j.past) (sent j.past) (withinGrace j.past)
    (stored j.past) j.state.browser.CC_Token (navigations j.past)) = some {
      flowsEnded := true
      sent := [some [1], some [1]]
      withinGrace := true
      stored := [⟨1, 0⟩]
      token := none
      navigations := ["/login"] } := by
  decide +kernel

theorem race_reaches {j : History} (ran : race = some j) :
    service.Reaches Refreshing (fun _ _ => True) signedIn j := by
  obtain ⟨config, followed, rfl⟩ := Option.map_eq_some_iff.mp ran
  have calls : ∀ (j : History) original, allows original = true → Refreshing j original :=
    fun _ _ allowed => by simpa [allows, Refreshing] using allowed
  have performs : ∀ t w op a result w', perform t w op a = some (result, w') →
      service.exec t w op result w' := fun _ _ _ a _ _ performed => ⟨a, performed⟩
  exact Service.reaches_follow calls performs (fun _ _ => trivial) followed

theorem signed_out : ¬SignedIn signedIn fun _ _ => True := by
  intro claim
  obtain ⟨j, ran, facts⟩ := Option.map_eq_some_iff.mp race_lost
  obtain ⟨isOver, isSent, grace, isStored, isToken, _⟩ := Outcome.mk.inj facts
  have cookie : ∀ cookie ∈ sent j.past, cookie = some [1] := by
    rw [isSent]
    decide
  have kept := (claim j (race_reaches ran) isOver [1] cookie grace _ isStored).1
  rw [isToken] at kept
  cases kept

end Race

end Tabs
