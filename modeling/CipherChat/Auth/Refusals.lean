import CipherChat.Auth.Tabs

/-!
The flow of a tab as its own log shows it: the session is cleared, and the tab sent away, only
where the refresh that the flow has waited for was refused.
-/

namespace Tabs

open Async
open Rooms (JavaError)
open Auth (RawToken AccessToken)

abbrev Done := (op : Op) × op.Res

/-- The last thing done is the commit of a refresh. -/
def Committed (log : Log Op Op.Res) : Prop :=
  log.head? = some ⟨.server (.commit .main), .ok ()⟩

/-- The response has come to a refresh whose transaction was not committed. -/
def Refused (log : Log Op Op.Res) : Prop :=
  ∃ later result earlier, log = later ++ (⟨.response, result⟩ : Done) :: earlier ∧ ¬Committed earlier

def Answered (log : Log Op Op.Res) : Prop :=
  ∃ x ∈ log, x.1 = .response

def Resolves (log : Log Op Op.Res) : Prop :=
  ∃ x ∈ log, ∃ tab token, x.1 = .resolve tab token

def Removes (log : Log Op Op.Res) : Prop :=
  ∃ x ∈ log, x.1 = .removeToken

/-- The flow has been told that there is no token: by its own refresh, or by the promise of one
that was under way. -/
inductive Told (log : Log Op Op.Res) : Prop
  | own : Refused log → Resolves log → Told log
  | shared (tab promise) : (⟨.refreshPromise tab, .ok (some promise)⟩ : Done) ∈ log →
      (⟨.awaitPromise promise, .ok none⟩ : Done) ∈ log → ¬Answered log → Told log

/-- What an operation needs to have before it. -/
def needs (original : Unauthorized) (log : Log Op Op.Res) : Op → Prop
  | .refreshPromise tab => tab = original.tab ∧ log = []
  | .response => ¬Removes log
  | .resolve tab token => tab = original.tab ∧ (token = none → Refused log)
  | .removeToken => ¬Removes log ∧ Told log
  | .navigate _ _ => Told log ∧ ∃ pathname,
      (⟨.pathname original.tab, .ok pathname⟩ : Done) ∈ log ∧ pathname ≠ "/login" ∧ pathname ≠ "/"
  | _ => True

def law (original : Unauthorized) (log : Log Op Op.Res) (op : Op) : Prop :=
  original.refreshes = true → needs original log op

section Log

variable {log : Log Op Op.Res} {x : Done}

theorem Refused.cons (refused : Refused log) (x : Done) : Refused (x :: log) := by
  obtain ⟨later, result, earlier, rfl, unwritten⟩ := refused
  exact ⟨x :: later, result, earlier, rfl, unwritten⟩

theorem Refused.answered (refused : Refused log) : Answered log := by
  obtain ⟨later, result, earlier, rfl, _⟩ := refused
  exact ⟨_, List.mem_append_right _ List.mem_cons_self, rfl⟩

theorem Resolves.cons (resolves : Resolves log) (x : Done) : Resolves (x :: log) := by
  obtain ⟨y, member, isResolve⟩ := resolves
  exact ⟨y, List.mem_cons_of_mem _ member, isResolve⟩

theorem Removes.cons (removes : Removes log) (x : Done) : Removes (x :: log) := by
  obtain ⟨y, member, isRemove⟩ := removes
  exact ⟨y, List.mem_cons_of_mem _ member, isRemove⟩

theorem removes_cons (removes : Removes (x :: log)) : x.1 = .removeToken ∨ Removes log := by
  obtain ⟨y, member, isRemove⟩ := removes
  rcases List.mem_cons.mp member with rfl | old
  · exact .inl isRemove
  · exact .inr ⟨y, old, isRemove⟩

theorem answered_cons (answered : Answered (x :: log)) : x.1 = .response ∨ Answered log := by
  obtain ⟨y, member, isResponse⟩ := answered
  rcases List.mem_cons.mp member with rfl | old
  · exact .inl isResponse
  · exact .inr ⟨y, old, isResponse⟩

theorem Told.cons (told : Told log) (quiet : x.1 ≠ .response) : Told (x :: log) := by
  cases told with
  | own refused resolves => exact .own (refused.cons x) (resolves.cons x)
  | shared tab promise pending waited silent =>
      refine .shared tab promise (List.mem_cons_of_mem _ pending) (List.mem_cons_of_mem _ waited) ?_
      exact fun answered => (answered_cons answered).elim quiet silent

end Log

/-! The answer of the server. -/

/-- The operations of a request, as they are written down. -/
def noted (log : Log Op Op.Res) (op : Auth.Op) (answer : op.Res) (log' : Log Op Op.Res) : Prop :=
  log' = ⟨.server op, answer⟩ :: log

section Server

variable {log log₀ : Log Op Op.Res}

theorem ends_served {α : Type} {p : Auth.Prog α} {result : Except JavaError α} :
    Ends logged log₀ (served p) result log ↔ Ends noted log₀ p result log := by
  refine runs_relabel.trans ⟨fun run => run.mono ?_, fun run => run.mono ?_⟩
  · rintro log op answer log' ⟨_, written, rfl⟩
    exact written
  · exact fun log op answer log' written => ⟨answer, written, rfl⟩

theorem ends_noted {op : Auth.Op} {result : op.Res} :
    Ends noted log₀ (Auth.call op) result log ↔ log = ⟨.server op, result⟩ :: log₀ :=
  runs_call

/-- A transaction that ends with an error has not been committed. -/
theorem not_committed {α : Type} {body : Auth.Prog α} {e : JavaError}
    (ends : Ends noted log₀ (Auth.transactional .main body) (.error e) log) : ¬Committed log := by
  have unlike : ∀ {op : Auth.Op} {result : op.Res} {earlier : Log Op Op.Res},
      op ≠ .commit .main → ¬Committed (⟨.server op, result⟩ :: earlier) := by
    intro op result earlier other committed
    have same := congrArg Sigma.fst (Option.some.inj committed)
    exact other (Op.server.inj same)
  unfold Auth.transactional at ends
  rcases ends_bind.mp ends with ⟨value, log₁, _, commits⟩ | ⟨e', fails, _⟩
  · rcases ends_bind.mp commits with ⟨_, log₂, _, returns⟩ | ⟨e'', failed, _⟩
    · cases (ends_pure.mp returns).1
    · obtain rfl := ends_noted.mp failed
      intro committed
      have same := eq_of_heq (Sigma.mk.inj (Option.some.inj committed)).2
      cases same
  · rcases ends_tryCatch.mp fails with ⟨_, _, isOk⟩ | ⟨e'', log₁, _, handles⟩
    · cases isOk
    · rcases ends_bind.mp handles with ⟨_, log₂, rolledBack, throws⟩ | ⟨_, failed, _⟩
      · obtain ⟨_, rfl⟩ := ends_throw.mp throws
        obtain rfl := ends_noted.mp rolledBack
        exact unlike nofun
      · obtain rfl := ends_noted.mp failed
        exact unlike nofun

end Server

/-! The flow. -/

section Flow

variable {permits : History → Event → Prop} {original : Unauthorized}

/-- One operation, which needs what is known. -/
theorem follows_op {op : Op} {pre : Log Op Op.Res → Prop} {post : op.Res → Log Op Op.Res → Prop}
    (lawful : ∀ log, pre log → needs original log op)
    (after : ∀ log, pre log → ∀ result, post result (⟨op, result⟩ :: log)) :
    Follows service permits law original pre (call op) post := by
  intro t j start
  exact safe_op (fun log known => ⟨fun _ => lawful log known, fun _ result _ _ => after log known result⟩)
    start

/-- What is known of a flow that has come to a token, or to none. -/
def Settled (result : Except JavaError (Option AccessToken)) (log : Log Op Op.Res) : Prop :=
  ¬Removes log ∧ (result = .ok none → Told log)

theorem not_removes_cons {log : Log Op Op.Res} {x : Done} (stays : ¬Removes log) (other : x.1 ≠ .removeToken) :
    ¬Removes (x :: log) :=
  fun removes => (removes_cons removes).elim other stays

theorem served_follows (cookie : Option RawToken) : Follows service permits law original
    (fun log => ¬Removes log) (settle (served (Auth.refresh cookie)))
    fun result log => ¬Removes log ∧ ∀ e, result = .ok (.error e) → ¬Committed log := by
  have uses : Uses (fun op => ∃ request, op = .server request) (settle (served (Auth.refresh cookie))).run :=
    uses_settle (uses_relabel ((uses_any _).mono fun op _ => ⟨op, rfl⟩))
  have runs : Follows service permits law original (fun log => ¬Removes log ∧ True)
      (settle (served (Auth.refresh cookie))) fun result log => ¬Removes log ∧ ∃ log₀, True ∧
        Ends logged log₀ (settle (served (Auth.refresh cookie))) result log := by
    refine follows_ends (fun op isServer log stays => ?_) uses
    obtain ⟨request, rfl⟩ := isServer
    exact ⟨fun _ => trivial, fun result => not_removes_cons stays nofun⟩
  refine runs.weaken (fun log stays => ⟨stays, trivial⟩) fun result log holds => ⟨holds.1, ?_⟩
  · rintro e rfl
    obtain ⟨log₀, _, ends⟩ := holds.2
    obtain ⟨answer, ends, isAnswer⟩ := ends_settle.mp ends
    obtain rfl := Except.ok.inj isAnswer
    exact not_committed (ends_served.mp ends)

theorem keepToken_follows (answer : Except JavaError AccessToken) : Follows service permits law original
    (fun log => ¬Removes log ∧ ∀ e, answer = .error e → Refused log) (keepToken answer)
    fun result log => ¬Removes log ∧ (result = .ok none → Refused log) := by
  cases answer with
  | error e => exact follows_pure fun log known => ⟨known.1, fun _ => known.2 e rfl⟩
  | ok token =>
      refine follows_bind (fun _ log => ¬Removes log)
        (follows_op (fun _ _ => trivial) fun log known result => not_removes_cons known.1 nofun)
        (fun _ => ?_) fun _ _ stays => ⟨stays, nofun⟩
      exact follows_pure fun log stays => ⟨stays, nofun⟩

/-- What is known once the tab has told whether a refresh is under way in it. -/
def Pending (original : Unauthorized) (result : Except JavaError (Option Nat)) (log : Log Op Op.Res) : Prop :=
  log = [⟨.refreshPromise original.tab, result⟩]

theorem waits_follows (promise : Nat) : Follows service permits law original
    (Pending original (.ok (some promise))) (call (.awaitPromise promise)) Settled := by
  refine follows_op (fun _ _ => trivial) fun log pending result => ?_
  obtain rfl := pending
  constructor
  · rintro ⟨x, member, isRemove⟩
    simp only [List.mem_cons, List.not_mem_nil, or_false] at member
    rcases member with rfl | rfl
    · cases isRemove
    · cases isRemove
  · rintro rfl
    refine .shared original.tab promise (List.mem_cons_of_mem _ List.mem_cons_self) List.mem_cons_self ?_
    rintro ⟨x, member, isResponse⟩
    simp only [List.mem_cons, List.not_mem_nil, or_false] at member
    rcases member with rfl | rfl
    · cases isResponse
    · cases isResponse

theorem refreshes_follows : Follows service permits law original (Pending original (.ok none))
    (do
      let cookie ← call .post
      let answer ← settle (served (Auth.refresh cookie))
      call .response
      let token ← keepToken answer
      call (.resolve original.tab token)
      return token) Settled := by
  refine follows_bind (fun _ log => ¬Removes log) (follows_op (fun _ _ => trivial) fun log pending result => ?_)
    (fun cookie => ?_) fun _ _ stays => ⟨stays, nofun⟩
  · obtain rfl := pending
    rintro ⟨x, member, isRemove⟩
    simp only [List.mem_cons, List.not_mem_nil, or_false] at member
    rcases member with rfl | rfl
    · cases isRemove
    · cases isRemove
  refine follows_bind (fun result log => ¬Removes log ∧ ∀ e, result = .ok (.error e) → ¬Committed log)
    (served_follows cookie) (fun answer => ?_) fun _ _ known => ⟨known.1, nofun⟩
  refine follows_bind (fun _ log => ¬Removes log ∧ ∀ e, answer = .error e → Refused log)
    (follows_op (fun _ known => known.1) fun log known result => ⟨not_removes_cons known.1 nofun, ?_⟩)
    (fun _ => ?_) fun _ _ known => ⟨known.1, nofun⟩
  · rintro e rfl
    exact ⟨[], result, log, rfl, known.2 e rfl⟩
  refine follows_bind (fun result log => ¬Removes log ∧ (result = .ok none → Refused log))
    (keepToken_follows answer) (fun token => ?_) fun _ _ known => ⟨known.1, nofun⟩
  refine follows_bind (fun _ log => ¬Removes log ∧ (token = none → Told log))
    (follows_op (fun _ known => ⟨rfl, fun none => known.2 (congrArg _ none)⟩) fun log known result => ?_)
    (fun _ => ?_) fun _ _ known => ⟨known.1, nofun⟩
  · refine ⟨not_removes_cons known.1 nofun, fun none => .own ((known.2 (congrArg _ none)).cons _) ?_⟩
    exact ⟨_, List.mem_cons_self, original.tab, token, rfl⟩
  · exact follows_pure fun log known => ⟨known.1, fun isNone => known.2 (Except.ok.inj isNone)⟩

theorem newToken_follows (refreshes : original.refreshes = true) : Follows service permits law original
    (fun log => log = []) (newToken original) Settled := by
  unfold newToken
  rw [if_pos refreshes]
  unfold refreshAccessToken
  refine follows_bind (Pending original) (follows_op (fun log empty => ⟨rfl, empty⟩) fun log empty result => ?_)
    (fun pending => ?_) fun e log pending => ⟨?_, nofun⟩
  · obtain rfl := empty
    rfl
  · cases pending with
    | some promise => exact waits_follows promise
    | none => exact refreshes_follows
  · obtain rfl := pending
    rintro ⟨x, member, isRemove⟩
    obtain rfl := List.mem_singleton.mp member
    cases isRemove

theorem clearSession_follows : Follows service permits law original
    (fun log => ¬Removes log ∧ Told log) (clearSessionAndRedirect original.tab) fun _ _ => True := by
  have quiet : ∀ {log : Log Op Op.Res} {x : Done}, Told log → x.1 ≠ .response → Told (x :: log) :=
    fun told other => told.cons other
  unfold clearSessionAndRedirect
  refine follows_bind (fun _ log => Told log) (follows_op (fun _ => id) fun log known result => quiet known.2 nofun)
    (fun _ => ?_) fun _ _ _ => trivial
  refine follows_bind (fun _ log => Told log) (follows_op (fun _ _ => trivial) fun log told result => quiet told nofun)
    (fun _ => ?_) fun _ _ _ => trivial
  refine follows_bind (fun result log => Told log ∧ (⟨.pathname original.tab, result⟩ : Done) ∈ log)
    (follows_op (fun _ _ => trivial) fun log told result => ⟨quiet told nofun, List.mem_cons_self⟩)
    (fun pathname => ?_) fun _ _ _ => trivial
  unfold redirect
  split
  next away =>
    exact follows_op (fun log known => ⟨known.1, pathname, known.2, away.1, away.2⟩) fun _ _ _ => trivial
  next => exact follows_pure fun _ _ => trivial

theorem service_follows : service.Follows permits law := by
  intro original
  cases refreshes : original.refreshes with
  | false =>
      have free : ∀ log op, law original log op := fun log op allowed => by simp [refreshes] at allowed
      exact (follows_uses (fun op _ log _ => ⟨free log op, fun _ => trivial⟩) (uses_any _)).weaken
        (fun _ _ => trivial) fun _ _ => id
  | true =>
      change Follows service permits law original (fun log => log = []) (onRejected original) fun _ _ => True
      have rejects : ∀ {pre : Log Op Op.Res → Prop}, Follows service permits law original pre (call .reject)
          fun _ _ => True := follows_op (fun _ _ => trivial) fun _ _ _ => trivial
      unfold onRejected
      split
      · exact rejects
      refine follows_bind Settled (newToken_follows refreshes) (fun token => ?_) fun _ _ _ => trivial
      cases token with
      | some token => exact follows_op (fun _ _ => trivial) fun _ _ _ => trivial
      | none =>
          refine follows_bind (fun _ _ => True) (clearSession_follows.weaken
            (fun log known => ⟨known.1, known.2 rfl⟩) fun _ _ => id) (fun _ => rejects) fun _ _ _ => trivial

end Flow

end Tabs
