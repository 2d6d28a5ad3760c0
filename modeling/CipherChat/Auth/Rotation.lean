import CipherChat.Auth.Deletions

/-!
A refresh keeps the contract: it continues a family with the row of the presented token in its
hands, and is answered with a session only after it has committed that row as used.
-/

namespace Auth

open Async ReadCommitted
open Rooms (UUID Instant JavaError)

variable {permits : History → Event → Prop} {t : Nat} {request : Call} {α β : Type}

/-- The transaction has marked the row of the token used. -/
def Marked (s : Server) (tx : Tx) (h : TokenHash) : Prop :=
  ∃ r, s.Pends tx r ∧ r.usedAt ≠ none ∧ r.tokenHash = h

/-- A rotation before it inserts: `n` is how many rows it has marked. -/
structure Claiming (t : Nat) (h : TokenHash) (familyId userId : UUID) (n : Nat) (j : History) : Prop where
  noneNew : NoneNew j.state (t, .main)
  marked : 0 < n → Marked j.state (t, .main) h
  known : Known j.state h familyId userId
  surfaced : Surfaced j.state familyId
  unwritten : ∀ k version, j.state.db.held k ≠ some ((t, .isolated), version)
  idle : Idle t j

/-- A rotation after it has inserted the successor. -/
structure Continued (t : Nat) (h : TokenHash) (j : History) : Prop where
  marked : Marked j.state (t, .main) h
  idle : Idle t j

def Rotated (t : Nat) (raw : RawToken) (j : History) : Prop :=
  ∃ e ∈ j.past, e.thread = t ∧ .sha256 raw ∈ Event.rotated e

theorem stable_claiming {h : TokenHash} {familyId userId : UUID} {n : Nat} :
    Stable t (Claiming t h familyId userId n) := by
  intro j j' rely claiming
  refine ⟨fun r pends => claiming.noneNew r (rely.pends.mp pends), fun some => ?_,
    rely.known _ _ _ claiming.known, rely.surfaced _ claiming.surfaced,
    fun k version isHeld => claiming.unwritten k version ((rely.held k _ version).mp isHeld),
    stable_idle j j' rely claiming.idle⟩
  obtain ⟨r, pends, rest⟩ := claiming.marked some
  exact ⟨r, rely.pends.mpr pends, rest⟩

theorem stable_continued {h : TokenHash} : Stable t (Continued t h) := by
  intro j j' rely continued
  obtain ⟨r, pends, rest⟩ := continued.marked
  exact ⟨⟨r, rely.pends.mpr pends, rest⟩, stable_idle j j' rely continued.idle⟩

theorem stable_rotated {raw : RawToken} : Stable t (Rotated t raw) := by
  rintro j j' rely ⟨e, member, rest⟩
  exact ⟨e, rely.past.subset member, rest⟩

section Claim

variable {h : TokenHash} {familyId userId : UUID} {now : Instant}

/-- One row of `markUsed`. -/
theorem guides_mark (id : UUID) (n : Nat) :
    Guides permits t request (Claiming t h familyId userId n)
      (call (.modify .main (.unused h now) (.markUsed now) id))
      fun m => Claiming t h familyId userId (n + m) := by
  refine guides_call stable_claiming fun j kept running claiming => ?_
  have fine : Fine t j.state (.modify .main (.unused h now) (.markUsed now) id) :=
    ⟨⟨h, now, rfl⟩, claiming.noneNew⟩
  refine ⟨⟨fine, trivial⟩, fun m s' exec => ?_⟩
  have known := claiming.known.step kept.chained exec.outcome fine
  have surfaced := claiming.surfaced.step kept.chained exec.outcome fine
  have idle : Idle t (answered request t j _ m s') := claiming.idle.answered fun scope => rfl
  obtain ⟨_, ⟨rfl, rfl, _⟩ | ⟨rfl, r, seen, isId, matched, rfl⟩⟩ := modify_some exec.modify_ok
  · exact ⟨claiming.noneNew, claiming.marked, known, surfaced, claiming.unwritten, idle⟩
  · set used : RefreshToken := { r with usedAt := some now } with isUsed
    have isToken : r.tokenHash = h := by
      simp only [Target.holds, Bool.and_eq_true, decide_eq_true_eq] at matched
      exact matched.1.1
    have pends_iff {tx r'} : (j.state.change (t, .main) r (.markUsed now)).Pends tx r' ↔
        (tx = (t, .main) ∧ r' = used) ∨ (r'.id ≠ r.id ∧ j.state.Pends tx r') :=
      Server.pends_write rfl
    refine ⟨fun r' pends => ?_, fun _ => ⟨used, pends_iff.mpr (.inl ⟨rfl, rfl⟩),
      Option.some_ne_none _, isToken⟩, known, surfaced, fun k version isHeld => ?_, idle⟩
    · rcases pends_iff.mp pends with ⟨_, rfl⟩ | ⟨_, old⟩
      · exact Option.some_ne_none _
      · exact claiming.noneNew r' old
    · change (j.state.db.write _ _).held k = _ at isHeld
      rw [Database.held_write] at isHeld
      split at isHeld
      · cases isHeld
      · exact claiming.unwritten k version isHeld

theorem guides_markEach (ids : List UUID) (n : Nat) :
    Guides permits t request (Claiming t h familyId userId n)
      (modifyEach .main (.unused h now) (.markUsed now) ids)
      fun m => Claiming t h familyId userId (n + m) := by
  induction ids generalizing n with
  | nil => exact guides_pure fun j claiming => claiming
  | cons id rest ih =>
      refine guides_bind _ (guides_mark id n) fun m => guides_bind _ (ih (n + m)) fun m' => ?_
      exact guides_pure fun j claiming => by rwa [← Nat.add_assoc]

/-- What is known of a token that was not claimed. -/
structure Refusing (t : Nat) (familyId : UUID) (j : History) : Prop where
  surfaced : Surfaced j.state familyId
  unwritten : ∀ k version, j.state.db.held k ≠ some ((t, .isolated), version)
  idle : Idle t j

theorem Claiming.refusing {n : Nat} {j : History} (claiming : Claiming t h familyId userId n j) :
    Refusing t familyId j :=
  ⟨claiming.surfaced, claiming.unwritten, claiming.idle⟩

theorem guides_claim (row : RefreshToken) :
    Guides permits t request (Claiming t h familyId userId 0) (claim row h now)
      fun claimed j => if claimed then Claiming t h familyId userId 1 j else Refusing t familyId j := by
  unfold claim
  split
  · refine guides_bind (fun n => Claiming t h familyId userId n) ?_ fun n =>
      guides_pure fun j claiming => ?_
    · refine guides_bind _ (guides_still trivial stable_claiming) fun rows => ?_
      exact (guides_markEach _ 0).weaken (fun _ => id) fun m j claiming => by rwa [Nat.zero_add] at claiming
    · by_cases one : n = 1
      · subst one
        exact claiming
      · simpa [one] using claiming.refusing
  · exact guides_pure fun j claiming => by simpa using claiming.refusing

end Claim

section Refresh

variable {h : TokenHash} {familyId userId : UUID}

/-- The successor is inserted by the transaction that has marked its predecessor. -/
theorem guides_issue {n : Nat} (some' : 0 < n) :
    Guides permits t request (Claiming t h familyId userId n) (issue userId (some familyId))
      fun _ => Continued t h := by
  refine guides_bind _ (guides_still trivial stable_claiming) fun now =>
    guides_bind (fun _ => Continued t h) (guides_call stable_claiming fun j kept _ claiming => ?_)
      fun _ => guides_pure fun _ => id
  obtain ⟨r, pends, isUsed, isToken⟩ := claiming.marked some'
  obtain ⟨family, user⟩ := claiming.known.2 r (.inr ⟨_, pends⟩) isToken
  have fine : Fine t j.state (.save userId (now + refreshTokenTtl) (some familyId)) :=
    ⟨claiming.noneNew, r, pends, isUsed, family, user⟩
  refine ⟨⟨fine, trivial⟩, fun raw s' exec => ⟨?_, claiming.idle.answered fun scope => rfl⟩⟩
  have outcome := exec.outcome
  cases outcome with
  | same same _ =>
      refine ⟨r, ?_, isUsed, isToken⟩
      have isDb : s'.db = j.state.db := same.db
      rw [Server.Pends, Journal.record_state, isDb]
      exact pends
  | saved r' drawn _ _ newId _ _ _ isAfter =>
      subst isAfter
      refine ⟨r, (Server.pends_write rfl).mpr (.inr ⟨fun same => newId ?_, pends⟩), isUsed, isToken⟩
      exact same ▸ (kept.chained.drawn r (.inr ⟨_, pends⟩)).1
  | closed _ ends _ => cases ends

/-- A token that was used before is refused, and its family revoked once it is too late. -/
theorem guides_refuse (row : RefreshToken) (now : Instant) :
    Guides permits t request (Refusing t row.familyId) (refuse row now)
      fun rotation _ => rotation.ok = false := by
  unfold refuse
  dsimp only
  split
  · exact guides_pure fun _ _ => rfl
  · refine guides_bind (fun _ _ => True) (guides_transactional ?_ (fun _ => stable_revokes)
      fun _ _ _ revokes => ⟨revokes, trivial⟩) fun _ => guides_pure fun _ _ => rfl
    refine (guides_deleteFamily row.familyId).weaken (fun j refusing => ?_) fun _ _ => id
    exact ⟨⟨refusing.unwritten, refusing.idle .isolated⟩, refusing.surfaced⟩

theorem guides_rotateRow (row : RefreshToken) (now : Instant) :
    Guides permits t request (Claiming t h row.familyId row.userId 0) (rotateRow row h now)
      fun rotation j => rotation.ok = true → Continued t h j := by
  refine guides_bind _ (guides_claim row) fun claimed => ?_
  cases claimed with
  | true =>
      refine guides_bind _ ((guides_issue Nat.one_pos).weaken (fun j claiming => ?_) fun _ _ => id)
        fun _ => guides_pure fun j continued _ => continued
      simpa using claiming
  | false =>
      refine (guides_refuse row now).weaken (fun j refusing => by simpa using refusing)
        fun rotation j refused rotated => ?_
      rw [refused] at rotated
      cases rotated

theorem guides_rotate (raw : RawToken) :
    Guides permits t request (Ready t) (rotate raw)
      fun rotation j => rotation.ok = true → Continued t (.sha256 raw) j := by
  refine guides_bind _ (guides_still trivial stable_ready) fun now =>
    guides_bind _ (guides_find _) fun found => ?_
  cases found with
  | none => exact guides_pure fun j _ rotated => by cases rotated
  | some row =>
      dsimp only
      split
      · refine (guides_rotateRow row now).weaken (fun j learnt => ?_) fun _ _ => id
        obtain ⟨ready, all⟩ := learnt
        obtain ⟨known, surfaced⟩ := all row rfl
        exact ⟨fun r pends => absurd pends.holds ((ready.blank .main).free r), fun none => absurd none
          (lt_irrefl 0), known, surfaced, fun k => ready.unwritten k .isolated, ready.idle⟩
      · exact guides_pure fun j _ rotated => by cases rotated

theorem stable_rotation {rotation : Rotation} :
    Stable t fun j => rotation.ok = true → Continued t h j :=
  fun j j' rely continued rotated => stable_continued j j' rely (continued rotated)

theorem guides_answerRotation (rotation : Rotation) :
    Guides permits t request (fun j => rotation.ok = true → Continued t h j)
      (answerRotation rotation) fun _ => Continued t h := by
  unfold answerRotation
  split
  next rotated _ _ =>
    have accepted (userId : UUID) (issued : Issued) :
        Guides permits t request (Continued t h) (acceptRotation userId issued)
          fun _ => Continued t h :=
      guides_bind _ (guides_still trivial stable_continued) fun _ =>
        guides_bind _ (guides_still trivial stable_continued) fun _ =>
          guides_bind _ (guides_still trivial stable_continued) fun _ => guides_pure fun _ => id
    exact (accepted _ _).weaken (fun j continued => continued rotated) fun _ _ => id
  next =>
    exact guides_bind _ (guides_onlyIf _ (guides_still trivial stable_rotation)) fun _ =>
      guides_bind _ (guides_still trivial stable_rotation) fun _ => guides_throw

/-- The commit of a rotation marks the presented token used. -/
theorem Continued.rotated {j : History} {raw : RawToken} (kept : Kept j)
    (continued : Continued t (.sha256 raw) j) : Rotated t raw
      (answered request t j (.commit .main) () (j.state.setDb (j.state.db.commit (t, .main)))) := by
  obtain ⟨r, pends, isUsed, isToken⟩ := continued.marked
  obtain ⟨r₀, stored₀, unused₀, id₀, _, token₀⟩ := kept.chained.claims _ r pends isUsed
  refine ⟨_, List.mem_cons_self, rfl, mem_rotated.mpr ⟨r₀, r, stored₀, unused₀, token₀.trans isToken,
    ?_, isUsed⟩⟩
  rw [RefreshToken.key_injective.mpr id₀]
  exact Server.stored_commit.mpr (.inl pends)

theorem guides_refresh (cookie : Option RawToken) :
    Guides permits t request (Ready t) (refresh cookie)
      fun _ j => ∃ raw, cookie = some raw ∧ Rotated t raw j := by
  cases cookie with
  | none =>
      have thrown : Guides permits t request (Ready t) (throw refreshInvalid : Prog AccessToken)
          fun _ _ => False := guides_throw
      exact guides_transactional thrown (fun _ => stable_const) fun _ _ _ => False.elim
  | some raw =>
      refine guides_transactional (guides_bind _ (guides_rotate raw) fun rotation =>
        guides_answerRotation rotation) (fun _ => stable_continued) fun _ j kept continued => ?_
      exact ⟨continued.idle.revokes .main, raw, rfl, continued.rotated kept⟩

end Refresh

section Service

theorem uses_op {allowed : Op → Prop} {op : Op} (fine : allowed op) : Uses allowed (call op).run :=
  uses_call fine

theorem quiet_tame {op : Op} (quiet : Quiet op) : Uses Tame (call op).run :=
  uses_op (.inl quiet)

theorem issue_tame (userId : UUID) : Uses Tame (issue userId none).run :=
  uses_throwing_bind (quiet_tame trivial) fun _ =>
    uses_throwing_bind (uses_op (.inr (.inr ⟨_, _, rfl⟩))) fun _ => uses_throwing_pure

theorem startSession_tame (userId : UUID) : Uses Tame (startSession userId).run :=
  uses_throwing_bind (issue_tame userId) fun _ =>
    uses_throwing_bind (quiet_tame trivial) fun _ =>
      uses_throwing_bind (quiet_tame trivial) fun _ =>
        uses_throwing_bind (quiet_tame trivial) fun _ => uses_throwing_pure

theorem deleteEach_tame (scope : Scope) (target : Target) (ids : List UUID) :
    Uses Tame (modifyEach scope target .delete ids).run := by
  induction ids with
  | nil => exact uses_throwing_pure
  | cons id rest ih =>
      exact uses_throwing_bind (uses_op (.inr (.inl ⟨_, _, _, rfl⟩))) fun _ =>
        uses_throwing_bind ih fun _ => uses_throwing_pure

theorem guides_tameTransaction {body : Prog α} (tame : Uses Tame body.run) :
    Guides permits t request (Ready t) (transactional .main body) fun _ _ => True :=
  guides_transactional ((guides_tame tame).weaken (fun _ ready => ready.idle) fun _ _ => id)
    (fun _ => stable_idle) fun _ _ _ idle => ⟨idle.revokes .main, trivial⟩

theorem guides_login (userId : UUID) :
    Guides permits t request (Ready t) (login userId) fun _ _ => True :=
  guides_tameTransaction <| uses_throwing_bind (quiet_tame trivial) fun _ => startSession_tame userId

theorem guides_sweepExpired : Guides permits t request (Ready t) sweepExpired fun _ _ => True :=
  guides_tameTransaction <| uses_throwing_bind (quiet_tame trivial) fun _ =>
    uses_throwing_bind (uses_throwing_bind (quiet_tame trivial) fun _ => deleteEach_tame _ _ _)
      fun _ => uses_throwing_pure

theorem guides_request (request : Call) :
    Guides permits t request (Ready t) request.program fun _ _ => True := by
  cases request with
  | login userId =>
      refine guides_answer (guides_login userId) (fun _ => stable_const) fun result j running _ => ?_
      refine ⟨trivial, ?_⟩
      cases result with
      | error e => trivial
      | ok token => exact fun raw isRefresh => by rw [running] at isRefresh; cases isRefresh
  | refresh cookie =>
      refine guides_answer (guides_refresh cookie) (fun _ j j' rely ⟨raw, isCookie, rotated⟩ =>
        ⟨raw, isCookie, stable_rotated j j' rely rotated⟩) fun result j running ends => ?_
      refine ⟨trivial, ?_⟩
      cases result with
      | error e => trivial
      | ok token =>
          intro raw isRefresh
          obtain ⟨raw', rfl, rotated⟩ := ends
          rw [running] at isRefresh
          obtain rfl := Option.some.inj (Call.refresh.inj (Option.some.inj isRefresh))
          exact rotated
  | logout userId cookie =>
      exact guides_answer (guides_logout userId cookie) (fun _ => stable_const) fun _ _ _ _ =>
        ⟨trivial, trivial⟩
  | revokeSession userId sessionId =>
      exact guides_answer (guides_revokeOwnSession userId sessionId) (fun _ => stable_const)
        fun _ _ _ _ => ⟨trivial, trivial⟩
  | revokeOtherSessions userId cookie =>
      exact guides_answer (guides_revokeOtherSessions userId cookie) (fun _ => stable_const)
        fun _ _ _ _ => ⟨trivial, trivial⟩
  | sweepExpired => exact guides_sweepExpired

end Service

/-- A table to begin with: no transaction is open, and every family is a chain. -/
structure Fresh (s : Server) : Prop where
  closed : ∀ k, s.db.held k = none
  drawn : ∀ r, s.Stored r → r.id ∈ s.uuids ∧ r.familyId ∈ s.uuids ∧ r.tokenHash.raw ∈ s.raws
  hashes : ∀ r r', s.Stored r → s.Stored r' → r.tokenHash = r'.tokenHash → r = r'
  owner : ∀ r r', s.Stored r → s.Stored r' → r.familyId = r'.familyId → r.userId = r'.userId
  single : ∀ r r', s.Stored r → s.Stored r' → r.usedAt = none → r'.usedAt = none →
    r.familyId = r'.familyId → r = r'

theorem Fresh.chained {s : Server} (fresh : Fresh s) : Chained s := by
  have closed : ∀ tx r, ¬s.Pends tx r := fun tx r pends => by
    rw [Server.Pends, fresh.closed] at pends
    cases pends
  have stored : ∀ r, s.Version r → s.Stored r := by
    rintro r (stored | ⟨tx, pends⟩)
    · exact stored
    · exact absurd pends (closed tx r)
  refine ⟨fun r version => fresh.drawn r (stored r version), fun k w isHeld => ?_,
    fun r r' version version' same => congrArg RefreshToken.id
      (fresh.hashes r r' (stored r version) (stored r' version') same),
    fun r r' version version' => fresh.owner r r' (stored r version) (stored r' version'), fresh.single,
    fun tx r pends => absurd pends (closed tx r), fun tx r _ pends => absurd pends (closed tx r),
    fun tx _ r _ pends => absurd pends (closed tx r), fun tx r pends => absurd pends (closed tx r),
    fun tx r _ pends => absurd pends (closed tx r)⟩
  rw [fresh.closed] at isHeld
  cases isHeld

theorem Fresh.kept {s : Server} (fresh : Fresh s) : Kept (.empty s) := by
  refine ⟨fresh.chained, fun t scope k version isHeld => ?_, List.nodup_nil, fun h old => ?_,
    fun e old => ?_, fun F old => ?_, fun e old => ?_⟩
  · rw [Journal.empty_state, fresh.closed] at isHeld
    cases isHeld
  · cases old
  · cases old
  · cases old
  · cases old

/-- The contract holds of whatever the service reaches. -/
theorem service_kept {admits : History → Call → Prop} {permits : History → Event → Prop} {s : Server}
    {j : History} (fresh : Fresh s) (reaches : service.Reaches admits permits s j) : Kept j := by
  refine reaches.under (contract permits) fresh.kept (fun j t request kept idle _ => ?_) fun t request => ?_
  · refine ⟨⟨kept.chained, kept.begun, kept.once, kept.spent, kept.accepted, kept.revoked,
      kept.steady⟩,
      fun u _ => ?_⟩
    exact ⟨fun _ _ _ => .rfl, fun _ => rfl, List.suffix_refl _, fun _ _ _ => id, fun _ _ => id,
      fun _ => id, fun _ _ _ => .inr fun r stored family => ⟨r, stored, rfl, family⟩⟩
  · refine Contract.Guides.weaken (guides_request request) (fun j start => ?_) fun _ _ _ => trivial
    obtain ⟨kept, unused⟩ : Kept j ∧ j.log t = [] := start
    refine ⟨fun k scope version isHeld => kept.begun t scope k version isHeld unused, fun scope => ?_⟩
    rw [unused]
    rfl

end Auth
