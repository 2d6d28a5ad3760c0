import CipherChat.Auth.Lineage
import CipherChat.Auth.Turns

/-!
Reuse detection and the retention of used rows.  A token presented again revokes its family as
long as its row is there; the sweep removes that row long before the token itself expires.
-/

namespace Auth

open Async ReadCommitted
open Rooms (UUID Instant JavaError)

/-- The call has rotated the token of the row, at this time. -/
def Turn.Rotates (turn : Turn) (r : RefreshToken) (usedAt : Instant) : Prop :=
  turn.before.server.Stored r ∧ r.usedAt = none ∧
    turn.after.server.Stored { r with usedAt := some usedAt }

/-- In every run from `start`, when a token that was rotated longer ago than the grace is
presented again before it expires, no token of its family is live afterwards, if what followed
its rotation `spared` it. -/
def Detected (start : Moment) (spared : List Turn → Instant → Prop) : Prop :=
  ∀ past m, Turns start past m → ∀ turn ∈ past, ∀ r usedAt, turn.Rotates r usedAt →
    spared past usedAt → usedAt + REUSE_GRACE < m.clock →
    ∀ rotation m', Ends (Timed past.length) m (rotate r.tokenHash.raw) (.ok rotation) m' →
      m'.clock < r.expiresAt →
      ∀ r', m'.server.Stored r' → r'.familyId = r.familyId → r'.live m'.clock = false

/-- Every sweep was over before a row used at this time was to be removed. -/
def Unswept (past : List Turn) (usedAt : Instant) : Prop :=
  ∀ turn ∈ past, turn.call = .sweepExpired → turn.after.clock ≤ usedAt + USED_ROW_RETENTION

/-- What is known of the state a part of a call begins and ends in. -/
abbrev Leads {α : Type} (t : Nat) (pre : Moment → Prop) (p : Prog α)
    (post : Except JavaError α → Moment → Prop) : Prop :=
  (Discipline.solo (Timed t) t).Triple t pre p post

/-- One thing of the result, another when it throws. -/
def Unless {α : Type} (failed : Moment → Prop) (done : α → Moment → Prop) :
    Except JavaError α → Moment → Prop
  | .ok value, m => done value m
  | .error _, m => failed m

section Rules

variable {α β : Type} {t : Nat} {pre failed : Moment → Prop}

theorem leads_call {op : Op} {post : op.Res → Moment → Prop}
    (step : ∀ m result m', pre m → Timed t m op result m' → post result m') :
    Leads t pre (call op) post :=
  fun _ start => Discipline.solo_call step start

theorem leads_bind {p : Prog α} {f : α → Prog β} {done : β → Moment → Prop}
    (middle : α → Moment → Prop) (first : Leads t pre p (Unless failed middle))
    (rest : ∀ value, Leads t (middle value) (f value) (Unless failed done)) :
    Leads t pre (p >>= f) (Unless failed done) :=
  Discipline.triple_bind _ first rest fun _ _ => id

theorem leads_uses {allowed : Op → Prop}
    (kept : ∀ op, allowed op → ∀ m result m', pre m → Timed t m op result m' → pre m')
    {p : Prog α} (uses : Uses allowed p.run) : Leads t pre p fun _ => pre := by
  refine Discipline.triple_uses (fun m m₁ known relied => ?_) (fun op fine m result m' _ known timed =>
    ⟨trivial, fun u other mine => absurd mine other, kept op fine m result m' known timed⟩) uses
  exact (relied rfl : m₁ = m) ▸ known

theorem leads_transactional {scope : Scope} {body : Prog α} {middle post : Except JavaError α → Moment → Prop}
    (inside : Leads t pre body middle)
    (rolls : ∀ e m result m', middle (.error e) m → Timed t m (.rollback scope) result m' →
      ∀ e', post (.error e') m')
    (commits : ∀ value m (result : Except JavaError Unit) m', middle (.ok value) m →
      Timed t m (.commit scope) result m' → post (result.map fun _ => value) m') :
    Leads t pre (transactional scope body) post := by
  let ended : Except JavaError α → Moment → Prop
    | .ok value, m => middle (.ok value) m
    | .error e, m => post (.error e) m
  have rollback (e : JavaError) : Leads t (middle (.error e))
      (do call (.rollback scope); throw e : Prog α) ended := by
    refine Discipline.triple_bind (fun _ m => ∀ e', post (.error e') m) (leads_call ?_) (fun _ => ?_)
      fun e' m known => known e'
    · exact fun m result m' known timed => rolls e m result m' known timed
    · exact Discipline.triple_throw fun m known => known e
  refine Discipline.triple_bind ended (Discipline.triple_tryCatch middle inside (fun _ _ => id) rollback)
    (fun value => ?_) fun _ _ => id
  refine Discipline.triple_bind (fun result m => post (result.map fun _ => value) m) (leads_call ?_)
    (fun _ => Discipline.triple_pure fun _ => id) fun _ _ => id
  exact fun m result m' known timed => commits value m result m' known timed

end Rules

section Surviving

variable {t : Nat} {r : RefreshToken} {s s' : Server} {op : Op} {result : op.Res}

/-- The row is there, and the call has not touched it. -/
structure Survives (t : Nat) (r : RefreshToken) (s : Server) : Prop where
  stored : s.Stored r
  drawn : r.id ∈ s.uuids
  free : ¬s.Holds (t, .main) r

/-- Besides, no other transaction of the call is open. -/
structure Spared (t : Nat) (r : RefreshToken) (s : Server) : Prop extends Survives t r s where
  closed : ∀ k version, s.db.held k ≠ some ((t, .isolated), version)

/-- No row of the family is left. -/
def Gone (familyId : UUID) (s : Server) : Prop :=
  ∀ r, s.Stored r → r.familyId ≠ familyId

/-- What a statement does to other rows, it does in the transaction of the request. -/
def Sparing (r : RefreshToken) : Op → Prop
  | .modify scope target _ _ => scope = .main ∧ target.holds r = false
  | _ => True

/-- A row that is changed is another one. -/
theorem Survives.ne_of_seen {r₁ : RefreshToken} {target : Target} (survives : Survives t r s)
    (seen : s.db.view (t, .main) r₁.key = some r₁) (matched : target.holds r₁ = true)
    (missed : target.holds r = false) : r.id ≠ r₁.id := by
  intro same
  have keys : r.key = r₁.key := RefreshToken.key_injective.mpr same
  rw [← keys, survives.stored.seen survives.free] at seen
  rw [← Option.some.inj seen, missed] at matched
  cases matched

theorem Survives.ended {scope : Scope} (survives : Survives t r s) (ended : s.Ended (t, scope) s')
    (stored : s'.Stored r) (uuids : s'.uuids = s.uuids) : Survives t r s' :=
  ⟨stored, uuids ▸ survives.drawn, fun holds => survives.free (ended.holds.mp holds).2⟩

theorem Spared.ended {scope : Scope} (spared : Spared t r s) (ended : s.Ended (t, scope) s')
    (stored : s'.Stored r) (uuids : s'.uuids = s.uuids) : Spared t r s' := by
  refine ⟨spared.toSurvives.ended ended stored uuids, fun k version isHeld => ?_⟩
  rw [ended k] at isHeld
  exact spared.closed k version (Option.filter_eq_some_iff.mp isHeld).1

theorem Spared.step (spared : Spared t r s) (outcome : Outcome t s op result s')
    (sparing : Sparing r op) : Spared t r s' := by
  obtain ⟨⟨stored, drawn, free⟩, closed⟩ := spared
  have survives : Survives t r s := ⟨stored, drawn, free⟩
  have spared : Spared t r s := ⟨survives, closed⟩
  cases outcome with
  | same same _ =>
      have isDb : s'.db = s.db := same.db
      refine ⟨⟨?_, same.uuids ▸ drawn, ?_⟩, fun k version => isDb ▸ closed k version⟩
      · rw [Server.Stored, isDb]
        exact stored
      · rw [Server.Holds, isDb]
        exact free
  | used r₁ seen _ _ matched isAfter =>
      obtain ⟨rfl, missed⟩ := sparing
      have other : r.id ≠ r₁.id := survives.ne_of_seen seen matched missed
      subst isAfter
      refine ⟨⟨(Server.stored_of_committed rfl).mpr stored, drawn, fun holds => ?_⟩,
        fun k version isHeld => ?_⟩
      · rcases (Server.holds_write rfl).mp holds with ⟨same, _⟩ | ⟨_, old⟩
        · exact other same
        · exact free old
      · change (s.db.write _ _).held k = _ at isHeld
        rw [Database.held_write] at isHeld
        split at isHeld
        · cases isHeld
        · exact closed k version isHeld
  | erased r₁ seen _ _ matched isAfter =>
      obtain ⟨rfl, missed⟩ := sparing
      have other : r.id ≠ r₁.id := survives.ne_of_seen seen matched missed
      subst isAfter
      refine ⟨⟨(Server.stored_of_committed rfl).mpr stored, drawn, fun holds => ?_⟩,
        fun k version isHeld => ?_⟩
      · rcases (Server.holds_erase rfl).mp holds with ⟨same, _⟩ | ⟨_, old⟩
        · exact other same
        · exact free old
      · change (s.db.erase _ _).held k = _ at isHeld
        rw [Database.held_erase] at isHeld
        split at isHeld
        · cases isHeld
        · exact closed k version isHeld
  | saved r₁ drawn' _ _ newId _ _ _ isAfter =>
      have other : r.id ≠ r₁.id := fun same => newId (same ▸ drawn)
      subst isAfter
      refine ⟨⟨(Server.stored_of_committed rfl).mpr stored,
        List.mem_cons_of_mem _ (List.mem_cons_of_mem _ drawn), fun holds => ?_⟩,
        fun k version isHeld => ?_⟩
      · rcases (Server.holds_write rfl).mp holds with ⟨same, _⟩ | ⟨_, old⟩
        · exact other same
        · exact free old
      · change (s.db.write _ _).held k = _ at isHeld
        rw [Database.held_write] at isHeld
        split at isHeld
        · cases isHeld
        · exact closed k version isHeld
  | @committed scope _ _ isAfter =>
      subst isAfter
      refine spared.ended Server.ended_commit (Server.stored_commit.mpr (.inr ⟨stored, ?_⟩)) rfl
      cases scope with
      | main => exact free
      | isolated =>
          rintro ⟨version, isHeld⟩
          exact closed r.key version isHeld
  | closed scope _ isAfter =>
      subst isAfter
      exact spared.ended Server.ended_rollback ((Server.stored_of_committed rfl).mpr stored) rfl

end Surviving

section Revoking

variable {t : Nat} {r : RefreshToken} {F : UUID} {s s' : Server}

/-- The deletion of a family is under way, and `ids` are left. -/
structure Clearing (t : Nat) (r : RefreshToken) (F : UUID) (ids : List UUID) (s : Server) : Prop
    extends Survives t r s where
  deletes : Deletes s (t, .isolated)
  listed : Listed s (t, .isolated) F ids
  other : F ≠ r.familyId → ¬s.Holds (t, .isolated) r

theorem Survives.closed (survives : Survives t r s) (ended : s.Ended (t, .isolated) s')
    (stored : s'.Stored r) (uuids : s'.uuids = s.uuids) : Spared t r s' := by
  refine ⟨survives.ended ended stored uuids, fun k version isHeld => ?_⟩
  rw [ended k] at isHeld
  simpa using (Option.filter_eq_some_iff.mp isHeld).2

theorem Survives.rolledBack {result : Except JavaError Unit} (survives : Survives t r s)
    (outcome : Outcome t s (.rollback .isolated) result s') : Spared t r s' := by
  cases outcome with
  | same _ open' => cases open'
  | closed scope ends isAfter =>
      obtain rfl := Option.some.inj ends
      subst isAfter
      exact survives.closed Server.ended_rollback
        ((Server.stored_of_committed rfl).mpr survives.stored) rfl

/-- A deletion that throws has at most deleted. -/
theorem Survives.erased {target : Target} {id : UUID} {result : Except JavaError Nat}
    (survives : Survives t r s)
    (outcome : Outcome t s (.modify .isolated target .delete id) result s') : Survives t r s' := by
  obtain ⟨stored, drawn, free⟩ := survives
  cases outcome with
  | same same _ =>
      refine ⟨?_, same.uuids ▸ drawn, ?_⟩
      · rw [Server.Stored, same.db]
        exact stored
      · rw [Server.Holds, same.db]
        exact free
  | erased r₁ _ _ _ _ isAfter =>
      subst isAfter
      refine ⟨(Server.stored_of_committed rfl).mpr stored, drawn, fun holds => ?_⟩
      rcases (Server.holds_erase rfl).mp holds with ⟨_, mine⟩ | ⟨_, old⟩
      · cases mine
      · exact free old
  | closed _ ends _ => cases ends

theorem Clearing.step {id : UUID} {rest : List UUID} {n : Nat} (clearing : Clearing t r F (id :: rest) s)
    (exec : Exec t s (.modify .isolated (.family F) .delete id) (.ok n) s') :
    Clearing t r F rest s' := by
  have modified := exec.modify_ok
  refine ⟨clearing.toSurvives.erased exec.outcome, clearing.deletes.delete modified,
    Listed.delete modified clearing.deletes clearing.listed fun r' _ family _ => ?_, fun other => ?_⟩
  · simpa [Target.holds] using family
  · have free := clearing.other other
    obtain ⟨_, ⟨_, rfl, _⟩ | ⟨_, r₁, seen, _, matched, rfl⟩⟩ := modify_some modified
    · exact free
    · intro holds
      rcases (Server.holds_erase (by rfl)).mp holds with ⟨same, _⟩ | ⟨_, old⟩
      · have keys : r.key = r₁.key := RefreshToken.key_injective.mpr same
        rw [← keys, clearing.stored.seen free] at seen
        obtain rfl := Option.some.inj seen
        have family : r.familyId = F := by simpa [Target.holds] using matched
        exact other family.symm
      · exact free old

theorem leads_clearing (ids : List UUID) :
    Leads t (fun m => Clearing t r F ids m.server) (modifyEach .isolated (.family F) .delete ids)
      (Unless (fun m => Survives t r m.server) fun _ m => Clearing t r F [] m.server) := by
  induction ids with
  | nil => exact Discipline.triple_pure fun m clearing => clearing
  | cons id rest ih =>
      refine leads_bind (fun _ m => Clearing t r F rest m.server) (leads_call ?_) fun n =>
        leads_bind _ ih fun n' => Discipline.triple_pure fun m clearing => clearing
      intro m result m' clearing timed
      cases result with
      | ok n => exact clearing.step timed.exec
      | error e => exact clearing.toSurvives.erased timed.exec.outcome

theorem leads_deleteByFamilyId :
    Leads t (fun m => Spared t r m.server) (deleteByFamilyId .isolated F)
      (Unless (fun m => Survives t r m.server) fun _ m => Clearing t r F [] m.server) := by
  let listed (rows : List RefreshToken) (m : Moment) : Prop :=
    Clearing t r F (rows.map RefreshToken.id) m.server
  refine leads_bind listed (leads_call ?_) fun rows => leads_clearing (rows.map RefreshToken.id)
  intro m result m' spared timed
  cases result with
  | error e => exact (spared.step timed.exec.outcome trivial).toSurvives
  | ok rows =>
      obtain ⟨_, effected⟩ := timed.exec.effect_of_ok
      obtain ⟨isRows, isServer⟩ := Prod.mk.inj (Option.some.inj effected)
      obtain rfl := Except.ok.inj isRows
      have unheld : ∀ r', ¬m.server.Holds (t, .isolated) r' :=
        fun r' ⟨version, isHeld⟩ => spared.closed r'.key version isHeld
      change Clearing t r F _ m'.server
      rw [← isServer]
      refine ⟨spared.toSurvives, fun r' pends => unheld r' pends.holds, fun r' stored family =>
        .inl (List.mem_map_of_mem (List.mem_filter.mpr ⟨?_, ?_⟩)), fun _ => unheld r⟩
      · exact Database.mem_visible.mpr (stored.seen (unheld r'))
      · simpa [Target.holds] using family

/-- Nothing is left of a family that is revoked, and nothing happens to another. -/
theorem leads_revokeFamily :
    Leads t (fun m => Spared t r m.server) (transactional .isolated (deleteByFamilyId .isolated F))
      (Unless (fun m => Spared t r m.server ∨ Gone r.familyId m.server) fun _ m =>
        if F = r.familyId then Gone r.familyId m.server else Spared t r m.server) := by
  refine leads_transactional leads_deleteByFamilyId (fun e m result m' survives timed e' =>
    .inl (Survives.rolledBack survives timed.exec.outcome)) fun n m result m' clearing timed => ?_
  have clearing : Clearing t r F [] m.server := clearing
  have committed (isServer : m'.server = m.server.setDb (m.server.db.commit (t, .isolated))) :
      if F = r.familyId then Gone r.familyId m'.server else Spared t r m'.server := by
    rw [isServer]
    split
    next family =>
      intro r' stored' family'
      rcases Server.stored_commit.mp stored' with pends | ⟨stored, free⟩
      · exact clearing.deletes r' pends
      · rcases clearing.listed r' stored (family'.trans family.symm) with listed | isHeld
        · cases listed
        · exact free ⟨none, isHeld⟩
    next other =>
      exact clearing.toSurvives.closed Server.ended_commit
        (Server.stored_commit.mpr (.inr ⟨clearing.stored, clearing.other other⟩)) rfl
  cases result with
  | ok _ =>
      obtain ⟨_, effected⟩ := timed.exec.effect_of_ok
      exact committed (Prod.mk.inj (Option.some.inj effected)).2.symm
  | error e =>
      change Spared t r m'.server ∨ Gone r.familyId m'.server
      have outcome := timed.exec.outcome
      cases outcome with
      | same _ open' => cases open'
      | committed isServer =>
          have after := committed isServer
          split at after
          · exact .inr after
          · exact .inl after
      | closed scope ends isServer =>
          obtain rfl := Option.some.inj ends
          have ended : m.server.Ended (t, .isolated) m'.server := isServer ▸ Server.ended_rollback
          refine .inl (clearing.toSurvives.closed ended ?_ ?_)
          · rw [isServer]
            exact (Server.stored_of_committed rfl).mpr clearing.stored
          · rw [isServer]
            rfl

end Revoking

section Calls

variable {α : Type} {t : Nat} {r : RefreshToken} {usedAt : Instant}

/-- The row is there still, or its family is gone. -/
def Remembered (t : Nat) (r : RefreshToken) (m : Moment) : Prop :=
  Spared t r m.server ∨ Gone r.familyId m.server

/-- Operations that bring no row back. -/
def Fading (r : RefreshToken) (op : Op) : Prop :=
  Sparing r op ∧ ∀ scope, op ≠ .commit scope

theorem Remembered.step {m m' : Moment} {op : Op} {result : op.Res} (known : Remembered t r m)
    (fading : Fading r op) (timed : Timed t m op result m') : Remembered t r m' := by
  refine known.imp (fun spared => spared.step timed.exec.outcome fading.1) fun gone r' stored => ?_
  rcases timed.exec.outcome.committed_eq with same | ⟨scope, isOp, _⟩
  · exact gone r' ((Server.stored_of_committed same).mp stored)
  · exact absurd isOp (fading.2 scope)

theorem leads_fading {p : Prog α} (uses : Uses (Fading r) p.run) :
    Leads t (Remembered t r) p (Unless (Remembered t r) fun _ => Remembered t r) := by
  have kept : Leads t (Remembered t r) p fun _ => Remembered t r :=
    leads_uses (fun _ fading _ _ _ known timed => known.step fading timed) uses
  exact kept.weaken (fun _ => id) fun result m known => by cases result <;> exact known

theorem leads_sparing {p : Prog α} (uses : Uses (Sparing r) p.run) :
    Leads t (fun m => Spared t r m.server) p
      (Unless (Remembered t r) fun _ m => Spared t r m.server) := by
  have kept : Leads t (fun m => Spared t r m.server) p fun _ m => Spared t r m.server :=
    leads_uses (fun op sparing _ _ _ spared timed => spared.step timed.exec.outcome sparing) uses
  refine kept.weaken (fun _ => id) fun result m spared => ?_
  cases result with
  | ok value => exact spared
  | error e => exact .inl spared

theorem leads_rejectRotation (rotation : Rotation) :
    Leads t (Remembered t r) (rejectRotation rotation)
      (Unless (Remembered t r) fun _ m => Spared t r m.server) := by
  have cookie : Uses (Fading r)
      (onlyIf (rotation.outcome ≠ .CONCURRENT) (call (.setCookie none))).run := by
    unfold onlyIf
    split
    · exact uses_op ⟨trivial, fun _ => nofun⟩
    · exact uses_throwing_pure
  exact leads_bind _ (leads_fading cookie) fun _ =>
    leads_bind _ (leads_fading (uses_op ⟨trivial, fun _ => nofun⟩)) fun _ =>
      Discipline.triple_throw fun _ => id

/-- A rotation that leaves nothing of the family is rejected. -/
theorem leads_answerRotation (rotation : Rotation) :
    Leads t (fun m => Spared t r m.server ∨ Gone r.familyId m.server ∧ rotation.ok = false)
      (answerRotation rotation) (Unless (Remembered t r) fun _ m => Spared t r m.server) := by
  unfold answerRotation
  split
  next userId issued isOk _ _ =>
    have accepted : Uses (Sparing r) (acceptRotation userId issued).run :=
      uses_throwing_bind (uses_op trivial) fun _ => uses_throwing_bind (uses_op trivial) fun _ =>
        uses_throwing_bind (uses_op trivial) fun _ => uses_throwing_pure
    refine (leads_sparing accepted).weaken (fun m known => known.resolve_right ?_) fun _ _ => id
    rintro ⟨_, isRejected⟩
    rw [isOk] at isRejected
    cases isRejected
  next =>
    exact (leads_rejectRotation rotation).weaken (fun m known => known.imp_right And.left)
      fun _ _ => id

theorem issue_sparing (userId : UUID) (familyId : Option UUID) :
    Uses (Sparing r) (issue userId familyId).run :=
  uses_throwing_bind (uses_op trivial) fun _ => uses_throwing_bind (uses_op trivial) fun _ =>
    uses_throwing_pure

theorem login_sparing (userId : UUID) : Uses (Sparing r) (Call.login userId).program.run := by
  have transaction : Uses (Sparing r) (login userId).run := by
    have body : Uses (Sparing r) (startSession userId).run :=
      uses_throwing_bind (issue_sparing userId none) fun _ => uses_throwing_bind (uses_op trivial) fun _ =>
        uses_throwing_bind (uses_op trivial) fun _ => uses_throwing_bind (uses_op trivial) fun _ =>
          uses_throwing_pure
    refine uses_throwing_bind (uses_tryCatch (uses_throwing_bind (uses_op trivial) fun _ => body)
      fun _ => uses_throwing_bind (uses_op trivial) fun _ => uses_throw) fun _ => ?_
    exact uses_throwing_bind (uses_op trivial) fun _ => uses_throwing_pure
  exact uses_throwing_bind (uses_settle transaction) fun _ => uses_op trivial

/-- A used token is refused, and its family revoked once the grace is over. -/
theorem leads_refuse (row : RefreshToken) (now : Instant) :
    Leads t (fun m => Spared t r m.server) (refuse row now)
      (Unless (Remembered t r) fun rotation m =>
        Spared t r m.server ∨ Gone r.familyId m.server ∧ rotation.ok = false) := by
  unfold refuse
  dsimp only
  split
  · exact Discipline.triple_pure fun m spared => .inl spared
  · refine leads_bind _ leads_revokeFamily fun n => Discipline.triple_pure fun m known => ?_
    change Spared t r m.server ∨ Gone r.familyId m.server ∧ _
    split at known
    · exact .inr ⟨known, rfl⟩
    · exact .inl known

variable (isUsed : r.usedAt = some usedAt)
include isUsed

theorem missed_unused (h : TokenHash) (now : Instant) : (Target.unused h now).holds r = false := by
  simp [Target.holds, isUsed]

theorem markEach_sparing (h : TokenHash) (now : Instant) (ids : List UUID) :
    Uses (Sparing r) (modifyEach .main (.unused h now) (.markUsed now) ids).run := by
  induction ids with
  | nil => exact uses_throwing_pure
  | cons id rest ih =>
      exact uses_throwing_bind (uses_op ⟨rfl, missed_unused isUsed h now⟩) fun _ =>
        uses_throwing_bind ih fun _ => uses_throwing_pure

theorem claim_sparing (row : RefreshToken) (h : TokenHash) (now : Instant) :
    Uses (Sparing r) (claim row h now).run := by
  unfold claim
  split
  · refine uses_throwing_bind (uses_throwing_bind (uses_op trivial) fun _ => ?_) fun _ =>
      uses_throwing_pure
    exact markEach_sparing isUsed h now _
  · exact uses_throwing_pure

theorem leads_rotateRow (row : RefreshToken) (h : TokenHash) (now : Instant) :
    Leads t (fun m => Spared t r m.server) (rotateRow row h now)
      (Unless (Remembered t r) fun rotation m =>
        Spared t r m.server ∨ Gone r.familyId m.server ∧ rotation.ok = false) := by
  refine leads_bind _ (leads_sparing (claim_sparing isUsed row h now)) fun claimed => ?_
  cases claimed with
  | true =>
      exact leads_bind _ (leads_sparing (issue_sparing _ _)) fun _ =>
        Discipline.triple_pure fun m spared => .inl spared
  | false => exact leads_refuse row now

theorem leads_rotate (raw : RawToken) :
    Leads t (fun m => Spared t r m.server) (rotate raw)
      (Unless (Remembered t r) fun rotation m =>
        Spared t r m.server ∨ Gone r.familyId m.server ∧ rotation.ok = false) := by
  refine leads_bind _ (leads_sparing (uses_op trivial)) fun now =>
    leads_bind _ (leads_sparing (uses_op trivial)) fun found => ?_
  cases found with
  | none => exact Discipline.triple_pure fun m spared => .inl spared
  | some row =>
      dsimp only
      split
      · exact leads_rotateRow isUsed row _ now
      · exact Discipline.triple_pure fun m spared => .inl spared

theorem leads_refresh (cookie : Option RawToken) :
    Leads t (fun m => Spared t r m.server) (Call.refresh cookie).program fun _ => Remembered t r := by
  have transaction : Leads t (fun m => Spared t r m.server) (refresh cookie) fun _ => Remembered t r := by
    let ended : Except JavaError AccessToken → Moment → Prop :=
      Unless (Remembered t r) fun _ m => Spared t r m.server
    refine leads_transactional (?_ : Leads t (fun m => Spared t r m.server) _ ended)
      (fun e m result m' known timed _ => ?_) fun token m result m' spared timed => ?_
    · cases cookie with
      | none => exact Discipline.triple_throw fun m spared => .inl spared
      | some raw => exact leads_bind _ (leads_rotate isUsed raw) fun rotation =>
          leads_answerRotation rotation
    · have fading : Fading r (.rollback .main) := ⟨trivial, fun _ commits => Op.noConfusion commits⟩
      exact Remembered.step known fading timed
    · exact .inl (Spared.step spared timed.exec.outcome trivial)
  refine Discipline.triple_bind (fun _ => Remembered t r) (Discipline.triple_settle transaction)
    (fun result => leads_call fun m _ m' known timed => ?_) fun _ _ => id
  have fading : Fading r (.respond (.session result)) :=
    ⟨trivial, fun _ commits => Op.noConfusion commits⟩
  exact Remembered.step known fading timed

end Calls

section Sweep

variable {t : Nat} {r : RefreshToken} {usedAt : Instant}

/-- The row has expired, or was used too long ago to be kept. -/
def Late (r : RefreshToken) (usedAt : Instant) (m : Moment) : Prop :=
  r.expiresAt ≤ m.clock ∨ usedAt + USED_ROW_RETENTION < m.clock

theorem Late.onward {m m' : Moment} (late : Late r usedAt m) (onward : m.clock ≤ m'.clock) :
    Late r usedAt m' :=
  late.imp (fun expired => expired.trans onward) fun old => lt_of_lt_of_le old onward

/-- A sweep leaves a row that is to be kept. -/
theorem leads_sweepExpired (isUsed : r.usedAt = some usedAt) :
    Leads t (fun m => Spared t r m.server) sweepExpired
      fun _ m => Spared t r m.server ∨ Late r usedAt m := by
  let due (m : Moment) : Prop := Spared t r m.server ∨ Late r usedAt m
  let missed (now : Instant) (m : Moment) : Prop := Late r usedAt m ∨
    Spared t r m.server ∧ (Target.expired now (now - USED_ROW_RETENTION)).holds r = false
  let allowed (now : Instant) (op : Op) : Prop := op = .select .main (.expired now (now - USED_ROW_RETENTION)) ∨
    ∃ id, op = .modify .main (.expired now (now - USED_ROW_RETENTION)) .delete id
  have reads : Leads t (fun m => Spared t r m.server) (call .now) (Unless due missed) := by
    refine leads_call fun m result m' spared timed => ?_
    have spared' : Spared t r m'.server := spared.step timed.exec.outcome trivial
    cases result with
    | error e => exact .inl spared'
    | ok now =>
        obtain rfl : now = m'.clock := timed.tells now rfl
        by_cases late : Late r usedAt m'
        · exact .inl late
        · obtain ⟨alive, recent⟩ := not_or.mp late
          refine .inr ⟨spared', ?_⟩
          simp only [Target.holds, isUsed, Bool.or_eq_false_iff, decide_eq_false_iff_not]
          exact ⟨not_lt.mpr (not_le.mp alive).le, not_lt.mpr (Int.sub_right_le_of_le_add (not_lt.mp recent))⟩
  have deletes (now : Instant) : Leads t (missed now) (deleteExpired now (now - USED_ROW_RETENTION))
      fun _ => missed now := by
    have uses : Uses (allowed now) (deleteExpired now (now - USED_ROW_RETENTION)).run := by
      refine uses_throwing_bind (uses_op (.inl rfl)) fun rows => ?_
      generalize rows.map RefreshToken.id = ids
      induction ids with
      | nil => exact uses_throwing_pure
      | cons id rest ih =>
          exact uses_throwing_bind (uses_op (.inr ⟨id, rfl⟩)) fun _ =>
            uses_throwing_bind ih fun _ => uses_throwing_pure
    refine leads_uses (fun op isAllowed m result m' known timed => ?_) uses
    refine known.imp (fun late => late.onward timed.onward) fun both => ⟨?_, both.2⟩
    refine both.1.step timed.exec.outcome ?_
    rcases isAllowed with rfl | ⟨id, rfl⟩
    · trivial
    · exact ⟨rfl, both.2⟩
  have passes {op : Op} (sparing : Sparing r op) {m m' : Moment} {result : op.Res} (known : due m)
      (timed : Timed t m op result m') : due m' :=
    known.imp (fun spared => spared.step timed.exec.outcome sparing) fun late => late.onward timed.onward
  have body : Leads t (fun m => Spared t r m.server) (do
      let now ← call .now
      let _ ← deleteExpired now (now - USED_ROW_RETENTION)) fun _ => due := by
    refine Discipline.triple_bind _ reads (fun now => ?_) fun _ _ => id
    refine Discipline.triple_bind (fun _ => due) ((deletes now).weaken (fun _ => id) fun _ m known =>
      known.symm.imp_left And.left) (fun _ => Discipline.triple_pure fun _ => id) fun _ _ => id
  refine leads_transactional body (fun e m result m' known timed _ => ?_)
    fun _ m result m' known timed => ?_
  · have sparing : Sparing r (.rollback .main) := trivial
    exact passes sparing known timed
  · have sparing : Sparing r (.commit .main) := trivial
    exact passes sparing known timed

end Sweep

section Runs

/-- The call has written nothing. -/
def Unwritten (t : Nat) (s : Server) : Prop :=
  ∀ k scope version, s.db.held k ≠ some ((t, scope), version)

theorem Unwritten.free {t : Nat} {s : Server} (unwritten : Unwritten t s) (scope : Scope)
    (r : RefreshToken) : ¬s.Holds (t, scope) r :=
  fun ⟨version, isHeld⟩ => unwritten r.key scope version isHeld

theorem Unwritten.spared {t : Nat} {s : Server} {r : RefreshToken} (unwritten : Unwritten t s)
    (chained : Chained s) (stored : s.Stored r) : Spared t r s :=
  ⟨⟨stored, (chained.drawn r (.inl stored)).1, unwritten.free .main r⟩,
    fun k version => unwritten k .isolated version⟩

variable {start m m' : Moment} {past : List Turn} {r : RefreshToken} {usedAt : Instant}

/-- The row of a used token stays until it is swept or its family is revoked. -/
theorem Turns.keeps_used (fresh : Fresh start.server) (turns : Turns start past m) {call : Call}
    {result : Except JavaError Unit} (routine : call.Routine)
    (ends : Ends (Timed past.length) m call.program result m') (isUsed : r.usedAt = some usedAt)
    (stored : m.server.Stored r) (alive : m'.clock < r.expiresAt)
    (unswept : call = .sweepExpired → m'.clock ≤ usedAt + USED_ROW_RETENTION) :
    m'.server.Stored r ∨ Gone r.familyId m'.server := by
  obtain ⟨chained, unwritten⟩ := turns.settled fresh
  have spared := Unwritten.spared (unwritten _ le_rfl) chained stored
  have kept (known : Remembered past.length r m') : m'.server.Stored r ∨ Gone r.familyId m'.server :=
    known.imp_left fun spared => spared.stored
  cases call with
  | login userId =>
      have after := (leads_sparing (login_sparing userId)).of_ends spared ends
      cases result with
      | ok _ => exact .inl (Spared.toSurvives after).stored
      | error e => exact kept after
  | refresh cookie => exact kept ((leads_refresh isUsed cookie).of_ends spared ends)
  | sweepExpired =>
      rcases (leads_sweepExpired isUsed).of_ends spared ends with spared | expired | old
      · exact .inl spared.stored
      · exact absurd alive (not_lt.mpr expired)
      · exact absurd old (not_lt.mpr (unswept rfl))
  | logout | revokeSession | revokeOtherSessions => exact routine.elim

/-- After its rotation a token is there as used, or its family is gone for ever. -/
theorem Turns.remembers (fresh : Fresh start.server) (turns : Turns start past m) {turn : Turn}
    (member : turn ∈ past) (rotates : turn.Rotates r usedAt) (unswept : Unswept past usedAt)
    (alive : m.clock < r.expiresAt) :
    Known m.server r.tokenHash r.familyId r.userId ∧
      (m.server.Stored { r with usedAt := some usedAt } ∨ Dead m.server r.familyId) := by
  induction turns with
  | nil => cases member
  | wait _ onward ih => exact ih member unswept (lt_of_le_of_lt onward alive)
  | @turn past m call result m' before routine ends ih =>
      have after : Turns start (⟨call, m, m'⟩ :: past) m' := before.turn routine ends
      rcases List.mem_cons.mp member with rfl | old
      · have known := (after.settled fresh).1.known rotates.2.2
        exact ⟨known, .inl rotates.2.2⟩
      · have alive₀ : m.clock < r.expiresAt := lt_of_le_of_lt (Timed.onward_of_ends ends) alive
        have unswept₀ : Unswept past usedAt := fun x inPast => unswept x (List.mem_cons_of_mem _ inPast)
        obtain ⟨known, kept⟩ := ih old unswept₀ alive₀
        refine ⟨before.carries fresh ends (Known · r.tokenHash r.familyId r.userId)
          (fun chained outcome fine known => Known.step chained outcome fine known) known, ?_⟩
        rcases kept with stored | dead
        · rcases before.keeps_used fresh routine ends rfl stored alive
            (fun isSweep => unswept _ List.mem_cons_self isSweep) with stored' | gone
          · exact .inl stored'
          · have known := (before.settled fresh).1.surfaced stored
            have surfaced : Surfaced m'.server r.familyId :=
              before.carries fresh ends (Surfaced · r.familyId) (fun chained outcome fine surfaced =>
                Surfaced.step chained outcome fine surfaced) known
            exact .inr (surfaced.dead (after.settled fresh).1 gone)
        · exact .inr (before.carries fresh ends (Dead · r.familyId)
            (fun chained outcome fine dead => Dead.step chained outcome fine dead) dead)

end Runs

section Presentation

variable {t : Nat} {m m' : Moment}

theorem Timed.answered {op : Op} {value : op.Val} (ends : Ends (Timed t) m (call op) (.ok value) m') :
    Timed t m op (.ok value) m' :=
  runs_call.mp ends

theorem Timed.now_of_ends {now : Instant} (ends : Ends (Timed t) m (call .now) (.ok now) m') :
    now = m'.clock ∧ m'.server = m.server := by
  have timed := Timed.answered ends
  obtain ⟨_, effected⟩ := timed.exec.effect_of_ok
  exact ⟨timed.tells now rfl, (Prod.mk.inj (Option.some.inj effected)).2.symm⟩

/-- The row found under a token is one the transaction sees. -/
theorem Timed.found_of_ends {h : TokenHash} {found : Option RefreshToken}
    (ends : Ends (Timed t) m (call (.findByTokenHash h)) (.ok found) m') :
    m'.server = m.server ∧
      found = (m.server.db.visible (t, .main)).find? fun r => r.tokenHash = h := by
  obtain ⟨_, effected⟩ := (Timed.answered ends).exec.effect_of_ok
  obtain ⟨isFound, isServer⟩ := Prod.mk.inj (Option.some.inj effected)
  exact ⟨isServer.symm, (Except.ok.inj isFound).symm⟩

/-- A used token that is found is refused, and its family revoked. -/
theorem gone_of_refused {r : RefreshToken} {usedAt now : Instant} {h : TokenHash} {rotation : Rotation}
    (isUsed : r.usedAt = some usedAt) (spared : Spared t r m.server) (late : usedAt + REUSE_GRACE < now)
    (ends : Ends (Timed t) m (rotateRow r h now) (.ok rotation) m') : Gone r.familyId m'.server := by
  obtain ⟨claimed, m₁, claims, rest⟩ := ends_bind_ok.mp ends
  simp only [claim, isUsed] at claims
  obtain ⟨isClaimed, rfl⟩ := ends_pure.mp claims
  obtain rfl := Except.ok.inj isClaimed
  simp only [refuse, isUsed, Option.getD_some, Bool.false_eq_true, if_false] at rest
  split at rest
  next recent => exact absurd late (not_lt.mpr (Int.le_add_of_sub_left_le recent))
  next =>
    obtain ⟨n, m₂, revokes, rest⟩ := ends_bind_ok.mp rest
    obtain ⟨_, rfl⟩ := ends_pure.mp rest
    have gone := leads_revokeFamily.of_ends spared revokes
    simpa only [Unless, if_true] using gone

/-- Nothing is left of the family of a used token that is presented late, if its row is there
or nothing was left before. -/
theorem gone_of_presented {r : RefreshToken} {usedAt : Instant} {rotation : Rotation}
    (chained : Chained m.server) (unwritten : Unwritten t m.server)
    (known : Known m.server r.tokenHash r.familyId r.userId)
    (kept : m.server.Stored { r with usedAt := some usedAt } ∨ Dead m.server r.familyId)
    (late : usedAt + REUSE_GRACE < m.clock)
    (ends : Ends (Timed t) m (rotate r.tokenHash.raw) (.ok rotation) m') (alive : m'.clock < r.expiresAt) :
    Gone r.familyId m'.server := by
  obtain ⟨now, m₁, reads, rest⟩ := ends_bind_ok.mp ends
  obtain ⟨found, m₂, finds, rest⟩ := ends_bind_ok.mp rest
  obtain ⟨rfl, isServer₁⟩ := Timed.now_of_ends reads
  obtain ⟨isServer₂, isFound⟩ := Timed.found_of_ends finds
  rw [isServer₁] at isServer₂ isFound
  have later : m₁.clock ≤ m'.clock :=
    (Timed.onward_of_ends finds).trans (Timed.onward_of_ends rest)
  cases found with
  | none =>
      obtain ⟨_, rfl⟩ := ends_pure.mp rest
      rw [isServer₂]
      rcases kept with stored | dead
      · have seen := Database.mem_visible.mpr (stored.seen (unwritten.free .main _))
        have missed := List.find?_eq_none.mp isFound.symm _ seen
        simp at missed
      · exact fun r' stored => dead.2 r' (.inl stored)
  | some row =>
      have seen : row ∈ m.server.db.visible (t, .main) := List.mem_of_find?_eq_some isFound.symm
      have isToken : row.tokenHash = r.tokenHash := by simpa using List.find?_some isFound.symm
      have isStored : m.server.Stored row := by
        rcases (Server.of_view (Database.mem_visible.mp seen)).2 with pends | ⟨stored, _⟩
        · exact absurd pends.holds (unwritten.free .main row)
        · exact stored
      rcases kept with stored | dead
      · have same : row = { r with usedAt := some usedAt } := isStored.eq stored
          (chained.hashes row { r with usedAt := some usedAt } (.inl isStored) (.inl stored) isToken)
        have isUsed : row.usedAt = some usedAt := by rw [same]
        have spared := Unwritten.spared (isServer₂ ▸ unwritten) (isServer₂ ▸ chained)
          (isServer₂ ▸ isStored)
        have family : row.familyId = r.familyId := by rw [same]
        have expiresAt : row.expiresAt = r.expiresAt := by rw [same]
        rw [← expiresAt] at alive
        dsimp only at rest
        split at rest
        next =>
          rw [← family]
          exact gone_of_refused isUsed spared (lt_of_lt_of_le late (Timed.onward_of_ends reads)) rest
        next expired => exact absurd (lt_of_le_of_lt later alive) expired
      · exact absurd (known.2 row (.inl isStored) isToken).1 (dead.2 row (.inl isStored))

end Presentation

theorem detected (start : Moment) (fresh : Fresh start.server) : Detected start Unswept := by
  intro past m turns turn member r usedAt rotates unswept late rotation m' ends alive r' stored' family'
  obtain ⟨chained, unwritten⟩ := turns.settled fresh
  have alive₀ : m.clock < r.expiresAt := lt_of_le_of_lt (Timed.onward_of_ends ends) alive
  obtain ⟨known, kept⟩ := turns.remembers fresh member rotates unswept alive₀
  have gone := gone_of_presented chained (unwritten _ le_rfl) known kept late ends alive
  exact absurd family' (gone r' stored')

theorem detected_blank : Detected ⟨0, blank⟩ Unswept :=
  detected ⟨0, blank⟩ blank_fresh

section Forgotten

/-- Answers at one time. -/
def clockAt (now : Instant) (n : Nat) : List Answer :=
  List.replicate n { now }

/-- A token is issued and rotated, and the table swept on the eighth day. -/
def eightDays : Instant :=
  8 * 24 * 3600000

def script : List (Call × List Answer) := [
  (.login 1, clockAt 0 2 ++ [{ id := 1, family := 2, raw := [1] }] ++ clockAt 0 5),
  (.refresh (some [1]), clockAt 1 5 ++ [{ now := 1, id := 3, family := 4, raw := [2] }] ++ clockAt 1 5),
  (.sweepExpired, clockAt eightDays 4)]

theorem script_routine : ∀ x ∈ script, x.1.Routine := by
  intro x member
  rcases member with _ | ⟨_, _ | ⟨_, _ | ⟨_, none⟩⟩⟩
  · trivial
  · trivial
  · trivial
  · cases none

def first : RefreshToken where
  id := 1
  userId := 1
  tokenHash := .sha256 [1]
  expiresAt := refreshTokenTtl
  familyId := 2
  usedAt := none

def firstUsed : RefreshToken :=
  { first with usedAt := some 1 }

def Turn.row (turn : Turn) : Option RefreshToken × Option RefreshToken :=
  (turn.before.server.db.committed.get first.key, turn.after.server.db.committed.get first.key)

/-- The row of the first token before and after each call, and what is left of its family when it
has been presented. -/
structure Aftermath where
  rows : List (Option RefreshToken × Option RefreshToken)
  clock : Instant
  ended : Instant
  family : List (UUID × Bool)
  deriving DecidableEq

def aftermath : Option Aftermath := do
  let (past, m) ← play [] ⟨0, blank⟩ script
  let (result, m') ← interpret (timed past.length) (rotate first.tokenHash.raw).run m
    (clockAt eightDays 2)
  let _ ← result.toOption
  return {
    rows := past.map Turn.row
    clock := m.clock
    ended := m'.clock
    family := m'.server.db.committed.rows.map fun r => (r.familyId, r.live m'.clock) }

theorem forgotten : aftermath = some {
    rows := [(some firstUsed, none), (some first, some firstUsed), (none, some first)]
    clock := eightDays
    ended := eightDays
    family := [(first.familyId, true)] } := by
  decide +kernel

theorem undetected : ¬Detected ⟨0, blank⟩ fun _ _ => True := by
  intro claim
  have ran := forgotten
  simp only [aftermath, Option.bind_eq_bind, Option.bind_eq_some_iff] at ran
  obtain ⟨⟨past, m⟩, played, ⟨result, m'⟩, presented, rotation, isRotation, facts⟩ := ran
  obtain ⟨rows, isClock, isClock', live⟩ := Aftermath.mk.inj (Option.some.inj facts)
  have turns : Turns ⟨0, blank⟩ past m := play_turns .nil script_routine played
  obtain ⟨_, _, rfl, _, rest⟩ := List.map_eq_cons_iff.mp rows
  obtain ⟨turn, _, rfl, row, _⟩ := List.map_eq_cons_iff.mp rest
  obtain ⟨before, after⟩ := Prod.mk.inj row
  obtain ⟨r', _, isRows, shape, _⟩ := List.map_eq_cons_iff.mp live
  obtain ⟨family, isLive⟩ := Prod.mk.inj shape
  have rotates : turn.Rotates first 1 := ⟨before, rfl, after⟩
  cases result with
  | error e => cases isRotation
  | ok rotation =>
      have dead := claim _ m turns turn (List.mem_cons_of_mem _ List.mem_cons_self) first 1 rotates
        trivial (by rw [isClock]; decide) rotation m' (timed_ends presented) (by rw [isClock']; decide)
        r' (Server.mem_rows.mp (by rw [isRows]; exact List.mem_cons_self)) family
      rw [isLive] at dead
      cases dead

end Forgotten

end Auth
