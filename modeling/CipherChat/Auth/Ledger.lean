import CipherChat.Async.Contract
import CipherChat.Auth.Families

/-!
The history of the tokens: which were rotated, which families were revoked, and what every
operation of the service keeps of it.
-/

namespace Auth

open Async ReadCommitted
open Rooms (UUID Instant JavaError)

/-- The families a deletion is to leave without a row. -/
def Target.revoked (rows : List RefreshToken) : Target → List UUID
  | .family familyId => [familyId]
  | .others .. | .user _ => rows.map RefreshToken.familyId
  | _ => []

/-- The families an open transaction has begun to delete. -/
def revoking (scope : Scope) : Log Op Op.Res → List UUID
  | [] => []
  | ⟨.select scope' target, .ok rows⟩ :: earlier =>
      if scope' = scope then target.revoked rows ++ revoking scope earlier else revoking scope earlier
  | ⟨.commit scope', _⟩ :: earlier | ⟨.rollback scope', _⟩ :: earlier =>
      if scope' = scope then [] else revoking scope earlier
  | _ :: earlier => revoking scope earlier

namespace Event

/-- The tokens an event has marked used in the table. -/
def rotated (e : Event) : List TokenHash :=
  (e.before.db.committed.rows.filter fun r => r.usedAt.isNone &&
    match e.after.db.committed.get r.key with
    | some r' => r'.usedAt.isSome
    | none => false).map RefreshToken.tokenHash

/-- A refresh with this token was answered with a session. -/
def Accepts (e : Event) (raw : RawToken) : Prop :=
  e.call = .refresh (some raw) ∧ ∃ token, e.op = .respond (.session (.ok token))

/-- The transaction commits, whether or not it is told so. -/
def commits (e : Event) (scope : Scope) : Bool :=
  e.op = .commit scope &&
    e.after.db.committed.rows = (e.before.db.commit (e.thread, scope)).committed.rows

/-- A transaction commits a row of a family that another has begun to delete. -/
def Disturbs (e : Event) (earlier : List Event) (familyId : UUID) : Prop :=
  ∃ scope, e.commits scope ∧ (∃ r, e.before.Pends (e.thread, scope) r ∧ r.familyId = familyId) ∧
    ∃ t scope', (t, scope') ≠ (e.thread, scope) ∧ familyId ∈ revoking scope' (own t earlier)

end Event

def rotations (past : List Event) : List TokenHash :=
  past.flatMap Event.rotated

def revokedBy (e : Event) (earlier : List Event) : List UUID :=
  (if Event.commits e .main then revoking .main (own e.thread earlier) else []) ++
    if Event.commits e .isolated then revoking .isolated (own e.thread earlier) else []

/-- The families that a committed transaction has deleted. -/
def revokedFamilies : List Event → List UUID
  | [] => []
  | e :: earlier => revokedBy e earlier ++ revokedFamilies earlier

/-- The family was continued while a transaction was deleting it. -/
def Disturbed (past : List Event) (familyId : UUID) : Prop :=
  ∃ later e earlier, past = later ++ e :: earlier ∧ Event.Disturbs e earlier familyId

theorem Disturbed.mono {past past' : List Event} {familyId : UUID} (disturbed : Disturbed past familyId)
    (extends' : past <:+ past') : Disturbed past' familyId := by
  obtain ⟨later, e, earlier, rfl, disturbs⟩ := disturbed
  obtain ⟨newer, rfl⟩ := extends'
  exact ⟨newer ++ later, e, earlier, by rw [List.append_assoc], disturbs⟩

/-- The transaction has only deleted. -/
def Deletes (s : Server) (tx : Tx) : Prop :=
  ∀ r, ¬s.Pends tx r

/-- Every row of the family is among those still to be deleted, or deleted. -/
def Doomed (s : Server) (tx : Tx) (familyId : UUID) (ids : List UUID) : Prop :=
  Surfaced s familyId ∧ ∀ r, s.Stored r → r.familyId = familyId →
    r.id ∈ ids ∨ s.db.held r.key = some (tx, none)

/-- What a thread has established when it performs an operation. -/
def Justified (t : Nat) (j : History) (op : Op) : Prop :=
  Fine t j.state op ∧ match op with
    | .commit scope => revoking scope (j.log t) = [] ∨ Deletes j.state (t, scope) ∧
        ∀ F ∈ revoking scope (j.log t), Disturbed j.past F ∨ Doomed j.state (t, scope) F []
    | .respond (.session (.ok _)) => ∀ raw, j.calls t = some (.refresh (some raw)) →
        ∃ e ∈ j.past, e.thread = t ∧ .sha256 raw ∈ Event.rotated e
    | _ => True

structure Kept (j : History) : Prop where
  chained : Chained j.state
  begun : ∀ t scope k version, j.state.db.held k = some ((t, scope), version) → j.log t ≠ []
  once : (rotations j.past).Nodup
  spent : ∀ h ∈ rotations j.past, Spent j.state h
  accepted : ∀ e ∈ j.past, ∀ raw, Event.Accepts e raw →
    ∃ e' ∈ j.past, e'.thread = e.thread ∧ .sha256 raw ∈ Event.rotated e'
  revoked : ∀ F ∈ revokedFamilies j.past, Disturbed j.past F ∨ Dead j.state F
  steady : ∀ e ∈ j.past, Chained e.before ∧ Fine e.thread e.before e.op ∧
    Outcome e.thread e.before e.op e.result e.after

/-- What the others leave unchanged. -/
structure Rely (t : Nat) (j j' : History) : Prop where
  held : ∀ k scope version, j'.state.db.held k = some ((t, scope), version) ↔
    j.state.db.held k = some ((t, scope), version)
  revoking : ∀ scope, revoking scope (j'.log t) = revoking scope (j.log t)
  past : j.past <:+ j'.past
  known : ∀ h F u, Known j.state h F u → Known j'.state h F u
  owned : ∀ F u, Owned j.state F u → Owned j'.state F u
  surfaced : ∀ F, Surfaced j.state F → Surfaced j'.state F
  doomed : ∀ scope, ∀ F ∈ Auth.revoking scope (j.log t), Disturbed j'.past F ∨
    ∀ r', j'.state.Stored r' → r'.familyId = F →
      ∃ r, j.state.Stored r ∧ r.id = r'.id ∧ r.familyId = F

theorem Rely.refl (t : Nat) (j : History) : Rely t j j :=
  ⟨fun _ _ _ => .rfl, fun _ => rfl, List.suffix_refl _, fun _ _ _ => id, fun _ _ => id, fun _ => id,
    fun _ _ _ => .inr fun r stored family => ⟨r, stored, rfl, family⟩⟩

theorem Rely.trans {t : Nat} {j j₁ j₂ : History} (first : Rely t j j₁) (second : Rely t j₁ j₂) :
    Rely t j j₂ := by
  refine ⟨fun k scope version => (second.held k scope version).trans (first.held k scope version),
    fun scope => (second.revoking scope).trans (first.revoking scope), first.past.trans second.past,
    fun h F u known => second.known h F u (first.known h F u known),
    fun F u owned => second.owned F u (first.owned F u owned),
    fun F surfaced => second.surfaced F (first.surfaced F surfaced), fun scope F deleting => ?_⟩
  rcases first.doomed scope F deleting with disturbed | fewer
  · exact .inl (disturbed.mono second.past)
  · rcases second.doomed scope F (first.revoking scope ▸ deleting) with disturbed | fewer'
    · exact .inl disturbed
    · refine .inr fun r' stored' family' => ?_
      obtain ⟨r₁, stored₁, id₁, family₁⟩ := fewer' r' stored' family'
      obtain ⟨r, stored, id, family⟩ := fewer r₁ stored₁ family₁
      exact ⟨r, stored, id.trans id₁, family⟩

theorem mem_rotated {e : Event} {h : TokenHash} : h ∈ Event.rotated e ↔
    ∃ r r', e.before.Stored r ∧ r.usedAt = none ∧ r.tokenHash = h ∧
      e.after.db.committed.get r.key = some r' ∧ r'.usedAt ≠ none := by
  simp only [Event.rotated, List.mem_map, List.mem_filter, Server.mem_rows]
  constructor
  · rintro ⟨r, ⟨stored, isUsed⟩, rfl⟩
    cases found : e.after.db.committed.get r.key with
    | none => simp [found] at isUsed
    | some r' =>
        refine ⟨r, r', stored, ?_, rfl, found, ?_⟩
        · simp only [found, Bool.and_eq_true] at isUsed
          simpa using isUsed.1
        · simp only [found, Bool.and_eq_true] at isUsed
          exact Option.isSome_iff_ne_none.mp isUsed.2
  · rintro ⟨r, r', stored, unused, rfl, found, isUsed⟩
    exact ⟨r, ⟨stored, by simp [found, unused, Option.isSome_iff_ne_none.mpr isUsed]⟩, rfl⟩

section Step

variable {permits : History → Event → Prop} {j : History} {e : Event}

theorem performs_outcome (performs : j.Performs service permits e) :
    Outcome e.thread j.state e.op e.result e.after := by
  have exec := performs.exec
  rw [performs.before] at exec
  exact Exec.outcome exec

/-- Whether it is a commit that happened or one that failed, nothing of the transaction stays. -/
theorem Outcome.ended {t : Nat} {s s' : Server} {op : Op} {result : op.Res} {scope : Scope}
    (outcome : Outcome t s op result s') (ends : op.ends = some scope) : s.Ended (t, scope) s' := by
  cases outcome with
  | same _ open' => rw [open'] at ends; cases ends
  | used | erased | saved => cases ends
  | committed isAfter =>
      obtain rfl := Option.some.inj ends
      exact isAfter ▸ Server.ended_commit
  | closed scope' ends' isAfter =>
      obtain rfl := Option.some.inj (ends'.symm.trans ends)
      exact isAfter ▸ Server.ended_rollback

/-- Only a commit changes the table. -/
theorem Outcome.committed_eq {t : Nat} {s s' : Server} {op : Op} {result : op.Res}
    (outcome : Outcome t s op result s') :
    s'.db.committed = s.db.committed ∨
      ∃ scope, op = .commit scope ∧ s' = s.setDb (s.db.commit (t, scope)) := by
  cases outcome with
  | same same _ => exact .inl (by rw [same.db])
  | used _ _ _ _ _ isAfter | erased _ _ _ _ _ isAfter | saved _ _ _ _ _ _ _ _ isAfter
  | closed _ _ isAfter => exact .inl (by rw [isAfter]; rfl)
  | committed isAfter => exact .inr ⟨_, rfl, isAfter⟩

/-- A token is rotated by the commit of the transaction that holds its row. -/
theorem of_rotated (performs : j.Performs service permits e) {h : TokenHash}
    (rotates : h ∈ Event.rotated e) :
    ∃ scope r r', e.op = .commit scope ∧ e.after = j.state.setDb (j.state.db.commit (e.thread, scope)) ∧
      j.state.Stored r ∧ r.usedAt = none ∧ r.tokenHash = h ∧ e.after.Stored r' ∧ r'.id = r.id ∧
      r'.usedAt ≠ none ∧ j.state.Pends (e.thread, scope) r' := by
  obtain ⟨r, r', stored, unused, isToken, found, isUsed⟩ := mem_rotated.mp rotates
  rw [performs.before] at stored
  have stored' : e.after.Stored r' := Server.of_get found
  have sameId : r'.id = r.id := RefreshToken.key_injective.mp (Table.key_of_get found)
  rcases (performs_outcome performs).committed_eq with same | ⟨scope, isOp, isAfter⟩
  · have still : j.state.Stored r' := (Server.stored_of_committed same).mp stored'
    rw [still.eq stored sameId] at isUsed
    exact absurd unused isUsed
  · rw [isAfter] at stored'
    rcases Server.stored_commit.mp stored' with pends | ⟨still, _⟩
    · exact ⟨scope, r, r', isOp, isAfter, stored, unused, isToken, isAfter ▸ stored', sameId, isUsed,
        pends⟩
    · rw [still.eq stored sameId] at isUsed
      exact absurd unused isUsed

/-- A transaction does not touch what another has written. -/
theorem held_other {t u : Nat} {s s' : Server} {op : Op} {result : op.Res} (chained : Chained s)
    (outcome : Outcome t s op result s') (other : u ≠ t) {k : Nat} {scope : Scope}
    {version : Option RefreshToken} :
    s'.db.held k = some ((u, scope), version) ↔ s.db.held k = some ((u, scope), version) := by
  have apart {scope'} : ((t, scope') : Tx) ≠ (u, scope) := fun same => other (Prod.mk.inj same).1.symm
  have ended {scope'} (ends : s.Ended (t, scope') s') :
      s'.db.held k = some ((u, scope), version) ↔ s.db.held k = some ((u, scope), version) := by
    rw [ends k, Option.filter_eq_some_iff]
    simp [apart.symm]
  cases outcome with
  | same same _ => rw [same.db]
  | @used scope' _ _ _ _ _ r seen unlocked _ _ isAfter =>
      subst isAfter
      change ((s.db.write _ _).held k = _) ↔ _
      rw [Database.held_write]
      split
      next isKey =>
        have isKey : r.key = k := isKey
        subst isKey
        refine ⟨fun same => ?_, fun isHeld => ?_⟩
        · exact absurd (Prod.mk.inj (Option.some.inj same)).1 apart
        · exact absurd (Chained.free_of_unlocked unlocked rfl ⟨version, isHeld⟩).symm apart
      next => rfl
  | @erased scope' _ _ _ _ r seen unlocked _ _ isAfter =>
      subst isAfter
      change ((s.db.erase _ _).held k = _) ↔ _
      rw [Database.held_erase]
      split
      next isKey =>
        subst isKey
        refine ⟨fun same => ?_, fun isHeld => ?_⟩
        · exact absurd (Prod.mk.inj (Option.some.inj same)).1 apart
        · exact absurd (Chained.free_of_unlocked unlocked rfl ⟨version, isHeld⟩).symm apart
      next => rfl
  | saved r drawn _ _ newId _ _ _ isAfter =>
      subst isAfter
      change ((s.db.write _ _).held k = _) ↔ _
      rw [Database.held_write]
      split
      next isKey =>
        refine ⟨fun same => absurd (Prod.mk.inj (Option.some.inj same)).1 apart, fun isHeld => ?_⟩
        obtain ⟨id, member, sameKey⟩ := chained.keys k _ isHeld
        have sameId : id = r.id := BitVec.toNat_inj.mp (sameKey.trans isKey.symm)
        exact absurd (sameId ▸ member) newId
      next => rfl
  | committed isAfter => exact ended (isAfter ▸ Server.ended_commit)
  | closed _ _ isAfter => exact ended (isAfter ▸ Server.ended_rollback)

variable (kept : Kept j) (performs : j.Performs service permits e)
include kept performs

theorem spent_of_rotated (justified : Justified e.thread j e.op) {h : TokenHash} (rotates : h ∈ Event.rotated e) : Spent e.after h := by
  have chained' : Chained e.after := kept.chained.step (performs_outcome performs) justified.1
  obtain ⟨scope, r, r', _, isAfter, stored, _, isToken, stored', sameId, isUsed, pends⟩ :=
    of_rotated performs rotates
  have isToken' : r'.tokenHash = h := by
    obtain ⟨r₀, stored₀, _, id₀, _, token₀⟩ := kept.chained.claims _ r' pends isUsed
    rw [← token₀, stored₀.eq stored (id₀.trans sameId)]
    exact isToken
  refine ⟨isToken' ▸ (chained'.drawn r' (.inl stored')).2.2, fun r'' version isToken'' => ?_⟩
  have sameId'' : r''.id = r'.id :=
    chained'.hashes r'' r' version (.inl stored') (isToken''.trans isToken'.symm)
  rcases version with stored'' | ⟨tx, pends''⟩
  · rw [stored''.eq stored' sameId'']
    exact isUsed
  · rw [isAfter] at pends''
    obtain ⟨other, old⟩ := Server.ended_commit.pends.mp pends''
    exact absurd (old.holds.unique pends.holds sameId'') other

theorem once_record : (rotations (e :: j.past)).Nodup := by
  have chained := kept.chained
  change (Event.rotated e ++ rotations j.past).Nodup
  refine List.nodup_append.mpr ⟨?_, kept.once, ?_⟩
  · refine List.Nodup.map_on ?_ (List.Nodup.filter _ ?_)
    · intro r member r' member' same
      have stored := Server.mem_rows.mp (List.mem_filter.mp member).1
      have stored' := Server.mem_rows.mp (List.mem_filter.mp member').1
      rw [performs.before] at stored stored'
      exact stored.eq stored' (chained.hashes r r' (.inl stored) (.inl stored') same)
    · exact e.before.db.committed.ordered.imp fun less same => absurd (same ▸ less) (lt_irrefl _)
  · rintro h rotates _ earlier rfl
    obtain ⟨_, r, _, _, _, stored, unused, isToken, _⟩ := of_rotated performs rotates
    exact (kept.spent h earlier).2 r (.inl stored) isToken unused

/-- A revocation commits when it holds every row of the family: nobody is continuing it. -/
theorem dead_of_doomed {scope : Scope} {F : UUID} (commits : Event.commits e scope)
    (deletes : Deletes j.state (e.thread, scope)) (doomed : Doomed j.state (e.thread, scope) F []) :
    Dead e.after F := by
  have chained := kept.chained
  obtain ⟨isOp, isRows⟩ : e.op = .commit scope ∧ e.after.db.committed.rows =
      (e.before.db.commit (e.thread, scope)).committed.rows := by
    simpa [Event.commits] using commits
  have outcome := performs_outcome performs
  have ended : j.state.Ended (e.thread, scope) e.after := outcome.ended (by rw [isOp]; rfl)
  have held : ∀ r, j.state.Stored r → r.familyId = F →
      j.state.db.held r.key = some ((e.thread, scope), none) := by
    intro r stored family
    rcases doomed.2 r stored family with listed | held
    · cases listed
    · exact held
  refine ⟨outcome.uuids_subset doomed.1.1, fun r version family => ?_⟩
  rcases version with stored | ⟨tx, pends⟩
  · have stored' : (j.state.setDb (j.state.db.commit (e.thread, scope))).Stored r := by
      rw [← Server.mem_rows] at stored ⊢
      rw [isRows, performs.before] at stored
      exact stored
    rcases Server.stored_commit.mp stored' with pends | ⟨old, free⟩
    · exact deletes r pends
    · exact free ⟨none, held r old family⟩
  · obtain ⟨_, old⟩ := ended.pends.mp pends
    -- a claim, or the claim behind an insertion, is on a row that the revocation holds
    have anchor : ∃ r₀ version, j.state.Stored r₀ ∧ r₀.familyId = F ∧
        j.state.db.held r₀.key = some (tx, version) := by
      by_cases new : r.usedAt = none
      · obtain ⟨r₁, stored₁, family₁⟩ := doomed.1.2 tx r old new family
        rcases chained.anchored tx r old new with ⟨r₀, stored₀, _, family₀, version, isHeld⟩ | first
        · exact ⟨r₀, version, stored₀, family₀.trans family, isHeld⟩
        · exact absurd (family₁.trans family.symm) (first r₁ stored₁)
      · obtain ⟨r₀, stored₀, _, id₀, family₀, _⟩ := chained.claims tx r old new
        refine ⟨r₀, some r, stored₀, family₀.trans family, ?_⟩
        rw [RefreshToken.key_injective.mpr id₀]
        exact old
    obtain ⟨r₀, version, stored₀, family₀, isHeld⟩ := anchor
    rw [held r₀ stored₀ family₀] at isHeld
    obtain ⟨rfl, _⟩ := Prod.mk.inj (Option.some.inj isHeld)
    exact deletes r old

theorem revoked_record (justified : Justified e.thread j e.op) :
    ∀ F ∈ revokedFamilies (e :: j.past), Disturbed (e :: j.past) F ∨ Dead e.after F := by
  have later : j.past <:+ e :: j.past := List.suffix_cons _ _
  have outcome := performs_outcome performs
  have commit (scope : Scope) (F : UUID) (member : F ∈ if Event.commits e scope then
      revoking scope (own e.thread j.past) else []) :
      Disturbed (e :: j.past) F ∨ Dead e.after F := by
    split at member
    next commits =>
      have isOp : e.op = .commit scope := by
        simp only [Event.commits, Bool.and_eq_true, decide_eq_true_eq] at commits
        exact commits.1
      obtain ⟨_, begun⟩ := justified
      rw [isOp] at begun
      rcases begun with none | ⟨deletes, all⟩
      · rw [show own e.thread j.past = j.log e.thread from rfl, none] at member
        cases member
      · rcases all F member with disturbed | doomed
        · exact .inl (disturbed.mono later)
        · exact .inr (dead_of_doomed kept performs commits deletes doomed)
    · cases member
  intro F member
  rcases List.mem_append.mp member with here | old
  · rcases List.mem_append.mp here with main | isolated
    · exact commit .main F main
    · exact commit .isolated F isolated
  · rcases kept.revoked F old with disturbed | dead
    · exact .inl (disturbed.mono later)
    · exact .inr (dead.step kept.chained outcome justified.1)

theorem kept_record (justified : Justified e.thread j e.op) : Kept (j.record e) := by
  have outcome := performs_outcome performs
  refine ⟨kept.chained.step outcome justified.1, ?_, once_record kept performs, ?_, ?_,
    revoked_record kept performs justified, ?_⟩
  · intro t scope k version isHeld
    by_cases mine : e.thread = t
    · subst mine
      rw [Journal.record_log_self]
      exact List.cons_ne_nil _ _
    · rw [Journal.record_log_of_ne mine]
      exact kept.begun t scope k version ((held_other kept.chained outcome (Ne.symm mine)).mp isHeld)
  · intro h rotates
    rcases List.mem_append.mp rotates with here | old
    · exact spent_of_rotated kept performs justified here
    · exact (kept.spent h old).step kept.chained outcome justified.1
  · intro e₁ member raw accepts
    rcases List.mem_cons.mp member with rfl | old
    · obtain ⟨isCall, token, isOp⟩ := accepts
      obtain ⟨_, answered⟩ := justified
      rw [isOp] at answered
      obtain ⟨e', member', thread, rotates⟩ := answered raw (isCall ▸ performs.running)
      exact ⟨e', List.mem_cons_of_mem _ member', thread, rotates⟩
    · obtain ⟨e', member', rest⟩ := kept.accepted e₁ old raw accepts
      exact ⟨e', List.mem_cons_of_mem _ member', rest⟩
  · intro e₁ member
    rcases List.mem_cons.mp member with rfl | old
    · rw [performs.before]
      exact ⟨kept.chained, justified.1, outcome⟩
    · exact kept.steady e₁ old

theorem rely_record (justified : Justified e.thread j e.op) {t : Nat} (other : t ≠ e.thread) :
    Rely t j (j.record e) := by
  have outcome := performs_outcome performs
  have sameLog : (j.record e).log t = j.log t := Journal.record_log_of_ne (Ne.symm other)
  refine ⟨fun k scope version => held_other kept.chained outcome other, fun scope => by rw [sameLog],
    List.suffix_cons _ _, fun h F u known => known.step kept.chained outcome justified.1,
    fun F u owned => owned.step kept.chained outcome justified.1,
    fun F surfaced => surfaced.step kept.chained outcome justified.1, fun scope F deleting => ?_⟩
  by_cases disturbs : Event.Disturbs e j.past F
  · exact .inl ⟨[], e, j.past, rfl, disturbs⟩
  · refine .inr fun r' stored' family' => ?_
    rcases outcome.committed_eq with same | ⟨scope', isOp, isAfter⟩
    · exact ⟨r', (Server.stored_of_committed same).mp stored', rfl, family'⟩
    · have stored' : e.after.Stored r' := stored'
      rw [isAfter] at stored'
      rcases Server.stored_commit.mp stored' with pends | ⟨stored, _⟩
      · refine absurd ⟨scope', ?_, ⟨r', performs.before ▸ pends, family'⟩, t, scope,
          fun same => other (Prod.mk.inj same).1, deleting⟩ disturbs
        simp [Event.commits, isOp, isAfter, performs.before, Server.setDb]
      · exact ⟨r', stored, rfl, family'⟩

end Step

/-- What every call of the service keeps. -/
def contract (permits : History → Event → Prop) : Contract service permits where
  inv := Kept
  rely := Rely
  justified := Justified
  refl := Rely.refl
  trans _ _ _ _ := Rely.trans
  kept _ _ kept performs justified := kept_record kept performs justified
  others _ _ _ kept performs justified other := rely_record kept performs justified other

end Auth
