import CipherChat.Auth.Versions

/-!
The tables in which every family is a chain: one row of it at most is unused, and whoever is
about to add another has that row in its hands.
-/

namespace Auth

open Async ReadCommitted
open Rooms (UUID Instant JavaError)

structure Chained (s : Server) : Prop where
  drawn : ∀ r, s.Version r → r.id ∈ s.uuids ∧ r.familyId ∈ s.uuids ∧ r.tokenHash.raw ∈ s.raws
  keys : ∀ k w, s.db.held k = some w → ∃ id ∈ s.uuids, id.toNat = k
  hashes : ∀ r r', s.Version r → s.Version r' → r.tokenHash = r'.tokenHash → r.id = r'.id
  owner : ∀ r r', s.Version r → s.Version r' → r.familyId = r'.familyId → r.userId = r'.userId
  single : ∀ r r', s.Stored r → s.Stored r' → r.usedAt = none → r'.usedAt = none →
    r.familyId = r'.familyId → r = r'
  claims : ∀ tx r, s.Pends tx r → r.usedAt ≠ none → ∃ r₀, s.Stored r₀ ∧ r₀.usedAt = none ∧
    r₀.id = r.id ∧ r₀.familyId = r.familyId ∧ r₀.tokenHash = r.tokenHash
  newest : ∀ tx r r₀, s.Pends tx r → r.usedAt = none → s.Stored r₀ → r₀.usedAt = none →
    r₀.familyId = r.familyId → s.Holds tx r₀
  alone : ∀ tx tx' r r', s.Pends tx r → r.usedAt = none → s.Pends tx' r' →
    r'.familyId = r.familyId → tx' = tx ∧ (r'.usedAt = none → r' = r)
  anchored : ∀ tx r, s.Pends tx r → r.usedAt = none →
    (∃ r₀, s.Stored r₀ ∧ r₀.usedAt = none ∧ r₀.familyId = r.familyId ∧ s.Holds tx r₀) ∨
      ∀ r₀, s.Stored r₀ → r₀.familyId ≠ r.familyId
  unique : ∀ tx r r₀, s.Pends tx r → r.usedAt = none → s.Stored r₀ → r₀.id ≠ r.id

/-- The transaction has inserted nothing. -/
def NoneNew (s : Server) (tx : Tx) : Prop :=
  ∀ r, s.Pends tx r → r.usedAt ≠ none

/-- The transaction has marked a row of the family used. -/
def Claimed (s : Server) (tx : Tx) (userId familyId : UUID) : Prop :=
  ∃ r, s.Pends tx r ∧ r.usedAt ≠ none ∧ r.familyId = familyId ∧ r.userId = userId

/-- A row is marked only if it is unused and nothing was inserted before; a family is
continued only by the transaction that has claimed a row of it, once. -/
def Fine (t : Nat) (s : Server) : Op → Prop
  | .modify scope target (.markUsed _) _ =>
      (∃ h now, target = .unused h now) ∧ NoneNew s (t, scope)
  | .save userId _ (some familyId) =>
      NoneNew s (t, .main) ∧ Claimed s (t, .main) userId familyId
  | _ => True

namespace Chained

variable {s s' : Server} {t : Nat} {tx : Tx} {r : RefreshToken}

theorem of_same (chained : Chained s) (same : Same s s') : Chained s' := by
  obtain ⟨db, users, uuids, raws, cookies⟩ := s
  obtain ⟨db', users', uuids', raws', cookies'⟩ := s'
  obtain ⟨rfl, rfl, rfl⟩ := same
  exact ⟨chained.drawn, chained.keys, chained.hashes, chained.owner, chained.single,
    chained.claims, chained.newest, chained.alone, chained.anchored,
    chained.unique⟩

/-- Nobody else has an insertion or a claim in the family of an unused row that nobody holds. -/
theorem unheld (chained : Chained s) (stored : s.Stored r) (unused : r.usedAt = none)
    (free : ∀ tx, ¬s.Holds tx r) {r' : RefreshToken} (pends : s.Pends tx r') :
    r'.familyId ≠ r.familyId := by
  intro same
  by_cases new : r'.usedAt = none
  · exact free tx (chained.newest tx r' r pends new stored unused same.symm)
  · obtain ⟨r₀, stored₀, unused₀, id, family, _⟩ := chained.claims tx r' pends new
    obtain rfl := chained.single r₀ r stored₀ stored unused₀ unused (family.trans same)
    obtain ⟨version, isHeld⟩ := pends.holds
    exact free tx ⟨version, RefreshToken.key_injective.mpr id ▸ isHeld⟩

theorem mark (chained : Chained s) (stored : s.Stored r) (unused : r.usedAt = none)
    (free : ∀ tx, ¬s.Holds tx r) (now : Instant) :
    Chained (s.setDb (s.db.write tx { r with usedAt := some now })) := by
  set used : RefreshToken := { r with usedAt := some now } with isUsed
  set s' := s.setDb (s.db.write tx used) with isAfter
  have isDb : s'.db = s.db.write tx used := rfl
  have stored_iff : ∀ r', s'.Stored r' ↔ s.Stored r' := fun r' =>
    Server.stored_of_committed Database.committed_write
  have pends_iff : ∀ {tx' r'}, s'.Pends tx' r' ↔ (tx' = tx ∧ r' = used) ∨
      (r'.id ≠ r.id ∧ s.Pends tx' r') := Server.pends_write isDb
  have version : ∀ r', s'.Version r' → r' = used ∨ s.Version r' := by
    rintro r' (isStored | ⟨tx', pends⟩)
    · exact .inr (.inl ((stored_iff r').mp isStored))
    · rcases pends_iff.mp pends with ⟨_, rfl⟩ | ⟨_, old⟩
      · exact .inl rfl
      · exact .inr (.inr ⟨tx', old⟩)
  have known : s.Version r := .inl stored
  have holds : ∀ {tx' r₀}, s.Stored r₀ → s.Holds tx' r₀ → s'.Holds tx' r₀ := by
    intro tx' r₀ stored₀ isHeld
    refine (Server.holds_write isDb).mpr (.inr ⟨fun id => ?_, isHeld⟩)
    obtain rfl := stored₀.eq stored id
    exact free tx' isHeld
  refine ⟨?_, ?_, ?_, ?_, ?_, ?_, ?_, ?_, ?_, ?_⟩
  · intro r' isVersion
    rcases version r' isVersion with rfl | old
    · exact chained.drawn r known
    · exact chained.drawn r' old
  · intro k w isHeld
    rw [isDb, Database.held_write] at isHeld
    split at isHeld
    next isKey => exact ⟨r.id, (chained.drawn r known).1, isKey⟩
    next => exact chained.keys k w isHeld
  · intro r₁ r₂ first second same
    rcases version r₁ first with rfl | first
    · rcases version r₂ second with rfl | second
      · rfl
      · exact chained.hashes r r₂ known second same
    · rcases version r₂ second with rfl | second
      · exact chained.hashes r₁ r first known same
      · exact chained.hashes r₁ r₂ first second same
  · intro r₁ r₂ first second same
    rcases version r₁ first with rfl | first
    · rcases version r₂ second with rfl | second
      · rfl
      · exact chained.owner r r₂ known second same
    · rcases version r₂ second with rfl | second
      · exact chained.owner r₁ r first known same
      · exact chained.owner r₁ r₂ first second same
  · intro r₁ r₂ first second
    exact chained.single r₁ r₂ ((stored_iff r₁).mp first) ((stored_iff r₂).mp second)
  · intro tx' r' pends isUsed
    rcases pends_iff.mp pends with ⟨_, rfl⟩ | ⟨_, old⟩
    · exact ⟨r, (stored_iff r).mpr stored, unused, rfl, rfl, rfl⟩
    · obtain ⟨r₀, stored₀, rest⟩ := chained.claims tx' r' old isUsed
      exact ⟨r₀, (stored_iff r₀).mpr stored₀, rest⟩
  · intro tx' r' r₀ pends new stored₀ unused₀ same
    rcases pends_iff.mp pends with ⟨_, rfl⟩ | ⟨_, old⟩
    · cases new
    · have old₀ := (stored_iff r₀).mp stored₀
      exact holds old₀ (chained.newest tx' r' r₀ old new old₀ unused₀ same)
  · intro tx₁ tx₂ r₁ r₂ pends new pends' same
    rcases pends_iff.mp pends with ⟨_, rfl⟩ | ⟨_, old⟩
    · cases new
    · rcases pends_iff.mp pends' with ⟨_, rfl⟩ | ⟨_, old'⟩
      · exact absurd same.symm (chained.unheld stored unused free old)
      · exact chained.alone tx₁ tx₂ r₁ r₂ old new old' same
  · intro tx' r' pends new
    rcases pends_iff.mp pends with ⟨_, rfl⟩ | ⟨_, old⟩
    · cases new
    · rcases chained.anchored tx' r' old new with ⟨r₀, stored₀, unused₀, family, isHeld⟩ | first
      · exact .inl ⟨r₀, (stored_iff r₀).mpr stored₀, unused₀, family, holds stored₀ isHeld⟩
      · exact .inr fun r₀ stored₀ => first r₀ ((stored_iff r₀).mp stored₀)
  · intro tx' r' r₀ pends new stored₀
    rcases pends_iff.mp pends with ⟨_, rfl⟩ | ⟨_, old⟩
    · cases new
    · exact chained.unique tx' r' r₀ old new ((stored_iff r₀).mp stored₀)

/-- What is known of the family of a row about to be inserted: it is new, or the transaction
holds the one unused row of it. -/
def Continues (s : Server) (tx : Tx) (r : RefreshToken) : Prop :=
  r.familyId ∉ s.uuids ∨ NoneNew s tx ∧ Claimed s tx r.userId r.familyId

/-- Whoever has a version of the family is the transaction that continues it. -/
theorem continues_pends (chained : Chained s) (continues : Continues s tx r) {tx' : Tx}
    {r' : RefreshToken} (pends : s.Pends tx' r') (same : r'.familyId = r.familyId) :
    tx' = tx ∧ r'.usedAt ≠ none := by
  rcases continues with fresh | ⟨noneNew, claim, claimed, isUsed, family, _⟩
  · exact absurd (same ▸ (chained.drawn r' (.inr ⟨tx', pends⟩)).2.1) fresh
  · obtain ⟨r₀, stored₀, unused₀, id₀, family₀, _⟩ := chained.claims tx claim claimed isUsed
    by_cases new : r'.usedAt = none
    · have holds := chained.newest tx' r' r₀ pends new stored₀ unused₀
        ((family₀.trans family).trans same.symm)
      obtain rfl := holds.unique claimed.holds id₀
      exact absurd new (noneNew r' pends)
    · obtain ⟨r₁, stored₁, unused₁, id₁, family₁, _⟩ := chained.claims tx' r' pends new
      obtain rfl := chained.single r₁ r₀ stored₁ stored₀ unused₁ unused₀
        ((family₁.trans same).trans (family₀.trans family).symm)
      exact ⟨pends.holds.unique claimed.holds (id₁.symm.trans id₀), new⟩

theorem insert (chained : Chained s) (new : r.usedAt = none) (newId : r.id ∉ s.uuids)
    (newToken : r.tokenHash.raw ∉ s.raws) (continues : Continues s tx r)
    (isDb : s'.db = s.db.write tx r) {drawn : UUID} (isDrawn : r.familyId ∈ drawn :: s.uuids)
    (uuids : s'.uuids = r.id :: drawn :: s.uuids) (raws : s'.raws = r.tokenHash.raw :: s.raws) :
    Chained s' := by
  have stored_iff : ∀ r', s'.Stored r' ↔ s.Stored r' := fun r' =>
    Server.stored_of_committed (by rw [isDb, Database.committed_write])
  have pends_iff : ∀ {tx' r'}, s'.Pends tx' r' ↔ (tx' = tx ∧ r' = r) ∨
      (r'.id ≠ r.id ∧ s.Pends tx' r') := Server.pends_write isDb
  have version : ∀ r', s'.Version r' → r' = r ∨ s.Version r' := by
    rintro r' (isStored | ⟨tx', pends⟩)
    · exact .inr (.inl ((stored_iff r').mp isStored))
    · rcases pends_iff.mp pends with ⟨_, rfl⟩ | ⟨_, old⟩
      · exact .inl rfl
      · exact .inr (.inr ⟨tx', old⟩)
  have otherId : ∀ r', s.Version r' → r'.id ≠ r.id :=
    fun r' old same => newId (same ▸ (chained.drawn r' old).1)
  have otherToken : ∀ r', s.Version r' → r'.tokenHash ≠ r.tokenHash :=
    fun r' old same => newToken (same ▸ (chained.drawn r' old).2.2)
  have sameUser : ∀ r', s.Version r' → r'.familyId = r.familyId → r'.userId = r.userId := by
    intro r' old same
    rcases continues with fresh | ⟨_, claim, claimed, _, family, user⟩
    · exact absurd (same ▸ (chained.drawn r' old).2.1) fresh
    · rw [← user]
      exact chained.owner r' claim old (.inr ⟨tx, claimed⟩) (same.trans family.symm)
  have holds : ∀ {tx' r₀}, s.Stored r₀ → s.Holds tx' r₀ → s'.Holds tx' r₀ := fun stored₀ isHeld =>
    (Server.holds_write isDb).mpr (.inr ⟨otherId _ (.inl stored₀), isHeld⟩)
  -- the row the family is continued from, in the hands of the transaction
  have anchor : r.familyId ∉ s.uuids ∨ ∃ r₀, s.Stored r₀ ∧ r₀.usedAt = none ∧
      r₀.familyId = r.familyId ∧ s.Holds tx r₀ := by
    refine continues.imp_right ?_
    rintro ⟨_, claim, claimed, isUsed, family, _⟩
    obtain ⟨r₀, stored₀, unused₀, id₀, family₀, _⟩ := chained.claims tx claim claimed isUsed
    obtain ⟨w, isHeld⟩ := claimed.holds
    exact ⟨r₀, stored₀, unused₀, family₀.trans family, w, RefreshToken.key_injective.mpr id₀ ▸ isHeld⟩
  refine ⟨?_, ?_, ?_, ?_, ?_, ?_, ?_, ?_, ?_, ?_⟩
  · intro r' isVersion
    rw [uuids, raws]
    rcases version r' isVersion with rfl | old
    · exact ⟨List.mem_cons_self, List.mem_cons_of_mem _ isDrawn, List.mem_cons_self⟩
    · obtain ⟨id, family, token⟩ := chained.drawn r' old
      exact ⟨List.mem_cons_of_mem _ (List.mem_cons_of_mem _ id),
        List.mem_cons_of_mem _ (List.mem_cons_of_mem _ family), List.mem_cons_of_mem _ token⟩
  · intro k w isHeld
    rw [isDb, Database.held_write] at isHeld
    rw [uuids]
    split at isHeld
    next isKey => exact ⟨r.id, List.mem_cons_self, isKey⟩
    next =>
      obtain ⟨id, member, isKey⟩ := chained.keys k w isHeld
      exact ⟨id, List.mem_cons_of_mem _ (List.mem_cons_of_mem _ member), isKey⟩
  · intro r₁ r₂ first second same
    rcases version r₁ first with rfl | first
    · rcases version r₂ second with rfl | second
      · rfl
      · exact absurd same.symm (otherToken r₂ second)
    · rcases version r₂ second with rfl | second
      · exact absurd same (otherToken r₁ first)
      · exact chained.hashes r₁ r₂ first second same
  · intro r₁ r₂ first second same
    rcases version r₁ first with rfl | first
    · rcases version r₂ second with rfl | second
      · rfl
      · exact (sameUser r₂ second same.symm).symm
    · rcases version r₂ second with rfl | second
      · exact sameUser r₁ first same
      · exact chained.owner r₁ r₂ first second same
  · intro r₁ r₂ first second
    exact chained.single r₁ r₂ ((stored_iff r₁).mp first) ((stored_iff r₂).mp second)
  · intro tx' r' pends isUsed
    rcases pends_iff.mp pends with ⟨_, rfl⟩ | ⟨_, old⟩
    · exact absurd new isUsed
    · obtain ⟨r₀, stored₀, rest⟩ := chained.claims tx' r' old isUsed
      exact ⟨r₀, (stored_iff r₀).mpr stored₀, rest⟩
  · intro tx' r' r₀ pends new' stored₀ unused₀ same
    have old₀ := (stored_iff r₀).mp stored₀
    rcases pends_iff.mp pends with ⟨rfl, rfl⟩ | ⟨_, old⟩
    · rcases anchor with fresh | ⟨r₁, stored₁, unused₁, family₁, isHeld⟩
      · exact absurd (same ▸ (chained.drawn r₀ (.inl old₀)).2.1) fresh
      · obtain rfl := chained.single r₁ r₀ stored₁ old₀ unused₁ unused₀ (family₁.trans same.symm)
        exact holds old₀ isHeld
    · exact holds old₀ (chained.newest tx' r' r₀ old new' old₀ unused₀ same)
  · intro tx₁ tx₂ r₁ r₂ pends new₁ pends' same
    rcases pends_iff.mp pends with ⟨rfl, rfl⟩ | ⟨_, old⟩
    · rcases pends_iff.mp pends' with ⟨rfl, rfl⟩ | ⟨_, old'⟩
      · exact ⟨rfl, fun _ => rfl⟩
      · obtain ⟨isTx, isUsed⟩ := chained.continues_pends continues old' same
        exact ⟨isTx, fun new₂ => absurd new₂ isUsed⟩
    · rcases pends_iff.mp pends' with ⟨rfl, rfl⟩ | ⟨_, old'⟩
      · exact absurd new₁ (chained.continues_pends continues old same.symm).2
      · exact chained.alone tx₁ tx₂ r₁ r₂ old new₁ old' same
  · intro tx' r' pends new'
    rcases pends_iff.mp pends with ⟨rfl, rfl⟩ | ⟨_, old⟩
    · rcases anchor with fresh | ⟨r₀, stored₀, unused₀, family, isHeld⟩
      · refine .inr fun r₀ stored₀ same => fresh ?_
        exact same ▸ (chained.drawn r₀ (.inl ((stored_iff r₀).mp stored₀))).2.1
      · exact .inl ⟨r₀, (stored_iff r₀).mpr stored₀, unused₀, family, holds stored₀ isHeld⟩
    · rcases chained.anchored tx' r' old new' with ⟨r₀, stored₀, unused₀, family, isHeld⟩ | first
      · exact .inl ⟨r₀, (stored_iff r₀).mpr stored₀, unused₀, family, holds stored₀ isHeld⟩
      · exact .inr fun r₀ stored₀ => first r₀ ((stored_iff r₀).mp stored₀)
  · intro tx' r' r₀ pends new' stored₀
    have old₀ := (stored_iff r₀).mp stored₀
    rcases pends_iff.mp pends with ⟨_, rfl⟩ | ⟨_, old⟩
    · exact otherId r₀ (.inl old₀)
    · exact chained.unique tx' r' r₀ old new' old₀

/-- A row that is there is deleted by a transaction, while no other holds it. -/
theorem erase (chained : Chained s) (known : s.Version r)
    (free : ∀ tx', s.Holds tx' r → tx' = tx) : Chained (s.setDb (s.db.erase tx r.key)) := by
  set s' := s.setDb (s.db.erase tx r.key) with isAfter
  have isDb : s'.db = s.db.erase tx r.key := rfl
  have stored_iff : ∀ r', s'.Stored r' ↔ s.Stored r' := fun r' =>
    Server.stored_of_committed Database.committed_erase
  have pends_old : ∀ {tx' r'}, s'.Pends tx' r' → s.Pends tx' r' := fun pends =>
    ((Server.pends_erase isDb).mp pends).2
  have holds : ∀ {tx' r₀}, s.Holds tx' r₀ → s'.Holds tx' r₀ := by
    intro tx' r₀ isHeld
    refine (Server.holds_erase isDb).mpr ?_
    by_cases here : r₀.id = r.id
    · obtain ⟨version, isHeld⟩ := isHeld
      rw [RefreshToken.key_injective.mpr here] at isHeld
      exact .inl ⟨here, free tx' ⟨version, isHeld⟩⟩
    · exact .inr ⟨here, isHeld⟩
  have version : ∀ {r'}, s'.Version r' → s.Version r' := by
    rintro r' (isStored | ⟨tx', pends⟩)
    · exact .inl ((stored_iff r').mp isStored)
    · exact .inr ⟨tx', pends_old pends⟩
  refine ⟨fun r' isVersion => chained.drawn r' (version isVersion), ?_,
    fun r₁ r₂ first second => chained.hashes r₁ r₂ (version first) (version second),
    fun r₁ r₂ first second => chained.owner r₁ r₂ (version first) (version second),
    fun r₁ r₂ first second => chained.single r₁ r₂ ((stored_iff r₁).mp first) ((stored_iff r₂).mp second),
    ?_, ?_, fun tx₁ tx₂ r₁ r₂ pends new pends' => chained.alone tx₁ tx₂ r₁ r₂ (pends_old pends) new
      (pends_old pends'), ?_, fun tx' r' r₀ pends new stored₀ => chained.unique tx' r' r₀
      (pends_old pends) new ((stored_iff r₀).mp stored₀)⟩
  · intro k w isHeld
    rw [isDb, Database.held_erase] at isHeld
    split at isHeld
    next isKey => exact ⟨r.id, (chained.drawn r known).1, isKey⟩
    next => exact chained.keys k w isHeld
  · intro tx' r' pends isUsed
    obtain ⟨r₀, stored₀, rest⟩ := chained.claims tx' r' (pends_old pends) isUsed
    exact ⟨r₀, (stored_iff r₀).mpr stored₀, rest⟩
  · intro tx' r' r₀ pends new stored₀ unused₀ same
    exact holds (chained.newest tx' r' r₀ (pends_old pends) new ((stored_iff r₀).mp stored₀) unused₀
      same)
  · intro tx' r' pends new
    rcases chained.anchored tx' r' (pends_old pends) new with ⟨r₀, stored₀, unused₀, family, isHeld⟩ | first
    · exact .inl ⟨r₀, (stored_iff r₀).mpr stored₀, unused₀, family, holds isHeld⟩
    · exact .inr fun r₀ stored₀ => first r₀ ((stored_iff r₀).mp stored₀)

theorem rollback (chained : Chained s) : Chained (s.setDb (s.db.rollback tx)) := by
  set s' := s.setDb (s.db.rollback tx) with isAfter
  have ended : s.Ended tx s' := Server.ended_rollback
  have stored_iff : ∀ r', s'.Stored r' ↔ s.Stored r' := fun r' =>
    Server.stored_of_committed Database.committed_rollback
  have pends_old : ∀ {tx' r'}, s'.Pends tx' r' → s.Pends tx' r' := fun pends =>
    (ended.pends.mp pends).2
  have version : ∀ {r'}, s'.Version r' → s.Version r' := by
    rintro r' (isStored | ⟨tx', pends⟩)
    · exact .inl ((stored_iff r').mp isStored)
    · exact .inr ⟨tx', pends_old pends⟩
  refine ⟨fun r' isVersion => chained.drawn r' (version isVersion), ?_,
    fun r₁ r₂ first second => chained.hashes r₁ r₂ (version first) (version second),
    fun r₁ r₂ first second => chained.owner r₁ r₂ (version first) (version second),
    fun r₁ r₂ first second => chained.single r₁ r₂ ((stored_iff r₁).mp first) ((stored_iff r₂).mp second),
    ?_, ?_, fun tx₁ tx₂ r₁ r₂ pends new pends' => chained.alone tx₁ tx₂ r₁ r₂ (pends_old pends) new
      (pends_old pends'), ?_, fun tx' r' r₀ pends new stored₀ => chained.unique tx' r' r₀
      (pends_old pends) new ((stored_iff r₀).mp stored₀)⟩
  · intro k w isHeld
    rw [ended k] at isHeld
    exact chained.keys k w (Option.filter_eq_some_iff.mp isHeld).1
  · intro tx' r' pends isUsed
    obtain ⟨r₀, stored₀, rest⟩ := chained.claims tx' r' (pends_old pends) isUsed
    exact ⟨r₀, (stored_iff r₀).mpr stored₀, rest⟩
  · intro tx' r' r₀ pends new stored₀ unused₀ same
    obtain ⟨other, old⟩ := ended.pends.mp pends
    exact ended.holds.mpr ⟨other, chained.newest tx' r' r₀ old new ((stored_iff r₀).mp stored₀)
      unused₀ same⟩
  · intro tx' r' pends new
    obtain ⟨other, old⟩ := ended.pends.mp pends
    rcases chained.anchored tx' r' old new with ⟨r₀, stored₀, unused₀, family, isHeld⟩ | first
    · exact .inl ⟨r₀, (stored_iff r₀).mpr stored₀, unused₀, family, ended.holds.mpr ⟨other, isHeld⟩⟩
    · exact .inr fun r₀ stored₀ => first r₀ ((stored_iff r₀).mp stored₀)

theorem commit (chained : Chained s) : Chained (s.setDb (s.db.commit tx)) := by
  set s' := s.setDb (s.db.commit tx) with isAfter
  have ended : s.Ended tx s' := Server.ended_commit
  have stored_iff : ∀ {r'}, s'.Stored r' ↔ s.Pends tx r' ∨ s.Stored r' ∧ ¬s.Holds tx r' :=
    Server.stored_commit
  have version : ∀ {r'}, s'.Version r' → s.Version r' := by
    rintro r' (isStored | ⟨tx', pends⟩)
    · rcases stored_iff.mp isStored with pends | ⟨stored, _⟩
      · exact .inr ⟨tx, pends⟩
      · exact .inl stored
    · exact .inr ⟨tx', (ended.pends.mp pends).2⟩
  refine ⟨fun r' isVersion => chained.drawn r' (version isVersion), ?_,
    fun r₁ r₂ first second => chained.hashes r₁ r₂ (version first) (version second),
    fun r₁ r₂ first second => chained.owner r₁ r₂ (version first) (version second), ?_, ?_, ?_, ?_, ?_, ?_⟩
  · intro k w isHeld
    rw [ended k] at isHeld
    exact chained.keys k w (Option.filter_eq_some_iff.mp isHeld).1
  · intro r₁ r₂ first second unused₁ unused₂ same
    rcases stored_iff.mp first with pends₁ | ⟨stored₁, free₁⟩
    · rcases stored_iff.mp second with pends₂ | ⟨stored₂, free₂⟩
      · exact ((chained.alone tx tx r₁ r₂ pends₁ unused₁ pends₂ same.symm).2 unused₂).symm
      · exact absurd (chained.newest tx r₁ r₂ pends₁ unused₁ stored₂ unused₂ same.symm) free₂
    · rcases stored_iff.mp second with pends₂ | ⟨stored₂, _⟩
      · exact absurd (chained.newest tx r₂ r₁ pends₂ unused₂ stored₁ unused₁ same) free₁
      · exact chained.single r₁ r₂ stored₁ stored₂ unused₁ unused₂ same
  · intro tx' r' pends isUsed
    obtain ⟨other, old⟩ := ended.pends.mp pends
    obtain ⟨r₀, stored₀, unused₀, id, rest⟩ := chained.claims tx' r' old isUsed
    refine ⟨r₀, stored_iff.mpr (.inr ⟨stored₀, fun holds => other ?_⟩), unused₀, id, rest⟩
    exact old.holds.unique holds id.symm
  · intro tx' r' r₀ pends new stored₀ unused₀ same
    obtain ⟨other, old⟩ := ended.pends.mp pends
    refine ended.holds.mpr ⟨other, ?_⟩
    rcases stored_iff.mp stored₀ with pends₀ | ⟨stored₀, _⟩
    · exact absurd (chained.alone tx' tx r' r₀ old new pends₀ same).1.symm other
    · exact chained.newest tx' r' r₀ old new stored₀ unused₀ same
  · intro tx₁ tx₂ r₁ r₂ pends new pends' same
    exact chained.alone tx₁ tx₂ r₁ r₂ (ended.pends.mp pends).2 new (ended.pends.mp pends').2 same
  · intro tx' r' pends new
    obtain ⟨other, old⟩ := ended.pends.mp pends
    rcases chained.anchored tx' r' old new with ⟨r₀, stored₀, unused₀, family, isHeld⟩ | first
    · have kept : s'.Stored r₀ := stored_iff.mpr (.inr ⟨stored₀, fun mine =>
        other (isHeld.unique mine rfl)⟩)
      exact .inl ⟨r₀, kept, unused₀, family, ended.holds.mpr ⟨other, isHeld⟩⟩
    · refine .inr fun r₀ stored₀ same => ?_
      rcases stored_iff.mp stored₀ with pends₀ | ⟨stored₀, _⟩
      · exact other (chained.alone tx' tx r' r₀ old new pends₀ same).1.symm
      · exact first r₀ stored₀ same
  · intro tx' r' r₀ pends new stored₀ same
    obtain ⟨other, old⟩ := ended.pends.mp pends
    rcases stored_iff.mp stored₀ with pends₀ | ⟨stored₀, _⟩
    · exact other (old.holds.unique pends₀.holds same.symm)
    · exact chained.unique tx' r' r₀ old new stored₀ same

/-- A row somebody sees, and nobody else holds. -/
theorem free_of_unlocked {k : Nat} (unlocked : s.db.locked tx k = false) (isKey : r.key = k)
    {tx' : Tx} (holds : s.Holds tx' r) : tx' = tx := by
  obtain ⟨version, isHeld⟩ := holds
  rw [isKey] at isHeld
  simpa [Database.locked, isHeld] using unlocked

theorem step {op : Op} {result : op.Res} (chained : Chained s) (outcome : Outcome t s op result s')
    (fine : Fine t s op) : Chained s' := by
  cases outcome with
  | same same _ => exact chained.of_same same
  | @used scope target now id _ _ r seen unlocked _ matched isAfter =>
      subst isAfter
      obtain ⟨⟨h, now', rfl⟩, noneNew⟩ := fine
      have unused : r.usedAt = none := by
        have both : r.usedAt.isNone = true := by
          simp only [Target.holds, Bool.and_eq_true] at matched
          exact matched.1.2
        simpa using both
      rcases (Server.of_view seen).2 with pends | ⟨stored, notMine⟩
      · exact absurd unused (noneNew r pends)
      · refine chained.mark stored unused (fun tx' holds => ?_) now
        exact notMine (free_of_unlocked unlocked rfl holds ▸ holds)
  | erased r seen unlocked _ _ isAfter =>
      subst isAfter
      refine chained.erase ?_ fun tx' holds => free_of_unlocked unlocked rfl holds
      rcases (Server.of_view seen).2 with pends | ⟨stored, _⟩
      · exact .inr ⟨_, pends⟩
      · exact .inl stored
  | @saved userId expiresAt familyId _ _ r drawn new isUser newId newToken newDrawn isFamily isAfter =>
      subst isAfter isUser
      cases familyId with
      | none =>
          have isFamily : r.familyId = drawn := isFamily
          exact chained.insert new newId newToken (.inl (isFamily ▸ newDrawn)) rfl
            (isFamily ▸ List.mem_cons_self) rfl rfl
      | some F =>
          have isFamily : r.familyId = F := isFamily
          obtain ⟨noneNew, claim, claimed, isUsed, family, user⟩ := fine
          have known : r.familyId ∈ s.uuids :=
            isFamily ▸ family ▸ (chained.drawn claim (.inr ⟨_, claimed⟩)).2.1
          exact chained.insert new newId newToken
            (.inr ⟨noneNew, claim, claimed, isUsed, family.trans isFamily.symm, user⟩) rfl
            (List.mem_cons_of_mem _ known) rfl rfl
  | committed isAfter => exact isAfter ▸ chained.commit
  | closed _ _ isAfter => exact isAfter ▸ chained.rollback

end Chained

end Auth
