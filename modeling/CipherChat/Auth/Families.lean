import CipherChat.Auth.Chain

/-!
What stays true of a token and of a family whatever happens to the table: to whom they belong,
that a token is spent, that a family is gone.
-/

namespace Auth

open Async ReadCommitted
open Rooms (UUID Instant JavaError)

/-- The token belongs to this family and user. -/
def Known (s : Server) (h : TokenHash) (familyId userId : UUID) : Prop :=
  h.raw ∈ s.raws ∧ ∀ r, s.Version r → r.tokenHash = h → r.familyId = familyId ∧ r.userId = userId

/-- The family belongs to this user. -/
def Owned (s : Server) (familyId userId : UUID) : Prop :=
  familyId ∈ s.uuids ∧ ∀ r, s.Version r → r.familyId = familyId → r.userId = userId

/-- The token will not be rotated any more. -/
def Spent (s : Server) (h : TokenHash) : Prop :=
  h.raw ∈ s.raws ∧ ∀ r, s.Version r → r.tokenHash = h → r.usedAt ≠ none

/-- No row of the family is there, and none will be. -/
def Dead (s : Server) (familyId : UUID) : Prop :=
  familyId ∈ s.uuids ∧ ∀ r, s.Version r → r.familyId ≠ familyId

/-- The family has been committed: whoever adds a row to it continues it. -/
def Surfaced (s : Server) (familyId : UUID) : Prop :=
  familyId ∈ s.uuids ∧ ∀ tx r, s.Pends tx r → r.usedAt = none → r.familyId = familyId →
    ∃ r₀, s.Stored r₀ ∧ r₀.familyId = familyId

/-- The same token, at a later time. -/
structure Alike (r r' : RefreshToken) : Prop where
  id : r'.id = r.id
  userId : r'.userId = r.userId
  tokenHash : r'.tokenHash = r.tokenHash
  familyId : r'.familyId = r.familyId
  used : r.usedAt ≠ none → r'.usedAt ≠ none

theorem Alike.refl (r : RefreshToken) : Alike r r :=
  ⟨rfl, rfl, rfl, rfl, fun used => used⟩

/-- A row with a token of its own, which starts a family or continues one that is there. -/
structure Newcomer (s : Server) (r : RefreshToken) : Prop where
  token : r.tokenHash.raw ∉ s.raws
  family : r.familyId ∉ s.uuids ∨ ∃ claim r₀, s.Version claim ∧ claim.familyId = r.familyId ∧
    claim.userId = r.userId ∧ s.Stored r₀ ∧ r₀.familyId = r.familyId

section Step

variable {t : Nat} {s s' : Server} {op : Op} {result : op.Res}

theorem Outcome.uuids_subset (outcome : Outcome t s op result s') : s.uuids ⊆ s'.uuids := by
  cases outcome with
  | same same _ => rw [same.uuids]; exact List.Subset.refl _
  | saved r drawn _ _ _ _ _ _ isAfter =>
      subst isAfter
      exact fun id member => List.mem_cons_of_mem _ (List.mem_cons_of_mem _ member)
  | used _ _ _ _ _ isAfter | erased _ _ _ _ _ isAfter | committed isAfter | closed _ _ isAfter =>
      subst isAfter
      exact List.Subset.refl _

theorem Outcome.raws_subset (outcome : Outcome t s op result s') : s.raws ⊆ s'.raws := by
  cases outcome with
  | same same _ => rw [same.raws]; exact List.Subset.refl _
  | saved r drawn _ _ _ _ _ _ isAfter =>
      subst isAfter
      exact fun raw member => List.mem_cons_of_mem _ member
  | used _ _ _ _ _ isAfter | erased _ _ _ _ _ isAfter | committed isAfter | closed _ _ isAfter =>
      subst isAfter
      exact List.Subset.refl _

theorem newcomer (chained : Chained s) {userId : UUID} {expiresAt : Instant} {familyId : Option UUID}
    {r : RefreshToken} {drawn : UUID} (fine : Fine t s (.save userId expiresAt familyId))
    (isUser : r.userId = userId) (newToken : r.tokenHash.raw ∉ s.raws) (newDrawn : drawn ∉ s.uuids)
    (isFamily : r.familyId = familyId.getD drawn) : Newcomer s r := by
  refine ⟨newToken, ?_⟩
  cases familyId with
  | none => exact .inl (by rw [isFamily]; exact newDrawn)
  | some F =>
      have isFamily : r.familyId = F := isFamily
      obtain ⟨_, claim, claimed, isUsed, family, user⟩ := fine
      obtain ⟨r₀, stored₀, _, _, family₀, _⟩ := chained.claims _ claim claimed isUsed
      exact .inr ⟨claim, r₀, .inr ⟨_, claimed⟩, family.trans isFamily.symm, user.trans isUser.symm,
        stored₀, (family₀.trans family).trans isFamily.symm⟩

/-- Where a version comes from. -/
theorem version_of (chained : Chained s) (outcome : Outcome t s op result s') (fine : Fine t s op)
    {r' : RefreshToken} (version : s'.Version r') :
    (∃ r, s.Version r ∧ Alike r r') ∨ Newcomer s r' := by
  cases outcome with
  | same same _ =>
      refine .inl ⟨r', ?_, .refl r'⟩
      simpa only [Server.Version, Server.Stored, Server.Pends, same.db] using version
  | @used scope target now id _ _ r seen _ _ _ isAfter =>
      subst isAfter
      rcases version with stored | ⟨tx, pends⟩
      · exact .inl ⟨r', .inl ((Server.stored_of_committed rfl).mp stored), .refl r'⟩
      · rcases (Server.pends_write rfl).mp pends with ⟨_, rfl⟩ | ⟨_, old⟩
        · refine .inl ⟨r, ?_, rfl, rfl, rfl, rfl, fun _ => Option.some_ne_none _⟩
          exact (Server.of_view seen).2.elim (fun mine => .inr ⟨_, mine⟩) fun stored => .inl stored.1
        · exact .inl ⟨r', .inr ⟨tx, old⟩, .refl r'⟩
  | erased r _ _ _ _ isAfter =>
      subst isAfter
      refine .inl ⟨r', ?_, .refl r'⟩
      rcases version with stored | ⟨tx, pends⟩
      · exact .inl ((Server.stored_of_committed rfl).mp stored)
      · exact .inr ⟨tx, ((Server.pends_erase rfl).mp pends).2⟩
  | saved r drawn _ isUser _ newToken newDrawn isFamily isAfter =>
      subst isAfter
      rcases version with stored | ⟨tx, pends⟩
      · exact .inl ⟨r', .inl ((Server.stored_of_committed rfl).mp stored), .refl r'⟩
      · rcases (Server.pends_write rfl).mp pends with ⟨_, rfl⟩ | ⟨_, old⟩
        · exact .inr (newcomer chained fine isUser newToken newDrawn isFamily)
        · exact .inl ⟨r', .inr ⟨tx, old⟩, .refl r'⟩
  | committed isAfter =>
      subst isAfter
      refine .inl ⟨r', ?_, .refl r'⟩
      rcases version with stored | ⟨tx, pends⟩
      · rcases Server.stored_commit.mp stored with pends | ⟨stored, _⟩
        · exact .inr ⟨_, pends⟩
        · exact .inl stored
      · exact .inr ⟨tx, (Server.ended_commit.pends.mp pends).2⟩
  | closed _ _ isAfter =>
      subst isAfter
      refine .inl ⟨r', ?_, .refl r'⟩
      rcases version with stored | ⟨tx, pends⟩
      · exact .inl ((Server.stored_of_committed rfl).mp stored)
      · exact .inr ⟨tx, (Server.ended_rollback.pends.mp pends).2⟩

variable (chained : Chained s) (outcome : Outcome t s op result s') (fine : Fine t s op)
include chained outcome fine

theorem Known.step {h : TokenHash} {familyId userId : UUID} (known : Known s h familyId userId) :
    Known s' h familyId userId := by
  refine ⟨outcome.raws_subset known.1, fun r' version isToken => ?_⟩
  rcases version_of chained outcome fine version with ⟨r, old, alike⟩ | newcomer
  · rw [alike.familyId, alike.userId]
    exact known.2 r old (alike.tokenHash.symm.trans isToken)
  · exact absurd (isToken ▸ known.1) newcomer.token

theorem Owned.step {familyId userId : UUID} (owned : Owned s familyId userId) :
    Owned s' familyId userId := by
  refine ⟨outcome.uuids_subset owned.1, fun r' version isFamily => ?_⟩
  rcases version_of chained outcome fine version with ⟨r, old, alike⟩ | newcomer
  · rw [alike.userId]
    exact owned.2 r old (alike.familyId.symm.trans isFamily)
  · rcases newcomer.family with fresh | ⟨claim, _, old, family, user, _⟩
    · exact absurd (isFamily ▸ owned.1) fresh
    · rw [← user]
      exact owned.2 claim old (family.trans isFamily)

theorem Spent.step {h : TokenHash} (spent : Spent s h) : Spent s' h := by
  refine ⟨outcome.raws_subset spent.1, fun r' version isToken => ?_⟩
  rcases version_of chained outcome fine version with ⟨r, old, alike⟩ | newcomer
  · exact alike.used (spent.2 r old (alike.tokenHash.symm.trans isToken))
  · exact absurd (isToken ▸ spent.1) newcomer.token

theorem Dead.step {familyId : UUID} (dead : Dead s familyId) : Dead s' familyId := by
  refine ⟨outcome.uuids_subset dead.1, fun r' version isFamily => ?_⟩
  rcases version_of chained outcome fine version with ⟨r, old, alike⟩ | newcomer
  · exact dead.2 r old (alike.familyId.symm.trans isFamily)
  · rcases newcomer.family with fresh | ⟨claim, _, old, family, _⟩
    · exact fresh (isFamily ▸ dead.1)
    · exact dead.2 claim old (family.trans isFamily)

theorem Surfaced.step {familyId : UUID} (surfaced : Surfaced s familyId) : Surfaced s' familyId := by
  refine ⟨outcome.uuids_subset surfaced.1, fun tx r pends new isFamily => ?_⟩
  have anchor (old : s.Pends tx r) : ∃ r₀, s.Stored r₀ ∧ r₀.familyId = familyId ∧ s.Holds tx r₀ := by
    obtain ⟨r₀, stored₀, family₀⟩ := surfaced.2 tx r old new isFamily
    rcases chained.anchored tx r old new with ⟨r₁, stored₁, _, family₁, holds⟩ | first
    · exact ⟨r₁, stored₁, family₁.trans isFamily, holds⟩
    · exact absurd (family₀.trans isFamily.symm) (first r₀ stored₀)
  cases outcome with
  | same same _ =>
      simp only [Server.Stored, Server.Pends, same.db] at pends ⊢
      exact surfaced.2 tx r pends new isFamily
  | used r₁ _ _ _ _ isAfter =>
      subst isAfter
      rcases (Server.pends_write rfl).mp pends with ⟨_, rfl⟩ | ⟨_, old⟩
      · cases new
      · exact surfaced.2 tx r old new isFamily
  | erased r₁ _ _ _ _ isAfter =>
      subst isAfter
      exact surfaced.2 tx r ((Server.pends_erase rfl).mp pends).2 new isFamily
  | saved r₁ drawn _ isUser _ newToken newDrawn isFamily' isAfter =>
      subst isAfter
      rcases (Server.pends_write rfl).mp pends with ⟨_, rfl⟩ | ⟨_, old⟩
      · rcases (newcomer chained fine isUser newToken newDrawn isFamily').family with
          fresh | ⟨_, r₀, _, _, _, stored₀, family₀⟩
        · exact absurd (isFamily ▸ surfaced.1) fresh
        · exact ⟨r₀, stored₀, family₀.trans isFamily⟩
      · exact surfaced.2 tx r old new isFamily
  | committed isAfter =>
      subst isAfter
      obtain ⟨other, old⟩ := Server.ended_commit.pends.mp pends
      obtain ⟨r₀, stored₀, family₀, holds⟩ := anchor old
      exact ⟨r₀, Server.stored_commit.mpr (.inr ⟨stored₀, fun mine => other (holds.unique mine rfl)⟩),
        family₀⟩
  | closed _ _ isAfter =>
      subst isAfter
      exact surfaced.2 tx r (Server.ended_rollback.pends.mp pends).2 new isFamily

end Step

/-- A family with a row in the table has been committed. -/
theorem Chained.surfaced {s : Server} (chained : Chained s) {r : RefreshToken} (stored : s.Stored r) :
    Surfaced s r.familyId :=
  ⟨(chained.drawn r (.inl stored)).2.1, fun _ _ _ _ _ => ⟨r, stored, rfl⟩⟩

/-- A committed family of which no row is left will have none. -/
theorem Surfaced.dead {s : Server} {familyId : UUID} (surfaced : Surfaced s familyId)
    (chained : Chained s) (gone : ∀ r, s.Stored r → r.familyId ≠ familyId) : Dead s familyId := by
  refine ⟨surfaced.1, fun r version family => ?_⟩
  rcases version with stored | ⟨tx, pends⟩
  · exact gone r stored family
  · by_cases new : r.usedAt = none
    · obtain ⟨r₀, stored₀, family₀⟩ := surfaced.2 tx r pends new family
      exact gone r₀ stored₀ family₀
    · obtain ⟨r₀, stored₀, _, _, family₀, _⟩ := chained.claims tx r pends new
      exact gone r₀ stored₀ (family₀.trans family)

/-- A row of the table tells what all versions of its token are. -/
theorem Chained.known {s : Server} (chained : Chained s) {r : RefreshToken} (stored : s.Stored r) :
    Known s r.tokenHash r.familyId r.userId := by
  refine ⟨(chained.drawn r (.inl stored)).2.2, fun r' version same => ?_⟩
  have sameId : r'.id = r.id := chained.hashes r' r version (.inl stored) same
  have family : r'.familyId = r.familyId := by
    rcases version with stored' | ⟨tx, pends⟩
    · rw [stored'.eq stored sameId]
    · by_cases new : r'.usedAt = none
      · exact absurd sameId.symm (chained.unique tx r' r pends new stored)
      · obtain ⟨r₀, stored₀, _, id₀, family₀, _⟩ := chained.claims tx r' pends new
        rw [← family₀, stored₀.eq stored (id₀.trans sameId)]
  exact ⟨family, chained.owner r' r version (.inl stored) family⟩

theorem Chained.owned {s : Server} (chained : Chained s) {r : RefreshToken} (version : s.Version r) :
    Owned s r.familyId r.userId :=
  ⟨(chained.drawn r version).2.1, fun r' version' same => chained.owner r' r version' version same⟩

end Auth
