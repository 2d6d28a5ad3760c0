import CipherChat.Auth.Conduct

/-!
A revocation keeps the contract: when it commits it holds every row of the family that was
there at its snapshot, and so every row there is, unless the family was continued meanwhile.
-/

namespace Auth

open Async ReadCommitted
open Rooms (UUID Instant JavaError)

variable {permits : History → Event → Prop} {t : Nat} {request : Call} {α β : Type}

/-- Every row of the family is one the statement is about. -/
def Covered (s : Server) (F : UUID) : Target → Prop
  | .family familyId => F = familyId
  | .others userId keepFamily => Owned s F userId ∧ F ≠ keepFamily
  | .user userId => Owned s F userId
  | _ => False

theorem Covered.holds {s : Server} {F : UUID} {target : Target} (covered : Covered s F target)
    {r : RefreshToken} (version : s.Version r) (family : r.familyId = F) : target.holds r = true := by
  cases target with
  | family familyId =>
      have isFamily : F = familyId := covered
      simp [Target.holds, family, isFamily]
  | others userId keepFamily =>
      have user := covered.1.2 r version family
      simp [Target.holds, user, family, covered.2]
  | user userId => simpa [Target.holds] using covered.2 r version family
  | unused | row | expired => exact covered.elim

/-- A deletion has found the rows of these families, and `ids` are left. -/
structure Dooming (t : Nat) (scope : Scope) (target : Target) (families ids : List UUID)
    (j : History) : Prop where
  revoking : revoking scope (j.log t) = families
  deletes : Deletes j.state (t, scope)
  covered : ∀ F ∈ families, Covered j.state F target
  doomed : ∀ F ∈ families, Disturbed j.past F ∨ Doomed j.state (t, scope) F ids

theorem Doomed.rely {j j' : History} {scope : Scope} {F : UUID} {ids : List UUID}
    (rely : Rely t j j') (begun : F ∈ Auth.revoking scope (j.log t))
    (doomed : Doomed j.state (t, scope) F ids) :
    Disturbed j'.past F ∨ Doomed j'.state (t, scope) F ids := by
  refine (rely.doomed scope F begun).imp_right fun fewer => ⟨rely.surfaced F doomed.1, ?_⟩
  intro r' stored' family'
  obtain ⟨r, stored, id, family⟩ := fewer r' stored' family'
  rw [← id, ← RefreshToken.key_injective.mpr id]
  exact (doomed.2 r stored family).imp_right (rely.held ..).mpr

theorem stable_dooming {scope : Scope} {target : Target} {families ids : List UUID} :
    Stable t (Dooming t scope target families ids) := by
  intro j j' rely dooming
  refine ⟨(rely.revoking scope).trans dooming.revoking, fun r pends =>
    dooming.deletes r (rely.pends.mp pends), fun F member => ?_, fun F member => ?_⟩
  · have covered := dooming.covered F member
    cases target with
    | family => exact covered
    | others userId keepFamily => exact ⟨rely.owned F userId covered.1, covered.2⟩
    | user userId => exact rely.owned F userId covered
    | unused | row | expired => exact covered.elim
  · rcases dooming.doomed F member with disturbed | doomed
    · exact .inl (disturbed.mono rely.past)
    · exact doomed.rely rely (dooming.revoking ▸ member)

theorem Dooming.revokes {scope : Scope} {target : Target} {families : List UUID} {j : History}
    (dooming : Dooming t scope target families [] j) : Revokes t scope j := by
  refine .inr ⟨dooming.deletes, fun F member => dooming.doomed F ?_⟩
  rw [← dooming.revoking]
  exact member

theorem stable_revokes {scope : Scope} : Stable t (Revokes t scope) := by
  intro j j' rely revokes
  unfold Revokes
  rw [rely.revoking scope]
  refine revokes.imp_right fun ⟨deletes, doomed⟩ => ⟨fun r pends => deletes r (rely.pends.mp pends), ?_⟩
  intro F member
  rcases doomed F member with disturbed | doomed
  · exact .inl (disturbed.mono rely.past)
  · exact doomed.rely rely member

/-- A transaction that has not begun. -/
structure Blank (t : Nat) (scope : Scope) (j : History) : Prop where
  unwritten : ∀ k version, j.state.db.held k ≠ some ((t, scope), version)
  silent : revoking scope (j.log t) = []

theorem stable_blank {scope : Scope} : Stable t (Blank t scope) :=
  fun _ _ rely blank => ⟨fun k version isHeld => blank.unwritten k version
    ((rely.held k scope version).mp isHeld), (rely.revoking scope).trans blank.silent⟩

theorem Ready.blank {j : History} (ready : Ready t j) (scope : Scope) : Blank t scope j :=
  ⟨fun k => ready.unwritten k scope, ready.idle scope⟩

theorem Blank.free {scope : Scope} {j : History} (blank : Blank t scope j) (r : RefreshToken) :
    ¬j.state.Holds (t, scope) r :=
  fun ⟨version, isHeld⟩ => blank.unwritten r.key version isHeld

/-- Before it has written anything a transaction sees the table. -/
theorem Blank.visible {scope : Scope} {j : History} (blank : Blank t scope j) {r : RefreshToken} :
    r ∈ j.state.db.visible (t, scope) ↔ j.state.Stored r := by
  rw [Database.mem_visible]
  constructor
  · intro seen
    rcases (Server.of_view seen).2 with pends | ⟨stored, _⟩
    · exact absurd pends.holds (blank.free r)
    · exact stored
  · exact fun stored => stored.seen (blank.free r)

/-- Every row of the family is among those still to be deleted, or deleted by the transaction. -/
def Listed (s : Server) (tx : Tx) (F : UUID) (ids : List UUID) : Prop :=
  ∀ r, s.Stored r → r.familyId = F → r.id ∈ ids ∨ s.db.held r.key = some (tx, none)

section Modify

variable {s s' : Server} {scope : Scope} {condition : Target} {id : UUID} {n : Nat}
  (modified : s.modify t scope condition .delete id = some (n, s'))
include modified

theorem Deletes.delete (deletes : Deletes s (t, scope)) : Deletes s' (t, scope) := by
  obtain ⟨_, ⟨_, rfl, _⟩ | ⟨_, r₁, _, _, _, rfl⟩⟩ := modify_some modified
  · exact deletes
  · exact fun r pends => deletes r ((Server.pends_erase (by rfl)).mp pends).2

/-- One row of a deletion, under a condition that every row of the family meets. -/
theorem Listed.delete {F : UUID} {rest : List UUID} (deletes : Deletes s (t, scope))
    (listed : Listed s (t, scope) F (id :: rest))
    (meets : ∀ r, s.Stored r → r.familyId = F → r.id = id → condition.holds r = true) :
    Listed s' (t, scope) F rest := by
  obtain ⟨_, ⟨_, rfl, missing⟩ | ⟨_, r₁, _, isId, _, rfl⟩⟩ := modify_some modified
  · intro r stored family
    refine (listed r stored family).elim (fun listed => ?_) .inr
    rcases List.mem_cons.mp listed with isId | listed
    · -- the row is there and meets the condition: it was passed over because it is deleted
      by_cases holds : s'.Holds (t, scope) r
      · obtain ⟨version, isHeld⟩ := holds
        cases version with
        | none => exact .inr isHeld
        | some r' =>
            have pends : s'.Pends (t, scope) r' := by
              rw [Server.Pends, show r'.key = r.key from Database.named isHeld]
              exact isHeld
            exact absurd pends (deletes r')
      · have passed := missing r (stored.seen holds) isId
        rw [meets r stored family isId] at passed
        cases passed
    · exact .inl listed
  · intro r stored family
    have stored : s.Stored r := (Server.stored_of_committed rfl).mp stored
    change _ ∨ (s.db.erase (t, scope) r₁.key).held r.key = some ((t, scope), none)
    rw [Database.held_erase]
    split
    · exact .inr rfl
    next other =>
      refine (listed r stored family).imp_left fun listed => ?_
      rcases List.mem_cons.mp listed with isId' | listed
      · exact absurd (RefreshToken.key_injective.mpr (isId.trans isId'.symm)) other
      · exact listed

end Modify

section Statement

variable {scope : Scope} {target : Target}

/-- What a deletion is about, and by family only one that has been committed. -/
def Deletable (s : Server) : Target → Prop
  | .family familyId => Surfaced s familyId
  | .others .. | .user _ => True
  | _ => False

theorem stable_deletable : Stable t fun j => Deletable j.state target := by
  intro j j' rely deletable
  cases target with
  | family familyId => exact rely.surfaced familyId deletable
  | _ => exact deletable

/-- The families of the rows found are all there is to the user's other sessions. -/
theorem covered_of_found {s : Server} (chained : Chained s) (deletable : Deletable s target)
    {rows : List RefreshToken} (found : ∀ r, r ∈ rows ↔ s.Stored r ∧ target.holds r = true)
    {F : UUID} (member : F ∈ target.revoked rows) : Covered s F target ∧ Surfaced s F := by
  cases target with
  | family familyId =>
      obtain rfl := List.mem_singleton.mp member
      exact ⟨rfl, deletable⟩
  | others userId keepFamily =>
      obtain ⟨r, listed, rfl⟩ := List.mem_map.mp member
      obtain ⟨stored, matched⟩ := (found r).mp listed
      obtain ⟨isUser, other⟩ : r.userId = userId ∧ r.familyId ≠ keepFamily := by
        simpa [Target.holds] using matched
      exact ⟨⟨isUser ▸ chained.owned (.inl stored), other⟩, chained.surfaced stored⟩
  | user userId =>
      obtain ⟨r, listed, rfl⟩ := List.mem_map.mp member
      obtain ⟨stored, matched⟩ := (found r).mp listed
      have isUser : r.userId = userId := by simpa [Target.holds] using matched
      exact ⟨isUser ▸ chained.owned (.inl stored), chained.surfaced stored⟩
  | unused | row | expired => exact deletable.elim

theorem guides_select :
    Guides permits t request (fun j => Blank t scope j ∧ Deletable j.state target)
      (call (.select scope target)) fun rows =>
        Dooming t scope target (target.revoked rows) (rows.map RefreshToken.id) := by
  refine guides_call (stable_blank.and stable_deletable) fun j kept _ ⟨blank, deletable⟩ =>
    ⟨⟨trivial, trivial⟩, fun rows s' exec => ?_⟩
  obtain ⟨_, effected⟩ := exec.effect_of_ok
  obtain ⟨isRows, rfl⟩ := Prod.mk.inj (Option.some.inj effected)
  obtain rfl := Except.ok.inj isRows
  have found : ∀ r, r ∈ (j.state.db.visible (t, scope)).filter (fun r => target.holds r) ↔
      j.state.Stored r ∧ target.holds r = true := fun r => by
    rw [List.mem_filter, blank.visible]
  refine ⟨?_, fun r pends => blank.free r pends.holds, fun F member =>
    (covered_of_found kept.chained deletable found member).1, fun F member => .inr ?_⟩
  · rw [answered_log]
    simp [Auth.revoking, blank.silent]
  · obtain ⟨covered, surfaced⟩ := covered_of_found kept.chained deletable found member
    refine ⟨surfaced, fun r stored family => .inl (List.mem_map_of_mem ((found r).mpr ⟨stored, ?_⟩))⟩
    exact covered.holds (.inl stored) family

/-- One row of the deletion, under a condition that every row of the families meets. -/
theorem guides_delete {families rest : List UUID} {id : UUID} {condition : Target}
    (meets : ∀ j F r, Covered j F target → j.Stored r → r.familyId = F → r.id = id →
      condition.holds r = true) :
    Guides permits t request (Dooming t scope target families (id :: rest))
      (call (.modify scope condition .delete id)) fun _ => Dooming t scope target families rest := by
  refine guides_call stable_dooming fun j kept _ dooming => ⟨⟨trivial, trivial⟩, fun n s' exec => ?_⟩
  have revoking : Auth.revoking scope ((answered request t j _ n s').log t) = families := by
    rw [answered_log]
    exact dooming.revoking
  have later : j.past <:+ (answered request t j _ n s').past := List.suffix_cons _ _
  have fine : Fine t j.state (.modify scope condition .delete id) := trivial
  refine ⟨revoking, dooming.deletes.delete exec.modify_ok, fun F member => ?_, fun F member => ?_⟩
  · have covered := dooming.covered F member
    cases target with
    | family => exact covered
    | others userId keepFamily => exact ⟨covered.1.step kept.chained exec.outcome fine, covered.2⟩
    | user userId => exact covered.step kept.chained exec.outcome fine
    | unused | row | expired => exact covered.elim
  · rcases dooming.doomed F member with disturbed | ⟨surfaced, listed⟩
    · exact .inl (disturbed.mono later)
    refine .inr ⟨surfaced.step kept.chained exec.outcome fine, ?_⟩
    exact Listed.delete exec.modify_ok dooming.deletes listed fun r stored family isId =>
      meets j.state F r (dooming.covered F member) stored family isId

theorem guides_deleteEach {families : List UUID} (ids : List UUID) :
    Guides permits t request (Dooming t scope target families ids)
      (modifyEach scope target .delete ids) fun _ => Dooming t scope target families [] := by
  induction ids with
  | nil => exact guides_pure fun _ dooming => dooming
  | cons id rest ih =>
      refine guides_bind _ (guides_delete ?_) fun n => guides_bind _ ih fun m => ?_
      · exact fun s F r covered stored family _ => covered.holds (.inl stored) family
      · exact guides_pure fun _ dooming => dooming

theorem guides_deleting :
    Guides permits t request (fun j => Blank t scope j ∧ Deletable j.state target)
      (modifying scope target .delete) fun _ => Revokes t scope :=
  guides_bind _ guides_select fun _ =>
    (guides_deleteEach _).weaken (fun _ dooming => dooming) fun _ _ dooming => dooming.revokes

theorem guides_removeEach {userId : UUID} {families : List UUID} (ids : List UUID) :
    Guides permits t request (Dooming t .main (.user userId) families ids) (removeEach ids)
      fun _ => Dooming t .main (.user userId) families [] := by
  induction ids with
  | nil => exact guides_pure fun _ dooming => dooming
  | cons id rest ih =>
      refine guides_bind _ (guides_delete ?_) fun n => ?_
      · exact fun s F r _ _ _ isId => by simpa [Target.holds] using isId
      · split
        · exact ih
        · exact guides_throw

theorem guides_deleteByUserId (userId : UUID) :
    Guides permits t request (Blank t .main) (deleteByUserId userId) fun _ => Revokes t .main :=
  guides_bind _ (guides_select.weaken (fun _ blank => ⟨blank, trivial⟩) fun _ _ dooming => dooming)
    fun _ => (guides_removeEach _).weaken (fun _ dooming => dooming)
      fun _ _ dooming => dooming.revokes

end Statement

section Requests

variable {scope : Scope}

/-- A row that is found is in the table: its family has been committed. -/
theorem guides_find (h : TokenHash) :
    Guides permits t request (Ready t) (call (.findByTokenHash h)) fun found j => Ready t j ∧
      ∀ r, found = some r → Known j.state h r.familyId r.userId ∧ Surfaced j.state r.familyId := by
  have quiet : Quiet (.findByTokenHash h) := trivial
  refine guides_quiet quiet stable_ready (fun j found s' kept ready exec r isFound => ?_)
    fun found j j' rely learnt r isFound => ?_
  · obtain ⟨_, effected⟩ := exec.effect_of_ok
    obtain ⟨isResult, _⟩ := Prod.mk.inj (Option.some.inj effected)
    obtain rfl := Except.ok.inj isResult
    have stored : j.state.Stored r :=
      (ready.blank .main).visible.mp (List.mem_of_find?_eq_some isFound)
    have isToken : r.tokenHash = h := by simpa using List.find?_some isFound
    exact ⟨isToken ▸ kept.chained.known stored, kept.chained.surfaced stored⟩
  · obtain ⟨known, surfaced⟩ := learnt r isFound
    exact ⟨rely.known _ _ _ known, rely.surfaced _ surfaced⟩

theorem guides_findOwn (id userId : UUID) :
    Guides permits t request (Ready t) (call (.findByIdAndUserId id userId)) fun found j =>
      Ready t j ∧ ∀ r, found = some r → Surfaced j.state r.familyId := by
  have quiet : Quiet (.findByIdAndUserId id userId) := trivial
  refine guides_quiet quiet stable_ready (fun j found s' kept ready exec r isFound => ?_)
    fun found j j' rely learnt r isFound => rely.surfaced _ (learnt r isFound)
  obtain ⟨_, effected⟩ := exec.effect_of_ok
  obtain ⟨isResult, _⟩ := Prod.mk.inj (Option.some.inj effected)
  obtain rfl := Except.ok.inj isResult
  obtain ⟨seen, _⟩ := Option.filter_eq_some_iff.mp isFound
  rcases (Server.of_view seen).2 with pends | ⟨stored, _⟩
  · exact absurd pends.holds ((ready.blank .main).free r)
  · exact kept.chained.surfaced stored

theorem guides_deleteFamily (familyId : UUID) :
    Guides permits t request (fun j => Blank t scope j ∧ Surfaced j.state familyId)
      (deleteByFamilyId scope familyId) fun _ => Revokes t scope := by
  have deleting : Guides permits t request
      (fun j => Blank t scope j ∧ Deletable j.state (.family familyId))
      (modifying scope (.family familyId) .delete) fun _ => Revokes t scope := guides_deleting
  exact deleting

theorem guides_revoke (raw : RawToken) :
    Guides permits t request (Ready t) (revoke raw) fun _ => Revokes t .main := by
  refine guides_bind _ (guides_find _) fun found => ?_
  cases found with
  | none => exact guides_pure fun j ready => ready.1.idle.revokes .main
  | some r =>
      refine guides_bind _ ((guides_deleteFamily r.familyId).weaken (fun j learnt => ?_) fun _ _ => id)
        fun _ => guides_pure fun _ => id
      exact ⟨learnt.1.blank .main, (learnt.2 r rfl).2⟩

theorem guides_revokeSession (userId sessionId : UUID) :
    Guides permits t request (Ready t) (revokeSession userId sessionId) fun _ => Revokes t .main := by
  refine guides_bind _ (guides_findOwn _ _) fun found => ?_
  cases found with
  | none => exact guides_pure fun j ready => ready.1.idle.revokes .main
  | some r =>
      refine guides_bind _ ((guides_deleteFamily r.familyId).weaken (fun j learnt => ?_) fun _ _ => id)
        fun _ => guides_pure fun _ => id
      exact ⟨learnt.1.blank .main, learnt.2 r rfl⟩

theorem guides_keepFamily (cookie : Option RawToken) :
    Guides permits t request (Ready t) (keepFamily cookie) fun _ => Ready t := by
  cases cookie with
  | none => exact guides_pure fun _ => id
  | some raw => exact guides_bind _ (guides_still trivial stable_ready) fun _ => guides_pure fun _ => id

theorem guides_deleteOthers (userId : UUID) (keep : Option UUID) :
    Guides permits t request (Ready t) (deleteOthers userId keep) fun _ => Revokes t .main := by
  cases keep with
  | none => exact (guides_deleteByUserId userId).weaken (fun j ready => ready.blank .main) fun _ _ => id
  | some keep =>
      refine guides_bind _ (guides_deleting.weaken (fun j ready => ?_) fun _ _ => id)
        fun _ => guides_pure fun _ => id
      exact ⟨ready.blank .main, trivial⟩

theorem guides_revokeOthers (userId : UUID) (cookie : Option RawToken) :
    Guides permits t request (Ready t) (revokeOthers userId cookie) fun _ => Revokes t .main :=
  guides_bind _ (guides_keepFamily cookie) fun keep =>
    guides_bind _ (guides_still trivial stable_ready) fun _ =>
      guides_bind _ (guides_still trivial stable_ready) fun _ =>
        guides_bind _ (guides_deleteOthers userId keep) fun _ => guides_pure fun _ => id

theorem guides_revocation {body : Prog α}
    (inside : Guides permits t request (Ready t) body fun _ => Revokes t .main) :
    Guides permits t request (Ready t) (transactional .main body) fun _ _ => True :=
  guides_transactional inside (fun _ => stable_revokes) fun _ _ _ revokes => ⟨revokes, trivial⟩

theorem guides_revokePresented (cookie : Option RawToken) :
    Guides permits t request (Ready t) (revokePresented cookie) fun _ => Revokes t .main := by
  cases cookie with
  | none => exact guides_pure fun j ready => ready.idle.revokes .main
  | some raw => exact guides_revoke raw

theorem guides_logout (userId : Option UUID) (cookie : Option RawToken) :
    Guides permits t request (Ready t) (logout userId cookie) fun _ _ => True :=
  guides_revocation <| guides_bind _ (guides_revokePresented cookie) fun _ =>
    guides_bind _ (guides_still trivial stable_revokes) fun _ =>
      guides_onlyIf _ (guides_still trivial stable_revokes)

theorem guides_revokeOwnSession (userId sessionId : UUID) :
    Guides permits t request (Ready t) (revokeOwnSession userId sessionId) fun _ _ => True :=
  guides_revocation <| guides_bind _ (guides_revokeSession userId sessionId) fun revoked =>
    guides_bind _ (guides_onlyIf revoked (guides_still trivial stable_revokes)) fun _ =>
      guides_pure fun _ => id

theorem guides_revokeOtherSessions (userId : UUID) (cookie : Option RawToken) :
    Guides permits t request (Ready t) (revokeOtherSessions userId cookie) fun _ _ => True :=
  guides_revocation <| guides_bind _ (guides_revokeOthers userId cookie) fun _ =>
    guides_bind _ (guides_still trivial stable_revokes) fun _ => guides_pure fun _ => id

end Requests

end Auth
