import CipherChat.Auth.Rotation

/-!
A refresh family is a single chain, in every interleaving of everything the service does.
-/

namespace Auth

open Async ReadCommitted
open Rooms (UUID Instant JavaError)

/-- In every run from `s` a token is rotated once at most, by one request at most, and a family
has one live token at most. -/
def SingleChain (s : Server) : Prop :=
  ∀ j, service.Reaches (fun _ _ => True) (fun _ _ => True) s j →
    (rotations j.past).Nodup ∧
    (∀ raw, ∀ e ∈ j.past, ∀ e' ∈ j.past, Event.Accepts e raw → Event.Accepts e' raw →
      e.thread = e'.thread) ∧
    ∀ now familyId, (j.state.db.committed.rows.filter fun r =>
      r.familyId = familyId && r.live now).length ≤ 1

theorem Chained.live_le_one {s : Server} (chained : Chained s) (now : Instant) (familyId : UUID) :
    (s.db.committed.rows.filter fun r => r.familyId = familyId && r.live now).length ≤ 1 := by
  have member {r} (listed : r ∈ s.db.committed.rows.filter fun r =>
      r.familyId = familyId && r.live now) : s.Stored r ∧ r.familyId = familyId ∧ r.usedAt = none := by
    obtain ⟨inTable, isLive⟩ := List.mem_filter.mp listed
    simp only [RefreshToken.live, Bool.and_eq_true, decide_eq_true_eq] at isLive
    exact ⟨Server.mem_rows.mp inTable, isLive.1, by simpa using isLive.2.1⟩
  have distinct : (s.db.committed.rows.filter fun r => r.familyId = familyId && r.live now).Nodup :=
    List.Nodup.filter _ (s.db.committed.ordered.imp fun less same =>
      absurd (same ▸ less) (lt_irrefl _))
  generalize s.db.committed.rows.filter (fun r => r.familyId = familyId && r.live now) = live
    at member distinct
  match live with
  | [] => exact Nat.zero_le _
  | [_] => exact le_rfl
  | r :: r' :: rest =>
      obtain ⟨stored, family, unused⟩ := member List.mem_cons_self
      obtain ⟨stored', family', unused'⟩ := member (List.mem_cons_of_mem _ List.mem_cons_self)
      have same : r = r' :=
        chained.single r r' stored stored' unused unused' (family.trans family'.symm)
      exact absurd (same ▸ List.mem_cons_self) (List.nodup_cons.mp distinct).1

theorem single_chain (s : Server) (fresh : Fresh s) : SingleChain s := by
  intro j reaches
  have kept := service_kept fresh reaches
  refine ⟨kept.once, fun raw e member e' member' accepts accepts' => ?_,
    fun now familyId => kept.chained.live_le_one now familyId⟩
  obtain ⟨e₁, inPast, thread, rotates⟩ := kept.accepted e member raw accepts
  obtain ⟨e₂, inPast', thread', rotates'⟩ := kept.accepted e' member' raw accepts'
  rw [← thread, ← thread', done_once kept.once inPast inPast' rotates rotates']

/-- No token has been issued yet. -/
def blank : Server where
  db := .empty
  users := [1]
  uuids := []
  raws := []
  cookies _ := none

theorem blank_fresh : Fresh blank := by
  have empty : ∀ r, ¬blank.Stored r := fun r stored => by cases stored
  exact ⟨fun _ => rfl, fun r stored => absurd stored (empty r), fun r _ stored => absurd stored (empty r),
    fun r _ stored => absurd stored (empty r), fun r _ stored => absurd stored (empty r)⟩

theorem single_chain_blank : SingleChain blank :=
  single_chain blank blank_fresh

/-- The next operation of a thread, an insertion that draws these. -/
def draws (t : Nat) (id family : UUID) (raw : RawToken) : List (Move Call Answer) :=
  [.await t { id, family, raw }]

def follow (plan : List (Move Call Answer)) : Option History :=
  ((service.schedule perform fun _ => true).follow (Service.unstarted blank) plan).map Config.state

theorem follow_reaches {plan : List (Move Call Answer)} {j : History}
    (followed : follow plan = some j) :
    service.Reaches (fun _ _ => True) (fun _ _ => True) blank j := by
  obtain ⟨config, ran, rfl⟩ := Option.map_eq_some_iff.mp followed
  have performs : ∀ t s op a result s', perform t s op a = some (result, s') →
      service.exec t s op result s' := fun _ _ _ a _ _ performed => ⟨a, performed⟩
  exact Service.reaches_follow (fun _ _ _ => trivial) performs (fun _ _ => trivial) ran

end Auth
