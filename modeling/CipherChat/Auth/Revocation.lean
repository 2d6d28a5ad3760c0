import CipherChat.Auth.Lineage

/-!
Revocations under concurrency.  A deletion finds the rows of a family that were there when it
began, so a successor that is committed before the deletion commits is not among them.
-/

namespace Auth

open Async ReadCommitted
open Rooms (UUID Instant JavaError)

def hasAnswered (log : Log Op Op.Res) : Bool :=
  log.any fun x => match x.1 with
    | .respond _ => true
    | _ => false

/-- Every refresh that has begun has been answered. -/
def rotationsOver (past : List Event) : Bool :=
  past.all fun e => match e.call with
    | .refresh _ => hasAnswered (own e.thread past)
    | _ => true

/-- No token of a family whose revocation has committed is live once the rotations are over, in
every run from `s` whose operations are those `permits`. -/
def RevocationComplete (s : Server) (permits : History → Event → Prop) : Prop :=
  ∀ j, service.Reaches (fun _ _ => True) permits s j → rotationsOver j.past →
    ∀ familyId ∈ revokedFamilies j.past, ∀ r ∈ j.state.db.committed.rows, r.familyId = familyId →
      ∀ now, r.live now = false

/-- No row of a family is committed while another transaction is deleting the family. -/
def Undisturbed (j : History) (e : Event) : Prop :=
  ∀ familyId, ¬Event.Disturbs e j.past familyId

theorem undisturbed {s : Server} {j : History}
    (reaches : service.Reaches (fun _ _ => True) Undisturbed s j) (familyId : UUID) :
    ¬Disturbed j.past familyId := by
  rintro ⟨later, e, earlier, isPast, disturbs⟩
  obtain ⟨j', _, rfl, performs⟩ := reaches.at_entry isPast
  exact performs.permitted familyId disturbs

/-- A user signs out while a refresh of the same cookie is under way: it has claimed its row
when the deletion begins, and commits the successor before the deletion gets to the row. -/
def overtaken : Option History :=
  follow (.start 0 (.login 1) :: steps 0 2 ++ draws 0 1 2 [1] ++ steps 0 5 ++
    .start 1 (.refresh (some [1])) :: steps 1 4 ++ .start 2 (.logout (some 1) (some [1])) :: steps 2 2 ++
    steps 1 1 ++ draws 1 3 4 [2] ++ steps 1 5 ++ steps 2 5)

theorem overtaken_live : overtaken.map (fun j => (rotationsOver j.past, revokedFamilies j.past,
    j.state.db.committed.rows.map fun r => (r.familyId, r.live 0))) =
      some (true, [2], [(2, true)]) := by
  decide +kernel

end Auth
