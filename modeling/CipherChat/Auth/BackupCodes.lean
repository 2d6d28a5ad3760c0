import CipherChat.Async.Contract
import CipherChat.Auth.TwoFactor
import CipherChat.Database.Versions

/-!
Backup codes under concurrency.  A request that consumes a code writes back all the codes it has
read: it is the only one to have them only if nobody has written others meanwhile.
-/

namespace TwoFactorAuth

open Async ReadCommitted
open Rooms (UUID JavaString Instant JavaError)

/-- The code did not match as a TOTP code. -/
def byBackup (log : Log Op Op.Res) : Bool :=
  log.any fun
    | ⟨.totp .., .ok matched⟩ => !matched
    | _ => false

/-- The row a call has read. -/
def found : Log Op Op.Res → Option TwoFactor
  | [] => none
  | ⟨.findById _, .ok (some tf)⟩ :: _ => some tf
  | _ :: earlier => found earlier

def Call.presented : Call → Option (UUID × BackupHash)
  | login userId code | disable userId code => some (userId, .encode code)
  | setup _ | enable .. => none

def Op.accepts : Op → Bool
  | .respond (.session (.ok _)) | .respond (.done (.ok _)) => true
  | _ => false

/-- The user whose row is written, or deleted, after it was read. -/
def Op.writes : Op → Option UUID
  | .update tf => some tf.userId
  | .delete userId => some userId
  | _ => none

/-- The requests that a backup code has authenticated, with the code. -/
def accepted : List Event → List (Nat × UUID × BackupHash)
  | [] => []
  | e :: earlier =>
      if e.op.accepts && byBackup (own e.thread earlier) then
        e.call.presented.toList.map (e.thread, ·) ++ accepted earlier
      else accepted earlier

/-- In every run from `s` whose operations are those `permits`, a code authenticates one request
at most, and is not valid any more. -/
def SingleUse (s : Server) (permits : History → Event → Prop) : Prop :=
  ∀ j, service.Reaches (fun _ _ => True) permits s j →
    (∀ t t' p, (t, p) ∈ accepted j.past → (t', p) ∈ accepted j.past → t = t') ∧
    ∀ t userId c, (t, userId, c) ∈ accepted j.past →
      ∀ tf, j.state.db.Stored tf → tf.userId = userId → c ∉ tf.backupCodes

/-- When a request that has consumed a backup code writes the row, its codes are still those the
request has read. -/
def UpToDate (j : History) (e : Event) : Prop :=
  ∀ userId tf, e.op.writes = some userId → byBackup (j.log e.thread) →
    found (j.log e.thread) = some tf →
      ∀ old, e.before.db.Stored old → old.userId = userId → old.backupCodes = tf.backupCodes

section Outcomes

/-- What an operation can do, said once. -/
inductive Outcome (t : Nat) (s : Server) : (op : Op) → op.Res → Server → Prop
  | same {op result} : op ≠ .commit → op ≠ .rollback → Outcome t s op result s
  | updated {tf result} (old : TwoFactor) : s.db.locked t tf.key = false →
      s.db.view t tf.key = some old → Outcome t s (.update tf) result (s.setDb (s.db.write t tf))
  | enabled {tf result} (codes : List BackupHash) : s.db.locked t tf.key = false → codes.Nodup →
      (∀ c ∈ codes, (tf.userId, c) ∉ s.issued) → Outcome t s (.enable tf) result {
        db := s.db.write t { tf with backupCodes := codes }
        issued := codes.map (tf.userId, ·) ++ s.issued }
  | inserted {tf result} : s.db.locked t tf.key = false →
      Outcome t s (.insert tf) result (s.setDb (s.db.write t tf))
  | deleted {userId result} (old : TwoFactor) : s.db.locked t userId.toNat = false →
      s.db.view t userId.toNat = some old →
      Outcome t s (.delete userId) result (s.setDb (s.db.erase t userId.toNat))
  | committed {result} : Outcome t s .commit result (s.setDb (s.db.commit t))
  | closed {op result} : op = .commit ∨ op = .rollback →
      Outcome t s op result (s.setDb (s.db.rollback t))

variable {t : Nat} {s s' : Server} {op : Op}

theorem reach_some {userId : UUID} {row : Option TwoFactor} (reached : s.reach t userId = some row) :
    s.db.locked t userId.toNat = false ∧ s.db.view t userId.toNat = row := by
  simp only [Server.reach] at reached
  split at reached
  · contradiction
  next free => exact ⟨by simpa using free, Option.some.inj reached⟩

theorem effect_outcome {a : Answer} {result answered : op.Res}
    (effected : effect t s op a = some (answered, s')) : Outcome t s op result s' := by
  cases op with
  | now | findById | totp | generateSecret | throttle | requireUser | publish | startSession | respond =>
      obtain ⟨_, rfl⟩ := Prod.mk.inj (Option.some.inj effected)
      exact .same nofun nofun
  | commit =>
      obtain ⟨_, rfl⟩ := Prod.mk.inj (Option.some.inj effected)
      exact .committed
  | rollback =>
      obtain ⟨_, rfl⟩ := Prod.mk.inj (Option.some.inj effected)
      exact .closed (.inr rfl)
  | update tf =>
      obtain ⟨row, reached, same⟩ := Option.map_eq_some_iff.mp effected
      obtain ⟨free, seen⟩ := reach_some reached
      cases row with
      | none =>
          obtain ⟨_, rfl⟩ := Prod.mk.inj same
          exact .same nofun nofun
      | some old =>
          obtain ⟨_, rfl⟩ := Prod.mk.inj same
          exact .updated old free seen
  | enable tf =>
      simp only [effect, Server.enable] at effected
      split at effected
      next fresh =>
        obtain ⟨row, reached, same⟩ := Option.map_eq_some_iff.mp effected
        obtain ⟨free, seen⟩ := reach_some reached
        cases row with
        | none =>
            obtain ⟨_, rfl⟩ := Prod.mk.inj same
            exact .same nofun nofun
        | some old =>
            obtain ⟨_, rfl⟩ := Prod.mk.inj same
            exact .enabled a.codes free fresh.2.1 fresh.2.2
      next => contradiction
  | insert tf =>
      obtain ⟨row, reached, same⟩ := Option.map_eq_some_iff.mp effected
      obtain ⟨free, seen⟩ := reach_some reached
      cases row with
      | none =>
          obtain ⟨_, rfl⟩ := Prod.mk.inj same
          exact .inserted free
      | some old =>
          obtain ⟨_, rfl⟩ := Prod.mk.inj same
          exact .same nofun nofun
  | delete userId =>
      obtain ⟨row, reached, same⟩ := Option.map_eq_some_iff.mp effected
      obtain ⟨free, seen⟩ := reach_some reached
      cases row with
      | none =>
          obtain ⟨_, rfl⟩ := Prod.mk.inj same
          exact .same nofun nofun
      | some old =>
          obtain ⟨_, rfl⟩ := Prod.mk.inj same
          exact .deleted old free seen

theorem Exec.outcome {result : op.Res} (exec : Exec t s op result s') : Outcome t s op result s' := by
  obtain ⟨a, performed⟩ := exec
  refine faulty_leaves (fun _ _ => effect_outcome) ?_ performed
  cases op with
  | commit => exact .closed (.inl rfl)
  | rollback => exact .closed (.inr rfl)
  | _ => exact .same nofun nofun

/-- An operation that answers has had its effect. -/
theorem Exec.effect_of_ok {value : op.Val} (exec : Exec t s op (.ok value) s') :
    ∃ a, effect t s op a = some (.ok value, s') :=
  exec.elim fun a performed => ⟨a, faulty_ok performed⟩

end Outcomes

section Versions

theorem user_of_key {tf tf' : TwoFactor} (same : tf.key = tf'.key) : tf.userId = tf'.userId :=
  BitVec.toNat_inj.mp same

variable {t : Nat} {s s' : Server} {op : Op} {result : op.Res} {tf : TwoFactor}

theorem Outcome.change (outcome : Outcome t s op result s') : Change t s.db s'.db := by
  cases outcome with
  | same => exact .none
  | updated _ free _ | enabled _ free _ _ | inserted free => exact .write _ free
  | deleted _ free _ => exact .erase _ free
  | committed => exact .commit
  | closed => exact .rollback

/-- A row that is written. -/
inductive Written (t : Nat) (s s' : Server) : Op → TwoFactor → Prop
  | updated {r old} : s.db.view t r.key = some old → Written t s s' (.update r) r
  | enabled {r codes} : codes.Nodup → (∀ c ∈ codes, (r.userId, c) ∉ s.issued) →
      (∀ c ∈ codes, (r.userId, c) ∈ s'.issued) →
      Written t s s' (.enable r) { r with backupCodes := codes }
  | inserted {r} : Written t s s' (.insert r) r

theorem Outcome.version_of (outcome : Outcome t s op result s') (version : s'.db.Version tf) :
    s.db.Version tf ∨ Written t s s' op tf := by
  cases outcome with
  | same => exact .inl version
  | updated old _ seen =>
      rcases Database.version_write version with rfl | before
      · exact .inr (.updated seen)
      · exact .inl before
  | enabled codes _ distinct fresh =>
      rcases Database.version_write version with rfl | before
      · refine .inr (.enabled distinct fresh fun c member => ?_)
        exact List.mem_append_left _ (List.mem_map_of_mem member)
      · exact .inl before
  | inserted =>
      rcases Database.version_write version with rfl | before
      · exact .inr .inserted
      · exact .inl before
  | deleted => exact .inl (Database.version_erase version)
  | committed => exact .inl (Database.version_commit version)
  | closed => exact .inl (Database.version_rollback version)

theorem Outcome.issued_subset (outcome : Outcome t s op result s') : s.issued ⊆ s'.issued := by
  cases outcome with
  | enabled => exact List.subset_append_right _ _
  | _ => exact List.Subset.refl _

end Versions

section Ledger

/-- The codes that an event has taken out of the table. -/
def Event.burned (e : Event) : List (UUID × BackupHash) :=
  e.before.db.committed.rows.flatMap fun tf =>
    (tf.backupCodes.filter fun c => match e.after.db.committed.get tf.key with
      | some tf' => c ∉ tf'.backupCodes
      | none => true).map (tf.userId, ·)

def burnings (past : List Event) : List (UUID × BackupHash) :=
  past.flatMap Event.burned

/-- The code was given out, and nobody has it any more. -/
def Burned (s : Server) (p : UUID × BackupHash) : Prop :=
  p ∈ s.issued ∧ ∀ tf, s.db.Version tf → tf.userId = p.1 → p.2 ∉ tf.backupCodes

/-- What a thread has established when it performs an operation. -/
def Justified (t : Nat) (j : History) (op : Op) : Prop :=
  match op with
  | .update tf => j.state.db.Unwritten t ∧ tf.backupCodes.Nodup ∧
      (tf.backupCodes = [] ∨ byBackup (j.log t) ∧ ∃ old, found (j.log t) = some old ∧
        tf.backupCodes ⊆ old.backupCodes)
  | .insert tf => tf.backupCodes = []
  | op => op.accepts → byBackup (j.log t) → ∀ call p, j.calls t = some call →
      call.presented = some p → ∃ e ∈ j.past, e.thread = t ∧ p ∈ Event.burned e

structure Kept (j : History) : Prop where
  known : ∀ tf, j.state.db.Version tf → tf.backupCodes.Nodup ∧
    ∀ c ∈ tf.backupCodes, (tf.userId, c) ∈ j.state.issued
  begun : ∀ t k version, j.state.db.held k = some (t, version) → j.log t ≠ []
  once : (burnings j.past).Nodup
  burned : ∀ p ∈ burnings j.past, Burned j.state p
  accepted : ∀ t p, (t, p) ∈ accepted j.past → ∃ e ∈ j.past, e.thread = t ∧ p ∈ Event.burned e

/-- What the others leave unchanged. -/
structure Rely (t : Nat) (j j' : History) : Prop where
  held : ∀ k version, j'.state.db.held k = some (t, version) ↔ j.state.db.held k = some (t, version)
  rows : ∀ k version, j.state.db.held k = some (t, version) →
    j'.state.db.committed.get k = j.state.db.committed.get k
  backup : byBackup (j'.log t) = byBackup (j.log t)
  found : found (j'.log t) = found (j.log t)
  past : j.past <:+ j'.past

theorem Rely.trans {t : Nat} {j j₁ j₂ : History} (first : Rely t j j₁) (second : Rely t j₁ j₂) :
    Rely t j j₂ :=
  ⟨fun k version => (second.held k version).trans (first.held k version),
    fun k version isHeld => (second.rows k version ((first.held k version).mpr isHeld)).trans
      (first.rows k version isHeld),
    second.backup.trans first.backup, second.found.trans first.found, first.past.trans second.past⟩

variable {j : History} {e : Event}

theorem mem_burned {p : UUID × BackupHash} : p ∈ Event.burned e ↔
    ∃ tf, e.before.db.Stored tf ∧ tf.userId = p.1 ∧ p.2 ∈ tf.backupCodes ∧
      ∀ tf', e.after.db.committed.get tf.key = some tf' → p.2 ∉ tf'.backupCodes := by
  obtain ⟨userId, c⟩ := p
  simp only [Event.burned, List.mem_flatMap, List.mem_map, List.mem_filter, Database.mem_rows]
  constructor
  · rintro ⟨tf, stored, c', ⟨member, gone⟩, same⟩
    obtain ⟨rfl, rfl⟩ := Prod.mk.inj same
    refine ⟨tf, stored, rfl, member, fun tf' here => ?_⟩
    simpa [here] using gone
  · rintro ⟨tf, stored, rfl, member, gone⟩
    refine ⟨tf, stored, c, ⟨member, ?_⟩, rfl⟩
    cases here : e.after.db.committed.get tf.key with
    | none => rfl
    | some tf' => simpa using gone tf' here

section Step

variable (kept : Kept j) (performs : j.Performs service UpToDate e)
include performs

theorem performs_outcome : Outcome e.thread j.state e.op e.result e.after := by
  have exec := performs.exec
  rw [performs.before] at exec
  exact Exec.outcome exec

/-- What is written back was in the table, or is new. -/
theorem written_codes (justified : Justified e.thread j e.op) {tf : TwoFactor}
    (written : Written e.thread j.state e.after e.op tf) : tf.backupCodes.Nodup ∧
      ((∀ c ∈ tf.backupCodes, ∃ old, j.state.db.Stored old ∧ old.userId = tf.userId ∧
          c ∈ old.backupCodes) ∨
        ∀ c ∈ tf.backupCodes, (tf.userId, c) ∉ j.state.issued ∧ (tf.userId, c) ∈ e.after.issued) := by
  have upToDate : UpToDate j e := performs.permitted
  obtain ⟨t, call, op, result, before, after⟩ := e
  obtain rfl : before = j.state := performs.before
  cases written with
  | @updated r old seen =>
      obtain ⟨unwritten, distinct, ⟨none⟩ | ⟨backup, read, isFound, subset⟩⟩ := justified
      · exact ⟨distinct, .inl fun c member => by rw [none] at member; cases member⟩
      · refine ⟨distinct, .inl fun c member => ?_⟩
        rw [Database.Unwritten.view unwritten] at seen
        have stored := Database.stored_of_get seen
        have isUser : old.userId = tf.userId := user_of_key (Table.key_of_get seen)
        have same := upToDate tf.userId read rfl backup isFound old stored isUser
        exact ⟨old, stored, isUser, same ▸ subset member⟩
  | enabled distinct fresh issued =>
      exact ⟨distinct, .inr fun c member => ⟨fresh c member, issued c member⟩⟩
  | inserted =>
      have none : tf.backupCodes = [] := justified
      refine ⟨by rw [none]; exact List.nodup_nil, .inl fun c member => ?_⟩
      rw [none] at member
      cases member

/-- A code that is burned is never written back. -/
theorem Burned.record {p : UUID × BackupHash} (burned : Burned j.state p)
    (justified : Justified e.thread j e.op) : Burned e.after p := by
  have outcome := performs_outcome performs
  refine ⟨outcome.issued_subset burned.1, fun tf version isUser member => ?_⟩
  rcases outcome.version_of version with before | written
  · exact burned.2 tf before isUser member
  · rcases (written_codes performs justified written).2 with old | fresh
    · obtain ⟨row, stored, isUser', inRow⟩ := old p.2 member
      exact burned.2 row (.inl stored) (isUser'.trans isUser) inRow
    · have isNew := (fresh p.2 member).1
      rw [isUser] at isNew
      exact isNew burned.1

include kept

theorem known_record (justified : Justified e.thread j e.op) (tf : TwoFactor)
    (version : e.after.db.Version tf) : tf.backupCodes.Nodup ∧
      ∀ c ∈ tf.backupCodes, (tf.userId, c) ∈ e.after.issued := by
  have outcome := performs_outcome performs
  rcases outcome.version_of version with before | written
  · obtain ⟨distinct, issued⟩ := kept.known tf before
    exact ⟨distinct, fun c member => outcome.issued_subset (issued c member)⟩
  · obtain ⟨distinct, old | fresh⟩ := written_codes performs justified written
    · refine ⟨distinct, fun c member => outcome.issued_subset ?_⟩
      obtain ⟨row, stored, isUser, inRow⟩ := old c member
      exact isUser ▸ (kept.known row (.inl stored)).2 c inRow
    · exact ⟨distinct, fun c member => (fresh c member).2⟩

/-- Codes are taken out of the table by the commit that nobody else waits for. -/
theorem burned_of_event {p : UUID × BackupHash}
    (burns : p ∈ Event.burned e) : Burned e.after p := by
  obtain ⟨tf, stored, isUser, member, gone⟩ := mem_burned.mp burns
  rw [performs.before] at stored
  have outcome := performs_outcome performs
  have changed : e.after.db.committed.get tf.key ≠ j.state.db.committed.get tf.key := by
    intro same
    rw [show j.state.db.committed.get tf.key = some tf from stored] at same
    exact gone tf same member
  obtain ⟨isAfter, version, isHeld⟩ := outcome.change.of_changed changed
  refine ⟨outcome.issued_subset ?_, fun tf' version' isUser' member' => ?_⟩
  · have issued := (kept.known tf (.inl stored)).2 p.2 member
    rwa [isUser] at issued
  · have sameKey : tf'.key = tf.key := congrArg BitVec.toNat (isUser'.trans isUser.symm)
    rcases version' with stored' | ⟨u, isHeld'⟩
    · rw [Database.Stored, sameKey] at stored'
      exact gone tf' stored' member'
    · rw [isAfter, Database.held_commit, sameKey, isHeld] at isHeld'
      obtain ⟨same, other⟩ := Option.filter_eq_some_iff.mp isHeld'
      obtain ⟨rfl, _⟩ := Prod.mk.inj (Option.some.inj same)
      simp at other

theorem once_record : (burnings (e :: j.past)).Nodup := by
  have distinct : (Event.burned e).Nodup := by
    rw [Event.burned, performs.before]
    refine List.nodup_flatMap.mpr ⟨fun tf member => ?_, ?_⟩
    · have nodup := (kept.known tf (.inl (Database.mem_rows.mp member))).1
      exact (nodup.filter _).map fun c c' same => (Prod.mk.inj same).2
    · refine j.state.db.committed.ordered.imp fun {tf tf'} less => ?_
      simp only [Function.onFun, List.Disjoint, List.mem_map]
      rintro p ⟨c, _, rfl⟩ ⟨c', _, same⟩
      have isUser : tf'.userId = tf.userId := (Prod.mk.inj same).1
      have sameKey : tf'.key = tf.key := congrArg BitVec.toNat isUser
      exact absurd less (sameKey ▸ lt_irrefl _)
  refine List.nodup_append.mpr ⟨distinct, kept.once, ?_⟩
  rintro p burns _ earlier rfl
  obtain ⟨tf, stored, isUser, member, _⟩ := mem_burned.mp burns
  rw [performs.before] at stored
  exact (kept.burned p earlier).2 tf (.inl stored) isUser member

theorem accepted_record (justified : Justified e.thread j e.op) (t : Nat) (p : UUID × BackupHash)
    (member : (t, p) ∈ accepted (e :: j.past)) :
    ∃ e' ∈ e :: j.past, e'.thread = t ∧ p ∈ Event.burned e' := by
  have earlier (old : (t, p) ∈ accepted j.past) :
      ∃ e' ∈ e :: j.past, e'.thread = t ∧ p ∈ Event.burned e' := by
    obtain ⟨e', inPast, rest⟩ := kept.accepted t p old
    exact ⟨e', List.mem_cons_of_mem _ inPast, rest⟩
  simp only [accepted] at member
  split at member
  next accepts =>
    obtain ⟨isAnswer, backup⟩ := Bool.and_eq_true_iff.mp accepts
    rcases List.mem_append.mp member with new | old
    · obtain ⟨p', presented, same⟩ := List.mem_map.mp new
      obtain ⟨rfl, rfl⟩ := Prod.mk.inj same
      have isPresented : e.call.presented = some p' := Option.mem_toList.mp presented
      have burnt : ∃ e' ∈ j.past, e'.thread = e.thread ∧ p' ∈ Event.burned e' := by
        obtain ⟨t, call, op, result, before, after⟩ := e
        cases op <;> first | cases isAnswer | skip
        exact justified isAnswer backup call p' performs.running isPresented
      obtain ⟨e', inPast, rest⟩ := burnt
      exact ⟨e', List.mem_cons_of_mem _ inPast, rest⟩
    · exact earlier old
  next => exact earlier member

theorem kept_record (justified : Justified e.thread j e.op) : Kept (j.record e) := by
  have outcome := performs_outcome performs
  refine ⟨known_record kept performs justified, fun t k version isHeld => ?_, once_record kept performs,
    fun p burns => ?_, accepted_record kept performs justified⟩
  · by_cases mine : e.thread = t
    · subst mine
      rw [Journal.record_log_self]
      exact List.cons_ne_nil _ _
    · rw [Journal.record_log_of_ne mine]
      exact kept.begun t k version ((outcome.change.held_other (Ne.symm mine)).mp isHeld)
  · rcases List.mem_append.mp burns with new | old
    · exact burned_of_event kept performs new
    · exact (kept.burned p old).record performs justified

omit kept in
theorem rely_record {t : Nat} (other : t ≠ e.thread) : Rely t j (j.record e) := by
  have change := (performs_outcome performs).change
  have same : (j.record e).log t = j.log t := Journal.record_log_of_ne (Ne.symm other)
  exact ⟨fun k version => change.held_other other,
    fun k version isHeld => change.get_of_held_other other isHeld,
    by rw [same], by rw [same], List.suffix_cons _ _⟩

end Step

/-- What every call keeps. -/
def contract : Contract service UpToDate where
  inv := Kept
  rely := Rely
  justified := Justified
  refl _ _ := ⟨fun _ _ => .rfl, fun _ _ _ => rfl, rfl, rfl, List.suffix_refl _⟩
  trans _ _ _ _ := Rely.trans
  kept _ _ kept performs justified := kept_record kept performs justified
  others _ _ _ _ performs _ other := rely_record performs other

end Ledger

section Conduct

variable {t : Nat} {request : Call} {α β : Type} {pre : History → Prop}

/-- Operations that touch no row and that the log need not remember. -/
def Quiet : Op → Prop
  | .now | .throttle _ | .generateSecret | .requireUser _ | .publish .. | .startSession _ => True
  | _ => False

theorem Quiet.justified {op : Op} (quiet : Quiet op) (j : History) : Justified t j op := by
  cases op <;> first | exact quiet.elim | exact fun accepts => nomatch accepts

theorem Quiet.same {op : Op} (quiet : Quiet op) {s s' : Server} {result : op.Res}
    (outcome : Outcome t s op result s') : s' = s := by
  cases outcome with
  | same => rfl
  | updated | enabled | inserted | deleted | committed => exact quiet.elim
  | closed ends => rcases ends with rfl | rfl <;> exact quiet.elim

theorem Quiet.rely {j : History} {e : Event} (quiet : Quiet e.op)
    (performs : j.Performs service UpToDate e) : Rely e.thread j (j.record e) := by
  obtain ⟨t, call, op, result, before, after⟩ := e
  obtain rfl : after = j.state := quiet.same (performs_outcome performs)
  refine ⟨fun _ _ => .rfl, fun _ _ _ => rfl, ?_, ?_, List.suffix_cons _ _⟩
  · rw [Journal.record_log_self]
    cases op <;> first | rfl | exact quiet.elim
  · rw [Journal.record_log_self]
    cases op <;> first | rfl | exact quiet.elim

theorem quiet_op {op : Op} (quiet : Quiet op) : Uses Quiet (call op).run :=
  uses_call quiet

theorem yields_quiet (stable : contract.Stable t pre) {p : Prog α} (uses : Uses Quiet p.run) :
    contract.Yields t request pre p fun _ => pre :=
  Contract.yields_uses stable (fun _ quiet j _ _ known =>
    ⟨quiet.justified j, fun _ _ performs => stable _ _ (quiet.rely performs) known⟩) uses

/-- The call has written nothing, and no code has been compared. -/
structure Idle (t : Nat) (j : History) : Prop where
  unwritten : j.state.db.Unwritten t
  backup : byBackup (j.log t) = false

theorem stable_unwritten : contract.Stable t fun j => j.state.db.Unwritten t :=
  fun _ _ rely unwritten k version isHeld => unwritten k version ((Rely.held rely k version).mp isHeld)

theorem stable_idle : contract.Stable t (Idle t) :=
  fun j j' rely idle => ⟨stable_unwritten j j' rely idle.unwritten, (Rely.backup rely).trans idle.backup⟩

/-- The row is the one the call has read. -/
structure Read (t : Nat) (tf : TwoFactor) (userId : UUID) (j : History) : Prop extends Idle t j where
  isFound : found (j.log t) = some tf
  isUser : tf.userId = userId
  distinct : tf.backupCodes.Nodup

theorem stable_read {tf : TwoFactor} {userId : UUID} : contract.Stable t (Read t tf userId) :=
  fun j j' rely read => ⟨stable_idle j j' rely read.toIdle, (Rely.found rely).trans read.isFound,
    read.isUser, read.distinct⟩

theorem yields_findById (userId : UUID) :
    contract.Yields t request (Idle t) (call (.findById userId)) fun row j =>
      Idle t j ∧ ∀ tf, row = some tf → Read t tf userId j := by
  refine Contract.yields_exec stable_idle fun j kept _ idle =>
    ⟨(fun accepts => nomatch accepts), fun row s' exec => ?_⟩
  obtain ⟨_, effected⟩ := Exec.effect_of_ok exec
  obtain ⟨isRow, isAfter⟩ := Prod.mk.inj (Option.some.inj effected)
  obtain rfl := Except.ok.inj isRow
  obtain rfl : j.state = s' := isAfter
  have after : Idle t (j.record ⟨t, request, .findById userId, .ok (j.state.db.view t userId.toNat),
      j.state, j.state⟩) := ⟨idle.unwritten, by rw [Journal.log_record]; exact idle.backup⟩
  refine ⟨after, fun tf isRow => ⟨after, ?_, ?_, ?_⟩⟩
  · rw [Journal.log_record]
    change found (⟨.findById userId, .ok (j.state.db.view t userId.toNat)⟩ :: j.log t) = some tf
    rw [isRow]
    rfl
  · have isKey : tf.key = userId.toNat := Database.key_of_view isRow
    exact BitVec.toNat_inj.mp isKey
  · exact (kept.known tf (Database.version_of_view isRow)).1

/-- The code of the call has been compared with the row it has read. -/
structure Checked (t : Nat) (tf : TwoFactor) (userId : UUID) (code : JavaString) (verified : Verified)
    (j : History) : Prop where
  unwritten : j.state.db.Unwritten t
  isFound : found (j.log t) = some tf
  isUser : tf.userId = userId
  distinct : tf.backupCodes.Nodup
  compared : ∃ totp, byBackup (j.log t) = !totp ∧ verified = checkCode tf code totp

theorem stable_checked {tf : TwoFactor} {userId : UUID} {code : JavaString} {verified : Verified} :
    contract.Stable t (Checked t tf userId code verified) := by
  intro j j' rely checked
  obtain ⟨totp, backup, isVerified⟩ := checked.compared
  exact ⟨stable_unwritten j j' rely checked.unwritten, (Rely.found rely).trans checked.isFound,
    checked.isUser, checked.distinct, totp, (Rely.backup rely).trans backup, isVerified⟩

theorem yields_verify (tf : TwoFactor) (userId : UUID) (code : JavaString) :
    contract.Yields t request (Read t tf userId) (verify tf code) (Checked t tf userId code) := by
  refine Contract.yields_bind (fun totp j => Checked t tf userId code (checkCode tf code totp) j) ?_
    fun totp => Contract.yields_pure fun _ => id
  refine Contract.yields_exec stable_read fun j kept _ read =>
    ⟨(fun accepts => nomatch accepts), fun totp s' exec => ?_⟩
  obtain ⟨_, effected⟩ := Exec.effect_of_ok exec
  obtain ⟨_, isAfter⟩ := Prod.mk.inj (Option.some.inj effected)
  obtain rfl : j.state = s' := isAfter
  refine ⟨read.unwritten, ?_, read.isUser, read.distinct, totp, ?_, rfl⟩
  · rw [Journal.log_record]
    exact read.isFound
  · rw [Journal.log_record]
    change (!totp || byBackup (j.log t)) = !totp
    rw [read.backup, Bool.or_false]

/-- The code is in the table, and the row without it in the hands of the call. -/
def Taking (t : Nat) (p : UUID × BackupHash) (j : History) : Prop :=
  ∃ old version, j.state.db.Stored old ∧ old.userId = p.1 ∧ p.2 ∈ old.backupCodes ∧
    j.state.db.held old.key = some (t, version) ∧ ∀ tf, version = some tf → p.2 ∉ tf.backupCodes

/-- What a call that succeeds has established: it did without a backup code, or is the one that
has burned it. -/
def Earned (t : Nat) (p : UUID × BackupHash) (j : History) : Prop :=
  byBackup (j.log t) = false ∨ ∃ e ∈ j.past, e.thread = t ∧ p ∈ Event.burned e

theorem stable_taking {p : UUID × BackupHash} :
    contract.Stable t fun j => byBackup (j.log t) = false ∨ Taking t p j := by
  intro j j' rely known
  refine known.imp (Rely.backup rely).trans fun ⟨old, version, stored, isUser, member, isHeld, gone⟩ => ?_
  exact ⟨old, version, (Rely.rows rely _ _ isHeld).trans stored, isUser, member,
    (Rely.held rely _ _).mpr isHeld, gone⟩

theorem stable_earned {p : UUID × BackupHash} : contract.Stable t (Earned t p) := by
  intro j j' rely earned
  exact earned.imp (Rely.backup rely).trans fun ⟨e, member, rest⟩ =>
    ⟨e, (Rely.past rely).subset member, rest⟩

/-- The commit takes the code out of the table. -/
theorem yields_commit {p : UUID × BackupHash} :
    contract.Yields t request (fun j => byBackup (j.log t) = false ∨ Taking t p j) (call .commit)
      fun _ => Earned t p := by
  refine Contract.yields_exec stable_taking fun j _ _ known =>
    ⟨(fun accepts => nomatch accepts), fun _ s' exec => ?_⟩
  obtain ⟨_, effected⟩ := Exec.effect_of_ok exec
  obtain ⟨_, rfl⟩ := Prod.mk.inj (Option.some.inj effected)
  refine known.imp (fun none => by rw [Journal.log_record]; exact none) fun taking => ?_
  obtain ⟨old, version, stored, isUser, member, isHeld, gone⟩ := taking
  refine ⟨_, List.mem_cons_self, rfl, mem_burned.mpr ⟨old, stored, isUser, member, fun tf' here => ?_⟩⟩
  change (j.state.db.commit t).committed.get old.key = some tf' at here
  rw [Database.get_commit, Database.view_of_held isHeld] at here
  exact gone tf' here

theorem yields_inTransaction {p : UUID × BackupHash} {body : Prog α}
    (inside : contract.Yields t request pre body fun _ j => byBackup (j.log t) = false ∨ Taking t p j) :
    contract.Yields t request pre (inTransaction body) fun _ => Earned t p := by
  refine Contract.yields_transactional inside ?_ fun _ => yields_commit
  refine Contract.yields_exec (fun _ _ _ _ => trivial) fun j _ _ _ =>
    ⟨(fun accepts => nomatch accepts), fun _ _ _ => trivial⟩

/-- What the code was found to be. -/
theorem checkCode_ok {tf : TwoFactor} {code : JavaString} {totp : Bool}
    (ok : (checkCode tf code totp).1.ok = true) :
    (totp = true ∧ (checkCode tf code totp).2 = none) ∨
      totp = false ∧ ∃ i, ∃ bound : i < tf.backupCodes.length, tf.backupCodes[i] = .encode code ∧
        (checkCode tf code totp).2 = some { tf with backupCodes := tf.backupCodes.eraseIdx i } := by
  cases totp with
  | true => exact .inl ⟨rfl, rfl⟩
  | false =>
      simp only [checkCode, Bool.false_eq_true, if_false] at ok ⊢
      cases isIndex : tf.backupCodes.findIdx? fun h => h = .encode code with
      | none =>
          rw [isIndex] at ok
          cases ok
      | some i =>
          obtain ⟨bound, matched, _⟩ := List.findIdx?_eq_some_iff_getElem.mp isIndex
          exact .inr ⟨trivial, i, bound, by simpa using matched, rfl⟩

theorem not_mem_eraseIdx {codes : List BackupHash} (distinct : codes.Nodup) {i : Nat}
    (bound : i < codes.length) : codes[i] ∉ codes.eraseIdx i := by
  intro member
  obtain ⟨i', _, other, same⟩ := List.mem_eraseIdx_iff_getElem.mp member
  exact other (distinct.getElem_inj_iff.mp same)

/-- A call that writes the row finds the codes that it has read. -/
theorem taking_of_writes {j : History} {tf : TwoFactor} {userId : UUID} {code : JavaString}
    {verified : Verified} {op : Op} {s' : Server} {value : op.Val} (version : Option TwoFactor)
    (checked : Checked t tf userId code verified j) (backup : byBackup (j.log t) = true)
    (performs : j.Performs service UpToDate ⟨t, request, op, .ok value, j.state, s'⟩)
    (writes : op.writes = some userId) {old : TwoFactor}
    (here : j.state.db.view t userId.toNat = some old)
    (isDb : s'.db.committed = j.state.db.committed ∧ s'.db.held userId.toNat = some (t, version))
    (member : .encode code ∈ tf.backupCodes) (gone : ∀ r, version = some r → .encode code ∉ r.backupCodes) :
    Taking t (userId, .encode code) (j.record ⟨t, request, op, .ok value, j.state, s'⟩) := by
  rw [Database.Unwritten.view checked.unwritten] at here
  have isKey : old.key = userId.toNat := Table.key_of_get here
  have stored := Database.stored_of_get here
  have isUser : old.userId = userId := BitVec.toNat_inj.mp isKey
  have upToDate : UpToDate j ⟨t, request, op, .ok value, j.state, s'⟩ := performs.permitted
  have same := upToDate userId tf writes backup checked.isFound old stored isUser
  refine ⟨old, version, ?_, isUser, same ▸ member, isKey ▸ isDb.2, gone⟩
  rw [Database.Stored, Journal.record_state, isDb.1]
  exact stored

theorem Exec.update_ok {s s' : Server} {r : TwoFactor} {value : Unit}
    (exec : Exec t s (.update r) (.ok value) s') :
    (∃ old, s.db.view t r.key = some old) ∧ s' = s.setDb (s.db.write t r) := by
  obtain ⟨_, effected⟩ := exec.effect_of_ok
  obtain ⟨row, reached, same⟩ := Option.map_eq_some_iff.mp effected
  obtain ⟨_, seen⟩ := reach_some reached
  cases row with
  | none => cases (Prod.mk.inj same).1
  | some old => exact ⟨⟨old, seen⟩, (Prod.mk.inj same).2.symm⟩

theorem Exec.delete_ok {s s' : Server} {userId : UUID} {value : Unit}
    (exec : Exec t s (.delete userId) (.ok value) s') :
    (∃ old, s.db.view t userId.toNat = some old) ∧ s' = s.setDb (s.db.erase t userId.toNat) := by
  obtain ⟨_, effected⟩ := exec.effect_of_ok
  obtain ⟨row, reached, same⟩ := Option.map_eq_some_iff.mp effected
  obtain ⟨_, seen⟩ := reach_some reached
  cases row with
  | none => cases (Prod.mk.inj same).1
  | some old => exact ⟨⟨old, seen⟩, (Prod.mk.inj same).2.symm⟩

section Consume

variable {tf : TwoFactor} {userId : UUID} {code : JavaString} {verified : Verified}

/-- The code was a backup code. -/
def Consuming (t : Nat) (tf : TwoFactor) (userId : UUID) (code : JavaString) (verified : Verified)
    (j : History) : Prop :=
  Checked t tf userId code verified j ∧ byBackup (j.log t) = true

theorem stable_consuming : contract.Stable t (Consuming t tf userId code verified) :=
  fun j j' rely known => ⟨stable_checked j j' rely known.1, (Rely.backup rely).trans known.2⟩

theorem yields_update {i : Nat} (bound : i < tf.backupCodes.length)
    (isCode : tf.backupCodes[i] = .encode code) :
    contract.Yields t request (Consuming t tf userId code verified)
      (call (.update { tf with backupCodes := tf.backupCodes.eraseIdx i }))
      fun _ => Taking t (userId, .encode code) := by
  refine Contract.yields_call stable_consuming fun j _ _ ⟨checked, backup⟩ => ⟨?_, fun _ s' performs => ?_⟩
  · exact ⟨checked.unwritten, checked.distinct.eraseIdx i, .inr ⟨backup, tf, checked.isFound,
      fun c member => List.mem_of_mem_eraseIdx member⟩⟩
  · have exec : Exec t j.state (.update { tf with backupCodes := tf.backupCodes.eraseIdx i }) (.ok ()) s' :=
      performs.exec
    obtain ⟨⟨old, here⟩, isAfter⟩ := exec.update_ok
    have sameKey : TwoFactor.key { tf with backupCodes := tf.backupCodes.eraseIdx i } = userId.toNat :=
      congrArg BitVec.toNat checked.isUser
    rw [sameKey] at here
    have gone := not_mem_eraseIdx checked.distinct bound
    rw [isCode] at gone
    refine taking_of_writes (some { tf with backupCodes := tf.backupCodes.eraseIdx i })
      checked backup performs (congrArg some checked.isUser) here ⟨by rw [isAfter]; rfl, ?_⟩
      (isCode ▸ List.getElem_mem bound) ?_
    · rw [isAfter]
      change (j.state.db.write t _).held userId.toNat = _
      rw [Database.held_write, if_pos sameKey]
    · rintro r isRow
      obtain rfl := Option.some.inj isRow
      exact gone

theorem yields_delete (member : .encode code ∈ tf.backupCodes) :
    contract.Yields t request (Consuming t tf userId code verified) (call (.delete userId))
      fun _ => Taking t (userId, .encode code) := by
  refine Contract.yields_call stable_consuming fun j _ _ ⟨checked, backup⟩ =>
    ⟨(fun accepts => nomatch accepts), fun _ s' performs => ?_⟩
  have exec : Exec t j.state (.delete userId) (.ok ()) s' := performs.exec
  obtain ⟨⟨old, here⟩, isAfter⟩ := exec.delete_ok
  refine taking_of_writes none checked backup performs rfl here ⟨by rw [isAfter]; rfl, ?_⟩
    member fun _ none => nomatch none
  rw [isAfter]
  change (j.state.db.erase t _).held userId.toNat = _
  rw [Database.held_erase, if_pos rfl]

theorem yields_flush {totp : Bool} (ok : (checkCode tf code totp).1.ok = true) :
    contract.Yields t request
      (fun j => Checked t tf userId code verified j ∧ byBackup (j.log t) = !totp)
      (flush (checkCode tf code totp).2)
      fun _ j => byBackup (j.log t) = false ∨ Taking t (userId, .encode code) j := by
  rcases checkCode_ok ok with ⟨rfl, none⟩ | ⟨rfl, i, bound, isCode, isChanged⟩
  · rw [none]
    exact Contract.yields_pure fun j known => .inl known.2
  · rw [isChanged]
    exact (yields_update bound isCode).weaken (fun j known => known) fun _ _ => .inr

/-- The code was accepted as what the comparison has found it to be. -/
theorem yields_compared {p : Prog α} {post : α → History → Prop}
    (compared : ∀ totp, verified = checkCode tf code totp → contract.Yields t request
      (fun j => Checked t tf userId code verified j ∧ byBackup (j.log t) = !totp) p post) :
    contract.Yields t request (Checked t tf userId code verified) p post := by
  intro j start
  obtain ⟨running, checked⟩ := start
  obtain ⟨totp, backup, isVerified⟩ := checked.compared
  exact compared totp isVerified j ⟨running, checked, backup⟩

theorem yields_finishLogin :
    contract.Yields t request (Checked t tf userId code verified) (finishLogin userId verified)
      fun _ j => byBackup (j.log t) = false ∨ Taking t (userId, .encode code) j := by
  refine yields_compared fun totp isVerified => ?_
  have stable : contract.Stable t
      fun j => Checked t tf userId code verified j ∧ byBackup (j.log t) = !totp :=
    fun j j' rely known => ⟨stable_checked j j' rely known.1, (Rely.backup rely).trans known.2⟩
  have quietly {op : Op} (quiet : Quiet op) : contract.Yields t request
      (fun j => Checked t tf userId code verified j ∧ byBackup (j.log t) = !totp) (call op)
      fun _ j => Checked t tf userId code verified j ∧ byBackup (j.log t) = !totp :=
    yields_quiet stable (quiet_op quiet)
  obtain ⟨result, changed⟩ := verified
  have isResult : result = (checkCode tf code totp).1 := congrArg Prod.fst isVerified
  have isChanged : changed = (checkCode tf code totp).2 := congrArg Prod.snd isVerified
  unfold finishLogin
  dsimp only
  split
  next ok =>
    refine Contract.yields_bind _ (quietly trivial) fun _ =>
      Contract.yields_bind _ (quietly trivial) fun _ =>
        Contract.yields_bind _ (quietly trivial) fun _ =>
          Contract.yields_bind _ ?_ fun _ => Contract.yields_pure fun _ => id
    rw [isChanged]
    exact yields_flush (isResult ▸ ok)
  next => exact Contract.yields_bind _ (quietly trivial) fun _ => Contract.yields_throw

theorem yields_deleteByTotp :
    contract.Yields t request (fun j => byBackup (j.log t) = false) (call (.delete userId))
      fun _ j => byBackup (j.log t) = false := by
  refine Contract.yields_exec (fun _ _ rely none => (Rely.backup rely).trans none) fun j _ _ none =>
    ⟨(fun accepts => nomatch accepts), fun _ s' _ => ?_⟩
  rw [Journal.log_record]
  exact none

theorem yields_deleteChecked :
    contract.Yields t request (Checked t tf userId code verified)
      (if verified.1.ok then call (.delete tf.userId) else throw (badCode "That code didn't match."))
      fun _ j => byBackup (j.log t) = false ∨ Taking t (userId, .encode code) j := by
  refine yields_compared fun totp isVerified => ?_
  split
  next ok =>
    intro j start
    obtain ⟨running, checked, backup⟩ := start
    rw [isVerified] at ok
    rcases checkCode_ok ok with ⟨rfl, _⟩ | ⟨rfl, i, bound, isCode, _⟩
    · exact (yields_deleteByTotp.weaken (fun _ known => known) fun _ _ => .inl) j ⟨running, backup⟩
    · rw [checked.isUser]
      exact ((yields_delete (isCode ▸ List.getElem_mem bound)).weaken (fun _ known => known)
        fun _ _ => .inr) j ⟨running, checked, backup⟩
  next => exact Contract.yields_throw

end Consume

section Requests

variable {userId : UUID} {code : JavaString}

theorem yields_refused {verified : Verified} {post : VerifyResult → History → Prop}
    (refused : verified.1.ok = false) :
    contract.Yields t request (fun _ => True) (finishLogin userId verified) post := by
  obtain ⟨result, changed⟩ := verified
  unfold finishLogin
  dsimp only
  split
  next ok => cases ok.symm.trans refused
  next =>
    exact Contract.yields_bind _ (yields_quiet (fun _ _ _ _ => trivial) (quiet_op trivial))
      fun _ => Contract.yields_throw

theorem yields_verifyLogin (userId : UUID) (code : JavaString) :
    contract.Yields t request (Idle t) (verifyLogin userId code) fun verified j =>
      verified.1.ok = false ∨ ∃ tf, Checked t tf userId code verified j := by
  refine Contract.yields_bind _ (yields_findById userId) fun row => ?_
  cases isRow : row.filter TwoFactor.enabled with
  | none => exact Contract.yields_pure fun _ _ => .inl rfl
  | some tf =>
      have isSome : row = some tf := (Option.filter_eq_some_iff.mp isRow).1
      exact (yields_verify tf userId code).weaken (fun j known => known.2 tf isSome)
        fun verified j checked => .inr ⟨tf, checked⟩

theorem yields_login (userId : UUID) (code : JavaString) :
    contract.Yields t request (Idle t) (completeTwoFactorLogin userId code)
      fun _ => Earned t (userId, .encode code) := by
  refine yields_inTransaction ?_
  refine Contract.yields_bind _ (yields_quiet stable_idle (quiet_op trivial)) fun _ => ?_
  refine Contract.yields_bind _ (yields_verifyLogin userId code) fun verified => ?_
  intro j start
  obtain ⟨running, refused | ⟨tf, checked⟩⟩ := start
  · exact yields_refused refused j ⟨running, trivial⟩
  · exact yields_finishLogin j ⟨running, checked⟩

theorem yields_disable (userId : UUID) (code : JavaString) :
    contract.Yields t request (Idle t) (disable userId code)
      fun _ => Earned t (userId, .encode code) := by
  refine yields_inTransaction ?_
  refine Contract.yields_bind _ (yields_findById userId) fun row => ?_
  cases isRow : row.filter TwoFactor.enabled with
  | none => exact Contract.yields_throw
  | some tf =>
      have isSome : row = some tf := (Option.filter_eq_some_iff.mp isRow).1
      refine Contract.yields_bind _ ((yields_verify tf userId code).weaken
        (fun j known => known.2 tf isSome) fun _ _ => id) fun verified => ?_
      exact yields_deleteChecked

theorem yields_any {op : Op} (justified : ∀ j, Justified t j op) :
    contract.Yields t request (fun _ => True) (call op) fun _ _ => True :=
  Contract.yields_exec (fun _ _ _ _ => trivial) fun j _ _ _ => ⟨justified j, fun _ _ _ => trivial⟩

/-- A transaction whose end says nothing about a code. -/
theorem yields_plain {body : Prog α} (inside : contract.Yields t request pre body fun _ _ => True) :
    contract.Yields t request pre (inTransaction body) fun _ _ => True :=
  Contract.yields_transactional inside (yields_any fun _ accepts => nomatch accepts)
    fun _ => yields_any fun _ accepts => nomatch accepts

theorem yields_save {tf : TwoFactor} (none : tf.backupCodes = []) :
    contract.Yields t request (Idle t) (call (.update tf)) fun _ _ => True :=
  Contract.yields_exec stable_idle fun _ _ _ idle =>
    ⟨⟨idle.unwritten, none ▸ List.nodup_nil, .inl none⟩, fun _ _ _ => trivial⟩

theorem yields_merge {tf : TwoFactor} (none : tf.backupCodes = []) (managed : Option TwoFactor) :
    contract.Yields t request (Idle t) (merge tf managed) fun _ _ => True := by
  unfold merge
  cases managed with
  | some _ => exact yields_save none
  | none =>
      refine Contract.yields_bind _ (yields_findById tf.userId) fun row => ?_
      cases row with
      | some _ => exact (yields_save none).weaken (fun _ known => known.1) fun _ _ => id
      | none =>
          have inserts : contract.Yields t request (fun _ => True) (call (.insert tf)) fun _ _ => True :=
            yields_any fun _ => none
          exact inserts.weaken (fun _ _ => trivial) fun _ _ => id

theorem yields_setup (userId : UUID) :
    contract.Yields t request (Idle t) (setup userId) fun _ _ => True := by
  refine yields_plain (Contract.yields_bind _ (yields_findById userId) fun existing => ?_)
  split
  · exact Contract.yields_throw
  · have generates : contract.Yields t request (Idle t) (call .generateSecret) fun _ => Idle t :=
      yields_quiet stable_idle (quiet_op trivial)
    refine Contract.yields_bind (fun _ => Idle t) ?_ fun secret => ?_
    · exact generates.weaken (fun _ known => known.1) fun _ _ => id
    · exact Contract.yields_bind _ (yields_merge rfl existing) fun _ => Contract.yields_pure fun _ => id

theorem yields_enable (userId : UUID) (code : JavaString) :
    contract.Yields t request (fun _ => True) (enable userId code) fun _ _ => True := by
  refine yields_plain (Contract.yields_bind _ (yields_any fun _ accepts => nomatch accepts) fun row => ?_)
  cases row with
  | none => exact Contract.yields_throw
  | some tf =>
      change contract.Yields t request (fun _ => True) (activate tf code) fun _ _ => True
      unfold activate
      split
      · exact Contract.yields_throw
      · refine Contract.yields_bind _ (yields_any fun _ accepts => nomatch accepts) fun totp => ?_
        split
        · exact Contract.yields_bind _ (yields_any fun _ accepts => nomatch accepts) fun now =>
            yields_any fun _ accepts => nomatch accepts
        · exact Contract.yields_throw

/-- What is answered about a code. -/
theorem yields_answer {body : Prog α} {response : Except JavaError α → Response} {p : UUID × BackupHash}
    (isPresented : request.presented = some p)
    (refused : ∀ e, (Op.respond (response (.error e))).accepts = false)
    (earns : contract.Yields t request pre body fun _ => Earned t p) :
    contract.Yields t request pre (answer response body) fun _ _ => True := by
  refine Contract.yields_bind _ (Contract.yields_settle earns) fun result => ?_
  cases result with
  | error e =>
      exact yields_any fun j accepts => nomatch (refused e).symm.trans accepts
  | ok value =>
      refine Contract.yields_exec stable_earned fun j _ running earned => ⟨?_, fun _ _ _ => trivial⟩
      intro _ backup call p' running' isPresented'
      obtain rfl := Option.some.inj (running.symm.trans running')
      obtain rfl := Option.some.inj (isPresented.symm.trans isPresented')
      rcases earned with none | earned
      · cases none.symm.trans backup
      · exact earned

theorem yields_answer_plain {body : Prog α} {response : Except JavaError α → Response}
    (never : ∀ result, (Op.respond (response result)).accepts = false)
    (yields : contract.Yields t request pre body fun _ _ => True) :
    contract.Yields t request pre (answer response body) fun _ _ => True := by
  refine Contract.yields_bind (fun _ _ => True) ?_ fun result => ?_
  · refine (Contract.yields_settle yields).weaken (fun _ => id) fun _ _ _ => trivial
  · exact yields_any fun _ accepts => nomatch (never result).symm.trans accepts

theorem yields_program (request : Call) :
    contract.Yields t request (Idle t) request.program fun _ _ => True := by
  cases request with
  | login userId code => exact yields_answer rfl (fun _ => rfl) (yields_login userId code)
  | disable userId code => exact yields_answer rfl (fun _ => rfl) (yields_disable userId code)
  | setup userId => exact yields_answer_plain (fun _ => rfl) (yields_setup userId)
  | enable userId code =>
      have yields : contract.Yields t (.enable userId code) (fun _ => True)
          (TwoFactorAuth.enable userId code) fun _ _ => True := yields_enable userId code
      exact yields_answer_plain (fun _ => rfl) (yields.weaken (fun _ _ => trivial) fun _ _ => id)

end Requests

end Conduct

/-- Nobody writes, and the codes of a row were all given out, each once. -/
structure Settled (s : Server) : Prop where
  unheld : ∀ k, s.db.held k = none
  distinct : ∀ tf, s.db.Stored tf → tf.backupCodes.Nodup
  issued : ∀ tf, s.db.Stored tf → ∀ c ∈ tf.backupCodes, (tf.userId, c) ∈ s.issued

theorem Settled.kept {s : Server} (settled : Settled s) : Kept (.empty s : History) where
  known tf version := by
    rcases version with stored | ⟨t, isHeld⟩
    · exact ⟨settled.distinct tf stored, settled.issued tf stored⟩
    · cases (settled.unheld _).symm.trans isHeld
  begun _ k _ isHeld := nomatch (settled.unheld k).symm.trans isHeld
  once := List.nodup_nil
  burned _ member := nomatch member
  accepted _ _ member := nomatch member

theorem kept_of_reaches {s : Server} {j : History} (settled : Settled s)
    (reaches : service.Reaches (fun _ _ => True) UpToDate s j) : Kept j := by
  refine reaches.under contract settled.kept (fun j t call kept _ _ => ⟨?_, fun u _ => ?_⟩) fun t call => ?_
  · exact ⟨by simpa using kept.known, by simpa using kept.begun, by simpa using kept.once,
      by simpa using kept.burned, by simpa using kept.accepted⟩
  · exact ⟨by simp, by simp, by simp, by simp, by simp⟩
  · have yields : contract.Yields t call (Idle t) call.program fun _ _ => True := yields_program call
    refine Contract.Guides.weaken yields (fun j start => ?_) fun _ _ _ => trivial
    obtain ⟨kept, isFirst⟩ := start
    exact ⟨fun k version isHeld => kept.begun t k version isHeld isFirst, by rw [isFirst]; rfl⟩

theorem single_use (s : Server) (settled : Settled s) : SingleUse s UpToDate := by
  intro j reaches
  have kept := kept_of_reaches settled reaches
  constructor
  · intro t t' p isAccepted isAccepted'
    obtain ⟨e, member, thread, burns⟩ := kept.accepted t p isAccepted
    obtain ⟨e', member', thread', burns'⟩ := kept.accepted t' p isAccepted'
    rw [← thread, ← thread', done_once kept.once member member' burns burns']
  · intro t userId c isAccepted tf stored isUser
    obtain ⟨e, member, _, burns⟩ := kept.accepted t (userId, c) isAccepted
    have burned := kept.burned (userId, c) (List.mem_flatMap.mpr ⟨e, member, burns⟩)
    exact burned.2 tf (.inl stored) isUser

section Race

def firstCode : JavaString :=
  "AAAAA-11111".toList.map fun c => c.toNat.toUInt16

def secondCode : JavaString :=
  "BBBBB-22222".toList.map fun c => c.toNat.toUInt16

/-- A user who has two backup codes left. -/
def protectedUser : TwoFactor where
  userId := 1
  enabled := true
  secretSealed := []
  backupCodes := [.encode firstCode, .encode secondCode]
  enabledAt := some 0

def enrolled : Server where
  db := (Database.empty.write 0 protectedUser).commit 0
  issued := protectedUser.backupCodes.map (protectedUser.userId, ·)

theorem enrolled_settled : Settled enrolled := by
  have stored {tf : TwoFactor} (stored : enrolled.db.Stored tf) : tf = protectedUser := by
    have inTable := Database.mem_rows.mpr stored
    exact List.mem_singleton.mp inTable
  refine ⟨fun k => ?_, fun tf isStored => ?_, fun tf isStored c member => ?_⟩
  · simp [enrolled, Database.held_commit, Database.held_write]
  · rw [stored isStored]
    decide
  · rw [stored isStored] at member ⊢
    exact List.mem_map_of_mem member

theorem single_use_enrolled : SingleUse enrolled UpToDate :=
  single_use enrolled enrolled_settled

/-- Two logins with one code; each has read the row before the other writes it. -/
def race : Option History :=
  ((service.schedule perform fun _ => true).follow (Service.unstarted enrolled)
    (.start 0 (.login 1 firstCode) :: .start 1 (.login 1 firstCode) :: steps 0 3 ++ steps 1 3 ++
      steps 0 6 ++ steps 1 6)).map Config.state

theorem race_accepted : race.map (fun j => accepted j.past) =
    some [(1, 1, .encode firstCode), (0, 1, .encode firstCode)] := by
  decide +kernel

theorem race_reaches {j : History} (ran : race = some j) :
    service.Reaches (fun _ _ => True) (fun _ _ => True) enrolled j := by
  obtain ⟨config, followed, rfl⟩ := Option.map_eq_some_iff.mp ran
  have performs : ∀ t s op a result s', perform t s op a = some (result, s') →
      service.exec t s op result s' := fun _ _ _ a _ _ performed => ⟨a, performed⟩
  exact Service.reaches_follow (fun _ _ _ => trivial) performs (fun _ _ => trivial) followed

theorem used_twice : ¬SingleUse enrolled fun _ _ => True := by
  intro claim
  obtain ⟨j, ran, isAccepted⟩ := Option.map_eq_some_iff.mp race_accepted
  have once := (claim j (race_reaches ran)).1 0 1 (1, .encode firstCode)
  rw [isAccepted] at once
  exact absurd (once (by simp) (by simp)) (by decide)

end Race

end TwoFactorAuth
