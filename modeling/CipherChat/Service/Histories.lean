import CipherChat.Service.World

/-!
What the history of an account says about the counters of its v1 sessions.
-/

namespace E2EEService

open Async Number Primitives KeyStore Envelope EnvelopeV2 Store

namespace Event

/-- The session record a successful operation wrote. -/
def saved (e : Event) : Option StoredSession :=
  match e.op, e.result with
  | .saveSession session, .ok _ => some session
  | _, _ => none

def drawn (e : Event) : Option String :=
  match e.op, e.result with
  | .randomUUID, .ok sessionId => some sessionId
  | _, _ => none

def uploaded (e : Event) : Option Blob :=
  match e.op, e.result with
  | .putBackup blob, .ok _ => some blob
  | _, _ => none

def fetched (e : Event) : Option Blob :=
  match e.op, e.result with
  | .getBackup, .ok blob => some blob
  | _, _ => none

def encrypts (e : Event) : Prop :=
  ∃ conversationId peerId text, e.client.call = .encrypt conversationId peerId text

def decrypts (e : Event) : Prop :=
  ∃ conversationId senderId envelope own,
    e.client.call = .decrypt conversationId senderId envelope own

def encryptsCall (e : Event) : Bool :=
  match e.client.call with
  | .encrypt .. => true
  | _ => false

theorem not_encrypts {e : Event} (other : e.encryptsCall = false) : ¬e.encrypts := by
  rintro ⟨_, _, _, isEncrypt⟩
  simp [encryptsCall, isEncrypt] at other

theorem saved_eq_some {e : Event} {s : StoredSession} (saves : e.saved = some s) :
    e.op = .saveSession s ∧ e.fetched = none ∧ e.drawn = none ∧ e.uploaded = none := by
  obtain ⟨t, client, op, result, before⟩ := e
  unfold saved at saves
  split at saves
  next session _ isSave _ =>
    dsimp only at isSave
    subst isSave
    obtain rfl := Option.some.inj saves
    exact ⟨rfl, rfl, rfl, rfl⟩
  next => cases saves

end Event

/-- A record of this session of this conversation has been written. -/
def Saved (past : List Event) (sessionId conversationId : String) : Prop :=
  ∃ e ∈ past, ∃ s, e.saved = some s ∧ s.sessionId = sessionId ∧ s.conversationId = conversationId

/-- An `encrypt` has counted the session on; a write that retires it does not. -/
def CountedOn (past : List Event) (sessionId : String) : Prop :=
  ∃ e ∈ past, e.encrypts ∧ ∃ s, e.saved = some s ∧ s.sessionId = sessionId ∧ live s

/-- An `encrypt` has counted the session on past `n`. -/
def Ahead (past : List Event) (sessionId : String) (n : Nat) : Prop :=
  ∃ e ∈ past, e.encrypts ∧ ∃ s, e.saved = some s ∧ s.sessionId = sessionId ∧ live s ∧ n < s.sendCtr

/-- Of the writes of the session that were no `encrypt`'s, the last one put back a record
behind the counters that had been used. -/
def PutBackBehind (sessionId : String) : List Event → Prop
  | [] => False
  | e :: earlier =>
      (¬e.encrypts ∧ ∃ s, e.saved = some s ∧ s.sessionId = sessionId ∧
        Ahead earlier sessionId s.sendCtr) ∨
      ((e.encrypts ∨ ∀ s, e.saved = some s → s.sessionId ≠ sessionId) ∧
        PutBackBehind sessionId earlier)

/-- In `r` was read what `e` writes of the session: a decryption has looked it up itself, and a
restore puts back what the upload of the backup had listed. -/
def Reads (past : List Event) (e r : Event) (sessionId : String) : Prop :=
  (e.decrypts ∧ r.thread = e.thread ∧ r.op = .loadSession sessionId) ∨
    ∃ blob, ∃ fetch ∈ past, fetch.thread = e.thread ∧ fetch.fetched = some blob ∧
      ∃ upload ∈ past, upload.uploaded = some blob ∧ r.thread = upload.thread ∧ r.op = .allSessions

/-- The last write of the session that was no `encrypt`'s has put back a copy that was out of date:
an `encrypt` has counted the session on after the copy was read, or before it where nothing was
there to read, or the copy was one of such a copy. -/
inductive OutOfDate (sessionId : String) : List Event → Prop
  | overtaken {e s later r before} : ¬e.encrypts → e.saved = some s → s.sessionId = sessionId →
      Reads (later ++ r :: before) e r sessionId → CountedOn later sessionId →
      OutOfDate sessionId (e :: (later ++ r :: before))
  | again {e s later r before} : ¬e.encrypts → e.saved = some s → s.sessionId = sessionId →
      Reads (later ++ r :: before) e r sessionId → r.before.sessions.get sessionId = none →
      CountedOn before sessionId → OutOfDate sessionId (e :: (later ++ r :: before))
  | copied {e s later r before} : ¬e.encrypts → e.saved = some s → s.sessionId = sessionId →
      Reads (later ++ r :: before) e r sessionId → r.before.sessions.get sessionId ≠ none →
      OutOfDate sessionId before → OutOfDate sessionId (e :: (later ++ r :: before))
  | since {e earlier} : (e.encrypts ∨ ∀ s, e.saved = some s → s.sessionId ≠ sessionId) →
      OutOfDate sessionId earlier → OutOfDate sessionId (e :: earlier)

/-- The record was read in an operation that `is` holds of, with the counter it has. -/
def Source (past : List Event) (s : StoredSession) (is : Event → Prop) : Prop :=
  ∃ later r before, past = later ++ r :: before ∧ is r ∧
    ∀ held, r.before.sessions.get s.sessionId = some held → held.sendCtr = s.sendCtr

/-- Every operation found the records it had before it at their counters, or out of date. -/
def Told : List Event → Prop
  | [] => True
  | r :: before => (∀ held ∈ r.before.sessions.rows, Ahead before held.sessionId held.sendCtr →
      OutOfDate held.sessionId before) ∧ Told before

/-- No `encrypt` has written the session since the thread looked it up. -/
def Unwritten (t : Nat) (sessionId : String) : List Event → Prop
  | [] => True
  | e :: earlier => (e.thread = t ∧ e.op = .loadSession sessionId) ∨
      ((e.encrypts → ∀ s, e.saved = some s → s.sessionId ≠ sessionId) ∧
        Unwritten t sessionId earlier)

theorem unwritten_of_silent {t : Nat} {sessionId : String} {past : List Event}
    (silent : ∀ e ∈ past, ¬e.encrypts) : Unwritten t sessionId past := by
  induction past with
  | nil => trivial
  | cons e rest ih =>
      have foreign : ¬e.encrypts := silent e List.mem_cons_self
      exact .inr ⟨fun encrypts => absurd encrypts foreign,
        ih fun e' old => silent e' (List.mem_cons_of_mem _ old)⟩

/-- The thread has counted the session on from `n`, as the first to do so. -/
inductive Reserved (t : Nat) (sessionId : String) (n : Nat) : List Event → Prop
  | here {e s earlier} : e.thread = t → e.encrypts → e.saved = some s → s.sessionId = sessionId →
      live s → s.sendCtr = n + 1 → ¬Ahead earlier sessionId n → Reserved t sessionId n (e :: earlier)
  | later {e earlier} : Reserved t sessionId n earlier → Reserved t sessionId n (e :: earlier)

/-- A write does not set the counter or the retirement of a stored session back. -/
def Forward (e : Event) : Prop :=
  ∀ s held, e.saved = some s → e.before.sessions.get s.sessionId = some held →
    held.sendCtr ≤ s.sendCtr ∧ (live s = true → live held = true)

theorem Saved.cons {past : List Event} {sessionId conversationId : String} (e : Event)
    (isSaved : Saved past sessionId conversationId) : Saved (e :: past) sessionId conversationId := by
  obtain ⟨e', member, rest⟩ := isSaved
  exact ⟨e', List.mem_cons_of_mem e member, rest⟩

theorem saved_cons {past : List Event} {e : Event} {sessionId conversationId : String}
    (isSaved : Saved (e :: past) sessionId conversationId) :
    Saved past sessionId conversationId ∨
      ∃ s, e.saved = some s ∧ s.sessionId = sessionId ∧ s.conversationId = conversationId := by
  obtain ⟨e', member, s, rest⟩ := isSaved
  rcases List.mem_cons.mp member with rfl | old
  · exact .inr ⟨s, rest⟩
  · exact .inl ⟨e', old, s, rest⟩

theorem ahead_cons {past : List Event} {e : Event} {sessionId : String} {n : Nat}
    (ahead : Ahead (e :: past) sessionId n) :
    Ahead past sessionId n ∨ (e.encrypts ∧ ∃ s, e.saved = some s ∧ s.sessionId = sessionId ∧
      live s ∧ n < s.sendCtr) := by
  obtain ⟨e', member, rest⟩ := ahead
  rcases List.mem_cons.mp member with rfl | old
  · exact .inr rest
  · exact .inl ⟨e', old, rest⟩

theorem Ahead.saved {past : List Event} {sessionId : String} {n : Nat}
    (ahead : Ahead past sessionId n) : ∃ conversationId, Saved past sessionId conversationId := by
  obtain ⟨e, member, _, s, saves, named, _, _⟩ := ahead
  exact ⟨s.conversationId, e, member, s, saves, named, rfl⟩

theorem Ahead.mono {past : List Event} {sessionId : String} {m n : Nat} (le : m ≤ n)
    (ahead : Ahead past sessionId n) : Ahead past sessionId m := by
  obtain ⟨e, member, encrypts, s, saves, named, counts, above⟩ := ahead
  exact ⟨e, member, encrypts, s, saves, named, counts, by omega⟩

theorem Ahead.countedOn {past : List Event} {sessionId : String} {n : Nat}
    (ahead : Ahead past sessionId n) : CountedOn past sessionId := by
  obtain ⟨e, member, encrypts, s, saves, named, counts, _⟩ := ahead
  exact ⟨e, member, encrypts, s, saves, named, counts⟩

/-- A session counted on was counted on after an operation that wrote nothing, or before it. -/
theorem ahead_split {later before : List Event} {r : Event} {sessionId : String} {n : Nat}
    (reads : r.saved = none) (ahead : Ahead (later ++ r :: before) sessionId n) :
    CountedOn later sessionId ∨ Ahead before sessionId n := by
  obtain ⟨e, member, encrypts, s, saves, named, counts, above⟩ := ahead
  rcases List.mem_append.mp member with inLater | inRest
  · exact .inl ⟨e, inLater, encrypts, s, saves, named, counts⟩
  · rcases List.mem_cons.mp inRest with rfl | inBefore
    · rw [reads] at saves
      cases saves
    · exact .inr ⟨e, inBefore, encrypts, s, saves, named, counts, above⟩

theorem Source.cons {past : List Event} {s : StoredSession} {is is' : Event → Prop} (e : Event)
    (source : Source past s is) (imp : ∀ r, is r → is' r) : Source (e :: past) s is' := by
  obtain ⟨later, r, before, rfl, isSource, same⟩ := source
  exact ⟨e :: later, r, before, rfl, imp r isSource, same⟩

theorem Reads.saved {past : List Event} {e r : Event} {sessionId : String}
    (reads : Reads past e r sessionId) : r.saved = none := by
  obtain ⟨t, client, op, result, before⟩ := r
  rcases reads with ⟨_, _, rfl⟩ | ⟨_, _, _, _, _, _, _, _, _, rfl⟩
  · rfl
  · rfl

theorem Told.at {later before : List Event} {r : Event} (told : Told (later ++ r :: before)) :
    ∀ held ∈ r.before.sessions.rows, Ahead before held.sessionId held.sendCtr →
      OutOfDate held.sessionId before := by
  induction later with
  | nil => exact told.1
  | cons e rest ih => exact ih told.2

/-- What is put back behind the counters is out of date. -/
theorem Source.outOfDate {past : List Event} {e : Event} {s : StoredSession} (told : Told past)
    (source : Source past s fun r => Reads past e r s.sessionId) (foreign : ¬e.encrypts)
    (saves : e.saved = some s) (ahead : Ahead past s.sessionId s.sendCtr) :
    OutOfDate s.sessionId (e :: past) := by
  obtain ⟨later, r, before, rfl, reads, same⟩ := source
  rcases ahead_split reads.saved ahead with overtaken | old
  · exact .overtaken foreign saves rfl reads overtaken
  cases found : r.before.sessions.get s.sessionId with
  | none => exact .again foreign saves rfl reads found old.countedOn
  | some held =>
      have named : held.sessionId = s.sessionId := Table.key_of_get found
      have behind := told.at held (Table.mem_of_get found)
      rw [named, same held found] at behind
      exact .copied foreign saves rfl reads (by simp [found]) (behind old)

theorem Reserved.ahead {t : Nat} {sessionId : String} {n : Nat} {past : List Event}
    (reserved : Reserved t sessionId n past) : Ahead past sessionId n := by
  induction reserved with
  | @here e s earlier _ encrypts saves named counts counted _ =>
      exact ⟨e, List.mem_cons_self, encrypts, s, saves, named, counts, by omega⟩
  | later _ ih =>
      obtain ⟨e, member, rest⟩ := ih
      exact ⟨e, List.mem_cons_of_mem _ member, rest⟩

/-- One thread alone counts a session on from `n`. -/
theorem Reserved.unique {t u : Nat} {sessionId : String} {n : Nat} {past : List Event}
    (mine : Reserved t sessionId n past) (theirs : Reserved u sessionId n past) : t = u := by
  induction mine with
  | here isMine _ _ _ _ _ first =>
      cases theirs with
      | here isTheirs => exact isMine.symm.trans isTheirs
      | later earlier => exact absurd earlier.ahead first
  | later earlier ih =>
      cases theirs with
      | here _ _ _ _ _ _ first => exact absurd earlier.ahead first
      | later theirs => exact ih theirs

end E2EEService
