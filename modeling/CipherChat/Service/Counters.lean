import CipherChat.Service.Histories
import CipherChat.Service.Outcomes

/-!
The counters of v1 sessions over every interleaving of the calls of one account: what each
write must respect, the invariant this keeps, and that every call respects it.
-/

namespace Counters

open Async Number Primitives KeyStore Envelope EnvelopeV2 Store E2EEService

/-- `randomUUID` returns new ids, and nobody names one before it is used. -/
structure FreshIds (w : World) (e : Event) : Prop where
  drawn : ∀ sessionId, e.drawn = some sessionId → ∀ e' ∈ w.past,
    e'.drawn ≠ some sessionId ∧ ∀ s, e'.saved = some s → s.sessionId ≠ sessionId
  unguessed : e.decrypts → ∀ s, e.saved = some s → ∀ e' ∈ w.past, e'.drawn = some s.sessionId →
    ∃ conversationId, Saved w.past s.sessionId conversationId

/-- A decryption writes a session only if no encryption has written it since the decryption
looked it up, and only for the conversation the session has been written for. -/
structure Unraced (w : World) (e : Event) : Prop where
  unwritten : e.decrypts → ∀ s, e.saved = some s → Unwritten e.thread s.sessionId w.past
  agreed : e.decrypts → ∀ s, e.saved = some s → ∀ conversationId,
    Saved w.past s.sessionId conversationId → conversationId = s.conversationId

/-- Only the newest browser is used. -/
def OnNewest (w : World) (e : Event) : Prop :=
  ∀ u client, w.calls u = some client → client.device ≤ e.client.device

/-- A restore fetches a backup as it was uploaded. -/
def OwnBackups (w : World) (e : Event) : Prop :=
  ∀ code, e.client.call = .restoreFromBackup code → ∀ blob, e.fetched = some blob →
    ∃ e' ∈ w.past, e'.uploaded = some blob

/-- The session an encryption goes on with was not put back out of date. -/
def Current (w : World) (e : Event) : Prop :=
  e.encrypts → ∀ conversationId, e.op = .loadConversationSessions conversationId → ∀ s,
    chooseSession (e.before.sessions.rows.filter fun s => s.conversationId = conversationId) =
      some s → ¬OutOfDate s.sessionId w.past

/-- All calls on one browser, none of them a restore. -/
def OneBrowser (w : World) : Prop :=
  ∃ n, ∀ u client, w.calls u = some client →
    client.device = n ∧ ∀ code, client.call ≠ .restoreFromBackup code

structure Careful (w : World) (e : Event) : Prop where
  fresh : FreshIds w e
  unraced : Unraced w e
  newest : OnNewest w e
  backups : OwnBackups w e
  current : OneBrowser w ∨ Current w e

/-- The conversation is not shredded. -/
def Unshredded (client : Client) : Prop :=
  ∀ conversationId, client.call ≠ .shredConversation conversationId

/-- A record that `held` has become without an encryption: one just accepted, or one with the
counter and the retirement it had. -/
def Kept : Option StoredSession → Option StoredSession → Prop
  | none, none => True
  | none, some s => s.sendCtr = 0 ∧ s.retiredAt = none
  | some held, some s => s.sendCtr = held.sendCtr ∧ s.retiredAt = held.retiredAt
  | some _, none => False

theorem Kept.refl (held : Option StoredSession) : Kept held held := by
  cases held with
  | none => trivial
  | some s => exact ⟨rfl, rfl⟩

theorem Kept.trans {first second third : Option StoredSession} (before : Kept first second)
    (after : Kept second third) : Kept first third := by
  cases first with
  | none =>
      cases second with
      | none => exact after
      | some s =>
          cases third with
          | none => exact after.elim
          | some s' => exact ⟨after.1.trans before.1, after.2.trans before.2⟩
  | some s =>
      cases second with
      | none => exact before.elim
      | some s' =>
          cases third with
          | none => exact after.elim
          | some s'' => exact ⟨after.1.trans before.1, after.2.trans before.2⟩

/-- What every write of a session record respects. -/
structure FairSave (w : World) (e : Event) (s : StoredSession) : Prop where
  agreed : ∀ conversationId, Saved w.past s.sessionId conversationId →
    conversationId = s.conversationId
  drawn : (∃ conversationId, Saved w.past s.sessionId conversationId) ∨
    ∀ e' ∈ w.past, e'.drawn = some s.sessionId → e'.thread = e.thread
  locked : e.encrypts → e.before.locks s.conversationId = some e.thread
  level : e.encrypts → ¬Ahead w.past s.sessionId s.sendCtr
  forward : OneBrowser w → Forward e
  kept : OneBrowser w → ¬e.encrypts → Kept (e.before.sessions.get s.sessionId) (some s)
  source : ¬e.encrypts → Source w.past s fun r => Reads w.past e r s.sessionId

/-- The record was listed by the thread. -/
def Listed (t : Nat) (past : List Event) (s : StoredSession) : Prop :=
  Source past s fun r => r.thread = t ∧ r.op = .allSessions

theorem Listed.cons {t : Nat} {past : List Event} {s : StoredSession} (e : Event)
    (listed : Listed t past s) : Listed t (e :: past) s :=
  Source.cons e listed fun _ => id

structure Fair (w : World) (e : Event) : Prop where
  release : ∀ name, e.op = .release name → e.before.locks name = some e.thread
  keeps : ∀ conversationId, e.op ≠ .deleteConversationData conversationId
  upload : ∀ blob, e.uploaded = some blob → ∀ s ∈ blob.payload.sessions,
    Saved w.past s.sessionId s.conversationId ∧ Listed e.thread w.past s
  save : ∀ s, e.saved = some s → FairSave w e s

structure Inv (w : World) : Prop where
  known : ∀ e ∈ w.past, w.calls e.thread = some e.client
  stored : ∀ n, ∀ s ∈ (w.devices n).sessions.rows, ∃ e ∈ w.past, e.client.device = n ∧ ∃ s',
    e.saved = some s' ∧ s'.sessionId = s.sessionId ∧ s'.conversationId = s.conversationId
  held : ∀ e ∈ w.past, ∀ s, e.saved = some s →
    (w.devices e.client.device).sessions.get s.sessionId ≠ none
  agreed : ∀ sessionId c c', Saved w.past sessionId c → Saved w.past sessionId c' → c = c'
  draws : ∀ e ∈ w.past, ∀ e' ∈ w.past, ∀ sessionId, e.drawn = some sessionId →
    e'.drawn = some sessionId → e.thread = e'.thread
  blobs : ∀ e ∈ w.past, ∀ blob, e.uploaded = some blob → ∀ s ∈ blob.payload.sessions,
    Saved w.past s.sessionId s.conversationId ∧ Listed e.thread w.past s
  level : ∀ n, (∀ u client, w.calls u = some client → client.device ≤ n) →
    ∀ s ∈ (w.devices n).sessions.rows, (OneBrowser w ∨ ¬PutBackBehind s.sessionId w.past) →
      ¬Ahead w.past s.sessionId s.sendCtr
  forward : OneBrowser w → ∀ e ∈ w.past, Forward e
  behind : ∀ sessionId, PutBackBehind sessionId w.past → OutOfDate sessionId w.past
  told : Told w.past

section Steps

variable {w : World} {permits : World → Event → Prop} {e : Event} {d : Device}

/-- An operation writes one session record or none. -/
theorem sessions_after (performs : w.Performs permits e d)
    (keeps : ∀ conversationId, e.op ≠ .deleteConversationData conversationId) :
    (∃ s, e.saved = some s ∧ d.sessions = e.before.sessions.put s) ∨
      (e.saved = none ∧ d.sessions = e.before.sessions) := by
  obtain ⟨t, client, op, result, before⟩ := e
  have exec : Exec t before op result d := performs.exec
  rcases exec_cases exec with ⟨error, rfl, rfl⟩ | ⟨value, rfl, rfl, _⟩
  · refine .inr ⟨?_, rfl⟩
    cases op <;> rfl
  · cases op with
    | saveSession s => exact .inl ⟨s, rfl, rfl⟩
    | deleteConversationData conversationId => exact absurd rfl (keeps conversationId)
    | _ => exact .inr ⟨rfl, rfl⟩

/-- A lock is held until its holder releases it. -/
theorem lock_after (performs : w.Performs permits e d) {name : String} {t : Nat}
    (held : e.before.locks name = some t) (unreleased : e.op ≠ .release name) :
    d.locks name = some t := by
  obtain ⟨u, client, op, result, before⟩ := e
  have exec : Exec u before op result d := performs.exec
  rcases exec_cases exec with ⟨error, rfl, rfl⟩ | ⟨value, rfl, rfl, _⟩
  · exact held
  · cases op with
    | acquire other =>
        by_cases same : name = other
        · subst same
          have free := (exec_ok.mp exec).1
          simp only [blocked] at free
          dsimp only at held
          simp [held] at free
        · simpa [effect, same] using held
    | release other =>
        have differs : name ≠ other := fun same => unreleased (by rw [same])
        simpa [effect, differs] using held
    | _ => exact held

theorem lock_lasts (performs : w.Performs permits e d) (fair : Fair w e) {name : String} {t : Nat}
    (held : e.before.locks name = some t) (other : e.thread ≠ t) : d.locks name = some t := by
  refine lock_after performs held fun released => ?_
  have owner := fair.release name released
  rw [held, Option.some.injEq] at owner
  exact other owner.symm

/-- The sessions of a browser after an operation, on it or on another one. -/
theorem get_after (performs : w.Performs permits e d)
    (keeps : ∀ conversationId, e.op ≠ .deleteConversationData conversationId) (n : Nat)
    (sessionId : String) :
    (∃ s, e.saved = some s ∧ e.client.device = n ∧ s.sessionId = sessionId ∧
      ((w.record e d).devices n).sessions.get sessionId = some s) ∨
    ((∀ s, e.saved = some s → e.client.device = n → s.sessionId ≠ sessionId) ∧
      ((w.record e d).devices n).sessions.get sessionId =
        (w.devices n).sessions.get sessionId) := by
  by_cases here : e.client.device = n
  · subst here
    rw [World.record_device_self, ← performs.before]
    rcases sessions_after performs keeps with ⟨s, saves, after⟩ | ⟨none, after⟩
    · by_cases same : s.sessionId = sessionId
      · subst same
        exact .inl ⟨s, saves, rfl, rfl, by rw [after, Table.get_put_self]⟩
      · refine .inr ⟨fun s' saves' _ => ?_, by rw [after, Table.get_put_of_ne same]⟩
        rw [saves, Option.some.injEq] at saves'
        exact saves' ▸ same
    · refine .inr ⟨fun s' saves' _ => ?_, by rw [after]⟩
      rw [none] at saves'
      cases saves'
  · refine .inr ⟨fun _ _ same => absurd same here, ?_⟩
    rw [World.record_device_of_ne _ _ _ (Ne.symm here)]

theorem oneBrowser_begin {t : Nat} {client : Client} (idle : w.calls t = none)
    (one : OneBrowser (w.begin t client)) : OneBrowser w := by
  obtain ⟨n, same⟩ := one
  refine ⟨n, fun u client' running => same u client' ?_⟩
  have other : u ≠ t := by
    intro equal
    rw [equal, idle] at running
    cases running
  rw [World.begin_calls_of_ne _ _ _ _ other]
  exact running

theorem Inv.begin {t : Nat} {client : Client} (inv : Inv w) (idle : w.calls t = none) :
    Inv (w.begin t client) where
  known e member := World.calls_begin idle (inv.known e member)
  stored := inv.stored
  held := inv.held
  agreed := inv.agreed
  draws := inv.draws
  blobs := inv.blobs
  level n newest s member source := by
    refine inv.level n (fun u client' running => ?_) s member
      (source.imp_left (oneBrowser_begin idle))
    exact newest u client' (World.calls_begin idle running)
  forward one := inv.forward (oneBrowser_begin idle one)
  behind := inv.behind
  told := inv.told

/-- The record just written has a counter that no message has used. -/
theorem Inv.level_saved (inv : Inv w) (performs : w.Performs Careful e d) (fair : Fair w e)
    {s : StoredSession} (saves : e.saved = some s)
    (source : OneBrowser (w.record e d) ∨ ¬PutBackBehind s.sessionId (w.record e d).past) :
    ¬Ahead (w.record e d).past s.sessionId s.sendCtr := by
  intro ahead
  have save := fair.save s saves
  by_cases encrypts : e.encrypts
  · rcases ahead_cons ahead with old | ⟨_, s', saves', _, _, above⟩
    · exact save.level encrypts old
    · rw [saves, Option.some.injEq] at saves'
      rw [saves'] at above
      omega
  · rcases ahead_cons ahead with old | ⟨impossible, _⟩
    swap
    · exact encrypts impossible
    rcases source with one | straight
    · have same := save.kept one encrypts
      cases stored : e.before.sessions.get s.sessionId with
      | none =>
          -- a session counted on before would be stored here
          obtain ⟨e', old', _, s', saves', named', _⟩ := old
          obtain ⟨m, single⟩ := one
          have first := (single _ _ (inv.known e' old')).1
          have second := (single _ _ performs.running).1
          apply inv.held e' old' s' saves'
          rw [named', first, ← second, ← performs.before]
          exact stored
      | some held =>
          rw [stored] at same
          have rows : held ∈ (w.devices e.client.device).sessions.rows := by
            rw [← performs.before]
            exact Table.mem_of_get stored
          have key : held.sessionId = s.sessionId := Table.key_of_get stored
          refine inv.level _ performs.permitted.newest held rows (.inl one) ?_
          rw [key, ← same.1]
          exact old
    · exact straight (.inl ⟨encrypts, s, saves, rfl, old⟩)

/-- A record of the newest device that was not written is as level as before. -/
theorem Inv.level_untouched (inv : Inv w) {s : StoredSession}
    (rows : s ∈ (w.devices e.client.device).sessions.rows)
    (newest : ∀ u client, w.calls u = some client → client.device ≤ e.client.device)
    (untouched : ∀ s', e.saved = some s' → s'.sessionId ≠ s.sessionId)
    (source : OneBrowser (w.record e d) ∨ ¬PutBackBehind s.sessionId (w.record e d).past) :
    ¬Ahead (w.record e d).past s.sessionId s.sendCtr := by
  intro ahead
  rcases ahead_cons ahead with old | ⟨_, s', saves, named, _, _⟩
  · refine inv.level _ newest s rows (source.imp_right fun straight behind => ?_) old
    exact straight (.inr ⟨.inr untouched, behind⟩)
  · exact untouched s' saves named

/-- Fair operations keep the invariant. -/
theorem Inv.record (inv : Inv w) (performs : w.Performs Careful e d) (fair : Fair w e) :
    Inv (w.record e d) := by
  have careful := performs.permitted
  have newest : ∀ n, (∀ s ∈ (w.devices n).sessions.rows,
      ∃ u client, w.calls u = some client ∧ client.device = n) := by
    intro n s member
    obtain ⟨e', old, here, _⟩ := inv.stored n s member
    exact ⟨e'.thread, e'.client, inv.known e' old, here⟩
  refine ⟨?_, ?_, ?_, ?_, ?_, ?_, ?_, ?_, ?_, ?_⟩
  · intro e' member
    rcases List.mem_cons.mp member with rfl | old
    · exact performs.running
    · exact inv.known e' old
  · intro n s member
    have found := Table.get_of_mem member
    rcases get_after performs fair.keeps n s.sessionId with ⟨s', saves, here, named, after⟩ |
      ⟨_, after⟩
    · rw [after, Option.some.injEq] at found
      exact ⟨e, List.mem_cons_self, here, s', saves, named, by rw [found]⟩
    · rw [after] at found
      obtain ⟨e', old, rest⟩ := inv.stored n s (Table.mem_of_get found)
      exact ⟨e', List.mem_cons_of_mem _ old, rest⟩
  · intro e' member s saves
    rcases get_after performs fair.keeps e'.client.device s.sessionId with ⟨_, _, _, _, after⟩ |
      ⟨others, after⟩
    · rw [after]
      simp
    · rw [after]
      rcases List.mem_cons.mp member with rfl | old
      · exact absurd rfl (others s saves rfl)
      · exact inv.held e' old s saves
  · intro sessionId c c' first second
    rcases saved_cons first with old | ⟨s, saves, named, rfl⟩
    · rcases saved_cons second with old' | ⟨s', saves', named', rfl⟩
      · exact inv.agreed sessionId c c' old old'
      · exact (fair.save s' saves').agreed c (named' ▸ old)
    · rcases saved_cons second with old' | ⟨s', saves', named', rfl⟩
      · exact ((fair.save s saves).agreed c' (named ▸ old')).symm
      · rw [saves, Option.some.injEq] at saves'
        rw [saves']
  · intro e₁ member₁ e₂ member₂ sessionId drawn₁ drawn₂
    rcases List.mem_cons.mp member₁ with rfl | old₁
    · rcases List.mem_cons.mp member₂ with rfl | old₂
      · rfl
      · exact absurd drawn₂ (careful.fresh.drawn sessionId drawn₁ e₂ old₂).1
    · rcases List.mem_cons.mp member₂ with rfl | old₂
      · exact absurd drawn₁ (careful.fresh.drawn sessionId drawn₂ e₁ old₁).1
      · exact inv.draws e₁ old₁ e₂ old₂ sessionId drawn₁ drawn₂
  · intro e' member blob uploaded s inBlob
    rcases List.mem_cons.mp member with rfl | old
    · obtain ⟨isSaved, listed⟩ := fair.upload blob uploaded s inBlob
      exact ⟨isSaved.cons _, listed.cons _⟩
    · obtain ⟨isSaved, listed⟩ := inv.blobs e' old blob uploaded s inBlob
      exact ⟨isSaved.cons _, listed.cons _⟩
  · intro n isNewest s member source ahead
    have found := Table.get_of_mem member
    rcases get_after performs fair.keeps n s.sessionId with ⟨s', saves, here, named, after⟩ |
      ⟨others, after⟩
    · rw [after, Option.some.injEq] at found
      subst found
      exact inv.level_saved performs fair saves source ahead
    · rw [after] at found
      have rows := Table.mem_of_get found
      have here : e.client.device = n := by
        obtain ⟨u, client, running, same⟩ := newest n s rows
        have up := careful.newest u client running
        have down := isNewest e.thread e.client performs.running
        omega
      subst here
      exact inv.level_untouched rows careful.newest (fun s' saves => others s' saves rfl) source ahead
  · intro one e' member
    rcases List.mem_cons.mp member with rfl | old
    · intro s held saves found
      exact (fair.save s saves).forward one s held saves found
    · exact inv.forward one e' old
  · intro sessionId putBack
    rcases putBack with ⟨foreign, s, saves, rfl, ahead⟩ | ⟨untouched, before⟩
    · exact ((fair.save s saves).source foreign).outOfDate inv.told foreign saves ahead
    · exact .since untouched (inv.behind sessionId before)
  · refine ⟨fun held member ahead => ?_, inv.told⟩
    rw [performs.before] at member
    by_contra current
    exact inv.level e.client.device careful.newest held member
      (.inr fun behind => current (inv.behind _ behind)) ahead

end Steps

/-- The operations that touch no session, no lock, no backup and draw no session id. -/
def Inert : Op → Prop
  | .acquire _ | .release _ | .loadSession _ | .saveSession _ | .deleteConversationData _
  | .randomUUID | .putBackup _ | .getBackup => False
  | _ => True

theorem saved_inert {e : Event} (inert : Inert e.op) : e.saved = none := by
  obtain ⟨t, client, op, result, before⟩ := e
  cases op <;> first | rfl | exact inert.elim

theorem fair_unsaved {w : World} {e : Event} (unsaved : e.saved = none)
    (release : ∀ name, e.op = .release name → e.before.locks name = some e.thread)
    (keeps : ∀ conversationId, e.op ≠ .deleteConversationData conversationId)
    (upload : e.uploaded = none) : Fair w e where
  release := release
  keeps := keeps
  upload blob uploaded := by
    rw [upload] at uploaded
    cases uploaded
  save s saves := by
    rw [unsaved] at saves
    cases saves

theorem fair_inert {w : World} {e : Event} (inert : Inert e.op) : Fair w e := by
  refine fair_unsaved (saved_inert inert) ?_ ?_ ?_
  · intro name released
    rw [released] at inert
    exact inert.elim
  · intro conversationId deletes
    rw [deletes] at inert
    exact inert
  · obtain ⟨t, client, op, result, before⟩ := e
    cases op <;> first | rfl | exact inert.elim

abbrev discipline : Discipline Op Op.Res World :=
  histories Careful Fair Inv

/-- What thread `t` knows lasts while the others take fair steps and it takes inert ones. -/
structure Steady (t : Nat) (client : Client) (known : World → Prop) : Prop where
  running : ∀ {w}, known w → w.calls t = some client
  begin : ∀ {w u other}, known w → w.calls u = none → known (w.begin u other)
  record : ∀ {w e d}, Inv w → known w → w.Performs Careful e d → Fair w e →
    e.thread ≠ t ∨ Inert e.op → known (w.record e d)

section

variable {t : Nat} {client : Client} {known : World → Prop} {α : Type}

theorem Steady.lasts (steady : Steady t client known) : Lasts Careful Fair Inv t known := by
  intro w w' inv holds step
  cases step with
  | begin _ idle => exact steady.begin holds idle
  | event other performs fair => exact steady.record inv holds performs fair (.inl other)

theorem kept (w : World) (e : Event) (d : Device) (inv : Inv w)
    (performs : w.Performs Careful e d) (fair : Fair w e) : Inv (w.record e d) :=
  inv.record performs fair

theorem Steady.call (steady : Steady t client known) {op : Op} {post : op.Res → World → Prop}
    (step : ∀ w result d, Inv w → known w → w.Performs Careful (w.event t client op result) d →
      Fair w (w.event t client op result) ∧
        post result (w.record (w.event t client op result) d)) :
    discipline.Triple t known (E2EEService.call op) post :=
  triple_call steady.lasts (fun _ => steady.running) kept step

theorem Steady.inert (steady : Steady t client known) {p : Prog α} (uses : Uses Inert p.run) :
    discipline.Triple t known p fun _ => known := by
  refine triple_inert steady.lasts (fun _ => steady.running) kept ?_ uses
  intro op inert w result d inv holds performs
  have fair : Fair w (w.event t client op result) := fair_inert inert
  exact ⟨fair, steady.record inv holds performs fair (.inr inert)⟩

/-- The thread is under way. -/
def Running (t : Nat) (client : Client) (w : World) : Prop :=
  w.calls t = some client

/-- The thread holds the lock of the conversation. -/
structure Locked (t : Nat) (client : Client) (conversationId : String) (w : World) : Prop where
  running : w.calls t = some client
  locked : (w.devices client.device).locks conversationId = some t

/-- The thread is about to go on with this session. -/
structure Picked (t : Nat) (client : Client) (conversationId : String) (s : StoredSession)
    (w : World) : Prop where
  locked : Locked t client conversationId w
  conversation : s.conversationId = conversationId
  unretired : live s = true
  saved : Saved w.past s.sessionId conversationId
  level : (∀ u other, w.calls u = some other → other.device ≤ client.device) →
    ¬Ahead w.past s.sessionId s.sendCtr
  stored : OneBrowser w → ∃ held, (w.devices client.device).sessions.get s.sessionId = some held ∧
    held.sendCtr = s.sendCtr ∧ held.retiredAt = s.retiredAt

/-- The thread has drawn a session id that nobody has used. -/
structure Unused (t : Nat) (client : Client) (conversationId sessionId : String) (w : World) :
    Prop where
  locked : Locked t client conversationId w
  drawn : ∃ e ∈ w.past, e.thread = t ∧ e.drawn = some sessionId
  unsaved : ∀ c, ¬Saved w.past sessionId c

variable {conversationId sessionId : String} {s : StoredSession}

theorem steady_running : Steady t client (Running t client) where
  running := id
  begin running idle := World.calls_begin idle running
  record _ running _ _ _ := running

theorem steady_locked : Steady t client (Locked t client conversationId) where
  running holds := holds.running
  begin holds idle := ⟨World.calls_begin idle holds.running, holds.locked⟩
  record := by
    intro w e d _ holds performs fair other
    refine ⟨holds.running, ?_⟩
    by_cases here : e.client.device = client.device
    · have held : e.before.locks conversationId = some t := by
        rw [performs.before, here]
        exact holds.locked
      rw [← here, World.record_device_self]
      rcases other with other | inert
      · exact lock_lasts performs fair held other
      · refine lock_after performs held fun released => ?_
        rw [released] at inert
        exact inert
    · rw [World.record_device_of_ne _ _ _ (Ne.symm here)]
      exact holds.locked

/-- While the thread holds the lock, no encryption but its own writes a session of the
conversation. -/
theorem Locked.exclusive {w : World} {e : Event} {d : Device} {s' : StoredSession}
    (holds : Locked t client conversationId w) (performs : w.Performs Careful e d)
    (fair : Fair w e) (here : e.client.device = client.device) (saves : e.saved = some s')
    (same : s'.conversationId = conversationId) (encrypts : e.encrypts) : e.thread = t := by
  have owner := (fair.save s' saves).locked encrypts
  rw [performs.before, here, same, holds.locked, Option.some.injEq] at owner
  exact owner.symm

theorem steady_picked : Steady t client (Picked t client conversationId s) where
  running holds := holds.locked.running
  begin := by
    intro w u other holds idle
    refine ⟨steady_locked.begin holds.locked idle, holds.conversation, holds.unretired,
      holds.saved, fun newest => ?_, fun one => holds.stored (oneBrowser_begin idle one)⟩
    exact holds.level fun u' other' running => newest u' other' (World.calls_begin idle running)
  record := by
    intro w e d inv holds performs fair other
    -- the session is written by no other encryption
    have foreign : ∀ s', e.saved = some s' → s'.sessionId = s.sessionId →
        e.client.device = client.device → ¬e.encrypts := by
      intro s' saves named here encrypts
      have same := (fair.save s' saves).agreed conversationId (named ▸ holds.saved)
      have mine := holds.locked.exclusive performs fair here saves same.symm encrypts
      rcases other with other | inert
      · exact other mine
      · rw [saved_inert inert] at saves
        cases saves
    refine ⟨steady_locked.record inv holds.locked performs fair other, holds.conversation,
      holds.unretired, holds.saved.cons e, fun newest ahead => ?_, fun one => ?_⟩
    · rcases ahead_cons ahead with old | ⟨encrypts, s', saves, named, _, _⟩
      · exact holds.level newest old
      · have down := newest e.thread e.client performs.running
        have up := performs.permitted.newest t client holds.locked.running
        exact foreign s' saves named (by omega) encrypts
    · obtain ⟨held, found, counter, retired⟩ := holds.stored one
      rcases get_after performs fair.keeps client.device s.sessionId with
        ⟨s', saves, here, named, after⟩ | ⟨_, after⟩
      · have same := (fair.save s' saves).kept one (foreign s' saves named here)
        rw [performs.before, here, named, found] at same
        exact ⟨s', after, same.1.trans counter, same.2.trans retired⟩
      · exact ⟨held, after.trans found, counter, retired⟩

theorem steady_unused : Steady t client (Unused t client conversationId sessionId) where
  running holds := holds.locked.running
  begin holds idle := ⟨steady_locked.begin holds.locked idle, holds.drawn, holds.unsaved⟩
  record := by
    intro w e d inv holds performs fair other
    obtain ⟨e', old, mine, drawn⟩ := holds.drawn
    refine ⟨steady_locked.record inv holds.locked performs fair other,
      ⟨e', List.mem_cons_of_mem _ old, mine, drawn⟩, fun c isSaved => ?_⟩
    rcases saved_cons isSaved with before | ⟨s', saves, named, _⟩
    · exact holds.unsaved c before
    · rcases other with other | inert
      · rcases (fair.save s' saves).drawn with ⟨c', before⟩ | own
        · exact holds.unsaved c' (named ▸ before)
        · exact other ((own e' old (named ▸ drawn)).symm.trans mine)
      · rw [saved_inert inert] at saves
        cases saves

/-- The session the thread sends on. -/
def Ready (t : Nat) (client : Client) (conversationId : String) (s : StoredSession) (w : World) :
    Prop :=
  Picked t client conversationId s w ∨
    (Unused t client conversationId s.sessionId w ∧ s.conversationId = conversationId ∧
      s.sendCtr = 0 ∧ live s)

theorem Ready.locked {w : World} (ready : Ready t client conversationId s w) :
    Locked t client conversationId w :=
  ready.elim Picked.locked fun started => started.1.locked

theorem steady_ready : Steady t client (Ready t client conversationId s) where
  running ready := ready.locked.running
  begin ready idle := ready.imp (steady_picked.begin · idle)
    fun started => ⟨steady_unused.begin started.1 idle, started.2⟩
  record inv ready performs fair other := ready.imp
    (steady_picked.record inv · performs fair other)
    fun started => ⟨steady_unused.record inv started.1 performs fair other, started.2⟩

theorem Locked.after {w : World} {op : Op} {result : op.Res} {d : Device}
    (holds : Locked t client conversationId w)
    (performs : w.Performs Careful (w.event t client op result) d)
    (unreleased : op ≠ .release conversationId) :
    Locked t client conversationId (w.record (w.event t client op result) d) := by
  refine ⟨holds.running, ?_⟩
  have after : d.locks conversationId = some t := lock_after performs holds.locked unreleased
  have same := World.record_device_self w (w.event t client op result) d
  dsimp only [World.event] at same ⊢
  rw [same]
  exact after

/-- What an encryption writes: the session it is ready to send on, with the counter no lower
and not brought back from retirement. -/
theorem fair_encryption {w : World} {s' : StoredSession} {result : (Op.saveSession s').Res}
    {d : Device} (inv : Inv w) (ready : Ready t client conversationId s w)
    (performs : w.Performs Careful (w.event t client (.saveSession s') result) d)
    (encrypts : (w.event t client (.saveSession s') result).encrypts)
    (named : s'.sessionId = s.sessionId) (same : s'.conversationId = s.conversationId)
    (counter : s.sendCtr ≤ s'.sendCtr) (unretired : live s' = true → live s = true) :
    Fair w (w.event t client (.saveSession s') result) := by
  refine ⟨fun _ impossible => ?_, fun _ impossible => ?_, fun _ impossible => ?_,
    fun s'' saves => ?_⟩
  · cases impossible
  · cases impossible
  · cases result <;> cases impossible
  have conversation : s.conversationId = conversationId :=
    ready.elim Picked.conversation fun started => started.2.1
  have isWritten : s'' = s' := by
    have op := (Event.saved_eq_some saves).1
    simpa [World.event] using op.symm
  subst isWritten
  have unsavedAbsent : (∀ c, ¬Saved w.past s.sessionId c) →
      ∀ held, (w.devices client.device).sessions.get s.sessionId ≠ some held := by
    intro unsaved held found
    obtain ⟨e, old, _, s₀, saves₀, named₀, _⟩ :=
      inv.stored client.device held (Table.mem_of_get found)
    exact unsaved s₀.conversationId
      ⟨e, old, s₀, saves₀, named₀.trans (Table.key_of_get found), rfl⟩
  refine ⟨fun c isSaved => ?_, ?_, fun _ => ?_, fun _ ahead => ?_, fun one s₀ held saves₀ found => ?_,
    fun _ foreign => absurd encrypts foreign, fun foreign => absurd encrypts foreign⟩
  · rw [named] at isSaved
    rw [same, conversation]
    rcases ready with picked | ⟨unused, _⟩
    · exact inv.agreed s.sessionId c conversationId isSaved picked.saved
    · exact absurd isSaved (unused.unsaved c)
  · rw [named]
    rcases ready with picked | ⟨unused, _⟩
    · exact .inl ⟨conversationId, picked.saved⟩
    · obtain ⟨e, old, mine, drawn⟩ := unused.drawn
      exact .inr fun e' member drawn' =>
        (inv.draws e' member e old s.sessionId drawn' drawn).trans mine
  · rw [same, conversation]
    exact ready.locked.locked
  · rw [named] at ahead
    rcases ready with picked | ⟨unused, _⟩
    · exact picked.level performs.permitted.newest (ahead.mono counter)
    · obtain ⟨c, isSaved⟩ := ahead.saved
      exact unused.unsaved c isSaved
  · rw [saves, Option.some.injEq] at saves₀
    subst saves₀
    rw [named] at found
    rcases ready with picked | ⟨unused, _⟩
    · obtain ⟨held', found', counter', retired'⟩ := picked.stored one
      have isHeld : held' = held := Option.some.inj (found'.symm.trans found)
      subst isHeld
      refine ⟨by omega, fun alive => ?_⟩
      have alive := unretired alive
      simp only [live] at alive ⊢
      rw [retired']
      exact alive
    · exact absurd found (unsavedAbsent unused.unsaved held)

end

section Calls

variable {t : Nat} {client : Client} {conversationId : String} {α : Type}

/-- The counters of the envelopes an encryption returns were its own. -/
def Sent (t : Nat) (result : Except JsError AnyEnvelope) (w : World) : Prop :=
  ∀ envelope, result = .ok (.v1 envelope) →
    ∃ n : Nat, envelope.ctr = n ∧ Reserved t envelope.sessionId n w.past

theorem inert_pinOp {peerId : String} (op : Op) (member : PinOp peerId op) : Inert op := by
  cases op <;> simp_all [PinOp, Inert]

theorem inert_lookupOp (op : Op) (member : LookupOp op) : Inert op := by
  cases op <;> simp_all [LookupOp, Inert]

theorem inert_dekOp (op : Op) (member : DekOp op) : Inert op := by
  cases op <;> simp_all [DekOp, Inert]

/-- A new session id is drawn. -/
theorem triple_drawn (holdsId : String) :
    discipline.Triple t (Locked t client holdsId) (call .randomUUID) fun result w =>
      Locked t client holdsId w ∧ ∀ sessionId, result = .ok sessionId →
        Unused t client holdsId sessionId w := by
  refine steady_locked.call fun w result d inv holds performs => ?_
  refine ⟨fair_unsaved ?_ (fun _ impossible => by cases impossible)
    (fun _ impossible => by cases impossible) ?_, ?_⟩
  · cases result <;> rfl
  · cases result <;> rfl
  have after := holds.after performs (fun impossible => by cases impossible)
  refine ⟨after, fun sessionId drawn => ?_⟩
  subst drawn
  refine ⟨after, ⟨_, List.mem_cons_self, rfl, rfl⟩, fun c isSaved => ?_⟩
  rcases saved_cons isSaved with ⟨e, old, s, saves, named, _⟩ | ⟨s, impossible, _⟩
  · exact (performs.permitted.fresh.drawn sessionId rfl e old).2 s saves named
  · cases impossible

theorem triple_startSession (peerId : String) (identity : StoredIdentity) :
    discipline.Triple t (Locked t client conversationId)
      (startSession conversationId peerId identity) fun result w =>
        Locked t client conversationId w ∧ ∀ session init, result = .ok (session, init) →
          Ready t client conversationId session w := by
  have failing : ∀ {ε : JsError} {w : World}, Locked t client conversationId w →
      Locked t client conversationId w ∧ ∀ session init,
        (.error ε : Except JsError (StoredSession × Option Init)) = .ok (session, init) →
          Ready t client conversationId session w :=
    fun holds => ⟨holds, fun _ _ impossible => by cases impossible⟩
  refine Discipline.triple_bind _
    (steady_locked.inert ((uses_fetchAndPinBundle peerId).mono inert_pinOp)) (fun bundle => ?_)
    (fun _ _ => failing)
  refine Discipline.triple_bind _ (steady_locked.inert (uses_op trivial)) (fun ek => ?_)
    (fun _ _ => failing)
  refine Discipline.triple_bind _ (triple_drawn conversationId) (fun sessionId => ?_)
    (fun _ _ holds => failing holds.1)
  have weaken : ∀ w, (Locked t client conversationId w ∧ ∀ sessionId', Except.ok sessionId =
      (.ok sessionId' : Except JsError String) → Unused t client conversationId sessionId' w) →
      Unused t client conversationId sessionId w := fun w known => known.2 sessionId rfl
  refine Discipline.Triple.weaken ?_ weaken (fun _ _ => id)
  refine Discipline.triple_bind _ (steady_unused.inert (uses_op trivial)) (fun now => ?_)
    (fun _ _ holds => failing holds.locked)
  refine Discipline.triple_bind (fun result w => Unused t client conversationId sessionId w ∧
    ∀ initiated, result = .ok initiated → initiated.session.sessionId = sessionId ∧
      initiated.session.conversationId = conversationId ∧ initiated.session.sendCtr = 0 ∧
        live initiated.session)
    (Discipline.triple_lift fun w holds => ⟨holds, fun initiated started => ?_⟩)
    (fun initiated => Discipline.triple_pure fun w known => ?_) (fun _ _ known => failing known.1.locked)
  · obtain ⟨_, _, _, _, _, _, _, _, _, _, _, _, _, _, _, rfl⟩ := Session.initiateSession_ok started
    exact ⟨rfl, rfl, rfl, rfl⟩
  · obtain ⟨unused, facts⟩ := known
    obtain ⟨named, conversation, counter, unretired⟩ := facts initiated rfl
    refine ⟨unused.locked, fun session init same => ?_⟩
    simp only [Except.ok.injEq, Prod.mk.injEq] at same
    obtain ⟨rfl, rfl⟩ := same
    exact .inr ⟨named ▸ unused, conversation, counter, unretired⟩

/-- The session an encryption picks of those it lists. -/
theorem triple_activeSession
    (encrypts : ∃ conversationId peerId text, client.call = .encrypt conversationId peerId text) :
    discipline.Triple t (Locked t client conversationId) (activeSession conversationId)
      fun result w => Locked t client conversationId w ∧ ∀ s, result = .ok (some s) →
        Picked t client conversationId s w := by
  refine Discipline.triple_bind (fun result w => Locked t client conversationId w ∧
      ∀ rows s, result = .ok rows → chooseSession rows = some s →
        Picked t client conversationId s w)
    (steady_locked.call fun w result d inv holds performs => ?_)
    (fun rows => Discipline.triple_pure fun w known => ⟨known.1, fun s same => ?_⟩)
    (fun e w known => ⟨known.1, fun _ impossible => by cases impossible⟩)
  · have fair : Fair w (w.event t client (.loadConversationSessions conversationId) result) :=
      fair_inert trivial
    have after := holds.after performs (fun impossible => by cases impossible)
    refine ⟨fair, after, fun rows s same chosen => ?_⟩
    have exec : Exec t (w.devices client.device) (.loadConversationSessions conversationId)
        (.ok rows) d := same ▸ performs.exec
    obtain ⟨_, ⟨_, replied⟩, rfl⟩ := exec_ok.mp exec
    obtain rfl := Except.ok.inj replied
    have member := List.mem_filter.mp (chooseSession_mem chosen)
    have conversation : s.conversationId = conversationId := by simpa using member.2
    obtain ⟨e, old, _, s', saves, named, same'⟩ := inv.stored client.device s member.1
    have picked : Picked t client conversationId s w := by
      refine ⟨holds, conversation, chooseSession_live chosen,
        ⟨e, old, s', saves, named, same'.trans conversation⟩, fun newest => ?_, fun _ => ?_⟩
      · refine inv.level client.device newest s member.1 (performs.permitted.current.imp_right ?_)
        exact fun current behind =>
          current encrypts conversationId rfl s chosen (inv.behind _ behind)
      · exact ⟨s, Table.get_of_mem member.1, rfl, rfl⟩
    exact steady_picked.record inv picked performs fair (.inr trivial)
  · exact known.2 rows s rfl (Except.ok.inj same)

theorem triple_sendingSession
    (encrypts : ∃ conversationId peerId text, client.call = .encrypt conversationId peerId text)
    (peerId : String) (identity : StoredIdentity) :
    discipline.Triple t (Locked t client conversationId)
      (sendingSession conversationId peerId identity) fun result w =>
        Locked t client conversationId w ∧ ∀ session init, result = .ok (session, init) →
          Ready t client conversationId session w := by
  have failing : ∀ {ε : JsError} {w : World}, Locked t client conversationId w →
      Locked t client conversationId w ∧ ∀ session init,
        (.error ε : Except JsError (StoredSession × Option Init)) = .ok (session, init) →
          Ready t client conversationId session w :=
    fun holds => ⟨holds, fun _ _ impossible => by cases impossible⟩
  refine Discipline.triple_bind _ (triple_activeSession encrypts) (fun found => ?_)
    (fun _ _ known => failing known.1)
  cases found with
  | none =>
      exact (triple_startSession peerId identity).weaken (fun _ known => known.1) (fun _ _ => id)
  | some s =>
      refine Discipline.Triple.weaken ?_ (fun w known => known.2 s rfl) (fun _ _ => id)
      refine Discipline.triple_bind _ (steady_picked.inert (uses_op trivial)) (fun now => ?_)
        (fun _ _ holds => failing holds.locked)
      split
      · refine Discipline.triple_bind _ (steady_picked.inert (uses_op trivial)) (fun retiredAt => ?_)
          (fun _ _ holds => failing holds.locked)
        refine Discipline.triple_bind (fun _ => Locked t client conversationId)
          (steady_picked.call fun w result d inv holds performs => ?_)
          (fun _ => triple_startSession peerId identity) (fun _ _ => failing)
        exact ⟨fair_encryption inv (.inl holds) performs encrypts rfl rfl le_rfl
          (fun _ => holds.unretired),
          holds.locked.after performs (fun impossible => by cases impossible)⟩
      · refine Discipline.triple_pure fun w holds => ⟨holds.locked, fun session init same => ?_⟩
        simp only [Except.ok.injEq, Prod.mk.injEq] at same
        obtain ⟨rfl, _⟩ := same
        exact .inl holds

theorem triple_encryptV1
    (encrypts : ∃ conversationId peerId text, client.call = .encrypt conversationId peerId text)
    (this : Tab) (peerId : String) (identity : StoredIdentity) (text : List UInt16) :
    discipline.Triple t (Locked t client conversationId)
      (encryptV1 this conversationId peerId identity text) fun result w =>
        Locked t client conversationId w ∧ Sent t result w := by
  have failing : ∀ {ε : JsError} {w : World}, Locked t client conversationId w →
      Locked t client conversationId w ∧ Sent t (.error ε) w :=
    fun holds => ⟨holds, fun _ impossible => by cases impossible⟩
  refine Discipline.triple_bind _ (triple_sendingSession encrypts peerId identity)
    (fun ⟨session, init⟩ => ?_) (fun _ _ known => failing known.1)
  refine Discipline.Triple.weaken ?_ (fun w known => known.2 session init rfl) (fun _ _ => id)
  refine Discipline.triple_bind (fun result w => Locked t client conversationId w ∧
      (result = .ok () → Reserved t session.sessionId session.sendCtr w.past))
    (steady_ready.call fun w result d inv ready performs => ?_) (fun _ => ?_)
    (fun _ _ known => failing known.1)
  · have fair := fair_encryption inv ready performs encrypts rfl rfl (Nat.le_succ _) id
    refine ⟨fair, ready.locked.after performs (fun impossible => by cases impossible), fun same => ?_⟩
    subst same
    refine .here rfl encrypts rfl rfl (ready.elim Picked.unretired fun started => started.2.2.2) rfl ?_
    rcases ready with picked | ⟨unused, _⟩
    · exact picked.level performs.permitted.newest
    · intro ahead
      obtain ⟨c, isSaved⟩ := ahead.saved
      exact unused.unsaved c isSaved
  have counted : Steady t client fun w => Locked t client conversationId w ∧
      Reserved t session.sessionId session.sendCtr w.past := by
    refine ⟨fun known => known.1.running, fun known idle =>
      ⟨steady_locked.begin known.1 idle, known.2⟩, fun inv known performs fair other =>
      ⟨steady_locked.record inv known.1 performs fair other, .later known.2⟩⟩
  have finish : discipline.Triple t (fun w => Locked t client conversationId w ∧
      Reserved t session.sessionId session.sendCtr w.past) (do
        let me ← myUserId this
        let envelope ← lift (Envelope.seal { session with sendCtr := session.sendCtr + 1 }
          conversationId me session.sendCtr text init)
        return AnyEnvelope.v1
          (if init.isSome ∧ session.sendCtr > 0 then { envelope with init } else envelope))
      fun result w => Locked t client conversationId w ∧ Sent t result w := by
    refine Discipline.triple_bind _ (counted.inert (uses_myUserId this)) (fun me => ?_)
      (fun _ _ known => failing known.1)
    refine Discipline.triple_bind (fun result w => (Locked t client conversationId w ∧
      Reserved t session.sessionId session.sendCtr w.past) ∧ ∀ envelope, result = .ok envelope →
        envelope.sessionId = session.sessionId ∧ envelope.ctr = session.sendCtr)
      (Discipline.triple_lift fun w known => ⟨known, fun envelope sent => ?_⟩)
      (fun envelope => Discipline.triple_pure fun w known => ?_) (fun _ _ known => failing known.1.1)
    · obtain ⟨_, _, _, _, rfl⟩ := seal_ok sent
      exact ⟨rfl, rfl⟩
    · obtain ⟨⟨locked, reserved⟩, facts⟩ := known
      obtain ⟨named, counter⟩ := facts envelope rfl
      refine ⟨locked, fun envelope' same => ⟨session.sendCtr, ?_⟩⟩
      simp only [Except.ok.injEq, AnyEnvelope.v1.injEq] at same
      subst same
      split <;> exact ⟨counter, named ▸ reserved⟩
  have written : ∀ w, (Locked t client conversationId w ∧ ((.ok () : Except JsError Unit) = .ok () →
      Reserved t session.sessionId session.sendCtr w.past)) → Locked t client conversationId w ∧
        Reserved t session.sessionId session.sendCtr w.past :=
    fun w known => ⟨known.1, known.2 rfl⟩
  refine Discipline.Triple.weaken ?_ written (fun _ _ => id)
  dsimp only
  split
  · exact Discipline.triple_bind _ (counted.inert (uses_op trivial)) (fun _ => finish)
      (fun _ _ known => failing known.1)
  · exact finish

theorem triple_encryptV2 (this : Tab) (session : RatchetSession) (text : List UInt16) :
    discipline.Triple t (Locked t client conversationId)
      (encryptV2 this conversationId session text) fun result w =>
        Locked t client conversationId w ∧ Sent t result w := by
  have failing : ∀ {ε : JsError} {w : World}, Locked t client conversationId w →
      Locked t client conversationId w ∧ Sent t (.error ε) w :=
    fun holds => ⟨holds, fun _ impossible => by cases impossible⟩
  refine Discipline.triple_bind _ (steady_locked.inert (uses_myUserId this)) (fun me => ?_)
    (fun _ _ => failing)
  refine Discipline.triple_bind _ (steady_locked.inert uses_lift) (fun ⟨envelope, next⟩ => ?_)
    (fun _ _ => failing)
  refine Discipline.triple_bind _ (steady_locked.inert ?_) (fun _ => Discipline.triple_pure
    fun w holds => ⟨holds, fun _ impossible => by cases impossible⟩) (fun _ _ => failing)
  exact uses_throwing_bind ((uses_ensureDek conversationId).mono inert_dekOp)
    fun _ => uses_op trivial

/-- The rule for a program under the lock of a conversation. -/
theorem triple_withLock {body : Prog α} {post : Except JsError α → World → Prop}
    (lasts : ∀ result w e d, post result w → post result (w.record e d))
    (failed : ∀ e w, post (.error e) w)
    (triple : discipline.Triple t (Locked t client conversationId) body fun result w =>
      Locked t client conversationId w ∧ post result w)
    (begins : ∀ result w u other, post result w → post result (w.begin u other)) :
    discipline.Triple t (Running t client) (withLock conversationId body) post := by
  refine Discipline.triple_bind (fun result w => result = .ok () →
      Locked t client conversationId w)
    (steady_running.call fun w result d inv running performs => ?_) (fun _ => ?_)
    (fun e w _ => failed e w)
  · refine ⟨fair_unsaved ?_ (fun _ impossible => by cases impossible)
      (fun _ impossible => by cases impossible) ?_, fun acquired => ⟨running, ?_⟩⟩
    · cases result <;> rfl
    · cases result <;> rfl
    · have exec : Exec t (w.devices client.device) (.acquire conversationId) (.ok ()) d :=
        acquired ▸ performs.exec
      obtain ⟨_, _, rfl⟩ := exec_ok.mp exec
      have same := World.record_device_self w
        (w.event t client (.acquire conversationId) result)
        (effect t (.acquire conversationId) (w.devices client.device))
      dsimp only [World.event] at same ⊢
      rw [same]
      simp [effect]
  refine Discipline.Triple.weaken ?_ (fun w known => known rfl) (fun _ _ => id)
  refine Discipline.triple_bind (fun settled w => ∀ result, settled = .ok result →
      Locked t client conversationId w ∧ post result w)
    (Discipline.triple_settle (triple.weaken (fun _ => id) fun result w known result' same => ?_))
    (fun result => ?_) (fun e w _ => failed e w)
  · obtain rfl := Except.ok.inj same
    exact known
  have settled : Steady t client fun w => Locked t client conversationId w ∧ post result w := by
    refine ⟨fun known => known.1.running, fun known idle =>
      ⟨steady_locked.begin known.1 idle, begins result _ _ _ known.2⟩,
      fun inv known performs fair other =>
      ⟨steady_locked.record inv known.1 performs fair other, lasts result _ _ _ known.2⟩⟩
  refine Discipline.Triple.weaken ?_ (fun w known => known result rfl) (fun _ _ => id)
  refine Discipline.triple_bind (fun _ w => post result w)
    (settled.call fun w answer d inv known performs => ⟨?_, lasts result _ _ _ known.2⟩)
    (fun _ => Discipline.triple_lift fun w known => known) (fun e w _ => failed e w)
  refine fair_unsaved ?_ (fun name released => ?_) (fun _ impossible => by cases impossible) ?_
  · cases answer <;> rfl
  · obtain rfl := Op.release.inj released
    exact known.1.locked
  · cases answer <;> rfl

theorem triple_encrypt
    (encrypts : ∃ conversationId peerId text, client.call = .encrypt conversationId peerId text)
    (this : Tab) (peerId : String) (text : List UInt16) :
    discipline.Triple t (Running t client) (encrypt this conversationId peerId text) (Sent t) := by
  have failed : ∀ (e : JsError) (w : World), Sent t (.error e) w :=
    fun _ _ _ impossible => by cases impossible
  refine Discipline.triple_bind _ (steady_running.inert (uses_requireIdentity this))
    (fun identity => ?_) (fun e w _ => failed e w)
  refine triple_withLock ?_ failed ?_ (fun _ _ _ _ => id)
  · intro result w e d sent envelope same
    obtain ⟨n, counter, reserved⟩ := sent envelope same
    exact ⟨n, counter, .later reserved⟩
  refine Discipline.triple_bind _
    (steady_locked.inert ((uses_latestRatchet conversationId).mono inert_lookupOp))
    (fun found => ?_) (fun e w holds => ⟨holds, failed e w⟩)
  cases found with
  | some session => exact triple_encryptV2 this session text
  | none =>
      refine Discipline.triple_bind _ (steady_locked.inert (uses_op trivial)) (fun enabled => ?_)
        (fun e w holds => ⟨holds, failed e w⟩)
      split
      · refine Discipline.triple_bind (fun _ => Locked t client conversationId) ?_
          (fun session => triple_encryptV2 this session text) (fun e w holds => ⟨holds, failed e w⟩)
        refine Discipline.triple_bind _
          (steady_locked.inert ((uses_fetchAndPinBundle peerId).mono inert_pinOp))
          (fun bundle => ?_) (fun _ _ => id)
        refine Discipline.triple_bind _ (steady_locked.inert (uses_op trivial)) (fun ek => ?_)
          (fun _ _ => id)
        refine Discipline.triple_bind _ (triple_drawn conversationId) (fun sessionId => ?_)
          (fun _ _ known => known.1)
        refine Discipline.Triple.weaken ?_ (fun _ known => known.1) (fun _ _ => id)
        refine Discipline.triple_bind _ (steady_locked.inert (uses_op trivial)) (fun now => ?_)
          (fun _ _ => id)
        refine Discipline.triple_bind _ (steady_locked.inert (uses_op trivial)) (fun dhs => ?_)
          (fun _ _ => id)
        exact Discipline.triple_lift fun _ => id
      · exact triple_encryptV1 encrypts this peerId identity text

/-- The thread has looked the session up and found `found`. -/
structure Looked (t : Nat) (client : Client) (sessionId : String) (found : Option StoredSession)
    (w : World) : Prop where
  running : w.calls t = some client
  kept : OneBrowser w → Unwritten t sessionId w.past →
    Kept found ((w.devices client.device).sessions.get sessionId)
  source : ∀ s, Kept found (some s) → s.sessionId = sessionId →
    Source w.past s fun r => r.thread = t ∧ r.op = .loadSession sessionId

theorem steady_looked {sessionId : String} {found : Option StoredSession} :
    Steady t client (Looked t client sessionId found) where
  running holds := holds.running
  begin holds idle := ⟨World.calls_begin idle holds.running, fun one unwritten =>
    holds.kept (oneBrowser_begin idle one) unwritten, holds.source⟩
  record := by
    intro w e d inv holds performs fair other
    refine ⟨holds.running, fun one unwritten => ?_, fun s same named =>
      (holds.source s same named).cons e fun _ => id⟩
    have continued : (e.encrypts → ∀ s, e.saved = some s → s.sessionId ≠ sessionId) ∧
        Unwritten t sessionId w.past := by
      rcases unwritten with ⟨mine, looked⟩ | continued
      · rcases other with other | inert
        · exact absurd mine other
        · rw [looked] at inert
          exact inert.elim
      · exact continued
    obtain ⟨foreign, earlier⟩ := continued
    have before := holds.kept one earlier
    rcases get_after performs fair.keeps client.device sessionId with
      ⟨s, saves, here, named, after⟩ | ⟨_, after⟩
    · rw [after]
      have same := (fair.save s saves).kept one (fun encrypts => foreign encrypts s saves named)
      rw [performs.before, here, named] at same
      exact before.trans same
    · rw [after]
      exact before

theorem Kept.both {found stored : Option StoredSession} {s : StoredSession}
    (before : Kept found stored) (after : Kept found (some s)) : Kept stored (some s) := by
  cases found with
  | none =>
      cases stored with
      | none => exact after
      | some held => exact ⟨after.1.trans before.1.symm, after.2.trans before.2.symm⟩
  | some looked =>
      cases stored with
      | none => exact before.elim
      | some held => exact ⟨after.1.trans before.1.symm, after.2.trans before.2.symm⟩

section Decryptions

variable {sessionId : String} {found : Option StoredSession}

/-- What a decryption writes: the session it has looked up or accepted. -/
theorem fair_decryption {w : World} {s : StoredSession} {result : (Op.saveSession s).Res}
    {d : Device} (holds : Looked t client sessionId found w)
    (performs : w.Performs Careful (w.event t client (.saveSession s) result) d)
    (decrypts : (w.event t client (.saveSession s) result).decrypts)
    (named : s.sessionId = sessionId) (same : Kept found (some s)) :
    Fair w (w.event t client (.saveSession s) result) := by
  have foreign : ¬(w.event t client (.saveSession s) result).encrypts := by
    rintro ⟨_, _, _, isEncrypt⟩
    obtain ⟨_, _, _, _, isDecrypt⟩ := decrypts
    rw [isEncrypt] at isDecrypt
    cases isDecrypt
  refine ⟨fun _ impossible => ?_, fun _ impossible => ?_, fun _ impossible => ?_,
    fun s' saves => ?_⟩
  · cases impossible
  · cases impossible
  · cases result <;> cases impossible
  have isWritten : s' = s := by
    have op := (Event.saved_eq_some saves).1
    simpa [World.event] using op.symm
  subst isWritten
  have looked : OneBrowser w →
      Kept found ((w.devices client.device).sessions.get s'.sessionId) := by
    intro one
    have unwritten := performs.permitted.unraced.unwritten decrypts s' saves
    rw [named] at unwritten ⊢
    exact holds.kept one unwritten
  refine ⟨performs.permitted.unraced.agreed decrypts s' saves, ?_,
    fun encrypts => absurd encrypts foreign, fun encrypts => absurd encrypts foreign,
    fun one s₀ held saves₀ stored => ?_, fun one _ => (looked one).both same, fun _ => ?_⟩
  · by_cases used : ∃ c, Saved w.past s'.sessionId c
    · exact .inl used
    · exact .inr fun e' old drawn =>
        absurd (performs.permitted.fresh.unguessed decrypts s' saves e' old drawn) used
  · rw [saves, Option.some.injEq] at saves₀
    subst saves₀
    have written := (looked one).both same
    have found : (w.devices client.device).sessions.get s'.sessionId = some held := stored
    rw [found] at written
    refine ⟨by rw [written.1], fun alive => ?_⟩
    simp only [live] at alive ⊢
    rw [← written.2]
    exact alive
  · obtain ⟨later, r, before, isPast, ⟨mine, looks⟩, counter⟩ := holds.source s' same named
    exact ⟨later, r, before, isPast, .inl ⟨decrypts, mine, named ▸ looks⟩, counter⟩

/-- One write of a decryption. -/
theorem triple_decryptionSave {s : StoredSession}
    (decrypts : ∃ conversationId senderId envelope own,
      client.call = .decrypt conversationId senderId envelope own)
    (named : s.sessionId = sessionId) (same : Kept found (some s)) :
    discipline.Triple t (Looked t client sessionId found) (call (.saveSession s))
      fun result w => Running t client w ∧ (result = .ok () →
        Looked t client sessionId (some s) w) := by
  refine steady_looked.call fun w result d inv holds performs => ?_
  have fair := fair_decryption holds performs decrypts named same
  refine ⟨fair, holds.running, fun written => ⟨holds.running, fun one _ => ?_, fun s' kept named' =>
    (holds.source s' (same.trans kept) named').cons _ fun _ => id⟩⟩
  subst written
  rcases get_after performs fair.keeps client.device sessionId with
    ⟨s', saves, _, _, after⟩ | ⟨others, _⟩
  · have isWritten : s' = s := by
      have op := (Event.saved_eq_some saves).1
      simpa [World.event] using op.symm
    rw [after, isWritten]
    exact Kept.refl _
  · exact absurd named (others s rfl rfl)

/-- A record that was read is the newest that the thread knows of. -/
theorem triple_loadSession (sessionId : String) :
    discipline.Triple t (Running t client) (E2EEService.call (.loadSession sessionId)) fun result w =>
      Running t client w ∧ ∀ found, result = .ok found →
        (∀ s, found = some s → s.sessionId = sessionId) ∧ Looked t client sessionId found w := by
  refine steady_running.call fun w result d inv running performs => ?_
  refine ⟨fair_unsaved ?_ (fun _ impossible => by cases impossible)
    (fun _ impossible => by cases impossible) ?_, running, fun found looked => ?_⟩
  · cases result <;> rfl
  · cases result <;> rfl
  · subst looked
    obtain ⟨_, ⟨_, replied⟩, same⟩ := exec_ok.mp performs.exec
    have replied : (w.devices client.device).sessions.get sessionId = found := Except.ok.inj replied
    refine ⟨fun s isFound => Table.key_of_get (replied.trans isFound), running, fun _ _ => ?_,
      fun s kept named => ⟨[], _, w.past, rfl, ⟨rfl, rfl⟩, fun held stored => ?_⟩⟩
    · rcases get_after performs (fun _ impossible => by cases impossible) client.device
        sessionId with ⟨_, impossible, _⟩ | ⟨_, after⟩
      · cases impossible
      · rw [after, replied]
        exact Kept.refl _
    · have isFound : found = some held := by
        rw [← replied, ← named]
        exact stored
      rw [isFound] at kept
      exact kept.1.symm

theorem triple_receivingSession {senderId : String} {envelope : WireEnvelope} {own : Bool}
    {identity : StoredIdentity}
    (decrypts : ∃ conversationId senderId envelope own,
      client.call = .decrypt conversationId senderId envelope own) :
    discipline.Triple t (Running t client)
      (receivingSession conversationId senderId envelope own identity) fun result w =>
        Running t client w ∧ ∀ session keyChanged, result = .ok (some session, keyChanged) →
          session.sessionId = envelope.sessionId ∧
            Looked t client envelope.sessionId (some session) w := by
  have failing : ∀ {e : JsError} {w : World}, Running t client w → Running t client w ∧
      ∀ session keyChanged, (.error e : Except JsError (Option StoredSession × Bool)) =
        .ok (some session, keyChanged) → session.sessionId = envelope.sessionId ∧
          Looked t client envelope.sessionId (some session) w :=
    fun running => ⟨running, fun _ _ impossible => by cases impossible⟩
  refine Discipline.triple_bind _ (triple_loadSession envelope.sessionId) (fun found => ?_)
    (fun _ _ known => failing known.1)
  cases found with
  | some session =>
      refine Discipline.triple_pure fun w known => ⟨known.1, fun session' keyChanged same => ?_⟩
      obtain ⟨named, looked⟩ := known.2 (some session) rfl
      simp only [Except.ok.injEq, Prod.mk.injEq, Option.some.injEq] at same
      obtain ⟨rfl, _⟩ := same
      exact ⟨named session rfl, looked⟩
  | none =>
      refine Discipline.Triple.weaken ?_ (fun w known => (known.2 none rfl).2) (fun _ _ => id)
      dsimp only
      split
      next init hasInit =>
        refine Discipline.triple_bind _
          (steady_looked.inert ((uses_checkPeerIdentity ..).mono inert_pinOp)) (fun changed => ?_)
          (fun _ _ holds => failing holds.running)
        refine Discipline.triple_bind _ (steady_looked.inert (uses_op trivial)) (fun now => ?_)
          (fun _ _ holds => failing holds.running)
        refine Discipline.triple_bind (fun result w => Looked t client envelope.sessionId none w ∧
            ∀ session, result = .ok session → session.sessionId = envelope.sessionId ∧
              Kept none (some session))
          (Discipline.triple_lift fun w holds => ⟨holds, fun session accepted => ?_⟩)
          (fun session => ?_) (fun _ _ known => failing known.1.running)
        · obtain ⟨named, _, _, _, counter, unretired⟩ := Session.acceptSession_record accepted
          exact ⟨named, counter, unretired⟩
        have facts : ∀ w, (Looked t client envelope.sessionId none w ∧ ∀ session',
            (.ok session : Except JsError StoredSession) = .ok session' →
              session'.sessionId = envelope.sessionId ∧ Kept none (some session')) →
            (session.sessionId = envelope.sessionId ∧ Kept none (some session)) ∧
              Looked t client envelope.sessionId none w :=
          fun w known => ⟨known.2 session rfl, known.1⟩
        refine Discipline.Triple.weaken (Discipline.triple_assuming fun accepted => ?_) facts
          (fun _ _ => id)
        refine Discipline.triple_bind _
          (triple_decryptionSave decrypts accepted.1 accepted.2) (fun _ => ?_)
          (fun _ _ known => failing known.1)
        refine Discipline.Triple.weaken ?_ (fun w known => known.2 rfl) (fun _ _ => id)
        refine Discipline.triple_bind _ (steady_looked.inert (uses_op trivial)) (fun _ => ?_)
          (fun _ _ holds => failing holds.running)
        refine Discipline.triple_pure fun w holds => ⟨holds.running, fun session' changed same => ?_⟩
        simp only [Except.ok.injEq, Prod.mk.injEq, Option.some.injEq] at same
        obtain ⟨rfl, _⟩ := same
        exact ⟨accepted.1, holds⟩
      next =>
        exact Discipline.triple_pure fun w holds =>
          ⟨holds.running, fun _ _ impossible => by cases impossible⟩

theorem triple_decryptV1 {senderId : String} {envelope : WireEnvelope} {own : Bool}
    {identity : StoredIdentity}
    (decrypts : ∃ conversationId senderId envelope own,
      client.call = .decrypt conversationId senderId envelope own) :
    discipline.Triple t (Running t client)
      (decryptV1 conversationId senderId envelope own identity) fun _ _ => True := by
  refine Discipline.triple_tryCatch (fun _ _ => True) ?_ (fun _ _ _ => trivial)
    (fun _ => Discipline.triple_pure fun _ _ => trivial)
  refine Discipline.triple_bind _ (triple_receivingSession decrypts) (fun ⟨found, keyChanged⟩ => ?_)
    (fun _ _ _ => trivial)
  cases found with
  | none => exact Discipline.triple_pure fun _ _ => trivial
  | some session =>
      refine Discipline.Triple.weaken (Discipline.triple_assuming fun named => ?_)
        (fun w known => known.2 session keyChanged rfl) (fun _ _ => id)
      refine Discipline.triple_bind (fun _ => Looked t client envelope.sessionId (some session))
        (Discipline.triple_lift fun _ => id) (fun text => ?_) (fun _ _ _ => trivial)
      dsimp only
      split
      · exact Discipline.triple_bind _ (triple_decryptionSave decrypts named ⟨rfl, rfl⟩)
          (fun _ => Discipline.triple_pure fun _ _ => trivial) (fun _ _ _ => trivial)
      · exact Discipline.triple_pure fun _ _ => trivial

theorem uses_receivingRatchet (senderId : String) (envelope : WireEnvelopeV2)
    (identity : StoredIdentity) :
    Uses Inert (receivingRatchet conversationId senderId envelope identity).run := by
  refine uses_throwing_bind ((uses_loadRatchet _ _).mono inert_lookupOp) fun found => ?_
  cases found with
  | some session => exact uses_throwing_pure
  | none =>
      dsimp only
      split
      · exact uses_throwing_pure
      · refine uses_throwing_bind ((uses_checkPeerIdentity ..).mono inert_pinOp) fun changed => ?_
        refine uses_throwing_bind (uses_op trivial) fun now => ?_
        exact uses_throwing_bind uses_lift fun _ => uses_throwing_pure

theorem uses_decryptV2Locked (senderId : String) (envelope : WireEnvelopeV2)
    (identity : StoredIdentity) :
    Uses Inert (decryptV2Locked conversationId senderId envelope identity).run := by
  refine uses_throwing_bind ((uses_loadMessage _ _).mono inert_lookupOp) fun found => ?_
  cases found with
  | some again => exact uses_throwing_pure
  | none =>
      refine uses_throwing_bind (uses_receivingRatchet _ _ _) fun ⟨found, keyChanged⟩ => ?_
      cases found with
      | none => exact uses_throwing_pure
      | some session =>
          refine uses_throwing_bind (uses_op trivial) fun now => ?_
          refine uses_throwing_bind (uses_op trivial) fun fresh => ?_
          refine uses_throwing_bind uses_lift fun _ => ?_
          refine uses_throwing_bind ?_ fun _ => uses_throwing_pure
          exact uses_throwing_bind ((uses_ensureDek _).mono inert_dekOp) fun _ => uses_op trivial

theorem triple_decryptV2 {senderId : String} {envelope : WireEnvelopeV2} {own : Bool}
    {identity : StoredIdentity} :
    discipline.Triple t (Running t client)
      (decryptV2 conversationId senderId envelope own identity) fun _ _ => True := by
  refine Discipline.triple_tryCatch (fun _ _ => True) ?_ (fun _ _ _ => trivial)
    (fun _ => Discipline.triple_pure fun _ _ => trivial)
  refine Discipline.triple_bind _
    (steady_running.inert ((uses_loadMessage _ _).mono inert_lookupOp)) (fun found => ?_)
    (fun _ _ _ => trivial)
  cases found with
  | some stored => exact Discipline.triple_pure fun _ _ => trivial
  | none =>
      dsimp only
      split
      · exact Discipline.triple_pure fun _ _ => trivial
      · refine triple_withLock (fun _ _ _ _ _ => trivial) (fun _ _ => trivial) ?_
          (fun _ _ _ _ _ => trivial)
        exact (steady_locked.inert (uses_decryptV2Locked _ _ _)).weaken (fun _ => id)
          fun _ _ holds => ⟨holds, trivial⟩

theorem triple_decrypt {this : Tab} {senderId : String} {envelope : AnyEnvelope} {own : Bool}
    (decrypts : ∃ conversationId senderId envelope own,
      client.call = .decrypt conversationId senderId envelope own) :
    discipline.Triple t (Running t client) (decrypt this conversationId senderId envelope own)
      fun _ _ => True := by
  refine Discipline.triple_bind _ (steady_running.inert ((uses_cachedIdentity this).mono ?_))
    (fun found => ?_) (fun _ _ _ => trivial)
  · rintro _ rfl
    trivial
  cases found with
  | none => exact Discipline.triple_pure fun _ _ => trivial
  | some identity =>
      cases envelope with
      | v1 envelope => exact triple_decryptV1 decrypts
      | v2 envelope => exact triple_decryptV2

end Decryptions

/-- The records in the thread's hands have been written before, and read as `read` says. -/
structure Captured (t : Nat) (client : Client) (read : List Event → StoredSession → Prop)
    (sessions : List StoredSession) (w : World) : Prop where
  running : w.calls t = some client
  saved : ∀ s ∈ sessions, Saved w.past s.sessionId s.conversationId
  read : ∀ s ∈ sessions, read w.past s

theorem Captured.cons {read : List Event → StoredSession → Prop} {sessions : List StoredSession}
    {w : World} {e : Event} {d : Device} (holds : Captured t client read sessions w)
    (grows : ∀ past s, read past s → read (e :: past) s) :
    Captured t client read sessions (w.record e d) :=
  ⟨holds.running, fun s member => (holds.saved s member).cons _,
    fun s member => grows _ s (holds.read s member)⟩

theorem steady_captured {read : List Event → StoredSession → Prop} {sessions : List StoredSession}
    (grows : ∀ e past s, read past s → read (e :: past) s) :
    Steady t client (Captured t client read sessions) where
  running holds := holds.running
  begin holds idle := ⟨World.calls_begin idle holds.running, holds.saved, holds.read⟩
  record _ holds _ _ _ := holds.cons (grows _)

/-- The thread has fetched the backup of an upload that had listed the record. -/
def Fetched (t : Nat) (past : List Event) (s : StoredSession) : Prop :=
  ∃ blob, (∃ fetch ∈ past, fetch.thread = t ∧ fetch.fetched = some blob) ∧
    ∃ upload ∈ past, upload.uploaded = some blob ∧ Listed upload.thread past s

theorem steady_listed {sessions : List StoredSession} :
    Steady t client (Captured t client (Listed t) sessions) :=
  steady_captured fun e _ _ listed => listed.cons e

theorem Fetched.cons {past : List Event} {s : StoredSession} (e : Event)
    (fetched : Fetched t past s) : Fetched t (e :: past) s := by
  obtain ⟨blob, ⟨fetch, old, fetches⟩, upload, old', uploads, listed⟩ := fetched
  exact ⟨blob, ⟨fetch, List.mem_cons_of_mem _ old, fetches⟩, upload, List.mem_cons_of_mem _ old',
    uploads, listed.cons e⟩

theorem steady_fetched {sessions : List StoredSession} :
    Steady t client (Captured t client (Fetched t) sessions) :=
  steady_captured fun e _ _ fetched => fetched.cons e

theorem inert_identityOp (op : Op) (member : IdentityOp op) : Inert op := by
  cases op <;> simp_all [IdentityOp, Inert]

theorem triple_encryptAndUpload (salt : Nat) (key : BackupKey) :
    discipline.Triple t (Running t client) (encryptAndUpload salt key)
      fun _ => Running t client := by
  refine Discipline.triple_bind _ (steady_running.inert (uses_op trivial)) (fun found => ?_)
    (fun _ _ => id)
  cases found with
  | none => exact Discipline.triple_throw fun _ => id
  | some identity =>
      refine Discipline.triple_bind (fun result w => Running t client w ∧ ∀ sessions,
          result = .ok sessions → Captured t client (Listed t) sessions w)
        (steady_running.call fun w result d inv running performs => ?_) (fun sessions => ?_)
        (fun _ _ known => known.1)
      · refine ⟨fair_inert trivial, running, fun sessions listed => ?_⟩
        subst listed
        obtain ⟨_, ⟨_, replied⟩, _⟩ := exec_ok.mp performs.exec
        have rows : (w.devices client.device).sessions.rows = sessions := Except.ok.inj replied
        subst rows
        refine ⟨running, fun s member => ?_, fun s member =>
          ⟨[], _, w.past, rfl, ⟨rfl, rfl⟩, fun held stored => ?_⟩⟩
        · obtain ⟨e, old, _, s', saves, named, same⟩ := inv.stored client.device s member
          exact Saved.cons _ ⟨e, old, s', saves, named, same⟩
        · have found : (w.devices client.device).sessions.get s.sessionId = some s :=
            Table.get_of_mem member
          rw [Option.some.inj (stored.symm.trans found)]
      refine Discipline.Triple.weaken ?_ (fun w known => known.2 sessions rfl) (fun _ _ => id)
      refine Discipline.triple_bind _ (steady_listed.inert (uses_op trivial))
        (fun exportedAt => ?_) (fun _ _ holds => holds.running)
      refine steady_listed.call fun w result d inv holds performs => ⟨?_, holds.running⟩
      refine ⟨fun _ impossible => ?_, fun _ impossible => ?_, fun blob uploaded s member => ?_,
        fun s impossible => ?_⟩
      · cases impossible
      · cases impossible
      · cases result with
        | error e => cases uploaded
        | ok _ =>
            obtain rfl := Option.some.inj uploaded
            exact ⟨holds.saved s member, holds.read s member⟩
      · cases result <;> cases impossible

theorem triple_uploadBackup (code : String) :
    discipline.Triple t (Running t client) (uploadBackup code) fun _ _ => True := by
  refine Discipline.triple_bind _ (steady_running.inert (uses_op trivial)) (fun salt => ?_)
    (fun _ _ _ => trivial)
  refine Discipline.triple_bind _ (triple_encryptAndUpload _ _) (fun _ => ?_) (fun _ _ _ => trivial)
  refine Discipline.Triple.weaken (?_ : discipline.Triple t (Running t client)
    (call (.saveBackupKeyMaterial ⟨salt, deriveBackupKey code salt⟩)) fun _ => Running t client)
    (fun _ => id) (fun _ _ _ => trivial)
  exact steady_running.inert (uses_op trivial)

theorem triple_refreshBackup :
    discipline.Triple t (Running t client) refreshBackup fun _ _ => True := by
  refine Discipline.triple_bind _ (steady_running.inert (uses_op trivial)) (fun found => ?_)
    (fun _ _ _ => trivial)
  cases found with
  | none => exact Discipline.triple_pure fun _ _ => trivial
  | some material =>
      exact Discipline.triple_bind _ (triple_encryptAndUpload _ _)
        (fun _ => Discipline.triple_pure fun _ _ => trivial) (fun _ _ _ => trivial)

/-- What a restore writes: a record that has been written before. -/
theorem fair_restore {w : World} {s : StoredSession} {result : (Op.saveSession s).Res}
    (inv : Inv w) (running : w.calls t = some client) {code : String}
    (restores : client.call = .restoreFromBackup code)
    (isSaved : Saved w.past s.sessionId s.conversationId) (fetched : Fetched t w.past s) :
    Fair w (w.event t client (.saveSession s) result) := by
  have foreign : ¬(w.event t client (.saveSession s) result).encrypts := by
    rintro ⟨_, _, _, isEncrypt⟩
    rw [World.event, restores] at isEncrypt
    cases isEncrypt
  have several : ¬OneBrowser w := by
    rintro ⟨n, same⟩
    exact (same t client running).2 code restores
  refine ⟨fun _ impossible => ?_, fun _ impossible => ?_, fun _ impossible => ?_,
    fun s' saves => ?_⟩
  · cases impossible
  · cases impossible
  · cases result <;> cases impossible
  have isWritten : s' = s := by
    have op := (Event.saved_eq_some saves).1
    simpa [World.event] using op.symm
  subst isWritten
  refine ⟨fun c other => inv.agreed s'.sessionId c s'.conversationId other isSaved,
    .inl ⟨s'.conversationId, isSaved⟩, fun encrypts => absurd encrypts foreign,
    fun encrypts => absurd encrypts foreign, fun one => absurd one several,
    fun one => absurd one several, fun _ => ?_⟩
  obtain ⟨blob, ⟨fetch, old, mine, fetches⟩, upload, old', uploads, later, r, before, isPast,
    ⟨lister, lists⟩, counter⟩ := fetched
  exact ⟨later, r, before, isPast,
    .inr ⟨blob, fetch, old, mine, fetches, upload, old', uploads, lister, lists⟩, counter⟩

theorem triple_saveSessions {code : String} (restores : client.call = .restoreFromBackup code)
    (sessions : List StoredSession) :
    discipline.Triple t (Captured t client (Fetched t) sessions) (saveSessions sessions)
      fun _ => Running t client := by
  induction sessions with
  | nil => exact Discipline.triple_pure fun w holds => holds.running
  | cons s rest ih =>
      refine Discipline.triple_bind (fun _ => Captured t client (Fetched t) rest)
        (steady_fetched.call fun w result d inv holds performs => ?_)
        (fun _ => ih) (fun _ _ holds => holds.running)
      have fair : Fair w (w.event t client (.saveSession s) result) :=
        fair_restore inv holds.running restores (holds.saved s List.mem_cons_self)
          (holds.read s List.mem_cons_self)
      have remaining : Captured t client (Fetched t) rest w :=
        ⟨holds.running, fun s' member => holds.saved s' (List.mem_cons_of_mem _ member),
          fun s' member => holds.read s' (List.mem_cons_of_mem _ member)⟩
      exact ⟨fair, remaining.cons fun _ _ => Fetched.cons _⟩

theorem triple_restoreFromBackup {code : String}
    (restores : client.call = .restoreFromBackup code) :
    discipline.Triple t (Running t client) (restoreFromBackup code) fun _ _ => True := by
  refine Discipline.triple_bind (fun result w => Running t client w ∧ ∀ blob,
      result = .ok blob → Captured t client (Fetched t) blob.payload.sessions w)
    (steady_running.call fun w result d inv running performs => ?_) (fun blob => ?_)
    (fun _ _ _ => trivial)
  · refine ⟨fair_unsaved ?_ (fun _ impossible => by cases impossible)
      (fun _ impossible => by cases impossible) ?_, running, fun blob fetched => ?_⟩
    · cases result <;> rfl
    · cases result <;> rfl
    · subst fetched
      obtain ⟨e, old, uploaded⟩ := performs.permitted.backups code restores blob rfl
      refine ⟨running, fun s member => (inv.blobs e old blob uploaded s member).1.cons _,
        fun s member => ⟨blob, ⟨_, List.mem_cons_self, rfl, rfl⟩, e, List.mem_cons_of_mem _ old,
          uploaded, (inv.blobs e old blob uploaded s member).2.cons _⟩⟩
  refine Discipline.Triple.weaken ?_ (fun w known => known.2 blob rfl) (fun _ _ => id)
  have finish : discipline.Triple t (Captured t client (Fetched t) blob.payload.sessions) (do
      call (.saveIdentity blob.payload.identity)
      saveSessions blob.payload.sessions
      call (.saveBackupKeyMaterial { salt := blob.salt, key := deriveBackupKey code blob.salt })
      return blob.payload.identity) fun _ _ => True := by
    refine Discipline.triple_bind _ (steady_fetched.inert (uses_op trivial)) (fun _ => ?_)
      (fun _ _ _ => trivial)
    refine Discipline.triple_bind _ (triple_saveSessions restores _) (fun _ => ?_)
      (fun _ _ _ => trivial)
    refine Discipline.triple_bind (fun _ => Running t client) (steady_running.inert ?_)
      (fun _ => Discipline.triple_pure fun _ _ => trivial) (fun _ _ _ => trivial)
    exact uses_op trivial
  dsimp only
  split
  · exact Discipline.triple_bind (fun _ => Captured t client (Fetched t) blob.payload.sessions)
      (Discipline.triple_throw fun _ => id) (fun _ => finish) (fun _ _ _ => trivial)
  · exact finish

/-- What a call that has ended says of the history. -/
def Counted (t : Nat) (report : Report) (w : World) : Prop :=
  ∀ envelope, report.outcome = .encrypted (.ok (.v1 envelope)) →
    ∃ n : Nat, envelope.ctr = n ∧ Reserved t envelope.sessionId n w.past

theorem safe_client {w : World} (running : Running t client w) (unshredded : Unshredded client) :
    discipline.Safe t (Counted t) client.program w := by
  obtain ⟨⟨this, called⟩, n⟩ := client
  have silent : ∀ {β : Type} {p : Prog β} {outcome : Except JsError β → Outcome},
      (∀ result envelope, outcome result ≠ .encrypted (.ok (.v1 envelope))) →
      discipline.Triple t (Running t ⟨⟨this, called⟩, n⟩) p (fun _ _ => True) →
      discipline.Safe t (Counted t) (Request.report ⟨this, called⟩ outcome p) w :=
    fun other triple => safe_request triple
      (fun result _ _ envelope same => absurd same (other result envelope)) running
  cases called with
  | encrypt conversationId peerId text =>
      refine safe_request (triple_encrypt ⟨_, _, _, rfl⟩ this peerId text)
        (fun result w sent envelope same => ?_) running
      exact sent envelope (Outcome.encrypted.inj same)
  | decrypt conversationId senderId envelope own =>
      exact silent (fun _ _ impossible => by cases impossible) (triple_decrypt ⟨_, _, _, _, rfl⟩)
  | shredConversation conversationId => exact absurd rfl (unshredded conversationId)
  | safetyNumberFor peerId =>
      refine silent (fun _ _ impossible => by cases impossible) ?_
      exact (steady_running.inert ((uses_safetyNumberFor this peerId).mono inert_identityOp)).weaken
        (fun _ => id) fun _ _ _ => trivial
  | markVerified peerId =>
      refine silent (fun _ _ impossible => by cases impossible) ?_
      exact (steady_running.inert ((uses_markVerified peerId).mono inert_identityOp)).weaken
        (fun _ => id) fun _ _ _ => trivial
  | uploadBackup code =>
      exact silent (fun _ _ impossible => by cases impossible) (triple_uploadBackup code)
  | refreshBackup => exact silent (fun _ _ impossible => by cases impossible) triple_refreshBackup
  | restoreFromBackup code =>
      exact silent (fun _ _ impossible => by cases impossible) (triple_restoreFromBackup rfl)

end Calls

/-- The browsers of an account on which nothing has happened. -/
structure Fresh (w : World) : Prop where
  devices : ∀ n, Blank (w.devices n)
  calls : w.calls = fun _ => none
  past : w.past = []

theorem Fresh.inv {w : World} (fresh : Fresh w) : Inv w where
  known e member := by simp [fresh.past] at member
  stored n s member := by
    rw [(fresh.devices n).sessions] at member
    cases member
  held e member := by simp [fresh.past] at member
  agreed sessionId c c' first := by
    obtain ⟨e, member, _⟩ := first
    simp [fresh.past] at member
  draws e member := by simp [fresh.past] at member
  blobs e member := by simp [fresh.past] at member
  level n _ s member := by
    rw [(fresh.devices n).sessions] at member
    cases member
  forward _ e member := by simp [fresh.past] at member
  behind sessionId putBack := by
    rw [fresh.past] at putBack
    exact putBack.elim
  told := by
    rw [fresh.past]
    trivial

/-- In every careful run the invariant holds, and every envelope has a counter of its own. -/
theorem reachable_counted {start : World} (fresh : Fresh start)
    {config : Config Op Op.Res World Report}
    (reachable : (recorded (fun _ => Unshredded) Careful).Reachable start config) :
    Inv config.state ∧ ∀ t report, config.threads t = some (.done report) →
      Counted t report config.state := by
  have ready : ∀ t w p w', Inv w → (recorded (fun _ => Unshredded) Careful).start t w p w' →
      Inv w' ∧ (∀ u, u ≠ t → discipline.rely u w w') ∧ discipline.Safe t (Counted t) p w' := by
    rintro t w p w' inv ⟨idle, client, unshredded, rfl, rfl⟩
    refine ⟨inv.begin idle, fun u other => .single ⟨inv, .begin (Ne.symm other) idle⟩, ?_⟩
    exact safe_client (w.begin_calls_self t client) unshredded
  obtain ⟨inv, safe⟩ := reachable.safe (D := discipline) rfl fresh.inv ready
  refine ⟨inv, fun t report finished => ?_⟩
  obtain ⟨w, relied, counted⟩ := safe t _ finished
  have lasts : Lasts Careful Fair Inv t (Counted t report) := by
    intro w w' _ known step envelope same
    obtain ⟨n, counter, reserved⟩ := known envelope same
    cases step with
    | begin _ _ => exact ⟨n, counter, reserved⟩
    | event _ _ _ => exact ⟨n, counter, .later reserved⟩
  exact lasts.rely w config.state counted relied

end Counters
