import CipherChat.Service.Counters

/-!
Which v1 slots `encrypt` uses: on one browser beside decryptions, and across backups.
-/

namespace Reuse

open Async Number Symbolic Primitives KeyStore Envelope EnvelopeV2 Store E2EEService Counters

/-- What selects the key and IV of a v1 envelope. -/
structure Slot where
  sessionId : String
  sender : Option String
  ctr : JsNumber
  deriving DecidableEq

/-- The slot and the plaintext of an encryption that returned a v1 envelope. -/
def sent (report : Report) : Option (Slot × List UInt16) :=
  match report.call, report.outcome with
  | .encrypt _ _ text, .encrypted (.ok (.v1 envelope)) =>
      some (⟨envelope.sessionId, report.this.userId, envelope.ctr⟩, text)
  | _, _ => none

/-- The call of thread `t` has returned an envelope under this slot. -/
def Used (config : Config Op Op.Res World Report) (t : Nat) (slot : Slot)
    (text : List UInt16) : Prop :=
  ∃ report, config.threads t = some (.done report) ∧ sent report = some (slot, text)

theorem Used.unique {start : World} (fresh : Fresh start)
    {config : Config Op Op.Res World Report}
    (reachable : (recorded (fun _ => Unshredded) Careful).Reachable start config)
    {t u : Nat} {slot : Slot} {text text' : List UInt16}
    (mine : Used config t slot text) (theirs : Used config u slot text') : t = u := by
  have counted : ∀ {t text}, Used config t slot text →
      ∃ n : Nat, slot.ctr = n ∧ Reserved t slot.sessionId n config.state.past := by
    rintro t text ⟨⟨⟨this, called⟩, outcome⟩, finished, isSent⟩
    unfold sent at isSent
    split at isSent
    next _ envelope _ isOutcome =>
      obtain ⟨n, counter, reserved⟩ :=
        (reachable_counted fresh reachable).2 t _ finished envelope isOutcome
      simp only [Option.some.injEq, Prod.mk.injEq] at isSent
      obtain ⟨rfl, _⟩ := isSent
      exact ⟨n, counter, reserved⟩
    next => cases isSent
  obtain ⟨m, counter, reserved⟩ := counted mine
  obtain ⟨n, counter', reserved'⟩ := counted theirs
  have same : m = n := by
    have equal : (m : JsNumber) = n := counter.symm.trans counter'
    exact_mod_cast equal
  subst same
  exact reserved.unique reserved'

section Runs

/-- A step that needs no assumption: a session id is drawn before anything is stored, a backup
is one that was uploaded, and no newer browser is used. -/
def ordinary (w : World) (e : Event) : Bool :=
  (e.drawn = none || w.past.all fun e' => e'.drawn = none && e'.saved = none) &&
    (match e.client.call with
      | .decrypt .. => w.past.all fun e' => e'.drawn = none
      | _ => true) &&
    (match e.fetched with
      | none => true
      | some blob => w.past.any fun e' => e'.uploaded = some blob) &&
    (List.range 8).all fun t => match w.calls t with
      | none => true
      | some client => client.device ≤ e.client.device

theorem ordinary_fair {w : World} {e : Event} (few : w.Few) (isOrdinary : ordinary w e) :
    FreshIds w e ∧ OnNewest w e ∧ OwnBackups w e := by
  simp only [ordinary, Bool.and_eq_true] at isOrdinary
  obtain ⟨⟨⟨drawn, unguessed⟩, backups⟩, newest⟩ := isOrdinary
  refine ⟨⟨fun sessionId isDrawn e' old => ?_, ?_⟩, fun t client running => ?_,
    fun code _ blob fetched => ?_⟩
  · have first : ∀ e' ∈ w.past, e'.drawn = none ∧ e'.saved = none := by
      simpa [isDrawn] using drawn
    simp [first e' old]
  · rintro ⟨_, _, _, _, isDecrypt⟩ s _ e' old isDrawn
    rw [isDecrypt] at unguessed
    have none : e'.drawn = none := by simpa using List.all_eq_true.mp unguessed e' old
    rw [none] at isDrawn
    cases isDrawn
  · by_cases small : t < 8
    · have below := List.all_eq_true.mp newest t (List.mem_range.mpr small)
      simpa [running] using below
    · rw [few t (by omega)] at running
      cases running
  · rw [fetched] at backups
    simpa using List.any_eq_true.mp backups

theorem untouched_fresh : Fresh untouched :=
  ⟨fun _ => freshDevice_blank, rfl, rfl⟩

/-- Two calls have used one slot for different plaintexts. -/
def clash (config : Config Op Op.Res World Report) (t u : Nat) : Bool :=
  match config.threads t, config.threads u with
  | some (.done mine), some (.done theirs) =>
      match sent mine, sent theirs with
      | some (slot, text), some (slot', text') => slot = slot' && text ≠ text'
      | _, _ => false
  | _, _ => false

theorem used_of_clash {config : Config Op Op.Res World Report} {t u : Nat}
    (clashes : clash config t u) : ∃ slot text text', Used config t slot text ∧
      Used config u slot text' ∧ text ≠ text' := by
  unfold clash at clashes
  split at clashes
  next mine theirs isMine isTheirs =>
    split at clashes
    next slot text slot' text' sentMine sentTheirs =>
      simp only [Bool.and_eq_true, decide_eq_true_eq] at clashes
      obtain ⟨rfl, differ⟩ := clashes
      exact ⟨slot, text, text', ⟨mine, isMine, sentMine⟩, ⟨theirs, isTheirs, sentTheirs⟩, differ⟩
    next => cases clashes
  next => cases clashes

end Runs

section OneBrowser

def messaging : Call → Bool
  | .encrypt .. => true
  | .decrypt _ _ (.v1 _) _ => true
  | _ => false

/-- An `encrypt`, or a `decrypt` of a v1 envelope, in a tab of browser `n`. -/
def Messaging (n : Nat) (_ : World) (client : Client) : Prop :=
  client.device = n ∧ messaging client.call

/-- No slot is used by two calls, and no write sets a counter or a retirement back, in every
run of the calls of one browser in which each operation is one of those `permits`. -/
def NeverSetBack (n : Nat) (permits : World → Event → Prop) : Prop :=
  ∀ start config, Fresh start → (recorded (Messaging n) permits).Reachable start config →
    (∀ t u slot text text', Used config t slot text → Used config u slot text' → t = u) ∧
      ∀ e ∈ config.state.past, Forward e

/-- A decryption saves the session it had looked up before an encryption counted it on. -/
def overwrite : Option (Config Op Op.Res World Report) := do
  let first ← (senderEnvelope 0).toOption
  let second ← (senderEnvelope 1).toOption
  (World.schedule (fun client => client.device = 0 && messaging client.call) ordinary).follow idle <|
    begins 0 (tabClient 0 (.decrypt "c" "a" (.v1 first) false)) 9 directory ++
    begins 1 (tabClient 0 (.decrypt "c" "a" (.v1 second) false)) 1 directory ++
    begins 2 (tabClient 0 (.encrypt "c" "a" (Utf.ofString "yes"))) 7 directory ++
    [.await 1 directory] ++
    begins 3 (tabClient 0 (.encrypt "c" "a" (Utf.ofString "no"))) 7 directory

theorem overwrite_clashes : overwrite.map (clash · 2 3) = some true := by
  decide +kernel

theorem set_back_by_decrypt : ¬NeverSetBack 0 FreshIds := by
  intro claim
  obtain ⟨config, ran, clashes⟩ := Option.map_eq_some_iff.mp overwrite_clashes
  simp only [overwrite, Option.bind_eq_bind, Option.bind_eq_some_iff] at ran
  obtain ⟨first, _, second, _, followed⟩ := ran
  have sound : (World.schedule (fun client => client.device = 0 && messaging client.call) ordinary).Sound (recorded (Messaging 0) FreshIds) World.Few := by
    refine World.schedule_sound (fun w client allowed => ?_)
      (fun w e few isOrdinary => (ordinary_fair few isOrdinary).1)
    simpa [Messaging] using allowed
  have begun : (recorded (Messaging 0) FreshIds).Reachable untouched idle := .initial
  have reachable := (sound.follow begun untouched_few followed).1
  obtain ⟨slot, text, text', mine, theirs, _⟩ := used_of_clash clashes
  have same := (claim untouched config untouched_fresh reachable).1 2 3 slot text text' mine theirs
  omega

/-- No decryption overwrites what an encryption has written meanwhile. -/
theorem never_set_back (n : Nat) :
    NeverSetBack n fun w e => FreshIds w e ∧ Unraced w e := by
  intro start config fresh reachable
  have within : (recorded (fun _ => Unshredded) Careful).Reachable start config ∧
      ∀ u client, config.state.calls u = some client → Messaging n config.state client := by
    refine reachable.within (fun w => ∀ u client, w.calls u = some client → Messaging n w client)
      (fun u client running => ?_) ?_ ?_
    · rw [fresh.calls] at running
      cases running
    · rintro t w p w' holds ⟨idle, client, messaging, isProgram, rfl⟩
      refine ⟨⟨idle, client, fun conversationId shreds => ?_, isProgram, rfl⟩,
        fun u other running => ?_⟩
      · simpa [shreds, Reuse.messaging] using messaging.2
      · by_cases same : u = t
        · subst same
          rw [World.begin_calls_self] at running
          obtain rfl := Option.some.inj running
          exact messaging
        · rw [World.begin_calls_of_ne _ _ _ _ same] at running
          exact holds u other running
    · rintro t w op result w' holds ⟨client, d, performs, rfl⟩
      have notRestore : ∀ u other, w.calls u = some other →
          other.device = n ∧ ∀ code, other.call ≠ .restoreFromBackup code := by
        intro u other running
        refine ⟨(holds u other running).1, fun code restores => ?_⟩
        simpa [restores, messaging] using (holds u other running).2
      have here := notRestore t client performs.running
      refine ⟨⟨client, d, ⟨performs.running, performs.before, performs.exec, ?_⟩, rfl⟩, holds⟩
      refine ⟨performs.permitted.1, performs.permitted.2, fun u other running => ?_,
        fun code restores => absurd restores (here.2 code), .inl ⟨n, notRestore⟩⟩
      exact le_of_eq ((notRestore u other running).1.trans here.1.symm)
  obtain ⟨careful, calls⟩ := within
  refine ⟨fun t u slot text text' => Used.unique fresh careful, fun e member => ?_⟩
  refine (reachable_counted fresh careful).1.forward ⟨n, fun u client running => ?_⟩ e member
  refine ⟨(calls u client running).1, fun code restores => ?_⟩
  simpa [restores, messaging] using (calls u client running).2

/-- A step of a run without encryptions: no id is drawn, and a session stays in its conversation. -/
def calm (w : World) (e : Event) : Bool :=
  e.drawn = none && w.past.all (fun e' => e'.drawn = none && !e'.encryptsCall) &&
    match e.saved with
    | none => true
    | some s => w.past.all fun e' => e'.saved.all fun s' => s'.conversationId = s.conversationId

theorem calm_fair {w : World} {e : Event} (isCalm : calm w e) : FreshIds w e ∧ Unraced w e := by
  simp only [calm, Bool.and_eq_true, decide_eq_true_eq, List.all_eq_true, Bool.not_eq_true'] at isCalm
  obtain ⟨⟨undrawn, quiet⟩, kept⟩ := isCalm
  refine ⟨⟨fun sessionId drawn => ?_, fun _ s _ e' old drawn => ?_⟩, ⟨fun _ s _ => ?_, ?_⟩⟩
  · rw [undrawn] at drawn
    cases drawn
  · rw [(quiet e' old).1] at drawn
    cases drawn
  · exact unwritten_of_silent fun e' old => Event.not_encrypts (quiet e' old).2
  · rintro _ s saves conversationId ⟨e', old, s', saves', _, rfl⟩
    rw [saves, List.all_eq_true] at kept
    simpa [saves'] using kept e' old

/-- The first two envelopes of a session, opened one after the other. -/
def opened : Option (Config Op Op.Res World Report) := do
  let first ← (senderEnvelope 0).toOption
  let second ← (senderEnvelope 1).toOption
  (World.schedule (fun client => client.device = 0 && messaging client.call) calm).follow idle <|
    begins 0 (tabClient 0 (.decrypt "c" "a" (.v1 first) false)) 9 directory ++
    begins 1 (tabClient 0 (.decrypt "c" "a" (.v1 second) false)) 2 directory

/-- A decryption has written over the record of a session. -/
def resaved (e : Event) : Bool :=
  !e.encryptsCall && e.saved.any fun s => (e.before.sessions.get s.sessionId).isSome

theorem opened_resaves : opened.map (fun config => config.state.past.any resaved) = some true := by
  decide +kernel

/-- The condition is met by a run in which a decryption writes over the record of a session. -/
theorem never_set_back_opened : ∃ config, config.state.past.any resaved = true ∧
    (∀ t u slot text text', Used config t slot text → Used config u slot text' → t = u) ∧
      ∀ e ∈ config.state.past, Forward e := by
  obtain ⟨config, ran, resaves⟩ := Option.map_eq_some_iff.mp opened_resaves
  simp only [opened, Option.bind_eq_bind, Option.bind_eq_some_iff] at ran
  obtain ⟨first, _, second, _, followed⟩ := ran
  have sound : (World.schedule (fun client => client.device = 0 && messaging client.call) calm).Sound
      (recorded (Messaging 0) fun w e => FreshIds w e ∧ Unraced w e) World.Few := by
    refine World.schedule_sound (fun w client allowed => ?_) (fun w e _ isCalm => calm_fair isCalm)
    simpa [Messaging] using allowed
  have begun : (recorded (Messaging 0) fun w e => FreshIds w e ∧ Unraced w e).Reachable
      untouched idle := .initial
  have reachable := (sound.follow begun untouched_few followed).1
  exact ⟨config, resaves, never_set_back 0 untouched config untouched_fresh reachable⟩

end OneBrowser

section Backups

/-- No slot is used for two plaintexts, in every run from `start` in which the calls are those
`admits` and each operation is one of those `permits`. -/
def OnePlaintext (start : World) (admits : World → Client → Prop) (permits : World → Event → Prop) :
    Prop :=
  ∀ config, (recorded admits permits).Reachable start config →
    ∀ t u slot text text', Used config t slot text → Used config u slot text' → text = text'

def backupCall (client : Client) : Bool :=
  match client.call with
  | .encrypt .. | .uploadBackup _ | .refreshBackup | .restoreFromBackup _ => true
  | _ => false

def drawing : Answer :=
  { directory with uuid := "s" }

/-- A backup is uploaded, the session counted on, the backup restored on another browser. -/
def rewind : Option (Config Op Op.Res World Report) := do
  let config ← (World.schedule backupCall ordinary).follow idle <|
    begins 0 (tabClient 0 (.encrypt "c" "a" (Utf.ofString "hi"))) 14 drawing ++
    begins 1 (tabClient 0 (.uploadBackup "code")) 6 drawing ++
    begins 2 (tabClient 0 (.encrypt "c" "a" (Utf.ofString "yes"))) 7 drawing
  let blob ← config.state.past.findSome? Event.uploaded
  (World.schedule backupCall ordinary).follow config <|
    begins 3 (tabClient 1 (.restoreFromBackup "code")) 4 { drawing with blob := some blob } ++
    begins 4 (tabClient 1 (.encrypt "c" "a" (Utf.ofString "no"))) 7 drawing

theorem rewind_clashes : rewind.map (clash · 2 4) = some true := by
  decide +kernel

theorem reused_after_restore : ¬OnePlaintext untouched (fun _ client => backupCall client)
    (fun w e => FreshIds w e ∧ OnNewest w e ∧ OwnBackups w e) := by
  intro claim
  obtain ⟨config, ran, clashes⟩ := Option.map_eq_some_iff.mp rewind_clashes
  simp only [rewind, Option.bind_eq_bind, Option.bind_eq_some_iff] at ran
  obtain ⟨before, followed, blob, _, followed'⟩ := ran
  have sound : (World.schedule backupCall ordinary).Sound
      (recorded (fun _ client => backupCall client)
        (fun w e => FreshIds w e ∧ OnNewest w e ∧ OwnBackups w e)) World.Few :=
    World.schedule_sound (fun _ _ allowed => allowed)
      (fun w e few isOrdinary => ordinary_fair few isOrdinary)
  have begun : (recorded (fun _ client => backupCall client) fun w e =>
      FreshIds w e ∧ OnNewest w e ∧ OwnBackups w e).Reachable untouched idle := .initial
  obtain ⟨reachable, few⟩ := sound.follow begun untouched_few followed
  obtain ⟨reachable', _⟩ := sound.follow reachable few followed'
  obtain ⟨slot, text, text', mine, theirs, differ⟩ := used_of_clash clashes
  exact differ (claim config reachable' 2 4 slot text text' mine theirs)

/-- No encryption goes on with a session that was put back out of date. -/
theorem one_plaintext (start : World) (fresh : Fresh start) :
    OnePlaintext start (fun _ => Unshredded) fun w e =>
      FreshIds w e ∧ OnNewest w e ∧ OwnBackups w e ∧ Unraced w e ∧ Current w e := by
  intro config reachable t u slot text text' mine theirs
  have careful : (recorded (fun _ => Unshredded) Careful).Reachable start config := by
    refine reachable.mono ?_ ?_
    · exact fun _ _ _ _ started => started
    rintro t w op result w' ⟨client, d, performs, rfl⟩
    obtain ⟨ids, newest, backups, unraced, current⟩ := performs.permitted
    exact ⟨client, d, ⟨performs.running, performs.before, performs.exec,
      ⟨ids, unraced, newest, backups, .inr current⟩⟩, rfl⟩
  have same := Used.unique fresh careful mine theirs
  subst same
  obtain ⟨report, finished, isSent⟩ := mine
  obtain ⟨report', finished', isSent'⟩ := theirs
  rw [finished, Option.some.injEq, Program.done.injEq] at finished'
  subst finished'
  rw [isSent, Option.some.injEq, Prod.mk.injEq] at isSent'
  exact isSent'.2

theorem one_plaintext_untouched : OnePlaintext untouched (fun _ => Unshredded) fun w e =>
    FreshIds w e ∧ OnNewest w e ∧ OwnBackups w e ∧ Unraced w e ∧ Current w e :=
  one_plaintext untouched untouched_fresh

end Backups

end Reuse
