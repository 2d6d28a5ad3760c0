import CipherChat.Service.Laws

/-!
What a shredded conversation leaves behind: when no old envelope of it opens again and no
old session of it is sent on again.
-/

namespace Shredding

open Async Symbolic Primitives KeyStore Envelope EnvelopeV2 Store E2EEService Identifiers

/-- An envelope of the conversation, sent or handed to `decrypt`, under this session id. -/
def Mentions (conversationId sessionId : String) (report : Report) : Prop :=
  match report.call, report.outcome with
  | .encrypt id _ _, .encrypted (.ok envelope) =>
      id = conversationId ∧ envelope.sessionId = sessionId
  | .decrypt id _ envelope _, _ => id = conversationId ∧ envelope.sessionId = sessionId
  | _, _ => False

/-- The session ids of a conversation: of its envelopes so far, and of what is stored. -/
def Old (conversationId : String) (config : Config Op Op.Res Device Report)
    (sessionId : String) : Prop :=
  (∃ t report, config.threads t = some (.done report) ∧
      Mentions conversationId sessionId report) ∨
    (∃ s ∈ config.state.sessions.rows, s.conversationId = conversationId ∧
      s.sessionId = sessionId) ∨
    ∃ row ∈ config.state.ratchets.rows, row.convId = conversationId ∧ row.sessionId = sessionId

/-- No call is under way. -/
def Quiet (config : Config Op Op.Res Device Report) : Prop :=
  ∀ t p, config.threads t = some p → ∃ report, p = .done report

/-- An old envelope did not open, and nothing was sent on an old session. -/
def Finished (conversationId : String) (old : String → Prop) (report : Report) : Prop :=
  match report.call, report.outcome with
  | .encrypt .., .encrypted (.ok envelope) => ¬old envelope.sessionId
  | .decrypt id _ envelope _, .decrypted (.ok result) =>
      id = conversationId → old envelope.sessionId → result.ok = false
  | _, _ => True

/-- What is known of the calls of a run and of the answers to them. -/
structure Terms where
  before : Request → Prop
  atShred : String → (String → Prop) → Device → Prop
  after : (String → Prop) → Request → Prop
  answers : (String → Prop) → (op : Op) → op.Res → Prop

/-- Shredding is final in the runs under these terms: calls in any interleaving, the shred,
and calls in any interleaving again. -/
def Final (terms : Terms) (conversationId : String) : Prop :=
  ∀ start config t receipt d config', Blank start →
    (service terms.before fun _ _ => True).Reachable start config → Quiet config →
    terms.atShred conversationId (Old conversationId config) config.state →
    Ends (Exec t) config.state (shredConversation conversationId) (.ok receipt) d →
    (service (terms.after (Old conversationId config))
      (terms.answers (Old conversationId config))).Reachable d config' →
    ∀ u report, config'.threads u = some (.done report) →
      Finished conversationId (Old conversationId config) report

/-- A new session id is none that was used before. -/
def FreshId (old : String → Prop) : (op : Op) → op.Res → Prop
  | .randomUUID, .ok sessionId => ¬old sessionId
  | _, _ => True

/-- Any calls at all. -/
def anyCalls : Terms where
  before _ := True
  atShred _ _ _ := True
  after _ _ := True
  answers := FreshId

def PlainNames (request : Request) : Prop :=
  match request.call with
  | .encrypt conversationId _ _ =>
      Plain conversationId ∧ ∀ me, request.this.userId = some me → Plain me
  | .decrypt conversationId senderId _ _ => Plain conversationId ∧ Plain senderId
  | _ => True

/-- Not a frame of somebody else with an init block for an old session. -/
def NoReplay (old : String → Prop) (request : Request) : Prop :=
  PlainNames request ∧ match request.call with
    | .decrypt _ _ envelope own => own = false → envelope.init.isSome → ¬old envelope.sessionId
    | _ => True

/-- No old session is stored for another conversation. -/
structure Apart (conversationId : String) (old : String → Prop) (d : Device) : Prop where
  sessions : ∀ s ∈ d.sessions.rows, old s.sessionId → s.conversationId = conversationId
  ratchets : ∀ row ∈ d.ratchets.rows, old row.sessionId → row.convId = conversationId

/-- A new session id is none that was used before, and no backup brings an old session back. -/
def FreshSessions (old : String → Prop) : (op : Op) → op.Res → Prop
  | .randomUUID, .ok sessionId => ¬old sessionId
  | .getBackup, .ok blob => ∀ s ∈ blob.payload.sessions, ¬old s.sessionId
  | _, _ => True

def withoutReplays : Terms where
  before := PlainNames
  atShred := Apart
  after := NoReplay
  answers := FreshSessions

/-- Messages are stored under their conversation. -/
def ownNames : Law where
  names _ := True
  message row := Plain row.convId ∧ ∃ key, row.id = messageId row.convId key
  written conversation _ _ := ⟨conversation, _, rfl⟩

/-- Nothing of the shredded conversation is stored under an old session id. -/
def cleared {conversationId : String} (plain : Plain conversationId) (old : String → Prop) :
    Law where
  names sessionId := ¬old sessionId
  message row := ∀ sessionId senderId ctr, old sessionId → Plain senderId →
    row.id ≠ messageId conversationId (messageKey sessionId senderId ctr)
  written := by
    intro convId sessionId senderId ctr key text conversation sender fresh sessionId' senderId'
      ctr' isOld sender' same
    obtain ⟨_, keys⟩ := messageId_inj conversation plain same
    obtain ⟨sessions, _⟩ := messageKey_inj sender sender' keys
    exact fresh (sessions ▸ isOld)

theorem ownNames_admits {request : Request} (named : PlainNames request) :
    ownNames.Admits request := by
  obtain ⟨this, called⟩ := request
  cases called with
  | decrypt conversationId senderId envelope own => exact ⟨named.1, named.2, fun _ _ => trivial⟩
  | encrypt conversationId peerId text => exact named
  | _ => trivial

theorem ownNames_answers (op : Op) (result : op.Res) : ownNames.Answers op result := by
  unfold Law.Answers
  split
  · trivial
  · exact fun _ _ => trivial
  · trivial

theorem ownNames_blank {d : Device} (blank : Blank d) : ownNames.Holds d where
  sessions _ _ := trivial
  ratchets row member := by
    rw [blank.ratchets] at member
    cases member
  messages row member := by
    rw [blank.messages] at member
    cases member

section

variable {conversationId : String} {old : String → Prop} {d d' : Device}

theorem cleared_admits (plain : Plain conversationId) {request : Request}
    (replay : NoReplay old request) : (cleared plain old).Admits request := by
  obtain ⟨this, called⟩ := request
  obtain ⟨named, noReplay⟩ := replay
  cases called with
  | decrypt _ senderId envelope own => exact ⟨named.1, named.2, noReplay⟩
  | encrypt _ peerId text => exact named
  | _ => trivial

theorem cleared_answers (plain : Plain conversationId) {op : Op} {result : op.Res}
    (fresh : FreshSessions old op result) : (cleared plain old).Answers op result := by
  unfold FreshSessions at fresh
  unfold Law.Answers
  split
  · exact fresh
  · exact fresh
  · trivial

/-- The shred itself removes every row of the conversation. -/
theorem cleared_shredded (plain : Plain conversationId) {t : Nat} {receipt : Shredded}
    (kept : ownNames.Holds d) (apart : Apart conversationId old d)
    (ends : Ends (Exec t) d (shredConversation conversationId) (.ok receipt) d') :
    (cleared plain old).Holds d' := by
  obtain ⟨sessions, ratchets, messages⟩ := ends_shredConversation (fun _ _ _ _ => id) ends
  refine ⟨fun s member isOld => ?_, fun row member => ?_, fun row member => ?_⟩
  · rw [sessions, Table.mem_remove] at member
    simpa [apart.sessions s member.1 isOld] using member.2
  · rw [ratchets, Table.mem_remove] at member
    refine ⟨fun isOld => ?_, (kept.ratchets row member.1).2⟩
    simpa [apart.ratchets row member.1 isOld] using member.2
  · rw [messages, Table.mem_remove] at member
    obtain ⟨conversation, key, named⟩ := kept.messages row member.1
    intro sessionId senderId ctr _ _ same
    obtain ⟨elsewhere, _⟩ := messageId_inj conversation plain (named.symm.trans same)
    simp [elsewhere] at member

theorem cleared_finished (plain : Plain conversationId) {report : Report}
    (admitted : (cleared plain old).Admits report.toRequest)
    (respects : (cleared plain old).Respects report) : Finished conversationId old report := by
  obtain ⟨⟨this, called⟩, outcome⟩ := report
  cases called with
  | encrypt id peerId text =>
      cases outcome with
      | encrypted result =>
          cases result with
          | error e => trivial
          | ok envelope => exact respects
      | _ => trivial
  | decrypt id senderId envelope own =>
      cases outcome with
      | decrypted result =>
          cases result with
          | error e => trivial
          | ok value =>
              intro here isOld
              cases opened : value.ok with
              | false => rfl
              | true =>
                  rcases respects opened with fresh | ⟨row, other, isRow⟩
                  · exact absurd isOld fresh
                  · exact absurd (here ▸ isRow) (other _ senderId _ isOld admitted.2.1)
      | _ => trivial
  | _ => trivial

end

/-- An envelope is received, the conversation shredded, and the envelope replayed. -/
def replay (envelope : WireEnvelope) : Prog (DecryptResult × Shredded × DecryptResult) := do
  let first ← decrypt tab "c" "a" (.v1 envelope) false
  let receipt ← shredConversation "c"
  let second ← decrypt tab "c" "a" (.v1 envelope) false
  return (first, receipt, second)

/-- Operations of one thread that draws no session id. -/
def undrawn (d : Device) (op : Op) (a : Answer) : Option (op.Res × Device) :=
  match op with
  | .randomUUID => none
  | op => perform 0 d op a

theorem undrawn_exec {d d' : Device} {op : Op} {a : Answer} {result : op.Res}
    (performed : undrawn d op a = some (result, d')) :
    Exec 0 d op result d' ∧ ∀ old, FreshId old op result := by
  cases op with
  | randomUUID => cases performed
  | _ => exact ⟨⟨a, performed⟩, fun _ => trivial⟩

theorem replay_opens :
    (((senderEnvelope 0).toOption.bind fun envelope =>
      (interpret undrawn (replay envelope).run freshDevice (List.replicate 32 directory)).bind
        fun run => run.1.toOption).map fun results => results.2.2.ok) = some true := by
  decide +kernel

theorem replay_ends : ∃ envelope first receipt second d', second.ok = true ∧
    Ends (fun d op result d' => ∃ a, undrawn d op a = some (result, d')) freshDevice
      (replay envelope) (.ok (first, receipt, second)) d' := by
  obtain ⟨⟨first, receipt, second⟩, opened, isOk⟩ := Option.map_eq_some_iff.mp replay_opens
  obtain ⟨envelope, _, ran⟩ := Option.bind_eq_some_iff.mp opened
  obtain ⟨⟨result, d'⟩, ran, ended⟩ := Option.bind_eq_some_iff.mp ran
  cases result with
  | error e => cases ended
  | ok value =>
      obtain rfl := Option.some.inj ended
      exact ⟨envelope, first, receipt, second, d', isOk, interpret_runs ran⟩

/-- A call made while nothing else runs. -/
theorem reachable_alone (request : Request) (answers : (op : Op) → op.Res → Prop) {α : Type}
    {d d' : Device} {outcome : Except JsError α → Outcome} {p : Prog α} {result : Except JsError α}
    (isCall : request.program = request.report outcome p)
    (allowed : ∀ op result, (∀ old, FreshId old op result) → answers op result)
    (ends : Ends (fun d op result d' => ∃ a, undrawn d op a = some (result, d')) d p result d') :
    (service (fun _ => True) answers).Reachable d ⟨d', Function.update (fun _ => none) 0
      (some (.done { request with outcome := outcome result }))⟩ := by
  refine System.Reachable.initial.solo rfl ⟨rfl, request, trivial, rfl⟩ ?_
  rw [isCall]
  refine (runs_report ends).mono ?_
  rintro d op result d' ⟨a, performed⟩
  obtain ⟨performed, fresh⟩ := undrawn_exec performed
  exact ⟨performed, allowed op result fresh⟩

theorem replay_not_final : ¬Final anyCalls "c" := by
  intro final
  obtain ⟨envelope, first, receipt, second, d', opened, ends⟩ := replay_ends
  obtain ⟨first', d₁, received, rest⟩ := ends_bind_ok.mp ends
  obtain ⟨receipt', d₂, shredded, rest₂⟩ := ends_bind_ok.mp rest
  obtain ⟨second', d₃, replayed, rest₃⟩ := ends_bind_ok.mp rest₂
  obtain ⟨results, rfl⟩ := ends_pure.mp rest₃
  simp only [Except.ok.injEq, Prod.mk.injEq] at results
  obtain ⟨rfl, rfl, rfl⟩ := results
  let request : Request := { this := tab, call := .decrypt "c" "a" (.v1 envelope) false }
  let config : Config Op Op.Res Device Report := ⟨d₁, Function.update (fun _ => none) 0
    (some (.done { request with outcome := .decrypted (.ok first) }))⟩
  have before : (service (fun _ => True) fun _ _ => True).Reachable freshDevice config :=
    reachable_alone request _ rfl (fun _ _ _ => trivial) received
  have quiet : Quiet config := by
    intro t p running
    by_cases same : t = 0
    · subst same
      exact ⟨_, (Option.some.inj (by simpa [config] using running)).symm⟩
    · simp [config, same] at running
  have shred : Ends (Exec 0) d₁ (shredConversation "c") (.ok receipt) d₂ := by
    refine Runs.mono ?_ shredded
    rintro d op result d' ⟨a, performed⟩
    exact (undrawn_exec performed).1
  have after : (service (fun _ => True) (FreshId (Old "c" config))).Reachable d₂ ⟨d',
      Function.update (fun _ => none) 0
        (some (.done { request with outcome := .decrypted (.ok second) }))⟩ :=
    reachable_alone request _ rfl (fun _ _ fresh => fresh _) replayed
  have finished : Finished "c" (Old "c" config)
      { request with outcome := .decrypted (.ok second) } :=
    final freshDevice config 0 receipt d₂ _ freshDevice_blank before quiet trivial shred after 0 _
      (by simp)
  have old : Old "c" config envelope.sessionId :=
    .inl ⟨0, { request with outcome := .decrypted (.ok first) }, by simp [config], rfl, rfl⟩
  have closed : second.ok = false := finished rfl old
  rw [opened] at closed
  cases closed

/-- Without such replays, and while old sessions are kept apart, shredding is final. -/
theorem shredding_final {conversationId : String} (plain : Plain conversationId) :
    Final withoutReplays conversationId := by
  intro start config t receipt d config' blank before quiet apart shredded after u report reported
  have kept : ownNames.Holds config.state := by
    have reachable : ownNames.system.Reachable start config :=
      service_mono (fun _ => ownNames_admits) (fun op result _ => ownNames_answers op result) before
    exact (Law.reachable_holds (ownNames_blank blank) reachable).1
  have clear := cleared_shredded plain kept apart shredded
  have reachable : (cleared plain (Old conversationId config)).system.Reachable d config' :=
    service_mono (fun _ => cleared_admits plain) (fun _ _ => cleared_answers plain) after
  obtain ⟨admitted, respects⟩ := (Law.reachable_holds clear reachable).2 u report reported
  exact cleared_finished plain admitted respects

theorem shredding_final_c : Plain "c" ∧ Final withoutReplays "c" :=
  ⟨by decide, shredding_final (by decide)⟩

end Shredding
