import Mathlib.Data.List.Induction
import Mathlib.Data.Set.Insert
import Mathlib.Logic.Function.Basic
import Mathlib.Tactic.Common

/-!
`services/stompSocket.ts`: what the pages have joined, and the subscriptions that stand for it on
the connection of the moment.
-/

namespace Socket

/-- The `Client` of `@stomp/stompjs`, as far as subscriptions go. -/
structure StompClient where
  State : Type
  Subscription : Type
  create : State
  connected : State → Bool
  subscribe : State → String → Subscription × State
  unsubscribe : State → Subscription → State
  drop : State → State
  reconnect : State → State
  /-- The subscriptions of the connection, with their destinations. -/
  live : State → Set (Subscription × String)
  /-- The destinations of all the SUBSCRIBE frames so far. -/
  sent : State → List String
  connected_create : connected create = false
  connected_subscribe : ∀ {s} destination, connected s → connected (subscribe s destination).2
  live_subscribe : ∀ {s} destination, connected s →
    live (subscribe s destination).2 = insert ((subscribe s destination).1, destination) (live s)
  fresh_subscribe : ∀ {s} destination, connected s →
    ∀ e ∈ live s, e.1 ≠ (subscribe s destination).1
  sent_subscribe : ∀ {s} destination, connected s →
    sent (subscribe s destination).2 = sent s ++ [destination]
  connected_unsubscribe : ∀ s subscription, connected (unsubscribe s subscription) = connected s
  live_unsubscribe : ∀ {s} subscription, connected s →
    live (unsubscribe s subscription) = {e ∈ live s | e.1 ≠ subscription}
  sent_unsubscribe : ∀ s subscription, sent (unsubscribe s subscription) = sent s
  connected_drop : ∀ s, connected (drop s) = false
  sent_drop : ∀ s, sent (drop s) = sent s
  connected_reconnect : ∀ s, connected (reconnect s)
  live_reconnect : ∀ s, live (reconnect s) = ∅
  sent_reconnect : ∀ s, sent (reconnect s) = sent s

inductive Kind
  | room
  | dm
  deriving DecidableEq

def topic : Kind → String → String
  | .room, roomId => "/topic/rooms/" ++ roomId
  | .dm, conversationId => "/topic/dm/" ++ conversationId

def userQueues : List String :=
  ["/user/queue/events", "/user/queue/acks", "/user/queue/sync", "/topic/presence"]

/-- The two sets of what the pages want and the two maps of what is live. -/
structure Subscriptions (c : StompClient) where
  client : c.State
  wanted : Kind → List String
  live : Kind → String → Option c.Subscription

namespace Subscriptions

variable {c : StompClient}

def wantedRooms (s : Subscriptions c) : List String :=
  s.wanted .room

def wantedDms (s : Subscriptions c) : List String :=
  s.wanted .dm

def rooms (s : Subscriptions c) : String → Option c.Subscription :=
  s.live .room

def dms (s : Subscriptions c) : String → Option c.Subscription :=
  s.live .dm

/-- What `subscribeRoom` and `subscribeDm` share. -/
def subscribe (kind : Kind) (s : Subscriptions c) (id : String) : Subscriptions c :=
  let wanted := if id ∈ s.wanted kind then s.wanted kind else s.wanted kind ++ [id]
  let s := { s with wanted := Function.update s.wanted kind wanted }
  if !c.connected s.client || (s.live kind id).isSome then s
  else
    let subscribed := c.subscribe s.client (topic kind id)
    { s with
      client := subscribed.2
      live := Function.update s.live kind
        (Function.update (s.live kind) id (some subscribed.1)) }

def subscribeRoom (s : Subscriptions c) (roomId : String) : Subscriptions c :=
  s.subscribe .room roomId

def subscribeDm (s : Subscriptions c) (conversationId : String) : Subscriptions c :=
  s.subscribe .dm conversationId

/-- What the client throws when it is not connected is caught. -/
def unsubscribe (kind : Kind) (s : Subscriptions c) (id : String) : Subscriptions c where
  client := match s.live kind id with
    | some subscription => c.unsubscribe s.client subscription
    | none => s.client
  wanted := Function.update s.wanted kind ((s.wanted kind).filter (· ≠ id))
  live := Function.update s.live kind (Function.update (s.live kind) id none)

def subscribeUserQueues (s : Subscriptions c) : Subscriptions c :=
  { s with client := userQueues.foldl (fun client queue => (c.subscribe client queue).2) s.client }

def clear (s : Subscriptions c) : Subscriptions c :=
  { s with live := fun _ _ => none }

def onConnect (s : Subscriptions c) : Subscriptions c :=
  let s := s.subscribeUserQueues.clear
  let s := s.wantedRooms.foldl subscribeRoom s
  s.wantedDms.foldl subscribeDm s

end Subscriptions

/-- What the pages ask for, and what becomes of the connection. -/
inductive Event
  | joinRoom (chatroomId : String)
  | leaveRoom (chatroomId : String)
  | joinDM (conversationId : String)
  | leaveDM (conversationId : String)
  | drop
  | reconnect
  deriving DecidableEq

/-- What one event does. -/
def step {c : StompClient} (s : Subscriptions c) : Event → Subscriptions c
  | .joinRoom chatroomId => s.subscribeRoom chatroomId
  | .leaveRoom chatroomId => s.unsubscribe .room chatroomId
  | .joinDM conversationId => s.subscribeDm conversationId
  | .leaveDM conversationId => s.unsubscribe .dm conversationId
  | .drop => { s with client := c.drop s.client }
  | .reconnect => { s with client := c.reconnect s.client }.onConnect

/-- A socket before anything has been joined. -/
def createStompSocket (c : StompClient) : Subscriptions c where
  client := c.create
  wanted _ := []
  live _ _ := none

def run (c : StompClient) (events : List Event) : Subscriptions c :=
  events.foldl step (createStompSocket c)

/-- Whether an event is for a room or conversation, and which way. -/
def Event.intent (kind : Kind) (id : String) : Event → Option Bool
  | .joinRoom chatroomId => if kind = .room ∧ chatroomId = id then some true else none
  | .leaveRoom chatroomId => if kind = .room ∧ chatroomId = id then some false else none
  | .joinDM conversationId => if kind = .dm ∧ conversationId = id then some true else none
  | .leaveDM conversationId => if kind = .dm ∧ conversationId = id then some false else none
  | .drop | .reconnect => none

/-- Joined, and not since left. -/
def Joined (events : List Event) (kind : Kind) (id : String) : Prop :=
  ∃ before event after, events = before ++ event :: after ∧ event.intent kind id = some true ∧
    ∀ later ∈ after, later.intent kind id ≠ some false

section Topics

theorem topic_injective {kind kind' : Kind} {id id' : String} (same : topic kind id = topic kind' id') :
    kind = kind' ∧ id = id' := by
  have lists := congrArg String.toList same
  cases kind <;> cases kind' <;> simp only [topic, String.toList_append] at lists
  · exact ⟨rfl, String.toList_injective (List.append_cancel_left lists)⟩
  · simp at lists
  · simp at lists
  · exact ⟨rfl, String.toList_injective (List.append_cancel_left lists)⟩

theorem topic_not_userQueue (kind : Kind) (id : String) : topic kind id ∉ userQueues := by
  intro member
  have lists : (topic kind id).toList ∈ userQueues.map String.toList := List.mem_map_of_mem member
  cases kind <;> simp [topic, userQueues, String.toList_append] at lists

theorem joined_append {events : List Event} {event : Event} {kind : Kind} {id : String} :
    Joined (events ++ [event]) kind id ↔
      event.intent kind id = some true ∨ event.intent kind id ≠ some false ∧ Joined events kind id := by
  constructor
  · rintro ⟨before, joined, after, split, asked, kept⟩
    rcases List.eq_nil_or_concat after with rfl | ⟨earlier, last, rfl⟩
    · have same := List.append_inj_right' split rfl
      simp only [List.cons.injEq, and_true] at same
      exact .inl (same ▸ asked)
    · have shape : events ++ [event] = (before ++ joined :: earlier) ++ [last] := by simp [split]
      have same := List.append_inj_right' shape rfl
      have rest := List.append_inj_left' shape rfl
      simp only [List.cons.injEq, and_true] at same
      exact .inr ⟨same ▸ kept last (by simp), before, joined, earlier, rest, asked,
        fun later member => kept later (by simp [member])⟩
  · rintro (asked | ⟨kept, before, joined, after, rfl, asked, kept'⟩)
    · exact ⟨events, event, [], rfl, asked, nofun⟩
    · refine ⟨before, joined, after ++ [event], by simp, asked, fun later member => ?_⟩
      rcases List.mem_append.mp member with earlier | last
      · exact kept' later earlier
      · exact List.mem_singleton.mp last ▸ kept

end Topics

section Live

variable {c : StompClient} {s : Subscriptions c} {kind kind' : Kind} {id id' : String}

/-- The maps say which subscriptions the connection has. -/
structure Mirrors (s : Subscriptions c) : Prop where
  connected : c.connected s.client
  known : ∀ e ∈ c.live s.client, ∀ kind id, e.2 = topic kind id → s.live kind id = some e.1
  held : ∀ kind id subscription, s.live kind id = some subscription →
    (subscription, topic kind id) ∈ c.live s.client
  distinct : ∀ e ∈ c.live s.client, ∀ e' ∈ c.live s.client, e.1 = e'.1 → e = e'

theorem mem_wanted_subscribe : id' ∈ (s.subscribe kind id).wanted kind' ↔
    id' ∈ s.wanted kind' ∨ kind' = kind ∧ id' = id := by
  have shape : (s.subscribe kind id).wanted = Function.update s.wanted kind
      (if id ∈ s.wanted kind then s.wanted kind else s.wanted kind ++ [id]) := by
    simp only [Subscriptions.subscribe]
    split <;> rfl
  rw [shape]
  by_cases other : kind' = kind
  · subst other
    rw [Function.update_self]
    by_cases already : id ∈ s.wanted kind'
    · rw [if_pos already]
      grind
    · rw [if_neg already]
      simp
  · simp [other]

theorem mem_wanted_unsubscribe : id' ∈ (s.unsubscribe kind id).wanted kind' ↔
    id' ∈ s.wanted kind' ∧ ¬(kind' = kind ∧ id' = id) := by
  simp only [Subscriptions.unsubscribe]
  by_cases other : kind' = kind
  · subst other
    simp
  · simp [other]

/-- Off line nothing is subscribed to; neither is what is live already. -/
theorem subscribe_idle (idle : c.connected s.client = false ∨ (s.live kind id).isSome) :
    (s.subscribe kind id).client = s.client ∧ (s.subscribe kind id).live = s.live := by
  have skips : (!c.connected s.client || (s.live kind id).isSome) = true := by
    rcases idle with offline | already
    · simp [offline]
    · simp [already]
  simp only [Subscriptions.subscribe, skips, if_true, and_self]

theorem subscribe_new (online : c.connected s.client) (absent : s.live kind id = none) :
    (s.subscribe kind id).client = (c.subscribe s.client (topic kind id)).2 ∧
      (s.subscribe kind id).live = Function.update s.live kind (Function.update (s.live kind) id
        (some (c.subscribe s.client (topic kind id)).1)) := by
  simp only [Subscriptions.subscribe, online, absent, Option.isSome_none, Bool.not_true,
    Bool.or_self, Bool.false_eq_true, if_false, and_self]

theorem update_live {live : Kind → String → Option c.Subscription} {value : Option c.Subscription} :
    Function.update live kind (Function.update (live kind) id value) kind' id' =
      if kind' = kind ∧ id' = id then value else live kind' id' := by
  by_cases other : kind' = kind
  · subst other
    by_cases same : id' = id
    · simp [same]
    · simp [same]
  · simp [other]

theorem Mirrors.subscribe (mirrors : Mirrors s) (kind : Kind) (id : String) :
    Mirrors (s.subscribe kind id) := by
  by_cases already : (s.live kind id).isSome
  · obtain ⟨client, live⟩ := subscribe_idle (s := s) (.inr already)
    exact ⟨client ▸ mirrors.connected, by rw [client, live]; exact mirrors.known,
      by rw [client, live]; exact mirrors.held, by rw [client]; exact mirrors.distinct⟩
  · have absent : s.live kind id = none := by simpa using already
    obtain ⟨client, live⟩ := subscribe_new mirrors.connected absent
    have isLive := c.live_subscribe (topic kind id) mirrors.connected
    have fresh := c.fresh_subscribe (topic kind id) mirrors.connected
    refine ⟨?_, ?_, ?_, ?_⟩
    · rw [client]
      exact c.connected_subscribe _ mirrors.connected
    · intro e member kind' id' isTopic
      rw [client, isLive] at member
      rw [live, update_live]
      rcases member with rfl | older
      · obtain ⟨rfl, rfl⟩ := topic_injective isTopic
        simp
      · have known := mirrors.known e older kind' id' isTopic
        rw [if_neg, known]
        rintro ⟨rfl, rfl⟩
        simp [absent] at known
    · intro kind' id' subscription isSubscription
      rw [live, update_live] at isSubscription
      rw [client, isLive]
      by_cases same : kind' = kind ∧ id' = id
      · rw [if_pos same, Option.some.injEq] at isSubscription
        obtain ⟨rfl, rfl⟩ := same
        exact .inl (by rw [isSubscription])
      · rw [if_neg same] at isSubscription
        exact .inr (mirrors.held kind' id' subscription isSubscription)
    · intro e member e' member' same
      rw [client, isLive] at member member'
      rcases member with rfl | older <;> rcases member' with rfl | older'
      · rfl
      · exact absurd same.symm (fresh e' older')
      · exact absurd same (fresh e older)
      · exact mirrors.distinct e older e' older' same

theorem isSome_subscribe (online : c.connected s.client) :
    ((s.subscribe kind id).live kind' id').isSome ↔
      (s.live kind' id').isSome ∨ kind' = kind ∧ id' = id := by
  by_cases already : (s.live kind id).isSome
  · rw [(subscribe_idle (.inr already)).2]
    constructor
    · exact .inl
    · rintro (held | ⟨rfl, rfl⟩)
      · exact held
      · exact already
  · have absent : s.live kind id = none := by simpa using already
    rw [(subscribe_new online absent).2, update_live]
    by_cases same : kind' = kind ∧ id' = id
    · simp [same]
    · simp [same]

theorem Mirrors.unsubscribe (mirrors : Mirrors s) (kind : Kind) (id : String) :
    Mirrors (s.unsubscribe kind id) := by
  have live : (s.unsubscribe kind id).live =
      Function.update s.live kind (Function.update (s.live kind) id none) := rfl
  have client : (s.unsubscribe kind id).client = match s.live kind id with
      | some subscription => c.unsubscribe s.client subscription
      | none => s.client := rfl
  cases held : s.live kind id with
  | none =>
      rw [held] at client
      have same : (s.unsubscribe kind id).live = s.live := by
        funext kind' id'
        rw [live, update_live]
        by_cases same : kind' = kind ∧ id' = id
        · rw [if_pos same, same.1, same.2, held]
        · rw [if_neg same]
      exact ⟨client ▸ mirrors.connected, by rw [client, same]; exact mirrors.known,
        by rw [client, same]; exact mirrors.held, by rw [client]; exact mirrors.distinct⟩
  | some subscription =>
      rw [held] at client
      have isLive := c.live_unsubscribe subscription mirrors.connected
      have there := mirrors.held kind id subscription held
      refine ⟨?_, ?_, ?_, ?_⟩
      · rw [client, c.connected_unsubscribe]
        exact mirrors.connected
      · intro e member kind' id' isTopic
        rw [client, isLive] at member
        have known := mirrors.known e member.1 kind' id' isTopic
        rw [live, update_live, if_neg, known]
        rintro ⟨rfl, rfl⟩
        rw [held, Option.some.injEq] at known
        exact member.2 known.symm
      · intro kind' id' subscription' isSubscription
        rw [live, update_live] at isSubscription
        by_cases same : kind' = kind ∧ id' = id
        · simp [same] at isSubscription
        · rw [if_neg same] at isSubscription
          have there' := mirrors.held kind' id' subscription' isSubscription
          rw [client, isLive]
          refine ⟨there', fun isSame => same ?_⟩
          have equal := mirrors.distinct _ there' _ there isSame
          exact topic_injective (Prod.ext_iff.mp equal).2
      · intro e member e' member'
        rw [client, isLive] at member member'
        exact mirrors.distinct e member.1 e' member'.1

theorem isSome_unsubscribe : ((s.unsubscribe kind id).live kind' id').isSome ↔
    (s.live kind' id').isSome ∧ ¬(kind' = kind ∧ id' = id) := by
  change (Function.update s.live kind (Function.update (s.live kind) id none) kind' id').isSome ↔ _
  rw [update_live]
  by_cases same : kind' = kind ∧ id' = id
  · simp [same]
  · simp [same]

end Live

section Connecting

variable {c : StompClient} {s : Subscriptions c} {kind : Kind} {id : String}

/-- On a new connection the four queues are all there is. -/
structure Fresh (c : StompClient) (client : c.State) : Prop where
  connected : c.connected client
  queues : ∀ e ∈ c.live client, e.2 ∈ userQueues
  distinct : ∀ e ∈ c.live client, ∀ e' ∈ c.live client, e.1 = e'.1 → e = e'

theorem Fresh.subscribe {client : c.State} (fresh : Fresh c client) {queue : String}
    (isQueue : queue ∈ userQueues) : Fresh c (c.subscribe client queue).2 := by
  have isLive := c.live_subscribe queue fresh.connected
  have new := c.fresh_subscribe queue fresh.connected
  refine ⟨c.connected_subscribe queue fresh.connected, ?_, ?_⟩
  · intro e member
    rw [isLive] at member
    rcases member with rfl | older
    · exact isQueue
    · exact fresh.queues e older
  · intro e member e' member' same
    rw [isLive] at member member'
    rcases member with rfl | older <;> rcases member' with rfl | older'
    · rfl
    · exact absurd same.symm (new e' older')
    · exact absurd same (new e older)
    · exact fresh.distinct e older e' older' same

theorem Fresh.foldl {client : c.State} (fresh : Fresh c client) {queues : List String}
    (areQueues : ∀ queue ∈ queues, queue ∈ userQueues) :
    Fresh c (queues.foldl (fun client queue => (c.subscribe client queue).2) client) := by
  induction queues generalizing client with
  | nil => exact fresh
  | cons queue rest ih =>
      exact ih (fresh.subscribe (areQueues queue (by simp)))
        fun later member => areQueues later (by simp [member])

/-- Subscribing to one after another. -/
theorem foldl_subscribe (mirrors : Mirrors s) (kind : Kind) (ids : List String) :
    Mirrors (ids.foldl (Subscriptions.subscribe kind) s) ∧
      (∀ kind' id', ((ids.foldl (Subscriptions.subscribe kind) s).live kind' id').isSome ↔
        (s.live kind' id').isSome ∨ kind' = kind ∧ id' ∈ ids) ∧
      ∀ kind' id', id' ∈ (ids.foldl (Subscriptions.subscribe kind) s).wanted kind' ↔
        id' ∈ s.wanted kind' ∨ kind' = kind ∧ id' ∈ ids := by
  induction ids generalizing s with
  | nil => exact ⟨mirrors, by simp, by simp⟩
  | cons first rest ih =>
      obtain ⟨mirrors', live, wanted⟩ := ih (mirrors.subscribe kind first)
      refine ⟨mirrors', fun kind' id' => ?_, fun kind' id' => ?_⟩
      · rw [List.foldl_cons, live, isSome_subscribe mirrors.connected, List.mem_cons]
        tauto
      · rw [List.foldl_cons, wanted, mem_wanted_subscribe, List.mem_cons]
        tauto

/-- What is live is what is wanted. -/
structure Settled (s : Subscriptions c) : Prop where
  mirrors : Mirrors s
  wanted : ∀ kind id, (s.live kind id).isSome ↔ id ∈ s.wanted kind

theorem clear_mirrors (online : c.connected s.client) (blank : c.live s.client = ∅) :
    Mirrors s.subscribeUserQueues.clear := by
  have fresh : Fresh c s.client := ⟨online, by simp [blank], by simp [blank]⟩
  have queued := fresh.foldl fun queue (isQueue : queue ∈ userQueues) => isQueue
  refine ⟨queued.connected, ?_, nofun, queued.distinct⟩
  intro e member kind id isTopic
  exact absurd (isTopic ▸ queued.queues e member) (topic_not_userQueue kind id)

/-- After the rooms come the conversations. -/
theorem onConnect_eq : ∃ rooms : Subscriptions c,
    rooms = (s.wanted .room).foldl (Subscriptions.subscribe .room) s.subscribeUserQueues.clear ∧
      s.onConnect = (rooms.wanted .dm).foldl (Subscriptions.subscribe .dm) rooms :=
  ⟨_, rfl, rfl⟩

theorem onConnect_settled (online : c.connected s.client) (blank : c.live s.client = ∅) :
    Settled s.onConnect ∧ ∀ kind id, id ∈ s.onConnect.wanted kind ↔ id ∈ s.wanted kind := by
  obtain ⟨rooms, isRooms, isWhole⟩ := onConnect_eq (s := s)
  obtain ⟨mirrors, live, wanted⟩ :=
    foldl_subscribe (clear_mirrors online blank) .room (s.wanted .room)
  rw [← isRooms] at mirrors live wanted
  obtain ⟨mirrors', live', wanted'⟩ := foldl_subscribe mirrors .dm (rooms.wanted .dm)
  rw [← isWhole] at mirrors' live' wanted'
  have kept : ∀ kind id, id ∈ s.subscribeUserQueues.clear.wanted kind ↔ id ∈ s.wanted kind :=
    fun kind id => Iff.rfl
  have none : ∀ kind id, s.subscribeUserQueues.clear.live kind id = none := fun kind id => rfl
  have same : ∀ kind id, id ∈ s.onConnect.wanted kind ↔ id ∈ s.wanted kind := by
    intro kind id
    rw [wanted', wanted, wanted, kept, kept]
    cases kind <;> simp
  refine ⟨⟨mirrors', fun kind id => ?_⟩, same⟩
  rw [same, live', live, wanted, none, kept]
  cases kind <;> simp

end Connecting

section Sent

variable {c : StompClient} {s : Subscriptions c} {kind kind' : Kind} {id id' : String}

theorem sent_subscribe_other (other : ¬(kind' = kind ∧ id' = id)) :
    (c.sent (s.subscribe kind' id').client).count (topic kind id) =
      (c.sent s.client).count (topic kind id) := by
  by_cases idle : c.connected s.client = false ∨ (s.live kind' id').isSome
  · rw [(subscribe_idle idle).1]
  · simp only [not_or, Bool.not_eq_false, Bool.not_eq_true, Option.isSome_eq_false_iff,
      Option.isNone_iff_eq_none] at idle
    rw [(subscribe_new idle.1 idle.2).1, c.sent_subscribe _ idle.1, List.count_append]
    have apart : topic kind' id' ≠ topic kind id := fun same => other (topic_injective same)
    simp [apart]

theorem sent_foldl_subscribe {ids : List String} (other : ∀ id' ∈ ids, ¬(kind' = kind ∧ id' = id)) :
    (c.sent (ids.foldl (Subscriptions.subscribe kind') s).client).count (topic kind id) =
      (c.sent s.client).count (topic kind id) := by
  induction ids generalizing s with
  | nil => rfl
  | cons first rest ih =>
      rw [List.foldl_cons, ih fun later member => other later (by simp [member]),
        sent_subscribe_other (other first (by simp))]

theorem sent_unsubscribe : c.sent (s.unsubscribe kind id).client = c.sent s.client := by
  simp only [Subscriptions.unsubscribe]
  cases s.live kind id with
  | none => rfl
  | some subscription => exact c.sent_unsubscribe _ _

theorem sent_userQueues {client : c.State} (online : c.connected client) {queues : List String}
    (areQueues : ∀ queue ∈ queues, queue ∈ userQueues) :
    (c.sent (queues.foldl (fun client queue => (c.subscribe client queue).2) client)).count
        (topic kind id) = (c.sent client).count (topic kind id) := by
  induction queues generalizing client with
  | nil => rfl
  | cons queue rest ih =>
      have apart : queue ≠ topic kind id := by
        intro same
        exact topic_not_userQueue kind id (same ▸ areQueues queue (by simp))
      rw [List.foldl_cons, ih (c.connected_subscribe queue online)
        fun later member => areQueues later (by simp [member]), c.sent_subscribe queue online,
        List.count_append]
      simp [apart]

/-- What is not wanted is not subscribed to. -/
theorem sent_onConnect (online : c.connected s.client) (blank : c.live s.client = ∅)
    (unwanted : id ∉ s.wanted kind) :
    (c.sent s.onConnect.client).count (topic kind id) = (c.sent s.client).count (topic kind id) := by
  obtain ⟨rooms, isRooms, isWhole⟩ := onConnect_eq (s := s)
  obtain ⟨_, _, wanted⟩ :=
    foldl_subscribe (clear_mirrors online blank) .room (s.wanted .room)
  rw [← isRooms] at wanted
  have unwanted' : id ∉ rooms.wanted kind := by
    rw [wanted]
    rintro (before | ⟨rfl, isRoom⟩)
    · exact unwanted before
    · exact unwanted isRoom
  have conversations : (c.sent s.onConnect.client).count (topic kind id) =
      (c.sent rooms.client).count (topic kind id) := by
    rw [isWhole]
    refine sent_foldl_subscribe fun id' member same => unwanted' ?_
    rw [← same.1, ← same.2]
    exact member
  have roomsOnly : (c.sent rooms.client).count (topic kind id) =
      (c.sent s.subscribeUserQueues.clear.client).count (topic kind id) := by
    rw [isRooms]
    refine sent_foldl_subscribe fun id' member same => unwanted ?_
    rw [← same.1, ← same.2]
    exact member
  rw [conversations, roomsOnly]
  exact sent_userQueues online fun queue isQueue => isQueue

end Sent

section Runs

variable {c : StompClient} {s : Subscriptions c} {events : List Event} {kind : Kind} {id : String}

theorem wanted_step (event : Event) : id ∈ (step s event).wanted kind ↔
    event.intent kind id = some true ∨ event.intent kind id ≠ some false ∧ id ∈ s.wanted kind := by
  cases event with
  | joinRoom chatroomId =>
      refine mem_wanted_subscribe.trans ?_
      simp only [Event.intent]
      split <;> simp <;> grind
  | leaveRoom chatroomId =>
      refine mem_wanted_unsubscribe.trans ?_
      simp only [Event.intent]
      split <;> simp <;> grind
  | joinDM conversationId =>
      refine mem_wanted_subscribe.trans ?_
      simp only [Event.intent]
      split <;> simp <;> grind
  | leaveDM conversationId =>
      refine mem_wanted_unsubscribe.trans ?_
      simp only [Event.intent]
      split <;> simp <;> grind
  | drop => simp [step, Event.intent]
  | reconnect =>
      have settled := onConnect_settled (s := { s with client := c.reconnect s.client })
        (c.connected_reconnect _) (c.live_reconnect _)
      simpa [step, Event.intent] using settled.2 kind id

theorem Settled.subscribe (settled : Settled s) (kind : Kind) (id : String) :
    Settled (s.subscribe kind id) := by
  refine ⟨settled.mirrors.subscribe kind id, fun kind' id' => ?_⟩
  rw [isSome_subscribe settled.mirrors.connected, mem_wanted_subscribe, settled.wanted]

theorem Settled.unsubscribe (settled : Settled s) (kind : Kind) (id : String) :
    Settled (s.unsubscribe kind id) := by
  refine ⟨settled.mirrors.unsubscribe kind id, fun kind' id' => ?_⟩
  rw [isSome_unsubscribe, mem_wanted_unsubscribe, settled.wanted]

theorem connected_of_subscribe (online : c.connected (s.subscribe kind id).client) :
    c.connected s.client := by
  by_contra offline
  rw [(subscribe_idle (.inl (by simpa using offline))).1] at online
  exact offline online

theorem connected_of_unsubscribe (online : c.connected (s.unsubscribe kind id).client) :
    c.connected s.client := by
  simp only [Subscriptions.unsubscribe] at online
  cases held : s.live kind id with
  | none => simpa [held] using online
  | some subscription => simpa [held, c.connected_unsubscribe] using online

/-- Whatever happens, on a connection all is as it should be. -/
theorem step_settled (settled : c.connected s.client → Settled s) (event : Event)
    (online : c.connected (step s event).client) : Settled (step s event) := by
  cases event with
  | joinRoom chatroomId => exact (settled (connected_of_subscribe online)).subscribe .room chatroomId
  | leaveRoom chatroomId =>
      exact (settled (connected_of_unsubscribe online)).unsubscribe .room chatroomId
  | joinDM conversationId => exact (settled (connected_of_subscribe online)).subscribe .dm conversationId
  | leaveDM conversationId =>
      exact (settled (connected_of_unsubscribe online)).unsubscribe .dm conversationId
  | drop => exact absurd online (by simp [step, c.connected_drop])
  | reconnect => exact (onConnect_settled (c.connected_reconnect _) (c.live_reconnect _)).1

theorem run_append (event : Event) : run c (events ++ [event]) = step (run c events) event := by
  simp [run]

theorem run_wanted : id ∈ (run c events).wanted kind ↔ Joined events kind id := by
  induction events using List.reverseRecOn with
  | nil => simp [run, createStompSocket, Joined]
  | append_singleton events event ih => rw [run_append, wanted_step, ih, joined_append]

theorem run_settled (online : c.connected (run c events).client) : Settled (run c events) := by
  induction events using List.reverseRecOn with
  | nil => exact absurd online (by simp [run, createStompSocket, c.connected_create])
  | append_singleton events event ih =>
      rw [run_append] at online ⊢
      exact step_settled ih event online

/-- What is not wanted is not subscribed to by an event that does not ask for it. -/
theorem sent_step {event : Event} (unwanted : id ∉ s.wanted kind)
    (unasked : event.intent kind id ≠ some true) :
    (c.sent (step s event).client).count (topic kind id) = (c.sent s.client).count (topic kind id) := by
  cases event with
  | joinRoom chatroomId =>
      refine sent_subscribe_other fun same => unasked ?_
      simp [Event.intent, same.1.symm, same.2]
  | leaveRoom chatroomId => exact congrArg _ sent_unsubscribe
  | joinDM conversationId =>
      refine sent_subscribe_other fun same => unasked ?_
      simp [Event.intent, same.1.symm, same.2]
  | leaveDM conversationId => exact congrArg _ sent_unsubscribe
  | drop => exact congrArg _ (c.sent_drop _)
  | reconnect =>
      have rebuilt := sent_onConnect (s := { s with client := c.reconnect s.client })
        (c.connected_reconnect _) (c.live_reconnect _) unwanted
      rw [c.sent_reconnect] at rebuilt
      exact rebuilt

theorem sent_run {later : List Event} (unjoined : ¬Joined events kind id)
    (unasked : ∀ event ∈ later, event.intent kind id ≠ some true) :
    (c.sent (run c (events ++ later)).client).count (topic kind id) =
        (c.sent (run c events).client).count (topic kind id) ∧
      ¬Joined (events ++ later) kind id := by
  induction later using List.reverseRecOn with
  | nil => simpa using unjoined
  | append_singleton later event ih =>
      obtain ⟨count, unjoined'⟩ := ih fun earlier member => unasked earlier (by simp [member])
      have unasked' := unasked event (by simp)
      rw [← List.append_assoc, run_append, joined_append]
      refine ⟨(sent_step (run_wanted.not.mpr unjoined') unasked').trans count, ?_⟩
      rintro (asked | ⟨_, joined⟩)
      · exact unasked' asked
      · exact unjoined' joined

end Runs

/-- The subscriptions of a socket are those the pages mean it to have. -/
structure Follows (c : StompClient) (events : List Event) : Prop where
  /-- On a connection, each that is joined has one subscription, and no other has any. -/
  live : c.connected (run c events).client → ∀ kind id,
    (Joined events kind id → ∃! subscription,
      (subscription, topic kind id) ∈ c.live (run c events).client) ∧
    (¬Joined events kind id → ∀ subscription,
      (subscription, topic kind id) ∉ c.live (run c events).client)
  /-- One that has been left is not subscribed to before it is joined again. -/
  left : ∀ before after kind id, events = before ++ after → ¬Joined before kind id →
    (∀ event ∈ after, event.intent kind id ≠ some true) →
    (c.sent (run c events).client).count (topic kind id) =
      (c.sent (run c before).client).count (topic kind id)

/-- Subscriptions follow intent, in whatever order joins, leaves, drops and reconnects come. -/
theorem subscriptions_follow (c : StompClient) (events : List Event) : Follows c events where
  live := by
    intro online kind id
    have settled := run_settled online
    rw [← run_wanted (c := c), ← settled.wanted kind id]
    refine ⟨fun live => ?_, fun absent subscription there => ?_⟩
    · obtain ⟨subscription, isLive⟩ := Option.isSome_iff_exists.mp live
      refine ⟨subscription, settled.mirrors.held kind id subscription isLive, fun other there => ?_⟩
      have known := settled.mirrors.known _ there kind id rfl
      exact Option.some.inj (known.symm.trans isLive)
    · have known := settled.mirrors.known _ there kind id rfl
      exact absent (by simp [known])
  left := by
    rintro before after kind id rfl unjoined unasked
    exact (sent_run unjoined unasked).1

/-- A client with one connection at a time, which numbers its subscriptions. -/
structure Connection where
  connected : Bool
  counter : Nat
  subscriptions : List (Nat × String)
  frames : List String
  below : ∀ e ∈ subscriptions, e.1 < counter

def numbering : StompClient where
  State := Connection
  Subscription := Nat
  create := ⟨false, 0, [], [], nofun⟩
  connected := Connection.connected
  subscribe s destination := (s.counter,
    { s with
      counter := s.counter + 1
      subscriptions := (s.counter, destination) :: s.subscriptions
      frames := s.frames ++ [destination]
      below := by
        intro e member
        rcases List.mem_cons.mp member with rfl | older
        · exact Nat.lt_succ_self _
        · exact Nat.lt_succ_of_lt (s.below e older) })
  unsubscribe s subscription :=
    { s with
      subscriptions := s.subscriptions.filter fun e => e.1 ≠ subscription
      below := fun e member => s.below e (List.mem_filter.mp member).1 }
  drop s := { s with connected := false, subscriptions := [], below := nofun }
  reconnect s := { s with connected := true, subscriptions := [], below := nofun }
  live s := {e | e ∈ s.subscriptions}
  sent := Connection.frames
  connected_create := rfl
  connected_subscribe _ online := online
  live_subscribe _ _ := by
    ext e
    simp
  fresh_subscribe _ _ e member := ne_of_lt (Connection.below _ e member)
  sent_subscribe _ _ := rfl
  connected_unsubscribe _ _ := rfl
  live_unsubscribe _ _ := by
    ext e
    simp
  sent_unsubscribe _ _ := rfl
  connected_drop _ := rfl
  sent_drop _ := rfl
  connected_reconnect _ := rfl
  live_reconnect _ := by
    ext e
    simp
  sent_reconnect _ := rfl

/-- A room joined before the socket connects, and left while it is down. -/
theorem subscriptions_follow_offline :
    (∃! subscription, (subscription, topic .room "r") ∈
        numbering.live (run numbering [.joinRoom "r", .reconnect]).client) ∧
      ∀ subscription, (subscription, topic .room "r") ∉ numbering.live
        (run numbering [.joinRoom "r", .reconnect, .drop, .leaveRoom "r", .reconnect]).client := by
  have joined : Joined [.joinRoom "r", .reconnect] .room "r" := ⟨[], _, _, rfl, rfl, by decide⟩
  have gone : ¬Joined [.joinRoom "r", .reconnect, .drop, .leaveRoom "r", .reconnect] .room "r" := by
    rw [← run_wanted (c := numbering)]
    decide
  exact ⟨((subscriptions_follow numbering _).live rfl .room "r").1 joined,
    ((subscriptions_follow numbering _).live rfl .room "r").2 gone⟩

end Socket
