import CipherChat.Presence.Gossip

/-!
Strong eventual consistency of the replicated presence: every state a replica holds is what
the operations it has incorporated amount to.
-/

namespace Presence

variable {υ ρ : Type} [LinearOrder ρ]

namespace Regions

structure Sound (regions : Regions υ ρ) : Prop where
  own : ∀ replica, (regions.clock replica).replicaId = replica
  states : ∀ replica presence, regions.states replica = some presence →
    Evaluates regions.userId regions.events (known regions.events replica) presence ∧
      presence.status.timestamp ≤ (regions.clock replica).reading
  absent : ∀ replica, regions.states replica = none → known regions.events replica = ∅
  signed : ∀ (i : Nat) e w, regions.events[i]? = some e → e.act.written = some w →
    w.timestamp.replicaId = e.replica ∧ w.timestamp ≤ (regions.clock e.replica).reading
  ordered : ∀ i j w w', Causality.Before gossip regions.events i j →
    writes regions.events i = some w → writes regions.events j = some w' →
      w.timestamp < w'.timestamp
  after : ∀ (j : Nat) e, regions.events[j]? = some e →
    Evaluates regions.userId regions.events (incorporated regions.events j) e.after

theorem start_sound (userId : υ) : (start userId : Regions υ ρ).Sound where
  own _ := rfl
  states replica presence held := by simp [start] at held
  absent replica _ := by
    ext i
    simp [mem_known, start]
  signed i e w found := by simp [start] at found
  ordered i j w w' before first := by simp [start, writes] at first
  after j e found := by simp [start] at found

variable {regions : Regions υ ρ} {replica : ρ}

theorem Sound.setClock (sound : regions.Sound) {clock : HybridLogicalClock ρ}
    (own : clock.replicaId = replica)
    (advanced : (regions.clock replica).reading < clock.reading) :
    (regions.setClock replica clock).Sound := by
  have raised : ∀ other, (regions.clock other).reading ≤
      ((regions.setClock replica clock).clock other).reading := by
    intro other
    by_cases same : other = replica
    · subst other
      simpa [Regions.setClock] using advanced.le
    · simp [Regions.setClock, same]
  refine ⟨fun other => ?_, fun other presence held => ?_, sound.absent, ?_, sound.ordered,
    sound.after⟩
  · by_cases same : other = replica
    · subst other
      simpa [Regions.setClock] using own
    · simpa [Regions.setClock, same] using sound.own other
  · obtain ⟨evaluates, le⟩ := sound.states other presence held
    exact ⟨evaluates, le.trans (raised other)⟩
  · intro i e w found wrote
    obtain ⟨name, le⟩ := sound.signed i e w found wrote
    exact ⟨name, le.trans (raised e.replica)⟩

/-- What a recorded event must satisfy: its state is what its past amounts to, and its write,
if it is one, is above all its replica knew. -/
structure Records (regions : Regions υ ρ) (event : Event υ ρ) : Prop where
  evaluates : Evaluates regions.userId (regions.events ++ [event])
    (incorporated (regions.events ++ [event]) regions.events.length) event.after
  below : event.after.status.timestamp ≤ (regions.clock event.replica).reading
  signed : ∀ w, event.act.written = some w → w.timestamp.replicaId = event.replica ∧
    w.timestamp ≤ (regions.clock event.replica).reading
  fresh : ∀ w, event.act.written = some w → ∀ i ∈ known regions.events event.replica,
    ∀ w', writes regions.events i = some w' → w'.timestamp < w.timestamp

def append (regions : Regions υ ρ) (event : Event υ ρ) : Regions υ ρ :=
  { regions with
    states := Function.update regions.states event.replica (some event.after)
    events := regions.events ++ [event] }

theorem Sound.ordered_append (sound : regions.Sound) {event : Event υ ρ}
    (records : regions.Records event) (i j : Nat) (w w' : LwwRegister ρ StatusNote)
    (before : Causality.Before gossip (regions.events ++ [event]) i j)
    (first : writes (regions.events ++ [event]) i = some w)
    (second : writes (regions.events ++ [event]) j = some w') : w.timestamp < w'.timestamp := by
  have less := before.less
  have bound := before.bound
  simp only [List.length_append, List.length_singleton] at bound
  rcases Nat.lt_succ_iff_lt_or_eq.mp bound with old | rfl
  · rw [Causality.before_append old] at before
    rw [writes_append (less.trans old)] at first
    rw [writes_append old] at second
    exact sound.ordered i j w w' before first second
  · rw [writes_last] at second
    rw [writes_append less] at first
    obtain ⟨k, e, found, same | sent, past⟩ := Causality.before_last.mp before
    · exact records.fresh w' second i (mem_known.mpr ⟨k, e, found, same, past⟩) w first
    · have unsent : event.act.sent = none := Act.written_sent second
      have received : event.act.sent = some k := sent
      rw [unsent] at received
      cases received

theorem Sound.append (sound : regions.Sound) {event : Event υ ρ}
    (records : regions.Records event) : (regions.append event).Sound where
  own := sound.own
  states other presence held := by
    by_cases same : other = event.replica
    · subst other
      simp only [Regions.append, Function.update_self, Option.some.injEq] at held
      subst presence
      refine ⟨?_, records.below⟩
      simp only [Regions.append]
      rw [known_append_own]
      exact records.evaluates
    · simp only [Regions.append, ne_eq, same, not_false_eq_true, Function.update_of_ne] at held
      obtain ⟨evaluates, le⟩ := sound.states other presence held
      refine ⟨?_, le⟩
      simp only [Regions.append]
      rw [known_append_other fun mine => same mine.symm]
      exact evaluates.append (known_bounded other)
  absent other missing := by
    by_cases same : other = event.replica
    · subst other
      simp [Regions.append] at missing
    · simp only [Regions.append, ne_eq, same, not_false_eq_true, Function.update_of_ne] at missing
      simp only [Regions.append]
      rw [known_append_other fun mine => same mine.symm]
      exact sound.absent other missing
  signed i e w found wrote := by
    rcases Causality.found_append found with old | ⟨_, rfl⟩
    · exact sound.signed i e w old wrote
    · exact records.signed w wrote
  ordered := sound.ordered_append records
  after j e found := by
    rcases Causality.found_append found with old | ⟨rfl, rfl⟩
    · simp only [Regions.append]
      rw [incorporated_append (Causality.bound_of_getElem? old)]
      exact (sound.after j e old).append (incorporated_bounded j)
    · exact records.evaluates

/-- All that a replica knows was written at or below where its clock stands. -/
theorem Sound.known_le (sound : regions.Sound) {i : Nat} {w : LwwRegister ρ StatusNote}
    (member : i ∈ known regions.events replica) (wrote : writes regions.events i = some w) :
    w.timestamp ≤ (regions.clock replica).reading := by
  cases held : regions.states replica with
  | none =>
      rw [sound.absent replica held] at member
      cases member
  | some presence =>
      obtain ⟨evaluates, le⟩ := sound.states replica presence held
      exact (evaluates.newest.2 i member w wrote).trans le

section Steps

variable {presence : ReplicatedPresence υ ρ} {timestamp : HlcTimestamp ρ} {value : StatusNote}

theorem Sound.firstConnect (sound : regions.Sound) (unknown : regions.states replica = none)
    (name : timestamp.replicaId = replica)
    (le : timestamp ≤ (regions.clock replica).reading) :
    regions.Records ⟨replica, .firstConnect ⟨value, timestamp⟩, ⟨regions.userId,
      ⟨GCounter.empty.incremented replica, .empty⟩, ⟨value, timestamp⟩⟩⟩ := by
  have nothing : known regions.events replica = ∅ := sound.absent replica unknown
  refine ⟨?_, le, ?_, ?_⟩
  · rw [incorporated_last_own rfl, nothing]
    refine ⟨rfl, Tallied.empty.count (Finset.empty_subset _) rfl,
      Tallied.empty.skip (Finset.empty_subset _) rfl, ?_⟩
    exact Newest.write (Finset.empty_subset _) rfl (by simp)
  · rintro w wrote
    obtain rfl := Option.some.inj wrote
    exact ⟨name, le⟩
  · intro w _ i member
    rw [nothing] at member
    cases member

theorem Sound.connect (sound : regions.Sound) (held : regions.states replica = some presence) :
    regions.Records ⟨replica, .connect, ⟨presence.userId,
      ⟨presence.sessions.increments.incremented replica, presence.sessions.decrements⟩,
        presence.status⟩⟩ := by
  obtain ⟨evaluates, le⟩ := sound.states replica presence held
  have bounded : known regions.events replica ⊆ _ := known_bounded replica
  refine ⟨?_, le, nofun, nofun⟩
  rw [incorporated_last_own rfl]
  exact ⟨evaluates.user, evaluates.connects.count bounded rfl,
    evaluates.disconnects.skip bounded rfl, evaluates.newest.skip bounded rfl⟩

theorem Sound.disconnect (sound : regions.Sound)
    (held : regions.states replica = some presence) :
    regions.Records ⟨replica, .disconnect, ⟨presence.userId,
      ⟨presence.sessions.increments, presence.sessions.decrements.incremented replica⟩,
        presence.status⟩⟩ := by
  obtain ⟨evaluates, le⟩ := sound.states replica presence held
  have bounded : known regions.events replica ⊆ _ := known_bounded replica
  refine ⟨?_, le, nofun, nofun⟩
  rw [incorporated_last_own rfl]
  exact ⟨evaluates.user, evaluates.connects.skip bounded rfl,
    evaluates.disconnects.count bounded rfl, evaluates.newest.skip bounded rfl⟩

theorem Sound.updateStatus (sound : regions.Sound)
    (held : regions.states replica = some presence) (name : timestamp.replicaId = replica)
    (le : timestamp ≤ (regions.clock replica).reading)
    (above : ∀ i ∈ known regions.events replica, ∀ w, writes regions.events i = some w →
      w.timestamp < timestamp) :
    regions.Records ⟨replica, .updateStatus ⟨value, timestamp⟩,
      presence.updateStatus value timestamp⟩ := by
  obtain ⟨evaluates, _⟩ := sound.states replica presence held
  have bounded : known regions.events replica ⊆ _ := known_bounded replica
  refine ⟨?_, le, ?_, ?_⟩
  · rw [incorporated_last_own rfl]
    refine ⟨evaluates.user, evaluates.connects.skip bounded rfl,
      evaluates.disconnects.skip bounded rfl, ?_⟩
    exact Newest.write bounded rfl fun i member w wrote => (above i member w wrote).le
  · rintro w wrote
    obtain rfl := Option.some.inj wrote
    exact ⟨name, le⟩
  · intro w wrote i member w' wrote'
    obtain rfl := Option.some.inj wrote
    exact above i member w' wrote'

/-- A replica without a state takes over the one it receives. -/
theorem Sound.adopt (sound : regions.Sound) (unknown : regions.states replica = none)
    {sent : Nat} {remote : Event υ ρ} (found : regions.events[sent]? = some remote)
    (heard : remote.after.status.timestamp ≤ (regions.clock replica).reading) :
    regions.Records ⟨replica, .merge sent, remote.after⟩ := by
  have evaluates := sound.after sent remote found
  have bounded : incorporated regions.events sent ⊆ _ := incorporated_bounded sent
  refine ⟨?_, heard, nofun, nofun⟩
  rw [incorporated_last_merge found rfl, sound.absent replica unknown, Finset.empty_union]
  exact ⟨evaluates.user, evaluates.connects.skip bounded rfl,
    evaluates.disconnects.skip bounded rfl, evaluates.newest.skip bounded rfl⟩

theorem Sound.merge (sound : regions.Sound) (held : regions.states replica = some presence)
    {sent : Nat} {remote : Event υ ρ} (found : regions.events[sent]? = some remote)
    (heard : remote.after.status.timestamp ≤ (regions.clock replica).reading) :
    regions.Records ⟨replica, .merge sent, ⟨presence.userId,
      presence.sessions.merge remote.after.sessions,
      presence.status.merge remote.after.status⟩⟩ := by
  obtain ⟨mine, le⟩ := sound.states replica presence held
  have theirs := sound.after sent remote found
  have ours : Prefixes regions.events (known regions.events replica) := prefixes_known replica
  have others := prefixes_incorporated (Causality.bound_of_getElem? found)
  have bounded : known regions.events replica ∪ incorporated regions.events sent ⊆
      Finset.range regions.events.length :=
    Finset.union_subset (known_bounded replica) (incorporated_bounded sent)
  refine ⟨?_, ?_, nofun, nofun⟩
  · rw [incorporated_last_merge found rfl]
    exact ⟨mine.user, (mine.connects.merge theirs.connects ours others).skip bounded rfl,
      (mine.disconnects.merge theirs.disconnects ours others).skip bounded rfl,
      (mine.newest.merge theirs.newest).skip bounded rfl⟩
  · change (presence.status.merge remote.after.status).timestamp ≤ _
    rw [LwwRegister.merge_eq]
    split_ifs
    · exact le
    · exact heard

end Steps

/-- One timestamp is one write. -/
theorem Sound.same_write (sound : regions.Sound) {i j : Nat} {w w' : LwwRegister ρ StatusNote}
    (first : writes regions.events i = some w) (second : writes regions.events j = some w')
    (same : w.timestamp = w'.timestamp) : i = j := by
  obtain ⟨a, foundA, wroteA⟩ := Option.bind_eq_some_iff.mp first
  obtain ⟨b, foundB, wroteB⟩ := Option.bind_eq_some_iff.mp second
  have replicas : a.replica = b.replica := by
    rw [← (sound.signed i a w foundA wroteA).1, ← (sound.signed j b w' foundB wroteB).1, same]
  by_contra differ
  rcases Nat.lt_or_gt_of_ne differ with less | more
  · exact (sound.ordered i j w w'
      (.single ⟨less, a, b, foundA, foundB, .inl replicas⟩) first second).ne same
  · exact (sound.ordered j i w' w
      (.single ⟨more, b, a, foundB, foundA, .inl replicas.symm⟩) second first).ne same.symm

theorem Sound.same_status (sound : regions.Sound) {cut cut' : Finset Nat}
    {register register' : LwwRegister ρ StatusNote}
    (mine : Newest regions.events cut register) (theirs : Newest regions.events cut' register')
    (same : register.timestamp = register'.timestamp) : register = register' := by
  obtain ⟨⟨i, _, first⟩, _⟩ := mine
  obtain ⟨⟨j, _, second⟩, _⟩ := theirs
  obtain rfl := sound.same_write first second same
  exact Option.some.inj (first.symm.trans second)

def operations (events : List (Event υ ρ)) (cut : Finset Nat) : Finset Nat :=
  cut.filter fun i => counts (fun act => act.sent.isNone) events i

theorem share_operations {kind : Act ρ → Bool} (operation : ∀ act, kind act = true → act.sent = none)
    {events : List (Event υ ρ)} {cut : Finset Nat} :
    share kind events (operations events cut) replica = share kind events cut replica := by
  ext i
  simp only [mem_share, operations, Finset.mem_filter, counts, Option.any_eq_true]
  constructor
  · rintro ⟨⟨member, _⟩, rest⟩
    exact ⟨member, rest⟩
  · rintro ⟨member, e, found, counted, mine⟩
    exact ⟨⟨member, e, found, by simp [operation e.act counted]⟩, e, found, counted, mine⟩

/-- Merges add nothing of their own: a state is what the operations of its cut amount to. -/
theorem evaluates_operations {userId : υ} {events : List (Event υ ρ)} {cut : Finset Nat}
    {presence : ReplicatedPresence υ ρ} (evaluates : Evaluates userId events cut presence) :
    Evaluates userId events (operations events cut) presence where
  user := evaluates.user
  connects other := by
    rw [share_operations fun act counted => by cases act <;> first | rfl | cases counted]
    exact evaluates.connects other
  disconnects other := by
    rw [share_operations fun act counted => by cases act <;> first | rfl | cases counted]
    exact evaluates.disconnects other
  newest := by
    obtain ⟨⟨i, member, wrote⟩, above⟩ := evaluates.newest
    refine ⟨⟨i, ?_, wrote⟩, fun j inCut => above j (Finset.mem_filter.mp inCut).1⟩
    obtain ⟨e, found, written⟩ := Option.bind_eq_some_iff.mp wrote
    refine Finset.mem_filter.mpr ⟨member, ?_⟩
    simp [counts, found, Act.written_sent written]

theorem evaluates_unique (sound : regions.Sound) {cut : Finset Nat}
    {p q : ReplicatedPresence υ ρ} (first : Evaluates regions.userId regions.events cut p)
    (second : Evaluates regions.userId regions.events cut q) : p = q := by
  have increments : p.sessions.increments = q.sessions.increments :=
    GCounter.ext_slot fun other => (first.connects other).trans (second.connects other).symm
  have decrements : p.sessions.decrements = q.sessions.decrements :=
    GCounter.ext_slot fun other =>
      (first.disconnects other).trans (second.disconnects other).symm
  have user := first.user.trans second.user.symm
  have status : p.status = q.status := by
    obtain ⟨⟨i, inCut, wrote⟩, above⟩ := first.newest
    obtain ⟨⟨j, inCut', wrote'⟩, above'⟩ := second.newest
    exact sound.same_status first.newest second.newest
      (le_antisymm (above' i inCut _ wrote) (above j inCut' _ wrote'))
  obtain ⟨userId, ⟨inc, dec⟩, register⟩ := p
  obtain ⟨userId', ⟨inc', dec'⟩, register'⟩ := q
  simp_all

/-- A replica holds the presence now, or held it after some event, having incorporated the
events of the cut. -/
def Held (regions : Regions υ ρ) (cut : Finset Nat) (presence : ReplicatedPresence υ ρ) : Prop :=
  (∃ replica, regions.states replica = some presence ∧ cut = known regions.events replica) ∨
    ∃ (j : Nat) (e : Event υ ρ), regions.events[j]? = some e ∧ e.after = presence ∧
      cut = incorporated regions.events j

theorem Sound.evaluates (sound : regions.Sound) {cut : Finset Nat}
    {presence : ReplicatedPresence υ ρ} (held : regions.Held cut presence) :
    Evaluates regions.userId regions.events cut presence := by
  rcases held with ⟨replica, state, rfl⟩ | ⟨j, e, found, rfl, rfl⟩
  · exact (sound.states replica presence state).1
  · exact sound.after j e found

variable [DecidableEq υ] [ToString υ] {later : Regions υ ρ}

theorem Sound.step (sound : regions.Sound) {action : Step ρ}
    (taken : regions.step action = some later) :
    later.Sound ∧ later.userId = regions.userId := by
  cases action with
  | firstConnect replica pt initial =>
      simp only [Regions.step] at taken
      split at taken
      · cases taken
      · next unknown =>
        obtain rfl := Option.some.inj taken
        have advance : (regions.clock replica).Advance none pt _ :=
          HybridLogicalClock.now_advance
        have own := advance.own.trans (sound.own replica)
        have clocked := sound.setClock own (advance.shown ▸ advance.after)
        refine ⟨clocked.append (clocked.firstConnect unknown own ?_), rfl⟩
        simp only [Regions.setClock, Function.update_self]
        exact le_rfl
  | connect replica =>
      simp only [Regions.step, Option.bind_eq_bind, Option.bind_eq_some_iff] at taken
      obtain ⟨presence, held, taken⟩ := taken
      obtain rfl := Option.some.inj taken
      exact ⟨sound.append (sound.connect held), rfl⟩
  | disconnect replica =>
      simp only [Regions.step, Option.bind_eq_bind, Option.bind_eq_some_iff] at taken
      obtain ⟨presence, held, taken⟩ := taken
      obtain rfl := Option.some.inj taken
      exact ⟨sound.append (sound.disconnect held), rfl⟩
  | updateStatus replica pt value =>
      simp only [Regions.step, Option.bind_eq_bind, Option.bind_eq_some_iff] at taken
      obtain ⟨presence, held, taken⟩ := taken
      obtain rfl := Option.some.inj taken
      have advance : (regions.clock replica).Advance none pt _ :=
        HybridLogicalClock.now_advance
      have own := advance.own.trans (sound.own replica)
      have clocked := sound.setClock own (advance.shown ▸ advance.after)
      refine ⟨clocked.append (clocked.updateStatus held own ?_ ?_), rfl⟩
      · simp only [Regions.setClock, Function.update_self]
        exact le_rfl
      · intro i member w wrote
        exact (sound.known_le member wrote).trans_lt advance.after
  | merge replica pt sent =>
      simp only [Regions.step, Option.bind_eq_bind, Option.bind_eq_some_iff] at taken
      obtain ⟨remote, found, taken⟩ := taken
      obtain rfl := Option.some.inj taken
      have advance : (regions.clock replica).Advance
          (some remote.after.status.timestamp) pt _ := HybridLogicalClock.update_advance
      have own := advance.own.trans (sound.own replica)
      have clocked := sound.setClock own (advance.shown ▸ advance.after)
      have heard : remote.after.status.timestamp ≤ ((regions.setClock replica ((regions.clock
          replica).update remote.after.status.timestamp pt).2).clock replica).reading := by
        simp only [Regions.setClock, Function.update_self]
        exact (advance.received _ rfl).le
      cases held : regions.states replica with
      | none => exact ⟨clocked.append (clocked.adopt held found heard), rfl⟩
      | some presence =>
          have same : presence.userId = remote.after.userId :=
            (sound.states replica presence held).1.user.trans
              (sound.after sent remote found).user.symm
          simp only [ReplicatedPresence.merge_of_same same]
          exact ⟨clocked.append (clocked.merge held found heard), rfl⟩
  | now replica pt =>
      obtain rfl := Option.some.inj taken
      have advance : (regions.clock replica).Advance none pt _ :=
        HybridLogicalClock.now_advance
      exact ⟨sound.setClock (advance.own.trans (sound.own replica))
        (advance.shown ▸ advance.after), rfl⟩
  | update replica pt remote =>
      obtain rfl := Option.some.inj taken
      have advance : (regions.clock replica).Advance (some remote) pt _ :=
        HybridLogicalClock.update_advance
      exact ⟨sound.setClock (advance.own.trans (sound.own replica))
        (advance.shown ▸ advance.after), rfl⟩

theorem Reached.sound {userId : υ} (reached : Reached userId regions) :
    regions.Sound ∧ regions.userId = userId := by
  induction reached with
  | start => exact ⟨start_sound userId, rfl⟩
  | step earlier action taken ih =>
      obtain ⟨sound, same⟩ := ih.1.step taken
      exact ⟨sound, same.trans ih.2⟩

structure Converges (regions : Regions υ ρ) : Prop where
  equal : ∀ cut cut' p q, regions.Held cut p → regions.Held cut' q →
    operations regions.events cut = operations regions.events cut' → p = q ∧ p.equals q
  comm : ∀ cut cut' p q, regions.Held cut p → regions.Held cut' q →
    ∃ merged, p.merge q = .ok merged ∧ q.merge p = .ok merged
  assoc : ∀ cut cut' cut'' p q r, regions.Held cut p → regions.Held cut' q →
    regions.Held cut'' r → (p.merge q >>= fun merged => merged.merge r) =
      (q.merge r >>= fun merged => p.merge merged)
  idem : ∀ cut p, regions.Held cut p → p.merge p = .ok p
  counted : ∀ cut p, regions.Held cut p → p.sessionCount =
    (cut.filter fun i => counts Act.connects regions.events i).card -
      (cut.filter fun i => counts Act.disconnects regions.events i).card
  latest : ∀ cut p, regions.Held cut p → ∃ i ∈ cut, writes regions.events i = some p.status ∧
    (∀ j ∈ cut, ∀ w, writes regions.events j = some w →
      j = i ∨ w.timestamp.compareTo p.status.timestamp = .lt) ∧
    ∀ j ∈ cut, (writes regions.events j).isSome →
      ¬ Causality.Before gossip regions.events i j

theorem Sound.converges (sound : regions.Sound) : regions.Converges where
  equal cut cut' p q mine theirs same := by
    have first := evaluates_operations (sound.evaluates mine)
    have second := evaluates_operations (sound.evaluates theirs)
    rw [← same] at second
    obtain rfl := evaluates_unique sound first second
    exact ⟨rfl, by simp [ReplicatedPresence.equals]⟩
  comm cut cut' p q mine theirs := by
    have first := sound.evaluates mine
    have second := sound.evaluates theirs
    have users := first.user.trans second.user.symm
    refine ⟨_, ReplicatedPresence.merge_of_same users, ?_⟩
    rw [ReplicatedPresence.merge_of_same users.symm, PNCounter.merge_comm, users,
      LwwRegister.merge_comm fun same =>
        sound.same_status second.newest first.newest same]
  assoc cut cut' cut'' p q r mine theirs third := by
    have users := (sound.evaluates mine).user.trans (sound.evaluates theirs).user.symm
    have users' := (sound.evaluates theirs).user.trans (sound.evaluates third).user.symm
    rw [ReplicatedPresence.merge_of_same users, ReplicatedPresence.merge_of_same users']
    simp [bind, Except.bind, ReplicatedPresence.merge, users, users', PNCounter.merge_assoc,
      LwwRegister.merge_assoc]
  idem cut p _ := by
    rw [ReplicatedPresence.merge_of_same rfl, PNCounter.merge_idem, LwwRegister.merge_idem]
  counted cut p mine := by
    have evaluates := sound.evaluates mine
    unfold ReplicatedPresence.sessionCount PNCounter.value
    rw [evaluates.connects.value, evaluates.disconnects.value]
  latest cut p mine := by
    obtain ⟨⟨i, member, wrote⟩, above⟩ := (sound.evaluates mine).newest
    refine ⟨i, member, wrote, fun j inCut w found => ?_, fun j inCut isWrite before => ?_⟩
    · rcases (above j inCut w found).lt_or_eq with less | same
      · exact .inr (HlcTimestamp.compareTo_lt.mpr less)
      · exact .inl (sound.same_write found wrote same)
    · obtain ⟨w, found⟩ := Option.isSome_iff_exists.mp isWrite
      have less := sound.ordered i j p.status w before wrote found
      exact absurd (above j inCut w found) (not_le.mpr less)

/-- Strong eventual consistency, for every run of the replicas. -/
theorem presence_converges {userId : υ} (reached : Reached userId regions) :
    regions.Converges :=
  reached.sound.1.converges

def follow (regions : Regions υ ρ) : List (Step ρ) → Option (Regions υ ρ)
  | [] => some regions
  | step :: rest => regions.step step >>= fun later => later.follow rest

theorem reached_follow {userId : υ} (reached : Reached userId regions) (steps : List (Step ρ))
    (followed : regions.follow steps = some later) : Reached userId later := by
  induction steps generalizing regions with
  | nil => exact Option.some.inj followed ▸ reached
  | cons step rest ih =>
      obtain ⟨next, taken, remaining⟩ := Option.bind_eq_some_iff.mp followed
      exact ih (reached.step step taken) remaining

/-- Two regions that connect the user at the same instant, one of which learns of the other. -/
def partitioned : List (Step Nat) :=
  [.firstConnect 0 5 ⟨.available, ""⟩, .firstConnect 1 5 ⟨.available, ""⟩,
    .updateStatus 1 5 ⟨.busy, "in a call"⟩, .merge 0 5 2]

theorem presence_converges_partitioned : ∃ regions : Regions Nat Nat,
    (start 7).follow partitioned = some regions ∧
    (regions.states 0).map (fun presence => (presence.sessionCount, presence.statusNote)) =
      some (2, ⟨.busy, "in a call"⟩) ∧ regions.Converges :=
  ⟨_, rfl, rfl, presence_converges
    (reached_follow (.start : Reached 7 (start 7)) partitioned rfl)⟩

end Regions

end Presence
