import CipherChat.Rooms.Backend

/-!
What an operation can do to the rows, the transactions and the keys, said once.
-/

namespace Rooms

/-- Rows, transactions, keys and threads are as before. -/
structure Same (s s' : Server) : Prop where
  messages : s'.messages = s.messages
  pending : s'.pending = s.pending
  nextId : s.nextId ≤ s'.nextId
  redis : s'.redis = s.redis
  stopped : s'.stopped = s.stopped

/-- What the answer of an operation that changes nothing tells. -/
def Tells (s : Server) (op : Op) (result : op.Res) : Prop :=
  match op, result with
  | .redisGet key, .ok value => value = s.redis key
  | .setIfAbsent key _, .ok seeded => seeded = false ∧ (s.redis key).isSome
  | .increment _, .ok _ | .save _, .ok _ | .delete _, .ok _ | .deleteExpired _, .ok _
  | .evict _, .ok _ | .crash _, .ok _ => False
  | .commit, _ | .rollback, _ => False
  | .findById id, .ok found => ∀ m, found = some m → m ∈ s.messages ∧ m.id = id
  | .findByClientMessageId roomId cid, .ok found =>
      (∀ m, found = some m → m ∈ s.messages ∧ m.chatroomId = roomId ∧
        m.clientMessageId = some cid) ∧
      (found = none → ∀ m ∈ s.messages, m.chatroomId = roomId → m.clientMessageId ≠ some cid)
  | .findAfter roomId afterSeq limit, .ok rows => rows = s.findAfter roomId afterSeq limit
  | .maxSequence roomId, .ok max => max = s.maxSequence roomId
  | _, _ => True

/-- The operation answers `value`, or its answer is lost. -/
def Gives {op : Op} (result : op.Res) (value : op.Val) : Prop :=
  result = .ok value ∨ ∃ e, result = .error e

inductive Outcome (t : Nat) (s : Server) : (op : Op) → op.Res → Server → Prop
  | same {op result s'} : Same s s' → Tells s op result → Outcome t s op result s'
  | saved {draft result s'} (m : Message) : m.toDraft = draft → m.id = s.nextId →
      (∀ row ∈ s.messages, ¬conflict m row) → (∀ row ∈ s.pending, ¬conflict m row.2) →
      s' = { s with nextId := s.nextId + 1, pending := (t, m) :: s.pending } →
      @Gives (.save draft) result m → Outcome t s (.save draft) result s'
  | committed {result s'} (m : Message) : s.pending.lookup t = some m →
      s' = { s.close t with messages := m :: s.messages } → Outcome t s .commit result s'
  | closed {op result s'} : (op = .commit ∨ op = .rollback) → (op = .commit → ∃ e, result = .error e) →
      s' = s.close t → Outcome t s op result s'
  | seeded {key value result s'} : s.redis key = none → s' = s.setRedis key (some value) →
      Outcome t s (.setIfAbsent key value) result s'
  | counted {key result s'} : s' = s.setRedis key (some ((s.redis key).getD 0 + 1)) →
      @Gives (.increment key) result ((s.redis key).getD 0 + 1) →
      Outcome t s (.increment key) result s'
  | removed {op result s'} (kept : Message → Bool) :
      ((∃ id, op = .delete id) ∨ ∃ now, op = .deleteExpired now) →
      s' = { s with messages := s.messages.filter kept } → Outcome t s op result s'
  | evicted {key result s'} : s' = s.setRedis key none → Outcome t s (.evict key) result s'
  | crashed {u result s'} : s' = { s.close u with stopped := u :: s.stopped } →
      Outcome t s (.crash u) result s'

theorem Same.refl (s : Server) : Same s s :=
  ⟨rfl, rfl, le_rfl, rfl, rfl⟩

theorem tells_error {s : Server} {op : Op} {e : JavaError} (open' : op ≠ .commit ∧ op ≠ .rollback) :
    Tells s op (.error e) := by
  cases op <;> trivial

theorem effect_outcome {t : Nat} {s s' : Server} {op : Op} {a : Answer} {result answered : op.Res}
    (effected : effect t s op a = some (answered, s'))
    (gives : result = answered ∨ ∃ e, result = .error e) : Outcome t s op result s' := by
  have quiet : ∀ {s'}, Same s s' → Tells s op answered → op ≠ .commit → op ≠ .rollback →
      Outcome t s op result s' := by
    intro s' same tells notCommit notRollback
    rcases gives with rfl | ⟨e, rfl⟩
    · exact .same same tells
    · exact .same same (tells_error ⟨notCommit, notRollback⟩)
  cases op with
  | now | findChatroom | findMember | saveMember | findUser | findUsers | rateLimit | expire
  | advance | publish | view | respond =>
      obtain ⟨rfl, rfl⟩ := Prod.mk.inj (Option.some.inj effected)
      exact quiet ⟨rfl, rfl, le_rfl, rfl, rfl⟩ trivial nofun nofun
  | redisGet | findAfter | maxSequence =>
      obtain ⟨rfl, rfl⟩ := Prod.mk.inj (Option.some.inj effected)
      exact quiet (.refl s) rfl nofun nofun
  | setIfAbsent key value =>
      simp only [effect] at effected
      split at effected
      next absent =>
        obtain ⟨rfl, rfl⟩ := Prod.mk.inj (Option.some.inj effected)
        exact .seeded absent rfl
      next held present =>
        obtain ⟨rfl, rfl⟩ := Prod.mk.inj (Option.some.inj effected)
        exact quiet (.refl s) ⟨rfl, by rw [present]; rfl⟩ nofun nofun
  | increment key =>
      obtain ⟨rfl, rfl⟩ := Prod.mk.inj (Option.some.inj effected)
      exact .counted rfl gives
  | findById id =>
      obtain ⟨rfl, rfl⟩ := Prod.mk.inj (Option.some.inj effected)
      refine quiet (.refl s) (fun m found => ⟨List.mem_of_find?_eq_some found, ?_⟩) nofun nofun
      simpa using List.find?_some found
  | findByClientMessageId roomId cid =>
      obtain ⟨rfl, rfl⟩ := Prod.mk.inj (Option.some.inj effected)
      refine quiet (.refl s) ⟨fun m found => ?_, fun missing m member here named => ?_⟩ nofun nofun
      · obtain ⟨member, here⟩ := List.mem_filter.mp (List.mem_of_find?_eq_some found)
        exact ⟨member, by simpa using here, by simpa using List.find?_some found⟩
      · have absent := List.find?_eq_none.mp missing m
          (List.mem_filter.mpr ⟨member, by simpa using here⟩)
        exact absent (by simpa using named)
  | save draft =>
      simp only [effect] at effected
      split at effected
      · obtain ⟨rfl, rfl⟩ := Prod.mk.inj (Option.some.inj effected)
        exact quiet ⟨rfl, rfl, Nat.le_succ _, rfl, rfl⟩ trivial nofun nofun
      next apart =>
        split at effected
        · contradiction
        next free =>
          obtain ⟨rfl, rfl⟩ := Prod.mk.inj (Option.some.inj effected)
          simp only [Bool.or_eq_true, List.any_eq_true, not_or, not_exists, not_and] at apart free
          exact .saved _ rfl rfl apart.1 free rfl gives
  | commit =>
      simp only [effect] at effected
      split at effected
      next m inserted =>
        obtain ⟨rfl, rfl⟩ := Prod.mk.inj (Option.some.inj effected)
        exact .committed m inserted rfl
      next =>
        obtain ⟨rfl, rfl⟩ := Prod.mk.inj (Option.some.inj effected)
        refine .closed (.inl rfl) (fun _ => ?_) rfl
        rcases gives with rfl | failed
        · exact ⟨_, rfl⟩
        · exact failed
  | rollback =>
      obtain ⟨rfl, rfl⟩ := Prod.mk.inj (Option.some.inj effected)
      exact .closed (.inr rfl) nofun rfl
  | delete id =>
      simp only [effect] at effected
      split at effected
      · obtain ⟨rfl, rfl⟩ := Prod.mk.inj (Option.some.inj effected)
        exact .removed _ (.inl ⟨id, rfl⟩) rfl
      · obtain ⟨rfl, rfl⟩ := Prod.mk.inj (Option.some.inj effected)
        exact quiet (.refl s) trivial nofun nofun
  | deleteExpired now =>
      obtain ⟨rfl, rfl⟩ := Prod.mk.inj (Option.some.inj effected)
      exact .removed _ (.inr ⟨now, rfl⟩) rfl
  | evict key =>
      obtain ⟨rfl, rfl⟩ := Prod.mk.inj (Option.some.inj effected)
      exact .evicted rfl
  | crash u =>
      obtain ⟨rfl, rfl⟩ := Prod.mk.inj (Option.some.inj effected)
      exact .crashed rfl

theorem Exec.running {t : Nat} {s s' : Server} {op : Op} {result : op.Res}
    (performed : Exec t s op result s') : t ∉ s.stopped := by
  obtain ⟨a, performed⟩ := performed
  unfold perform at performed
  split at performed
  · contradiction
  · assumption

theorem Exec.outcome {t : Nat} {s s' : Server} {op : Op} {result : op.Res}
    (performed : Exec t s op result s') : Outcome t s op result s' := by
  obtain ⟨a, performed⟩ := performed
  unfold perform at performed
  split at performed
  · contradiction
  rcases Async.faulty_cases performed with effected | ⟨cause, rfl, rfl | ⟨answered, effected⟩⟩
  · exact effect_outcome effected (.inl rfl)
  · by_cases ends : op = .commit ∨ op = .rollback
    · refine .closed ends (fun _ => ⟨_, rfl⟩) ?_
      rcases ends with rfl | rfl <;> rfl
    · have unchanged : failed t s op = s := by
        cases op <;> first | rfl | simp at ends
      rw [unchanged]
      exact .same (.refl s) (tells_error (not_or.mp ends))
  · exact effect_outcome effected (.inr ⟨_, rfl⟩)

namespace Outcome

variable {t : Nat} {s s' : Server}

/-- Operations other than writes, and the end of a transaction. -/
def Reads : Op → Prop
  | .setIfAbsent .. | .increment _ | .save _ | .commit | .rollback | .delete _ | .deleteExpired _
  | .evict _ | .crash _ => False
  | _ => True

theorem of_reads {op : Op} {result : op.Res} (outcome : Outcome t s op result s')
    (reads : Reads op) : Same s s' ∧ Tells s op result := by
  cases outcome with
  | same same tells => exact ⟨same, tells⟩
  | saved | committed | seeded | counted | evicted | crashed => exact reads.elim
  | closed ends =>
      rcases ends with rfl | rfl
      · exact reads.elim
      · exact reads.elim
  | removed _ isRemoval =>
      rcases isRemoval with ⟨_, rfl⟩ | ⟨_, rfl⟩
      · exact reads.elim
      · exact reads.elim

theorem save_ok {draft : Draft} {m : Message} (outcome : Outcome t s (.save draft) (.ok m) s') :
    m.toDraft = draft ∧ s' = { s with nextId := s.nextId + 1, pending := (t, m) :: s.pending } := by
  cases outcome with
  | same _ tells => exact tells.elim
  | saved m' isDraft _ _ _ isAfter gives =>
      rcases gives with isResult | ⟨_, isResult⟩
      · obtain rfl := Except.ok.inj isResult
        exact ⟨isDraft, isAfter⟩
      · cases isResult
  | closed ends => rcases ends with ends | ends <;> cases ends
  | removed _ isRemoval => rcases isRemoval with ⟨_, isRemoval⟩ | ⟨_, isRemoval⟩ <;> cases isRemoval

theorem commit_ok {value : Unit} (outcome : Outcome t s .commit (.ok value) s') :
    ∃ m, s.pending.lookup t = some m ∧ s' = { s.close t with messages := m :: s.messages } := by
  cases outcome with
  | same _ tells => exact tells.elim
  | committed m inserted isAfter => exact ⟨m, inserted, isAfter⟩
  | closed _ failed =>
      obtain ⟨_, isResult⟩ := failed rfl
      cases isResult
  | removed _ isRemoval => rcases isRemoval with ⟨_, isRemoval⟩ | ⟨_, isRemoval⟩ <;> cases isRemoval

theorem increment_ok {key : RedisKey} {n : Nat} (outcome : Outcome t s (.increment key) (.ok n) s') :
    n = (s.redis key).getD 0 + 1 ∧ s' = s.setRedis key (some n) := by
  cases outcome with
  | same _ tells => exact tells.elim
  | counted isAfter gives =>
      rcases gives with isResult | ⟨_, isResult⟩
      · obtain rfl := Except.ok.inj isResult
        exact ⟨rfl, isAfter⟩
      · cases isResult
  | closed ends => rcases ends with ends | ends <;> cases ends
  | removed _ isRemoval => rcases isRemoval with ⟨_, isRemoval⟩ | ⟨_, isRemoval⟩ <;> cases isRemoval

/-- A row comes into the table by the commit of the transaction that inserted it. -/
theorem of_mem_messages {op : Op} {result : op.Res} (outcome : Outcome t s op result s') {m : Message}
    (member : m ∈ s'.messages) (new : m ∉ s.messages) :
    op = .commit ∧ s.pending.lookup t = some m ∧
      s' = { s.close t with messages := m :: s.messages } := by
  cases outcome with
  | same same _ => exact absurd (same.messages ▸ member) new
  | committed m' inserted isAfter =>
      subst isAfter
      rcases List.mem_cons.mp member with rfl | old
      · exact ⟨rfl, inserted, rfl⟩
      · exact absurd old new
  | removed _ _ isAfter =>
      subst isAfter
      exact absurd (List.mem_of_mem_filter member) new
  | saved _ _ _ _ _ isAfter | closed _ _ isAfter | seeded _ isAfter | counted isAfter
  | evicted isAfter | crashed isAfter =>
      subst isAfter
      exact absurd member new

/-- A row goes out of the table by a deletion. -/
theorem of_not_mem_messages {op : Op} {result : op.Res} (outcome : Outcome t s op result s')
    {m : Message} (member : m ∈ s.messages) (gone : m ∉ s'.messages) :
    (∃ id, op = .delete id) ∨ ∃ now, op = .deleteExpired now := by
  cases outcome with
  | same same _ => exact absurd (same.messages ▸ member) gone
  | committed _ _ isAfter =>
      subst isAfter
      exact absurd (List.mem_cons_of_mem _ member) gone
  | removed _ isRemoval _ => exact isRemoval
  | saved _ _ _ _ _ isAfter | closed _ _ isAfter | seeded _ isAfter | counted isAfter
  | evicted isAfter | crashed isAfter =>
      subst isAfter
      exact absurd member gone

end Outcome

end Rooms
