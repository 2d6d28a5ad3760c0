import CipherChat.Search.Laws

/-!
What is left of a conversation once a shred of it has resolved.  A write that is under way while
the conversation is shredded may bring it back; the runs without one keep it away.
-/

namespace Search

open Async Primitives

/-- A document of the conversation is written, to the index or to the snapshots. -/
def Writes (convId : String) : Op → Prop
  | .dbInsert _ doc | .docsSet _ doc => doc.convId = convId
  | .putSnapshot row => row.convId = convId
  | _ => False

/-- A shred has got the core it deletes from, or a wipe has replaced the core. -/
def Takes (convId : String) (e : Event) : Prop :=
  (e.call = .request (.shred convId) ∧ ∃ k, e.logged = ⟨.returnCore, .ok k⟩) ∨
    ∃ k, e.logged = ⟨.replaceCore, .ok k⟩

/-- The call is over, or the worker is. -/
def Ends (a e : Event) : Prop :=
  (e.thread = a.thread ∧ ∃ result, e.op = .respond result) ∨ e.op = .restart

def Resolves (convId : String) (e : Event) : Prop :=
  (e.call = .request (.shred convId) ∧ ∃ removed, e.op = .respond (.ok (.shredded removed))) ∨
    e.op = .respond (.ok .wiped)

def Names (convId : String) (call : Call) : Prop :=
  ∃ docs, call = .request (.index docs) ∧ ∃ doc ∈ docs, doc.convId = convId

/-- Neither the index nor the snapshots hold a document of the conversation. -/
structure Clean (convId : String) (s : Worker) : Prop where
  docs : ∀ k, s.core = some k → ∀ doc ∈ (s.cores k).docs.rows, doc.convId ≠ convId
  db : ∀ k, s.core = some k → ∀ doc ∈ (s.cores k).db.rows, doc.convId ≠ convId
  snapshots : ∀ row ∈ s.snapshots.rows, row.convId ≠ convId ∧ ∀ doc ∈ row.docs, doc.convId ≠ convId

/-- Shredded conversations stay away until a request that was made later names them. -/
def Final (j : History) : Prop :=
  ∀ convId later e earlier, j.past = later ++ e :: earlier → Resolves convId e →
    (∀ x ∈ later, Names convId x.call → own x.thread (e :: earlier) ≠ []) → Clean convId j.state

/-- Every call of this worker that has begun is over. -/
def Quiescent (j : History) : Prop :=
  ∀ e ∈ j.past, e.before.generation = j.state.generation →
    ∃ x ∈ j.past, x.thread = e.thread ∧ ∃ result, x.op = .respond result

/-- The map and the search database hold the same documents. -/
def Agrees (s : Worker) : Prop :=
  ∀ k, s.core = some k → (s.cores k).docs = (s.cores k).db

/-- In every run from the worker of what `permits` lets through. -/
def ShredsFinally (permits : History → Event → Prop) (s : Worker) : Prop :=
  ∀ j, service.Reaches Admitted permits s j → Final j ∧ (Quiescent j → Agrees j.state)

/-- The operation is about the document with this id. -/
def Touches (k : Nat) (id : String) : Op → Prop
  | .dbRemove k' id' | .docsDelete k' id' => k' = k ∧ id' = id
  | .dbInsert k' doc | .docsSet k' doc => k' = k ∧ doc.id = id
  | _ => False

def Changes (k : Nat) (id : String) (e : Event) : Prop :=
  Touches k id e.op ∧ ∃ value, e.result = .ok value

structure Permitted (j : History) (e : Event) : Prop where
  /-- No insertion into the conversation is under way when a shred gets the core. -/
  whole : ∀ convId k, e.call = .request (.shred convId) → e.logged = ⟨.returnCore, .ok k⟩ →
    ∀ doc ∈ (j.state.cores k).db.rows, doc.convId = convId → doc ∈ (j.state.cores k).docs.rows
  /-- A call that writes to a conversation begins after every shred of it so far is over. -/
  apart : ∀ convId, Writes convId e.op → ∀ later a earlier, j.past = later ++ a :: earlier →
    Takes convId a → ∃ after z before, later = after ++ z :: before ∧ Ends a z ∧
      own e.thread (z :: (before ++ a :: earlier)) = []
  /-- Nobody else has changed the document since the call looked it up. -/
  alone : ∀ k id, Changes k id e → ∀ later x earlier, j.past = later ++ x :: earlier →
    Changes k id x → x.thread ≠ e.thread → ∃ found, ⟨.look k id, .ok found⟩ ∈ own e.thread later

section Steps

variable {t : Nat} {s s' : Worker} {op : Op} {result : op.Res}

/-- What an operation may change. -/
structure Moves (t : Nat) (s : Worker) (op : Op) (s' : Worker) : Prop where
  alive : s.born t = none ∨ s.born t = some s.generation
  born : s'.born = Function.update s.born t (some s.generation)
  generation : (op = .restart ∧ s'.generation = s.generation + 1 ∧ s'.core = none) ∨
    (op ≠ .restart ∧ s'.generation = s.generation)
  created : s.created ≤ s'.created
  core : s'.core = s.core ∨ s'.core = none ∨ (s'.core = some s.created ∧ s.created < s'.created)
  db : ∀ k, ∀ doc ∈ (s'.cores k).db.rows, doc ∈ (s.cores k).db.rows ∨ op = .dbInsert k doc
  docs : ∀ k, ∀ doc ∈ (s'.cores k).docs.rows, doc ∈ (s.cores k).docs.rows ∨ op = .docsSet k doc
  snapshots : ∀ row ∈ s'.snapshots.rows, row ∈ s.snapshots.rows ∨ op = .putSnapshot row

/-- The worker in which a call has begun. -/
def Worker.enter (s : Worker) (t : Nat) : Worker :=
  { s with born := Function.update s.born t (some s.generation) }

theorem Exec.cases (exec : Exec t s op result s') :
    (s.born t = none ∨ s.born t = some s.generation) ∧
      ((s' = s.enter t ∧ op.canFail = true ∧ result = .error (.dom "AbortError")) ∨
        ∃ a, effect (s.enter t) op a = (result, s')) := by
  obtain ⟨a, performed⟩ := exec
  unfold perform at performed
  split at performed
  · cases performed
  next free =>
    have isAlive : alive t s = true := by
      simp only [Bool.or_eq_true, not_or, Bool.not_eq_true, Bool.not_eq_false'] at free
      exact free.1
    refine ⟨?_, ?_⟩
    · unfold alive at isAlive
      cases begun : s.born t with
      | none => exact .inl rfl
      | some g =>
          rw [begun] at isAlive
          exact .inr (congrArg some (by simpa using isAlive))
    · dsimp only at performed
      split at performed
      next faulty =>
        obtain ⟨rfl, rfl⟩ := Prod.mk.inj (Option.some.inj performed)
        exact .inl ⟨rfl, (Bool.and_eq_true _ _ ▸ faulty).2, rfl⟩
      next => exact .inr ⟨a, Option.some.inj performed⟩

/-- An operation that leaves the index and the snapshots as they are. -/
theorem moves_same (alive : s.born t = none ∨ s.born t = some s.generation) (other : op ≠ .restart)
    (born : s'.born = (s.enter t).born) (generation : s'.generation = s.generation)
    (created : s'.created = s.created) (core : s'.core = s.core) (cores : s'.cores = s.cores)
    (snapshots : s'.snapshots = s.snapshots) : Moves t s op s' where
  alive := alive
  born := born
  generation := .inr ⟨other, generation⟩
  created := created.ge
  core := .inl core
  db _ _ member := .inl (cores ▸ member)
  docs _ _ member := .inl (cores ▸ member)
  snapshots _ member := .inl (snapshots ▸ member)

/-- A new object in the place of the core. -/
theorem moves_newCore (alive : s.born t = none ∨ s.born t = some s.generation) (other : op ≠ .restart) :
    Moves t s op (s.enter t).newCore where
  alive := alive
  born := rfl
  generation := .inr ⟨other, rfl⟩
  created := Nat.le_succ _
  core := .inr (.inr ⟨rfl, Nat.lt_succ_self _⟩)
  db _ _ member := .inl member
  docs _ _ member := .inl member
  snapshots _ member := .inl member

/-- One core is changed. -/
theorem moves_setCore {k : Nat} {core : SearchCore}
    (alive : s.born t = none ∨ s.born t = some s.generation) (other : op ≠ .restart)
    (db : ∀ doc ∈ core.db.rows, doc ∈ (s.cores k).db.rows ∨ op = .dbInsert k doc)
    (docs : ∀ doc ∈ core.docs.rows, doc ∈ (s.cores k).docs.rows ∨ op = .docsSet k doc) :
    Moves t s op ((s.enter t).setCore k core) where
  alive := alive
  born := rfl
  generation := .inr ⟨other, rfl⟩
  created := le_rfl
  core := .inl rfl
  db k' doc member := by
    by_cases same : k' = k
    · subst same
      simp only [Worker.setCore, Function.update_self] at member
      exact db doc member
    · simp only [Worker.setCore, Function.update_of_ne same] at member
      exact .inl member
  docs k' doc member := by
    by_cases same : k' = k
    · subst same
      simp only [Worker.setCore, Function.update_self] at member
      exact docs doc member
    · simp only [Worker.setCore, Function.update_of_ne same] at member
      exact .inl member
  snapshots _ member := .inl member

/-- The snapshots are changed. -/
theorem moves_snapshots {snapshots : Table SealedSnapshot.convId}
    (alive : s.born t = none ∨ s.born t = some s.generation) (other : op ≠ .restart)
    (rows : ∀ row ∈ snapshots.rows, row ∈ s.snapshots.rows ∨ op = .putSnapshot row) :
    Moves t s op { s.enter t with snapshots } where
  alive := alive
  born := rfl
  generation := .inr ⟨other, rfl⟩
  created := le_rfl
  core := .inl rfl
  db _ _ member := .inl member
  docs _ _ member := .inl member
  snapshots := rows

theorem effect_moves {a : Answer} (alive : s.born t = none ∨ s.born t = some s.generation)
    (effected : effect (s.enter t) op a = (result, s')) : Moves t s op s' := by
  obtain rfl : (effect (s.enter t) op a).2 = s' := congrArg Prod.snd effected
  clear effected
  cases op with
  | assignCore => exact moves_newCore alive nofun
  | replaceCore => exact moves_newCore alive nofun
  | dbRemove k id =>
      exact moves_setCore alive nofun (fun doc member => .inl (Table.mem_remove.mp member).1)
        fun doc => .inl
  | dbInsert k doc =>
      simp only [effect]
      split
      · refine moves_setCore alive nofun (fun doc' member => ?_) fun doc' => .inl
        rcases Table.mem_put member with rfl | old
        · exact .inr rfl
        · exact .inl old
      · exact moves_same alive nofun rfl rfl rfl rfl rfl rfl
  | docsSet k doc =>
      refine moves_setCore alive nofun (fun doc' => .inl) fun doc' member => ?_
      rcases Table.mem_put member with rfl | old
      · exact .inr rfl
      · exact .inl old
  | docsDelete k id =>
      exact moves_setCore alive nofun (fun doc => .inl)
        fun doc member => .inl (Table.mem_remove.mp member).1
  | putSnapshot row =>
      refine moves_snapshots alive nofun fun row' member => ?_
      rcases Table.mem_put member with rfl | old
      · exact .inr rfl
      · exact .inl old
  | deleteSnapshot convId =>
      exact moves_snapshots alive nofun fun row member => .inl (Table.mem_remove.mp member).1
  | clearSnapshots => exact moves_snapshots alive nofun fun row member => by cases member
  | restart =>
      exact {
        alive := alive
        born := rfl
        generation := .inl ⟨rfl, rfl, rfl⟩
        created := le_rfl
        core := .inr (.inl rfl)
        db := fun _ _ => .inl
        docs := fun _ _ => .inl
        snapshots := fun _ => .inl }
  | beginHydration | returnCore | takeKey | awaitKey _ =>
      simp only [effect]
      split
      all_goals exact moves_same alive nofun rfl rfl rfl rfl rfl rfl
  | _ => exact moves_same alive nofun rfl rfl rfl rfl rfl rfl

theorem Exec.moves (exec : Exec t s op result s') : Moves t s op s' := by
  obtain ⟨alive, ⟨rfl, fails, rfl⟩ | ⟨a, effected⟩⟩ := exec.cases
  · refine moves_same alive ?_ rfl rfl rfl rfl rfl rfl
    rintro rfl
    cases fails
  · exact effect_moves alive effected

theorem get_remove_of_ne {docs : Table SearchDoc.id} {id id' : String} (other : id' ≠ id) :
    (docs.remove fun d => d.id = id').get id = docs.get id := by
  rw [Table.get_remove]
  cases found : docs.get id with
  | none => rfl
  | some doc =>
      have isId : doc.id = id := Table.key_of_get found
      simp [isId, Ne.symm other]

theorem get_remove_self {docs : Table SearchDoc.id} {id : String} :
    (docs.remove fun d => d.id = id).get id = none := by
  rw [Table.get_remove]
  cases found : docs.get id with
  | none => rfl
  | some doc =>
      have isId : doc.id = id := Table.key_of_get found
      simp [isId]

/-- A document is found as before in a core. -/
def Same (k : Nat) (id : String) (s s' : Worker) : Prop :=
  (s'.cores k).docs.get id = (s.cores k).docs.get id ∧ (s'.cores k).db.get id = (s.cores k).db.get id

theorem same_setCore {k k' : Nat} {id : String} {core : SearchCore}
    (same : k' = k → core.docs.get id = (s.cores k).docs.get id ∧ core.db.get id = (s.cores k).db.get id) :
    Same k id s ((s.enter t).setCore k' core) := by
  unfold Same Worker.setCore
  by_cases here : k = k'
  · subst here
    simp only [Function.update_self]
    exact same rfl
  · simp only [Function.update_of_ne here]
    exact ⟨rfl, rfl⟩

/-- What is not touched, or could not be changed, is found as before. -/
theorem Exec.same (exec : Exec t s op result s') (k : Nat) (id : String)
    (other : Touches k id op → ∀ value, result ≠ .ok value) : Same k id s s' := by
  obtain ⟨_, ⟨rfl, _, _⟩ | ⟨a, effected⟩⟩ := exec.cases
  · exact ⟨rfl, rfl⟩
  obtain ⟨rfl, rfl⟩ := Prod.mk.inj effected.symm
  clear effected exec
  cases op with
  | dbRemove k' id' =>
      refine same_setCore fun here => ⟨by rw [here]; rfl, ?_⟩
      subst here
      exact get_remove_of_ne fun same => other ⟨rfl, same⟩ () rfl
  | docsDelete k' id' =>
      refine same_setCore fun here => ⟨?_, by rw [here]; rfl⟩
      subst here
      exact get_remove_of_ne fun same => other ⟨rfl, same⟩ () rfl
  | docsSet k' doc =>
      refine same_setCore fun here => ⟨?_, by rw [here]; rfl⟩
      subst here
      exact Table.get_put_of_ne fun same => other ⟨rfl, same⟩ () rfl
  | dbInsert k' doc =>
      simp only at other ⊢
      split
      next absent =>
        rw [absent] at other
        refine same_setCore fun here => ⟨by rw [here]; rfl, ?_⟩
        subst here
        exact Table.get_put_of_ne fun same => other ⟨rfl, same⟩ () rfl
      next => exact ⟨rfl, rfl⟩
  | beginHydration | returnCore | takeKey | awaitKey _ =>
      simp only
      split
      all_goals exact ⟨rfl, rfl⟩
  | _ => exact ⟨rfl, rfl⟩

/-- An operation that cannot fail has its effect. -/
theorem Exec.sure (exec : Exec t s op result s') (sure : op.canFail = false) :
    ∃ a, effect (s.enter t) op a = (result, s') := by
  obtain ⟨_, ⟨_, fails, _⟩ | effected⟩ := exec.cases
  · rw [sure] at fails
    cases fails
  · exact effected

/-- So has one that has an answer. -/
theorem Exec.answered {value : op.Val} (exec : Exec t s op (.ok value) s') :
    ∃ a, effect (s.enter t) op a = (.ok value, s') := by
  obtain ⟨_, ⟨_, _, failed⟩ | effected⟩ := exec.cases
  · cases failed
  · exact effected

variable {k : Nat} {id : String} {doc : SearchDoc} {value : Except JsError Unit}

theorem Exec.removed (exec : Exec t s (.dbRemove k id) value s') : (s'.cores k).db.get id = none := by
  obtain ⟨a, effected⟩ := exec.sure rfl
  obtain ⟨rfl, rfl⟩ := Prod.mk.inj effected.symm
  simp only [Worker.setCore, Function.update_self]
  exact get_remove_self

theorem Exec.inserted (exec : Exec t s (.dbInsert k doc) value s') :
    (value = .ok () ∧ (s'.cores k).db.get doc.id = some doc) ∨
      ((∃ e, value = .error e) ∧ (s.cores k).db.get doc.id ≠ none) := by
  obtain ⟨a, effected⟩ := exec.sure rfl
  obtain ⟨rfl, rfl⟩ := Prod.mk.inj effected.symm
  cases found : (s.cores k).db.get doc.id with
  | some other =>
      have there : ((s.enter t).cores k).db.get doc.id = some other := found
      simp only [there]
      exact .inr ⟨⟨_, rfl⟩, nofun⟩
  | none =>
      have absent : ((s.enter t).cores k).db.get doc.id = none := found
      simp only [absent, Worker.setCore, Function.update_self]
      exact .inl ⟨trivial, Table.get_put_self ..⟩

theorem Exec.set (exec : Exec t s (.docsSet k doc) value s') :
    (s'.cores k).docs.get doc.id = some doc ∧ (s'.cores k).db.get doc.id = (s.cores k).db.get doc.id := by
  obtain ⟨a, effected⟩ := exec.sure rfl
  obtain ⟨rfl, rfl⟩ := Prod.mk.inj effected.symm
  simp only [Worker.setCore, Function.update_self]
  exact ⟨Table.get_put_self .., rfl⟩

theorem Exec.deleted (exec : Exec t s (.docsDelete k id) value s') :
    (s'.cores k).docs.get id = none ∧ (s'.cores k).db.get id = (s.cores k).db.get id := by
  obtain ⟨a, effected⟩ := exec.sure rfl
  obtain ⟨rfl, rfl⟩ := Prod.mk.inj effected.symm
  simp only [Worker.setCore, Function.update_self]
  exact ⟨get_remove_self, rfl⟩

theorem Exec.gotCore (exec : Exec t s .returnCore (.ok k) s') : s.core = some k ∧ s' = s.enter t := by
  obtain ⟨a, effected⟩ := exec.answered
  simp only [Search.effect] at effected
  split at effected
  next k' isCore =>
    obtain ⟨isOk, rfl⟩ := Prod.mk.inj effected
    obtain rfl := Except.ok.inj isOk
    exact ⟨isCore, rfl⟩
  next => cases (Prod.mk.inj effected).1

theorem Exec.hydrates (exec : Exec t s .beginHydration (.ok (some k)) s') : s.core = some k := by
  obtain ⟨a, effected⟩ := exec.answered
  simp only [Search.effect] at effected
  split at effected
  · exact Except.ok.inj (Prod.mk.inj effected).1
  · cases (Prod.mk.inj effected).1

theorem Exec.replaced (exec : Exec t s .replaceCore (.ok k) s') :
    k = s.created ∧ s' = (s.enter t).newCore := by
  obtain ⟨a, effected⟩ := exec.answered
  obtain ⟨isOk, rfl⟩ := Prod.mk.inj effected
  exact ⟨(Except.ok.inj isOk).symm, rfl⟩

theorem Exec.listed {convId : String} {ids : List String} (exec : Exec t s (.listIds k convId) (.ok ids) s') :
    s' = s.enter t ∧ ∀ doc ∈ (s.cores k).docs.rows, doc.convId = convId → doc.id ∈ ids := by
  obtain ⟨a, effected⟩ := exec.answered
  obtain ⟨isOk, rfl⟩ := Prod.mk.inj effected
  obtain rfl := Except.ok.inj isOk
  refine ⟨rfl, fun doc member inConv => ?_⟩
  exact List.mem_map_of_mem (List.mem_filter.mpr ⟨member, by simpa using inConv⟩)

theorem Exec.looked {found : Option SearchDoc} (exec : Exec t s (.look k id) (.ok found) s') :
    s' = s.enter t ∧ (s.cores k).docs.get id = found := by
  obtain ⟨a, effected⟩ := exec.answered
  obtain ⟨isOk, rfl⟩ := Prod.mk.inj effected
  exact ⟨rfl, Except.ok.inj isOk⟩

theorem Exec.gotSnapshots {rows : List SealedSnapshot} (exec : Exec t s .getSnapshots (.ok rows) s') :
    rows = s.snapshots.rows := by
  obtain ⟨a, effected⟩ := exec.answered
  exact (Except.ok.inj (Prod.mk.inj effected).1).symm

theorem Exec.unsaved {convId : String} (exec : Exec t s (.deleteSnapshot convId) (.ok ()) s') :
    ∀ row ∈ s'.snapshots.rows, row.convId ≠ convId := by
  obtain ⟨a, effected⟩ := exec.answered
  obtain ⟨_, rfl⟩ := Prod.mk.inj effected
  intro row member
  simpa using (Table.mem_remove.mp member).2

theorem Exec.cleared (exec : Exec t s .clearSnapshots (.ok ()) s') : s'.snapshots.rows = [] := by
  obtain ⟨a, effected⟩ := exec.answered
  obtain ⟨_, rfl⟩ := Prod.mk.inj effected
  rfl

end Steps

section Invariants

variable {s : Worker} {j : History} {permits : History → Event → Prop}

/-- The call was given this core. -/
def Given (e : Event) (k : Nat) : Prop :=
  e.logged = ⟨.returnCore, .ok k⟩ ∨ e.logged = ⟨.beginHydration, .ok (some k)⟩

structure Sound (j : History) : Prop where
  fresh : ∀ k, j.state.created ≤ k →
    (∀ doc, doc ∉ (j.state.cores k).docs.rows) ∧ ∀ doc, doc ∉ (j.state.cores k).db.rows
  current : ∀ k, j.state.core = some k → k < j.state.created
  born : ∀ e ∈ j.past, j.state.born e.thread = some e.before.generation
  given : ∀ e ∈ j.past, ∀ k, Given e k → e.before.core = some k
  held : ∀ e ∈ j.past, ∀ k, e.before.core = some k → k < j.state.created ∧
    (j.state.core = some k → e.before.generation = j.state.generation)
  filed : ∀ row ∈ j.state.snapshots.rows, ∀ doc ∈ row.docs, doc.convId = row.convId

theorem logged_exec {e : Event} (performs : j.Performs service permits e) {op : Op} {result : op.Res}
    (logged : e.logged = ⟨op, result⟩) : Exec e.thread j.state op result e.after := by
  obtain ⟨t, call, op', result', before, after⟩ := e
  obtain ⟨rfl, same⟩ := Sigma.mk.inj logged
  obtain rfl := eq_of_heq same
  exact performs.before ▸ performs.exec

theorem performed {e : Event} (performs : j.Performs service permits e) :
    Exec e.thread j.state e.op e.result e.after :=
  performs.before ▸ performs.exec

theorem given_of_holds {t : Nat} {past : List Event} {k : Nat} (holds : Holds (own t past) k) :
    ∃ e ∈ past, e.thread = t ∧ Given e k := by
  rcases holds with got | got
  · obtain ⟨e, member, thread, logged⟩ := mem_of_own got
    exact ⟨e, member, thread, .inl logged⟩
  · obtain ⟨e, member, thread, logged⟩ := mem_of_own got
    exact ⟨e, member, thread, .inr logged⟩

theorem Sound.known (sound : Sound j) {t k : Nat} (holds : Holds (j.log t) k) : k < j.state.created := by
  obtain ⟨e, member, _, given⟩ := given_of_holds holds
  exact (sound.held e member k (sound.given e member k given)).1

/-- A new core, or the one there was. -/
theorem Moves.core_cases {t k : Nat} {s s' : Worker} {op : Op} (moves : Moves t s op s')
    (isCore : s'.core = some k) :
    (s.core = some k ∧ s'.generation = s.generation) ∨ (k = s.created ∧ s.created < s'.created) := by
  rcases moves.generation with ⟨_, _, isNone⟩ | ⟨_, same⟩
  · rw [isNone] at isCore
    cases isCore
  · rcases moves.core with old | isNone | ⟨new, grown⟩
    · exact .inl ⟨old ▸ isCore, same⟩
    · rw [isNone] at isCore
      cases isCore
    · exact .inr ⟨(Option.some.inj (new.symm.trans isCore)).symm, grown⟩

theorem sound_record {e : Event} (sound : Sound j) (performs : j.Performs service permits e)
    (lawful : law e.call (j.log e.thread) e.op) : Sound (j.record e) := by
  have exec := performed performs
  have moves := exec.moves
  have isBefore := performs.before
  refine ⟨fun k unmade => ?_, fun k isCore => ?_, fun x member => ?_, fun x member k given => ?_,
    fun x member k isCore => ?_, fun row member doc inRow => ?_⟩
  · have before := sound.fresh k (moves.created.trans unmade)
    have small {k' : Nat} (holds : Holds (j.log e.thread) k') : k' ≠ k := by
      have := sound.known holds
      have := moves.created
      have : e.after.created ≤ k := unmade
      omega
    refine ⟨fun doc member => ?_, fun doc member => ?_⟩
    · rcases moves.docs k doc member with old | isSet
      · exact before.1 doc old
      · have put := lawful.before
        rw [isSet] at put
        exact small put.1 rfl
    · rcases moves.db k doc member with old | isInsert
      · exact before.2 doc old
      · have put := lawful.before
        rw [isInsert] at put
        exact small put.1 rfl
  · rcases moves.core_cases isCore with ⟨old, _⟩ | ⟨rfl, grown⟩
    · exact (sound.current k old).trans_le moves.created
    · exact grown
  · have born : (j.record e).state.born x.thread =
        Function.update j.state.born e.thread (some j.state.generation) x.thread := by
      rw [Journal.record_state, moves.born]
    rw [born]
    rcases List.mem_cons.mp member with rfl | old
    · rw [Function.update_self, isBefore]
    · by_cases same : x.thread = e.thread
      · have begun := sound.born x old
        rcases moves.alive with unborn | alive
        · rw [same, unborn] at begun
          cases begun
        · rw [same, alive] at begun
          rw [same, Function.update_self, begun]
      · rw [Function.update_of_ne same]
        exact sound.born x old
  · rcases List.mem_cons.mp member with rfl | old
    · rw [isBefore]
      rcases given with got | got
      · exact (logged_exec performs got).gotCore.1
      · exact (logged_exec performs got).hydrates
    · exact sound.given x old k given
  · rcases List.mem_cons.mp member with rfl | old
    · rw [isBefore] at isCore ⊢
      have made := sound.current k isCore
      refine ⟨made.trans_le moves.created, fun still => ?_⟩
      rcases moves.core_cases still with ⟨_, same⟩ | ⟨isNew, _⟩
      · exact same.symm
      · omega
    · obtain ⟨made, current⟩ := sound.held x old k isCore
      refine ⟨made.trans_le moves.created, fun still => ?_⟩
      rcases moves.core_cases still with ⟨before, same⟩ | ⟨isNew, _⟩
      · exact (current before).trans same.symm
      · omega
  · rcases moves.snapshots row member with old | isPut
    · exact sound.filed row old doc inRow
    · have exported := lawful.before
      rw [isPut] at exported
      exact exported.2.1 doc inRow

theorem sound_of_reaches (started : Started s) (reaches : service.Reaches Admitted permits s j) :
    Sound j := by
  refine reaches.invariant Sound follows ?_ (fun j t call sound _ _ _ => ?_)
    fun j e => sound_record
  · refine ⟨fun k _ => ?_, fun k isCore => ?_, fun e member => ?_, fun e member => ?_,
      fun e member => ?_, started.filed⟩
    · have empty := started.cores k
      rw [Journal.empty_state, empty]
      exact ⟨fun doc member => (by cases member), fun doc member => by cases member⟩
    · rw [Journal.empty_state, started.core] at isCore
      cases isCore
    all_goals cases member
  · exact ⟨sound.fresh, sound.current, sound.born, sound.given, sound.held, sound.filed⟩

end Invariants

section Runs

variable {s : Worker} {j : History} {e : Event} {k : Nat} {id : String}
  {permits : History → Event → Prop}

abbrev Reached (s : Worker) (j : History) : Prop :=
  service.Reaches Admitted Permitted s j

/-- An operation of the past, with the history before it and the law it followed. -/
theorem Reached.entry {later earlier : List Event} (reaches : Reached s j)
    (isPast : j.past = later ++ e :: earlier) :
    ∃ j', Reached s j' ∧ j'.past = earlier ∧ j'.Performs service Permitted e ∧
      law e.call (own e.thread earlier) e.op := by
  obtain ⟨j', reaches', isPast', performs⟩ := reaches.at_entry isPast
  refine ⟨j', reaches', isPast', performs, reaches.lawful_at follows isPast ?_⟩
  exact reaches.ran e (isPast ▸ List.mem_append_right _ List.mem_cons_self)

theorem split_again {past later between earlier : List Event} {x : Event}
    (isPast : past = (later ++ x :: between) ++ e :: earlier) :
    past = later ++ x :: (between ++ e :: earlier) := by
  rw [isPast, List.append_assoc]
  rfl

/-- What nobody has touched since is found as it was. -/
theorem Reached.untouched {later earlier : List Event} {P : Option SearchDoc → Option SearchDoc → Prop}
    (reaches : Reached s j) (isPast : j.past = later ++ e :: earlier)
    (start : P ((e.after.cores k).docs.get id) ((e.after.cores k).db.get id))
    (quiet : ∀ x ∈ later, ¬Changes k id x) :
    P ((j.state.cores k).docs.get id) ((j.state.cores k).db.get id) := by
  have kept : ∀ x ∈ later, P ((x.before.cores k).docs.get id) ((x.before.cores k).db.get id) →
      P ((x.after.cores k).docs.get id) ((x.after.cores k).db.get id) := by
    intro x member holds
    obtain ⟨after, before, rfl⟩ := List.append_of_mem member
    have isHere := split_again isPast
    obtain ⟨j', _, _, performs⟩ := reaches.at_entry isHere
    have exec : Exec x.thread x.before x.op x.result x.after := performs.exec
    have same := exec.same k id fun touches value isOk =>
      quiet x member ⟨touches, value, isOk⟩
    rw [same.1, same.2]
    exact holds
  exact reaches.stays (P := fun s => P ((s.cores k).docs.get id) ((s.cores k).db.get id)) isPast start kept

/-- A call that changes a document finds it as it has left it itself. -/
theorem Reached.undisturbed {P : Option SearchDoc → Option SearchDoc → Prop}
    {x : (op : Op) × op.Res} {rest : Log Op Op.Res} (reaches : Reached s j) (permitted : Permitted j e)
    (changes : Changes k id e) (isLog : j.log e.thread = x :: rest)
    (left : ∀ t s₀ s', Exec t s₀ x.1 x.2 s' → P ((s'.cores k).docs.get id) ((s'.cores k).db.get id)) :
    P ((j.state.cores k).docs.get id) ((j.state.cores k).db.get id) := by
  have split : own e.thread j.past = [] ++ x :: rest := isLog
  obtain ⟨after, y, before, isPast, isThread, isLogged, nothing, _⟩ := own_split split
  obtain ⟨j', _, _, performs⟩ := reaches.at_entry isPast
  have exec : Exec y.thread y.before y.op y.result y.after := performs.exec
  have start : P ((y.after.cores k).docs.get id) ((y.after.cores k).db.get id) := by
    subst isLogged
    exact left _ _ _ exec
  refine reaches.untouched isPast start fun z member changed => ?_
  obtain ⟨later, earlier, rfl⟩ := List.append_of_mem member
  by_cases mine : z.thread = e.thread
  · rw [own_append] at nothing
    have here : own e.thread (z :: earlier) = [] := (List.append_eq_nil_iff.mp nothing).2
    simp [own, mine] at here
  · have isHere := split_again isPast
    obtain ⟨found, looked⟩ := permitted.alone k id changes later z _ isHere changed mine
    rw [own_append] at nothing
    rw [(List.append_eq_nil_iff.mp nothing).1] at looked
    cases looked

/-- What is put into the map is in the database. -/
theorem Reached.before_set {doc : SearchDoc} {later earlier : List Event} (reaches : Reached s j)
    (isPast : j.past = later ++ e :: earlier) (isOp : e.op = .docsSet k doc) :
    (e.before.cores k).db.get doc.id = some doc := by
  obtain ⟨j', reaches', rfl, performs, lawful⟩ := reaches.entry isPast
  obtain ⟨t, call, op, result, before, after⟩ := e
  subst isOp
  obtain ⟨_, _, rest, isLog⟩ := lawful.before
  have sure : ∃ value, result = .ok value := by
    obtain ⟨a, effected⟩ := (performed performs).sure rfl
    exact ⟨(), (Prod.mk.inj effected).1.symm⟩
  rw [performs.before]
  refine reaches'.undisturbed (P := fun _ found => found = some doc) performs.permitted
    ⟨⟨rfl, rfl⟩, sure⟩ isLog fun t s₀ s' exec => ?_
  rcases exec.inserted with ⟨_, found⟩ | ⟨⟨_, failed⟩, _⟩
  · exact found
  · cases failed

/-- What is taken out of the map is not in the database. -/
theorem Reached.before_delete {later earlier : List Event} (reaches : Reached s j)
    (isPast : j.past = later ++ e :: earlier) (isOp : e.op = .docsDelete k id) :
    (e.before.cores k).db.get id = none := by
  obtain ⟨j', reaches', rfl, performs, lawful⟩ := reaches.entry isPast
  obtain ⟨t, call, op, result, before, after⟩ := e
  subst isOp
  obtain ⟨_, removal, rest, isLog⟩ := lawful.before
  have sure : ∃ value, result = .ok value := by
    obtain ⟨a, effected⟩ := (performed performs).sure rfl
    exact ⟨(), (Prod.mk.inj effected).1.symm⟩
  rw [performs.before]
  exact reaches'.undisturbed (P := fun _ found => found = none) performs.permitted
    ⟨⟨rfl, rfl⟩, sure⟩ isLog fun t s₀ s' exec => exec.removed

/-- After its response a call does nothing. -/
theorem answered_head {call : Call} {log : Log Op Op.Res} {x : (op : Op) × op.Res}
    {r : Except JsError Result} (lawful : Lawful (law call) log) (member : x ∈ log)
    (answers : x.1 = .respond r) : ∃ rest, log = x :: rest := by
  induction log with
  | nil => cases member
  | cons y earlier ih =>
      rcases List.mem_cons.mp member with rfl | old
      · exact ⟨earlier, rfl⟩
      · obtain ⟨rest, rfl⟩ := ih lawful.2 old
        have next := lawful.1.next x rest rfl
        obtain ⟨op, result⟩ := x
        subst answers
        exact next.elim

theorem Reached.unanswered {later earlier : List Event} {x : Event} {r : Except JsError Result}
    (reaches : Reached s j) (isPast : j.past = later ++ e :: earlier) (member : x ∈ earlier)
    (mine : x.thread = e.thread) : x.op ≠ .respond r := by
  intro answers
  obtain ⟨j', reaches', rfl, performs, lawful⟩ := reaches.entry isPast
  have all : Lawful (law e.call) (own e.thread j'.past) := reaches'.lawful follows _ performs.running
  have logged : x.logged ∈ own e.thread j'.past := by
    obtain ⟨after, before, isSplit⟩ := List.append_of_mem member
    rw [isSplit, own_append]
    simp [own, mine]
  obtain ⟨rest, isLog⟩ := answered_head all logged answers
  have next := lawful.next _ rest isLog
  obtain ⟨t, call, op, result, before, after⟩ := x
  subst answers
  exact next

/-- A call that is over has performed what comes next. -/
theorem Reached.next_own {after before : List Event} (reaches : Reached s j)
    (isPast : j.past = after ++ e :: before) (open' : ∀ r, e.op ≠ .respond r)
    (ended : ∃ x ∈ j.past, x.thread = e.thread ∧ ∃ r, x.op = .respond r) :
    ∃ later y between, after = later ++ y :: between ∧ y.thread = e.thread ∧ Next e.logged y.op := by
  obtain ⟨x, member, mine, r, answers⟩ := ended
  have inAfter : x ∈ after := by
    rw [isPast] at member
    rcases List.mem_append.mp member with here | rest
    · exact here
    · rcases List.mem_cons.mp rest with rfl | old
      · exact absurd answers (open' r)
      · exact absurd answers (reaches.unanswered isPast old mine)
  have some : own e.thread after ≠ [] := by
    obtain ⟨first, rest, rfl⟩ := List.append_of_mem inAfter
    rw [own_append]
    simp [own, mine]
  obtain ⟨front, last, isOwn⟩ := List.eq_nil_or_concat (own e.thread after) |>.resolve_left some
  rw [List.concat_eq_append] at isOwn
  obtain ⟨later, y, between, rfl, isThread, _, _, nothing⟩ := own_split isOwn
  refine ⟨later, y, between, rfl, isThread, ?_⟩
  have isHere := split_again isPast
  obtain ⟨_, _, _, _, lawful⟩ := reaches.entry isHere
  rw [isThread, own_append, nothing] at lawful
  exact lawful.next e.logged (own e.thread before) (by simp [own])

theorem Changes.known {call : Call} {log : Log Op Op.Res} (changes : Changes k id e)
    (before : Before call log e.op) : Holds log k := by
  obtain ⟨touches, _⟩ := changes
  generalize e.op = op at touches before
  cases op with
  | dbRemove k' id' => exact touches.1 ▸ before
  | dbInsert k' doc => exact touches.1 ▸ before.1
  | docsSet k' doc => exact touches.1 ▸ before.1
  | docsDelete k' id' => exact touches.1 ▸ before.1
  | _ => exact touches.elim

/-- The core of this worker was changed by calls of this worker. -/
theorem Reached.of_core {later earlier : List Event} (started : Started s) (reaches : Reached s j)
    (isPast : j.past = later ++ e :: earlier) (changes : Changes k id e)
    (isCore : j.state.core = some k) : e.before.generation = j.state.generation := by
  have sound := sound_of_reaches started reaches
  obtain ⟨_, _, _, _, lawful⟩ := reaches.entry isPast
  obtain ⟨x, member, mine, given⟩ := given_of_holds (changes.known lawful.before)
  have inPast : x ∈ j.past := isPast ▸ List.mem_append_right _ (List.mem_cons_of_mem _ member)
  have current := (sound.held x inPast k (sound.given x inPast k given)).2 isCore
  have born := sound.born x inPast
  rw [mine, sound.born e (isPast ▸ List.mem_append_right _ List.mem_cons_self)] at born
  exact (Option.some.inj born).trans current

theorem Reached.unchanged (started : Started s) (reaches : Reached s j)
    (never : ∀ x ∈ j.past, ¬Changes k id x) :
    (j.state.cores k).docs.get id = none ∧ (j.state.cores k).db.get id = none := by
  refine reaches.kept (fun j => (∀ x ∈ j.past, ¬Changes k id x) →
    (j.state.cores k).docs.get id = none ∧ (j.state.cores k).db.get id = none) ?_ ?_ ?_ never
  · intro _
    rw [Journal.empty_state, started.cores]
    exact ⟨rfl, rfl⟩
  · exact fun j t call holds _ _ never => holds never
  · intro j e holds _ performs _ never
    have same := (performed performs).same k id fun touches value isOk =>
      never e List.mem_cons_self ⟨touches, value, isOk⟩
    have before := holds fun x member => never x (List.mem_cons_of_mem _ member)
    exact ⟨same.1.trans before.1, same.2.trans before.2⟩

theorem changes_of {y : Event} {op : Op} (performs : j.Performs service permits y) (isOp : y.op = op)
    (touches : Touches k id op) (sure : op.canFail = false) (total : ∀ s a, ∃ v, (effect s op a).1 = .ok v) :
    Changes k id y := by
  obtain ⟨t, call, op', result, before, after⟩ := y
  subst isOp
  obtain ⟨a, effected⟩ := (performed performs).sure sure
  obtain ⟨value, isOk⟩ := total (j.state.enter t) a
  exact ⟨touches, value, (congrArg Prod.fst effected).symm.trans isOk⟩

/-- The last change of a document is not left half made. -/
theorem Reached.settled {after before : List Event} (reaches : Reached s j)
    (isPast : j.past = after ++ e :: before) (changes : Changes k id e)
    (last : ∀ y ∈ after, ¬Changes k id y)
    (ended : ∃ x ∈ j.past, x.thread = e.thread ∧ ∃ r, x.op = .respond r) :
    (j.state.cores k).docs.get id = (j.state.cores k).db.get id := by
  obtain ⟨_, _, _, performs, _⟩ := reaches.entry isPast
  have exec : Exec e.thread e.before e.op e.result e.after := performs.exec
  obtain ⟨t, call, op, result, s₀, s'⟩ := e
  obtain ⟨touches, value, isOk⟩ := changes
  cases op with
  | docsSet k' doc =>
      obtain ⟨rfl, rfl⟩ := touches
      have set := exec.set
      have found := set.2.trans (reaches.before_set isPast rfl)
      exact reaches.untouched (P := fun d d' => d = d') isPast (set.1.trans found.symm) last
  | docsDelete k' id' =>
      obtain ⟨rfl, rfl⟩ := touches
      have deleted := exec.deleted
      have found := deleted.2.trans (reaches.before_delete isPast rfl)
      exact reaches.untouched (P := fun d d' => d = d') isPast (deleted.1.trans found.symm) last
  | dbRemove k' id' =>
      obtain ⟨rfl, rfl⟩ := touches
      obtain ⟨later, y, between, rfl, mine, next⟩ := reaches.next_own isPast (fun _ => nofun) ended
      have isHere := split_again isPast
      obtain ⟨j', reaches', isPast', performs', _⟩ := reaches.entry isHere
      have inAfter : y ∈ later ++ y :: between := List.mem_append_right _ List.mem_cons_self
      rcases next with isDelete | ⟨doc, rfl, isInsert⟩
      · have changed : Changes k' id' y :=
          changes_of performs' isDelete ⟨rfl, rfl⟩ rfl fun _ _ => ⟨(), rfl⟩
        exact absurd changed (last y inAfter)
      · have absent : (j'.state.cores k').db.get doc.id = none := by
          refine reaches'.untouched (P := fun _ found => found = none) isPast' exec.removed ?_
          exact fun x member => last x (List.mem_append_right _ (List.mem_cons_of_mem _ member))
        obtain ⟨u, call', op', result', s₁, s₂⟩ := y
        obtain rfl : op' = .dbInsert k' doc := isInsert
        rcases (performed performs').inserted with ⟨isOk', _⟩ | ⟨_, there⟩
        · exact absurd ⟨⟨rfl, rfl⟩, _, isOk'⟩ (last _ inAfter)
        · exact absurd absent there
  | dbInsert k' doc =>
      obtain ⟨rfl, rfl⟩ := touches
      obtain ⟨later, y, between, rfl, mine, next⟩ := reaches.next_own isPast (fun _ => nofun) ended
      have isHere := split_again isPast
      obtain ⟨j', reaches', isPast', performs', _⟩ := reaches.entry isHere
      have isSet : y.op = .docsSet k' doc := by
        have next' : Next ⟨.dbInsert k' doc, result⟩ y.op := next
        rw [show result = .ok value from isOk] at next'
        exact next'
      have changed : Changes k' doc.id y :=
        changes_of performs' isSet ⟨rfl, rfl⟩ rfl fun _ _ => ⟨(), rfl⟩
      exact absurd changed (last y (List.mem_append_right _ List.mem_cons_self))
  | _ => exact touches.elim

theorem Reached.agrees (started : Started s) (reaches : Reached s j) (quiet : Quiescent j) :
    Agrees j.state := by
  classical
  intro k isCore
  ext1 id
  cases found : j.past.find? (fun x => Changes k id x) with
  | none =>
      have never : ∀ x ∈ j.past, ¬Changes k id x := by simpa using found
      have unchanged := reaches.unchanged started never
      exact unchanged.1.trans unchanged.2.symm
  | some e =>
      obtain ⟨changes, after, before, isPast, last⟩ := List.find?_eq_some_iff_append.mp found
      have changed : Changes k id e := by simpa using changes
      have generation := reaches.of_core started isPast changed isCore
      have inPast : e ∈ j.past := isPast ▸ List.mem_append_right _ List.mem_cons_self
      exact reaches.settled isPast changed (fun y member => by simpa using last y member)
        (quiet e inPast generation)

theorem Moves.aged {t : Nat} {s s' : Worker} {op : Op} (moves : Moves t s op s') :
    s.generation ≤ s'.generation := by
  rcases moves.generation with ⟨_, next, _⟩ | ⟨_, same⟩
  · omega
  · omega

/-- What every operation of the past keeps. -/
theorem Reached.keeps {P : Worker → Prop} {later earlier : List Event} (reaches : Reached s j)
    (isPast : j.past = later ++ e :: earlier) (start : P e.after)
    (kept : ∀ x ∈ later, ∀ front back, later = front ++ x :: back →
      Moves x.thread x.before x.op x.after → P x.before → P x.after) : P j.state := by
  refine reaches.stays isPast start fun x member => ?_
  obtain ⟨front, back, isLater⟩ := List.append_of_mem member
  rw [isLater] at isPast
  obtain ⟨_, _, performs⟩ := reaches.at_entry (split_again isPast)
  have exec : Exec x.thread x.before x.op x.result x.after := performs.2.exec
  exact kept x member front back isLater exec.moves

theorem Reached.aged {later earlier : List Event} (reaches : Reached s j)
    (isPast : j.past = later ++ e :: earlier) : e.after.generation ≤ j.state.generation :=
  reaches.keeps (P := fun s => e.after.generation ≤ s.generation) isPast le_rfl
    fun _ _ _ _ _ moves old => old.trans moves.aged

/-- Nothing has ended a call that goes on. -/
theorem Reached.unended {rest later earlier : List Event} {a : Event} (started : Started s)
    (reaches : Reached s j) (isPast : j.past = rest ++ e :: (later ++ a :: earlier))
    (mine : e.thread = a.thread) : ∀ z ∈ later, ¬Ends a z := by
  intro z member ends
  rcases ends with ⟨isThread, r, answers⟩ | isRestart
  · have inEarlier : z ∈ later ++ a :: earlier := List.mem_append_left _ member
    exact reaches.unanswered isPast inEarlier (isThread.trans mine.symm) answers
  · obtain ⟨j', reaches', isPast', performs, _⟩ := reaches.entry isPast
    have sound := sound_of_reaches started reaches'
    have born := sound.born a (isPast' ▸ List.mem_append_right _ List.mem_cons_self)
    have current : j'.state.generation = a.before.generation := by
      rcases (performed performs).moves.alive with unborn | alive
      · rw [mine, born] at unborn
        cases unborn
      · rw [mine, born] at alive
        exact (Option.some.inj alive).symm
    obtain ⟨front, back, rfl⟩ := List.append_of_mem member
    have isHere := split_again isPast'
    obtain ⟨j₁, reaches₁, isPast₁, performs₁, _⟩ := reaches'.entry isHere
    obtain ⟨_, _, _, performs₂, _⟩ := reaches₁.entry isPast₁
    have first := (performed performs₂).moves.aged
    have second := reaches₁.aged isPast₁
    have last := reaches'.aged isHere
    have third : z.after.generation = j₁.state.generation + 1 := by
      rcases (performed performs₁).moves.generation with ⟨_, next, _⟩ | ⟨other, _⟩
      · exact next
      · exact absurd isRestart other
    rw [← performs₂.before] at first
    omega

/-- While a conversation is taken nothing is written to it. -/
theorem Reached.unwritten {rest later earlier : List Event} {a : Event} {convId : String}
    (started : Started s) (reaches : Reached s j)
    (isPast : j.past = rest ++ e :: (later ++ a :: earlier)) (mine : e.thread = a.thread)
    (takes : Takes convId a) : ∀ x ∈ later, ¬Writes convId x.op := by
  intro x member writes
  have unended := reaches.unended started isPast mine
  obtain ⟨j', reaches', isPast', _⟩ := reaches.at_entry isPast
  obtain ⟨front, back, rfl⟩ := List.append_of_mem member
  obtain ⟨j₁, _, isPast₁, performs⟩ := reaches'.at_entry (split_again isPast')
  obtain ⟨after, z, before, isBack, ends, _⟩ :=
    performs.permitted.apart convId writes back a earlier isPast₁ takes
  refine unended z ?_ ends
  rw [isBack]
  exact List.mem_append_right _ (List.mem_cons_of_mem _ (List.mem_append_right _ List.mem_cons_self))

/-- Nothing of the conversation is in the cores that a call may still be given, nor in the
snapshots. -/
structure Cleared (convId : String) (m : Option Nat) (n : Nat) (s : Worker) : Prop where
  created : n ≤ s.created
  core : ∀ k, s.core = some k → m = some k ∨ n ≤ k
  docs : ∀ k, m = some k ∨ n ≤ k → ∀ doc ∈ (s.cores k).docs.rows, doc.convId ≠ convId
  db : ∀ k, m = some k ∨ n ≤ k → ∀ doc ∈ (s.cores k).db.rows, doc.convId ≠ convId
  snapshots : ∀ row ∈ s.snapshots.rows, row.convId ≠ convId

theorem Cleared.moves {convId : String} {m : Option Nat} {n t : Nat} {s s' : Worker} {op : Op}
    (cleared : Cleared convId m n s) (moves : Moves t s op s') (other : ¬Writes convId op) :
    Cleared convId m n s' where
  created := cleared.created.trans moves.created
  core k isCore := by
    rcases moves.core_cases isCore with ⟨old, _⟩ | ⟨rfl, _⟩
    · exact cleared.core k old
    · exact .inr cleared.created
  docs k within doc member inConv := by
    rcases moves.docs k doc member with old | rfl
    · exact cleared.docs k within doc old inConv
    · exact other inConv
  db k within doc member inConv := by
    rcases moves.db k doc member with old | rfl
    · exact cleared.db k within doc old inConv
    · exact other inConv
  snapshots row member inConv := by
    rcases moves.snapshots row member with old | rfl
    · exact cleared.snapshots row old inConv
    · exact other inConv

theorem Cleared.clean {convId : String} {m : Option Nat} {n : Nat} (cleared : Cleared convId m n j.state)
    (sound : Sound j) : Clean convId j.state where
  docs k isCore := cleared.docs k (cleared.core k isCore)
  db k isCore := cleared.db k (cleared.core k isCore)
  snapshots row member := by
    refine ⟨cleared.snapshots row member, fun doc inRow => ?_⟩
    rw [sound.filed row member doc inRow]
    exact cleared.snapshots row member

variable {convId : String} {later earlier : List Event}

/-- What is said of the documents of the conversation in a map stays so while none is written. -/
theorem Reached.docs_stay {Q : SearchDoc → Prop} (reaches : Reached s j)
    (isPast : j.past = later ++ e :: earlier) (unwritten : ∀ x ∈ later, ¬Writes convId x.op)
    (start : ∀ doc ∈ (e.after.cores k).docs.rows, doc.convId = convId → Q doc) :
    ∀ doc ∈ (j.state.cores k).docs.rows, doc.convId = convId → Q doc := by
  refine reaches.keeps (P := fun s => ∀ doc ∈ (s.cores k).docs.rows, doc.convId = convId → Q doc)
    isPast start fun x member _ _ _ moves holds doc inDocs inConv => ?_
  rcases moves.docs k doc inDocs with old | isSet
  · exact holds doc old inConv
  · have writes : Writes convId x.op := by
      rw [isSet]
      exact inConv
    exact absurd writes (unwritten x member)

theorem Reached.unsaved_stays (reaches : Reached s j) (isPast : j.past = later ++ e :: earlier)
    (unwritten : ∀ x ∈ later, ¬Writes convId x.op)
    (start : ∀ row ∈ e.after.snapshots.rows, row.convId ≠ convId) :
    ∀ row ∈ j.state.snapshots.rows, row.convId ≠ convId := by
  refine reaches.keeps (P := fun s => ∀ row ∈ s.snapshots.rows, row.convId ≠ convId)
    isPast start fun x member _ _ _ moves holds row inRows inConv => ?_
  rcases moves.snapshots row inRows with old | isPut
  · exact holds row old inConv
  · have writes : Writes convId x.op := by
      rw [isPut]
      exact inConv
    exact absurd writes (unwritten x member)

/-- The documents of the conversation in the database are in the map. -/
def Whole (convId : String) (k : Nat) (s : Worker) : Prop :=
  ∀ doc ∈ (s.cores k).db.rows, doc.convId = convId → doc ∈ (s.cores k).docs.rows

theorem Reached.whole_kept (reaches : Reached s j) (isPast : j.past = later ++ e :: earlier)
    (other : ¬Writes convId e.op) (whole : Whole convId k e.before) : Whole convId k e.after := by
  intro doc inDb inConv
  obtain ⟨_, _, _, performs, _⟩ := reaches.entry isPast
  have exec : Exec e.thread e.before e.op e.result e.after := performs.exec
  have inDb' : (e.after.cores k).db.get doc.id = some doc := Table.get_of_mem inDb
  by_cases touches : Touches k doc.id e.op
  · obtain ⟨t, call, op, result, s₀, s'⟩ := e
    cases op with
    | dbRemove k' id' =>
        obtain ⟨rfl, rfl⟩ := touches
        cases exec.removed.symm.trans inDb'
    | dbInsert k' doc' =>
        obtain ⟨rfl, isId⟩ := touches
        rcases exec.moves.db k' doc inDb with old | isInsert
        · rcases exec.inserted with ⟨_, found⟩ | ⟨⟨_, failed⟩, _⟩
          · rw [isId, inDb'] at found
            obtain rfl := Option.some.inj found
            exact absurd inConv other
          · have same := exec.same k' doc.id fun _ value isOk => by
              rw [failed] at isOk
              cases isOk
            have before := Table.get_of_mem (whole doc old inConv)
            exact Table.mem_of_get (same.1.trans before)
        · obtain rfl := (Op.dbInsert.inj isInsert).2
          exact absurd inConv other
    | docsSet k' doc' =>
        obtain ⟨rfl, isId⟩ := touches
        have found := exec.set.2.trans (reaches.before_set isPast rfl)
        rw [isId, inDb'] at found
        obtain rfl := Option.some.inj found
        exact absurd inConv other
    | docsDelete k' id' =>
        obtain ⟨rfl, rfl⟩ := touches
        have gone := exec.deleted.2.trans (reaches.before_delete isPast rfl)
        cases gone.symm.trans inDb'
    | _ => exact touches.elim
  · have same := exec.same k doc.id fun touches' => absurd touches' touches
    have old : doc ∈ (e.before.cores k).db.rows := Table.mem_of_get (same.2.symm.trans inDb')
    have before := Table.get_of_mem (whole doc old inConv)
    exact Table.mem_of_get (same.1.trans before)

theorem Reached.whole_stays (reaches : Reached s j) (isPast : j.past = later ++ e :: earlier)
    (unwritten : ∀ x ∈ later, ¬Writes convId x.op) (start : Whole convId k e.after) :
    Whole convId k j.state := by
  refine reaches.keeps (P := Whole convId k) isPast start ?_
  rintro x member front back rfl _ whole
  exact reaches.whole_kept (split_again isPast) (unwritten x member) whole

/-- What a shred has taken the core of is out of the cores that are new since. -/
theorem Reached.renewed (convId : String) {n : Nat} {m : Option Nat} (reaches : Reached s j)
    (isPast : j.past = later ++ e :: earlier) (unwritten : ∀ x ∈ later, ¬Writes convId x.op)
    (made : n ≤ e.after.created) (core : ∀ k, e.after.core = some k → m = some k ∨ n ≤ k)
    (empty : ∀ k, n ≤ k → (∀ doc, doc ∉ (e.after.cores k).docs.rows) ∧
      ∀ doc, doc ∉ (e.after.cores k).db.rows) :
    n ≤ j.state.created ∧ (∀ k, j.state.core = some k → m = some k ∨ n ≤ k) ∧
      ∀ k, n ≤ k → (∀ doc ∈ (j.state.cores k).docs.rows, doc.convId ≠ convId) ∧
        ∀ doc ∈ (j.state.cores k).db.rows, doc.convId ≠ convId := by
  let P (s : Worker) : Prop := n ≤ s.created ∧ (∀ k, s.core = some k → m = some k ∨ n ≤ k) ∧
    ∀ k, n ≤ k → (∀ doc ∈ (s.cores k).docs.rows, doc.convId ≠ convId) ∧
      ∀ doc ∈ (s.cores k).db.rows, doc.convId ≠ convId
  have start : P e.after := by
    refine ⟨made, core, fun k within => ⟨fun doc member => ?_, fun doc member => ?_⟩⟩
    · exact absurd member ((empty k within).1 doc)
    · exact absurd member ((empty k within).2 doc)
  refine reaches.keeps (P := P) isPast start fun x member _ _ _ moves holds => ?_
  obtain ⟨made, core, none⟩ := holds
  refine ⟨made.trans moves.created, fun k isCore => ?_, fun k within => ⟨fun doc inDocs inConv => ?_,
    fun doc inDb inConv => ?_⟩⟩
  · rcases moves.core_cases isCore with ⟨old, _⟩ | ⟨rfl, _⟩
    · exact core k old
    · exact .inr made
  · rcases moves.docs k doc inDocs with old | isSet
    · exact (none k within).1 doc old inConv
    · refine unwritten x member ?_
      rw [isSet]
      exact inConv
  · rcases moves.db k doc inDb with old | isInsert
    · exact (none k within).2 doc old inConv
    · refine unwritten x member ?_
      rw [isInsert]
      exact inConv

/-- Where an operation of a call stands, with what it did. -/
theorem Reached.found {t : Nat} {x : (op : Op) × op.Res} {front back : Log Op Op.Res}
    (reaches : Reached s j) (isLog : own t j.past = front ++ x :: back) :
    ∃ after y before, j.past = after ++ y :: before ∧ y.thread = t ∧ y.logged = x ∧
      own t after = front ∧ own t before = back ∧ Exec t y.before x.1 x.2 y.after := by
  obtain ⟨after, y, before, isPast, rfl, rfl, isFront, isBack⟩ := own_split isLog
  obtain ⟨_, _, _, performs⟩ := reaches.at_entry isPast
  exact ⟨after, y, before, isPast, rfl, rfl, isFront, isBack, performs.exec⟩

/-- A document that a shred has seen or taken out is not in the map any more. -/
theorem Reached.gone {t : Nat} {middle : List Event} (reaches : Reached s j)
    (isPast : j.past = later ++ middle) (unwritten : ∀ x ∈ later, ¬Writes convId x.op)
    (gone : Gone k id (own t later)) :
    ∀ doc ∈ (j.state.cores k).docs.rows, doc.convId = convId → doc.id ≠ id := by
  have isGone : ∃ y ∈ later, (y.after.cores k).docs.get id = none := by
    rcases gone with looked | deleted
    · obtain ⟨y, member, _, logged⟩ := mem_of_own looked
      obtain ⟨front, back, rfl⟩ := List.append_of_mem member
      rw [List.append_assoc, List.cons_append] at isPast
      obtain ⟨_, _, _, performs⟩ := reaches.at_entry isPast
      have looks := (logged_exec performs logged).looked
      refine ⟨y, member, ?_⟩
      rw [looks.1]
      exact looks.2
    · obtain ⟨y, member, _, logged⟩ := mem_of_own deleted
      obtain ⟨front, back, rfl⟩ := List.append_of_mem member
      rw [List.append_assoc, List.cons_append] at isPast
      obtain ⟨_, _, _, performs⟩ := reaches.at_entry isPast
      exact ⟨y, member, (logged_exec performs logged).deleted.1⟩
  obtain ⟨y, member, absent⟩ := isGone
  obtain ⟨front, back, rfl⟩ := List.append_of_mem member
  rw [List.append_assoc, List.cons_append] at isPast
  refine reaches.docs_stay isPast (fun x here => unwritten x (List.mem_append_left _ here)) ?_
  rintro doc inDocs _ rfl
  rw [Table.get_of_mem inDocs] at absent
  cases absent

/-- What a shred or a wipe has done when it resolves. -/
structure Resolved (convId : String) (e : Event) (earlier : List Event) (m : Option Nat) (n : Nat) :
    Prop where
  taken : ∃ middle a before, earlier = middle ++ a :: before ∧ a.thread = e.thread ∧ Takes convId a
  cleared : Cleared convId m n e.after

theorem Reached.shredded (started : Started s) (reaches : Reached s j)
    (isPast : j.past = later ++ e :: earlier) (isCall : e.call = .request (.shred convId))
    {removed : Nat} (isOp : e.op = .respond (.ok (.shredded removed))) :
    ∃ m n, Resolved convId e earlier m n := by
  obtain ⟨j', reaches', rfl, performs, lawful⟩ := reaches.entry isPast
  have earned := lawful.before
  rw [isOp] at earned
  obtain ⟨front, k, ids, ⟨⟨middle, back, isLog⟩, gone⟩, saved⟩ := earned convId isCall
  -- the call took the core, listed what to delete, and went on from there
  obtain ⟨after, l, before, isPast', isThread, _, rfl, isBefore, lists⟩ := reaches'.found isLog
  obtain ⟨j₁, reaches₁, rfl, _⟩ := reaches'.entry isPast'
  obtain ⟨between, a, start, isPast₁, isThread₁, isTaken, _, _, takes⟩ := reaches₁.found isBefore
  have isEarlier : j'.past = (after ++ l :: between) ++ a :: start := by
    rw [isPast', isPast₁, List.append_assoc]
    rfl
  have call : a.call = e.call := by
    have ran := reaches'.ran a (isEarlier ▸ List.mem_append_right _ List.mem_cons_self)
    rw [isThread₁, performs.running] at ran
    exact (Option.some.inj ran).symm
  have isTakes : Takes convId a := .inl ⟨call.trans isCall, k, isTaken⟩
  have unwritten : ∀ x ∈ after ++ l :: between, ¬Writes convId x.op := by
    rw [isEarlier] at isPast
    exact reaches.unwritten started isPast isThread₁.symm isTakes
  have afterwards : ∀ x ∈ after, ¬Writes convId x.op :=
    fun x member => unwritten x (List.mem_append_left _ member)
  refine ⟨some k, a.before.created, ⟨_, a, start, isEarlier, isThread₁, isTakes⟩, ?_⟩
  obtain ⟨j₂, reaches₂, _, performs₂, _⟩ := reaches₁.entry isPast₁
  have fresh := (sound_of_reaches started reaches₂).fresh
  have isWhole := performs₂.permitted.whole convId k (call.trans isCall) isTaken
  rw [← performs₂.before] at fresh isWhole
  obtain ⟨isCore, isAfter⟩ := takes.gotCore
  have made : a.before.created ≤ a.after.created := by
    rw [isAfter]
    exact le_rfl
  have core (k' : Nat) (isCore' : a.after.core = some k') : some k = some k' ∨ a.before.created ≤ k' := by
    rw [isAfter] at isCore'
    exact .inl (isCore.symm.trans isCore')
  have empty : ∀ k, a.before.created ≤ k → (∀ doc, doc ∉ (a.after.cores k).docs.rows) ∧
      ∀ doc, doc ∉ (a.after.cores k).db.rows := by
    rw [isAfter]
    exact fresh
  have renewed := reaches'.renewed convId isEarlier unwritten made core empty
  have whole : Whole convId k j'.state := by
    refine reaches'.whole_stays isEarlier unwritten ?_
    rw [isAfter]
    exact isWhole
  have listed : ∀ doc ∈ (j'.state.cores k).docs.rows, doc.convId = convId → doc.id ∈ ids := by
    refine reaches'.docs_stay isPast' afterwards ?_
    rw [lists.listed.1]
    exact lists.listed.2
  have noDocs : ∀ doc ∈ (j'.state.cores k).docs.rows, doc.convId ≠ convId := by
    intro doc inDocs inConv
    have isGone := isThread ▸ gone doc.id (listed doc inDocs inConv)
    exact reaches'.gone isPast' afterwards isGone doc inDocs inConv rfl
  have unsaved : ∀ row ∈ j'.state.snapshots.rows, row.convId ≠ convId := by
    obtain ⟨y, member, _, logged⟩ := mem_of_own saved
    obtain ⟨later', earlier', rfl⟩ := List.append_of_mem member
    rw [List.append_assoc, List.cons_append] at isPast'
    obtain ⟨_, _, _, performs', _⟩ := reaches'.entry isPast'
    exact reaches'.unsaved_stays isPast' (fun x here => afterwards x (List.mem_append_left _ here))
      (logged_exec performs' logged).unsaved
  have cleared : Cleared convId (some k) a.before.created j'.state := by
    refine ⟨renewed.1, renewed.2.1, fun k' within => ?_, fun k' within => ?_, unsaved⟩
    · rcases within with same | new
      · exact Option.some.inj same ▸ noDocs
      · exact (renewed.2.2 k' new).1
    · rcases within with same | new
      · intro doc inDb inConv
        rw [← Option.some.inj same] at inDb
        exact noDocs doc (whole doc inDb inConv) inConv
      · exact (renewed.2.2 k' new).2
  refine cleared.moves (performed performs).moves ?_
  rw [isOp]
  exact id

theorem Reached.wiped (started : Started s) (reaches : Reached s j)
    (isPast : j.past = later ++ e :: earlier) (isOp : e.op = .respond (.ok .wiped)) :
    ∃ m n, Resolved convId e earlier m n := by
  obtain ⟨j', reaches', rfl, performs, lawful⟩ := reaches.entry isPast
  have earned := lawful.before
  rw [isOp] at earned
  obtain ⟨k, front, back, isLog, cleared⟩ := earned
  obtain ⟨after, a, before, isPast', isThread, isReplaced, rfl, _, replaces⟩ := reaches'.found isLog
  have isTakes : Takes convId a := .inr ⟨k, isReplaced⟩
  have unwritten : ∀ x ∈ after, ¬Writes convId x.op := by
    rw [isPast'] at isPast
    exact reaches.unwritten started isPast isThread.symm isTakes
  refine ⟨none, k, ⟨_, a, before, isPast', isThread, isTakes⟩, ?_⟩
  obtain ⟨j₂, reaches₂, _, performs₂, _⟩ := reaches'.entry isPast'
  have fresh := (sound_of_reaches started reaches₂).fresh
  rw [← performs₂.before] at fresh
  obtain ⟨rfl, isAfter⟩ := replaces.replaced
  have made : a.before.created ≤ a.after.created := by
    rw [isAfter]
    exact Nat.le_succ _
  have core (k' : Nat) (isCore : a.after.core = some k') : none = some k' ∨ a.before.created ≤ k' := by
    rw [isAfter] at isCore
    exact .inr (Option.some.inj isCore).le
  have empty : ∀ k, a.before.created ≤ k → (∀ doc, doc ∉ (a.after.cores k).docs.rows) ∧
      ∀ doc, doc ∉ (a.after.cores k).db.rows := by
    rw [isAfter]
    exact fresh
  have renewed := reaches'.renewed convId isPast' unwritten made core empty
  have unsaved : ∀ row ∈ j'.state.snapshots.rows, row.convId ≠ convId := by
    obtain ⟨y, member, _, logged⟩ := mem_of_own cleared
    obtain ⟨later', earlier', rfl⟩ := List.append_of_mem member
    rw [List.append_assoc, List.cons_append] at isPast'
    obtain ⟨_, _, _, performs', _⟩ := reaches'.entry isPast'
    refine reaches'.unsaved_stays isPast' (fun x here => unwritten x (List.mem_append_left _ here)) ?_
    rw [(logged_exec performs' logged).cleared]
    exact fun row member => by cases member
  have all : Cleared convId none a.before.created j'.state := by
    refine ⟨renewed.1, renewed.2.1, fun k' within => ?_, fun k' within => ?_, unsaved⟩
    · exact (renewed.2.2 k' (within.resolve_left nofun)).1
    · exact (renewed.2.2 k' (within.resolve_left nofun)).2
  refine all.moves (performed performs).moves ?_
  rw [isOp]
  exact id

/-- A call that writes to a conversation after it was resolved has begun after that. -/
theorem Reached.begun_after {m : Option Nat} {n : Nat} {x : Event} {rest : List Event} (started : Started s)
    (resolved : Resolved convId e earlier m n) (reaches : Reached s j)
    (isPast : j.past = rest ++ e :: earlier) (permitted : Permitted j x) (writes : Writes convId x.op) :
    own x.thread (e :: earlier) = [] := by
  obtain ⟨middle, a, before, rfl, isThread, takes⟩ := resolved.taken
  have unended := reaches.unended started isPast isThread.symm
  have isTaken : j.past = (rest ++ e :: middle) ++ a :: before := by
    rw [isPast, List.append_assoc]
    rfl
  obtain ⟨after, z, between, isSplit, ends, nothing⟩ :=
    permitted.apart convId writes (rest ++ e :: middle) a before isTaken takes
  rcases List.append_eq_append_iff.mp isSplit with ⟨w, _, isRest⟩ | ⟨w, _, isRest⟩
  · cases w with
    | nil =>
        obtain ⟨rfl, rfl⟩ := List.cons.inj isRest
        exact nothing
    | cons y w =>
        obtain ⟨rfl, rfl⟩ := List.cons.inj isRest
        exact absurd ends (unended z (List.mem_append_right _ List.mem_cons_self))
  · have all : z :: (between ++ a :: before) = w ++ (e :: (middle ++ a :: before)) := by
      rw [← List.cons_append, isRest, List.append_assoc]
      rfl
    rw [all, own_append] at nothing
    exact (List.append_eq_nil_iff.mp nothing).2

/-- After a resolution the conversation cannot be written without being named. -/
theorem Reached.never_written {m : Option Nat} {n : Nat} {x : Event} {rest : List Event}
    (started : Started s) (resolved : Resolved convId e earlier m n) (reaches : Reached s j)
    (isPast : j.past = rest ++ e :: earlier) (permitted : Permitted j x)
    (lawful : law x.call (j.log x.thread) x.op)
    (before : ∀ front y back j', rest = front ++ y :: back → Reached s j' →
      j'.past = back ++ e :: earlier → Cleared convId m n j'.state)
    (unnamed : Names convId x.call → own x.thread (e :: earlier) ≠ []) : ¬Writes convId x.op := by
  intro writes
  have begun := reaches.begun_after started resolved isPast permitted writes
  have isLog : j.log x.thread = own x.thread rest := by
    rw [Journal.log, isPast, own_append, begun, List.append_nil]
  rw [isLog] at lawful
  have sourced (doc : SearchDoc) (source : Source x.call (own x.thread rest) doc) : doc.convId ≠ convId := by
    rcases source with ⟨docs, isIndex, member⟩ | ⟨rows, reads, row, isRow, inRow⟩
    · exact fun inConv => unnamed ⟨docs, isIndex, doc, member, inConv⟩ begun
    · obtain ⟨g, member, _, logged⟩ := mem_of_own reads
      obtain ⟨front, back, rfl⟩ := List.append_of_mem member
      obtain ⟨j', reaches', isPast', performs, _⟩ := reaches.entry (split_again isPast)
      have cleared := before front g back j' rfl reaches' isPast'
      rw [(logged_exec performs logged).gotSnapshots] at isRow
      rw [(sound_of_reaches started reaches').filed row isRow doc inRow]
      exact cleared.snapshots row isRow
  have law := lawful.before
  generalize x.op = op at law writes
  cases op with
  | dbInsert k doc => exact sourced doc law.2 writes
  | docsSet k doc => exact sourced doc law.2.1 writes
  | putSnapshot row =>
      obtain ⟨some, _, k, front, back, isExport, given⟩ := law
      obtain ⟨after, y, earlier', isRest, _, logged, _, isBack⟩ := own_split isExport
      rw [← isBack] at given
      obtain ⟨r, member, _, logged'⟩ := mem_of_own given
      obtain ⟨after', earlier'', rfl⟩ := List.append_of_mem member
      have isHere := isPast
      rw [isRest] at isHere
      obtain ⟨j₁, reaches₁, isPast₁, performs₁, _⟩ := reaches.entry (split_again isHere)
      obtain ⟨j₂, reaches₂, isPast₂, performs₂, _⟩ := reaches₁.entry (split_again isPast₁)
      -- the core was given to the call after the resolution
      have isSecond : rest = (after ++ y :: after') ++ r :: earlier'' := by
        rw [isRest, List.append_assoc]
        rfl
      have core := (before _ r earlier'' j₂ isSecond reaches₂ isPast₂).core k
        (logged_exec performs₂ logged').gotCore.1
      have docs := (before after y _ j₁ isRest reaches₁ isPast₁).docs k core
      have exported := (logged_exec performs₁ logged).exportConversation
      obtain ⟨doc, inDocs⟩ := List.exists_mem_of_ne_nil _ some
      rw [exported] at inDocs
      obtain ⟨inCore, inConv⟩ := mem_exportConversation.mp inDocs
      exact docs doc inCore (inConv.trans writes)
  | _ => exact writes

/-- What was cleared at a resolution is clear from then on. -/
theorem Reached.still_cleared {m : Option Nat} {n : Nat} (started : Started s)
    (resolved : Resolved convId e earlier m n) (reaches : Reached s j)
    (isPast : j.past = later ++ e :: earlier)
    (unnamed : ∀ x ∈ later, Names convId x.call → own x.thread (e :: earlier) ≠ []) :
    Cleared convId m n j.state := by
  induction size : later.length using Nat.strong_induction_on generalizing later j with
  | _ bound ih =>
      cases later with
      | nil =>
          rw [reaches.state_eq isPast]
          exact resolved.cleared
      | cons x rest =>
          have first : j.past = [] ++ x :: (rest ++ e :: earlier) := isPast
          obtain ⟨j', reaches', isPast', performs, lawful⟩ := reaches.entry first
          have small : rest.length < bound := by
            rw [← size, List.length_cons]
            omega
          have before : Cleared convId m n j'.state :=
            ih rest.length small reaches' isPast' (fun y member => unnamed y (List.mem_cons_of_mem _ member)) rfl
          rw [← isPast'] at lawful
          have unwritten : ¬Writes convId x.op := by
            refine reaches'.never_written started resolved isPast' performs.permitted lawful ?_
              (unnamed x List.mem_cons_self)
            rintro front y back j₁ rfl reaches₁ isPast₁
            refine ih back.length ?_ reaches₁ isPast₁ (fun z member => ?_) rfl
            · rw [List.length_append, List.length_cons] at small
              omega
            · exact unnamed z (List.mem_cons_of_mem _ (List.mem_append_right _ (List.mem_cons_of_mem _ member)))
          rw [reaches.state_eq isPast]
          exact before.moves (performed performs).moves unwritten

theorem Reached.final (started : Started s) (reaches : Reached s j) : Final j := by
  intro convId later e earlier isPast resolves unnamed
  have resolved : ∃ m n, Resolved convId e earlier m n := by
    rcases resolves with ⟨isCall, removed, isOp⟩ | isOp
    · exact reaches.shredded started isPast isCall isOp
    · exact reaches.wiped started isPast isOp
  obtain ⟨m, n, resolved⟩ := resolved
  exact (reaches.still_cleared started resolved isPast unnamed).clean (sound_of_reaches started reaches)

/-- Where no write to a conversation is under way while it is shredded, and documents are changed by
one call at a time, shredding is final. -/
theorem shreds_finally (s : Worker) (started : Started s) : ShredsFinally Permitted s :=
  fun _ reaches => ⟨Reached.final started reaches, Reached.agrees started reaches⟩

end Runs

section Overlap

def fresh : Worker where
  generation := 0
  born _ := none
  cores _ := .empty
  created := 0
  core := none
  hydrated := .unstarted
  dirty := []
  timer := false
  keyPromise := none
  promises _ := none
  promised := 0
  snapshots := .empty
  snapshotKey := none

theorem started_fresh : Started fresh where
  cores _ := rfl
  core := rfl
  born _ := rfl
  filed _ member := by cases member

theorem shreds_finally_fresh : ShredsFinally Permitted fresh :=
  shreds_finally fresh started_fresh

def note : SearchDoc where
  id := "m"
  convId := "c"
  sender := "ann"
  text := [0x68, 0x69]
  ts := 0

def isRequest : Call → Bool
  | .request _ => true
  | _ => false

/-- Two requests have waited for the first hydration; the second comes while the first inserts. -/
def overlapping : Option History :=
  ((service.schedule perform isRequest).follow (Service.unstarted fresh) ([
    .start 0 (.request (.index [note])), .await 0 {}, .await 0 {}, .await 0 {}, .await 0 {},
    .start 1 (.request (.shred "c")), .await 1 {}, .await 1 {}] ++
    List.replicate 7 (.await 0 {}) ++
    [.await 0 {}, .await 1 {}, .await 0 {}, .await 0 {}, .await 0 {}] ++
    [.await 1 {}, .await 1 {}, .await 1 {}] ++
    List.replicate 4 (.await 0 {}) ++
    [.await 1 {}, .await 1 {}])).map Config.state

def shredded (e : Event) : Option String :=
  match e.call, e.op with
  | .request (.shred convId), .respond (.ok (.shredded _)) => some convId
  | _, _ => none

theorem resolves_of_shredded {e : Event} {convId : String} (isShredded : shredded e = some convId) :
    Resolves convId e := by
  unfold shredded at isShredded
  split at isShredded
  next _ _ removed isCall isOp =>
    obtain rfl := Option.some.inj isShredded
    exact .inl ⟨isCall, removed, isOp⟩
  · cases isShredded

theorem overlapping_left : overlapping.map (fun j => (j.past.head?.bind shredded, j.state.core,
    (j.state.cores 0).docs.rows)) = some (some "c", some 0, [note]) := by
  decide +kernel

theorem not_shreds_finally_overlapping : ¬ShredsFinally (fun _ _ => True) fresh := by
  intro claim
  obtain ⟨j, ran, facts⟩ := Option.map_eq_some_iff.mp overlapping_left
  obtain ⟨config, followed, rfl⟩ := Option.map_eq_some_iff.mp ran
  have admits (j : History) (request : Call) (isRequest : isRequest request = true) : Admitted j request := by
    cases request with
    | persist => cases isRequest
    | _ => trivial
  have performs (t : Nat) (s : Worker) (op : Op) (a : Answer) (result : op.Res) (s' : Worker)
      (performed : perform t s op a = some (result, s')) : service.exec t s op result s' := ⟨a, performed⟩
  have reaches : service.Reaches Admitted (fun _ _ => True) fresh config.state :=
    Service.reaches_follow admits performs (fun _ _ => trivial) followed
  obtain ⟨isLast, rest⟩ := Prod.mk.inj facts
  obtain ⟨isCore, isDocs⟩ := Prod.mk.inj rest
  cases isPast : config.state.past with
  | nil => simp [isPast] at isLast
  | cons e earlier =>
      have resolves : Resolves "c" e := resolves_of_shredded (by simpa [isPast] using isLast)
      have clean := (claim _ reaches).1 "c" [] e earlier isPast resolves fun _ member => by cases member
      have member : note ∈ (config.state.state.cores 0).docs.rows := isDocs ▸ List.mem_singleton_self _
      exact clean.docs 0 isCore note member rfl

end Overlap

end Search
