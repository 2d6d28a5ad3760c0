import CipherChat.Search.Worker

/-!
What each call of the search worker does in which order, read off its own log.
-/

namespace Search

open Async Primitives

/-- The call works on this core. -/
def Holds (log : Log Op Op.Res) (k : Nat) : Prop :=
  ⟨.returnCore, .ok k⟩ ∈ log ∨ ⟨.beginHydration, .ok (some k)⟩ ∈ log

/-- Where a document comes from: the request, or the snapshots. -/
def Source (call : Call) (log : Log Op Op.Res) (doc : SearchDoc) : Prop :=
  (∃ docs, call = .request (.index docs) ∧ doc ∈ docs) ∨
    ∃ rows, ⟨.getSnapshots, .ok rows⟩ ∈ log ∧ ∃ row ∈ rows, doc ∈ row.docs

def Exported (log : Log Op Op.Res) (row : SealedSnapshot) : Prop :=
  row.docs ≠ [] ∧ (∀ d ∈ row.docs, d.convId = row.convId) ∧ ∃ k later earlier,
    log = later ++ ⟨.exportConversation k row.convId, .ok row.docs⟩ :: earlier ∧
      ⟨.returnCore, .ok k⟩ ∈ earlier

/-- The document is not in the map, or no longer. -/
def Gone (k : Nat) (id : String) (log : Log Op Op.Res) : Prop :=
  ⟨.look k id, .ok none⟩ ∈ log ∨ ⟨.docsDelete k id, .ok ()⟩ ∈ log

/-- What is left of a shred's log once it has listed the documents. -/
structure Shredding (convId : String) (log later : Log Op Op.Res) (k : Nat) (ids : List String) : Prop where
  listed : ∃ middle earlier,
    log = later ++ ⟨.listIds k convId, .ok ids⟩ :: (middle ++ ⟨.returnCore, .ok k⟩ :: earlier)
  gone : ∀ id ∈ ids, Gone k id later

def Shredded (convId : String) (log : Log Op Op.Res) : Prop :=
  ∃ later k ids, Shredding convId log later k ids ∧ ⟨.deleteSnapshot convId, .ok ()⟩ ∈ later

def Wiped (log : Log Op Op.Res) : Prop :=
  ∃ k later earlier, log = later ++ ⟨.replaceCore, .ok k⟩ :: earlier ∧
    ⟨.clearSnapshots, .ok ()⟩ ∈ later

/-- What was done for a result. -/
def Earned (call : Call) (log : Log Op Op.Res) : Result → Prop
  | .shredded _ => ∀ convId, call = .request (.shred convId) → Shredded convId log
  | .wiped => Wiped log
  | _ => True

/-- What may follow an operation directly: a document that was taken out of the database is taken
out of the map or put in again, and one that was put in is put into the map. -/
def Next : (op : Op) × op.Res → Op → Prop
  | ⟨.dbRemove k id, _⟩, op => op = .docsDelete k id ∨ ∃ doc, doc.id = id ∧ op = .dbInsert k doc
  | ⟨.dbInsert k doc, .ok _⟩, op => op = .docsSet k doc
  | ⟨.respond _, _⟩, _ => False
  | _, _ => True

/-- What must have come before an operation. -/
def Before (call : Call) (log : Log Op Op.Res) : Op → Prop
  | .dbRemove k _ => Holds log k
  | .dbInsert k doc => Holds log k ∧ Source call log doc
  | .docsSet k doc => Holds log k ∧ Source call log doc ∧
      ∃ rest, log = ⟨.dbInsert k doc, .ok ()⟩ :: rest
  | .docsDelete k id => Holds log k ∧ ∃ result rest, log = ⟨.dbRemove k id, result⟩ :: rest
  | .putSnapshot row => Exported log row
  | .respond (.ok result) => Earned call log result
  | _ => True

structure law (call : Call) (log : Log Op Op.Res) (op : Op) : Prop where
  next : ∀ x rest, log = x :: rest → Next x op
  before : Before call log op

section Programs

variable {permits : History → Event → Prop} {req : Call} {α β : Type}

abbrev Obeys (permits : History → Event → Prop) (req : Call) (pre : Log Op Op.Res → Prop) (p : Prog α)
    (post : Except JsError α → Log Op Op.Res → Prop) : Prop :=
  Async.Follows service permits law req pre p post

/-- No document is between the database and the map. -/
def Idle (log : Log Op Op.Res) : Prop :=
  ∀ x rest, log = x :: rest → ∀ op, Next x op

/-- What a call knows between its changes. -/
def Known (K : Log Op Op.Res → Prop) (log : Log Op Op.Res) : Prop :=
  Idle log ∧ K log

/-- What is known stays known. -/
def Grows (K : Log Op Op.Res → Prop) : Prop :=
  ∀ x log, K log → K (x :: log)

theorem idle_nil : Idle [] :=
  fun _ _ isCons => by cases isCons

theorem idle_cons {x : (op : Op) × op.Res} {log : Log Op Op.Res} (free : ∀ op, Next x op) :
    Idle (x :: log) := by
  intro y rest isCons
  obtain ⟨rfl, _⟩ := List.cons.inj isCons
  exact free

theorem Idle.law {log : Log Op Op.Res} (idle : Idle log) {op : Op} (before : Before req log op) :
    law req log op :=
  ⟨fun x rest isCons => idle x rest isCons op, before⟩

/-- One operation, and what it leaves behind. -/
theorem obeys_op {op : Op} {pre : Log Op Op.Res → Prop} {post : op.Res → Log Op Op.Res → Prop}
    (step : ∀ log, pre log → law req log op ∧
      ∀ s result s' t, Exec t s op result s' → post result (⟨op, result⟩ :: log)) :
    Obeys permits req pre (call op) post := by
  intro t j start
  exact safe_op (fun log known => ⟨(step log known).1, fun s result s' exec =>
    (step log known).2 s result s' t exec⟩) start

/-- The operations that may come anywhere. -/
def Quiet : Op → Prop
  | .dbRemove .. | .dbInsert .. | .docsSet .. | .docsDelete .. | .putSnapshot _ | .respond _ => False
  | _ => True

theorem Quiet.next {op : Op} (quiet : Quiet op) (result : op.Res) (op' : Op) :
    Next ⟨op, result⟩ op' := by
  cases op <;> first | exact quiet.elim | trivial

theorem Quiet.before {op : Op} (quiet : Quiet op) (log : Log Op Op.Res) : Before req log op := by
  cases op <;> first | exact quiet.elim | trivial

variable {K : Log Op Op.Res → Prop}

theorem obeys_quiet (grows : Grows K) {p : Prog α} (uses : Uses Quiet p.run) :
    Obeys permits req (Known K) p fun _ => Known K := by
  refine follows_uses (fun op quiet log known => ?_) uses
  exact ⟨known.1.law (quiet.before log), fun result => ⟨idle_cons (quiet.next result), grows _ _ known.2⟩⟩

/-- A quiet operation, with its answer. -/
theorem obeys_call {op : Op} (quiet : Quiet op) {K' : op.Val → Log Op Op.Res → Prop}
    (grows : Grows K) (answers : ∀ s value s' t log, Exec t s op (.ok value) s' → K log →
      K' value (⟨op, .ok value⟩ :: log)) :
    Obeys permits req (Known K) (call op) fun result log =>
      Known K log ∧ ∀ value, result = .ok value → K' value log := by
  refine obeys_op fun log known => ⟨known.1.law (quiet.before log), fun s result s' t exec => ?_⟩
  refine ⟨⟨idle_cons (quiet.next result), grows _ _ known.2⟩, fun value isOk => ?_⟩
  subst isOk
  exact answers s value s' t log exec known.2

/-- A quiet operation, which is written down. -/
theorem obeys_told (op : Op) (quiet : Quiet op) (grows : Grows K) :
    Obeys permits req (Known K) (call op) fun result log =>
      Known K log ∧ ∀ value, result = .ok value → ⟨op, .ok value⟩ ∈ log :=
  obeys_call quiet grows fun _ _ _ _ _ _ _ => List.mem_cons_self

/-- The next part relies on what the first has answered. -/
theorem obeys_then {p : Prog α} {f : α → Prog β} {K' : α → Log Op Op.Res → Prop}
    {post : Except JsError β → Log Op Op.Res → Prop}
    (first : Obeys permits req (Known K) p fun result log =>
      Known K log ∧ ∀ value, result = .ok value → K' value log)
    (rest : ∀ value, Obeys permits req (Known fun log => K log ∧ K' value log) (f value) post)
    (failed : ∀ e log, Known K log → post (.error e) log) :
    Obeys permits req (Known K) (p >>= f) post := by
  refine follows_bind _ first (fun value => ?_) fun e log known => failed e log known.1
  refine (rest value).weaken (fun log known => ?_) fun _ _ => id
  exact ⟨known.1.1, known.1.2, known.2 value rfl⟩

theorem grows_and {K' : Log Op Op.Res → Prop} (grows : Grows K) (grows' : Grows K') :
    Grows fun log => K log ∧ K' log :=
  fun x log known => ⟨grows x log known.1, grows' x log known.2⟩

theorem grows_true : Grows fun _ => True :=
  fun _ _ => id

theorem grows_mem (x : (op : Op) × op.Res) : Grows fun log => x ∈ log :=
  fun _ _ => List.mem_cons_of_mem _

theorem grows_source (doc : SearchDoc) : Grows fun log => Source req log doc :=
  fun _ _ known => known.imp_right fun ⟨rows, read, row⟩ => ⟨rows, List.mem_cons_of_mem _ read, row⟩

theorem grows_suffix (base : Log Op Op.Res) : Grows fun log => base <:+ log :=
  fun x _ known => known.trans (List.suffix_cons x _)

theorem obeys_weaken {pre pre' : Log Op Op.Res → Prop} {p : Prog α}
    {post : Except JsError α → Log Op Op.Res → Prop} (obeys : Obeys permits req pre p post)
    (before : ∀ log, pre' log → pre log) : Obeys permits req pre' p post :=
  Async.Follows.weaken obeys before fun _ _ => id

theorem obeys_exists {ι : Type} {pre : ι → Log Op Op.Res → Prop} {p : Prog α}
    {post : Except JsError α → Log Op Op.Res → Prop} (obeys : ∀ i, Obeys permits req (pre i) p post) :
    Obeys permits req (fun log => ∃ i, pre i log) p post := by
  rintro t j ⟨running, i, known⟩
  exact obeys i t j ⟨running, known⟩

/-! `searchCore.ts` -/

/-- The document with this id was just taken out of the database. -/
def Taken (k : Nat) (id : String) (log : Log Op Op.Res) : Prop :=
  ∃ result rest, log = ⟨.dbRemove k id, result⟩ :: rest

theorem Taken.next {k : Nat} {id : String} {log : Log Op Op.Res} (taken : Taken k id log) {op : Op}
    (allowed : op = .docsDelete k id ∨ ∃ doc : SearchDoc, doc.id = id ∧ op = .dbInsert k doc) :
    ∀ x rest, log = x :: rest → Next x op := by
  rintro x rest isCons
  obtain ⟨result, rest', rfl⟩ := taken
  obtain ⟨rfl, _⟩ := List.cons.inj isCons
  exact allowed

variable {k : Nat}

theorem obeys_insert {doc : SearchDoc} (grows : Grows K) (holds : ∀ log, K log → Holds log k)
    (source : ∀ log, K log → Source req log doc) :
    Obeys permits req (fun log => (Idle log ∨ Taken k doc.id log) ∧ K log) (insert k doc)
      fun _ => Known K := by
  let inserted (result : Except JsError Unit) (log : Log Op Op.Res) : Prop :=
    K log ∧ match result with
      | .ok _ => ∃ rest, log = ⟨.dbInsert k doc, .ok ()⟩ :: rest
      | .error _ => Idle log
  have inserts : Obeys permits req (fun log => (Idle log ∨ Taken k doc.id log) ∧ K log)
      (call (.dbInsert k doc)) inserted := by
    refine obeys_op fun log known => ⟨⟨?_, holds log known.2, source log known.2⟩, ?_⟩
    · rcases known.1 with idle | taken
      · exact fun x rest isCons => idle x rest isCons _
      · exact taken.next (.inr ⟨doc, rfl, rfl⟩)
    · intro s result s' t exec
      refine ⟨grows _ _ known.2, ?_⟩
      cases result with
      | ok value => exact ⟨log, rfl⟩
      | error e => exact idle_cons fun _ => trivial
  have sets : Obeys permits req (inserted (.ok ())) (call (.docsSet k doc)) fun _ => Known K := by
    refine obeys_op fun log known => ⟨⟨?_, holds log known.1, source log known.1, known.2⟩, ?_⟩
    · rintro x rest isCons
      obtain ⟨rest', rfl⟩ := known.2
      obtain ⟨rfl, _⟩ := List.cons.inj isCons
      rfl
    · intro s result s' t exec
      exact ⟨idle_cons fun _ => trivial, grows _ _ known.1⟩
  refine follows_bind inserted inserts (fun _ => ?_) fun e log known => ⟨known.2, known.1⟩
  exact follows_bind _ sets (fun _ => follows_pure fun _ => id) fun _ _ => id

theorem Exec.dbRemove {t : Nat} {s s' : Worker} {id : String} {result : Except JsError Unit}
    (exec : Exec t s (.dbRemove k id) result s') : result = .ok () := by
  obtain ⟨a, performed⟩ := exec
  simp only [perform, Op.canFail, Bool.and_false] at performed
  split at performed
  · cases performed
  · exact (Prod.mk.inj (Option.some.inj performed)).1.symm

theorem obeys_dbRemove {id : String} (grows : Grows K) (holds : ∀ log, K log → Holds log k) :
    Obeys permits req (Known K) (call (.dbRemove k id)) fun result log =>
      result = .ok () ∧ Taken k id log ∧ K log := by
  refine obeys_op fun log known => ⟨known.1.law (holds log known.2), ?_⟩
  intro s result s' t exec
  exact ⟨exec.dbRemove, ⟨result, log, rfl⟩, grows _ _ known.2⟩

theorem obeys_docsDelete {id : String} (grows : Grows K) (holds : ∀ log, K log → Holds log k) :
    Obeys permits req (fun log => Taken k id log ∧ K log) (call (.docsDelete k id))
      fun result log => Known K log ∧ ∃ rest, log = ⟨.docsDelete k id, result⟩ :: rest ∧ K rest := by
  refine obeys_op fun log known => ⟨⟨known.1.next (.inl rfl), holds log known.2, known.1⟩, ?_⟩
  intro s result s' t exec
  exact ⟨⟨idle_cons fun _ => trivial, grows _ _ known.2⟩, log, rfl, known.2⟩

theorem obeys_look (grows : Grows K) (id : String) :
    Obeys permits req (Known K) (call (.look k id)) fun result log => Known K log ∧
      ∀ value, result = .ok value → ∃ rest, log = ⟨.look k id, .ok value⟩ :: rest ∧ K rest := by
  refine obeys_op fun log known => ⟨known.1.law trivial, ?_⟩
  intro s result s' t exec
  refine ⟨⟨idle_cons fun _ => trivial, grows _ _ known.2⟩, fun value isOk => ?_⟩
  exact ⟨log, isOk ▸ rfl, known.2⟩

theorem obeys_add {doc : SearchDoc} (grows : Grows K) (holds : ∀ log, K log → Holds log k)
    (source : ∀ log, K log → Source req log doc) :
    Obeys permits req (Known K) (add k doc) fun _ => Known K := by
  have ends (changed : Bool) : Obeys permits req (Known K) (pure changed) fun _ => Known K :=
    follows_pure fun _ => id
  have inserts : Obeys permits req (fun log => (Idle log ∨ Taken k doc.id log) ∧ K log) (insert k doc)
      fun _ => Known K := obeys_insert grows holds source
  have looks : Obeys permits req (Known K) (call (.look k doc.id)) fun _ => Known K :=
    (obeys_look grows doc.id).weaken (fun _ => id) fun _ _ known => known.1
  refine follows_bind _ looks (fun existing => ?_) fun _ _ => id
  cases existing with
  | none =>
      dsimp only
      split
      · exact ends false
      · exact obeys_weaken inserts fun log known => ⟨.inl known.1, known.2⟩
  | some existing =>
      dsimp only
      split
      · exact ends false
      · refine follows_bind _ (obeys_dbRemove grows holds) (fun _ => ?_) fun _ _ known => by cases known.1
        split
        · refine follows_bind (fun _ => Known K) ?_ (fun _ => ends true) fun _ _ => id
          exact (obeys_docsDelete grows holds).weaken (fun _ known => known.2) fun _ _ known => known.1
        · exact obeys_weaken inserts fun log known => ⟨.inr known.2.1, known.2.2⟩

theorem obeys_addAll {docs : List SearchDoc} (grows : Grows K) (holds : ∀ log, K log → Holds log k)
    (source : ∀ doc ∈ docs, ∀ log, K log → Source req log doc) :
    Obeys permits req (Known K) (addAll k docs) fun _ => Known K := by
  induction docs with
  | nil => exact follows_pure fun _ => id
  | cons doc rest ih =>
      have first : Obeys permits req (Known K) (add k doc) fun _ => Known K :=
        obeys_add grows holds (source doc List.mem_cons_self)
      have others := ih fun doc member => source doc (List.mem_cons_of_mem _ member)
      refine follows_bind _ first (fun _ => ?_) fun _ _ => id
      exact follows_bind _ others (fun _ => follows_pure fun _ => id) fun _ _ => id

/-- The document is not in the map, as was seen since. -/
def GoneSince (base : Log Op Op.Res) (k : Nat) (id : String) (log : Log Op Op.Res) : Prop :=
  ∃ later, log = later ++ base ∧ Gone k id later

theorem grows_goneSince (base : Log Op Op.Res) (id : String) : Grows (GoneSince base k id) := by
  rintro x log ⟨later, rfl, gone⟩
  exact ⟨x :: later, rfl, gone.imp (List.mem_cons_of_mem _) (List.mem_cons_of_mem _)⟩

theorem goneSince_cons {base rest : Log Op Op.Res} {id : String} {x : (op : Op) × op.Res}
    (since : base <:+ rest) (gone : Gone k id [x]) : GoneSince base k id (x :: rest) := by
  obtain ⟨later, rfl⟩ := since
  refine ⟨x :: later, rfl, ?_⟩
  exact gone.imp (fun here => List.mem_cons.mpr (.inl (List.mem_singleton.mp here)))
    fun here => List.mem_cons.mpr (.inl (List.mem_singleton.mp here))

theorem obeys_delete {base : Log Op Op.Res} {id : String} (grows : Grows K)
    (holds : ∀ log, K log → Holds log k) (since : ∀ log, K log → base <:+ log) :
    Obeys permits req (Known K) (delete k id) fun result log => Known K log ∧
      ∀ removed, result = .ok removed → GoneSince base k id log := by
  refine follows_bind _ (obeys_look grows id) (fun existing => ?_) fun _ _ known => ⟨known.1, fun _ => nofun⟩
  cases existing with
  | none =>
      refine follows_pure fun log known => ⟨known.1, fun _ _ => ?_⟩
      obtain ⟨rest, rfl, before⟩ := known.2 none rfl
      exact goneSince_cons (since rest before) (.inl List.mem_cons_self)
  | some existing =>
      have removes : Obeys permits req (Known K) (call (.dbRemove k id)) _ := obeys_dbRemove grows holds
      refine follows_bind _ (obeys_weaken removes fun _ known => known.1) (fun _ => ?_)
        fun _ _ known => by cases known.1
      refine follows_bind (fun result log => Known K log ∧
        ∃ rest, log = ⟨.docsDelete k id, result⟩ :: rest ∧ K rest) ?_ (fun _ => ?_)
        fun _ _ known => ⟨known.1, fun _ => nofun⟩
      · exact obeys_weaken (obeys_docsDelete grows holds) fun _ known => known.2
      · refine follows_pure fun log known => ⟨known.1, fun _ _ => ?_⟩
        obtain ⟨rest, rfl, before⟩ := known.2
        exact goneSince_cons (since rest before) (.inr List.mem_cons_self)

theorem obeys_deleteAll {base : Log Op Op.Res} {ids : List String} (grows : Grows K)
    (holds : ∀ log, K log → Holds log k) (since : ∀ log, K log → base <:+ log) :
    Obeys permits req (Known K) (deleteAll k ids) fun result log => Known K log ∧
      ∀ value, result = .ok value → ∀ id ∈ ids, GoneSince base k id log := by
  induction ids generalizing K with
  | nil => exact follows_pure fun log known => ⟨known, fun _ _ _ member => by cases member⟩
  | cons id rest ih =>
      refine obeys_then (obeys_delete grows holds since) (fun _ => ?_) fun _ _ known => ⟨known, fun _ => nofun⟩
      let K' (log : Log Op Op.Res) : Prop := K log ∧ GoneSince base k id log
      have grows' : Grows K' := grows_and grows (grows_goneSince base id)
      have others := ih (K := K') grows' (fun log known => holds log known.1)
        fun log known => since log known.1
      refine others.weaken (fun _ known => known) fun result log known => ⟨⟨known.1.1, known.1.2.1⟩, ?_⟩
      intro value isOk id' member
      rcases List.mem_cons.mp member with rfl | later
      · exact known.1.2.2
      · exact known.2 value isOk id' later

/-! `snapshotStore.ts` -/

/-- Between the quiet operations of a call nothing else is known to change. -/
theorem obeys_only {op : Op} (grows : Grows K) (quiet : Quiet op) :
    Obeys permits req (Known K) (call op) fun _ => Known K :=
  obeys_quiet grows (uses_call quiet)

theorem uses_makeKey : Uses Quiet makeKey.run := by
  refine uses_throwing_bind (uses_call trivial) fun stored => ?_
  cases stored with
  | some key => exact uses_throwing_pure
  | none =>
      refine uses_throwing_bind (uses_call trivial) fun key => ?_
      exact uses_throwing_bind (uses_call trivial) fun _ => uses_throwing_pure

theorem uses_snapshotKey : Uses Quiet snapshotKey.run := by
  refine uses_throwing_bind (uses_call trivial) fun turn => ?_
  cases turn with
  | wait promise => exact uses_call trivial
  | make promise =>
      refine uses_throwing_bind (uses_settle uses_makeKey) fun result => ?_
      exact uses_throwing_bind (uses_call trivial) fun _ => uses_lift

theorem obeys_openSnapshots (grows : Grows K) (key : Nat) (rows : List SealedSnapshot) :
    Obeys permits req (Known K) (openSnapshots key rows) fun result log => Known K log ∧
      ∀ docs, result = .ok docs → ∀ doc ∈ docs, ∃ row ∈ rows, doc ∈ row.docs := by
  induction rows with
  | nil =>
      refine follows_pure fun log known => ⟨known, fun docs isOk doc member => ?_⟩
      obtain rfl := Except.ok.inj isOk
      cases member
  | cons row rest ih =>
      unfold openSnapshots
      split
      · refine follows_bind _ ih (fun docs => ?_) fun e log known => ⟨known.1, fun _ => nofun⟩
        refine follows_pure fun log known => ⟨known.1, fun all isOk doc member => ?_⟩
        obtain rfl := Except.ok.inj isOk
        rcases List.mem_append.mp member with here | later
        · exact ⟨row, List.mem_cons_self, here⟩
        · obtain ⟨row', isRow, inRow⟩ := known.2 docs rfl doc later
          exact ⟨row', List.mem_cons_of_mem _ isRow, inRow⟩
      · have removes : Obeys permits req (Known K) (call (.deleteSnapshot row.convId)) fun _ => Known K :=
          obeys_only grows trivial
        refine follows_bind _ removes (fun _ => ?_) fun e log known => ⟨known, fun _ => nofun⟩
        refine ih.weaken (fun _ => id) fun result log known => ⟨known.1, fun docs isOk doc member => ?_⟩
        obtain ⟨row', isRow, inRow⟩ := known.2 docs isOk doc member
        exact ⟨row', List.mem_cons_of_mem _ isRow, inRow⟩

theorem obeys_loadAllSnapshots (grows : Grows K) :
    Obeys permits req (Known K) loadAllSnapshots fun result log => Known K log ∧
      ∀ docs, result = .ok docs → ∀ doc ∈ docs, Source req log doc := by
  let Read (rows : List SealedSnapshot) (log : Log Op Op.Res) : Prop :=
    K log ∧ ⟨.getSnapshots, .ok rows⟩ ∈ log
  have reads : Obeys permits req (Known K) (call .getSnapshots) fun result log => Known K log ∧
      ∀ rows, result = .ok rows → ⟨.getSnapshots, .ok rows⟩ ∈ log :=
    obeys_told _ trivial grows
  refine obeys_then reads (fun rows => ?_) fun _ _ known => ⟨known, fun _ => nofun⟩
  have grows' : Grows (Read rows) := grows_and grows (grows_mem _)
  have keys : Obeys permits req (Known (Read rows)) snapshotKey fun _ => Known (Read rows) :=
    obeys_quiet grows' uses_snapshotKey
  refine follows_bind _ keys (fun key => ?_) fun _ _ known => ⟨⟨known.1, known.2.1⟩, fun _ => nofun⟩
  refine (obeys_openSnapshots grows' key rows).weaken (fun _ => id) fun result log known => ?_
  refine ⟨⟨known.1.1, known.1.2.1⟩, fun docs isOk doc member => ?_⟩
  exact .inr ⟨rows, known.1.2.2, known.2 docs isOk doc member⟩

/-! `search.worker.ts` -/

theorem obeys_hydrate (grows : Grows K) (holds : ∀ log, K log → Holds log k) :
    Obeys permits req (Known K) (hydrate k) fun _ => Known K := by
  refine obeys_then (obeys_loadAllSnapshots grows) (fun docs => ?_) fun _ _ => id
  let K' (log : Log Op Op.Res) : Prop := K log ∧ ∀ doc ∈ docs, Source req log doc
  have grows' : Grows K' := grows_and grows fun x log known doc member =>
    grows_source doc x log (known doc member)
  have adds : Obeys permits req (Known K') (addAll k docs) fun _ => Known K' :=
    obeys_addAll grows' (fun log known => holds log known.1) fun doc member log known => known.2 doc member
  refine follows_bind (fun _ => Known K) ?_ (fun _ => follows_pure fun _ => id) fun _ _ => id
  exact adds.weaken (fun _ => id) fun _ _ known => ⟨known.1, known.2.1⟩

/-- What is known once the call has got a core. -/
def Cored (K : Log Op Op.Res → Prop) (result : Except JsError Nat) (log : Log Op Op.Res) : Prop :=
  Known K log ∧ ∀ k, result = .ok k → ⟨.returnCore, .ok k⟩ ∈ log

theorem obeys_returnCore (grows : Grows K) :
    Obeys permits req (Known K) (do
      call .awaitHydrated
      call .returnCore : Prog Nat) (Cored K) := by
  refine follows_bind _ (obeys_only grows trivial) (fun _ => ?_) fun _ _ known => ⟨known, fun _ => nofun⟩
  exact obeys_told _ trivial grows

theorem obeys_beginHydration (grows : Grows K) :
    Obeys permits req (Known K) (do
      match ← call .beginHydration with
      | some k =>
          let _ ← settle (hydrate k)
          call .finishHydration
          call .awaitHydrated
          call .returnCore
      | none =>
          call .awaitHydrated
          call .returnCore : Prog Nat) (Cored K) := by
  have begins : Obeys permits req (Known K) (call .beginHydration) fun result log => Known K log ∧
      ∀ begun, result = .ok begun → ⟨.beginHydration, .ok begun⟩ ∈ log :=
    obeys_told _ trivial grows
  refine obeys_then begins (fun begun => ?_) fun _ _ known => ⟨known, fun _ => nofun⟩
  let K' (log : Log Op Op.Res) : Prop := K log ∧ ⟨.beginHydration, .ok begun⟩ ∈ log
  have grows' : Grows K' := grows_and grows (grows_mem _)
  have returns : Obeys permits req (Known K') (do
      call .awaitHydrated
      call .returnCore : Prog Nat) (Cored K) :=
    (obeys_returnCore grows').weaken (fun _ => id) fun _ _ known => ⟨⟨known.1.1, known.1.2.1⟩, known.2⟩
  have left (e : JsError) (log : Log Op Op.Res) (known : Known K' log) : Cored K (.error e) log :=
    ⟨⟨known.1, known.2.1⟩, fun _ => nofun⟩
  cases begun with
  | none => exact returns
  | some k =>
      have body : Obeys permits req (Known K') (hydrate k) fun _ => Known K' :=
        obeys_hydrate grows' fun log known => .inr known.2
      refine follows_bind (fun _ => Known K') (follows_settle body) (fun _ => ?_) left
      exact follows_bind (fun _ => Known K') (obeys_only grows' trivial) (fun _ => returns) left

theorem obeys_ensureCore (grows : Grows K) : Obeys permits req (Known K) ensureCore (Cored K) := by
  have quietly (op : Op) (quiet : Quiet op) : Obeys permits req (Known K) (call op) fun _ => Known K :=
    obeys_only grows quiet
  have left (e : JsError) (log : Log Op Op.Res) (known : Known K log) : Cored K (.error e) log :=
    ⟨known, fun _ => nofun⟩
  refine follows_bind (fun _ => Known K) (quietly _ trivial) (fun there => ?_) left
  cases there with
  | true => exact obeys_beginHydration grows
  | false =>
      refine follows_bind (fun _ => Known K) (quietly _ trivial) (fun _ => ?_) left
      exact follows_bind (fun _ => Known K) (quietly _ trivial) (fun _ => obeys_beginHydration grows) left

theorem Exec.exportConversation {t : Nat} {s s' : Worker} {convId : String} {docs : List SearchDoc}
    (exec : Exec t s (.exportConversation k convId) (.ok docs) s') :
    docs = (s.cores k).exportConversation convId := by
  obtain ⟨a, performed⟩ := exec
  simp only [perform, Op.canFail, Bool.and_false] at performed
  split at performed
  · cases performed
  · exact (Except.ok.inj (Prod.mk.inj (Option.some.inj performed)).1).symm

theorem mem_exportConversation {core : SearchCore} {convId : String} {doc : SearchDoc} :
    doc ∈ core.exportConversation convId ↔ doc ∈ core.docs.rows ∧ doc.convId = convId := by
  simp [SearchCore.exportConversation]

theorem grows_exported (row : SealedSnapshot) : Grows fun log => Exported log row := by
  rintro x log ⟨some, filed, k, later, earlier, rfl, held⟩
  exact ⟨some, filed, k, x :: later, earlier, rfl, held⟩

theorem obeys_saveSnapshot {convId : String} {docs : List SearchDoc} (grows : Grows K)
    (exported : docs ≠ [] → ∀ log, K log → ∀ key, Exported log { convId, key, docs }) :
    Obeys permits req (Known K) (saveSnapshot convId docs) fun _ => Known K := by
  unfold saveSnapshot
  split
  · exact obeys_only grows trivial
  next some =>
    refine follows_bind (fun _ => Known K) (obeys_quiet grows uses_snapshotKey) (fun key => ?_) fun _ _ => id
    refine obeys_op fun log known => ⟨known.1.law (exported some log known.2 key), ?_⟩
    intro s result s' t exec
    exact ⟨idle_cons fun _ => trivial, grows _ _ known.2⟩

theorem obeys_saveAll {convIds : List String} (grows : Grows K)
    (holds : ∀ log, K log → ⟨.returnCore, .ok k⟩ ∈ log) :
    Obeys permits req (Known K) (saveAll k convIds) fun _ => Known K := by
  induction convIds with
  | nil => exact follows_pure fun _ => id
  | cons convId rest ih =>
      let Ready (docs : List SearchDoc) (log : Log Op Op.Res) : Prop :=
        docs ≠ [] → ∀ key, Exported log { convId, key, docs }
      have grows' (docs : List SearchDoc) : Grows fun log => K log ∧ Ready docs log :=
        grows_and grows fun x log ready some key => grows_exported _ x log (ready some key)
      have exports : Obeys permits req (Known K) (call (.exportConversation k convId)) fun result log =>
          Known K log ∧ ∀ docs, result = .ok docs → Ready docs log := by
        have quiet : Quiet (.exportConversation k convId) := trivial
        refine obeys_call quiet grows fun s docs s' t log exec known some key => ?_
        refine ⟨some, fun doc member => ?_, k, [], log, rfl, holds log known⟩
        rw [exec.exportConversation] at member
        exact (mem_exportConversation.mp member).2
      have saves : Obeys permits req (Known K)
          (do saveSnapshot convId (← call (.exportConversation k convId)) : Prog Unit) fun _ => Known K := by
        refine obeys_then exports (fun docs => ?_) fun _ _ => id
        have saved : Obeys permits req (Known fun log => K log ∧ Ready docs log)
            (saveSnapshot convId docs) fun _ => Known fun log => K log ∧ Ready docs log :=
          obeys_saveSnapshot (grows' docs) fun some log known => known.2 some
        exact saved.weaken (fun _ => id) fun _ _ known => ⟨known.1, known.2.1⟩
      refine follows_bind (fun _ => Known K) ?_ (fun _ => ih) fun _ _ => id
      exact follows_tryCatch (fun _ => Known K) saves (fun _ _ => id) fun _ => obeys_only grows trivial

theorem obeys_deleteConversation {convId : String} (grows : Grows K)
    (holds : ∀ log, K log → ⟨.returnCore, .ok k⟩ ∈ log) :
    Obeys permits req (Known K) (deleteConversation k convId) fun result log => Known K log ∧
      ∀ removed, result = .ok removed → ∃ later ids, Shredding convId log later k ids := by
  let Listed (ids : List String) (log : Log Op Op.Res) : Prop :=
    ∃ rest, log = ⟨.listIds k convId, .ok ids⟩ :: rest ∧ K rest
  have lists : Obeys permits req (Known K) (call (.listIds k convId)) fun result log => Known K log ∧
      ∀ ids, result = .ok ids → Listed ids log := by
    refine obeys_op fun log known => ⟨known.1.law trivial, fun s result s' t exec => ?_⟩
    exact ⟨⟨idle_cons fun _ => trivial, grows _ _ known.2⟩, fun ids isOk => ⟨log, isOk ▸ rfl, known.2⟩⟩
  refine follows_bind _ lists (fun ids => ?_) fun _ _ known => ⟨known.1, fun _ => nofun⟩
  -- what is deleted from here on is deleted since the listing
  have from_base (base : Log Op Op.Res) : Obeys permits req
      (fun log => Known K log ∧ log = base ∧ Listed ids base)
      (do
        deleteAll k ids
        return ids.length : Prog Nat) fun result log => Known K log ∧
          ∀ removed, result = .ok removed → ∃ later ids, Shredding convId log later k ids := by
    let K' (log : Log Op Op.Res) : Prop := K log ∧ base <:+ log ∧ Listed ids base
    have grows' : Grows K' := fun x log known =>
      ⟨grows x log known.1, grows_suffix base x log known.2.1, known.2.2⟩
    have deletes : Obeys permits req (Known K') (deleteAll k ids) fun result log => Known K' log ∧
        ∀ value, result = .ok value → ∀ id ∈ ids, GoneSince base k id log :=
      obeys_deleteAll grows' (fun log known => .inl (holds log known.1)) fun log known => known.2.1
    have begun : Obeys permits req (fun log => Known K log ∧ log = base ∧ Listed ids base)
        (deleteAll k ids) _ := obeys_weaken deletes fun log known =>
          ⟨known.1.1, known.1.2, known.2.1 ▸ List.suffix_refl _, known.2.2⟩
    refine follows_bind _ begun (fun _ => ?_) fun _ _ known => ⟨⟨known.1.1, known.1.2.1⟩, fun _ => nofun⟩
    refine follows_pure fun log known => ⟨⟨known.1.1, known.1.2.1⟩, fun _ _ => ?_⟩
    obtain ⟨⟨_, _, ⟨later, rfl⟩, rest, rfl, before⟩, gone⟩ := known
    obtain ⟨middle, earlier, isRest⟩ := List.append_of_mem (holds rest before)
    refine ⟨later, ids, ⟨middle, earlier, by rw [isRest]⟩, fun id member => ?_⟩
    obtain ⟨later', same, isGone⟩ := gone () rfl id member
    exact List.append_cancel_right same ▸ isGone
  refine (obeys_exists from_base).weaken (fun log known => ?_) fun _ _ => id
  exact ⟨log, known.1, rfl, known.2 ids rfl⟩

/-- What is known at the end of a call. -/
def Finished (req : Call) (result : Except JsError Result) (log : Log Op Op.Res) : Prop :=
  Idle log ∧ ∀ r, result = .ok r → Earned req log r

theorem obeys_shred {convId : String} (isCall : req = .request (.shred convId)) (grows : Grows K)
    (holds : ∀ log, K log → ⟨.returnCore, .ok k⟩ ∈ log) :
    Obeys permits req (Known K) (do
      let removed ← deleteConversation k convId
      call (.dirtyDelete convId)
      call (.deleteSnapshot convId)
      return .shredded removed : Prog Result) (Finished req) := by
  let Deleting (log : Log Op Op.Res) : Prop := ∃ later ids, Shredding convId log later k ids
  have grows' : Grows Deleting := by
    rintro x log ⟨later, ids, ⟨middle, earlier, rfl⟩, gone⟩
    refine ⟨x :: later, ids, ⟨middle, earlier, rfl⟩, fun id member => ?_⟩
    exact (gone id member).imp (List.mem_cons_of_mem _) (List.mem_cons_of_mem _)
  have deletes : Obeys permits req (Known K) (deleteConversation k convId) fun result log =>
      Known K log ∧ ∀ removed : Nat, result = .ok removed → Deleting log :=
    obeys_deleteConversation grows holds
  refine obeys_then deletes (fun removed => ?_) fun _ _ known => ⟨known.1, fun _ => nofun⟩
  have both : Grows fun log => K log ∧ Deleting log := grows_and grows grows'
  refine follows_bind (fun _ => Known fun log => K log ∧ Deleting log) (obeys_only both trivial)
    (fun _ => ?_) fun _ _ known => ⟨known.1, fun _ => nofun⟩
  let Over (result : Except JsError Unit) (log : Log Op Op.Res) : Prop :=
    Idle log ∧ ∀ value, result = .ok value → Shredded convId log
  have removes : Obeys permits req (Known fun log => K log ∧ Deleting log)
      (call (.deleteSnapshot convId)) Over := by
    refine obeys_op fun log known => ⟨known.1.law trivial, fun s result s' t exec => ?_⟩
    refine ⟨idle_cons fun _ => trivial, fun value isOk => ?_⟩
    subst isOk
    obtain ⟨_, _, later, ids, ⟨middle, earlier, isLog⟩, gone⟩ := known
    refine ⟨⟨.deleteSnapshot convId, .ok ()⟩ :: later, k, ids, ⟨⟨middle, earlier, ?_⟩, ?_⟩,
      List.mem_cons_self⟩
    · rw [isLog]
      rfl
    · exact fun id member => (gone id member).imp (List.mem_cons_of_mem _) (List.mem_cons_of_mem _)
  refine follows_bind Over removes (fun _ => ?_) fun _ _ known => ⟨known.1, fun _ => nofun⟩
  refine follows_pure fun log known => ⟨known.1, fun r isOk => ?_⟩
  obtain rfl := Except.ok.inj isOk
  intro convId' isShred
  obtain ⟨⟩ := isCall.symm.trans isShred
  exact known.2 () rfl

theorem obeys_wipe : Obeys permits req (Known fun _ => True) (do
    call .createCore
    let _ ← call .replaceCore
    call .dirtyClear
    wipeSearchStore
    return .wiped : Prog Result) (Finished req) := by
  have quietly (op : Op) (quiet : Quiet op) :
      Obeys permits req (Known fun _ => True) (call op) fun _ => Known fun _ => True :=
    obeys_only grows_true quiet
  have left (e : JsError) (log : Log Op Op.Res) (idle : Idle log) : Finished req (.error e) log :=
    ⟨idle, fun _ => nofun⟩
  refine follows_bind _ (quietly _ trivial) (fun _ => ?_) fun e log known => left e log known.1
  have replaces : Obeys permits req (Known fun _ => True) (call .replaceCore) fun result log =>
      Known (fun _ => True) log ∧ ∀ k, result = .ok k → ⟨.replaceCore, .ok k⟩ ∈ log :=
    obeys_told _ trivial grows_true
  refine obeys_then replaces (fun k => ?_) fun e log known => left e log known.1
  let Replaced (log : Log Op Op.Res) : Prop := True ∧ ⟨.replaceCore, .ok k⟩ ∈ log
  have grows : Grows Replaced := grows_and grows_true (grows_mem _)
  refine follows_bind (fun _ => Known Replaced) (obeys_only grows trivial) (fun _ => ?_)
    fun e log known => left e log known.1
  have grows_wiped : Grows Wiped := by
    rintro x log ⟨k, later, earlier, rfl, cleared⟩
    exact ⟨k, x :: later, earlier, rfl, List.mem_cons_of_mem _ cleared⟩
  have clears : Obeys permits req (Known Replaced) (call .clearSnapshots) fun result log =>
      Known Replaced log ∧ ∀ value, result = .ok value → Wiped log := by
    have quiet : Quiet .clearSnapshots := trivial
    refine obeys_call quiet grows fun s value s' t log exec replaced => ?_
    obtain ⟨later, earlier, rfl⟩ := List.append_of_mem replaced.2
    exact ⟨k, _, earlier, List.cons_append.symm, List.mem_cons_self⟩
  have wipes : Obeys permits req (Known Replaced) wipeSearchStore fun result log =>
      Idle log ∧ ∀ value, result = .ok value → Wiped log := by
    refine obeys_then clears (fun _ => ?_) fun _ _ known => ⟨known.1, fun _ => nofun⟩
    have all : Grows fun log => Replaced log ∧ Wiped log := grows_and grows grows_wiped
    refine follows_bind (fun _ => Known fun log => Replaced log ∧ Wiped log) (obeys_only all trivial)
      (fun _ => ?_) fun _ _ known => ⟨known.1, fun _ => nofun⟩
    have forgets : Obeys permits req (Known fun log => Replaced log ∧ Wiped log) (call .forgetKey) _ :=
      obeys_only all trivial
    exact forgets.weaken (fun _ => id) fun _ _ known => ⟨known.1, fun _ _ => known.2.2⟩
  refine follows_bind _ wipes (fun _ => ?_) fun e log known => left e log known.1
  exact follows_pure fun log known => ⟨known.1, fun r isOk => Except.ok.inj isOk ▸ known.2 () rfl⟩

theorem obeys_handle (request : Request) :
    Obeys permits (.request request) (Known fun _ => True) (handle request)
      (Finished (.request request)) := by
  have left (e : JsError) (log : Log Op Op.Res) (idle : Idle log) :
      Finished (.request request) (.error e) log :=
    ⟨idle, fun _ => nofun⟩
  refine obeys_then (obeys_ensureCore grows_true) (fun k => ?_) fun e log known => left e log known.1
  let K (log : Log Op Op.Res) : Prop := True ∧ ⟨.returnCore, .ok k⟩ ∈ log
  have grows : Grows K := grows_and grows_true (grows_mem _)
  have holds (log : Log Op Op.Res) (known : K log) : Holds log k := .inl known.2
  have quietly (req : Call) (op : Op) (quiet : Quiet op) :
      Obeys permits req (Known K) (call op) fun _ => Known K :=
    obeys_only grows quiet
  have done (req : Call) (r : Result) (plain : ∀ log, Earned req log r) :
      Obeys permits req (Known K) (pure r) (Finished req) :=
    follows_pure fun log known => ⟨known.1, fun r' isOk => Except.ok.inj isOk ▸ plain log⟩
  cases request with
  | hydrate =>
      exact follows_bind _ (quietly _ _ trivial) (fun _ => done _ _ fun _ => trivial)
        fun e log known => left e log known.1
  | index docs =>
      have adds : Obeys permits (.request (.index docs)) (Known K) (addAll k docs) fun _ => Known K :=
        obeys_addAll grows holds fun doc member _ _ => .inl ⟨docs, rfl, member⟩
      refine follows_bind _ adds (fun changed => ?_) fun e log known => left e log known.1
      have ends : Obeys permits (.request (.index docs)) (Known K) (do
          return .indexed changed (← call (.size k)) : Prog Result) (Finished (.request (.index docs))) :=
        follows_bind _ (quietly _ _ trivial) (fun _ => done _ _ fun _ => trivial)
          fun e log known => left e log known.1
      dsimp only
      split
      · exact follows_bind _ (quietly _ _ trivial) (fun _ => ends) fun e log known => left e log known.1
      · exact ends
  | remove messageId =>
      refine follows_bind _ (quietly _ _ trivial) (fun convs => ?_) fun e log known => left e log known.1
      have deletes : Obeys permits (.request (.remove messageId)) (Known K) (delete k messageId)
          fun result log => Known K log ∧
            ∀ removed, result = .ok removed → GoneSince [] k messageId log :=
        obeys_delete grows holds fun log _ => List.nil_suffix
      refine follows_bind (fun _ => Known K) (deletes.weaken (fun _ => id) fun _ _ known => known.1)
        (fun removed => ?_) fun e log known => left e log known.1
      have ends : Obeys permits (.request (.remove messageId)) (Known K)
          (pure (.removed removed)) (Finished (.request (.remove messageId))) :=
        done _ _ fun _ => trivial
      split
      · exact follows_bind _ (quietly _ _ trivial) (fun _ => ends) fun e log known => left e log known.1
      · exact ends
  | shred convId => exact obeys_shred rfl grows fun _ known => known.2
  | wipe => exact obeys_weaken obeys_wipe fun _ known => ⟨known.1, trivial⟩

theorem obeys_persist : Obeys permits .persist (Known fun _ => True) persist (Finished .persist) := by
  have left (e : JsError) (log : Log Op Op.Res) (idle : Idle log) : Finished .persist (.error e) log :=
    ⟨idle, fun _ => nofun⟩
  have takes : Obeys permits .persist (Known fun _ => True) (call .takeBatch) fun _ =>
      Known fun _ => True := obeys_only grows_true trivial
  refine follows_bind _ takes (fun batch => ?_) fun e log known => left e log known.1
  refine obeys_then (obeys_ensureCore grows_true) (fun k => ?_) fun e log known => left e log known.1
  let K (log : Log Op Op.Res) : Prop := True ∧ ⟨.returnCore, .ok k⟩ ∈ log
  have saves : Obeys permits .persist (Known K) (saveAll k batch) fun _ => Known K :=
    obeys_saveAll (grows_and grows_true (grows_mem _)) fun _ known => known.2
  refine follows_bind _ saves (fun _ => ?_) fun e log known => left e log known.1
  exact follows_pure fun log known => ⟨known.1, fun r isOk => Except.ok.inj isOk ▸ trivial⟩

theorem obeys_respond {p : Prog Result} (body : Obeys permits req (Known fun _ => True) p (Finished req)) :
    Obeys permits req (fun log => log = []) (respond p) fun _ _ => True := by
  let Settled : Except JsError (Except JsError Result) → Log Op Op.Res → Prop
    | .ok result, log => Finished req result log
    | .error _, _ => True
  have settles : Obeys permits req (Known fun _ => True) (settle p) Settled := follows_settle body
  have settles' : Obeys permits req (fun log => log = []) (settle p) Settled := by
    refine obeys_weaken settles fun log isNil => ⟨?_, trivial⟩
    subst isNil
    exact idle_nil
  refine follows_bind _ settles' (fun result => ?_) fun _ _ _ => trivial
  refine obeys_op fun log finished => ⟨finished.1.law ?_, fun _ _ _ _ _ => trivial⟩
  cases result with
  | ok r => exact finished.2 r rfl
  | error e => trivial

end Programs

theorem follows {permits : History → Event → Prop} : service.Follows permits law := by
  intro req
  cases req with
  | request request => exact obeys_respond (obeys_handle request)
  | persist => exact obeys_respond obeys_persist
  | restart =>
      have restarts : Obeys permits .restart (fun log => log = []) (call .restart) fun _ _ => True := by
        refine obeys_op fun log isNil => ⟨⟨?_, trivial⟩, fun _ _ _ _ _ => trivial⟩
        intro x rest isCons
        rw [isNil] at isCons
        cases isCons
      exact restarts

end Search
