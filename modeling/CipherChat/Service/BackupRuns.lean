import CipherChat.Service.Backup

/-!
What the steps of the backup calls keep, and what a run of them leaves on the server.
-/

namespace Backup

open Primitives KeyStore Store E2EEService

variable {bytes : BackupPayload → Nat}

theorem Held.same {w w' : World} {b : Blob} (held : Held w b) (same : Same w w')
    (epoch : w'.blobEpoch = w.blobEpoch) (version : w'.blobVersion = w.blobVersion) : Held w' b where
  epoch := by
    have := held.epoch
    rw [epoch, same.uploads]
    exact this
  version := by
    have := held.version
    rw [version, same.changes]
    exact this
  key isEpoch code isCode := by
    rw [epoch, same.uploads] at isEpoch
    exact held.key isEpoch code (same.latest ▸ isCode)
  identity isVersion := by
    rw [version, same.changes] at isVersion
    rw [same.identity]
    exact held.identity isVersion
  sessions isVersion := by
    rw [version, same.changes] at isVersion
    rw [same.sessions]
    exact held.sessions isVersion

theorem Material.same {w w' : World} {m : BackupKeyMaterial} (material : Material w m)
    (same : Same w w') (epoch : w'.materialEpoch = w.materialEpoch) : Material w' m where
  epoch := by
    have := material.epoch
    rw [epoch, same.uploads]
    exact this
  key isEpoch code isCode := by
    rw [epoch, same.uploads] at isEpoch
    exact material.key isEpoch code (same.latest ▸ isCode)

theorem Call.Tells.started {w : World} {c : Call} (tells : c.Tells w) (isStart : c.stage = .start) :
    c.code = none := by
  by_contra some
  exact (tells.upload some).2.2.2 isStart

theorem Base.fresh (w : World) (noCall : w.calls = []) (noBlob : w.blob = none)
    (noKey : w.device.backupKey = none) (noCode : w.recovery = none) (noUpload : w.uploads = 0) :
    Base w where
  calls c member := by simp [noCall] at member
  held b isBlob := by simp [noBlob] at isBlob
  material m isKey := by simp [noKey] at isKey
  one := by simp [noCall]
  brought some := absurd noUpload some
  saved some := absurd noUpload some
  shown some := absurd noCode some

/-- A call in the list, and the calls before and after it. -/
theorem calls_split {w : World} {n : Nat} {c : Call} (found : w.calls[n]? = some c) :
    w.calls = w.calls.take n ++ c :: w.calls.drop (n + 1) := by
  obtain ⟨bound, rfl⟩ := List.getElem?_eq_some_iff.mp found
  rw [List.getElem_cons_drop, List.take_append_drop]

section Proceed

variable {w : World} {n : Nat} {c : Call}

/-- The calls when call `n` has become `next`. -/
def callsWith (w : World) (n : Nat) (next : Option Call) : List Call :=
  w.calls.take n ++ next.toList ++ w.calls.drop (n + 1)

theorem mem_callsWith {next : Option Call} {x : Call} :
    x ∈ callsWith w n next ↔
      x ∈ w.calls.take n ∨ x ∈ w.calls.drop (n + 1) ∨ x ∈ next := by
  simp only [callsWith, List.mem_append, Option.mem_toList]
  tauto

/-- Without a call under way that is an upload, there was none when this one was no upload. -/
theorem codes_of_callsWith (found : w.calls[n]? = some c) {next : Option Call}
    (same : ∀ c' ∈ next, c'.code = c.code) (isEnd : next = none → c.code = none)
    (none : ∀ x ∈ callsWith w n next, x.code = none) : ∀ x ∈ w.calls, x.code = Option.none := by
  intro x member
  rw [calls_split found] at member
  rcases List.mem_append.mp member with isFront | isRest
  · exact none x (mem_callsWith.mpr (.inl isFront))
  · rcases List.mem_cons.mp isRest with rfl | isBack
    · cases next with
      | none => exact isEnd rfl
      | some c' => rw [← same c' rfl, none c' (mem_callsWith.mpr (.inr (.inr rfl)))]
    · exact none x (mem_callsWith.mpr (.inr (.inl isBack)))

/-- A call that only reads. -/
theorem Base.reads (base : Base w) (found : w.calls[n]? = some c) {next : Option Call}
    (tells : ∀ c' ∈ next, c'.code = c.code ∧ c'.Tells w) (isEnd : next = none → c.code = none)
    (brings : c.Brings → ∃ c' ∈ next, c'.Brings) :
    Base { w with calls := callsWith w n next } := by
  have same : Same w { w with calls := callsWith w n next } := ⟨rfl, rfl, rfl, rfl, rfl⟩
  refine base.replace same (calls_split found) rfl tells ?_ ?_ ?_ ?_ ?_ base.shown
  · intro b isBlob
    exact (base.held b isBlob).same same rfl rfl
  · intro m isKey
    exact (base.material m isKey).same same rfl
  · intro some isEpoch
    exact ⟨some, isEpoch⟩
  · intro isBringing
    exact .inr (brings isBringing)
  · intro some none
    exact base.saved some (codes_of_callsWith found (fun c' isNext => (tells c' isNext).1) isEnd none)

/-- The server takes the blob of a call. -/
theorem Base.arrives (base : Base w) (found : w.calls[n]? = some c) {b : Blob}
    (isSending : c.stage = .sending b) (order : w.blob ≠ none → w.blobEpoch ≤ c.epoch) :
    Base { w with
      blob := some b, blobEpoch := c.epoch, blobVersion := c.version
      calls := callsWith w n (some { c with stage := .answered b }) } := by
  have member : c ∈ w.calls := List.mem_of_getElem? found
  have tells := base.calls c member
  have tells' : Call.Tells w { c with stage := .answered b } := by
    refine ⟨tells.epoch, tells.version, ?_, ?_, ?_, ?_⟩
    · intro m isMaterial
      exact tells.key m (by rw [isSending]; exact isMaterial)
    · intro i isIdentity
      exact tells.identity i (by rw [isSending]; exact isIdentity)
    · intro s isSessions
      exact tells.sessions s (by rw [isSending]; exact isSessions)
    · intro some
      obtain ⟨positive, isEpoch, isLatest, _⟩ := tells.upload some
      exact ⟨positive, isEpoch, isLatest, nofun⟩
  refine base.replace ⟨rfl, rfl, rfl, rfl, rfl⟩ (calls_split found) rfl ?_ ?_ ?_ ?_ ?_ ?_ base.shown
  · rintro c' ⟨⟩
    exact ⟨rfl, tells'⟩
  · rintro b' ⟨⟩
    refine ⟨tells.epoch, tells.version, ?_, ?_, ?_⟩
    · intro isEpoch
      exact tells.key _ (by rw [isSending]; rfl) isEpoch
    · intro isVersion
      exact tells.identity _ (by rw [isSending]; rfl) isVersion
    · intro isVersion
      exact tells.sessions _ (by rw [isSending]; rfl) isVersion
  · intro m isKey
    exact (base.material m isKey).same ⟨rfl, rfl, rfl, rfl, rfl⟩ rfl
  · intro some isEpoch
    have below := order some
    have most := tells.epoch
    refine ⟨nofun, ?_⟩
    change c.epoch = w.uploads
    omega
  · intro isBringing
    exact .inl ⟨nofun, (tells.upload isBringing.1).2.1⟩
  · intro some none
    have isEnd : Option.some { c with stage := .answered b } = Option.none → c.code = Option.none := nofun
    exact base.saved some (codes_of_callsWith found (by rintro c' ⟨⟩; rfl) isEnd none)

/-- An upload is done. -/
theorem Base.done (base : Base w) (found : w.calls[n]? = some c) {b : Blob} {code : String}
    (isAnswered : c.stage = .answered b) (isUpload : c.code = some code) :
    Base { w with
      device := { w.device with backupKey := some { salt := b.salt, key := b.key } }
      materialEpoch := c.epoch
      recovery := some code
      calls := callsWith w n none } := by
  have tells := base.calls c (List.mem_of_getElem? found)
  obtain ⟨positive, isEpoch, isLatest, _⟩ := tells.upload (by rw [isUpload]; nofun)
  have same : Same w { w with
      device := { w.device with backupKey := some { salt := b.salt, key := b.key } }
      materialEpoch := c.epoch
      recovery := some code
      calls := callsWith w n none } := ⟨rfl, rfl, rfl, rfl, rfl⟩
  refine base.replace same (calls_split found) rfl (by simp) ?_ ?_ ?_ ?_ ?_ ?_
  · intro b' isBlob
    exact (base.held b' isBlob).same same rfl rfl
  · rintro m ⟨⟩
    refine ⟨tells.epoch, ?_⟩
    intro isEpoch'
    exact tells.key _ (by rw [isAnswered]; rfl) isEpoch'
  · intro some isEpoch'
    exact ⟨some, isEpoch'⟩
  · intro isBringing
    exact absurd isAnswered (isBringing.2 b)
  · intro _ _
    exact ⟨isUpload.symm.trans isLatest, nofun⟩
  · intro _
    omega

/-- The blob held is from the latest upload, as far as uploads are done, and a blob with every change
is there or to come. -/
structure Sound (w : World) : Prop where
  base : Base w
  covered : w.uploads ≠ 0 → Covered w

theorem Sound.reads (sound : Sound w) (found : w.calls[n]? = some c) {next : Option Call}
    (tells : ∀ c' ∈ next, c'.code = c.code ∧ c'.Tells w) (isEnd : next = none → c.code = none)
    (brings : c.Brings → ∃ c' ∈ next, c'.Brings)
    (covers : w.uploads ≠ 0 → c.Covers w → ∃ c' ∈ callsWith w n next, c'.Covers w) :
    Sound { w with calls := callsWith w n next } where
  base := sound.base.reads found tells isEnd brings
  covered some := by
    refine covered_replace (w := w) ⟨rfl, rfl, rfl, rfl, rfl⟩ (calls_split found) rfl
      (sound.covered some) ?_ ?_
    · intro isBlob isVersion
      exact ⟨isBlob, isVersion⟩
    · intro isCovering
      exact .inr (covers some isCovering)

/-- A refresh that finds no key material is not missed: an upload that comes before it has the store
yet to read. -/
theorem Sound.unkeyed (sound : Sound w) (found : w.calls[n]? = some c) (isStart : c.stage = .start)
    (noKey : w.device.backupKey = none)
    (yet : ∀ c' ∈ w.calls, c'.code ≠ none → ∃ m, c'.stage = .keyed m) :
    Sound { w with calls := callsWith w n none } := by
  have noCode := (sound.base.calls c (List.mem_of_getElem? found)).started isStart
  have gone {P : Call → Prop} : ∀ c' ∈ (none : Option Call), P c' :=
    fun c' isNext => absurd isNext (Option.not_mem_none c')
  refine sound.reads found gone (fun _ => noCode) (fun brings => absurd noCode brings.1) ?_
  intro some _
  by_contra! missing
  refine (sound.base.saved some ?_).2 noKey
  refine codes_of_callsWith found gone (fun _ => noCode) ?_
  intro x member
  by_contra isUpload
  have isCall : x ∈ w.calls := by
    rcases mem_callsWith.mp member with isFront | isBack | isNext
    · exact List.mem_of_mem_take isFront
    · exact List.mem_of_mem_drop isBack
    · cases isNext
  obtain ⟨m, isKeyed⟩ := yet x isCall isUpload
  exact missing x member (by rw [Call.Covers, isKeyed]; trivial)

theorem Sound.arrives (sound : Sound w) (found : w.calls[n]? = some c) {b : Blob}
    (isSending : c.stage = .sending b)
    (order : w.blob ≠ none → w.blobVersion ≤ c.version ∧ w.blobEpoch ≤ c.epoch) :
    Sound { w with
      blob := some b, blobEpoch := c.epoch, blobVersion := c.version
      calls := callsWith w n (some { c with stage := .answered b }) } where
  base := sound.base.arrives found isSending fun isBlob => (order isBlob).2
  covered some := by
    refine covered_replace (w := w) ⟨rfl, rfl, rfl, rfl, rfl⟩ (calls_split found) rfl
      (sound.covered some) ?_ ?_
    · intro isBlob isVersion
      have below := (order isBlob).1
      have most := (sound.base.calls c (List.mem_of_getElem? found)).version
      refine ⟨nofun, ?_⟩
      change c.version = w.changes
      omega
    · intro isCovering
      rw [Call.Covers, isSending] at isCovering
      exact .inl ⟨nofun, isCovering⟩

theorem Sound.done (sound : Sound w) (found : w.calls[n]? = some c) {b : Blob} {code : String}
    (isAnswered : c.stage = .answered b) (isUpload : c.code = some code) :
    Sound { w with
      device := { w.device with backupKey := some { salt := b.salt, key := b.key } }
      materialEpoch := c.epoch
      recovery := some code
      calls := callsWith w n none } where
  base := sound.base.done found isAnswered isUpload
  covered some := by
    refine covered_replace (w := w) ⟨rfl, rfl, rfl, rfl, rfl⟩ (calls_split found) rfl
      (sound.covered some) ?_ ?_
    · intro isBlob isVersion
      exact ⟨isBlob, isVersion⟩
    · intro isCovering
      rw [Call.Covers, isAnswered] at isCovering
      exact isCovering.elim

end Proceed

section Steps

variable {w : World}

/-- The operation of a call that finds what it must. -/
theorem Sound.proceed (sound : Sound w) (n time : Nat)
    (clear : ∀ c, w.calls[n]? = some c → c.Clear bytes w) :
    Sound (step bytes w (.proceed n time)) := by
  simp only [step]
  cases found : w.calls[n]? with
  | none => exact sound
  | some c =>
      have clear := clear c found
      have tells := sound.base.calls c (List.mem_of_getElem? found)
      obtain ⟨code, stage, epoch, version⟩ := c
      cases stage with
      | start =>
          obtain rfl : code = none := tells.started rfl
          cases isKey : w.device.backupKey with
          | none =>
              simp only [Backup.proceed, isKey]
              exact sound.unkeyed found rfl isKey (clear isKey)
          | some m =>
              simp only [Backup.proceed, isKey]
              have material := sound.base.material m isKey
              refine sound.reads found ?_ (fun _ => rfl) (fun brings => absurd rfl brings.1) ?_
              · rintro c' ⟨⟩
                refine ⟨rfl, material.epoch, tells.version, ?_, by simp [Stage.identity], by simp [Stage.sessions],
                  fun isUpload => absurd rfl isUpload⟩
                rintro m' ⟨⟩
                exact material.key
              · intro _ _
                exact ⟨_, mem_callsWith.mpr (.inr (.inr rfl)), trivial⟩
      | keyed m =>
          cases isIdentity : w.device.identity with
          | none => exact absurd isIdentity clear
          | some identity =>
              simp only [Backup.proceed, isIdentity]
              refine sound.reads found ?_ (by simp) ?_ ?_
              · rintro c' ⟨⟩
                refine ⟨rfl, tells.epoch, le_rfl, tells.key, ?_, by simp [Stage.sessions], ?_⟩
                · rintro i ⟨⟩ _
                  exact isIdentity
                · intro isUpload
                  obtain ⟨positive, isEpoch, isLatest, _⟩ := tells.upload isUpload
                  exact ⟨positive, isEpoch, isLatest, by simp⟩
              · intro brings
                exact ⟨_, rfl, brings.1, by simp⟩
              · intro _ _
                exact ⟨_, mem_callsWith.mpr (.inr (.inr rfl)), rfl⟩
      | identified m identity =>
          simp only [Backup.proceed]
          refine sound.reads found ?_ (by simp) ?_ ?_
          · rintro c' ⟨⟩
            refine ⟨rfl, tells.epoch, tells.version, tells.key, tells.identity, ?_, ?_⟩
            · rintro s ⟨⟩ _
              rfl
            · intro isUpload
              obtain ⟨positive, isEpoch, isLatest, _⟩ := tells.upload isUpload
              exact ⟨positive, isEpoch, isLatest, by simp⟩
          · intro brings
            exact ⟨_, rfl, brings.1, by simp⟩
          · intro _ isCovering
            exact ⟨_, mem_callsWith.mpr (.inr (.inr rfl)), isCovering⟩
      | read m identity sessions =>
          simp only [Backup.proceed]
          refine sound.reads found ?_ (by simp) ?_ ?_
          · rintro c' ⟨⟩
            refine ⟨rfl, tells.epoch, tells.version, tells.key, tells.identity, tells.sessions, ?_⟩
            intro isUpload
            obtain ⟨positive, isEpoch, isLatest, _⟩ := tells.upload isUpload
            exact ⟨positive, isEpoch, isLatest, by simp⟩
          · intro brings
            exact ⟨_, rfl, brings.1, by simp⟩
          · intro _ isCovering
            exact ⟨_, mem_callsWith.mpr (.inr (.inr rfl)), isCovering⟩
      | sending b =>
          obtain ⟨small, order⟩ := clear
          simp only [Backup.proceed, if_neg (Nat.not_lt.mpr small)]
          exact sound.arrives found rfl order
      | answered b =>
          cases code with
          | none =>
              simp only [Backup.proceed]
              refine sound.reads found (by simp) (fun _ => rfl) (fun brings => absurd rfl brings.1) ?_
              intro _ isCovering
              exact isCovering.elim
          | some code =>
              simp only [Backup.proceed]
              exact sound.done found rfl rfl

/-- Identity and sessions become others. -/
theorem Base.changed (base : Base w) (identity : Option StoredIdentity)
    (sessions : Table StoredSession.sessionId) :
    Base { w with device := { w.device with identity, sessions }, changes := w.changes + 1 } where
  calls c member := by
    have tells := base.calls c member
    have most := tells.version
    refine ⟨tells.epoch, ?_, tells.key, ?_, ?_, tells.upload⟩
    · change c.version ≤ w.changes + 1
      omega
    · intro i _ (isVersion : c.version = w.changes + 1)
      omega
    · intro s _ (isVersion : c.version = w.changes + 1)
      omega
  held b isBlob := by
    have held := base.held b isBlob
    have most := held.version
    refine ⟨held.epoch, ?_, held.key, ?_, ?_⟩
    · change w.blobVersion ≤ w.changes + 1
      omega
    · intro (isVersion : w.blobVersion = w.changes + 1)
      omega
    · intro (isVersion : w.blobVersion = w.changes + 1)
      omega
  material m isKey := by
    have material := base.material m isKey
    exact ⟨material.epoch, material.key⟩
  one := base.one
  brought := base.brought
  saved := base.saved
  shown := base.shown

/-- A call is started, and it will tell of every change so far. -/
theorem Base.begin (base : Base w) {start : Start} (alone : start.Alone w) :
    Sound (Backup.begin w start) := by
  cases start with
  | refresh =>
      refine ⟨⟨?_, ?_, ?_, ?_, ?_, ?_, base.shown⟩, ?_⟩
      · intro c member
        rcases List.mem_append.mp member with old | new
        · exact (base.calls c old).same ⟨rfl, rfl, rfl, rfl, rfl⟩
        · obtain rfl := List.mem_singleton.mp new
          exact ⟨Nat.zero_le _, Nat.zero_le _, nofun, nofun, nofun, fun isUpload => absurd rfl isUpload⟩
      · intro b isBlob
        exact (base.held b isBlob).same ⟨rfl, rfl, rfl, rfl, rfl⟩ rfl rfl
      · intro m isKey
        exact (base.material m isKey).same ⟨rfl, rfl, rfl, rfl, rfl⟩ rfl
      · have one := base.one
        simpa [Backup.begin] using one
      · intro some
        refine (base.brought some).imp_right ?_
        rintro ⟨c, member, brings⟩
        exact ⟨c, List.mem_append_left _ member, brings⟩
      · intro some none
        exact base.saved some fun c member => none c (List.mem_append_left _ member)
      · intro _
        exact .inr ⟨_, List.mem_append_right _ (List.mem_singleton.mpr rfl), trivial⟩
  | upload code salt =>
      refine ⟨⟨?_, ?_, ?_, ?_, ?_, ?_, ?_⟩, ?_⟩
      · intro c member
        rcases List.mem_append.mp member with old | new
        · have tells := base.calls c old
          have most := tells.epoch
          refine ⟨?_, tells.version, ?_, tells.identity, tells.sessions, ?_⟩
          · change c.epoch ≤ w.uploads + 1
            omega
          · intro m _ (isEpoch : c.epoch = w.uploads + 1)
            omega
          · intro isUpload
            exact absurd (alone c old) isUpload
        · obtain rfl := List.mem_singleton.mp new
          refine ⟨le_rfl, Nat.zero_le _, ?_, nofun, nofun, ?_⟩
          · rintro m ⟨⟩ _ code' ⟨⟩
            rfl
          · intro _
            exact ⟨Nat.succ_ne_zero _, rfl, rfl, nofun⟩
      · intro b isBlob
        have held := base.held b isBlob
        have most := held.epoch
        refine ⟨?_, held.version, ?_, held.identity, held.sessions⟩
        · change w.blobEpoch ≤ w.uploads + 1
          omega
        · intro (isEpoch : w.blobEpoch = w.uploads + 1)
          omega
      · intro m isKey
        have material := base.material m isKey
        have most := material.epoch
        refine ⟨?_, ?_⟩
        · change w.materialEpoch ≤ w.uploads + 1
          omega
        · intro (isEpoch : w.materialEpoch = w.uploads + 1)
          omega
      · have noUpload : w.calls.countP (fun c => c.code.isSome) = 0 := by
          rw [List.countP_eq_zero]
          intro c member
          simp [alone c member]
        simp [Backup.begin, noUpload]
      · intro _
        exact .inr ⟨_, List.mem_append_right _ (List.mem_singleton.mpr rfl), nofun, nofun⟩
      · intro _ none
        have none := none _ (List.mem_append_right _ (List.mem_singleton.mpr rfl))
        cases none
      · intro _
        exact Nat.succ_ne_zero _
      · intro _
        exact .inr ⟨_, List.mem_append_right _ (List.mem_singleton.mpr rfl), trivial⟩

/-- Counters move on; chain keys and all else stay. -/
theorem Sound.count (sound : Sound w) (sessions : Table StoredSession.sessionId) :
    Sound (step bytes w (.count sessions)) := by
  simp only [step]
  split
  next isSame =>
    have same : Same w { w with device := { w.device with sessions } } := ⟨rfl, rfl, rfl, rfl, isSame⟩
    refine ⟨⟨?_, ?_, ?_, sound.base.one, sound.base.brought, sound.base.saved, sound.base.shown⟩,
      sound.covered⟩
    · intro c member
      exact (sound.base.calls c member).same same
    · intro b isBlob
      exact (sound.base.held b isBlob).same same rfl rfl
    · intro m isKey
      exact (sound.base.material m isKey).same same rfl
  next => exact sound

theorem Sound.step (sound : Sound w) {action : Action} (clear : Clear bytes w action) :
    Sound (Backup.step bytes w action) := by
  cases action with
  | begin start => exact sound.base.begin clear
  | change identity sessions start => exact (sound.base.changed identity sessions).begin clear
  | count sessions => exact sound.count sessions
  | proceed n time => exact sound.proceed n time clear
  | fault n => exact clear.elim

theorem Sound.run (sound : Sound w) {actions : List Action} (clear : ClearRun bytes w actions) :
    Sound (Backup.run bytes w actions) := by
  induction actions generalizing w with
  | nil => exact sound
  | cons action rest ih => exact ih (sound.step clear.1) clear.2

end Steps

/-- A device and a server on which nothing has been done yet. -/
def fresh : World where
  device := {
    identity := none, sessions := .empty, peers := .empty, backupKey := none, deks := .empty
    ratchets := .empty, messages := .empty, v2Flag := false, locks := fun _ => none }

theorem Sound.fresh : Sound fresh where
  base := .fresh _ rfl rfl rfl rfl rfl
  covered some := absurd rfl some

/-- Once all calls have settled, the recovery code restores the store, when each call finds what it
must and no newer blob is replaced. -/
theorem run_restores (bytes : BackupPayload → Nat) (actions : List Action)
    (clear : ClearRun bytes fresh actions) (settled : (run bytes fresh actions).calls = []) :
    Restores (run bytes fresh actions) := by
  have sound := Sound.fresh.run clear
  exact sound.base.restores sound.covered settled

def someone : StoredIdentity where
  edPriv := .raw "e"
  edPub := .raw "E"
  xPriv := .raw "x"
  xPub := .raw "X"
  spkId := 1
  spkPriv := .raw "s"
  spkPub := .raw "S"
  createdAt := 0

def session (sessionId : String) : StoredSession where
  sessionId := sessionId
  conversationId := "1"
  peerId := "2"
  role := .init
  ckInit := .raw sessionId
  ckResp := .raw sessionId
  sendCtr := 0
  peerMaxCtr := 0
  createdAt := 0

/-- Sessions are made one after the other. -/
def sessionsOf (ids : List String) : Table StoredSession.sessionId :=
  ids.foldl (fun t id => t.put (session id)) .empty

/-- An upload, and a refresh for a session that is made when it is done. -/
def inTurn : List Action :=
  [.change (some someone) .empty (.upload "CODE" 7)] ++ List.replicate 5 (.proceed 0 3) ++
    [.change (some someone) (sessionsOf ["a"]) .refresh] ++ List.replicate 6 (.proceed 0 4)

theorem run_restores_inTurn :
    (run (fun _ => 300) fresh inTurn).recovery = some "CODE" ∧
      Restores (run (fun _ => 300) fresh inTurn) := by
  refine ⟨rfl, run_restores (fun _ => 300) inTurn ?_ rfl⟩
  refine ⟨?_, ?_, ?_, ?_, ?_, ?_, ?_, ?_, ?_, ?_, ?_, ?_, ?_, trivial⟩
  · rintro c ⟨⟩
  · rintro c ⟨⟩
    exact nofun
  · rintro c ⟨⟩
    trivial
  · rintro c ⟨⟩
    trivial
  · rintro c ⟨⟩
    exact ⟨by decide, fun isBlob => absurd rfl isBlob⟩
  · rintro c ⟨⟩
    trivial
  · trivial
  · rintro c ⟨⟩ noKey
    cases noKey
  · rintro c ⟨⟩
    exact nofun
  · rintro c ⟨⟩
    trivial
  · rintro c ⟨⟩
    trivial
  · rintro c ⟨⟩
    exact ⟨by decide, fun _ => ⟨by decide, le_rfl⟩⟩
  · rintro c ⟨⟩
    trivial

/-- Two refreshes are under way, and the blob of the later one arrives first. -/
def outOfTurn : List Action :=
  [.change (some someone) .empty (.upload "CODE" 7)] ++ List.replicate 5 (.proceed 0 3) ++
    [.change (some someone) (sessionsOf ["a"]) .refresh] ++ List.replicate 4 (.proceed 0 4) ++
    [.change (some someone) (sessionsOf ["a", "b"]) .refresh] ++ List.replicate 6 (.proceed 1 5) ++
    List.replicate 2 (.proceed 0 6)

/-- The server ends up with the older set of sessions, and the newer one is lost with the device. -/
theorem outOfTurn_loses : ¬∀ (bytes : BackupPayload → Nat) (actions : List Action),
    (run bytes fresh actions).calls = [] → Restores (run bytes fresh actions) := by
  intro always
  obtain ⟨blob, payload, isBlob, isOpen, _, isSame⟩ :=
    always (fun _ => 300) outOfTurn rfl "CODE" rfl
  cases isBlob
  cases isOpen
  exact absurd (congrArg List.length isSame) (by decide)

end Backup
