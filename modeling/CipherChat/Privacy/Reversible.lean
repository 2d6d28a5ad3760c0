import CipherChat.Privacy.Called
import CipherChat.Privacy.Links

/-!
`redact` from its first pass to its last, and when `rehydrate` gives the text back.
-/

namespace PiiRedactor

open Rooms (JavaString)
open Utf (isSpace)
open Regex

section Runs

variable {u : Unicode}

/-- What an expression of this type has matched; nothing is said of names. -/
def Fits (type : EntityType) (v : JavaString) : Prop :=
  ∀ d ∈ DETECTORS, d.type = type → Word (reads isSpace) d.regex v

/-- A pass cuts the whole text, and its matches are of its type. -/
structure Pass.Fair (p : Pass) : Prop where
  whole : ∀ text, whole (p.split text) = text
  fits : ∀ text m, .hit m ∈ p.split text → Fits p.type m

/-- What the session knows of the tokens of its text. -/
structure Kept (u : Unicode) (types : List EntityType) (now : JavaString × Session) : Prop where
  sound : now.2.Sound u
  stocked : ∀ t ∈ tokensIn now.1, ∃ v, now.2.map.lookup t = some v
  typed : ∀ t v, now.2.map.lookup t = some v → ∃ type ∈ types, (∃ n, t = tokenOf type n) ∧ Fits type v

variable {types : List EntityType} {now : JavaString × Session}

theorem Kept.run (kept : Kept u types now) {p : Pass} (fair : p.Fair) :
    Kept u (types ++ [p.type]) (p.run u now) := by
  have isWhole : whole (p.cut now.1) = now.1 := (whole_accepted _).trans (fair.whole _)
  obtain ⟨sound, grows⟩ : (put u p.type (p.cut now.1) now.2).2.Sound u ∧
      now.2.map <+: (put u p.type (p.cut now.1) now.2).2.map := put_sound kept.sound
  rw [run_eq]
  refine ⟨sound, ?_, ?_⟩
  · intro t member
    rcases tokensIn_put kept.sound member with new | old
    · exact new
    · rw [isWhole] at old
      exact (kept.stocked t old).imp fun v => lookup_grown grows
  · intro t v listed
    rcases put_lookup kept.sound listed with old | ⟨isToken, isHit⟩
    · obtain ⟨type, member, rest⟩ := kept.typed t v old
      exact ⟨type, List.mem_append_left _ member, rest⟩
    · exact ⟨p.type, by simp, isToken, fair.fits _ v (hit_of_accepted isHit)⟩

theorem Kept.runAll (kept : Kept u types now) {ps : List Pass} (fair : ∀ p ∈ ps, p.Fair) :
    Kept u (types ++ ps.map Pass.type) (runAll u ps now.1 now.2) := by
  induction ps generalizing types now with
  | nil => simpa [PiiRedactor.runAll] using kept
  | cons p ps ih =>
      have next := ih (kept.run (fair p List.mem_cons_self)) fun q member =>
        fair q (List.mem_cons_of_mem _ member)
      rw [List.append_assoc] at next
      exact next

theorem runAll_append (ps qs : List Pass) (input : JavaString) (r : Session) :
    runAll u (ps ++ qs) input r = runAll u qs (runAll u ps input r).1 (runAll u ps input r).2 := by
  rw [runAll, List.foldl_append]
  rfl

theorem run_grows (sound : now.2.Sound u) (p : Pass) :
    (p.run u now).2.Sound u ∧ now.2.map <+: (p.run u now).2.map := by
  rw [run_eq]
  exact put_sound sound

theorem runAll_grows (sound : now.2.Sound u) (ps : List Pass) :
    (runAll u ps now.1 now.2).2.Sound u ∧ now.2.map <+: (runAll u ps now.1 now.2).2.map := by
  induction ps generalizing now with
  | nil => exact ⟨sound, List.prefix_rfl⟩
  | cons p ps ih =>
      have first := run_grows sound p
      have later := ih first.1
      exact ⟨later.1, first.2.trans later.2⟩

theorem Marked.run {text : JavaString} (sound : now.2.Sound u) {p : Pass} (fair : p.Fair)
    (spared : swallowed (p.cut now.1) = []) (marked : Marked u now.2.map now.1 text) :
    Marked u (p.run u now).2.map (p.run u now).1 text := by
  have isWhole : whole (p.cut now.1) = now.1 := (whole_accepted _).trans (fair.whole _)
  rw [run_eq]
  exact .put le_rfl sound spared (by rw [isWhole]; exact marked)

/-- What one pass loses of a character, in a text that the session fills again. -/
theorem count_run {map : List (JavaString × JavaString)} (sound : now.2.Sound u) {p : Pass}
    (fair : p.Fair) (grows : (p.run u now).2.map <+: map) {c : UInt16} (ascii : c.toNat < 0x80)
    (noLetter : isLetter c = false) : ((rehydrate now.1 map).count c : Int) =
      (rehydrate (p.run u now).1 map).count c + ((swallowed (p.cut now.1)).map (gain map c)).sum := by
  have isWhole : whole (p.cut now.1) = now.1 := (whole_accepted _).trans (fair.whole _)
  rw [run_eq] at grows ⊢
  rw [← count_put sound grows ascii noLetter, isWhole]

/-- Passes that swallow nothing, whatever the text, neither lose a mark nor a character. -/
theorem runAll_quiet {ps : List Pass} (fair : ∀ p ∈ ps, p.Fair)
    (quiet : ∀ p ∈ ps, ∀ text, swallowed (p.cut text) = []) (sound : now.2.Sound u) :
    (∀ text, Marked u now.2.map now.1 text →
      Marked u (runAll u ps now.1 now.2).2.map (runAll u ps now.1 now.2).1 text) ∧
    ∀ map, (runAll u ps now.1 now.2).2.map <+: map → ∀ c, c.toNat < 0x80 → isLetter c = false →
      (rehydrate now.1 map).count c = (rehydrate (runAll u ps now.1 now.2).1 map).count c := by
  induction ps generalizing now with
  | nil => exact ⟨fun _ => id, fun _ _ _ _ _ => rfl⟩
  | cons p ps ih =>
      have fair' := fair p List.mem_cons_self
      have none := quiet p List.mem_cons_self now.1
      have sound' := (run_grows sound p).1
      obtain ⟨marks, counts⟩ := ih (fun q member => fair q (List.mem_cons_of_mem _ member))
        (fun q member => quiet q (List.mem_cons_of_mem _ member)) sound'
      refine ⟨fun text marked => marks text (marked.run sound fair' none), ?_⟩
      intro map grows c ascii noLetter
      have first := count_run sound fair' ((runAll_grows sound' ps).2.trans grows) ascii noLetter
      rw [none, List.map_nil, List.sum_nil, add_zero] at first
      exact (Int.ofNat_inj.mp first).trans (counts map grows c ascii noLetter)

end Runs

section Fairness

variable {u : Unicode}

theorem fair_detector {d : Detector} (member : d ∈ DETECTORS) : d.pass.Fair := by
  have consumes : ∀ d ∈ DETECTORS, d.regex.consumes = true := by decide
  refine ⟨whole_cut (consumes d member), fun text m isHit d' member' same => ?_⟩
  have unique : ∀ d ∈ DETECTORS, ∀ d' ∈ DETECTORS, d'.type = d.type → d'.regex = d.regex := by
    simp [DETECTORS]
  rw [unique d member d' member' same]
  exact word_of_hit (consumes d member) (Nat.lt_succ_self _) isHit

theorem fair_names {names : List JavaString} {regex : NameRegex}
    (found : nameRegex u names = some regex) : (namePass regex).Fair := by
  refine ⟨fun text => ?_, fun text m _ d member same => ?_⟩
  · rw [namePass, whole_units, whole_cut (consumes_names found), flatten_characters]
  · have others : ∀ d ∈ DETECTORS, d.type ≠ .PERSON := by decide
    exact absurd same (others d member)

end Fairness

section Reversible

def emailPass : Pass :=
  Detector.pass ⟨.EMAIL, email, fun _ => true⟩

def urlPass : Pass :=
  Detector.pass ⟨.URL, url, fun _ => true⟩

/-- The text and the session when the expression for links is applied. -/
def beforeUrls (u : Unicode) (input : JavaString) : JavaString × Session :=
  runAll u [emailPass] input {}

/-- The text and the session when the names are looked for. -/
def beforeNames (u : Unicode) (input : JavaString) : JavaString × Session :=
  runAll u (DETECTORS.map Detector.pass) input {}

/-- The text with its e-mail addresses found. -/
def addresses (input : JavaString) : List Item :=
  Detector.find ⟨.EMAIL, email, fun _ => true⟩ (input.map .unit)

/-- No link of the text has an e-mail address in it; and when the names are called in the text in which
what the detectors find stands as `[TYPE_n]`, none takes a part of such a token. -/
structure Spared (u : Unicode) (input : JavaString) (names : List JavaString) : Prop where
  links : linked [] (addresses input) = false
  names : swallowed (callsIn u names (shown u (entities input))) = []

variable {u : Unicode}

theorem without_iff {text : JavaString} :
    tokensIn text = [] ↔ ∀ t, t <:+: text → ¬IsToken t := by
  simp only [List.eq_nil_iff_forall_not_mem, mem_tokensIn, not_and]
  exact forall_congr' fun t => ⟨fun none inside isToken => none isToken inside,
    fun none isToken inside => none inside isToken⟩

theorem colon_of_url {v : JavaString} (word : Word (reads isSpace) url v) : 0x3A ∈ v := by
  obtain ⟨_, _, rfl, _, _, _, rfl, _, _, _, rfl, _, _, _, rfl, ⟨_, _, rfl, colon, _⟩, _⟩ := word
  obtain ⟨x, member, rfl⟩ := word_char colon
  obtain rfl := List.mem_singleton.mp (show x ∈ [0x3A] from member)
  simp

theorem count_token (type : EntityType) (n : Nat) :
    (tokenOf type n).count 0x5B = 1 ∧ (tokenOf type n).count 0x3A = 0 := by
  obtain ⟨type', ds, _, all, same⟩ := isToken_iff.mp (isToken_tokenOf type n)
  have isWord' : ∀ x ∈ Utf.ofString type'.name ++ 0x5F :: ds, isWord x = true := isWord_core all
  have noMark {x : UInt16} (other : isWord x = false) :
      (Utf.ofString type'.name ++ 0x5F :: ds).count x = 0 := by
    rw [List.count_eq_zero]
    intro member
    rw [isWord' x member] at other
    cases other
  constructor
  · rw [same, List.cons_append, List.count_cons, List.count_append, noMark (by decide)]
    rfl
  · rw [same, List.cons_append, List.count_cons, List.count_append, noMark (by decide)]
    rfl

/-- A swallowed token costs a colon, or leaves a bracket. -/
theorem gain_of_kept {types : List EntityType} {now : JavaString × Session} (kept : Kept u types now)
    (detected : ∀ type ∈ types, ∃ d ∈ DETECTORS, d.type = type) {map : List (JavaString × JavaString)}
    (grows : now.2.map <+: map) {t : JavaString} (member : t ∈ tokensIn now.1) :
    0 ≤ gain map 0x3A t ∧ (1 ≤ gain map 0x3A t ∨ gain map 0x5B t = -1) := by
  obtain ⟨v, listed⟩ := kept.stocked t member
  obtain ⟨type, isType, ⟨n, rfl⟩, fits⟩ := kept.typed t v listed
  obtain ⟨d, isDetector, rfl⟩ := detected type isType
  have word := fits d isDetector rfl
  obtain ⟨brackets, colons⟩ := count_token d.type n
  have isValue : valueOf map (tokenOf d.type n) = v := by
    rw [valueOf, lookup_grown grows listed, Option.getD_some]
  have kinds : ∀ d ∈ DETECTORS, d.type = .URL ∨ avoids (reads isSpace) 0x5B d.regex = true := by
    decide
  simp only [gain, isValue, brackets, colons]
  refine ⟨by omega, ?_⟩
  rcases kinds d isDetector with isUrl | other
  · have word' := fits ⟨.URL, url, fun _ => true⟩ (by simp [DETECTORS]) isUrl.symm
    have some := List.count_pos_iff.mpr (colon_of_url word')
    exact .inl (by omega)
  · have none := List.count_eq_zero.mpr (not_mem_of_avoids other word)
    exact .inr (by omega)

theorem sum_of_gains {α : Type} {f g : α → Int} {ts : List α}
    (each : ∀ t ∈ ts, 0 ≤ f t ∧ (1 ≤ f t ∨ g t = -1)) :
    0 ≤ (ts.map f).sum ∧ ((ts.map f).sum = 0 → (ts.map g).sum = -ts.length) := by
  induction ts with
  | nil => simp
  | cons t ts ih =>
      obtain ⟨nonneg, one⟩ := each t List.mem_cons_self
      obtain ⟨rest, later⟩ := ih fun t' member => each t' (List.mem_cons_of_mem _ member)
      simp only [List.map_cons, List.sum_cons, List.length_cons]
      refine ⟨by omega, fun none => ?_⟩
      have last := later (by omega)
      push_cast
      omega

theorem kept_fresh {input : JavaString} (without : tokensIn input = []) : Kept u [] (input, {}) where
  sound := Session.sound_fresh
  stocked t member := by
    rw [without] at member
    cases member
  typed t v listed := by cases listed

theorem fair_rest : ∀ p ∈ (DETECTORS.drop 2).map Detector.pass, p.Fair := by
  intro p member
  obtain ⟨d, listed, rfl⟩ := List.mem_map.mp member
  exact fair_detector (List.mem_of_mem_drop listed)

theorem quiet_rest : ∀ p ∈ (DETECTORS.drop 2).map Detector.pass, ∀ text,
    swallowed (p.cut text) = [] := by
  intro p member text
  obtain ⟨d, listed, rfl⟩ := List.mem_map.mp member
  exact spared_of_shy listed text

theorem quiet_email {input : JavaString} (fair : emailPass.Fair) (without : tokensIn input = []) :
    swallowed (emailPass.cut input) = [] := by
  rw [List.eq_nil_iff_forall_not_mem]
  intro t member
  have inside := swallowed_subset member
  rw [show whole (emailPass.cut input) = input from (whole_accepted _).trans (fair.whole _), without]
    at inside
  cases inside

section Steps

variable {input : JavaString} {now₁ now₇ now₈ : JavaString × Session} {namePass : Option Pass}

/-- If the passes for links and names swallow nothing, the text comes back. -/
theorem recased_of_steps (without : tokensIn input = []) (isEmail : emailPass.Fair)
    (isUrl : urlPass.Fair) (isName : ∀ p ∈ namePass, p.Fair)
    (first : emailPass.run u (input, {}) = now₁)
    (middle : runAll u ((DETECTORS.drop 2).map Detector.pass) (urlPass.run u now₁).1
      (urlPass.run u now₁).2 = now₇)
    (last : namePass.elim now₇ (fun p => p.run u now₇) = now₈)
    (urls : swallowed (urlPass.cut now₁.1) = [])
    (names : ∀ p ∈ namePass, swallowed (p.cut now₇.1) = []) :
    Recased u now₈.2.map input (rehydrate now₈.1 now₈.2.map) := by
  have sound₀ : Session.Sound u {} := Session.sound_fresh
  have sound₁ : (emailPass.run u (input, {})).2.Sound u := (run_grows sound₀ emailPass).1
  have marked₁ : Marked u (emailPass.run u (input, {})).2.map (emailPass.run u (input, {})).1 input :=
    (Marked.refl [] input).run sound₀ isEmail (quiet_email isEmail without)
  rw [first] at sound₁ marked₁
  have sound₂ := (run_grows sound₁ urlPass).1
  have marked₂ := marked₁.run sound₁ isUrl urls
  have sound₇ := (runAll_grows sound₂ ((DETECTORS.drop 2).map Detector.pass)).1
  have marked₇ := (runAll_quiet fair_rest quiet_rest sound₂).1 input marked₂
  rw [middle] at sound₇ marked₇
  cases namePass with
  | none =>
      obtain rfl : now₇ = now₈ := last
      exact marked₇.rehydrate without
  | some p =>
      obtain rfl : p.run u now₇ = now₈ := last
      exact (marked₇.run sound₇ (isName p rfl) (names p rfl)).rehydrate without

/-- A text that comes back has as many colons and brackets, so that nothing was swallowed. -/
theorem steps_of_recased (without : tokensIn input = []) (isEmail : emailPass.Fair)
    (isUrl : urlPass.Fair) (isName : ∀ p ∈ namePass, p.Fair)
    (first : emailPass.run u (input, {}) = now₁)
    (middle : runAll u ((DETECTORS.drop 2).map Detector.pass) (urlPass.run u now₁).1
      (urlPass.run u now₁).2 = now₇)
    (last : namePass.elim now₇ (fun p => p.run u now₇) = now₈)
    (recased : Recased u now₈.2.map input (rehydrate now₈.1 now₈.2.map)) :
    swallowed (urlPass.cut now₁.1) = [] ∧ ∀ p ∈ namePass, swallowed (p.cut now₇.1) = [] := by
  have kept₀ : Kept u [] (input, {}) := kept_fresh without
  have kept₁ := kept₀.run isEmail
  rw [first] at kept₁
  have kept₂ := kept₁.run isUrl
  have kept₇ := kept₂.runAll fair_rest
  have grows₂ := (runAll_grows kept₂.sound ((DETECTORS.drop 2).map Detector.pass)).2
  have counts := (runAll_quiet fair_rest quiet_rest kept₂.sound).2
  rw [middle] at kept₇ grows₂ counts
  have grows₁ := (run_grows kept₁.sound urlPass).2
  let names := namePass.elim [] fun p => swallowed (p.cut now₇.1)
  have grows₇ : now₇.2.map <+: now₈.2.map := by
    cases namePass with
    | none => exact last ▸ List.prefix_rfl
    | some p => exact last ▸ (run_grows kept₇.sound p).2
  have lost (c : UInt16) (ascii : c.toNat < 0x80) (noLetter : isLetter c = false) :
      ((swallowed (urlPass.cut now₁.1) ++ names).map (gain now₈.2.map c)).sum = 0 := by
    have all := grows₂.trans grows₇
    have count₀ := count_run kept₀.sound isEmail (first ▸ grows₁.trans all) ascii noLetter
    have count₁ := count_run kept₁.sound isUrl all ascii noLetter
    have count₂ := counts now₈.2.map grows₇ c ascii noLetter
    have count₇ : ((rehydrate now₇.1 now₈.2.map).count c : Int) =
        (rehydrate now₈.1 now₈.2.map).count c + (names.map (gain now₈.2.map c)).sum := by
      cases namePass with
      | none => simp [names, ← show now₇ = now₈ from last]
      | some p =>
          obtain rfl : p.run u now₇ = now₈ := last
          exact count_run kept₇.sound (isName p rfl) List.prefix_rfl ascii noLetter
    rw [quiet_email isEmail without, first, rehydrate_without without] at count₀
    have same := recased.count ascii noLetter
    rw [List.map_append, List.sum_append]
    rw [List.map_nil, List.sum_nil] at count₀
    omega
  have each : ∀ t ∈ swallowed (urlPass.cut now₁.1) ++ names,
      0 ≤ gain now₈.2.map 0x3A t ∧ (1 ≤ gain now₈.2.map 0x3A t ∨ gain now₈.2.map 0x5B t = -1) := by
    intro t member
    rcases List.mem_append.mp member with link | name
    · have inside := swallowed_subset link
      rw [show whole (urlPass.cut now₁.1) = now₁.1 from (whole_accepted _).trans (isUrl.whole _)] at inside
      exact gain_of_kept kept₁ (by decide) (grows₁.trans (grows₂.trans grows₇)) inside
    · cases namePass with
      | none => exact absurd name List.not_mem_nil
      | some p =>
          have inside := swallowed_subset name
          rw [show whole (p.cut now₇.1) = now₇.1 from (whole_accepted _).trans ((isName p rfl).whole _)]
            at inside
          exact gain_of_kept kept₇ (by decide) grows₇ inside
  have length := (sum_of_gains each).2 (lost 0x3A (by decide) (by decide))
  rw [lost 0x5B (by decide) (by decide)] at length
  have none : swallowed (urlPass.cut now₁.1) ++ names = [] := List.length_eq_zero_iff.mp (by omega)
  obtain ⟨links, rest⟩ := List.append_eq_nil_iff.mp none
  refine ⟨links, fun p found => ?_⟩
  obtain rfl : namePass = some p := found
  exact rest

end Steps

section Found

theorem beforeNames_eq (input : JavaString) : beforeNames u input =
    runAll u ((DETECTORS.drop 2).map Detector.pass) (urlPass.run u (beforeUrls u input)).1
      (urlPass.run u (beforeUrls u input)).2 := by
  have split : DETECTORS.map Detector.pass =
      [emailPass] ++ ([urlPass] ++ (DETECTORS.drop 2).map Detector.pass) := rfl
  rw [beforeNames, split, runAll_append, runAll_append, ← beforeUrls]
  simp only [runAll, List.foldl_cons, List.foldl_nil]

theorem shown_units (input : JavaString) : Shown u (input, {}) (input.map .unit) where
  text := (label_units input).symm
  numbered := by
    have none : (fun type => distinct (keysOf u type (input.map .unit))) = fun _ => [] := by
      funext type
      rw [keysOf_units]
      rfl
    rw [none]
    exact numbered_fresh

theorem keysOf_find {d : Detector} (consumes : d.regex.consumes = true) {type : EntityType}
    (other : type ≠ d.type) (items : List Item) : keysOf u type (d.find items) = keysOf u type items := by
  rw [Detector.find, keysOf_entitled_other (units_of_cut consumes) other, whole_cut consumes]

theorem shown_addresses (input : JavaString) : Shown u (beforeUrls u input) (addresses input) := by
  have passed := (shown_units (u := u) input).pass (d := ⟨.EMAIL, email, fun _ => true⟩) (by decide)
    (keysOf_units _ _) (cut_units (by decide) (by decide) (by decide) input)
  rwa [beforeUrls, runAll, List.foldl_cons, List.foldl_nil]

theorem text_addresses (input : JavaString) : (addresses input).flatMap Item.text = input := by
  rw [addresses, text_find (by decide), text_units]

/-- The expression for links takes a token if and only if a link has an address in it. -/
theorem urls_iff {input : JavaString} (without : tokensIn input = []) :
    swallowed (urlPass.cut (beforeUrls u input).1) = [] ↔ linked [] (addresses input) = false := by
  have isText : (beforeUrls u input).1 = shown u (addresses input) := (shown_addresses input).text
  have isCut : urlPass.cut (beforeUrls u input).1 = cut (engine isSpace) url (shown u (addresses input)) := by
    rw [isText]
    exact accepted_all _
  rw [isCut]
  constructor
  · intro none
    by_contra some
    exact swallowed_linked (c := ⟨[], addresses input⟩) (Bool.eq_true_of_not_eq_false some) none
  · intro clear
    have untouched : tokensIn (([] ++ whole (cut itemEngine url (addresses input))).flatMap Item.text) = [] := by
      rw [List.nil_append, whole_cut consumes_url, text_addresses, without]
    rw [shown, cut_url_shown clear]
    exact swallowed_expand (units_of_cut consumes_url) untouched

theorem Shown.runAll {ds : List Detector} (known : ∀ d ∈ ds, d ∈ DETECTORS.drop 2)
    (apart : (ds.map Detector.type).Nodup) {now : JavaString × Session} {items : List Item}
    (fresh : ∀ d ∈ ds, keysOf u d.type items = []) (shows : Shown u now items) :
    Shown u (runAll u (ds.map Detector.pass) now.1 now.2) (ds.foldl (fun items d => d.find items) items) := by
  induction ds generalizing now items with
  | nil => exact shows
  | cons d ds ih =>
      have consumes := (shy_of_mem (known d List.mem_cons_self)).consumes
      obtain ⟨alone, apart'⟩ := List.nodup_cons.mp apart
      refine ih (fun d' member => known d' (List.mem_cons_of_mem _ member)) apart' (fun d' member => ?_)
        (shows.pass consumes (fresh d List.mem_cons_self) (cut_shown (known d List.mem_cons_self) items))
      have other : d'.type ≠ d.type := fun same => alone (same ▸ List.mem_map_of_mem member)
      rw [keysOf_find consumes other]
      exact fresh d' (List.mem_cons_of_mem _ member)

theorem entities_eq (input : JavaString) : entities input = (DETECTORS.drop 2).foldl
    (fun items d => d.find items) (Detector.find ⟨.URL, url, fun _ => true⟩ (addresses input)) := by
  have split : DETECTORS = [⟨.EMAIL, email, fun _ => true⟩, ⟨.URL, url, fun _ => true⟩] ++
      DETECTORS.drop 2 := rfl
  rw [entities, split, List.foldl_append, List.foldl_cons, List.foldl_cons, List.foldl_nil, ← addresses]
  rfl

/-- Where no link has an address in it, what the names are looked for in is the text that shows what the
detectors find. -/
theorem shown_entities {input : JavaString} (clear : linked [] (addresses input) = false) :
    (beforeNames u input).1 = shown u (entities input) := by
  have links := (shown_addresses (u := u) input).pass (d := ⟨.URL, url, fun _ => true⟩) consumes_url
    ((keysOf_find (by decide) (by decide) _).trans (keysOf_units _ _)) (cut_url_shown clear)
  have fresh : ∀ d ∈ DETECTORS.drop 2,
      keysOf u d.type (Detector.find ⟨.URL, url, fun _ => true⟩ (addresses input)) = [] := by
    intro d member
    have others : ∀ d ∈ DETECTORS.drop 2, d.type ≠ .URL ∧ d.type ≠ .EMAIL := by decide
    obtain ⟨noUrl, noEmail⟩ := others d member
    rw [keysOf_find consumes_url noUrl, addresses, keysOf_find (by decide) noEmail, keysOf_units]
  have all := links.runAll (fun _ => id) (by decide) fresh
  have last : (beforeNames u input).1 = shown u ((DETECTORS.drop 2).foldl (fun items d => d.find items)
      (Detector.find ⟨.URL, url, fun _ => true⟩ (addresses input))) := by
    rw [beforeNames_eq]
    exact all.text
  rw [last, entities_eq]

/-- The expression of the names takes a part of a token if and only if a name that is called does. -/
theorem names_iff (names : List JavaString) (text : JavaString) :
    (∀ p ∈ (nameRegex u names).map namePass, swallowed (p.cut text) = []) ↔
      swallowed (callsIn u names text) = [] := by
  cases found : nameRegex u names with
  | none =>
      have nobody : dictionary names = [] := by
        by_contra some
        rw [nameRegex, if_neg some] at found
        cases found
      rw [callsIn_nil nobody]
      simp [swallowed_none]
  | some regex =>
      have isCut : (namePass regex).cut text = callsIn u names text := by
        rw [← split_names found]
        exact accepted_all _
      simp [isCut]

end Found

/-- What is put together again is the text, if and only if no token was swallowed. -/
theorem rehydrate_redact_iff (u : Unicode) (input : JavaString) (names : List JavaString)
    (without : ∀ t, t <:+: input → ¬IsToken t) :
    Recased u (redact u input names).map input
        (rehydrate (redact u input names).text (redact u input names).map) ↔
      Spared u input names := by
  have without' := without_iff.mpr without
  have isEmail : emailPass.Fair := fair_detector (by simp [DETECTORS])
  have isUrl : urlPass.Fair := fair_detector (by simp [DETECTORS])
  have isName : ∀ p ∈ (nameRegex u names).map namePass, p.Fair := by
    intro p found
    obtain ⟨regex, isRegex, rfl⟩ := Option.map_eq_some_iff.mp found
    exact fair_names isRegex
  have first : emailPass.run u (input, {}) = beforeUrls u input := by
    rw [beforeUrls, runAll, List.foldl_cons, List.foldl_nil]
  have last : ((nameRegex u names).map namePass).elim (beforeNames u input)
      (fun p => p.run u (beforeNames u input)) = runAll u (passes u names) input {} := by
    rw [passes, runAll_append, ← beforeNames]
    cases nameRegex u names with
    | none => simp only [runAll, Option.map_none, Option.elim_none, Option.toList_none, List.map_nil,
        List.foldl_nil]
    | some regex => simp only [runAll, Option.map_some, Option.elim_some, Option.toList_some,
        List.map_cons, List.map_nil, List.foldl_cons, List.foldl_nil]
  have isRedact : redact u input names = ⟨(runAll u (passes u names) input {}).1,
      (runAll u (passes u names) input {}).2.map, (runAll u (passes u names) input {}).2.counters⟩ := by
    rw [redact]
  rw [isRedact]
  have middle := (beforeNames_eq (u := u) input).symm
  constructor
  · intro recased
    obtain ⟨urls, found⟩ := steps_of_recased without' isEmail isUrl isName first middle last recased
    have clear := (urls_iff without').mp urls
    rw [shown_entities clear] at found
    exact ⟨clear, (names_iff names _).mp found⟩
  · intro spared
    have found := (names_iff names _).mpr spared.names
    rw [← shown_entities spared.links] at found
    exact recased_of_steps without' isEmail isUrl isName first middle last
      ((urls_iff without').mpr spared.links) found

section Examples

/-- The lower case of ASCII. -/
def lowerUnit (x : UInt16) : UInt16 :=
  if isUpper x then x + 32 else x

theorem lowerUnit_eq_iff {x y : UInt16} (noLetter : isLetter x = false) : lowerUnit y = x ↔ y = x := by
  rw [lowerUnit]
  split
  next upper =>
    have bounds : 65 ≤ y.toNat ∧ y.toNat ≤ 90 := by simpa [isUpper, range] using upper
    have lower : isLetter (y + 32) = true := by
      have shifted : (y + 32).toNat = y.toNat + 32 := by
        rw [UInt16.toNat_add]
        exact Nat.mod_eq_of_lt (by change y.toNat + 32 < 65536; omega)
      have inside : range 'a' 'z' (y + 32) = true := by
        rw [range, shifted, Bool.and_eq_true, decide_eq_true_eq, decide_eq_true_eq]
        change 97 ≤ y.toNat + 32 ∧ y.toNat + 32 ≤ 122
        omega
      rw [isLetter, inside, Bool.or_true]
    constructor
    · rintro rfl
      rw [lower] at noLetter
      cases noLetter
    · rintro rfl
      rw [isLetter, upper, Bool.true_or] at noLetter
      cases noLetter
  next => rfl

/-- Unicode as far as ASCII goes. -/
def ascii : Unicode where
  fold c := c.map lowerUnit
  isWord c := c.all isWord
  toLowerCase s := s.map lowerUnit
  count_lower s x _ noLetter := by
    induction s with
    | nil => rfl
    | cons y s ih =>
        rw [List.map_cons, List.count_cons, List.count_cons, ih]
        simp only [beq_iff_eq, lowerUnit_eq_iff noLetter]

def letter : JavaString :=
  Utf.ofString "Anika (a@b.co): anika pays 1.2.3.4"

theorem rehydrate_redact_letter : Recased ascii (redact ascii letter [Utf.ofString "Anika"]).map letter
    (rehydrate (redact ascii letter [Utf.ofString "Anika"]).text
      (redact ascii letter [Utf.ofString "Anika"]).map) := by
  refine (rehydrate_redact_iff ascii letter [Utf.ofString "Anika"] ?_).mpr
    ⟨by decide +kernel, by decide +kernel⟩
  exact without_iff.mp (by decide +kernel)

/-- The address of a link becomes a token first, and the link is remembered with the token. -/
def link : JavaString :=
  Utf.ofString "https://a@b.co"

theorem link_lost : ¬∀ (u : Unicode) (input : JavaString) (names : List JavaString),
    (∀ t, t <:+: input → ¬IsToken t) → Recased u (redact u input names).map input
      (rehydrate (redact u input names).text (redact u input names).map) := by
  intro claim
  have recased := claim ascii link [] (without_iff.mp (by decide +kernel))
  have same := recased.count (c := 0x5B) (by decide) (by decide)
  revert same
  decide +kernel

example : rehydrate (redact ascii (Utf.ofString "a@b.co") [Utf.ofString "EMAIL_1"]).text
    (redact ascii (Utf.ofString "a@b.co") [Utf.ofString "EMAIL_1"]).map = Utf.ofString "[EMAIL_1]" := by
  decide +kernel

end Examples

end Reversible

end PiiRedactor
