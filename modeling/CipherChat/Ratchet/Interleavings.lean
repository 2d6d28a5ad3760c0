import CipherChat.Ratchet.Arrival

/-!
Every interleaving of two honest parties: each envelope is opened the first time it arrives, and only
then, whatever else was lost, delayed, repeated or rejected.
-/

namespace RatchetPair

open Symbolic Number Primitives KeyStore DoubleRatchet EnvelopeV2

variable {s : Setting} {key len : Nat → Nat} {idx : Role → Nat} {w : World}

/-- The envelopes that arrive, in the order in which they do. -/
def arrival (w : World) : Action → List Nat
  | .deliver n _ _ => if w.flights[n]?.isSome then [n] else []
  | _ => []

def arrivals (s : Setting) (w : World) : List Action → List Nat
  | [] => []
  | action :: rest => arrival w action ++ arrivals s (step s w action) rest

/-- A delivery that is answered with an error. -/
def Rejected (s : Setting) (w : World) : Action → Prop
  | .send _ _ => False
  | .deliver n now fresh => ∀ flight, w.flights[n]? = some flight →
      ∀ result, receive s w flight now fresh ≠ .ok result
  | .forge flight now fresh => ∀ result, receive s w flight now fresh ≠ .ok result

/-- Everything but the names of the keys drawn. -/
def Same (w w' : World) : Prop :=
  w.session = w'.session ∧ w.flights = w'.flights

def OpenedIn (w : World) (n : Nat) : Prop :=
  ∃ f, w.flights[n]? = some f ∧ f.opened = true

theorem Linked.redrawn (linked : Linked s key len idx w) {w' : World} (same : Same w w')
    (more : ∀ name ∈ w.drawn, name ∈ w'.drawn) : Linked s key len idx w' := by
  obtain ⟨session, flights, drawn⟩ := w
  obtain ⟨session', flights', drawn'⟩ := w'
  obtain ⟨rfl, rfl⟩ := same
  exact { linked with
    drawn := fun i below => more _ (linked.drawn i below)
    fixed := fun name isFixed => ⟨more _ (linked.fixed name isFixed).1, (linked.fixed name isFixed).2⟩ }

theorem step_rejected {action : Action} (rejected : Rejected s w action) :
    Same w (step s w action) ∧ ∀ name ∈ w.drawn, name ∈ (step s w action).drawn := by
  cases action with
  | send sender text => exact rejected.elim
  | deliver n now fresh =>
      cases found : w.flights[n]? with
      | none =>
          simp only [step, found]
          exact ⟨⟨rfl, rfl⟩, fun _ => id⟩
      | some f =>
          cases received : receive s w f now fresh with
          | ok result => exact absurd received (rejected f found result)
          | error e =>
              simp only [step, found, received]
              exact ⟨⟨rfl, rfl⟩, fun _ => List.mem_cons_of_mem _⟩
  | forge f now fresh =>
      cases received : receive s w f now fresh with
      | ok result => exact absurd received (rejected result)
      | error e =>
          simp only [step, received]
          exact ⟨⟨rfl, rfl⟩, fun _ => List.mem_cons_of_mem _⟩

theorem Same.receive {w' : World} (same : Same w w') (f : Flight) (now fresh : Nat) :
    RatchetPair.receive s w f now fresh = RatchetPair.receive s w' f now fresh := by
  simp only [RatchetPair.receive, receiving, same.1]

theorem Same.step {w' : World} (same : Same w w') (action : Action) :
    Same (RatchetPair.step s w action) (RatchetPair.step s w' action) := by
  obtain ⟨session, flights, drawn⟩ := w
  obtain ⟨session', flights', drawn'⟩ := w'
  obtain ⟨rfl, rfl⟩ := same
  have kept : Same ⟨session, flights, drawn⟩ ⟨session, flights, drawn'⟩ := ⟨rfl, rfl⟩
  have receives := kept.receive (s := s)
  cases action with
  | send sender text =>
      simp only [RatchetPair.step]
      split
      · exact ⟨rfl, rfl⟩
      · split <;> exact ⟨rfl, rfl⟩
  | deliver n now fresh =>
      simp only [RatchetPair.step]
      split
      · exact ⟨rfl, rfl⟩
      · rw [receives]
        split <;> exact ⟨rfl, rfl⟩
  | forge f now fresh =>
      simp only [RatchetPair.step, receives]
      split <;> exact ⟨rfl, rfl⟩

/-- What was rejected leaves no trace in what comes after. -/
theorem Same.run {w w' : World} (same : Same w w') (actions : List Action) :
    Same (RatchetPair.run s w actions) (RatchetPair.run s w' actions) := by
  induction actions generalizing w w' with
  | nil => exact same
  | cons action rest ih => exact ih (same.step action)

theorem openedIn_append {w w' : World} {f : Flight} (isFlights : w'.flights = w.flights ++ [f])
    (unopened : f.opened = false) (n : Nat) : OpenedIn w' n ↔ OpenedIn w n := by
  rw [OpenedIn, OpenedIn, isFlights]
  constructor
  · rintro ⟨g, found, isOpen⟩
    by_cases last : n < w.flights.length
    · rw [List.getElem?_append_left last] at found
      exact ⟨g, found, isOpen⟩
    · rw [List.getElem?_append_right (by omega)] at found
      have isNew := List.mem_singleton.mp (List.mem_of_getElem? found)
      rw [isNew, unopened] at isOpen
      cases isOpen
  · rintro ⟨g, found, isOpen⟩
    have early := (List.getElem?_eq_some_iff.mp found).choose
    exact ⟨g, by rw [List.getElem?_append_left early]; exact found, isOpen⟩

theorem openedIn_set {w w' : World} {f : Flight} {m : Nat} (found : w.flights[m]? = some f)
    (isFlights : w'.flights = w.flights.set m { f with opened := true }) (n : Nat) :
    OpenedIn w' n ↔ OpenedIn w n ∨ n = m := by
  rw [OpenedIn, OpenedIn, isFlights]
  by_cases here : n = m
  · subst here
    rw [List.getElem?_set_self (List.getElem?_eq_some_iff.mp found).choose]
    simp
  · rw [List.getElem?_set_ne (Ne.symm here)]
    simp [here]

/-- A fair step keeps the pair linked, and opens what arrives. -/
theorem Linked.step (linked : Linked s key len idx w) {action : Action} (fair : Fair s w action) :
    (∃ key' len' idx', Linked s key' len' idx' (RatchetPair.step s w action) ∧
      Grown w key idx key' idx') ∧
      ∀ n, OpenedIn (RatchetPair.step s w action) n ↔ OpenedIn w n ∨ n ∈ arrival w action := by
  cases action with
  | send sender text =>
      cases found : w.session sender with
      | none =>
          simp only [RatchetPair.step, found]
          exact ⟨⟨key, len, idx, linked, .refl w key idx⟩, by simp [arrival]⟩
      | some session =>
          cases sent : sealV2 session (s.userId sender) text with
          | error e =>
              simp only [RatchetPair.step, found, sent]
              exact ⟨⟨key, len, idx, linked, .refl w key idx⟩, by simp [arrival]⟩
          | ok result =>
              obtain ⟨envelope, next⟩ := result
              simp only [RatchetPair.step, found, sent]
              refine ⟨⟨_, _, _, linked.send (f := { sender, envelope, text }) found rfl sent rfl rfl rfl,
                .refl w key idx⟩, ?_⟩
              intro n
              rw [openedIn_append rfl rfl]
              simp [arrival]
  | deliver n now fresh =>
      obtain ⟨new, within⟩ := fair
      cases found : w.flights[n]? with
      | none =>
          simp only [RatchetPair.step, found]
          exact ⟨⟨key, len, idx, linked, .refl w key idx⟩, by simp [arrival, found]⟩
      | some f =>
          cases isOpen : f.opened with
          | true =>
              have rejected : Rejected s w (.deliver n now fresh) := by
                intro g isFlight
                obtain rfl := Option.some.inj (found.symm.trans isFlight)
                exact linked.rejects (List.mem_of_getElem? found) isOpen now fresh
              obtain ⟨same, more⟩ := step_rejected rejected
              refine ⟨⟨key, len, idx, linked.redrawn same more, .refl w key idx⟩, ?_⟩
              intro m
              have isHere : OpenedIn w n := ⟨f, found, isOpen⟩
              simp only [arrival, found, Option.isSome_some, if_true, List.mem_singleton]
              rw [OpenedIn, ← same.2]
              constructor
              · exact .inl
              · rintro (before | rfl)
                · exact before
                · exact isHere
          | false =>
              obtain ⟨next, received, lasts⟩ := linked.deliver found isOpen (within f found isOpen) now new
              simp only [RatchetPair.step, found, received]
              refine ⟨lasts _ rfl rfl rfl, ?_⟩
              intro m
              rw [openedIn_set found rfl]
              simp [arrival, found]
  | forge f now fresh =>
      have rejected : Rejected s w (.forge f now fresh) := fair
      obtain ⟨same, more⟩ := step_rejected rejected
      refine ⟨⟨key, len, idx, linked.redrawn same more, .refl w key idx⟩, ?_⟩
      intro n
      simp [OpenedIn, arrival, same.2]

theorem drawn_step (action : Action) : ∀ name ∈ w.drawn, name ∈ (RatchetPair.step s w action).drawn := by
  intro name isDrawn
  cases action with
  | send sender text =>
      simp only [RatchetPair.step]
      split
      · exact isDrawn
      · split <;> exact isDrawn
  | deliver n now fresh =>
      simp only [RatchetPair.step]
      split
      · exact isDrawn
      · split <;> exact List.mem_cons_of_mem _ isDrawn
  | forge f now fresh =>
      simp only [RatchetPair.step]
      split <;> exact List.mem_cons_of_mem _ isDrawn

theorem fairRun_append {first second : List Action} :
    FairRun s w (first ++ second) ↔ FairRun s w first ∧ FairRun s (run s w first) second := by
  induction first generalizing w with
  | nil => simp [FairRun, run]
  | cons action rest ih =>
      have isRun : run s w (action :: rest) = run s (step s w action) rest := rfl
      rw [List.cons_append, FairRun, FairRun, ih, isRun, and_assoc]

theorem run_append (first second : List Action) : run s w (first ++ second) = run s (run s w first) second :=
  List.foldl_append ..

theorem drawn_run (actions : List Action) : ∀ name ∈ w.drawn, name ∈ (run s w actions).drawn := by
  induction actions generalizing w with
  | nil => exact fun _ => id
  | cons action rest ih => exact fun name isDrawn => ih name (drawn_step action name isDrawn)

theorem Linked.run (linked : Linked s key len idx w) {actions : List Action} (fair : FairRun s w actions) :
    (∃ key' len' idx', Linked s key' len' idx' (RatchetPair.run s w actions) ∧ Grown w key idx key' idx') ∧
      ∀ n, OpenedIn (RatchetPair.run s w actions) n ↔ OpenedIn w n ∨ n ∈ arrivals s w actions := by
  induction actions generalizing w key len idx with
  | nil =>
      exact ⟨⟨key, len, idx, linked, .refl w key idx⟩, by simp [RatchetPair.run, arrivals]⟩
  | cons action rest ih =>
      obtain ⟨⟨_, _, _, linked', grown⟩, opens⟩ := linked.step fair.1
      obtain ⟨⟨key', len', idx', linked'', grown'⟩, opens'⟩ := ih linked' fair.2
      refine ⟨⟨key', len', idx', linked'', grown.trans grown' (drawn_step action)⟩, ?_⟩
      intro n
      have isRun : RatchetPair.run s w (action :: rest) =
          RatchetPair.run s (RatchetPair.step s w action) rest := rfl
      rw [isRun, opens', opens, arrivals, List.mem_append, or_assoc]

/-- In every run, an envelope that arrives for the first time gives back what was sealed, one that has
arrived before is rejected, and whatever is rejected changes nothing of what comes later. -/
theorem delivers (s : Setting) (actions : List Action) (fair : FairRun s (start s) actions) :
    (∀ n f, (run s (start s) actions).flights[n]? = some f → ∀ now fresh,
      (n ∉ arrivals s (start s) actions → fresh ∉ (run s (start s) actions).drawn →
        Within (stateOf s (run s (start s) actions) (other f.sender)) f.envelope →
        ∃ next, receive s (run s (start s) actions) f now fresh =
          .ok (utf8Decode (utf8Encode f.text), next)) ∧
      (n ∈ arrivals s (start s) actions → ∀ result,
        receive s (run s (start s) actions) f now fresh ≠ .ok result)) ∧
    ∀ action, Rejected s (run s (start s) actions) action → ∀ later,
      Same (run s (run s (start s) actions) later) (run s (step s (run s (start s) actions) action) later) := by
  obtain ⟨⟨key, len, idx, linked, _⟩, opens⟩ := (Linked.start s).run fair
  have none (n : Nat) : ¬OpenedIn (start s) n := by
    rintro ⟨f, found, _⟩
    cases found
  refine ⟨?_, fun action rejected later => (step_rejected rejected).1.run later⟩
  intro n f found now fresh
  refine ⟨?_, ?_⟩
  · intro notYet new within
    have unopened : f.opened = false := by
      by_contra isOpen
      have arrived := (opens n).mp ⟨f, found, Bool.eq_true_of_not_eq_false isOpen⟩
      exact notYet (arrived.resolve_left (none n))
    obtain ⟨next, received, _⟩ := linked.deliver found unopened within now new
    exact ⟨next, received⟩
  · intro arrived
    obtain ⟨g, isFlight, isOpen⟩ := (opens n).mpr (.inr arrived)
    obtain rfl := Option.some.inj (found.symm.trans isFlight)
    exact linked.rejects (List.mem_of_getElem? found) isOpen now fresh

/-- A device's identity, from the names of its keys. -/
def holder (ed x spk : Nat) : StoredIdentity where
  edPriv := toBase64 (.secret ed)
  edPub := toBase64 (.pub ed)
  xPriv := toBase64 (.secret x)
  xPub := toBase64 (.pub x)
  spkId := 1
  spkPriv := toBase64 (.secret spk)
  spkPub := toBase64 (.pub spk)
  createdAt := 0

def bundleOf (ed x spk : Nat) : PeerBundle where
  identityEd25519 := toBase64 (.pub ed)
  identityX25519 := toBase64 (.pub x)
  signedPreKey := { keyId := 1, pubX25519 := toBase64 (.pub spk), sig := toBase64 (.sig ed (.pub spk)) }
  keyVersion := 1

/-- Two devices, and the session that the first of them has started with the second. -/
def pair : Setting where
  conversationId := "dm"
  userId role := if role = .init then "a" else "b"
  initiator := holder 1 2 3
  responder := holder 4 5 6
  bundle := bundleOf 4 5 6
  sessionId := "s"
  startedAt := 0
  ikA := 2
  ikB := 5
  spk := 6
  ek := 7
  dhs := 8
  session := {
    sessionId := "s"
    conversationId := "dm"
    peerId := "b"
    role := .init
    createdAt := 0
    sendTotal := 0
    peerReplied := false
    init := some { ephPub := toBase64 (.pub 7), ik := toBase64 (.pub 2), spkId := 1 }
    state := {
      dhsPriv := toBase64 (.secret 8)
      dhsPub := toBase64 (.pub 8)
      dhr := some (toBase64 (.pub 6))
      rk := toBase64 (kdfRoot (sharedSecret (.shared 2 6) (.shared 5 7) (.shared 6 7)) (.shared 6 8)).rk
      cks := some
        (toBase64 (kdfRoot (sharedSecret (.shared 2 6) (.shared 5 7) (.shared 6 7)) (.shared 6 8)).ck)
      ckr := none
      ns := 0
      nr := 0
      pn := 0
      skipped := [] } }
  xPriv := rfl
  xPub := rfl
  responderPriv := rfl
  spkPriv := rfl
  spkPub := rfl
  served := rfl
  servedPreKey := rfl
  keyId := rfl
  started := rfl
  apart := by decide

/-- A message is sealed and delivered. -/
def exchange : List Action :=
  [.send .init [104, 105], .deliver 0 5 9]

theorem fair_exchange : FairRun pair (start pair) exchange := by
  refine ⟨trivial, ⟨by decide, ?_⟩, trivial⟩
  intro f found _
  obtain rfl : _ = f := Option.some.inj found
  refine .inr ?_
  rw [if_neg (by decide)]
  refine ⟨?_, ?_, ?_⟩ <;> decide

/-- Delivered once more, it is rejected. -/
theorem delivers_exchange : FairRun pair (start pair) exchange ∧
    ∀ f, (run pair (start pair) exchange).flights[0]? = some f → ∀ result,
      receive pair (run pair (start pair) exchange) f 6 10 ≠ .ok result := by
  refine ⟨fair_exchange, ?_⟩
  intro f found
  exact ((delivers pair exchange fair_exchange).1 0 f found 6 10).2 (by decide)

end RatchetPair
