import CipherChat.Ratchet.Interleavings

/-!
The keys of a pair over its whole life: no two messages share one, one that is kept is for a message
still on its way, and when nothing is on its way both parties are at the same place.
-/

namespace RatchetPair

open Symbolic Number Primitives KeyStore DoubleRatchet EnvelopeV2

section

variable {s : Setting} {key len : Nat → Nat} {idx : Role → Nat} {w : World}

theorem Genuine.opens {i n : Nat} {f : Flight} (genuine : Genuine s key len i n f) {k iv p a : Term}
    (isSealed : fromBase64 f.envelope.ct = .ok (.aead k iv p a)) :
    k = (cipherParams (messageKeyAfter (chain (secret s) key i) n)).key := by
  rw [genuine.ct, fromBase64_toBase64, Except.ok.injEq, ciphertext, Term.aead.injEq] at isSealed
  exact isSealed.1.symm

/-- No key seals two messages, in either direction. -/
theorem no_key_twice (s : Setting) (actions : List Action) (fair : FairRun s (start s) actions)
    {n m : Nat} {f g : Flight} (first : (run s (start s) actions).flights[n]? = some f)
    (second : (run s (start s) actions).flights[m]? = some g) {k iv p a iv' p' a' : Term}
    (isFirst : fromBase64 f.envelope.ct = .ok (.aead k iv p a))
    (isSecond : fromBase64 g.envelope.ct = .ok (.aead k iv' p' a')) : n = m := by
  obtain ⟨⟨key, len, idx, linked, _⟩, _⟩ := (Linked.start s).run fair
  obtain ⟨i, l, _, genuine, _⟩ := linked.flights f (List.mem_of_getElem? first)
  obtain ⟨i', l', _, genuine', _⟩ := linked.flights g (List.mem_of_getElem? second)
  have same := (genuine.opens isFirst).symm.trans (genuine'.opens isSecond)
  obtain ⟨rfl, rfl⟩ := messageKeyAfter_chain_inj genuine.some genuine'.some (cipherKey_injective same)
  refine (List.getElem?_inj ?_ linked.apart).mp ?_
  · rw [List.length_map]
    exact (List.getElem?_eq_some_iff.mp first).choose
  · rw [List.getElem?_map, List.getElem?_map, first, second, Option.map_some, Option.map_some, genuine.dh,
      genuine'.dh, genuine.number, genuine'.number]

/-- Two messages are sealed, and the second of them arrives. -/
def overtaking : List Action :=
  [.send .init [104], .send .init [105], .deliver 1 5 9]

theorem fair_overtaking : FairRun pair (start pair) overtaking := by
  refine ⟨trivial, trivial, ⟨by decide, ?_⟩, trivial⟩
  intro f found _
  obtain rfl : _ = f := Option.some.inj found
  refine .inr ?_
  rw [if_neg (by decide)]
  refine ⟨?_, ?_, ?_⟩ <;> decide

theorem no_key_twice_overtaking : FairRun pair (start pair) overtaking ∧ ∀ f g,
    (run pair (start pair) overtaking).flights[0]? = some f →
      (run pair (start pair) overtaking).flights[1]? = some g → ∀ k iv p a,
        fromBase64 f.envelope.ct = .ok (.aead k iv p a) →
          ∀ iv' p' a', fromBase64 g.envelope.ct ≠ .ok (.aead k iv' p' a') := by
  refine ⟨fair_overtaking, ?_⟩
  intro f g first second k iv p a isFirst iv' p' a' isSecond
  exact absurd (no_key_twice pair overtaking fair_overtaking first second isFirst isSecond) (by decide)

/-- The key stands under the label of the envelope, and opens it. -/
structure Keeps (s : Setting) (e : SkippedKey) (f : Flight) : Prop where
  label : isSkipped (header f.envelope) e = true
  opens : ∃ mk, e.mk = toBase64 mk ∧ f.envelope.ct = toBase64 (ciphertext s mk f)

/-- A kept key is that of an envelope that has yet to be opened. -/
theorem Linked.kept (linked : Linked s key len idx w) {role : Role} {e : SkippedKey}
    (isKept : e ∈ (stateOf s w role).skipped) :
    ∃ f ∈ w.flights, f.sender = other role ∧ f.opened = false ∧ Keeps s e f := by
  have r := linked.receivers role
  obtain ⟨i, some, passed, isPeer, isMk, apart, sealed⟩ := r.stored e isKept
  obtain ⟨_, f, member, isDh, isNumber⟩ := linked.complete i e.n sealed
  obtain ⟨i', n', near, genuine, received⟩ := linked.flights f member
  have bound := passed.le
  have own := le_top idx role
  have same : i' = i := by
    rw [genuine.dh, toBase64, toBase64, Base64.enc.injEq, Term.pub.injEq] at isDh
    exact linked.distinct i' (near.trans (le_top _ _)) i (by omega) isDh.2
  subst same
  have isOther : f.sender = other role := by
    have parity := genuine.parity
    have parity' := linked.parity role
    cases hs : f.sender <;> cases role <;> simp [hs, other] at parity parity' ⊢ <;> omega
  have fits : isSkipped (header f.envelope) e = true := by
    rw [isSkipped_iff, header, isDh, isNumber]
    exact ⟨isPeer, rfl⟩
  have isEnd : n' = e.n := Nat.cast_injective (genuine.number.symm.trans isNumber)
  refine ⟨f, member, isOther, ?_, fits, _, isMk, isEnd ▸ genuine.ct⟩
  by_contra isOpen
  have isRole : other f.sender = role := by
    rw [isOther]
    cases role <;> rfl
  rw [isRole] at received
  obtain ⟨_, gone⟩ := received.opened (Bool.eq_true_of_not_eq_false isOpen)
  rw [gone e isKept] at fits
  cases fits

/-- In every run, a key is kept only for an envelope of the peer that has not been opened. -/
theorem kept_missing (s : Setting) (actions : List Action) (fair : FairRun s (start s) actions)
    (role : Role) : ∀ e ∈ (stateOf s (run s (start s) actions) role).skipped,
      ∃ f ∈ (run s (start s) actions).flights, f.sender = other role ∧ f.opened = false ∧ Keeps s e f := by
  obtain ⟨⟨key, len, idx, linked, _⟩, _⟩ := (Linked.start s).run fair
  exact fun _ => linked.kept

theorem kept_missing_overtaking : (stateOf pair (run pair (start pair) overtaking) .resp).skipped ≠ [] ∧
    ∀ e ∈ (stateOf pair (run pair (start pair) overtaking) .resp).skipped,
      ∃ f ∈ (run pair (start pair) overtaking).flights, f.sender = .init ∧ f.opened = false ∧
        Keeps pair e f :=
  ⟨by decide +kernel, kept_missing pair overtaking fair_overtaking .resp⟩

/-- When every message has been opened, the party that is a key ahead has read the other's chain to its
end. -/
theorem Linked.caught_up (linked : Linked s key len idx w) {role : Role}
    (ahead : idx role = idx (other role) + 1) (quiet : ∀ f ∈ w.flights, f.opened = true) :
    (stateOf s w role).nr = len (idx (other role)) := by
  have r := linked.receivers role
  by_cases first : idx (other role) = 0
  · obtain ⟨isZero, _⟩ := r.side.idle (by omega)
    have none : ¬0 < len 0 := fun some => Nat.lt_irrefl 0 (linked.complete 0 0 some).1
    rw [isZero, first]
    omega
  · have reached := r.reached (by omega)
    rw [ahead, Nat.add_sub_cancel] at reached
    by_contra behind
    obtain ⟨_, f, member, isDh, isNumber⟩ :=
      linked.complete (idx (other role)) (len (idx (other role)) - 1) (by omega)
    obtain ⟨i, n, near, genuine, received⟩ := linked.flights f member
    have isLast : i = idx (other role) := by
      rw [genuine.dh, toBase64, toBase64, Base64.enc.injEq, Term.pub.injEq] at isDh
      exact linked.distinct i (near.trans (le_top _ _)) _ (le_top _ _) isDh.2
    have isEnd : n = len (idx (other role)) - 1 := Nat.cast_injective (genuine.number.symm.trans isNumber)
    have isRole : other f.sender = role := by
      have parity := genuine.parity
      have parity' := linked.parity role
      cases hs : f.sender <;> cases role <;> simp [hs, other] at parity parity' ahead isLast ⊢ <;> omega
    rw [isRole] at received
    obtain ⟨passed, _⟩ := received.opened (quiet f member)
    rcases passed with early | ⟨_, below⟩ <;> omega

/-- The party's ratchet key had been drawn. -/
def Drew (w : World) (state : RatchetState) : Prop :=
  ∃ name ∈ w.drawn, state.dhsPub = toBase64 (.pub name)

/-- At no time of the run had the first party drawn its ratchet key and the second had not. -/
def Newer (s : Setting) (actions : List Action) (first second : RatchetState) : Prop :=
  ∀ earlier later, actions = earlier ++ later → Drew (run s (start s) earlier) first →
    Drew (run s (start s) earlier) second

theorem Linked.ahead (linked : Linked s key len idx w) {role : Role}
    (holds : (stateOf s w role).dhr = some (stateOf s w (other role)).dhsPub) :
    idx role = idx (other role) + 1 := by
  have r := linked.receivers role
  have r' := linked.receivers (other role)
  have near : idx role = idx (other role) + 1 ∨ idx (other role) = idx role + 1 := by
    have either := linked.near
    cases role with
    | init => exact either
    | resp => exact either.symm
  refine near.resolve_right fun behind => ?_
  rw [r.side.dhr, r'.side.dhsPub] at holds
  split at holds
  next => cases holds
  next =>
    rw [toBase64, toBase64, Option.some.injEq, Base64.enc.injEq, Term.pub.injEq] at holds
    have own := le_top idx (other role)
    have same := linked.distinct (idx role - 1) (by omega) (idx (other role)) own holds.2
    omega

/-- Who holds the other's current key has drawn its own no earlier. -/
theorem newer_of_holds {actions : List Action} (fair : FairRun s (start s) actions) {role : Role}
    (holds : (stateOf s (run s (start s) actions) role).dhr =
      some (stateOf s (run s (start s) actions) (other role)).dhsPub) :
    Newer s actions (stateOf s (run s (start s) actions) role)
      (stateOf s (run s (start s) actions) (other role)) := by
  rintro earlier later rfl ⟨name, isDrawn, isKey⟩
  obtain ⟨first, second⟩ := fairRun_append.mp fair
  obtain ⟨⟨key, len, idx, linked, _⟩, _⟩ := (Linked.start s).run first
  obtain ⟨⟨key', len', idx', linked', grown⟩, _⟩ := linked.run second
  rw [← run_append] at linked'
  have isAhead := linked'.ahead holds
  have own := le_top idx' role
  rw [(linked'.receivers role).side.dhsPub, toBase64, toBase64, Base64.enc.injEq, Term.pub.injEq] at isKey
  have early : idx' role ≤ top idx := by
    by_contra late
    exact grown.new (idx' role) (Nat.lt_of_not_le late) own (isKey.2 ▸ isDrawn)
  refine ⟨key' (idx' (other role)), ?_, (linked'.receivers (other role)).side.dhsPub⟩
  rw [grown.same _ (by omega)]
  exact linked.drawn _ (by omega)

/-- When every message has been opened, nothing is kept, and the party with the newer ratchet key
receives on the very key that the other sends with. -/
theorem quiet_agrees (s : Setting) (actions : List Action) (fair : FairRun s (start s) actions)
    (quiet : ∀ f ∈ (run s (start s) actions).flights, f.opened = true) :
    (∀ role, (stateOf s (run s (start s) actions) role).skipped = []) ∧
      ∃ ahead, Newer s actions (stateOf s (run s (start s) actions) ahead)
          (stateOf s (run s (start s) actions) (other ahead)) ∧
        (stateOf s (run s (start s) actions) ahead).dhr =
          some (stateOf s (run s (start s) actions) (other ahead)).dhsPub ∧
        (stateOf s (run s (start s) actions) ahead).ckr =
          (stateOf s (run s (start s) actions) (other ahead)).cks ∧
        (stateOf s (run s (start s) actions) ahead).nr =
          (stateOf s (run s (start s) actions) (other ahead)).ns := by
  refine ⟨?_, ?_⟩
  · intro role
    rw [List.eq_nil_iff_forall_not_mem]
    intro e isKept
    obtain ⟨f, member, _, unopened, _⟩ := kept_missing s actions fair role e isKept
    rw [quiet f member] at unopened
    cases unopened
  · obtain ⟨⟨key, len, idx, linked, _⟩, _⟩ := (Linked.start s).run fair
    obtain ⟨ahead, isAhead⟩ : ∃ ahead, idx ahead = idx (other ahead) + 1 := by
      rcases linked.near with first | second
      · exact ⟨.init, first⟩
      · exact ⟨.resp, second⟩
    have r := linked.receivers ahead
    have r' := linked.receivers (other ahead)
    have isEnd := linked.caught_up isAhead quiet
    have holds : (stateOf s (run s (start s) actions) ahead).dhr =
        some (stateOf s (run s (start s) actions) (other ahead)).dhsPub := by
      rw [r.side.dhr, r'.side.dhsPub, if_neg (by omega), isAhead, Nat.add_sub_cancel]
    refine ⟨ahead, newer_of_holds fair holds, holds, ?_, ?_⟩
    · rw [r.side.ckr, r'.side.cks, isEnd, isAhead, Nat.add_sub_cancel]
      by_cases first : idx (other ahead) = 0
      · rw [if_pos (by omega), if_pos first]
      · rw [if_neg (by omega), if_neg first]
    · rw [isEnd, r'.side.ns]

theorem quiet_agrees_exchange : (run pair (start pair) exchange).flights.length = 1 ∧
    (stateOf pair (run pair (start pair) exchange) .resp).skipped = [] :=
  ⟨by decide +kernel, (quiet_agrees pair exchange fair_exchange (by decide +kernel)).1 .resp⟩

end

end RatchetPair
