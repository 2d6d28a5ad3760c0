import CipherChat.Privacy.Tokens

/-!
What one pass of `redact` does to the tokens of a text: those that a match swallows, those that stay,
and those that it puts in.
-/

namespace PiiRedactor

open Rooms (JavaString)
open Regex

section Accepted

variable (accept : JavaString → Bool)

/-- The accepted matches; any other stands for itself. -/
def accepted (ps : List (Piece UInt16)) : List (Piece UInt16) :=
  ps.flatMap fun
    | .gap x => [.gap x]
    | .hit m => if accept m then [.hit m] else m.map .gap

/-- The text as the pass cuts it. -/
def Pass.cut (p : Pass) (text : JavaString) : List (Piece UInt16) :=
  accepted p.accept (p.split text)

variable {accept}

theorem accepted_all (ps : List (Piece UInt16)) : accepted (fun _ => true) ps = ps := by
  induction ps with
  | nil => rfl
  | cons p ps ih =>
      rw [accepted, List.flatMap_cons, ← accepted, ih]
      cases p with
      | gap x => rfl
      | hit m => rfl

theorem whole_accepted (ps : List (Piece UInt16)) : whole (accepted accept ps) = whole ps := by
  induction ps with
  | nil => rfl
  | cons p ps ih =>
      rw [accepted, List.flatMap_cons, whole_append, ← accepted, ih]
      cases p with
      | gap x => rfl
      | hit m =>
          simp only [whole_hit]
          split <;> simp

theorem hit_of_accepted {ps : List (Piece UInt16)} {m : JavaString}
    (member : .hit m ∈ accepted accept ps) : .hit m ∈ ps := by
  obtain ⟨p, isPiece, here⟩ := List.mem_flatMap.mp member
  cases p with
  | gap x => simp at here
  | hit m' =>
      simp only at here
      split at here
      · obtain rfl := Piece.hit.inj (List.mem_singleton.mp here)
        exact isPiece
      · simp at here

theorem accepted_gaps (accept : JavaString → Bool) (w : JavaString) (ps : List (Piece UInt16)) :
    accepted accept (w.map .gap ++ ps) = w.map .gap ++ accepted accept ps := by
  induction w with
  | nil => rfl
  | cons x w ih =>
      rw [List.map_cons, List.cons_append, accepted, List.flatMap_cons, ← accepted, ih]
      rfl

end Accepted

section Replace

variable {u : Unicode} {type : EntityType}

/-- `replace` where every match is accepted. -/
abbrev put (u : Unicode) (type : EntityType) : List (Piece UInt16) → Session → JavaString × Session :=
  replace u type fun _ => true

@[simp] theorem put_gap (x : UInt16) (ps : List (Piece UInt16)) (r : Session) :
    put u type (.gap x :: ps) r = (x :: (put u type ps r).1, (put u type ps r).2) := by
  rfl

@[simp] theorem put_hit (m : JavaString) (ps : List (Piece UInt16)) (r : Session) :
    put u type (.hit m :: ps) r = ((tokenFor u type m r).1 ++ (put u type ps (tokenFor u type m r).2).1,
      (put u type ps (tokenFor u type m r).2).2) := by
  rfl

theorem put_gaps (w : JavaString) (ps : List (Piece UInt16)) (r : Session) :
    put u type (w.map .gap ++ ps) r = (w ++ (put u type ps r).1, (put u type ps r).2) := by
  induction w with
  | nil => rfl
  | cons x w ih => rw [List.map_cons, List.cons_append, put_gap, ih, List.cons_append]

theorem replace_eq (accept : JavaString → Bool) (ps : List (Piece UInt16)) (r : Session) :
    replace u type accept ps r = put u type (accepted accept ps) r := by
  induction ps generalizing r with
  | nil => rfl
  | cons p ps ih =>
      rw [accepted, List.flatMap_cons, ← accepted]
      cases p with
      | gap x => rw [replace, ih, List.singleton_append, put_gap]
      | hit m =>
          simp only [replace]
          split
          next => rw [ih, List.singleton_append, put_hit]
          next => rw [ih, put_gaps]

theorem run_eq (p : Pass) (now : JavaString × Session) :
    p.run u now = put u p.type (p.cut now.1) now.2 :=
  replace_eq p.accept (p.split now.1) now.2

end Replace

section Sound

variable {u : Unicode}

/-- A value has the token that its key has, and no token is taken twice. -/
structure Session.Sound (u : Unicode) (r : Session) : Prop where
  named : ∀ key token, r.byValue.lookup key = some token → ∃ n v, token = tokenOf key.1 n ∧
    r.map.lookup token = some v ∧ keyOf u key.1 v = key
  counted : ∀ token v, (token, v) ∈ r.map → ∃ type n, token = tokenOf type n ∧ n ≤ r.counters type

theorem Session.sound_fresh : Session.Sound u {} where
  named _ _ found := by cases found
  counted _ _ member := by cases member

theorem lookup_grown {α β : Type} [BEq α] {first later : List (α × β)} (extends' : first <+: later)
    {a : α} {b : β} (found : first.lookup a = some b) : later.lookup a = some b := by
  obtain ⟨more, rfl⟩ := extends'
  rw [List.lookup_append, found]
  rfl

theorem mem_of_lookup {α β : Type} [BEq α] [LawfulBEq α] {l : List (α × β)} {a : α} {b : β}
    (found : l.lookup a = some b) : (a, b) ∈ l := by
  obtain ⟨front, rest, rfl, _⟩ := List.lookup_eq_some_iff.mp found
  simp

/-- What `tokenFor` returns, and what it may have noted. -/
structure Hands (u : Unicode) (type : EntityType) (value : JavaString) (r : Session)
    (out : JavaString × Session) : Prop where
  sound : out.2.Sound u
  grows : r.map <+: out.2.map
  only : ∀ t v, out.2.map.lookup t = some v → r.map.lookup t = some v ∨ t = out.1 ∧ v = value
  token : ∃ n v, out.1 = tokenOf type n ∧ out.2.map.lookup out.1 = some v ∧
    keyOf u type v = keyOf u type value

theorem tokenFor_hands {r : Session} (sound : r.Sound u) (type : EntityType) (value : JavaString) :
    Hands u type value r (tokenFor u type value r) := by
  rw [tokenFor]
  cases found : r.byValue.lookup (keyOf u type value) with
  | some existing =>
      obtain ⟨n, v, isToken, listed, same⟩ := sound.named _ _ found
      exact ⟨sound, List.prefix_rfl, fun _ _ => .inl, n, v, isToken, listed, same⟩
  | none =>
      simp only
      have isNew (v : JavaString) : (tokenOf type (r.counters type + 1), v) ∉ r.map := by
        intro member
        obtain ⟨type', n, same, small⟩ := sound.counted _ _ member
        obtain ⟨rfl, rfl⟩ := tokenOf_injective same
        omega
      have fresh : r.map.lookup (tokenOf type (r.counters type + 1)) = none := by
        cases old : r.map.lookup (tokenOf type (r.counters type + 1)) with
        | none => rfl
        | some v => exact absurd (mem_of_lookup old) (isNew v)
      have listed : (r.map ++ [(tokenOf type (r.counters type + 1), value)]).lookup
          (tokenOf type (r.counters type + 1)) = some value := by
        rw [List.lookup_append, fresh]
        simp
      have grows : r.map <+: r.map ++ [(tokenOf type (r.counters type + 1), value)] :=
        List.prefix_append _ _
      refine ⟨⟨?_, ?_⟩, grows, ?_, ?_⟩
      · intro key token isNamed
        rw [List.lookup_append] at isNamed
        cases old : r.byValue.lookup key with
        | some token' =>
            rw [old] at isNamed
            obtain rfl := Option.some.inj isNamed
            obtain ⟨n, v, isToken, isListed, same⟩ := sound.named _ _ old
            exact ⟨n, v, isToken, lookup_grown grows isListed, same⟩
        | none =>
            rw [old, Option.none_or, List.lookup_cons] at isNamed
            split at isNamed
            next isKey =>
              obtain rfl := eq_of_beq isKey
              obtain rfl := Option.some.inj isNamed
              exact ⟨_, value, rfl, listed, rfl⟩
            next => cases isNamed
      · intro token v member
        rcases List.mem_append.mp member with old | new
        · obtain ⟨type', n, rfl, small⟩ := sound.counted _ _ old
          refine ⟨type', n, rfl, small.trans ?_⟩
          simp only [Function.update_apply]
          split
          next same => exact same ▸ Nat.le_succ _
          next => exact le_rfl
        · obtain ⟨rfl, rfl⟩ := Prod.mk.inj (List.mem_singleton.mp new)
          exact ⟨type, _, rfl, by simp⟩
      · intro t v isListed
        rw [List.lookup_append] at isListed
        cases old : r.map.lookup t with
        | some v' =>
            rw [old] at isListed
            exact .inl isListed
        | none =>
            rw [old, Option.none_or, List.lookup_cons] at isListed
            split at isListed
            next isKey => exact .inr ⟨eq_of_beq isKey, (Option.some.inj isListed).symm⟩
            next => cases isListed
      · exact ⟨_, value, rfl, listed, rfl⟩

theorem Hands.isToken {type : EntityType} {value : JavaString} {r : Session}
    {out : JavaString × Session} (hands : Hands u type value r out) : IsToken out.1 := by
  obtain ⟨n, _, isToken, _⟩ := hands.token
  exact isToken ▸ isToken_tokenOf type n

theorem put_sound {type : EntityType} {ps : List (Piece UInt16)} {r : Session} (sound : r.Sound u) :
    (put u type ps r).2.Sound u ∧ r.map <+: (put u type ps r).2.map := by
  induction ps generalizing r with
  | nil => exact ⟨sound, List.prefix_rfl⟩
  | cons p ps ih =>
      cases p with
      | gap x => exact ih sound
      | hit m =>
          have hands := tokenFor_hands sound type m
          obtain ⟨sound', grows⟩ := ih hands.sound
          exact ⟨sound', hands.grows.trans grows⟩

/-- The map tells of every match, and of nothing else. -/
theorem put_lookup {type : EntityType} {ps : List (Piece UInt16)} {r : Session} (sound : r.Sound u)
    {t v : JavaString} (listed : (put u type ps r).2.map.lookup t = some v) :
    r.map.lookup t = some v ∨ (∃ n, t = tokenOf type n) ∧ .hit v ∈ ps := by
  induction ps generalizing r with
  | nil => exact .inl listed
  | cons p ps ih =>
      cases p with
      | gap x => exact (ih sound listed).imp_right (And.imp_right (List.mem_cons_of_mem _))
      | hit m =>
          have hands := tokenFor_hands sound type m
          rcases ih hands.sound listed with old | new
          · rcases hands.only t v old with older | ⟨rfl, rfl⟩
            · exact .inl older
            · obtain ⟨n, _, isToken, _⟩ := hands.token
              exact .inr ⟨⟨n, isToken⟩, List.mem_cons_self⟩
          · exact .inr (new.imp_right (List.mem_cons_of_mem _))

end Sound

section Swallowed

def isGap : Piece UInt16 → Bool
  | .gap _ => true
  | .hit _ => false

/-- The tokens that begin in the first text, when the other one follows. -/
def beginIn (rest : JavaString) : JavaString → List JavaString
  | [] => []
  | x :: s => (tokenAt (x :: (s ++ rest))).toList ++ beginIn rest s

def tokensIn (text : JavaString) : List JavaString :=
  beginIn [] text

/-- The token that begins with this character and reaches into a match. -/
def cutOff (x : UInt16) (ps : List (Piece UInt16)) : List JavaString :=
  (tokenAt (x :: whole ps)).toList.filter fun t => !(ps.take (t.length - 1)).all isGap

/-- The tokens that share a character with a match. -/
def swallowed : List (Piece UInt16) → List JavaString
  | [] => []
  | .gap x :: ps => cutOff x ps ++ swallowed ps
  | .hit m :: ps => beginIn (whole ps) m ++ swallowed ps

theorem tokensIn_cons (x : UInt16) (s : JavaString) :
    tokensIn (x :: s) = (tokenAt (x :: s)).toList ++ tokensIn s := by
  simp [tokensIn, beginIn]

theorem tokensIn_append (s rest : JavaString) :
    tokensIn (s ++ rest) = beginIn rest s ++ tokensIn rest := by
  induction s with
  | nil => rfl
  | cons x s ih => rw [List.cons_append, tokensIn_cons, ih, beginIn, List.append_assoc]

theorem mem_tokensIn {text t : JavaString} : t ∈ tokensIn text ↔ IsToken t ∧ t <:+: text := by
  induction text with
  | nil =>
      simp only [tokensIn, beginIn, List.not_mem_nil, false_iff, not_and]
      intro isToken inside
      obtain ⟨core, rfl, _⟩ := brackets isToken
      exact absurd (List.infix_nil.mp inside) (List.cons_ne_nil _ _)
  | cons x text ih =>
      rw [tokensIn_cons, List.mem_append, Option.mem_toList, ih, List.infix_cons_iff, tokenAt_eq_some]
      tauto

theorem swallowed_subset {ps : List (Piece UInt16)} {t : JavaString} (member : t ∈ swallowed ps) :
    t ∈ tokensIn (whole ps) := by
  induction ps with
  | nil => cases member
  | cons p ps ih =>
      cases p with
      | gap x =>
          rw [whole_gap, tokensIn_cons]
          exact (List.mem_append.mp member).elim
            (fun here => List.mem_append_left _ (List.mem_filter.mp here).1)
            (fun later => List.mem_append_right _ (ih later))
      | hit m =>
          rw [whole_hit, tokensIn_append]
          exact (List.mem_append.mp member).elim (List.mem_append_left _)
            (fun later => List.mem_append_right _ (ih later))

/-- Without a match no token is swallowed. -/
theorem swallowed_none (w : JavaString) : swallowed (w.map .gap) = [] := by
  induction w with
  | nil => rfl
  | cons x w ih =>
      have all (n : Nat) : ((w.map Piece.gap).take n).all isGap = true := by
        rw [← List.map_take, List.all_map]
        exact List.all_eq_true.mpr fun _ _ => rfl
      rw [List.map_cons, swallowed, ih, cutOff]
      simp [all]

/-- No token begins where there is no bracket. -/
theorem beginIn_eq_nil {rest w : JavaString} (plain : 0x5B ∉ w) : beginIn rest w = [] := by
  induction w with
  | nil => rfl
  | cons x w ih =>
      have none : tokenAt (x :: (w ++ rest)) = none := by
        cases found : tokenAt (x :: (w ++ rest)) with
        | none => rfl
        | some t => exact absurd (head_of_tokenAt found ▸ List.mem_cons_self) plain
      rw [beginIn, none, ih fun member => plain (List.mem_cons_of_mem _ member)]
      rfl

theorem swallowed_plain {w : JavaString} (plain : 0x5B ∉ w) {ps : List (Piece UInt16)}
    (spared : swallowed ps = []) : swallowed (w.map .gap ++ ps) = [] := by
  induction w with
  | nil => exact spared
  | cons x w ih =>
      obtain ⟨noMark, plain'⟩ := not_or.mp (mt List.mem_cons.mpr plain)
      have none : tokenAt (x :: whole (w.map .gap ++ ps)) = none := by
        cases found : tokenAt (x :: whole (w.map .gap ++ ps)) with
        | none => rfl
        | some t => exact absurd (head_of_tokenAt found).symm noMark
      rw [List.map_cons, List.cons_append, swallowed, cutOff, none, ih plain']
      rfl

theorem gaps_of_all {w : JavaString} {ps : List (Piece UInt16)} {rest : JavaString}
    (all : (ps.take w.length).all isGap = true) (same : whole ps = w ++ rest) :
    ∃ ps', ps = w.map .gap ++ ps' ∧ whole ps' = rest := by
  induction w generalizing ps with
  | nil => exact ⟨ps, rfl, same⟩
  | cons x w ih =>
      cases ps with
      | nil => cases same
      | cons p ps =>
          rw [List.length_cons, List.take_succ_cons, List.all_cons, Bool.and_eq_true] at all
          cases p with
          | hit m => cases all.1
          | gap y =>
              obtain ⟨rfl, rest'⟩ := List.cons.inj (show y :: whole ps = x :: (w ++ rest) from same)
              obtain ⟨ps', rfl, isRest⟩ := ih all.2 rest'
              exact ⟨ps', rfl, isRest⟩

theorem all_gaps (w : JavaString) (ps : List (Piece UInt16)) :
    ((w.map Piece.gap ++ ps).take w.length).all isGap = true := by
  rw [List.take_left' (List.length_map Piece.gap), List.all_map]
  exact List.all_eq_true.mpr fun _ _ => rfl

variable {u : Unicode} {type : EntityType}

/-- A bracket of the new text that is no token's is the old one's. -/
theorem gaps_of_put {ps : List (Piece UInt16)} {r : Session} (sound : r.Sound u) {w : JavaString}
    (plain : 0x5B ∉ w) (early : w <+: (put u type ps r).1) : ∃ ps', ps = w.map .gap ++ ps' := by
  induction w generalizing ps r with
  | nil => exact ⟨ps, rfl⟩
  | cons x w ih =>
      obtain ⟨noMark, plain'⟩ := not_or.mp (mt List.mem_cons.mpr plain)
      cases ps with
      | nil => exact absurd (List.prefix_nil.mp early) (List.cons_ne_nil _ _)
      | cons p ps =>
          cases p with
          | hit m =>
              have hands := tokenFor_hands sound type m
              obtain ⟨core, isToken, _⟩ := brackets hands.isToken
              rw [put_hit, isToken, List.cons_append] at early
              exact absurd (List.cons_prefix_cons.mp early).1.symm noMark
          | gap y =>
              rw [put_gap] at early
              obtain ⟨rfl, early'⟩ := List.cons_prefix_cons.mp early
              obtain ⟨ps', rfl⟩ := ih sound plain' early'
              exact ⟨ps', rfl⟩

/-- A token that begins between the matches is there afterwards, if no match takes a part of it. -/
theorem tokenAt_put {ps : List (Piece UInt16)} {r : Session} (sound : r.Sound u) (x : UInt16)
    (t : JavaString) : tokenAt (x :: (put u type ps r).1) = some t ↔
      tokenAt (x :: whole ps) = some t ∧ (ps.take (t.length - 1)).all isGap = true := by
  constructor
  · intro found
    obtain ⟨isToken, early⟩ := tokenAt_eq_some.mp found
    obtain ⟨core, rfl, noMark, _⟩ := brackets isToken
    obtain ⟨rfl, early'⟩ := List.cons_prefix_cons.mp early
    obtain ⟨ps', rfl⟩ := gaps_of_put sound (by simpa using noMark) early'
    refine ⟨tokenAt_eq_some.mpr ⟨isToken, ?_⟩, all_gaps _ ps'⟩
    rw [whole_append, whole_gaps]
    exact List.cons_prefix_cons.mpr ⟨rfl, List.prefix_append _ _⟩
  · rintro ⟨found, all⟩
    obtain ⟨isToken, rest, same⟩ := tokenAt_eq_some.mp found
    obtain ⟨core, rfl, _⟩ := brackets isToken
    obtain ⟨rfl, same'⟩ := List.cons.inj same
    obtain ⟨ps', rfl, _⟩ := gaps_of_all (by simpa using all) same'.symm
    rw [put_gaps]
    exact tokenAt_eq_some.mpr ⟨isToken, List.cons_prefix_cons.mpr ⟨rfl, List.prefix_append _ _⟩⟩

/-- Each token of the new text is the pass's own or was there before. -/
theorem tokensIn_put {ps : List (Piece UInt16)} {r : Session} (sound : r.Sound u) {t : JavaString}
    (member : t ∈ tokensIn (put u type ps r).1) :
    (∃ v, (put u type ps r).2.map.lookup t = some v) ∨ t ∈ tokensIn (whole ps) := by
  induction ps generalizing r with
  | nil => cases member
  | cons p ps ih =>
      cases p with
      | gap x =>
          rw [put_gap, tokensIn_cons] at member
          rw [whole_gap, tokensIn_cons]
          rcases List.mem_append.mp member with here | later
          · have before := ((tokenAt_put sound x t).mp (Option.mem_toList.mp here)).1
            exact .inr (List.mem_append_left _ (Option.mem_toList.mpr before))
          · exact (ih sound later).imp id (List.mem_append_right _)
      | hit m =>
          have hands := tokenFor_hands sound type m
          obtain ⟨n, v, _, listed, _⟩ := hands.token
          have grows : (tokenFor u type m r).2.map <+: (put u type ps (tokenFor u type m r).2).2.map :=
            (put_sound hands.sound).2
          have kept := lookup_grown grows listed
          obtain ⟨core, isToken, noMark, _⟩ := brackets hands.isToken
          rw [put_hit, tokensIn_append] at member
          rw [whole_hit, tokensIn_append]
          rcases List.mem_append.mp member with here | later
          · have only : beginIn (put u type ps (tokenFor u type m r).2).1 (tokenFor u type m r).1 =
                [(tokenFor u type m r).1] := by
              have found := tokenAt_eq_some.mpr ⟨hands.isToken,
                List.prefix_append _ (put u type ps (tokenFor u type m r).2).1⟩
              rw [isToken] at found ⊢
              rw [List.cons_append] at found
              rw [beginIn, found, beginIn_eq_nil (by simpa using noMark)]
              rfl
            rw [only] at here
            obtain rfl := List.mem_singleton.mp here
            exact .inl ⟨v, kept⟩
          · exact (ih hands.sound later).imp id (List.mem_append_right _)

end Swallowed

end PiiRedactor
