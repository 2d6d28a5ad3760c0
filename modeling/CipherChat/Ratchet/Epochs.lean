import CipherChat.Ratchet.Steps
import Mathlib.Logic.Function.Basic
import Mathlib.Order.Monotone.Basic

/-!
The root keys and chains that two parties of a Double Ratchet come to when they take turns in drawing
ratchet keys: key number `i` and key number `i + 1` make root `i + 1` and chain `i + 1`.
-/

namespace RatchetPair

open Symbolic Number Primitives DoubleRatchet

/-- What the ratchet keys `i` and `i + 1` agree on. -/
def link (key : Nat → Nat) (i : Nat) : Term :=
  .shared (min (key i) (key (i + 1))) (max (key i) (key (i + 1)))

def root (sk : Term) (key : Nat → Nat) : Nat → Term
  | 0 => sk
  | i + 1 => (kdfRoot (root sk key i) (link key i)).rk

/-- The chain that the owner of ratchet key `i` sends on. -/
def chain (sk : Term) (key : Nat → Nat) (i : Nat) : Term :=
  (kdfRoot (root sk key (i - 1)) (link key (i - 1))).ck

section

variable {sk : Term} {key key' : Nat → Nat}

theorem dh_link (i : Nat) : dh (.secret (key i)) (.pub (key (i + 1))) = .ok (link key i) :=
  dh_pub _ _

theorem dh_link_back (i : Nat) : dh (.secret (key (i + 1))) (.pub (key i)) = .ok (link key i) := by
  rw [dh_pub, link, min_comm, max_comm]

theorem root_succ (i : Nat) : root sk key (i + 1) = (kdfRoot (root sk key i) (link key i)).rk :=
  rfl

theorem chain_succ (i : Nat) : chain sk key (i + 1) = (kdfRoot (root sk key i) (link key i)).ck :=
  rfl

theorem link_congr {i : Nat} (same : ∀ m ≤ i + 1, key' m = key m) : link key' i = link key i := by
  rw [link, same i (by omega), same (i + 1) (by omega), link]

theorem root_congr {i : Nat} (same : ∀ m ≤ i, key' m = key m) : root sk key' i = root sk key i := by
  induction i with
  | zero => rfl
  | succ i ih =>
      rw [root_succ, root_succ, ih fun m below => same m (by omega), link_congr same]

theorem chain_congr {i : Nat} (some : 0 < i) (same : ∀ m ≤ i, key' m = key m) :
    chain sk key' i = chain sk key i := by
  obtain ⟨i, rfl⟩ := Nat.exists_eq_succ_of_ne_zero (Nat.ne_of_gt some)
  rw [chain_succ, chain_succ, root_congr fun m below => same m (by omega), link_congr same]

/-- Every root is made from the one before it. -/
theorem root_grows (i : Nat) : sizeOf (root sk key i) < sizeOf (root sk key (i + 1)) := by
  simp only [root_succ, kdfRoot, hkdfSha256, Option.getD_some, Term.slice.sizeOf_spec,
    Term.hkdf.sizeOf_spec]
  omega

theorem root_injective : Function.Injective (root sk key) := by
  have grows : StrictMono fun i => sizeOf (root sk key i) := strictMono_nat_of_lt_succ root_grows
  intro i j same
  exact grows.injective (congrArg sizeOf same)

theorem chainAfter_injective (n : Nat) : Function.Injective fun ck => chainAfter ck n := by
  induction n with
  | zero => exact fun _ _ same => same
  | succ n ih =>
      intro ck ck' same
      simp only [chainAfter_succ, kdfChain, hmacSha256, Term.hmac.injEq, and_true] at same
      exact ih same

theorem messageKeyAfter_injective (n : Nat) : Function.Injective fun ck => messageKeyAfter ck n := by
  intro ck ck' same
  simp only [messageKeyAfter, kdfChain, hmacSha256, Term.hmac.injEq, and_true] at same
  exact chainAfter_injective n same

theorem cipherKey_injective : Function.Injective fun mk => (cipherParams mk).key := by
  intro mk mk' same
  simp only [cipherParams, hkdfSha256, Term.slice.injEq, Term.hkdf.injEq, and_true] at same
  exact same

theorem kdfRoot_ck_inj {rk rk' out out' : Term} (same : (kdfRoot rk out).ck = (kdfRoot rk' out').ck) :
    rk = rk' ∧ out = out' := by
  simp only [kdfRoot, hkdfSha256, Option.getD_some, Term.slice.injEq, Term.hkdf.injEq, and_true]
    at same
  exact ⟨same.2, same.1⟩

/-- A chain made from a later root is no chain of the pair. -/
theorem chain_ne_later {i j : Nat} (some : 0 < i) (before : i ≤ j) (out : Term) :
    (kdfRoot (root sk key j) out).ck ≠ chain sk key i := by
  intro same
  have := root_injective (kdfRoot_ck_inj same).1
  omega

theorem kdfChain_ck_ne_mk (ck ck' : Term) : (kdfChain ck).ck ≠ (kdfChain ck').mk := by
  intro same
  simp [kdfChain, hmacSha256, CHAIN_NEXT, CHAIN_MESSAGE] at same

theorem kdfChain_ck_injective {ck ck' : Term} (same : (kdfChain ck).ck = (kdfChain ck').ck) : ck = ck' := by
  simpa [kdfChain, hmacSha256] using same

theorem kdfChain_mk_injective {ck ck' : Term} (same : (kdfChain ck).mk = (kdfChain ck').mk) : ck = ck' := by
  simpa [kdfChain, hmacSha256] using same

theorem chain_injective {i i' : Nat} (some : 0 < i) (some' : 0 < i')
    (same : chain sk key i = chain sk key i') : i = i' := by
  have := root_injective (kdfRoot_ck_inj same).1
  omega

/-- A chain key is that of one place on one chain. -/
theorem chainAfter_kdfRoot_inj {rk rk' out out' : Term} {n n' : Nat}
    (same : chainAfter (kdfRoot rk out).ck n = chainAfter (kdfRoot rk' out').ck n') :
    (kdfRoot rk out).ck = (kdfRoot rk' out').ck ∧ n = n' := by
  induction n generalizing n' with
  | zero =>
      cases n' with
      | zero => exact ⟨same, rfl⟩
      | succ n' =>
          rw [chainAfter_succ] at same
          cases same
  | succ n ih =>
      cases n' with
      | zero =>
          rw [chainAfter_succ] at same
          cases same
      | succ n' =>
          rw [chainAfter_succ, chainAfter_succ] at same
          obtain ⟨isChain, isNumber⟩ := ih (kdfChain_ck_injective same)
          exact ⟨isChain, congrArg (fun n => n + 1) isNumber⟩

theorem chainAfter_chain_inj {i i' n n' : Nat} (some : 0 < i) (some' : 0 < i')
    (same : chainAfter (chain sk key i) n = chainAfter (chain sk key i') n') : i = i' ∧ n = n' := by
  obtain ⟨isChain, isNumber⟩ := chainAfter_kdfRoot_inj same
  exact ⟨chain_injective some some' isChain, isNumber⟩

theorem messageKeyAfter_chain_inj {i i' n n' : Nat} (some : 0 < i) (some' : 0 < i')
    (same : messageKeyAfter (chain sk key i) n = messageKeyAfter (chain sk key i') n') :
    i = i' ∧ n = n' :=
  chainAfter_chain_inj some some' (kdfChain_mk_injective same)

theorem chainAfter_ne_root {i n m : Nat} : chainAfter (chain sk key i) n ≠ root sk key (m + 1) := by
  intro same
  cases n with
  | zero => simp [chain, root_succ, kdfRoot] at same
  | succ n =>
      rw [chainAfter_succ] at same
      cases same

theorem messageKeyAfter_ne_chainAfter {i i' n n' : Nat} :
    messageKeyAfter (chain sk key i) n ≠ chainAfter (chain sk key i') n' := by
  intro same
  cases n' with
  | zero => cases same
  | succ n' =>
      rw [chainAfter_succ] at same
      exact kdfChain_ck_ne_mk _ _ same.symm

end

end RatchetPair
