import CipherChat.Symbolic.Term

/-!
What an attacker derives once some keys are lost: the private keys that `lost` names, and derived keys
for which `leaked` holds. Nothing here depends on the program being verified.
-/

namespace Symbolic

open Term

/-- The terms a key derivation gives. -/
def Derived : Term → Prop
  | hmac _ _ => True
  | hkdf _ _ _ _ => True
  | slice _ _ _ => True
  | _ => False

/-- The terms that lost and leaked keys can lead to. -/
def Exposed (lost : Nat → Prop) (leaked : Term → Prop) : Term → Prop
  | bytes _ => True
  | text _ => True
  | secret n => lost n
  | pub _ => True
  | shared a b => lost a ∨ lost b
  | point _ _ => True
  | cat l r => Exposed lost leaked l ∧ Exposed lost leaked r
  | digest t => Exposed lost leaked t
  | hmac k d => leaked (hmac k d) ∨ (Exposed lost leaked k ∧ Exposed lost leaked d)
  | hkdf ikm salt info length =>
      leaked (hkdf ikm salt info length) ∨ (Exposed lost leaked ikm ∧ Exposed lost leaked salt)
  | slice t start stop => leaked (slice t start stop) ∨ Exposed lost leaked t
  | aead _ _ p _ => Exposed lost leaked p
  | sig _ m => Exposed lost leaked m

section

variable {lost : Nat → Prop} {leaked : Term → Prop}

theorem exposed_shared {a b : Nat} : Exposed lost leaked (shared (min a b) (max a b)) ↔ lost a ∨ lost b := by
  change lost (min a b) ∨ lost (max a b) ↔ _
  rcases Nat.le_total a b with order | order
  · simp [order]
  · simp [order, or_comm]

theorem exposed_of_leaked {t : Term} (isDerived : Derived t) (isLeaked : leaked t) :
    Exposed lost leaked t := by
  cases t with
  | hmac k d => exact .inl isLeaked
  | hkdf ikm salt info length => exact .inl isLeaked
  | slice t start stop => exact .inl isLeaked
  | _ => cases isDerived

/-- Whatever is derived from exposed terms is exposed. -/
theorem Derives.isExposed {known : Term → Prop} (begins : ∀ t, known t → Exposed lost leaked t) {t : Term}
    (derived : Derives known t) : Exposed lost leaked t := by
  induction derived with
  | known member => exact begins _ member
  | bytes _ => trivial
  | text _ => trivial
  | pub _ _ => trivial
  | shared _ _ first _ => exact exposed_shared.mpr (.inl first)
  | point _ _ _ _ => trivial
  | cat _ _ first second => exact ⟨first, second⟩
  | left _ ih => exact ih.1
  | right _ ih => exact ih.2
  | digest _ ih => exact ih
  | hmac _ _ first second => exact .inr ⟨first, second⟩
  | hkdf _ _ first second => exact .inr ⟨first, second⟩
  | slice _ ih => exact .inr ih
  | encrypt _ _ _ _ _ _ third _ => exact third
  | decrypt _ _ first _ => exact first
  | sign _ _ _ second => exact second
  | message _ ih => exact ih

end

end Symbolic
