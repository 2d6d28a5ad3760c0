import Mathlib.Algebra.Order.Group.Nat
import Mathlib.Order.Lattice
import Mathlib.Tactic.Common

/-!
Symbolic cryptography: a free term algebra for keys and messages, what an
attacker can derive from the terms it has seen, and the invariant that bounds
every derivation.  Nothing here depends on the program being verified.
-/

namespace Symbolic

inductive Term
  | bytes (data : List UInt8)
  | text (s : String)
  | secret (name : Nat)
  | pub (name : Nat)
  | shared (first second : Nat)
  | point (name : Nat) (p : Term)
  | cat (left right : Term)
  | digest (t : Term)
  | hmac (key data : Term)
  | hkdf (ikm salt : Term) (info : String) (length : Nat)
  | slice (t : Term) (start stop : Nat)
  | aead (key iv plaintext aad : Term)
  | sig (name : Nat) (message : Term)
  deriving DecidableEq

namespace Term

/-- The length in bytes: the digest is SHA-512, the MAC and the derivation are over SHA-256,
and a ciphertext carries a tag of sixteen bytes. -/
def size : Term → Nat
  | bytes data => data.length
  | text s => s.utf8ByteSize
  | secret _ | pub _ | shared _ _ | point _ _ | hmac _ _ => 32
  | cat l r => l.size + r.size
  | digest _ | sig _ _ => 64
  | hkdf _ _ _ length => length
  | slice t start stop => min stop t.size - start
  | aead _ _ p _ => p.size + 16

/-- The bytes of a term in which no key is involved. -/
def plain : Term → Option (List UInt8)
  | bytes data => some data
  | text s => some (s.toList.flatMap String.utf8EncodeChar)
  | cat l r => do return (← l.plain) ++ (← r.plain)
  | slice t start stop => return (← t.plain).extract start stop
  | _ => none

/-- The u-coordinate that 32 bytes stand for on Curve25519: the top bit is ignored. -/
def coordinate (data : List UInt8) : Nat :=
  data.foldr (fun byte rest => byte.toNat + 256 * rest) 0 % 2 ^ 255 % (2 ^ 255 - 19)

/-- The u-coordinates of the points whose order divides the cofactor. -/
def lowOrder : List Nat :=
  [0, 1, 2 ^ 255 - 20,
    325606250916557431795983626356110631294008115727848805560023387167927233504,
    39382357235489614581723060781553021112529911719440698176882885853963445705823]

/-- What is taken as a public key: 32 bytes that are no point of low order. -/
def isPoint (t : Term) : Bool :=
  t.size = 32 && t.plain.all fun data => coordinate data ∉ lowOrder

/-- Diffie-Hellman: the two orders of one pair of keys name the same secret. With a point
of low order the result would be zero, which is refused. -/
def agree : Term → Term → Option Term
  | secret a, pub b => some (shared (min a b) (max a b))
  | secret a, p => if p.isPoint then some (point a p) else none
  | _, _ => none

@[simp] theorem agree_pub (a b : Nat) :
    agree (secret a) (pub b) = some (shared (min a b) (max a b)) := by
  rfl

theorem shared_inj {a b c d : Nat}
    (same : shared (min a b) (max a b) = shared (min c d) (max c d)) :
    (a = c ∧ b = d) ∨ (a = d ∧ b = c) := by
  simp only [shared.injEq] at same
  omega

theorem agree_cases {a : Nat} {p out : Term} (agreed : agree (secret a) p = some out) :
    (∃ b, p = pub b ∧ out = shared (min a b) (max a b)) ∨ out = point a p := by
  cases p with
  | pub b =>
      rw [agree_pub, Option.some.injEq] at agreed
      exact .inl ⟨b, rfl, agreed.symm⟩
  | _ =>
      simp only [agree, Option.ite_none_right_eq_some, Option.some.injEq] at agreed
      exact .inr agreed.2.symm

/-- Two private keys agree on one secret only with each other. -/
theorem agree_inj {a b : Nat} {p q out : Term} (first : agree (secret a) p = some out)
    (second : agree (secret b) q = some out) : a = b ∨ (p = pub b ∧ q = pub a) := by
  rcases agree_cases first with ⟨x, rfl, rfl⟩ | rfl
  · rcases agree_cases second with ⟨y, rfl, same⟩ | other
    · rcases shared_inj same with ⟨isSame, _⟩ | ⟨isY, isX⟩
      · exact .inl isSame
      · exact .inr ⟨by rw [isX], by rw [isY]⟩
    · cases other
  · rcases agree_cases second with ⟨y, _, other⟩ | same
    · cases other
    · simp only [point.injEq] at same
      exact .inl same.1

/-- Ideal AEAD: opening gives the plaintext exactly when key, nonce and associated
data are those the ciphertext was sealed with. -/
def openAead (key iv ciphertext aad : Term) : Option Term :=
  match ciphertext with
  | aead k n plaintext a => if k = key ∧ n = iv ∧ a = aad then some plaintext else none
  | _ => none

theorem openAead_eq_some {key iv ciphertext aad plaintext : Term} :
    openAead key iv ciphertext aad = some plaintext ↔
      ciphertext = aead key iv plaintext aad := by
  cases ciphertext with
  | aead k n p a =>
      simp only [openAead, Option.ite_none_right_eq_some, Option.some.injEq, aead.injEq]
      constructor
      · rintro ⟨⟨rfl, rfl, rfl⟩, rfl⟩
        exact ⟨rfl, rfl, rfl, rfl⟩
      · rintro ⟨rfl, rfl, rfl, rfl⟩
        exact ⟨⟨rfl, rfl, rfl⟩, rfl⟩
  | _ => simp [openAead]

@[simp] theorem openAead_aead (key iv plaintext aad : Term) :
    openAead key iv (aead key iv plaintext aad) aad = some plaintext := by
  simp [openAead]

/-- Ideal signatures: a signature verifies under the public half of its own key,
for its own message. -/
def verifies : Term → Term → Term → Bool
  | pub n, sig m signed, message => n = m ∧ signed = message
  | _, _, _ => false

end Term

open Term

/-- What can be computed from the terms in `known`. -/
inductive Derives (known : Term → Prop) : Term → Prop
  | known {t} : known t → Derives known t
  | bytes (data) : Derives known (bytes data)
  | text (s) : Derives known (text s)
  | pub {n} : Derives known (secret n) → Derives known (pub n)
  | shared {a b} : Derives known (secret a) → Derives known (pub b) →
      Derives known (shared (min a b) (max a b))
  | point {a p} : Derives known (secret a) → Derives known p → Derives known (point a p)
  | cat {l r} : Derives known l → Derives known r → Derives known (cat l r)
  | left {l r} : Derives known (cat l r) → Derives known l
  | right {l r} : Derives known (cat l r) → Derives known r
  | digest {t} : Derives known t → Derives known (digest t)
  | hmac {k d} : Derives known k → Derives known d → Derives known (hmac k d)
  | hkdf {ikm salt info length} : Derives known ikm → Derives known salt →
      Derives known (hkdf ikm salt info length)
  | slice {t start stop} : Derives known t → Derives known (slice t start stop)
  | encrypt {k iv p a} : Derives known k → Derives known iv → Derives known p → Derives known a →
      Derives known (aead k iv p a)
  | decrypt {k iv p a} : Derives known (aead k iv p a) → Derives known k → Derives known p
  | sign {n m} : Derives known (secret n) → Derives known m → Derives known (sig n m)
  | message {n m} : Derives known (sig n m) → Derives known m

/-- The terms an attacker may come to hold while the private keys in `honest` stay
with their owners, who release the ciphertexts in `sealed` (of public plaintexts)
and the signatures in `signed`. -/
def Public (honest : Nat → Prop) (sealed : Term → Prop) (signed : Nat → Term → Prop) :
    Term → Prop
  | bytes _ => True
  | text _ => True
  | secret n => ¬honest n
  | pub _ => True
  | shared a b => ¬(honest a ∧ honest b)
  | point _ _ => True
  | cat l r => Public honest sealed signed l ∧ Public honest sealed signed r
  | digest t => Public honest sealed signed t
  | hmac k d => Public honest sealed signed k ∧ Public honest sealed signed d
  | hkdf ikm salt _ _ => Public honest sealed signed ikm ∧ Public honest sealed signed salt
  | slice t _ _ => Public honest sealed signed t
  | aead k iv p a => Public honest sealed signed p ∧ (sealed (aead k iv p a) ∨
      (Public honest sealed signed k ∧ Public honest sealed signed iv ∧
        Public honest sealed signed a))
  | sig n m => Public honest sealed signed m ∧ (signed n m ∨ ¬honest n)

section

variable {honest : Nat → Prop} {sealed : Term → Prop} {signed : Nat → Term → Prop}

theorem public_secret {n : Nat} : Public honest sealed signed (secret n) ↔ ¬honest n :=
  Iff.rfl

theorem public_shared {a b : Nat} :
    Public honest sealed signed (shared a b) ↔ ¬(honest a ∧ honest b) :=
  Iff.rfl

theorem public_hmac {k d : Term} : Public honest sealed signed (hmac k d) ↔
    Public honest sealed signed k ∧ Public honest sealed signed d :=
  Iff.rfl

theorem public_hkdf {ikm salt : Term} {info : String} {length : Nat} :
    Public honest sealed signed (hkdf ikm salt info length) ↔
      Public honest sealed signed ikm ∧ Public honest sealed signed salt :=
  Iff.rfl

/-- Whatever is derived from public terms is public. -/
theorem Derives.isPublic {known : Term → Prop}
    (start : ∀ t, known t → Public honest sealed signed t) {t : Term}
    (derived : Derives known t) : Public honest sealed signed t := by
  induction derived with
  | known member => exact start _ member
  | bytes _ => trivial
  | text _ => trivial
  | pub _ _ => trivial
  | @shared a b _ _ first _ =>
      rw [public_secret] at first
      rw [public_shared]
      rintro ⟨low, high⟩
      rcases Nat.le_total a b with order | order
      · exact first (by simpa [Nat.min_eq_left order] using low)
      · exact first (by simpa [Nat.max_eq_left order] using high)
  | point _ _ _ _ => trivial
  | cat _ _ first second => exact ⟨first, second⟩
  | left _ ih => exact ih.1
  | right _ ih => exact ih.2
  | digest _ ih => exact ih
  | hmac _ _ first second => exact ⟨first, second⟩
  | hkdf _ _ first second => exact ⟨first, second⟩
  | slice _ ih => exact ih
  | encrypt _ _ _ _ first second third fourth => exact ⟨third, .inr ⟨first, second, fourth⟩⟩
  | decrypt _ _ first _ => exact first.1
  | sign _ _ first second => exact ⟨second, .inr first⟩
  | message _ ih => exact ih.1

end

/-- A term no attacker holds, whatever honest parties seal and sign. -/
def Secret (honest : Nat → Prop) (t : Term) : Prop :=
  ¬Public honest (fun _ => True) (fun _ _ => True) t

section

variable {honest : Nat → Prop}

theorem Public.weaken {sealed : Term → Prop} {signed : Nat → Term → Prop} {t : Term} :
    Public honest sealed signed t → Public honest (fun _ => True) (fun _ _ => True) t := by
  induction t with
  | cat _ _ first second => exact fun h => ⟨first h.1, second h.2⟩
  | digest _ ih => exact ih
  | hmac _ _ first second => exact fun h => ⟨first h.1, second h.2⟩
  | hkdf _ _ _ _ first second => exact fun h => ⟨first h.1, second h.2⟩
  | slice _ _ _ ih => exact ih
  | aead _ _ _ _ _ _ third _ => exact fun h => ⟨third h.1, .inl trivial⟩
  | sig _ _ ih => exact fun h => ⟨ih h.1, .inl trivial⟩
  | _ => exact id

theorem Secret.not_public {sealed : Term → Prop} {signed : Nat → Term → Prop} {t : Term}
    (hidden : Secret honest t) : ¬Public honest sealed signed t :=
  fun isPublic => hidden isPublic.weaken

@[simp] theorem secret_bytes (data : List UInt8) : ¬Secret honest (bytes data) := by
  exact fun hidden => hidden trivial

@[simp] theorem secret_shared {a b : Nat} :
    Secret honest (shared (min a b) (max a b)) ↔ honest a ∧ honest b := by
  rw [Secret, public_shared, Classical.not_not]
  rcases Nat.le_total a b with order | order
  · simp [order]
  · simp [order, and_comm]

@[simp] theorem secret_hmac {k d : Term} :
    Secret honest (hmac k d) ↔ Secret honest k ∨ Secret honest d := by
  simp only [Secret, public_hmac]
  tauto

@[simp] theorem secret_hkdf {ikm salt : Term} {info : String} {length : Nat} :
    Secret honest (hkdf ikm salt info length) ↔ Secret honest ikm ∨ Secret honest salt := by
  simp only [Secret, public_hkdf]
  tauto

@[simp] theorem secret_slice {t : Term} {start stop : Nat} :
    Secret honest (slice t start stop) ↔ Secret honest t := by
  rfl

/-- Only an honest party seals under a secret key. -/
theorem Public.sealed_of_secret {sealed : Term → Prop} {signed : Nat → Term → Prop}
    {k iv p a : Term} (isPublic : Public honest sealed signed (aead k iv p a))
    (hidden : Secret honest k) : sealed (aead k iv p a) :=
  isPublic.2.resolve_right fun parts => hidden.not_public parts.1

end

end Symbolic
