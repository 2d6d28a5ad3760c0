import CipherChat.Crypto.Primitives
import Mathlib.Data.Sym.Sym2

/-!
`crypto/safetyNumber.ts`.  The digits of the two halves are sorted before they are joined,
so a safety number is an unordered pair of halves.
-/

namespace SafetyNumber

open Symbolic Primitives

def fingerprintHalf (userId : String) (identityEd25519B64 : Base64) : Except JsError Term := do
  let data := concatBytes [.text userId, ← fromBase64 identityEd25519B64]
  return hashSha512^[5200] data

def computeSafetyNumber (myUserId : String) (myIdentityEd25519 : Base64) (peerUserId : String)
    (peerIdentityEd25519 : Base64) : Except JsError (Sym2 Term) := do
  let mine ← fingerprintHalf myUserId myIdentityEd25519
  let theirs ← fingerprintHalf peerUserId peerIdentityEd25519
  return s(mine, theirs)

theorem fingerprintHalf_inj {userId userId' : String} {key key' : Base64} {half : Term}
    (first : fingerprintHalf userId key = .ok half)
    (second : fingerprintHalf userId' key' = .ok half) :
    userId = userId' ∧ fromBase64 key = fromBase64 key' := by
  obtain ⟨bytes, decoded, hashed⟩ := bind_eq_ok.mp first
  obtain ⟨bytes', decoded', hashed'⟩ := bind_eq_ok.mp second
  have digest : Function.Injective hashSha512 := fun _ _ same => Term.digest.inj same
  have texts := digest.iterate 5200
    ((pure_eq_ok.mp hashed').trans (pure_eq_ok.mp hashed).symm)
  simp only [concatBytes, Term.cat.injEq, Term.text.injEq] at texts
  exact ⟨texts.1.symm, by rw [decoded, decoded', texts.2]⟩

/-- A safety number determines the identity key of the peer. -/
theorem computeSafetyNumber_inj {me peer : String} {my my' key key' : Base64} {digits : Sym2 Term}
    (other : me ≠ peer) (first : computeSafetyNumber me my peer key = .ok digits)
    (second : computeSafetyNumber me my' peer key' = .ok digits) :
    fromBase64 key = fromBase64 key' := by
  obtain ⟨mine, isMine, first⟩ := bind_eq_ok.mp first
  obtain ⟨theirs, isTheirs, joined⟩ := bind_eq_ok.mp first
  obtain ⟨mine', isMine', second⟩ := bind_eq_ok.mp second
  obtain ⟨theirs', isTheirs', joined'⟩ := bind_eq_ok.mp second
  have same := (pure_eq_ok.mp joined').trans (pure_eq_ok.mp joined).symm
  rcases Sym2.eq_iff.mp same with ⟨_, rfl⟩ | ⟨rfl, _⟩
  · exact (fingerprintHalf_inj isTheirs isTheirs').2
  · exact absurd (fingerprintHalf_inj isMine' isTheirs).1 other

end SafetyNumber
