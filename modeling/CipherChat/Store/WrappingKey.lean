import CipherChat.Async.Contract
import CipherChat.Crypto.Primitives

/-!
The wrapping key of `crypto/keyStore.ts`.  The first use of the store looks the key up, and puts
a new one if there is none; between the two, another user may do the same.
-/

namespace WrappingKey

open Async Primitives Symbolic

/-- A value, as the text `JSON.stringify` prints of it: well-formed, with no mark in front. -/
structure Json where
  text : List UInt16
  survives : Utf.Survives text

/-- The stores `meta` and `identity`. -/
structure KeyStore where
  wrappingKey : Option Nat
  identity : Option Base64
  deriving DecidableEq

/-- `returnWrap` and `returnUnwrap` mark where the two functions return. -/
inductive Op
  | getKey
  | generateKey
  | putKey (key : Nat)
  | getRandomValues
  | encrypt (key : Nat) (iv pt : Term)
  | decrypt (key : Nat) (iv ct : Term)
  | putIdentity (wrapped : Base64)
  | getIdentity
  | returnWrap (value : Json) (wrapped : Base64)
  | returnUnwrap (wrapped : Base64) (result : Except JsError (List UInt16))

namespace Op

abbrev Val : Op → Type
  | getKey => Option Nat
  | generateKey => Nat
  | getRandomValues => Term
  | encrypt .. => Term
  | decrypt .. => Term
  | getIdentity => Option Base64
  | _ => Unit

abbrev Res (op : Op) : Type :=
  Except JsError op.Val

def canFail : Op → Bool
  | getRandomValues | returnWrap .. | returnUnwrap .. => false
  | _ => true

end Op

/-- What the environment chooses when an operation is performed.  `tx` resolves when its request has
succeeded; the transaction may abort after that, and the put is `lost`. -/
structure Answer where
  fault : Bool := false
  lost : Bool := false
  name : Nat := 0
  iv : List UInt8 := []

def aborted : JsError :=
  .dom "AbortError"

def effect (s : KeyStore) (op : Op) (a : Answer) : op.Res × KeyStore :=
  match op with
  | .getKey => (.ok s.wrappingKey, s)
  | .generateKey => (.ok a.name, s)
  | .putKey key => (.ok (), if a.lost then s else { s with wrappingKey := some key })
  | .getRandomValues => (.ok (.bytes a.iv), s)
  | .encrypt key iv pt => (.ok (aesGcmEncrypt (.secret key) iv pt (.bytes [])), s)
  | .decrypt key iv ct =>
      match aesGcmDecrypt (.secret key) iv ct (.bytes []) with
      | .ok pt => (.ok pt, s)
      | .error _ => (.error (.dom "OperationError"), s)
  | .putIdentity wrapped => (.ok (), if a.lost then s else { s with identity := some wrapped })
  | .getIdentity => (.ok s.identity, s)
  | .returnWrap .. | .returnUnwrap .. => (.ok (), s)

def perform (_t : Nat) (s : KeyStore) (op : Op) (a : Answer) : Option (op.Res × KeyStore) :=
  if a.fault && op.canFail then some (.error aborted, s) else some (effect s op a)

def Exec (t : Nat) (s : KeyStore) (op : Op) (result : op.Res) (s' : KeyStore) : Prop :=
  ∃ a, perform t s op a = some (result, s')

abbrev Prog (α : Type) := Throwing JsError Op Op.Res α

def call (op : Op) : Prog op.Val :=
  ExceptT.mk (Program.call op)

def getWrappingKey : Prog Nat := do
  match ← call .getKey with
  | some key => return key
  | none =>
      let key ← call .generateKey
      call (.putKey key)
      return key

def wrapJson (value : Json) : Prog Base64 := do
  let key ← getWrappingKey
  let iv ← call .getRandomValues
  let pt := utf8Encode value.text
  let ct ← call (.encrypt key iv pt)
  let out := toBase64 (.cat iv ct)
  call (.returnWrap value out)
  return out

/-- `bytes.slice(0, 12)` and `bytes.slice(12)` -/
def cut : Term → Term × Term
  | .cat iv ct => (iv, ct)
  | .bytes data => (.bytes (data.take 12), .bytes (data.drop 12))
  | t => (.slice t 0 12, .slice t 12 12)

/-- Up to `JSON.parse`, which reads the text back. -/
def decryptJson (wrapped : Base64) : Prog (List UInt16) := do
  let key ← getWrappingKey
  let bytes ← lift (fromBase64 wrapped)
  let pt ← call (.decrypt key (cut bytes).1 (cut bytes).2)
  return utf8Decode pt

def unwrapJson (wrapped : Base64) : Prog (List UInt16) := do
  let result ← settle (decryptJson wrapped)
  call (.returnUnwrap wrapped result)
  lift result

def saveIdentity (identity : Json) : Prog Unit := do
  let wrapped ← wrapJson identity
  call (.putIdentity wrapped)

def loadIdentity : Prog (Option (List UInt16)) := do
  match ← call .getIdentity with
  | none => return none
  | some wrapped =>
      let identity ← unwrapJson wrapped
      return some identity

inductive Call
  | wrapJson (value : Json)
  | unwrapJson (wrapped : Base64)
  | saveIdentity (identity : Json)
  | loadIdentity

def Call.program : Call → Prog Unit
  | wrapJson value => do
      let _ ← WrappingKey.wrapJson value
  | unwrapJson wrapped => do
      let _ ← WrappingKey.unwrapJson wrapped
  | saveIdentity identity => WrappingKey.saveIdentity identity
  | loadIdentity => do
      let _ ← WrappingKey.loadIdentity

/-- The calls of all tabs, over the one store of the browser. -/
def service : Service Op Op.Res KeyStore Call (Except JsError Unit) where
  program request := request.program.run
  exec := Exec

abbrev Event := Entry Op Op.Res KeyStore Call

abbrev History := Journal Op Op.Res KeyStore Call

def fresh : KeyStore where
  wrappingKey := none
  identity := none

/-- The thread has not begun to look the key up. -/
def Unasked (log : Log Op Op.Res) : Prop :=
  ∀ x ∈ log, x.1 ≠ .getKey

/-- What was wrapped, whoever begins to unwrap it later reads back, unless an operation of the
browser fails. -/
def Readable (j : History) : Prop :=
  ∀ later w earlier, j.past = later ++ w :: earlier →
    ∀ value wrapped, w.op = .returnWrap value wrapped →
      ∀ e ∈ later, Unasked (own e.thread earlier) →
        ∀ result, e.op = .returnUnwrap wrapped result →
          result = .ok value.text ∨ result = .error aborted

/-- In every run from the store of what `permits` lets through. -/
def KeepsReadable (permits : History → Event → Prop) (s : KeyStore) : Prop :=
  ∀ j, service.Reaches (fun _ _ => True) permits s j → Readable j

/-- The transaction of a put that has succeeded does not abort. -/
def Commits (e : Event) : Prop :=
  ∀ key, e.logged = ⟨.putKey key, .ok ()⟩ → e.after.wrappingKey = some key

/-- Between the lookup of a call and its put, no other has put a key, and the put commits. -/
structure Unraced (j : History) (e : Event) : Prop where
  alone : ∀ key, e.op = .putKey key → ∀ later own earlier, j.past = later ++ own :: earlier →
    own.thread = e.thread → own.op = .getKey →
      ∀ x ∈ later, ∀ other, x.logged ≠ ⟨.putKey other, .ok ()⟩
  commits : Commits e

/-- No wrapping key is put over another, and the put commits. -/
structure PutOnce (_ : History) (e : Event) : Prop where
  missing : ∀ key, e.op = .putKey key → e.before.wrappingKey = none
  commits : Commits e

section Invariant

variable {t : Nat} {s s' : KeyStore} {op : Op} {result : op.Res}

def sealJson (key : Nat) (iv : Term) (value : Json) : Base64 :=
  toBase64 (.cat iv (aesGcmEncrypt (.secret key) iv (utf8Encode value.text) (.bytes [])))

/-- The value was wrapped under the key of the store. -/
def Sealed (wrapped : Base64) (value : Json) (s : KeyStore) : Prop :=
  ∃ key iv, s.wrappingKey = some key ∧ wrapped = sealJson key iv value

/-- The result of unwrapping under the key. -/
def Opens (key : Nat) (wrapped : Base64) (result : Except JsError (List UInt16)) : Prop :=
  ∀ iv value, wrapped = sealJson key iv value → result = .ok value.text ∨ result = .error aborted

/-- What is known of the store whatever others do. -/
def Rely (s s' : KeyStore) : Prop :=
  ∀ key, s.wrappingKey = some key → s'.wrappingKey = some key

def Justified (j : History) : Op → Prop
  | .returnWrap value wrapped => Sealed wrapped value j.state
  | .returnUnwrap wrapped result =>
      result = .error aborted ∨ ∃ key, j.state.wrappingKey = some key ∧ Opens key wrapped result
  | _ => True

structure Consistent (j : History) : Prop where
  kept : ∀ e ∈ j.past, Rely e.before j.state
  wrapped : ∀ e ∈ j.past, ∀ value w, e.op = .returnWrap value w → Sealed w value e.before
  unwrapped : ∀ e ∈ j.past, ∀ w result, e.op = .returnUnwrap w result →
    result = .error aborted ∨ ∃ key, e.before.wrappingKey = some key ∧ Opens key w result

theorem Exec.kept (exec : Exec t s op result s')
    (once : ∀ key, op = .putKey key → s.wrappingKey = none) : Rely s s' := by
  obtain ⟨a, performed⟩ := exec
  intro key isKey
  unfold perform at performed
  split at performed
  next =>
    obtain ⟨_, rfl⟩ := Prod.mk.inj (Option.some.inj performed)
    exact isKey
  next =>
    have after : (effect s op a).2 = s' := congrArg Prod.snd (Option.some.inj performed)
    rw [← after]
    cases op with
    | putKey new =>
        rw [once new rfl] at isKey
        cases isKey
    | putIdentity wrapped =>
        simp only [WrappingKey.effect]
        split <;> exact isKey
    | decrypt key iv ct =>
        simp only [WrappingKey.effect]
        split <;> exact isKey
    | _ => exact isKey

theorem Exec.failed {e : JsError} (exec : Exec t s op (.error e) s') :
    e = aborted ∨ ∃ key iv ct, op = .decrypt key iv ct ∧
      ∃ e', aesGcmDecrypt (.secret key) iv ct (.bytes []) = .error e' := by
  obtain ⟨a, performed⟩ := exec
  unfold perform at performed
  split at performed
  next => exact .inl (Except.error.inj (Prod.mk.inj (Option.some.inj performed)).1).symm
  next =>
    have answer := congrArg Prod.fst (Option.some.inj performed)
    cases op with
    | decrypt key iv ct =>
        simp only [WrappingKey.effect] at answer
        split at answer
        next => cases answer
        next e' refused => exact .inr ⟨key, iv, ct, rfl, e', refused⟩
    | _ => cases answer

theorem Exec.effect {value : op.Val} (exec : Exec t s op (.ok value) s') :
    ∃ a, effect s op a = (.ok value, s') := by
  obtain ⟨a, performed⟩ := exec
  unfold perform at performed
  split at performed
  next => cases (Prod.mk.inj (Option.some.inj performed)).1
  next => exact ⟨a, Option.some.inj performed⟩

theorem consistent_record {j : History} {e : Event} (consistent : Consistent j)
    (performs : j.Performs service PutOnce e) (justified : Justified j e.op) :
    Consistent (j.record e) := by
  have exec : Exec e.thread j.state e.op e.result e.after := performs.before ▸ performs.exec
  have once : ∀ key, e.op = .putKey key → j.state.wrappingKey = none :=
    performs.before ▸ performs.permitted.missing
  have kept := exec.kept once
  refine ⟨fun e' member => ?_, fun e' member value w isOp => ?_, fun e' member w result isOp => ?_⟩
  · rcases List.mem_cons.mp member with rfl | old
    · exact performs.before ▸ kept
    · exact fun key isKey => kept key (consistent.kept e' old key isKey)
  · rcases List.mem_cons.mp member with rfl | old
    · rw [isOp] at justified
      exact performs.before ▸ justified
    · exact consistent.wrapped e' old value w isOp
  · rcases List.mem_cons.mp member with rfl | old
    · rw [isOp] at justified
      exact performs.before ▸ justified
    · exact consistent.unwrapped e' old w result isOp

def contract : Contract service PutOnce where
  inv := Consistent
  rely _ j j' := Rely j.state j'.state
  justified _ := Justified
  refl _ _ _ := id
  trans _ _ _ _ first second key isKey := second key (first key isKey)
  kept _ _ := consistent_record
  others j e _ _ performs _ _ := by
    have exec : Exec e.thread j.state e.op e.result e.after := performs.before ▸ performs.exec
    exact exec.kept (performs.before ▸ performs.permitted.missing)

end Invariant

section Programs

variable {t : Nat} {request : Call} {α β : Type} {P : KeyStore → Prop}

variable (t request) in
/-- A part of a call, from what is known of the store before it to what its result says. -/
def Tells (P : KeyStore → Prop) (p : Prog β) (post : Except JsError β → KeyStore → Prop) : Prop :=
  contract.Guides t request (fun j => P j.state) p fun result j => post result j.state

/-- What is known of a value; the only exceptions are faults of the browser. -/
def Told (K : β → KeyStore → Prop) : Except JsError β → KeyStore → Prop
  | .ok value, s => K value s
  | .error e, _ => e = aborted

/-- What is known of the store whatever others do. -/
def Firm (P : KeyStore → Prop) : Prop :=
  ∀ s s', Rely s s' → P s → P s'

theorem firm_key (key : Nat) : Firm fun s => s.wrappingKey = some key :=
  fun _ _ rely => rely key

theorem firm_true : Firm fun _ => True :=
  fun _ _ _ => id

theorem tells_bind {p : Prog α} {f : α → Prog β} {K : α → KeyStore → Prop}
    {post : Except JsError β → KeyStore → Prop} (first : Tells t request P p (Told K))
    (rest : ∀ value, Tells t request (K value) (f value) post)
    (failed : ∀ s, post (.error aborted) s) : Tells t request P (p >>= f) post :=
  Contract.guides_bind (fun result j => Told K result j.state) first rest
    fun _ j isFault => isFault ▸ failed j.state

theorem tells_pure {value : β} {post : Except JsError β → KeyStore → Prop}
    (holds : ∀ s, P s → post (.ok value) s) : Tells t request P (pure value) post :=
  Contract.guides_pure fun j => holds j.state

theorem tells_op (firm : Firm P) {op : Op} {post : op.Res → KeyStore → Prop}
    (justified : ∀ j, P j.state → Justified j op)
    (step : ∀ s result s', Exec t s op result s' → P s → post result s') :
    Tells t request P (call op) post := by
  intro j start
  exact Contract.safe_step (fun j j' => firm j.state j'.state) (fun j _ _ known =>
    ⟨justified j known, fun result s' performs => step j.state result s' performs.exec known⟩) start

theorem Exec.undecrypted {e : JsError} {s s' : KeyStore} {op : Op}
    (exec : Exec t s op (.error e) s') (other : ∀ key iv ct, op ≠ .decrypt key iv ct) :
    e = aborted := by
  rcases exec.failed with isFault | ⟨key, iv, ct, isDecrypt, _⟩
  · exact isFault
  · exact absurd isDecrypt (other key iv ct)

/-- An operation other than a decryption, and what is known of its answer. -/
theorem tells_call (firm : Firm P) {op : Op} {K : op.Val → KeyStore → Prop}
    (other : ∀ key iv ct, op ≠ .decrypt key iv ct) (justified : ∀ j, P j.state → Justified j op)
    (step : ∀ s a value s', effect s op a = (.ok value, s') → P s → K value s') :
    Tells t request P (call op) (Told K) := by
  refine tells_op firm justified fun s result s' exec known => ?_
  cases result with
  | error e => exact exec.undecrypted other
  | ok value =>
      obtain ⟨a, effected⟩ := exec.effect
      exact step s a value s' effected known

theorem tells_putKey (key : Nat) : Tells t request (fun _ => True) (call (.putKey key))
    (Told fun _ s => s.wrappingKey = some key) := by
  intro j start
  have stable : contract.Stable t fun _ => True := fun _ _ _ => id
  have justified (j : History) : contract.justified t j (.putKey key) := trivial
  refine Contract.safe_step stable (fun j _ _ _ => ⟨justified j, fun result s' performs => ?_⟩) start
  cases result with
  | error e => exact performs.exec.undecrypted fun _ _ _ isOp => Op.noConfusion isOp
  | ok => exact performs.permitted.commits key rfl

/-- The key that a call works with is the one in the store. -/
theorem tells_getWrappingKey : Tells t request (fun _ => True) getWrappingKey
    (Told fun key s => s.wrappingKey = some key) := by
  let found (key : Option Nat) (s : KeyStore) : Prop := key.isSome → s.wrappingKey = key
  have looks : Tells t request (fun _ => True) (call .getKey) (Told found) := by
    refine tells_call firm_true (fun _ _ _ => nofun) (fun _ _ => trivial) ?_
    intro s a key s' effected _ _
    obtain ⟨isKey, rfl⟩ := Prod.mk.inj effected
    exact Except.ok.inj isKey
  refine tells_bind looks (fun key => ?_) fun _ => rfl
  cases key with
  | some key => exact tells_pure fun s isKey => isKey rfl
  | none =>
      have generates : Tells t request (found none) (call .generateKey) (Told fun _ _ => True) :=
        tells_call (fun _ _ _ known => nofun) (fun _ _ _ => nofun) (fun _ _ => trivial)
          fun _ _ _ _ _ _ => trivial
      refine tells_bind generates (fun key => ?_) fun _ => rfl
      exact tells_bind (tells_putKey key) (fun _ => tells_pure fun _ => id) fun _ => rfl

theorem tells_wrapJson (value : Json) : Tells t request (fun _ => True) (wrapJson value)
    (Told fun _ _ => True) := by
  refine tells_bind tells_getWrappingKey (fun key => ?_) fun _ => rfl
  have draws : Tells t request (fun s => s.wrappingKey = some key) (call .getRandomValues)
      (Told fun _ s => s.wrappingKey = some key) := by
    refine tells_call (firm_key key) (fun _ _ _ => nofun) (fun _ _ => trivial) ?_
    intro s a iv s' effected isKey
    obtain ⟨_, rfl⟩ := Prod.mk.inj effected
    exact isKey
  refine tells_bind draws (fun iv => ?_) fun _ => rfl
  let wrapping (ct : Term) (s : KeyStore) : Prop :=
    s.wrappingKey = some key ∧ toBase64 (.cat iv ct) = sealJson key iv value
  have encrypts : Tells t request (fun s => s.wrappingKey = some key)
      (call (.encrypt key iv (utf8Encode value.text))) (Told wrapping) := by
    refine tells_call (firm_key key) (fun _ _ _ => nofun) (fun _ _ => trivial) ?_
    intro s a ct s' effected isKey
    obtain ⟨isCt, rfl⟩ := Prod.mk.inj effected
    obtain rfl := Except.ok.inj isCt
    exact ⟨isKey, rfl⟩
  refine tells_bind encrypts (fun ct => ?_) fun _ => rfl
  have firm : Firm (wrapping ct) := fun _ _ rely known => ⟨rely key known.1, known.2⟩
  have returns : Tells t request (wrapping ct) (call (.returnWrap value (toBase64 (.cat iv ct))))
      (Told fun _ _ => True) :=
    tells_call firm (fun _ _ _ => nofun) (fun _ known => ⟨key, iv, known.1, known.2⟩)
      fun _ _ _ _ _ _ => trivial
  exact tells_bind returns (fun _ => tells_pure fun _ => id) fun _ => rfl

/-- What unwrapping comes to: a fault, or the outcome of a decryption under the key of the
store. -/
def Unwrapped (wrapped : Base64) (result : Except JsError (List UInt16)) (s : KeyStore) : Prop :=
  result = .error aborted ∨ ∃ key, s.wrappingKey = some key ∧ Opens key wrapped result

theorem tells_decryptJson (wrapped : Base64) : Tells t request (fun _ => True)
    (decryptJson wrapped) (Unwrapped wrapped) := by
  refine tells_bind tells_getWrappingKey (fun key => ?_) fun _ => .inl rfl
  let Known (s : KeyStore) : Prop := s.wrappingKey = some key
  cases decoded : fromBase64 wrapped with
  | error e =>
      -- what does not decode was not wrapped
      have throws : Tells t request Known (lift (.error e) : Prog Term) fun result s =>
          result = .error e ∧ Known s :=
        Contract.guides_throw fun j isKey => ⟨rfl, isKey⟩
      refine Contract.guides_bind (fun result j => result = .error e ∧ Known j.state) throws ?_ ?_
      · exact fun value => Contract.guides_assuming fun same => absurd same (by simp)
      · rintro _ j ⟨⟨⟩, isKey⟩
        refine .inr ⟨key, isKey, fun iv value isSealed => ?_⟩
        rw [isSealed, sealJson, fromBase64_toBase64] at decoded
        cases decoded
  | ok bytes =>
      let decrypted (result : Except JsError Term) (s : KeyStore) : Prop :=
        Unwrapped wrapped (result.map utf8Decode) s
      have decrypts : Tells t request (fun s => s.wrappingKey = some key)
          (call (.decrypt key (cut bytes).1 (cut bytes).2)) decrypted := by
        refine tells_op (firm_key key) (fun _ _ => trivial) fun s result s' exec isKey => ?_
        have opens (iv : Term) (value : Json) (isSealed : wrapped = sealJson key iv value) :
            aesGcmDecrypt (.secret key) (cut bytes).1 (cut bytes).2 (.bytes []) =
              .ok (utf8Encode value.text) := by
          rw [isSealed, sealJson, fromBase64_toBase64] at decoded
          obtain rfl := Except.ok.inj decoded
          simp [cut, aesGcmDecrypt, aesGcmEncrypt]
        have same : s'.wrappingKey = some key := exec.kept (fun _ isOp => Op.noConfusion isOp) key isKey
        cases result with
        | error e =>
            rcases exec.failed with rfl | ⟨_, _, _, isOp, e', refused⟩
            · exact .inl rfl
            · obtain ⟨rfl, rfl, rfl⟩ := Op.decrypt.inj isOp
              refine .inr ⟨key, same, fun iv value isSealed => ?_⟩
              rw [opens iv value isSealed] at refused
              cases refused
        | ok pt =>
            refine .inr ⟨key, same, fun iv value isSealed => .inl ?_⟩
            obtain ⟨a, effected⟩ := exec.effect
            simp only [WrappingKey.effect, opens iv value isSealed, Prod.mk.injEq,
              Except.ok.injEq] at effected
            rw [← effected.1]
            exact congrArg Except.ok (Utf.decode_encode value.survives)
      have decodes : Tells t request Known (lift (.ok bytes) : Prog Term)
          (Told fun value s => value = bytes ∧ Known s) :=
        Contract.guides_pure fun j isKey => ⟨rfl, isKey⟩
      refine tells_bind decodes (fun value => ?_) fun _ => .inl rfl
      refine Contract.guides_assuming fun isBytes => ?_
      subst isBytes
      refine Contract.guides_bind (fun result j => decrypted result j.state) decrypts (fun pt => ?_)
        fun e j known => known
      exact Contract.guides_pure fun j known => known

theorem tells_unwrapJson (wrapped : Base64) : Tells t request (fun _ => True)
    (unwrapJson wrapped) fun _ _ => True := by
  have settles : Tells t request (fun _ => True) (settle (decryptJson wrapped))
      fun result s => ∃ outcome, result = .ok outcome ∧ Unwrapped wrapped outcome s := by
    refine Contract.guides_settle ?_
    exact (tells_decryptJson wrapped).weaken (fun _ => id) fun result _ known => ⟨result, rfl, known⟩
  refine Contract.guides_bind _ settles (fun outcome => ?_) fun _ _ _ => trivial
  have firm : Firm fun s => Unwrapped wrapped outcome s := by
    rintro s s' rely (failed | ⟨key, isKey, opens⟩)
    · exact .inl failed
    · exact .inr ⟨key, rely key isKey, opens⟩
  have marks : Tells t request (fun s => Unwrapped wrapped outcome s)
      (call (.returnUnwrap wrapped outcome)) fun _ _ => True :=
    tells_op firm (fun _ => id) fun _ _ _ _ _ => trivial
  have returns : Tells t request (fun _ => True) (lift outcome : Prog (List UInt16))
      fun _ _ => True := by
    cases outcome with
    | ok _ => exact Contract.guides_pure fun _ _ => trivial
    | error _ => exact Contract.guides_throw fun _ _ => trivial
  have rest := Contract.guides_bind _ marks (fun _ => returns) fun _ _ _ => trivial
  refine rest.weaken (fun j known => ?_) fun _ _ => id
  obtain ⟨_, isOutcome, known⟩ := known
  obtain rfl := Except.ok.inj isOutcome
  exact known

theorem tells_program (request : Call) :
    Tells t request (fun _ => True) request.program fun _ _ => True := by
  have told {γ : Type} {p : Prog γ} (tells : Tells t request (fun _ => True) p (Told fun _ _ => True)) :
      Tells t request (fun _ => True) p fun _ _ => True :=
    tells.weaken (fun _ => id) fun _ _ _ => trivial
  cases request with
  | wrapJson value =>
      exact Contract.guides_bind _ (told (tells_wrapJson value))
        (fun _ => Contract.guides_pure fun _ _ => trivial) fun _ _ _ => trivial
  | unwrapJson wrapped =>
      exact Contract.guides_bind _ (tells_unwrapJson wrapped)
        (fun _ => Contract.guides_pure fun _ _ => trivial) fun _ _ _ => trivial
  | saveIdentity identity =>
      refine Contract.guides_bind _ (told (tells_wrapJson identity)) (fun wrapped => ?_)
        fun _ _ _ => trivial
      have puts : Tells t (.saveIdentity identity) (fun _ => True) (call (.putIdentity wrapped))
          fun _ _ => True :=
        tells_op firm_true (fun _ _ => trivial) fun _ _ _ _ _ => trivial
      exact puts
  | loadIdentity =>
      have loads : Tells t .loadIdentity (fun _ => True) loadIdentity fun _ _ => True := by
        have gets : Tells t .loadIdentity (fun _ => True) (call .getIdentity) fun _ _ => True :=
          tells_op firm_true (fun _ _ => trivial) fun _ _ _ _ _ => trivial
        refine Contract.guides_bind _ gets (fun stored => ?_) fun _ _ _ => trivial
        cases stored with
        | none => exact Contract.guides_pure fun _ _ => trivial
        | some wrapped =>
            exact Contract.guides_bind _ (tells_unwrapJson wrapped)
              (fun _ => Contract.guides_pure fun _ _ => trivial) fun _ _ _ => trivial
      exact Contract.guides_bind _ loads (fun _ => Contract.guides_pure fun _ _ => trivial)
        fun _ _ _ => trivial

end Programs

section Runs

variable {s : KeyStore} {j : History}

theorem consistent_of_reaches
    (reaches : service.Reaches (fun _ _ => True) PutOnce s j) : Consistent j := by
  have initial : Consistent (.empty s) :=
    ⟨fun _ member => absurd member List.not_mem_nil, fun _ member => absurd member List.not_mem_nil,
      fun _ member => absurd member List.not_mem_nil⟩
  refine reaches.under contract initial (fun j t request consistent _ _ => ⟨?_, fun u _ => ?_⟩)
    fun t request => ?_
  · exact ⟨consistent.kept, consistent.wrapped, consistent.unwrapped⟩
  · exact contract.refl u j
  · exact Contract.Guides.weaken (tells_program request) (fun _ _ => trivial) fun _ _ => id

/-- Where no key is put over another and none is lost, all that was wrapped stays readable. -/
theorem readable_of_putOnce (s : KeyStore) : KeepsReadable PutOnce s := by
  intro j reaches later w earlier isPast value wrapped isWrap e member _ result isUnwrap
  have consistent := consistent_of_reaches reaches
  have inPast : e ∈ j.past := isPast ▸ List.mem_append_left _ member
  obtain ⟨key, iv, isKey, rfl⟩ :=
    consistent.wrapped w (isPast ▸ List.mem_append_right _ List.mem_cons_self) value wrapped isWrap
  rcases consistent.unwrapped e inPast _ result isUnwrap with failed | ⟨key', isKey', opens⟩
  · exact .inr failed
  · obtain ⟨after, before, rfl⟩ := List.append_of_mem member
    rw [List.append_assoc, List.cons_append] at isPast
    obtain ⟨j', reaches', isPast', performs⟩ := reaches.at_entry isPast
    have still : Rely w.before j'.state := (consistent_of_reaches reaches').kept w
      (isPast' ▸ List.mem_append_right _ List.mem_cons_self)
    have same := still key isKey
    rw [← performs.before, isKey'] at same
    obtain rfl := Option.some.inj same
    exact opens iv value rfl

end Runs

section Lookups

/-- A key is put by a call that has found none. -/
def asks (_ : Call) (log : Log Op Op.Res) : Op → Prop
  | .putKey _ => (⟨.getKey, .ok none⟩ : (op : Op) × op.Res) ∈ log
  | _ => True

/-- The operations around a lookup. -/
def Around : Op → Prop
  | .putKey _ => False
  | _ => True

variable (permits : History → Event → Prop)

abbrev asking : Contract service permits :=
  .ofLaw service permits asks

variable {permits} {t : Nat} {request : Call} {α β : Type}

theorem asking_around {p : Prog α} (uses : Uses Around p.run) :
    (asking permits).Yields t request (fun _ => True) p fun _ _ => True := by
  refine Contract.ofLaw_uses (fun _ => True) (fun op around log _ => ⟨?_, fun _ => trivial⟩) uses
  cases op with
  | putKey => exact around.elim
  | _ => trivial

theorem asking_call (op : Op) (pre : Log Op Op.Res → Prop) (post : op.Val → Log Op Op.Res → Prop)
    (step : ∀ log, pre log → asks request log op ∧ ∀ value, post value (⟨op, .ok value⟩ :: log)) :
    (asking permits).Yields t request (fun j => pre (j.log t)) (call op)
      fun value j => post value (j.log t) :=
  Contract.ofLaw_call pre post fun log known =>
    ⟨(step log known).1, fun _ value _ _ => (step log known).2 value⟩

theorem asking_getWrappingKey :
    (asking permits).Yields t request (fun _ => True) getWrappingKey fun _ _ => True := by
  let missed (log : Log Op Op.Res) : Prop := (⟨.getKey, .ok none⟩ : (op : Op) × op.Res) ∈ log
  have looks : (asking permits).Yields t request (fun _ => True) (call .getKey)
      fun key j => key = none → missed (j.log t) := by
    refine asking_call .getKey (fun _ => True) (fun key log => key = none → missed log)
      fun log _ => ⟨trivial, fun key isNone => ?_⟩
    rw [isNone]
    exact List.mem_cons_self
  refine Contract.yields_bind _ looks fun key => ?_
  cases key with
  | some key => exact Contract.yields_pure fun _ _ => trivial
  | none =>
      have generates : (asking permits).Yields t request (fun j => missed (j.log t)) (call .generateKey)
          fun _ j => missed (j.log t) :=
        asking_call .generateKey missed (fun _ => missed) fun log known => ⟨trivial, fun _ => List.mem_cons_of_mem _ known⟩
      have puts (key : Nat) : (asking permits).Yields t request (fun j => missed (j.log t))
          (call (.putKey key)) fun _ _ => True :=
        asking_call (.putKey key) missed (fun _ _ => True) fun log known => ⟨known, fun _ => trivial⟩
      have returns (key : Nat) : (asking permits).Yields t request (fun _ => True) (pure key : Prog Nat)
          fun _ _ => True :=
        Contract.yields_pure fun _ _ => trivial
      have both := Contract.yields_bind _ generates fun key =>
        Contract.yields_bind _ (puts key) fun _ => returns key
      exact both.weaken (fun _ known => known rfl) fun _ _ => id

theorem uses_around {op : Op} (around : Around op) : Uses Around (call op).run :=
  ⟨around, fun _ => trivial⟩

theorem asking_wrapJson (value : Json) :
    (asking permits).Yields t request (fun _ => True) (wrapJson value) fun _ _ => True := by
  refine Contract.yields_bind _ asking_getWrappingKey fun key => ?_
  refine Contract.yields_bind _ (asking_around (uses_around trivial)) fun iv => ?_
  refine Contract.yields_bind _ (asking_around (uses_around trivial)) fun ct => ?_
  refine Contract.yields_bind _ (asking_around (uses_around trivial)) fun _ => ?_
  exact Contract.yields_pure fun _ _ => trivial

theorem asking_unwrapJson (wrapped : Base64) :
    (asking permits).Yields t request (fun _ => True) (unwrapJson wrapped) fun _ _ => True := by
  have decrypts : (asking permits).Yields t request (fun _ => True) (decryptJson wrapped) fun _ _ => True := by
    refine Contract.yields_bind _ asking_getWrappingKey fun key => ?_
    refine Contract.yields_bind _ (asking_around uses_lift) fun bytes => ?_
    refine Contract.yields_bind _ (asking_around (uses_around trivial)) fun pt => ?_
    exact Contract.yields_pure fun _ _ => trivial
  have settles : (asking permits).Yields t request (fun _ => True) (settle (decryptJson wrapped))
      fun _ _ => True :=
    (Contract.yields_settle decrypts).weaken (fun _ => id) fun _ _ _ => trivial
  refine Contract.yields_bind _ settles fun outcome => ?_
  refine Contract.yields_bind _ (asking_around (uses_around trivial)) fun _ => ?_
  exact asking_around uses_lift

theorem asking_program (t : Nat) (request : Call) :
    (asking permits).Yields t request (fun j => j.log t = []) request.program fun _ _ => True := by
  have starts {p : Prog Unit}
      (yields : (asking permits).Yields t request (fun _ => True) p fun _ _ => True) :
      (asking permits).Yields t request (fun j => j.log t = []) p fun _ _ => True :=
    yields.weaken (fun _ _ => trivial) fun _ _ => id
  cases request with
  | wrapJson value =>
      exact starts (Contract.yields_bind _ (asking_wrapJson value) fun _ =>
        Contract.yields_pure fun _ _ => trivial)
  | unwrapJson wrapped =>
      exact starts (Contract.yields_bind _ (asking_unwrapJson wrapped) fun _ =>
        Contract.yields_pure fun _ _ => trivial)
  | saveIdentity identity =>
      exact starts (Contract.yields_bind _ (asking_wrapJson identity) fun _ =>
        asking_around (uses_around trivial))
  | loadIdentity =>
      refine starts (Contract.yields_bind (fun _ _ => True) ?_ fun _ =>
        Contract.yields_pure fun _ _ => trivial)
      refine Contract.yields_bind _ (asking_around (uses_around trivial)) fun stored => ?_
      cases stored with
      | none => exact Contract.yields_pure fun _ _ => trivial
      | some wrapped =>
          exact Contract.yields_bind _ (asking_unwrapJson wrapped) fun _ =>
            Contract.yields_pure fun _ _ => trivial

variable {s : KeyStore} {j : History} {e : Event}

/-- Only a put that succeeds leaves a key where there was none. -/
theorem Exec.stays_none {s' : KeyStore} {op : Op} {result : op.Res} (exec : Exec t s op result s')
    (unput : ∀ other, (⟨op, result⟩ : (op : Op) × op.Res) ≠ ⟨.putKey other, .ok ()⟩)
    (unset : s.wrappingKey = none) : s'.wrappingKey = none := by
  obtain ⟨a, performed⟩ := exec
  unfold perform at performed
  split at performed
  next =>
    obtain ⟨_, rfl⟩ := Prod.mk.inj (Option.some.inj performed)
    exact unset
  next =>
    obtain ⟨isResult, isAfter⟩ := Prod.mk.inj (Option.some.inj performed)
    cases op with
    | putKey other => exact absurd (congrArg (Sigma.mk _) isResult.symm) (unput other)
    | putIdentity wrapped =>
        rw [← isAfter]
        simp only
        split
        · exact unset
        · exact unset
    | decrypt key iv ct =>
        rw [← isAfter]
        simp only
        split
        · exact unset
        · exact unset
    | _ => exact isAfter ▸ unset

/-- The lookup of a call that puts a key is still right at the put. -/
theorem putOnce_of_unraced (reaches : service.Reaches (fun _ _ => True) Unraced s j)
    (performs : j.Performs service Unraced e)
    (after : service.Reaches (fun _ _ => True) Unraced s (j.record e)) : PutOnce j e := by
  refine ⟨fun key isOp => ?_, performs.permitted.commits⟩
  have asked := after.allowed asking_program performs.running
  rw [isOp] at asked
  obtain ⟨later, earlier, isLog⟩ := List.append_of_mem asked
  obtain ⟨since, a, before, isPast, isThread, isLogged, _⟩ := own_split isLog
  have unput := performs.permitted.alone key isOp since a before isPast isThread (congrArg Sigma.fst isLogged)
  have missed : a.after.wrappingKey = none := by
    obtain ⟨j', _, _, first⟩ := reaches.at_entry isPast
    obtain ⟨t, call, op, result, start, found⟩ := a
    obtain ⟨rfl, same⟩ := Sigma.mk.inj isLogged
    obtain rfl := eq_of_heq same
    obtain ⟨a, effected⟩ := Exec.effect first.exec
    obtain ⟨isKey, isAfter⟩ := Prod.mk.inj effected
    rw [← isAfter]
    exact Except.ok.inj isKey
  rw [performs.before]
  refine reaches.stays (P := fun s => s.wrappingKey = none) isPast missed fun x member unset => ?_
  obtain ⟨newer, older, isSplit⟩ := List.append_of_mem member
  rw [isSplit, List.append_assoc, List.cons_append] at isPast
  obtain ⟨_, _, _, performed⟩ := reaches.at_entry isPast
  exact Exec.stays_none performed.exec (unput x member) unset

/-- Where no other call puts a key between a lookup and the put after it, and the put commits, all that
was wrapped stays readable. -/
theorem keeps_readable (s : KeyStore) : KeepsReadable Unraced s :=
  fun j reaches => readable_of_putOnce s j
    (reaches.strengthen fun _ _ before _ performs after => putOnce_of_unraced before performs after)

end Lookups

section FirstUse

def identityJson : Json where
  text := [0x7B, 0x7D]
  survives := ⟨[0x7B, 0x7D], by simp [Utf.Scalar], by decide, rfl⟩

/-- Wrapped under the first of two keys. -/
def sealedFirst : Base64 :=
  sealJson 1 (.bytes []) identityJson

/-- Two tabs look for the key before either puts one. -/
def replacing : Option History :=
  ((service.schedule perform fun _ => true).follow (Service.unstarted fresh) [
    .start 0 (.wrapJson identityJson), .await 0 {}, .await 0 { name := 1 },
    .start 1 (.wrapJson identityJson), .await 1 {}, .await 1 { name := 2 },
    .await 0 {}, .await 1 {},
    .await 0 {}, .await 0 {}, .await 0 {},
    .start 2 (.unwrapJson sealedFirst), .await 2 {}, .await 2 {}, .await 2 {}]).map Config.state

/-- Who returned what. -/
inductive Returned
  | wrapped (text : List UInt16) (out : Base64)
  | unwrapped (wrapped : Base64) (result : Except JsError (List UInt16))
  | nothing
  deriving DecidableEq

def returned : Op → Returned
  | .returnWrap value wrapped => .wrapped value.text wrapped
  | .returnUnwrap wrapped result => .unwrapped wrapped result
  | _ => .nothing

theorem replacing_past : replacing.map (fun j => j.past.map fun e => (e.thread, returned e.op)) =
    some ([(2, .unwrapped sealedFirst (.error (.dom "OperationError"))), (2, .nothing), (2, .nothing)] ++
      (0, .wrapped identityJson.text sealedFirst) ::
      [0, 0, 1, 0, 1, 1, 0, 0].map fun t => (t, .nothing)) := by
  decide +kernel

theorem returned_wrapped {op : Op} {text : List UInt16} {wrapped : Base64}
    (isReturned : returned op = .wrapped text wrapped) :
    ∃ value, value.text = text ∧ op = .returnWrap value wrapped := by
  cases op with
  | returnWrap value out =>
      obtain ⟨isText, rfl⟩ := Returned.wrapped.inj isReturned
      exact ⟨value, isText, rfl⟩
  | _ => cases isReturned

theorem returned_unwrapped {op : Op} {wrapped : Base64} {result : Except JsError (List UInt16)}
    (isReturned : returned op = .unwrapped wrapped result) : op = .returnUnwrap wrapped result := by
  cases op with
  | returnUnwrap _ _ =>
      obtain ⟨rfl, rfl⟩ := Returned.unwrapped.inj isReturned
      rfl
  | _ => cases isReturned

theorem not_readable_replaced : ¬KeepsReadable (fun _ _ => True) fresh := by
  intro claim
  obtain ⟨j, ran, facts⟩ := Option.map_eq_some_iff.mp replacing_past
  obtain ⟨config, followed, rfl⟩ := Option.map_eq_some_iff.mp ran
  have performs (t : Nat) (s : KeyStore) (op : Op) (a : Answer) (result : op.Res) (s' : KeyStore)
      (performed : perform t s op a = some (result, s')) : service.exec t s op result s' := ⟨a, performed⟩
  have reaches : service.Reaches (fun _ _ => True) (fun _ _ => True) fresh config.state :=
    Service.reaches_follow (fun _ _ _ => trivial) performs (fun _ _ => trivial) followed
  obtain ⟨later, rest, isPast, isLater, isRest⟩ := List.map_eq_append_iff.mp facts
  obtain ⟨w, earlier, rfl, isWrap, isEarlier⟩ := List.map_eq_cons_iff.mp isRest
  obtain ⟨e, _, rfl, isUnwrap, _⟩ := List.map_eq_cons_iff.mp isLater
  obtain ⟨isThread, unwraps⟩ := Prod.mk.inj isUnwrap
  obtain ⟨value, _, wraps⟩ := returned_wrapped (Prod.mk.inj isWrap).2
  have unasked : Unasked (own e.thread earlier) := by
    rw [isThread]
    intro x member
    obtain ⟨e', inPast, isTwo, _⟩ := mem_of_own member
    have listed := isEarlier ▸ List.mem_map_of_mem inPast
    simp [isTwo] at listed
  have outcome := claim _ reaches _ w earlier isPast value sealedFirst wraps e List.mem_cons_self
    unasked _ (returned_unwrapped unwraps)
  rcases outcome with opened | failed
  · cases opened
  · have differ : ("OperationError" : String) ≠ "AbortError" := by decide
    exact differ (JsError.dom.inj (Except.error.inj failed))

end FirstUse

end WrappingKey
