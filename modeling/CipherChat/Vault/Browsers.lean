import CipherChat.Async.Contract
import CipherChat.Service.Footprint

/-!
Any number of browsers with their vaults, the calls `encrypt` and `decrypt` on them from any number of
tabs, and tabs that crash between any two awaited steps.
-/

namespace Vault

open Async Number Symbolic Primitives KeyStore Envelope EnvelopeV2 Store E2EEService

structure Browsers where
  device : Nat → Device
  /-- The calls that ended with their tab. -/
  dead : Nat → Bool

/-- What a call returns to the page. -/
inductive Reply
  | sent (envelope : AnyEnvelope)
  | read (result : DecryptResult)
  deriving DecidableEq

inductive Act
  | on (browser : Nat) (op : Op)
  | answer (reply : Reply)
  | crash (thread : Nat)

namespace Act

abbrev Val : Act → Type
  | on _ op => op.Val
  | answer _ | crash _ => Unit

abbrev Res (act : Act) : Type :=
  Except JsError act.Val

end Act

namespace Browsers

variable (s : Browsers)

def set (n : Nat) (d : Device) : Browsers :=
  { s with device := Function.update s.device n d }

/-- The tab of a call is gone, and its browser has released the locks it held.  A tab that ends
with several calls is several crashes. -/
def crash (t : Nat) : Browsers where
  device n := { s.device n with
    locks := fun name =>
      if (s.device n).locks name = some t then none else (s.device n).locks name }
  dead := Function.update s.dead t true

theorem set_device (n m : Nat) (d : Device) :
    (s.set n d).device m = if m = n then d else s.device m := by
  simp [set, Function.update_apply]

theorem crash_dead (t u : Nat) : (s.crash u).dead t = if t = u then true else s.dead t := by
  simp [crash, Function.update_apply]

end Browsers

def perform (t : Nat) (s : Browsers) (act : Act) (a : Answer) : Option (act.Res × Browsers) :=
  if s.dead t then none
  else match act with
    | .on n op =>
        match Store.perform t (s.device n) op a with
        | none => none
        | some (result, d) => some (result, s.set n d)
    | .answer _ => some (.ok (), s)
    | .crash u => some (.ok (), s.crash u)

abbrev Acting (α : Type) := Throwing JsError Act Act.Res α

def act (a : Act) : Acting a.Val :=
  ExceptT.mk (Program.call a)

/-- The same program, on browser `n`. -/
def on {α : Type} (n : Nat) (p : Prog α) : Acting α :=
  Throwing.relabel p (Act.on n) fun _ result => result

inductive Call
  | encrypt (browser : Nat) (this : Tab) (conversationId peerId : String) (text : List UInt16)
  | decrypt (browser : Nat) (this : Tab) (conversationId senderId : String)
      (envelope : AnyEnvelope) (own : Bool)
  | crash (thread : Nat)

namespace Call

def body : Call → Acting Unit
  | encrypt n this conversationId peerId text => do
      let envelope ← on n (E2EEService.encrypt this conversationId peerId text)
      act (.answer (.sent envelope))
  | decrypt n this conversationId senderId envelope own => do
      let result ← on n (E2EEService.decrypt this conversationId senderId envelope own)
      act (.answer (.read result))
  | crash thread => act (.crash thread)

def browser : Call → Option Nat
  | encrypt n _ _ _ _ | decrypt n _ _ _ _ _ => some n
  | crash _ => none

/-- The conversation a call is about. -/
def conversation : Call → Option String
  | encrypt _ _ conversationId _ _ | decrypt _ _ conversationId _ _ _ => some conversationId
  | crash _ => none

/-- A v2 envelope that is handed to a call. -/
def handed : Call → Option WireEnvelopeV2
  | decrypt _ _ _ _ (.v2 envelope) _ => some envelope
  | _ => none

def decrypts : Call → Bool
  | decrypt .. => true
  | _ => false

end Call

def service : Service Act Act.Res Browsers Call (Except JsError Unit) where
  program call := call.body.run
  exec t s a result s' := ∃ choice, perform t s a choice = some (result, s')

abbrev Event := Entry Act Act.Res Browsers Call

abbrev History := Journal Act Act.Res Browsers Call

/-- The browser, the ratchet and the message of a commit. -/
def committed (e : Event) : Option (Nat × RatchetRow × Option MessageRow) :=
  match e.op, e.result with
  | .on n (.putCommit row message), .ok _ => some (n, row, message)
  | _, _ => none

/-- A session id that was drawn. -/
def drawnId (e : Event) : Option String :=
  match e.op, e.result with
  | .on _ .randomUUID, .ok sessionId => some sessionId
  | _, _ => none

/-- The name of an X25519 key pair that was drawn. -/
def drawnKey (e : Event) : Option Nat :=
  match e.op, e.result with
  | .on _ .generateX25519, .ok name => some name
  | _, _ => none

/-- The name of a conversation key that was drawn. -/
def drawnDek (e : Event) : Option Nat :=
  match e.op, e.result with
  | .on _ .generateDek, .ok name => some name
  | _, _ => none

/-- Storing the key of a conversation that has none has failed. -/
def lostKey (e : Event) : Bool :=
  match e.op, e.result with
  | .on n (.addDek row), .error _ => ((e.before.device n).deks.get row.convId).isNone
  | _, _ => false

/-- A key bundle that was served. -/
def served (e : Event) : Option PeerBundle :=
  match e.op, e.result with
  | .on _ (.getKeys _), .ok bundle => some bundle
  | _, _ => none

/-- A v2 envelope that `encrypt` has returned, and the browser it did so on. -/
def sentBy (e : Event) : Option (Nat × WireEnvelopeV2) :=
  match e.op, e.call with
  | .answer (.sent (.v2 envelope)), .encrypt n _ _ _ _ => some (n, envelope)
  | _, _ => none

section Exec

variable {t : Nat} {s s' : Browsers}

theorem exec_alive {act : Act} {result : act.Res} (performed : service.exec t s act result s') :
    s.dead t = false := by
  obtain ⟨choice, performed⟩ := performed
  cases gone : s.dead t with
  | false => rfl
  | true => simp [perform, gone] at performed

theorem exec_on {n : Nat} {op : Op} {result : op.Res} :
    service.exec t s (.on n op) result s' ↔
      s.dead t = false ∧ ∃ d, Store.Exec t (s.device n) op result d ∧ s' = s.set n d := by
  constructor
  · intro performed
    have alive := exec_alive performed
    obtain ⟨choice, performed⟩ := performed
    simp only [perform, alive, Bool.false_eq_true, if_false] at performed
    split at performed
    · contradiction
    next answer d executed =>
      simp only [Option.some.injEq, Prod.mk.injEq] at performed
      obtain ⟨rfl, rfl⟩ := performed
      exact ⟨alive, d, ⟨choice, executed⟩, rfl⟩
  · rintro ⟨alive, d, ⟨choice, executed⟩, rfl⟩
    refine ⟨choice, ?_⟩
    simp only [perform, alive, Bool.false_eq_true, if_false, executed]

theorem exec_answer {reply : Reply} {result : Except JsError Unit}
    (performed : service.exec t s (.answer reply) result s') : s' = s := by
  have alive := exec_alive performed
  obtain ⟨choice, performed⟩ := performed
  simp only [perform, alive, Bool.false_eq_true, if_false, Option.some.injEq,
    Prod.mk.injEq] at performed
  exact performed.2.symm

theorem exec_crash {u : Nat} {result : Except JsError Unit}
    (performed : service.exec t s (.crash u) result s') : s' = s.crash u := by
  have alive := exec_alive performed
  obtain ⟨choice, performed⟩ := performed
  simp only [perform, alive, Bool.false_eq_true, if_false, Option.some.injEq,
    Prod.mk.injEq] at performed
  exact performed.2.symm

end Exec

section Programs

variable {α β : Type} (n : Nat)

theorem on_bind (p : Prog α) (f : α → Prog β) :
    on n (p >>= f) = on n p >>= fun value => on n (f value) :=
  relabel_bind

theorem on_lift (result : Except JsError α) : on n (lift result : Prog α) = lift result := by
  rfl

theorem on_call (op : Op) : on n (E2EEService.call op) = act (.on n op) := by
  rfl

theorem on_tryCatch (p : Prog α) (handler : JsError → Prog α) :
    on n (tryCatch p handler) = tryCatch (on n p) fun e => on n (handler e) :=
  relabel_tryCatch

theorem on_settle (p : Prog α) : on n (settle p) = settle (on n p) :=
  relabel_settle

theorem uses_on {allowed : Act → Prop} {p : Prog α}
    (uses : Uses (fun op => allowed (.on n op)) p.run) : Uses allowed (on n p).run :=
  uses_relabel uses

end Programs

end Vault
