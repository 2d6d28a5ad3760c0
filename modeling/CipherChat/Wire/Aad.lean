import CipherChat.Text.Decimal
import CipherChat.Wire.Accepted

/-!
The bytes that `crypto/envelope.ts`, `crypto/envelopeV2.ts` and `crypto/doubleRatchet.ts`
authenticate with a ciphertext, and what two frames of the same bytes have in common.
-/

namespace Aad

open Number
open Rooms (JavaString)
open Wire (Uuid)

/-- `buildAad` of `crypto/envelope.ts`. -/
def buildAad (conversationId senderId : String) (sessionId : JavaString) (ctr : JsNumber) :
    List UInt8 :=
  Utf.encode (Utf.ofString ("\x7b\"v\":1,\"conversationId\":\"" ++ conversationId ++
      "\",\"senderId\":\"" ++ senderId ++ "\",\"sessionId\":\"") ++
    (sessionId ++ Utf.ofString ("\",\"ctr\":" ++ Number.text ctr ++ "\x7d")))

/-- `aad` of `crypto/envelopeV2.ts`. -/
def aad (conversationId senderId : String) (sessionId : JavaString) (ctr : JsNumber) :
    List UInt8 :=
  Utf.encode (Utf.ofString ("\x7b\"v\":2,\"conversationId\":\"" ++ conversationId ++
      "\",\"senderId\":\"" ++ senderId ++ "\",\"sessionId\":\"") ++
    (sessionId ++ Utf.ofString ("\",\"ctr\":" ++ Number.text ctr ++ "\x7d")))

def headerBytes (dh : String) (pn n : JsNumber) : List UInt8 :=
  Utf.encode (Utf.ofString ("\x7b\"dh\":\"" ++ dh ++ "\",\"pn\":" ++ Number.text pn ++ ",\"n\":" ++
    Number.text n ++ "\x7d"))

theorem ofString_append (s t : String) : Utf.ofString (s ++ t) = Utf.ofString s ++ Utf.ofString t := by
  simp [Utf.ofString]

/-- A template string, split around the piece it takes from outside. -/
theorem ofString_around (a b c d e f g h i : String) :
    Utf.ofString (a ++ b ++ c ++ d ++ e) ++ (Utf.ofString f ++ Utf.ofString (g ++ h ++ i)) =
      Utf.ofString (a ++ b ++ c ++ d ++ e ++ f ++ g ++ h ++ i) := by
  simp only [ofString_append, List.append_assoc]

/-- For an id without lone surrogates these are the bytes of the model's `buildAad`. -/
theorem buildAad_ofString (conversationId senderId sessionId : String) (ctr : JsNumber) :
    buildAad conversationId senderId (Utf.ofString sessionId) ctr =
      Utf.encode (Utf.ofString (Envelope.aadText conversationId senderId sessionId ctr)) :=
  congrArg Utf.encode (ofString_around _ _ _ _ _ _ _ _ _)

theorem aad_ofString (conversationId senderId sessionId : String) (ctr : JsNumber) :
    aad conversationId senderId (Utf.ofString sessionId) ctr =
      Utf.encode (Utf.ofString (EnvelopeV2.aadText conversationId senderId sessionId ctr)) :=
  congrArg Utf.encode (ofString_around _ _ _ _ _ _ _ _ _)

theorem headerBytes_raw (dh : String) (pn n : JsNumber) :
    Primitives.utf8Encode (Utf.ofString ("\x7b\"dh\":\"" ++ dh ++ ("\",\"pn\":" ++ Number.text pn ++
        ",\"n\":" ++ Number.text n ++ "\x7d"))) = .bytes (headerBytes dh pn n) ∧
      DoubleRatchet.headerBytes { dh := .raw dh, pn, n } = .text ("\x7b\"dh\":\"" ++ dh ++
        ("\",\"pn\":" ++ Number.text pn ++ ",\"n\":" ++ Number.text n ++ "\x7d")) := by
  refine ⟨?_, rfl⟩
  simp only [Primitives.utf8Encode, headerBytes, ofString_append, List.append_assoc]

section Parsing

/-- The code points of an ordinary text. -/
def codes (s : String) : List Nat :=
  s.toList.map Char.toNat

@[simp] theorem codes_append (s t : String) : codes (s ++ t) = codes s ++ codes t := by
  simp [codes]

theorem codes_injective {s t : String} (same : codes s = codes t) : s = t := by
  have injective : Function.Injective Char.toNat := fun a b equal => Char.toNat_inj.mp equal
  exact String.toList_injective (List.map_injective_iff.mpr injective same)

theorem points_ofString (s : String) : Utf.points (Utf.ofString s) = codes s := by
  simpa [Utf.points, codes] using Utf.points_ofString_append s []

/-- What stands after the last separator. -/
theorem split_last {α : Type} {sep : α} {xs xs' ys ys' : List α} (apart : sep ∉ ys)
    (apart' : sep ∉ ys') (same : xs ++ sep :: ys = xs' ++ sep :: ys') : xs = xs' ∧ ys = ys' := by
  rcases List.append_eq_append_iff.mp same with ⟨more, isXs, rest⟩ | ⟨more, isXs, rest⟩ <;>
    cases more with
    | nil => simp_all
    | cons first more => simp_all

theorem colon_notMem {s : String} (numeric : ∀ c ∈ s.toList, Numeric c) : (58 : Nat) ∉ codes s := by
  intro member
  obtain ⟨c, inText, isColon⟩ := List.mem_map.mp member
  have isColon : c = ':' := Char.toNat_inj.mp isColon
  subst isColon
  rcases numeric _ inText with isDigit | listed
  · exact absurd isDigit (by decide)
  · exact absurd listed (by decide)

theorem split_number {xs xs' : List Nat} {n n' : JsNumber} (isN : IsDouble n) (isN' : IsDouble n')
    (same : xs ++ 58 :: codes (Number.text n ++ "\x7d") =
      xs' ++ 58 :: codes (Number.text n' ++ "\x7d")) : xs = xs' ∧ n = n' := by
  have ends : ∀ {x : JsNumber}, (58 : Nat) ∉ codes (Number.text x ++ "\x7d") := by
    intro x
    rw [codes_append, List.mem_append]
    exact not_or.mpr ⟨colon_notMem fun c => text_numeric, by decide⟩
  obtain ⟨before, after⟩ := split_last ends ends same
  rw [codes_append, codes_append] at after
  exact ⟨before, text_injective isN isN' (codes_injective (List.append_cancel_right after))⟩

/-- The end of the associated data: a session id and a counter. -/
theorem split_counter {ids ids' : List Nat} {ctr ctr' : JsNumber} (isCtr : IsDouble ctr)
    (isCtr' : IsDouble ctr')
    (same : ids ++ codes ("\",\"ctr\":" ++ Number.text ctr ++ "\x7d") =
      ids' ++ codes ("\",\"ctr\":" ++ Number.text ctr' ++ "\x7d")) : ids = ids' ∧ ctr = ctr' := by
  have shape : ∀ (ids : List Nat) (s : String), ids ++ codes ("\",\"ctr\":" ++ s ++ "\x7d") =
      (ids ++ codes "\",\"ctr\"") ++ 58 :: codes (s ++ "\x7d") := by
    intro ids s
    simp only [codes_append, List.append_assoc]
    rfl
  rw [shape, shape] at same
  obtain ⟨before, isCounter⟩ := split_number isCtr isCtr' same
  exact ⟨List.append_cancel_right before, isCounter⟩

def headerText (dh : String) (pn n : JsNumber) : String :=
  "\x7b\"dh\":\"" ++ dh ++ "\",\"pn\":" ++ Number.text pn ++ ",\"n\":" ++ Number.text n ++ "\x7d"

/-- A text without a quotation mark, as base64 is. -/
theorem split_header {xs xs' : List Nat} {dh dh' : String} {pn pn' n n' : JsNumber}
    (quoted : '"' ∉ dh.toList) (quoted' : '"' ∉ dh'.toList) (isPn : IsDouble pn)
    (isPn' : IsDouble pn') (isN : IsDouble n) (isN' : IsDouble n')
    (same : xs ++ codes (headerText dh pn n) = xs' ++ codes (headerText dh' pn' n')) :
    xs = xs' ∧ dh = dh' ∧ pn = pn' ∧ n = n' := by
  have shape : ∀ (xs : List Nat) (dh pn n : String),
      xs ++ codes ("\x7b\"dh\":\"" ++ dh ++ "\",\"pn\":" ++ pn ++ ",\"n\":" ++ n ++ "\x7d") =
        ((xs ++ codes "\x7b\"dh\":" ++ 34 :: codes dh) ++ codes "\",\"pn\"" ++ 58 :: codes pn) ++
          codes ",\"n\"" ++ 58 :: codes (n ++ "\x7d") := by
    intro xs dh pn n
    simp only [codes_append, List.append_assoc]
    rfl
  have unquoted : ∀ {s : String}, '"' ∉ s.toList → (34 : Nat) ∉ codes s := by
    intro s absent member
    obtain ⟨c, inText, isQuote⟩ := List.mem_map.mp member
    have isQuote : c = '"' := Char.toNat_inj.mp isQuote
    exact absent (isQuote ▸ inText)
  rw [headerText, headerText, shape, shape] at same
  obtain ⟨same, isNumber⟩ := split_number isN isN' same
  obtain ⟨same, isPrevious⟩ := split_last (colon_notMem fun c => text_numeric)
    (colon_notMem fun c => text_numeric) (List.append_cancel_right same)
  obtain ⟨same, isKey⟩ := split_last (unquoted quoted) (unquoted quoted')
    (List.append_cancel_right same)
  exact ⟨List.append_cancel_right same, codes_injective isKey,
    text_injective isPn isPn' (codes_injective isPrevious), isNumber⟩

end Parsing

inductive Version
  | v1
  | v2
  deriving DecidableEq

/-- What the associated data of an envelope is built from. -/
structure Context where
  version : Version
  conversationId : String
  senderId : String
  sessionId : JavaString
  ctr : JsNumber
  deriving DecidableEq

def Context.bytes (c : Context) : List UInt8 :=
  match c.version with
  | .v1 => buildAad c.conversationId c.senderId c.sessionId c.ctr
  | .v2 => aad c.conversationId c.senderId c.sessionId c.ctr

/-- The ids are UUIDs; the session id is any string, the counter any number. -/
structure Context.Valid (c : Context) : Prop where
  conversation : Uuid c.conversationId
  sender : Uuid c.senderId
  counter : IsDouble c.ctr

/-- Nothing but lone surrogates of the session ids tells the two apart. -/
def Context.Confusable (c c' : Context) : Prop :=
  c.sessionId ≠ c'.sessionId ∧ Utf.points c.sessionId = Utf.points c'.sessionId ∧
    c' = { c with sessionId := c'.sessionId }

def Version.opening : Version → String
  | .v1 => "\x7b\"v\":1,\"conversationId\":\""
  | .v2 => "\x7b\"v\":2,\"conversationId\":\""

def Context.units (c : Context) : List UInt16 :=
  Utf.ofString (c.version.opening ++ c.conversationId ++ "\",\"senderId\":\"" ++ c.senderId ++
      "\",\"sessionId\":\"") ++
    (c.sessionId ++ Utf.ofString ("\",\"ctr\":" ++ Number.text c.ctr ++ "\x7d"))

theorem Context.bytes_eq (c : Context) : c.bytes = Utf.encode c.units := by
  obtain ⟨version, conversationId, senderId, sessionId, ctr⟩ := c
  cases version <;> rfl

theorem Context.points_units (c : Context) : Utf.points c.units =
    codes c.version.opening ++ (codes c.conversationId ++ (codes "\",\"senderId\":\"" ++
      (codes c.senderId ++ (codes "\",\"sessionId\":\"" ++ (Utf.points c.sessionId ++
        codes ("\",\"ctr\":" ++ Number.text c.ctr ++ "\x7d")))))) := by
  have apart : ∀ u ∈ (Utf.ofString ("\",\"ctr\":" ++ Number.text c.ctr ++ "\x7d")).head?,
      Utf.isLow u = false := by
    rw [ofString_append, ofString_append]
    rintro u ⟨⟩
    decide
  rw [Context.units, Utf.points_ofString_append, Utf.points_append apart, points_ofString]
  change codes (c.version.opening ++ c.conversationId ++ "\",\"senderId\":\"" ++ c.senderId ++
    "\",\"sessionId\":\"") ++ _ = _
  simp only [codes_append, List.append_assoc]

theorem length_codes_of_uuid {id : String} (uuid : Uuid id) : (codes id).length = 36 := by
  rw [codes, List.length_map, uuid.1]

/-- The fixed lengths in front of the session id. -/
theorem split_ids {c c' : Context} (valid : c.Valid) (valid' : c'.Valid) {rest rest' : List Nat}
    (same : codes c.version.opening ++ (codes c.conversationId ++ (codes "\",\"senderId\":\"" ++
        (codes c.senderId ++ (codes "\",\"sessionId\":\"" ++ rest)))) =
      codes c'.version.opening ++ (codes c'.conversationId ++ (codes "\",\"senderId\":\"" ++
        (codes c'.senderId ++ (codes "\",\"sessionId\":\"" ++ rest'))))) :
    c.version = c'.version ∧ c.conversationId = c'.conversationId ∧ c.senderId = c'.senderId ∧
      rest = rest' := by
  have length : ∀ v : Version, (codes v.opening).length = 25 := by
    intro v
    cases v <;> decide
  obtain ⟨opening, same⟩ := List.append_inj same ((length _).trans (length _).symm)
  obtain ⟨conversation, same⟩ := List.append_inj same
    ((length_codes_of_uuid valid.conversation).trans (length_codes_of_uuid valid'.conversation).symm)
  obtain ⟨sender, same⟩ := List.append_inj (List.append_cancel_left same)
    ((length_codes_of_uuid valid.sender).trans (length_codes_of_uuid valid'.sender).symm)
  refine ⟨?_, codes_injective conversation, codes_injective sender, List.append_cancel_left same⟩
  revert opening
  cases c.version <;> cases c'.version <;> decide

theorem Context.bytes_eq_iff {c c' : Context} (valid : c.Valid) (valid' : c'.Valid) :
    c.bytes = c'.bytes ↔ Utf.points c.sessionId = Utf.points c'.sessionId ∧
      c' = { c with sessionId := c'.sessionId } := by
  rw [bytes_eq, bytes_eq, Utf.encode_inj, points_units, points_units]
  constructor
  · intro same
    obtain ⟨version, conversation, sender, rest⟩ := split_ids valid valid' same
    obtain ⟨ids, ctr⟩ := split_counter valid.counter valid'.counter rest
    refine ⟨ids, ?_⟩
    obtain ⟨_, _, _, _, _⟩ := c'
    simp_all
  · rintro ⟨ids, others⟩
    rw [others, ids]

/-- What authenticates a ratchet frame: the envelope it travels in, and its header. -/
structure Frame where
  conversationId : String
  senderId : String
  sessionId : JavaString
  ctr : JsNumber
  dh : String
  pn : JsNumber
  n : JsNumber
  deriving DecidableEq

def Frame.bytes (f : Frame) : List UInt8 :=
  aad f.conversationId f.senderId f.sessionId f.ctr ++ headerBytes f.dh f.pn f.n

def Frame.context (f : Frame) : Context where
  version := .v2
  conversationId := f.conversationId
  senderId := f.senderId
  sessionId := f.sessionId
  ctr := f.ctr

structure Frame.Valid (f : Frame) : Prop where
  context : f.context.Valid
  key : ∀ c ∈ f.dh.toList,
    c ∈ "ABCDEFGHIJKLMNOPQRSTUVWXYZabcdefghijklmnopqrstuvwxyz0123456789+/=".toList
  previous : IsDouble f.pn
  number : IsDouble f.n

def Frame.Confusable (f f' : Frame) : Prop :=
  f.sessionId ≠ f'.sessionId ∧ Utf.points f.sessionId = Utf.points f'.sessionId ∧
    f' = { f with sessionId := f'.sessionId }

theorem Frame.Valid.unquoted {f : Frame} (valid : f.Valid) : '"' ∉ f.dh.toList := by
  intro member
  exact absurd (valid.key _ member) (by decide)

/-- The code points that are encoded. -/
def Frame.points (f : Frame) : List Nat :=
  Utf.points f.context.units ++ codes (headerText f.dh f.pn f.n)

theorem Frame.bytes_eq (f : Frame) : f.bytes = f.points.flatMap Utf.encodePoint := by
  have isHeader : headerBytes f.dh f.pn f.n = (codes (headerText f.dh f.pn f.n)).flatMap
      Utf.encodePoint := by
    rw [← points_ofString]
    rfl
  have isContext : aad f.conversationId f.senderId f.sessionId f.ctr = f.context.bytes := rfl
  rw [Frame.bytes, isHeader, isContext, Context.bytes_eq, Frame.points, List.flatMap_append,
    Utf.encode]

theorem Frame.scalar_of_mem {f : Frame} {p : Nat} (member : p ∈ f.points) : Utf.Scalar p := by
  rcases List.mem_append.mp member with inContext | inHeader
  · exact Utf.scalar_of_mem_points inContext
  · rw [← points_ofString] at inHeader
    exact Utf.scalar_of_mem_points inHeader

/-- The header is read from the right, and the rest as the data of an envelope. -/
theorem Frame.bytes_eq_iff {f f' : Frame} (valid : f.Valid) (valid' : f'.Valid) :
    f.bytes = f'.bytes ↔ Utf.points f.sessionId = Utf.points f'.sessionId ∧
      f' = { f with sessionId := f'.sessionId } := by
  constructor
  · intro same
    rw [Frame.bytes_eq, Frame.bytes_eq] at same
    have decoded := congrArg (Utf.decodeFrom none) same
    rw [Utf.decodeFrom_flatMap fun p => Frame.scalar_of_mem,
      Utf.decodeFrom_flatMap fun p => Frame.scalar_of_mem] at decoded
    obtain ⟨units, isKey, isPrevious, isNumber⟩ := split_header valid.unquoted valid'.unquoted
      valid.previous valid'.previous valid.number valid'.number decoded
    have contexts : f.context.bytes = f'.context.bytes := by
      rw [Context.bytes_eq, Context.bytes_eq, Utf.encode_inj, units]
    obtain ⟨ids, others⟩ := (Context.bytes_eq_iff valid.context valid'.context).mp contexts
    refine ⟨ids, ?_⟩
    obtain ⟨_, _, _, _, _, _, _⟩ := f'
    simp_all [Frame.context]
  · rintro ⟨ids, others⟩
    have contexts : f.context.bytes = f'.context.bytes := by
      refine (Context.bytes_eq_iff valid.context valid'.context).mpr ⟨ids, ?_⟩
      rw [others]
      rfl
    have headers : headerBytes f.dh f.pn f.n = headerBytes f'.dh f'.pn f'.n := by
      rw [others]
    exact congrArg₂ (· ++ ·) contexts headers

/-- Different data are told apart exactly when more than lone surrogates differ. -/
theorem associated_data_injective_iff (c c' : Context) (f f' : Frame) (valid : c.Valid)
    (valid' : c'.Valid) (framed : f.Valid) (framed' : f'.Valid) :
    ((c ≠ c' → c.bytes ≠ c'.bytes) ↔ ¬c.Confusable c') ∧
      ((f ≠ f' → f.bytes ≠ f'.bytes) ↔ ¬f.Confusable f') := by
  have ids : c.sessionId = c'.sessionId → c' = { c with sessionId := c'.sessionId } → c = c' := by
    intro same others
    rw [others, ← same]
  have ids' : f.sessionId = f'.sessionId → f' = { f with sessionId := f'.sessionId } → f = f' := by
    intro same others
    rw [others, ← same]
  constructor
  · rw [ne_eq, ne_eq, Context.bytes_eq_iff valid valid', Context.Confusable]
    constructor
    · rintro apart ⟨differ, points, others⟩
      exact apart (fun same => differ (congrArg Context.sessionId same)) ⟨points, others⟩
    · rintro unconfused differ ⟨points, others⟩
      exact unconfused ⟨fun same => differ (ids same others), points, others⟩
  · rw [ne_eq, ne_eq, Frame.bytes_eq_iff framed framed', Frame.Confusable]
    constructor
    · rintro apart ⟨differ, points, others⟩
      exact apart (fun same => differ (congrArg Frame.sessionId same)) ⟨points, others⟩
    · rintro unconfused differ ⟨points, others⟩
      exact unconfused ⟨fun same => differ (ids' same others), points, others⟩

theorem uuid_uuid : Uuid Wire.uuid := by
  have all : (Wire.uuid.toList.all fun c => decide (c ∈ "0123456789abcdef-".toList)) = true := by
    decide +kernel
  exact ⟨by decide +kernel, fun c member => of_decide_eq_true (List.all_eq_true.mp all c member)⟩

theorem isDouble_zero : IsDouble 0 := by
  unfold IsDouble
  decide +kernel

theorem isDouble_one : IsDouble 1 := by
  unfold IsDouble
  decide +kernel

/-- The data of the `ctr`-th envelope of a session, between two users of one id. -/
def sample (sessionId : JavaString) (ctr : JsNumber) : Frame where
  conversationId := Wire.uuid
  senderId := Wire.uuid
  sessionId := sessionId
  ctr := ctr
  dh := "AAAA"
  pn := 0
  n := 1

theorem sample_valid (sessionId : JavaString) {ctr : JsNumber} (isDouble : IsDouble ctr) :
    (sample sessionId ctr).Valid where
  context := ⟨uuid_uuid, uuid_uuid, isDouble⟩
  key := fun c member => by
    have all : ("AAAA".toList.all fun c => decide (c ∈
        "ABCDEFGHIJKLMNOPQRSTUVWXYZabcdefghijklmnopqrstuvwxyz0123456789+/=".toList)) = true := by
      decide +kernel
    exact of_decide_eq_true (List.all_eq_true.mp all c member)
  previous := isDouble_zero
  number := isDouble_one

theorem associated_data_injective_iff_counters :
    (sample [0x73] 0).context.bytes ≠ (sample [0x73] 1).context.bytes ∧
      (sample [0x73] 0).bytes ≠ (sample [0x73] 1).bytes := by
  have valid := sample_valid [0x73] isDouble_zero
  have valid' := sample_valid [0x73] isDouble_one
  obtain ⟨contexts, frames⟩ :=
    associated_data_injective_iff _ _ _ _ valid.context valid'.context valid valid'
  have counters : (0 : JsNumber) ≠ 1 := by norm_num
  refine ⟨contexts.mpr (fun confusable => confusable.1 rfl) fun same => ?_,
    frames.mpr (fun confusable => confusable.1 rfl) fun same => ?_⟩
  · exact counters (congrArg Context.ctr same)
  · exact counters (congrArg Frame.ctr same)

/-- Two lone surrogates as session ids. -/
theorem not_associated_data_injective :
    ¬((∀ c c' : Context, c.Valid → c'.Valid → c ≠ c' → c.bytes ≠ c'.bytes) ∧
      ∀ f f' : Frame, f.Valid → f'.Valid → f ≠ f' → f.bytes ≠ f'.bytes) := by
  rintro ⟨_, claimed⟩
  have valid := sample_valid [0xD800] isDouble_zero
  have valid' := sample_valid [0xDFFF] isDouble_zero
  refine claimed _ _ valid valid' (fun same => ?_) ((Frame.bytes_eq_iff valid valid').mpr ⟨?_, rfl⟩)
  · exact absurd (congrArg Frame.sessionId same) (by decide)
  · decide

end Aad
