import CipherChat.Client.Json

/-!
What travels inside a DM envelope: a text as it is, a file as an object with a mark.
-/

namespace Client

open Rooms (JavaString)
open Number (JsNumber)

abbrev JsObject := List (JavaString × Value)

/-- The last field of a name counts. -/
def JsObject.field (object : JsObject) (name : String) : Option Value :=
  (object.reverse.find? fun member => member.1 = Utf.ofString name).map Prod.snd

structure FileDescriptor where
  k : JavaString
  iv : JavaString
  name : JavaString
  mime : JavaString
  size : JsNumber
  finite : Value.Finite size
  url : JavaString

inductive DmContent (File : Type)
  | text (text : JavaString)
  | file (file : File)

/-- `{ ...descriptor, url }` -/
def FileDescriptor.object (file : FileDescriptor) : JsObject :=
  [(Utf.ofString "k", .string file.k), (Utf.ofString "iv", .string file.iv),
    (Utf.ofString "name", .string file.name), (Utf.ofString "mime", .string file.mime),
    (Utf.ofString "size", .number file.size), (Utf.ofString "url", .string file.url)]

def DmContent.toObject : DmContent FileDescriptor → DmContent JsObject
  | .text plaintext => .text plaintext
  | .file descriptor => .file descriptor.object

def wireShape (file : FileDescriptor) : Value :=
  .object [(Utf.ofString "__dmc", .number 1), (Utf.ofString "t", .string (Utf.ofString "file")),
    (Utf.ofString "file", .object file.object)]

def serializeDmContent : DmContent FileDescriptor → JavaString
  | .text text => text
  | .file file => (wireShape file).stringify

def isString : Option Value → Bool
  | some (.string _) => true
  | _ => false

/-- The file of an object that is marked as one; nothing but an object has a `url`. -/
def fileOf (parsed : JsObject) : Option JsObject :=
  match parsed.field "__dmc", parsed.field "t", parsed.field "file" with
  | some (.number version), some (.string t), some (.object file) =>
      if version = 1 ∧ t = Utf.ofString "file" ∧ isString (JsObject.field file "url") ∧
          isString (JsObject.field file "k") ∧ isString (JsObject.field file "iv") then some file
      else none
  | _, _, _ => none

def mark : JavaString :=
  Utf.ofString "\x7b\"__dmc\""

def parseDmContent (plaintext : JavaString) : DmContent JsObject :=
  if mark.isPrefixOf plaintext then
    match Value.parse plaintext with
    | some (.object parsed) =>
        match fileOf parsed with
        | some file => .file file
        | none => .text plaintext
    | _ => .text plaintext
  else .text plaintext

/-- A text that spells out a file. -/
def ReadsAsFile (text : JavaString) : Prop :=
  mark <+: text ∧ ∃ parsed file, Value.parse text = some (.object parsed) ∧ fileOf parsed = some file

theorem parse_text (text : JavaString) : parseDmContent text = .text text ↔ ¬ReadsAsFile text := by
  unfold parseDmContent ReadsAsFile
  by_cases marked : mark.isPrefixOf text
  · rw [if_pos marked]
    have begins := List.isPrefixOf_iff_prefix.mp marked
    split
    · next parsed isParsed =>
        cases isFile : fileOf parsed with
        | none => simp [isParsed, isFile]
        | some file => simp [isParsed, isFile, begins]
    · next other =>
        simp only [true_iff]
        rintro ⟨_, parsed, file, isParsed, _⟩
        exact other parsed isParsed
  · rw [if_neg marked]
    have other := mt List.isPrefixOf_iff_prefix.mpr marked
    simp [other]

theorem finite_one : Value.Finite 1 := by
  constructor
  · unfold Number.IsDouble
    decide +kernel
  · rw [abs_one]
    exact one_lt_pow₀ (by norm_num) (by norm_num)

theorem wireShape_sendable (file : FileDescriptor) : (wireShape file).Sendable :=
  ⟨finite_one, trivial, ⟨trivial, trivial, trivial, trivial, file.finite, trivial, trivial⟩, trivial⟩

theorem wireShape_marked (file : FileDescriptor) : mark <+: (wireShape file).stringify := by
  have split : mark = 0x7B :: quoted (Utf.ofString "__dmc") := by decide
  rw [split, wireShape, Value.stringify, Value.memberTexts_cons, List.append_assoc,
    List.prefix_cons_inj]
  exact List.prefix_append _ _

theorem parse_file (file : FileDescriptor) :
    parseDmContent (wireShape file).stringify = .file file.object := by
  have isFile : fileOf [(Utf.ofString "__dmc", .number 1),
      (Utf.ofString "t", .string (Utf.ofString "file")),
      (Utf.ofString "file", .object file.object)] = some file.object := rfl
  have isParsed := Value.parse_stringify (wireShape_sendable file)
  rw [parseDmContent, if_pos (List.isPrefixOf_iff_prefix.mpr (wireShape_marked file)), isParsed]
  simp only [wireShape, isFile]

/-- Every file arrives; a text does if it is not that of a file. -/
theorem parse_serialize_iff (content : DmContent FileDescriptor) :
    parseDmContent (serializeDmContent content) = content.toObject ↔
      ∀ plaintext, content = .text plaintext → ¬ReadsAsFile plaintext := by
  cases content with
  | text plaintext =>
      rw [serializeDmContent, DmContent.toObject, parse_text]
      constructor
      · rintro plain _ ⟨⟩
        exact plain
      · intro plain
        exact plain plaintext rfl
  | file descriptor =>
      simp only [serializeDmContent, DmContent.toObject, parse_file, true_iff]
      nofun

/-- A text that anyone can type. -/
def typedFile : JavaString :=
  Utf.ofString
    "\x7b\"__dmc\":1,\"t\":\"file\",\"file\":\x7b\"url\":\"\",\"k\":\"\",\"iv\":\"\"\x7d\x7d"

theorem typed_text_becomes_file : ∃ text, parseDmContent (serializeDmContent (.text text)) ≠
    DmContent.toObject (.text text) := by
  refine ⟨typedFile, ?_⟩
  rw [serializeDmContent, DmContent.toObject, ne_eq, parse_text, not_not]
  let file : JsObject := [(Utf.ofString "url", .string []), (Utf.ofString "k", .string []),
    (Utf.ofString "iv", .string [])]
  let typed : JsObject := [(Utf.ofString "__dmc", .number 1),
    (Utf.ofString "t", .string (Utf.ofString "file")), (Utf.ofString "file", .object file)]
  have isText : typedFile = Value.stringify (.object typed) := by decide +kernel
  have sendable : Value.Sendable (.object typed) :=
    ⟨finite_one, trivial, ⟨trivial, trivial, trivial, trivial⟩, trivial⟩
  constructor
  · exact List.isPrefixOf_iff_prefix.mp (by decide)
  · refine ⟨typed, file, ?_, rfl⟩
    rw [isText]
    exact Value.parse_stringify sendable

end Client
