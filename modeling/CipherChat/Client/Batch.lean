import CipherChat.Client.Outbox
import Mathlib.Algebra.Order.BigOperators.Group.List

/-!
The frame of `drain`: the text of its body, and which frames the server takes in at all. The limits
of `WebSocketConfig` and of the container are on the length of a frame, those of `WsPayloads` on the
number of its messages.
-/

namespace Client

open Rooms

/-! `JSON.stringify` -/

/-- So many hexadecimal digits. -/
def hex (width n : Nat) : JavaString :=
  let digits := Nat.toDigits 16 n
  (List.replicate (width - digits.length) '0' ++ digits).map fun c => UInt16.ofNat c.toNat

def unicodeEscape (unit : UInt16) : JavaString :=
  Utf.ofString "\\u" ++ hex 4 unit.toNat

/-- A code unit that is no part of a pair. -/
def escape (unit : UInt16) : JavaString :=
  if unit = 0x22 then Utf.ofString "\\\""
  else if unit = 0x5C then Utf.ofString "\\\\"
  else if unit = 0x08 then Utf.ofString "\\b"
  else if unit = 0x09 then Utf.ofString "\\t"
  else if unit = 0x0A then Utf.ofString "\\n"
  else if unit = 0x0C then Utf.ofString "\\f"
  else if unit = 0x0D then Utf.ofString "\\r"
  else if unit < 0x20 || Utf.isHigh unit || Utf.isLow unit then unicodeEscape unit
  else [unit]

def escaped : JavaString → JavaString
  | [] => []
  | [unit] => escape unit
  | first :: second :: rest =>
      if Utf.isHigh first && Utf.isLow second then first :: second :: escaped rest
      else escape first ++ escaped (second :: rest)

def quoted (text : JavaString) : JavaString :=
  Utf.ofString "\"" ++ escaped text ++ Utf.ofString "\""

def uuidText (id : UUID) : JavaString :=
  let digits := hex 32 id.toNat
  let dash := Utf.ofString "-"
  digits.take 8 ++ dash ++ (digits.drop 8).take 4 ++ dash ++ (digits.drop 12).take 4 ++ dash ++
    (digits.drop 16).take 4 ++ dash ++ digits.drop 20

/-- A message of the frame; what is undefined is left out. -/
def itemText (frame : RoomSend) : JavaString :=
  Utf.ofString "\x7b\"chatroomId\":" ++ (quoted (uuidText frame.chatroomId) ++
    Utf.ofString ",\"message\":" ++ quoted frame.message ++
    (match frame.clientMessageId with
      | none => []
      | some cid => Utf.ofString ",\"clientMessageId\":" ++ quoted (uuidText cid)) ++
    Utf.ofString "\x7d")

def itemTexts : List RoomSend → JavaString
  | [] => []
  | [frame] => itemText frame
  | frame :: next :: rest => itemText frame ++ (Utf.ofString "," ++ itemTexts (next :: rest))

def syncBody (frames : List RoomSend) : JavaString :=
  Utf.ofString "\x7b\"messages\":[" ++ (itemTexts frames ++ Utf.ofString "]\x7d")

/-- How long a text is in bytes. -/
def bytes (text : JavaString) : Nat :=
  (Utf.encode text).length

/-- The STOMP client and the container: how much they put around a body of so many bytes, and how
many characters of a frame there is room for. -/
structure Transport where
  around : Nat → Nat
  grows : Monotone around
  buffer : Nat

/-- `registry.setMessageSizeLimit(64 * 1024)` -/
def MESSAGE_SIZE_LIMIT : Nat :=
  64 * 1024

namespace Transport

/-- Whether a frame with the body gets through. -/
def carries (t : Transport) (body : JavaString) : Bool :=
  t.around (bytes body) + bytes body ≤ MESSAGE_SIZE_LIMIT &&
    t.around (bytes body) + body.length ≤ t.buffer

/-- Whether `sync` is called for the frame: it gets through, and `@Size(max = 100)` lets it pass. -/
def accepts (t : Transport) (frames : List RoomSend) : Bool :=
  t.carries (syncBody frames) && frames.length ≤ World.MAX_BATCH

end Transport

/-! A part of a batch is no longer than the batch. -/

/-- The text can be told from what stands before it. -/
def Apart (text : JavaString) : Prop :=
  ∀ unit ∈ text.head?, Utf.isLow unit = false

theorem bytes_append {text rest : JavaString} (apart : Apart rest) :
    bytes (text ++ rest) = bytes text + bytes rest := by
  rw [bytes, Utf.encode, Utf.points_append apart, List.flatMap_append, List.length_append]
  rfl

/-- A text that begins with an ASCII character. -/
theorem apart_ofString {s : String} {c : Char} {cs : List Char} (rest : JavaString)
    (isText : s.toList = c :: cs) (ascii : c.toNat < 0x80) : Apart (Utf.ofString s ++ rest) := by
  intro unit isFirst
  rw [Utf.ofString, isText, List.flatMap_cons, Utf.unitsOf, if_pos (by omega)] at isFirst
  simp only [List.cons_append, List.nil_append, List.head?_cons, Option.mem_def,
    Option.some.injEq] at isFirst
  subst isFirst
  have small : (UInt16.ofNat c.toNat).toNat = c.toNat := by
    rw [UInt16.toNat_ofNat']
    omega
  simp only [Utf.isLow, small, Bool.and_eq_false_imp, decide_eq_true_eq, decide_eq_false_iff_not]
  omega

theorem apart_itemText (frame : RoomSend) (rest : JavaString) : Apart (itemText frame ++ rest) := by
  rw [itemText, List.append_assoc]
  exact apart_ofString _ rfl (by decide)

theorem apart_itemTexts (frames : List RoomSend) (rest : JavaString) (apart : Apart rest) :
    Apart (itemTexts frames ++ rest) := by
  cases frames with
  | nil => exact apart
  | cons frame frames =>
      cases frames with
      | nil => exact apart_itemText frame rest
      | cons next frames =>
          rw [itemTexts, List.append_assoc]
          exact apart_itemText frame _

/-- The messages, and a comma between any two of them. -/
theorem bytes_itemTexts (frame : RoomSend) (frames : List RoomSend) :
    bytes (itemTexts (frame :: frames)) =
      bytes (itemText frame) + (frames.map fun frame => 1 + bytes (itemText frame)).sum := by
  induction frames generalizing frame with
  | nil => simp only [itemTexts, List.map_nil, List.sum_nil, Nat.add_zero]
  | cons next rest ih =>
      have comma : Apart (Utf.ofString "," ++ itemTexts (next :: rest)) :=
        apart_ofString _ rfl (by decide)
      have after : Apart (itemTexts (next :: rest)) := by
        simpa using apart_itemTexts (next :: rest) [] nofun
      have one : bytes (Utf.ofString ",") = 1 := by decide
      rw [itemTexts, bytes_append comma, bytes_append after, ih next, one, List.map_cons,
        List.sum_cons]
      omega

theorem length_itemTexts (frame : RoomSend) (frames : List RoomSend) :
    (itemTexts (frame :: frames)).length =
      (itemText frame).length + (frames.map fun frame => 1 + (itemText frame).length).sum := by
  induction frames generalizing frame with
  | nil => simp only [itemTexts, List.map_nil, List.sum_nil, Nat.add_zero]
  | cons next rest ih =>
      have one : (Utf.ofString ",").length = 1 := by decide
      rw [itemTexts, List.length_append, List.length_append, ih next, one, List.map_cons,
        List.sum_cons]
      omega

/-- Sizes that add up like those of the messages are monotone. -/
theorem sized_sublist (size : List RoomSend → Nat) {one : RoomSend → Nat} (empty : size [] = 0)
    (adds : ∀ frame frames, size (frame :: frames) =
      one frame + (frames.map fun frame => 1 + one frame).sum)
    {part frames : List RoomSend} (sub : part.Sublist frames) : size part ≤ size frames := by
  have counted : ∀ frames, size frames = (frames.map fun frame => 1 + one frame).sum - 1 := by
    intro frames
    cases frames with
    | nil => exact empty
    | cons frame frames =>
        rw [adds, List.map_cons, List.sum_cons]
        omega
  have fewer := (sub.map fun frame => 1 + one frame).sum_le_sum fun _ _ => Nat.zero_le _
  rw [counted, counted]
  omega

section

variable {part frames : List RoomSend}

theorem bytes_syncBody_le (sub : part.Sublist frames) :
    bytes (syncBody part) ≤ bytes (syncBody frames) := by
  have body : ∀ frames, bytes (syncBody frames) = bytes (Utf.ofString "\x7b\"messages\":[") +
      (bytes (itemTexts frames) + bytes (Utf.ofString "]\x7d")) := by
    intro frames
    have last : Apart (Utf.ofString "]\x7d") := by
      simpa using apart_ofString (s := "]\x7d") [] rfl (by decide)
    rw [syncBody, bytes_append (apart_itemTexts frames _ last), bytes_append last]
  have fewer := sized_sublist (fun frames => bytes (itemTexts frames)) rfl bytes_itemTexts sub
  rw [body, body]
  omega

theorem length_syncBody_le (sub : part.Sublist frames) :
    (syncBody part).length ≤ (syncBody frames).length := by
  have fewer := sized_sublist (fun frames => (itemTexts frames).length) rfl length_itemTexts sub
  simp only [syncBody, List.length_append] at fewer ⊢
  omega

/-- What is left of a batch that is accepted is accepted. -/
theorem Transport.accepts_sublist {t : Transport} (accepted : t.accepts frames)
    (sub : part.Sublist frames) : t.accepts part := by
  have lighter := bytes_syncBody_le sub
  have shorter := length_syncBody_le sub
  have around := t.grows lighter
  have fewer := sub.length_le
  simp only [accepts, carries, Bool.and_eq_true, decide_eq_true_eq] at accepted ⊢
  omega

end

end Client
