import CipherChat.Text.Radix

/-!
SHA-1 and the HMAC over it.
-/

namespace HmacSha1

abbrev Word := BitVec 32

abbrev Bytes := List UInt8

def bytesOf (width n : Nat) : Bytes :=
  (Radix.digits 256 width n).map UInt8.ofNat

def valueOf (bytes : Bytes) : Nat :=
  Radix.value 256 (bytes.map UInt8.toNat)

/-- A one, zeros up to a whole block, and the number of the bits. -/
def padded (message : Bytes) : Bytes :=
  message ++ 0x80 :: List.replicate ((119 - message.length % 64) % 64) 0 ++
    bytesOf 8 (8 * message.length)

def chunks (size : Nat) : Nat → Bytes → List Bytes
  | 0, _ => []
  | count + 1, bytes => bytes.take size :: chunks size count (bytes.drop size)

/-- So many words of the schedule, the last one first. -/
def extend : Nat → List Word → List Word
  | 0, words => words
  | count + 1, words =>
      extend count ((words.getD 2 0 ^^^ words.getD 7 0 ^^^ words.getD 13 0 ^^^
        words.getD 15 0).rotateLeft 1 :: words)

def schedule (block : Bytes) : List Word :=
  let words := (chunks 4 16 block).map fun bytes => BitVec.ofNat 32 (valueOf bytes)
  (extend 64 words.reverse).reverse

structure Digest where
  a : Word
  b : Word
  c : Word
  d : Word
  e : Word

namespace Digest

def initial : Digest where
  a := 0x67452301
  b := 0xEFCDAB89
  c := 0x98BADCFE
  d := 0x10325476
  e := 0xC3D2E1F0

/-- The function and the constant of a round. -/
def mix (round : Nat) (h : Digest) : Word :=
  if round < 20 then ((h.b &&& h.c) ||| (~~~h.b &&& h.d)) + 0x5A827999
  else if round < 40 then (h.b ^^^ h.c ^^^ h.d) + 0x6ED9EBA1
  else if round < 60 then ((h.b &&& h.c) ||| (h.b &&& h.d) ||| (h.c &&& h.d)) + 0x8F1BBCDC
  else (h.b ^^^ h.c ^^^ h.d) + 0xCA62C1D6

def step (round : Nat) (h : Digest) (word : Word) : Digest where
  a := h.a.rotateLeft 5 + h.mix round + h.e + word
  b := h.a
  c := h.b.rotateLeft 30
  d := h.c
  e := h.d

def rounds : Nat → Digest → List Word → Digest
  | _, h, [] => h
  | round, h, word :: words => rounds (round + 1) (h.step round word) words

def add (h h' : Digest) : Digest where
  a := h.a + h'.a
  b := h.b + h'.b
  c := h.c + h'.c
  d := h.d + h'.d
  e := h.e + h'.e

def block (h : Digest) (bytes : Bytes) : Digest :=
  h.add (rounds 0 h (schedule bytes))

def bytes (h : Digest) : Bytes :=
  bytesOf 4 h.a.toNat ++ bytesOf 4 h.b.toNat ++ bytesOf 4 h.c.toNat ++ bytesOf 4 h.d.toNat ++
    bytesOf 4 h.e.toNat

end Digest

def sha1 (message : Bytes) : Bytes :=
  let text := padded message
  ((chunks 64 (text.length / 64) text).foldl Digest.block .initial).bytes

def blockKey (key : Bytes) : Bytes :=
  let short := if 64 < key.length then sha1 key else key
  short ++ List.replicate (64 - short.length) 0

def hmac (key message : Bytes) : Bytes :=
  let inner := (blockKey key).map (· ^^^ 0x36)
  let outer := (blockKey key).map (· ^^^ 0x5C)
  sha1 (outer ++ sha1 (inner ++ message))

example : sha1 [0x61, 0x62, 0x63] = bytesOf 20 0xA9993E364706816ABA3E25717850C26C9CD0D89D := by
  decide +kernel

end HmacSha1
