import CipherChat.Text.Radix

/-!
Bits cut into groups of another width by a loop with one 32-bit buffer, which is shifted and never
cleared. What it writes are the digits of the number that it reads.
-/

namespace Packing

/-- `bits` of the buffer are still to be written. -/
structure Bits (α : Type*) where
  buffer : BitVec 32
  bits : Nat
  out : List α

namespace Bits

variable {α : Type*} (symbol : Nat → α) (width : Nat)

def empty : Bits α :=
  { buffer := 0, bits := 0, out := [] }

/-- `buffer = (buffer << width) | item; bits += width;` -/
def push (item : Nat) (s : Bits α) : Bits α :=
  { s with
    buffer := (s.buffer <<< width) ||| BitVec.ofNat 32 item
    bits := s.bits + width }

@[simp] theorem bits_push (item : Nat) (s : Bits α) : (s.push width item).bits = s.bits + width :=
  rfl

/-- `(buffer >> (bits - width)) & (2 ^ width - 1)`. -/
def next (s : Bits α) : Nat :=
  (s.buffer.sshiftRight (s.bits - width) &&& BitVec.ofNat 32 (2 ^ width - 1)).toNat

def emit (s : Bits α) : Bits α :=
  { s with
    bits := s.bits - width
    out := s.out ++ [symbol (s.next width)] }

@[simp] theorem bits_emit (s : Bits α) : (s.emit symbol width).bits = s.bits - width :=
  rfl

/-- `while (bits >= width)`. -/
def drain [positive : NeZero width] (s : Bits α) : Bits α :=
  if width ≤ s.bits then drain (s.emit symbol width) else s
termination_by s.bits
decreasing_by
  have nonzero := positive.pos
  rw [bits_emit]
  omega

instance : NeZero 5 := ⟨by decide⟩

/-- The loop over bytes. -/
def packBytes [NeZero width] (data : List UInt8) : Bits α :=
  data.foldl (fun s b => (s.push 8 b.toNat).drain symbol width) empty

end Bits

/-- The buffer is the end of the number that was read; what was written is that number but for
the bits that wait. -/
structure Packed {α : Type*} (symbol : Nat → α) (width count value : Nat) (s : Bits α) : Prop where
  buffer : s.buffer.toNat = value % 2 ^ 32
  balance : s.out.length * width + s.bits = count
  written : s.out = (Radix.digits (2 ^ width) s.out.length (value / 2 ^ s.bits)).map symbol

variable {α : Type*} {symbol : Nat → α} {width count value : Nat} {s : Bits α}

theorem toNat_push (width item : Nat) (small : item < 2 ^ width) (s : Bits α)
    (buffer : s.buffer.toNat = value % 2 ^ 32) :
    (s.push width item).buffer.toNat = (value * 2 ^ width + item) % 2 ^ 32 := by
  have shifted : (s.buffer <<< width).toNat = value * 2 ^ width % 2 ^ 32 := by
    rw [BitVec.toNat_shiftLeft, buffer, Nat.shiftLeft_eq, Nat.mod_mul_mod]
  have low : (BitVec.ofNat 32 item).toNat = item % 2 ^ 32 := BitVec.toNat_ofNat item 32
  simp only [Bits.push, BitVec.toNat_or, shifted, low]
  rw [← Nat.or_mod_two_pow, Nat.mul_comm, ← Nat.two_pow_add_eq_or_of_lt small]

/-- The sign is shifted in above the group that is taken. -/
theorem next_eq (width : Nat) (room : s.bits - width + width ≤ 32)
    (buffer : s.buffer.toNat = value % 2 ^ 32) :
    s.next width = value / 2 ^ (s.bits - width) % 2 ^ width := by
  rw [Bits.next]
  generalize s.bits - width = place at room ⊢
  apply Nat.eq_of_testBit_eq
  intro i
  have bit : s.buffer.getLsbD (place + i) = (decide (place + i < 32) && value.testBit (place + i)) := by
    rw [BitVec.getLsbD, buffer, Nat.testBit_mod_two_pow]
  rw [BitVec.testBit_toNat, BitVec.getLsbD_and, BitVec.getLsbD_sshiftRight,
    BitVec.getLsbD_ofNat, Nat.testBit_two_pow_sub_one, Nat.testBit_mod_two_pow,
    Nat.testBit_div_two_pow, bit, Nat.add_comm i place]
  by_cases inside : i < width
  · have first : place + i < 32 := by omega
    have second : i < 32 := by omega
    simp [inside, first, second]
  · simp [inside]

theorem packed_empty : Packed symbol width 0 0 Bits.empty where
  buffer := rfl
  balance := by simp [Bits.empty]
  written := rfl

theorem Packed.push (packed : Packed symbol width count value s) (size item : Nat)
    (small : item < 2 ^ size) :
    Packed symbol width (count + size) (value * 2 ^ size + item) (s.push size item) where
  buffer := toNat_push size item small s packed.buffer
  balance := by
    have balance := packed.balance
    simp only [Bits.push]
    omega
  written := by
    have same : (value * 2 ^ size + item) / 2 ^ (s.bits + size) = value / 2 ^ s.bits := by
      rw [pow_add, mul_comm (2 ^ s.bits), ← Nat.div_div_eq_div_mul, mul_comm value,
        Nat.mul_add_div (Nat.two_pow_pos size), Nat.div_eq_of_lt small, Nat.add_zero]
    simp only [Bits.push, same]
    exact packed.written

theorem Packed.emit (packed : Packed symbol width count value s) (waiting : width ≤ s.bits)
    (room : s.bits ≤ 32) : Packed symbol width count value (s.emit symbol width) where
  buffer := packed.buffer
  balance := by
    have balance := packed.balance
    simp only [Bits.emit, List.length_append, List.length_singleton, Nat.add_mul]
    omega
  written := by
    have rest : value / 2 ^ (s.bits - width) / 2 ^ width = value / 2 ^ s.bits := by
      rw [Nat.div_div_eq_div_mul, ← pow_add, Nat.sub_add_cancel waiting]
    have group := next_eq width (by omega) packed.buffer
    simp only [Bits.emit, List.length_append, List.length_singleton, Radix.digits, List.map_append,
      List.map_singleton, rest, group]
    rw [← packed.written]

/-- When nothing waits, the whole number is written. -/
theorem Packed.whole (packed : Packed symbol width count value s) (none : s.bits = 0)
    (positive : 0 < width) :
    s.out = (Radix.digits (2 ^ width) (count / width) value).map symbol := by
  have written := packed.written
  have balance := packed.balance
  rw [none, Nat.add_zero] at balance
  rw [none, pow_zero, Nat.div_one] at written
  rw [← balance, Nat.mul_div_cancel _ positive]
  exact written

theorem Packed.drain [positive : NeZero width] (packed : Packed symbol width count value s)
    (room : s.bits ≤ 32) :
    Packed symbol width count value (s.drain symbol width) ∧ (s.drain symbol width).bits < width := by
  fun_induction Bits.drain symbol width s with
  | case1 s waiting ih =>
      apply ih (packed.emit waiting room)
      rw [Bits.bits_emit]
      omega
  | case2 s short => exact ⟨packed, by omega⟩

/-- The number that bytes make. -/
def number (data : List UInt8) : Nat :=
  Radix.value (2 ^ 8) (data.map UInt8.toNat)

theorem number_concat (data : List UInt8) (b : UInt8) :
    number (data ++ [b]) = number data * 2 ^ 8 + b.toNat := by
  simp [number]

/-- Less than one group waits after each byte. -/
theorem packed_bytes (symbol : Nat → α) (width : Nat) [positive : NeZero width]
    (narrow : width ≤ 24) (data : List UInt8) :
    Packed symbol width (8 * data.length) (number data) (Bits.packBytes symbol width data) ∧
      (Bits.packBytes symbol width data).bits < width := by
  induction data using List.reverseRecOn with
  | nil => exact ⟨packed_empty, positive.pos⟩
  | append_singleton data b ih =>
      have pushed := ih.1.push 8 b.toNat b.toNat_lt
      have room : ((Bits.packBytes symbol width data).push 8 b.toNat).bits ≤ 32 := by
        have waiting := ih.2
        rw [Bits.bits_push]
        omega
      rw [Bits.packBytes, List.foldl_append, List.length_append, List.length_singleton,
        number_concat, Nat.mul_add]
      exact pushed.drain room

private theorem bytes_small (data : List UInt8) : ∀ item ∈ data.map UInt8.toNat, item < 2 ^ 8 := by
  intro item member
  obtain ⟨b, -, rfl⟩ := List.mem_map.mp member
  exact b.toNat_lt

theorem number_lt (data : List UInt8) : number data < (2 ^ 8) ^ data.length := by
  simpa [number] using Radix.value_lt (data.map UInt8.toNat) (bytes_small data)

theorem digits_number (data : List UInt8) :
    (Radix.digits (2 ^ 8) data.length (number data)).map UInt8.ofNat = data := by
  have digits := Radix.digits_value (data.map UInt8.toNat) (bytes_small data)
  rw [List.length_map] at digits
  rw [number, digits, List.map_map]
  exact List.map_id'' (fun b => UInt8.ofNat_toNat) data

end Packing
