import PoolOprf.Lib.Panic
import Mathlib.Tactic

/-!
# Little-endian bit streams

A number as its bits and a byte string as the bits of its bytes, the lowest bit first. `BitWriter`
and `BitReader` are what a little-endian bit writer and reader do: the writer appends the bits of a
number to those written so far, and the reader takes the next bits off the front. `BitWriter.ofBits`
and `BitReader.ofBits` are a writer and a reader that do so.
-/

namespace BitStream

open Panic

/-! ## Bits of numbers -/

/-- The low `count` bits of a number, the lowest first. -/
def bitsLe : ℕ → ℕ → List Bool
  | 0, _ => []
  | count + 1, x => x.testBit 0 :: bitsLe count (x / 2)

/-- The number that bits make, the lowest first. -/
def numberLe (bits : List Bool) : ℕ := bits.foldr (fun bit acc => bit.toNat + 2 * acc) 0

@[simp]
theorem bitsLe_length (count x : ℕ) : (bitsLe count x).length = count := by
  induction count generalizing x with
  | zero => rfl
  | succ count ih => rw [bitsLe, List.length_cons, ih]

theorem numberLe_lt (bits : List Bool) : numberLe bits < 2 ^ bits.length := by
  induction bits with
  | nil => exact Nat.one_pos
  | cons bit bits ih =>
    have hbit := bit.toNat_le
    change bit.toNat + 2 * numberLe bits < 2 ^ (bits.length + 1)
    rw [pow_succ]
    omega

/-- The low bits of a number make it, up to where they end. -/
theorem numberLe_bitsLe (count x : ℕ) : numberLe (bitsLe count x) = x % 2 ^ count := by
  induction count generalizing x with
  | zero => rw [pow_zero, Nat.mod_one]; rfl
  | succ count ih =>
    have hbit : (x.testBit 0).toNat = x % 2 := by
      rw [Nat.testBit_zero]
      rcases Nat.mod_two_eq_zero_or_one x with h | h <;> simp [h]
    calc numberLe (bitsLe (count + 1) x)
        = (x.testBit 0).toNat + 2 * numberLe (bitsLe count (x / 2)) := rfl
      _ = x % 2 + 2 * (x / 2 % 2 ^ count) := by rw [hbit, ih]
      _ = x % (2 * 2 ^ count) := (Nat.mod_mul).symm
      _ = x % 2 ^ (count + 1) := by rw [pow_succ, Nat.mul_comm]

/-- A number that fits is made of its bits. -/
theorem numberLe_bitsLe_of_lt {count x : ℕ} (h : x < 2 ^ count) : numberLe (bitsLe count x) = x := by
  rw [numberLe_bitsLe, Nat.mod_eq_of_lt h]

/-- The bits of the number that bits make. -/
theorem bitsLe_numberLe (bits : List Bool) : bitsLe bits.length (numberLe bits) = bits := by
  induction bits with
  | nil => rfl
  | cons bit bits ih =>
    have hnumber : numberLe (bit :: bits) = bit.toNat + 2 * numberLe bits := rfl
    have hbit := bit.toNat_le
    have hlow : (numberLe (bit :: bits)).testBit 0 = bit := by
      rw [Nat.testBit_zero, hnumber]
      cases bit <;> simp
    have hrest : numberLe (bit :: bits) / 2 = numberLe bits := by omega
    rw [List.length_cons, bitsLe, hlow, hrest, ih]

/-! ## Bits of bytes -/

/-- The bits of a byte string. -/
def byteBits (bytes : List UInt8) : List Bool := bytes.flatMap fun byte => bitsLe 8 byte.toNat

@[simp]
theorem byteBits_length (bytes : List UInt8) : (byteBits bytes).length = 8 * bytes.length := by
  induction bytes with
  | nil => rfl
  | cons byte bytes ih =>
    rw [byteBits] at ih ⊢
    rw [List.flatMap_cons, List.length_append, bitsLe_length, ih, List.length_cons]
    ring

theorem byteBits_append (bytes more : List UInt8) :
    byteBits (bytes ++ more) = byteBits bytes ++ byteBits more := List.flatMap_append

/-- Bits up to the next whole byte, with zeros after the last. -/
def aligned (bits : List Bool) : List Bool := bits ++ List.replicate ((8 - bits.length % 8) % 8) false

/-- Aligned bits are those of as many bytes as it takes. -/
theorem aligned_length (bits : List Bool) : (aligned bits).length = 8 * ((bits.length + 7) / 8) := by
  rw [aligned, List.length_append, List.length_replicate]
  omega

/-- The bytes of a whole number of bytes' bits. -/
def toBytes (bits : List Bool) : List UInt8 :=
  (chunksExact 8 bits).map fun chunk => UInt8.ofNat (numberLe chunk)

theorem byteBits_toBytes {bits : List Bool} (h : bits.length % 8 = 0) :
    byteBits (toBytes bits) = bits := by
  -- Each chunk is the bits of the byte that it makes.
  have hchunk : ∀ chunk ∈ chunksExact 8 bits,
      bitsLe 8 (UInt8.ofNat (numberLe chunk)).toNat = chunk := by
    intro chunk hmem
    have hlen : chunk.length = 8 := length_of_mem_chunksExact hmem
    have hlt := numberLe_lt chunk
    rw [hlen] at hlt
    rw [UInt8.toNat_ofNat', Nat.mod_eq_of_lt hlt]
    have hbits := bitsLe_numberLe chunk
    rwa [hlen] at hbits
  have hflatten : (chunksExact 8 bits).flatten = bits := by
    have htake := take_chunksExact_flatten (by norm_num : 0 < 8) (bits.length / 8)
      (Nat.dvd_of_mod_eq_zero h)
    rw [List.take_of_length_le (by rw [chunksExact_length]), Nat.div_mul_cancel
      (Nat.dvd_of_mod_eq_zero h), List.take_length] at htake
    exact htake
  calc byteBits (toBytes bits)
      = (chunksExact 8 bits).flatMap fun chunk =>
          bitsLe 8 (UInt8.ofNat (numberLe chunk)).toNat := List.flatMap_map _ _ _
    _ = (chunksExact 8 bits).flatMap id := List.flatMap_congr hchunk
    _ = (chunksExact 8 bits).flatten := List.flatMap_id
    _ = bits := hflatten

/-! ## Writers and readers -/

/-- A little-endian bit writer. `bits` are the bits written so far. -/
structure BitWriter where
  /-- What the writer holds. -/
  State : Type
  /-- A writer of nothing yet. -/
  endian : State
  /-- Write a number in `BITS` bits, or fail. -/
  write : (BITS : ℕ) → State → ℕ → Option State
  /-- Write zeros up to a whole byte. -/
  byte_align : State → Option State
  /-- The bytes that are written out. -/
  out : State → List UInt8
  /-- The bits written so far. -/
  bits : State → List Bool
  bits_endian : bits endian = []
  /-- A number that fits is written. -/
  write_of_lt : ∀ {BITS value : ℕ} (state : State), value < 2 ^ BITS → ∃ state',
    write BITS state value = some state' ∧ bits state' = bits state ++ bitsLe BITS value
  /-- Aligning does not fail. -/
  byte_align_spec : ∀ state, ∃ state', byte_align state = some state' ∧
    bits state' = aligned (bits state)
  /-- Whole bytes are all written out. -/
  byteBits_out : ∀ state, (bits state).length % 8 = 0 → byteBits (out state) = bits state

/-- A little-endian bit reader. `rest` are the bits that are left. -/
structure BitReader where
  /-- What the reader holds. -/
  State : Type
  /-- A reader of bytes. -/
  endian : List UInt8 → State
  /-- Read a number of `BITS` bits, or fail. -/
  read : (BITS : ℕ) → State → Option (ℕ × State)
  /-- The bits that are left. -/
  rest : State → List Bool
  rest_endian : ∀ bytes, rest (endian bytes) = byteBits bytes
  /-- Enough bits are read. -/
  read_of_le : ∀ {BITS : ℕ} (state : State), BITS ≤ (rest state).length → ∃ state',
    read BITS state = some (numberLe ((rest state).take BITS), state') ∧
      rest state' = (rest state).drop BITS
  /-- Fewer are not. -/
  read_of_lt : ∀ {BITS : ℕ} (state : State), (rest state).length < BITS → read BITS state = none

/-- A writer that holds its bits, and refuses a number that does not fit. -/
def BitWriter.ofBits : BitWriter where
  State := List Bool
  endian := []
  write BITS state value := if value < 2 ^ BITS then some (state ++ bitsLe BITS value) else none
  byte_align state := some (aligned state)
  out := toBytes
  bits state := state
  bits_endian := rfl
  write_of_lt _ h := ⟨_, if_pos h, rfl⟩
  byte_align_spec _ := ⟨_, rfl, rfl⟩
  byteBits_out _ h := byteBits_toBytes h

/-- A reader that holds the bits that are left. -/
def BitReader.ofBits : BitReader where
  State := List Bool
  endian := byteBits
  read BITS state := if BITS ≤ state.length then some (numberLe (state.take BITS), state.drop BITS) else none
  rest state := state
  rest_endian _ := rfl
  read_of_le _ h := ⟨_, if_pos h, rfl⟩
  read_of_lt _ h := if_neg (Nat.not_le_of_lt h)

end BitStream
