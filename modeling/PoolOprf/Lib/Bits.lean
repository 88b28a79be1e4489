import Mathlib.Data.ZMod.Basic
import Mathlib.Algebra.Field.ZMod
import Mathlib.Tactic

/-!
# Numbers as bit columns of a field

A circuit over a prime field holds a number as columns of bits, lowest first, and computes with
the sum `packBitsLe` of the bits times the powers of two. This file relates the two: columns that
pass the bit rule `x * (x - 1) = 0` are the bits of exactly one number of that many bits
(`exists_eq_bits`), and packing gives the number back (`packBitsLe_bits`). Over `ZMod p`, an
equation between numbers below `p` is an equation of natural numbers (`natCast_inj`), from which a
circuit's division with remainder is the division of natural numbers (`mod_of_natCast_eq`).
-/

namespace Bits

variable {F : Type*} [CommRing F]

/-- The rule that a column is a bit. -/
def AssertBool (x : F) : Prop := x * (x - 1) = 0

/-- The bit rule admits exactly 0 and 1. -/
theorem assertBool_iff [NoZeroDivisors F] {x : F} : AssertBool x ↔ x = 0 ∨ x = 1 := by
  rw [AssertBool, mul_eq_zero, sub_eq_zero]

theorem assertBool_zero : AssertBool (0 : F) := by simp [AssertBool]

theorem assertBool_one : AssertBool (1 : F) := by simp [AssertBool]

/-! ## The bits of a number -/

/-- The lowest `count` bits of `value`, as columns. -/
def bits (value count : ℕ) : List F :=
  (List.range count).map fun k => (((value >>> k) &&& 1 : ℕ) : F)

@[simp]
theorem bits_length (value count : ℕ) : (bits value count : List F).length = count := by
  simp [bits]

@[simp]
theorem bits_zero (value : ℕ) : (bits value 0 : List F) = [] := rfl

/-- The lowest bit, then the bits of half the number. -/
theorem bits_succ (value count : ℕ) :
    (bits value (count + 1) : List F) = ((value % 2 : ℕ) : F) :: bits (value / 2) count := by
  unfold bits
  rw [List.range_succ_eq_map, List.map_cons, List.map_map]
  congr 1
  · rw [Nat.shiftRight_zero, Nat.and_one_is_mod]
  · apply List.map_congr_left
    intro k _
    rw [Function.comp_apply, Nat.succ_eq_add_one, Nat.add_comm, Nat.shiftRight_add]
    rfl

/-- Every column of a number's bits passes the bit rule. -/
theorem assertBool_of_mem_bits {value count : ℕ} {x : F} (h : x ∈ bits value count) :
    AssertBool x := by
  simp only [bits, List.mem_map, Nat.and_one_is_mod] at h
  obtain ⟨k, -, rfl⟩ := h
  rcases Nat.mod_two_eq_zero_or_one (value >>> k) with h | h
  · rw [h, Nat.cast_zero]; exact assertBool_zero
  · rw [h, Nat.cast_one]; exact assertBool_one

/-- Columns that pass the bit rule are the bits of a number of that many bits. -/
theorem exists_eq_bits [NoZeroDivisors F] :
    ∀ {columns : List F}, (∀ x ∈ columns, AssertBool x) →
      ∃ value, value < 2 ^ columns.length ∧ columns = bits value columns.length
  | [], _ => ⟨0, by simp⟩
  | x :: columns, h => by
    rw [List.forall_mem_cons] at h
    obtain ⟨value, hlt, heq⟩ := exists_eq_bits h.2
    obtain ⟨b, hb, rfl⟩ : ∃ b : ℕ, b < 2 ∧ x = (b : F) := by
      rcases assertBool_iff.mp h.1 with rfl | rfl
      · exact ⟨0, by norm_num, by simp⟩
      · exact ⟨1, by norm_num, by simp⟩
    refine ⟨b + 2 * value, ?_, ?_⟩
    · rw [List.length_cons, pow_succ]; omega
    · rw [List.length_cons, bits_succ, show (b + 2 * value) % 2 = b by omega,
        show (b + 2 * value) / 2 = value by omega, ← heq]

/-- The lowest bits of a number's bits. -/
theorem bits_take (value a b : ℕ) : (bits value (a + b) : List F).take a = bits value a := by
  rw [bits, bits, ← List.map_take, List.take_range, Nat.min_eq_left (Nat.le_add_right a b)]

/-- The highest bits of a number's bits are the bits of the quotient. -/
theorem bits_drop (value a b : ℕ) :
    (bits value (a + b) : List F).drop a = bits (value / 2 ^ a) b := by
  induction a generalizing value with
  | zero => simp
  | succ a ih =>
    rw [show a + 1 + b = (a + b) + 1 by omega, bits_succ, List.drop_succ_cons, ih,
      Nat.div_div_eq_div_mul, pow_succ']

/-! ## Packing -/

/-- `Σ_k 2^k · bit_k`, lowest bit first. -/
def packBitsLe : List F → F
  | [] => 0
  | bit :: rest => bit + 2 * packBitsLe rest

/-- Packing a number's bits gives the number back, up to the bits that were cut off. -/
theorem packBitsLe_bits_mod (value count : ℕ) :
    packBitsLe (bits value count : List F) = ((value % 2 ^ count : ℕ) : F) := by
  induction count generalizing value with
  | zero => simp [packBitsLe, Nat.mod_one]
  | succ count ih =>
    have hsplit : value % 2 ^ (count + 1) = value % 2 + 2 * (value / 2 % 2 ^ count) := by
      rw [pow_succ', Nat.mod_mul]
    rw [bits_succ, packBitsLe, ih, hsplit]
    push_cast
    ring

/-- Packing gives a number that fits back. -/
theorem packBitsLe_bits {value count : ℕ} (h : value < 2 ^ count) :
    packBitsLe (bits value count : List F) = (value : F) := by
  rw [packBitsLe_bits_mod, Nat.mod_eq_of_lt h]

/-- A bit column is a number below 2. -/
theorem exists_bit [NoZeroDivisors F] {x : F} (h : AssertBool x) : ∃ b < 2, x = ((b : ℕ) : F) := by
  rcases assertBool_iff.mp h with rfl | rfl
  · exact ⟨0, by norm_num, by norm_num⟩
  · exact ⟨1, by norm_num, by norm_num⟩

/-- Bit columns hold a number of that many bits. -/
theorem exists_packBitsLe [NoZeroDivisors F] (columns : List F) (count : ℕ)
    (hlen : columns.length = count) (h : ∀ bit ∈ columns, AssertBool bit) :
    ∃ value < 2 ^ count, columns = bits value count ∧ packBitsLe columns = (value : F) := by
  obtain ⟨value, hlt, heq⟩ := exists_eq_bits h
  rw [hlen] at hlt heq
  exact ⟨value, hlt, heq, by rw [heq, packBitsLe_bits hlt]⟩

/-- The product of the flipped bits is 1 when all of them are 0, and 0 otherwise. -/
theorem prod_one_sub_bits (value count : ℕ) :
    ((bits value count : List F).map fun bit => 1 - bit).prod =
      if value % 2 ^ count = 0 then 1 else 0 := by
  induction count generalizing value with
  | zero => simp [Nat.mod_one]
  | succ count ih =>
    have hsplit : value % 2 ^ (count + 1) = value % 2 + 2 * (value / 2 % 2 ^ count) := by
      rw [pow_succ', Nat.mod_mul]
    rw [bits_succ, List.map_cons, List.prod_cons, ih, hsplit]
    rcases Nat.mod_two_eq_zero_or_one value with h | h
    · rw [h]
      simp
    · rw [h]
      simp

/-! ## Equations that do not wrap -/

section ZMod

variable {p : ℕ}

/-- Two numbers below the prime that are equal in the field are equal. -/
theorem natCast_inj {a b : ℕ} (ha : a < p) (hb : b < p) (h : (a : ZMod p) = b) : a = b := by
  rw [ZMod.natCast_eq_natCast_iff', Nat.mod_eq_of_lt ha, Nat.mod_eq_of_lt hb] at h
  exact h

/-- Division with remainder in the field, where neither side reaches the prime, is division with
remainder of natural numbers. -/
theorem mod_of_natCast_eq {s r m quotient : ℕ} (hs : s < p) (hr : r < m)
    (hq : r + quotient * m < p) (h : (s : ZMod p) = r + quotient * m) : r = s % m := by
  have hnat : s = r + quotient * m := natCast_inj hs hq (by push_cast; exact h)
  rw [hnat, Nat.add_mul_mod_self_right, Nat.mod_eq_of_lt hr]

/-- Columns of bits that pack to one number below the prime are the same bits. -/
theorem packBitsLe_inj [Fact p.Prime] {a b : List (ZMod p)} (ha : ∀ x ∈ a, AssertBool x)
    (hb : ∀ x ∈ b, AssertBool x) (hlen : a.length = b.length) (hp : 2 ^ a.length ≤ p)
    (h : packBitsLe a = packBitsLe b) : a = b := by
  obtain ⟨m, hm, hma⟩ := exists_eq_bits ha
  obtain ⟨n, hn, hnb⟩ := exists_eq_bits hb
  rw [← hlen] at hn hnb
  rw [hma, hnb, packBitsLe_bits hm, packBitsLe_bits hn] at h
  have hmn : m = n := natCast_inj (lt_of_lt_of_le hm hp) (lt_of_lt_of_le hn hp) h
  rw [hma, hnb, hmn]

end ZMod

end Bits
