import Mathlib.Data.UInt
import PoolOprf.Lib.Lwr
import PoolOprf.Lib.Panic

/-!
# Parameters and modular arithmetic of the PRF

The constants of `pool-prf/src/params.rs`, and the helpers of `modular.rs` and `round.rs`. Elements
of `ℤ_q`, `ℤ_p`, and `ℤ_Δ` are the source's machine integers (`u16`, `u8`, `u8`), and accumulators
are natural numbers below `ACCUM`. A helper that asserts that its operands are reduced returns
`none` where the assertion fails. Each has a lemma for the value that it returns where it does not.
-/

namespace PoolOprf

open Panic

/-! ## Parameters -/

/-- LWR dimension: the length of the key and of a row of the hash matrix. -/
abbrev N : ℕ := 482

/-- LWR modulus, `2 ^ 12`. -/
abbrev Q : ℕ := 4096

/-- `log2(Q)`. -/
abbrev LOG_Q : ℕ := 12

/-- Rounding modulus, `2 ^ 8`. -/
abbrev P : ℕ := 256

/-- `log2(P)`. -/
abbrev LOG_P : ℕ := 8

/-- Rounding factor `Δ = q / p`. -/
abbrev DELTA : ℕ := 16

/-- `log2(Δ)`. -/
abbrev LOG_DELTA : ℕ := 4

/-- Number of rows in the hash matrix. -/
abbrev H_ROWS : ℕ := 16

/-- PRF output length in elements of `ℤ_p`: one per row. -/
abbrev OUTPUT_ELEMENTS : ℕ := H_ROWS

/-- One evaluation consists of this many runs. -/
abbrev RUNS_PER_EVALUATION : ℕ := OUTPUT_ELEMENTS

/-- Security parameter in bytes. -/
abbrev LAMBDA_BYTES : ℕ := 16

/-- Element of `ℤ_q`. -/
abbrev Zq := UInt16

/-- Element of `ℤ_p`. -/
abbrev Zp := UInt8

/-- Element of `ℤ_Δ`. -/
abbrev Zdelta := UInt8

/-- The accumulators are `u32`. -/
abbrev ACCUM : ℕ := 2 ^ 32

/-! ## Modular arithmetic -/

/-- Reduce an accumulated sum into `ℤ_q`. -/
def reduceQ (x : ℕ) : Zq := UInt16.ofNat (x % Q)

/-- How many whole `q`s fit in an accumulated sum. -/
def quotientQ (x : ℕ) : ℕ := x / Q

/-- Reduce an accumulated sum into `ℤ_p`. -/
def reduceP (x : ℕ) : Zp := UInt8.ofNat (x % P)

/-- Reduce an element of `ℤ_q` into `[0, Δ)`. -/
def reduceDelta (x : Zq) : Zdelta := UInt8.ofNat (x.toNat % DELTA)

/-- `x - y mod q`, of operands reduced mod `q`. -/
def subQ (x y : Zq) : Option Zq :=
  if x.toNat < Q ∧ y.toNat < Q then some (reduceQ (x.toNat + Q - y.toNat)) else none

/-- `x + y mod p`, of operands reduced mod `p`. -/
def addP (x y : Zp) : Option Zp :=
  if x.toNat < P ∧ y.toNat < P then some (reduceP (x.toNat + y.toNat)) else none

/-- `x - y mod p`, of operands reduced mod `p`. -/
def subP (x y : Zp) : Option Zp :=
  if x.toNat < P ∧ y.toNat < P then some (reduceP (x.toNat + P - y.toNat)) else none

/-- `x - y mod Δ`, of operands reduced mod `Δ`. -/
def subDelta (x y : Zdelta) : Option Zdelta :=
  if x.toNat < DELTA ∧ y.toNat < DELTA then
    some (UInt8.ofNat ((x.toNat + DELTA - y.toNat) % DELTA))
  else none

@[simp]
theorem reduceQ_toNat (x : ℕ) : (reduceQ x).toNat = x % Q := by
  rw [reduceQ, UInt16.toNat_ofNat', Nat.mod_eq_of_lt]
  grind

@[simp]
theorem reduceP_toNat (x : ℕ) : (reduceP x).toNat = x % P := by
  rw [reduceP, UInt8.toNat_ofNat', Nat.mod_eq_of_lt]
  grind

@[simp]
theorem reduceDelta_toNat (x : Zq) : (reduceDelta x).toNat = x.toNat % DELTA := by
  rw [reduceDelta, UInt8.toNat_ofNat', Nat.mod_eq_of_lt]
  grind

/-- Every element of `ℤ_p` is reduced, since `p` is the size of its type. -/
theorem zp_lt (x : Zp) : x.toNat < P := x.toNat_lt

theorem reduceQ_lt (x : ℕ) : (reduceQ x).toNat < Q := by
  rw [reduceQ_toNat]
  exact Nat.mod_lt _ (by norm_num)

/-- The class mod `q` that an accumulated sum is reduced into. -/
@[simp]
theorem reduceQ_cast (x : ℕ) : ((reduceQ x).toNat : ZMod Q) = x := by
  rw [reduceQ_toNat, ZMod.natCast_mod]

/-- Reduced elements of `ℤ_q` that are equal mod `q` are equal. -/
theorem eq_reduceQ_of_cast {x : Zq} {y : ℕ} (hx : x.toNat < Q)
    (h : (x.toNat : ZMod Q) = (y : ZMod Q)) : x = reduceQ y := by
  rw [ZMod.natCast_eq_natCast_iff', Nat.mod_eq_of_lt hx] at h
  rw [← UInt16.toNat_inj, reduceQ_toNat, h]

/-- Two sums reduce to the same element when they are congruent. -/
theorem reduceP_congr {x y : ℕ} (h : x % P = y % P) : reduceP x = reduceP y := by
  rw [reduceP, reduceP, h]

theorem reduceDelta_lt (x : Zq) : (reduceDelta x).toNat < DELTA := by
  rw [reduceDelta_toNat]
  exact Nat.mod_lt _ (by norm_num)

theorem subQ_of_lt {x y : Zq} (hx : x.toNat < Q) (hy : y.toNat < Q) :
    subQ x y = some (reduceQ (x.toNat + Q - y.toNat)) := if_pos ⟨hx, hy⟩

/-- `addP` never stops: its operands are reduced by their type. -/
@[simp]
theorem addP_eq (x y : Zp) : addP x y = some (reduceP (x.toNat + y.toNat)) :=
  if_pos ⟨zp_lt x, zp_lt y⟩

/-- `subP` never stops either. -/
@[simp]
theorem subP_eq (x y : Zp) : subP x y = some (reduceP (x.toNat + P - y.toNat)) :=
  if_pos ⟨zp_lt x, zp_lt y⟩

theorem subDelta_of_lt {x y : Zdelta} (hx : x.toNat < DELTA) (hy : y.toNat < DELTA) :
    subDelta x y = some (UInt8.ofNat ((x.toNat + DELTA - y.toNat) % DELTA)) := if_pos ⟨hx, hy⟩

/-- What `subDelta` returns is reduced mod `Δ`, and so has the value of the remainder. -/
theorem ofNat_mod_delta_toNat (x : ℕ) : (UInt8.ofNat (x % DELTA)).toNat = x % DELTA := by
  rw [UInt8.toNat_ofNat', Nat.mod_eq_of_lt]
  grind

/-- A number below `Δ` as an element of `ℤ_Δ`. -/
theorem ofNat_toNat_of_lt_delta {j : ℕ} (h : j < DELTA) : (UInt8.ofNat j).toNat = j := by
  rw [UInt8.toNat_ofNat', Nat.mod_eq_of_lt]
  grind

/-- A number below `Δ` as an element of `ℤ_q`. -/
theorem ofNat_toNat_zq_of_lt_delta {j : ℕ} (h : j < DELTA) : (UInt16.ofNat j).toNat = j := by
  rw [UInt16.toNat_ofNat', Nat.mod_eq_of_lt]
  grind

/-! ## Rounding -/

/-- The nearest integer to `v / Δ`, from 0 to `p`. On a tie, we round down. -/
def round (v : Zq) : Option Zq :=
  if v.toNat < Q then
    let quotient := v.toNat / DELTA
    let remainder := v.toNat % DELTA
    some (UInt16.ofNat (if remainder > DELTA / 2 then quotient + 1 else quotient))
  else none

/-- Round an element of `ℤ_q` to `ℤ_p`. -/
def roundZqToZp (v : Zq) : Option Zp := do
  let rounded ← round v
  some (reduceP rounded.toNat)

/-- `round` is the rounding of LWR. -/
theorem round_of_lt {v : Zq} (h : v.toNat < Q) :
    round v = some (UInt16.ofNat (Lwr.nearest DELTA v.toNat)) := by
  rw [round, if_pos h]
  simp only [Lwr.nearest]
  congr 2
  split_ifs <;> rfl

/-- The rounded number is at most `p`, so it fits its type. -/
theorem nearest_toNat {v : ℕ} (h : v < Q) :
    (UInt16.ofNat (Lwr.nearest DELTA v)).toNat = Lwr.nearest DELTA v := by
  have hle : Lwr.nearest DELTA v ≤ P := Lwr.nearest_le h
  rw [UInt16.toNat_ofNat', Nat.mod_eq_of_lt]
  grind

theorem roundZqToZp_of_lt {v : Zq} (h : v.toNat < Q) :
    roundZqToZp v = some (reduceP (Lwr.nearest DELTA v.toNat)) := by
  simp [roundZqToZp, round_of_lt h, nearest_toNat h]

/-- The tie at `Δ / 2` rounds down, and the numbers above the last tie round up to `p`, which
wraps to 0. -/
example : roundZqToZp 8 = some 0 ∧ roundZqToZp 9 = some 1 ∧ roundZqToZp 4095 = some 0 := by decide

end PoolOprf
