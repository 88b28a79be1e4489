import PoolOprf.Prf.Evaluate
import PoolOprf.Voprf.Commitments

/-!
# OT blocks and the run budget

What `pool-oprf/src/preprocessing.rs` and `voprf.rs` make of the oblivious transfers' 128-bit
blocks: masks (`expand`), pads (`rPrimeFromBlock`), and the random values of commitments
(`randomness`, `maskSumRandomness`). `Runs` is the budget of runs. A mask is two bytes of a block's
output stream, and the two bytes are those of the mask's own run wherever the expansion starts
(`expand_apply`).
-/

namespace PoolOprf

open Panic

/-! ## Blocks -/

/-- A 128-bit block of an OT. -/
abbrev Block := Fin 16 → UInt8

/-- Session identifier. -/
abbrev Uid := Fin LAMBDA_BYTES → UInt8

/-- The τ that `evaluations` full OPRF evaluations need. -/
def tauFor (evaluations : ℕ) : ℕ := evaluations * H_ROWS

@[simp] theorem tauFor_zero : tauFor 0 = 0 := Nat.zero_mul H_ROWS

theorem tauFor_succ (evaluations : ℕ) : tauFor (evaluations + 1) = H_ROWS + tauFor evaluations := by
  rw [tauFor, tauFor, Nat.add_mul, Nat.one_mul, Nat.add_comm]

theorem tauFor_add (evaluations evaluations' : ℕ) :
    tauFor (evaluations + evaluations') = tauFor evaluations + tauFor evaluations' :=
  Nat.add_mul evaluations evaluations' H_ROWS

theorem dvd_tauFor (evaluations : ℕ) : H_ROWS ∣ tauFor evaluations := Nat.dvd_mul_left H_ROWS evaluations

/-- `tau_for`: that τ, or a panic where the product is not a `usize`. -/
def checkedTauFor (evaluations : ℕ) : Option ℕ :=
  if tauFor evaluations < 2 ^ 64 then some (tauFor evaluations) else none

/-- It panics from `2 ^ 60` evaluations on. -/
theorem checkedTauFor_isSome (evaluations : ℕ) :
    (checkedTauFor evaluations).isSome ↔ evaluations < 2 ^ 60 := by
  have htau : tauFor evaluations = evaluations * 16 := rfl
  unfold checkedTauFor
  rw [htau]
  split_ifs with hlt
  · exact ⟨fun _ => by omega, fun _ => rfl⟩
  · exact ⟨(fun hnone => by cases hnone), fun hlt' => absurd (by omega) hlt⟩

theorem checkedTauFor_eq_some {evaluations : ℕ} (h : evaluations < 2 ^ 60) :
    checkedTauFor evaluations = some (tauFor evaluations) := by
  obtain ⟨tau, htau⟩ := Option.isSome_iff_exists.mp ((checkedTauFor_isSome evaluations).mpr h)
  unfold checkedTauFor at htau ⊢
  split_ifs at htau ⊢ with hlt
  rfl

theorem tauFor_div (evaluations : ℕ) : tauFor evaluations / H_ROWS = evaluations :=
  Nat.mul_div_cancel evaluations (by norm_num)

/-- Full evaluations that `runs` can pay for. -/
def evaluationsFor (runs : ℕ) : ℕ := runs / H_ROWS

/-- The first run of evaluation `v`. -/
def firstRun (v : ℕ) : ℕ := v * RUNS_PER_EVALUATION

/-- The evaluations that τ runs pay for have τ runs at most. -/
theorem tauFor_evaluationsFor_le (runs : ℕ) : tauFor (evaluationsFor runs) ≤ runs :=
  Nat.div_mul_le_self runs H_ROWS

/-- Domain separator for expanding OT blocks into the `r` masks. -/
def R_DOMAIN_SEPARATOR : String := "pool-oprf v1 zq mask from ot seed"

/-- Bytes of XOF output each mask is cut from. -/
abbrev MASK_BYTES : ℕ := 2

/-- The output stream that a block's masks are cut from. -/
def maskStream (blake3 : Blake3) (ot_block : Block) : ℕ → UInt8 :=
  blake3 (.deriveKey R_DOMAIN_SEPARATOR) (List.ofFn ot_block)

/-- The masks of `H_ROWS` runs from `first_run` on. -/
def expand (blake3 : Blake3) (ot_block : Block) (first_run : ℕ) : Fin H_ROWS → Zq :=
  let position := first_run * MASK_BYTES
  fun k => reduceQ (u16FromLeBytes
    (maskStream blake3 ot_block (position + MASK_BYTES * k))
    (maskStream blake3 ot_block (position + MASK_BYTES * k + 1))).toNat

/-- The mask of one run: bytes `2·run` and `2·run + 1` of the block's stream. -/
def maskOf (blake3 : Blake3) (ot_block : Block) (run : ℕ) : Zq :=
  reduceQ (u16FromLeBytes (maskStream blake3 ot_block (2 * run))
    (maskStream blake3 ot_block (2 * run + 1))).toNat

/-- Each mask is that of its own run, wherever the expansion starts. -/
theorem expand_apply (blake3 : Blake3) (ot_block : Block) (first_run : ℕ) (k : Fin H_ROWS) :
    expand blake3 ot_block first_run k = maskOf blake3 ot_block (first_run + k) := by
  have hposition : first_run * MASK_BYTES + MASK_BYTES * k = 2 * (first_run + k) := by ring
  unfold expand maskOf
  simp only [hposition]

theorem expand_lt (blake3 : Blake3) (ot_block : Block) (first_run : ℕ) (k : Fin H_ROWS) :
    (expand blake3 ot_block first_run k).toNat < Q := reduceQ_lt _

theorem maskOf_lt (blake3 : Blake3) (ot_block : Block) (run : ℕ) :
    (maskOf blake3 ot_block run).toNat < Q := reduceQ_lt _

/-- A pad: the leading byte of its block, reduced mod `p`. -/
def rPrimeFromBlock (block : Block) : Zp := reduceP (block 0).toNat

/-! ## Random values of commitments -/

/-- A number of little-endian bytes. -/
def leToNat (bytes : List UInt8) : ℕ := bytes.foldr (fun byte acc => byte.toNat + 256 * acc) 0

/-- The low bytes of a number, lowest first, give it back up to where they end. -/
theorem leToNat_bytes (x n : ℕ) :
    leToNat ((List.range n).map fun k => UInt8.ofNat (x >>> (8 * k))) = x % 256 ^ n := by
  induction n generalizing x with
  | zero => rw [List.range_zero, pow_zero, Nat.mod_one]; rfl
  | succ n ih =>
    -- The bytes after the first are those of `x >>> 8`.
    have hshift : ∀ k, x >>> (8 * (k + 1)) = (x >>> 8) >>> (8 * k) := by
      intro k
      rw [← Nat.shiftRight_add]
      congr 1
      ring
    have hbyte : (UInt8.ofNat (x >>> (8 * 0))).toNat = x % 256 := by
      rw [Nat.mul_zero, Nat.shiftRight_zero, UInt8.toNat_ofNat']
    have htail : ((fun k => UInt8.ofNat (x >>> (8 * k))) ∘ Nat.succ) =
        fun k => UInt8.ofNat ((x >>> 8) >>> (8 * k)) := by
      funext k
      rw [Function.comp_apply, Nat.succ_eq_add_one, hshift]
    rw [List.range_succ_eq_map, List.map_cons, List.map_map, htail]
    calc leToNat (UInt8.ofNat (x >>> (8 * 0)) ::
          (List.range n).map fun k => UInt8.ofNat ((x >>> 8) >>> (8 * k)))
        = x % 256 + 256 * ((x >>> 8) % 256 ^ n) := by rw [← ih, ← hbyte]; rfl
      _ = x % 256 + 256 * (x / 256 % 256 ^ n) := by rw [Nat.shiftRight_eq_div_pow]
      _ = x % (256 * 256 ^ n) := (Nat.mod_mul).symm
      _ = x % 256 ^ (n + 1) := by rw [pow_succ, Nat.mul_comm]

/-- An OT block as the random value of a commitment. -/
def randomness (ot_block : Block) : CommitmentRandomness :=
  BitVec.ofNat 128 (leToNat (List.ofFn ot_block))

/-- The little-endian bytes of a `u32`. -/
def u32ToLeBytes (x : ℕ) : List UInt8 := (List.range 4).map fun k => UInt8.ofNat (x >>> (8 * k))

/-- `randomness^v`, from the 1-out-of-Δ OT blocks of run 0 of evaluation `v`. -/
def maskSumRandomness (blake3 : Blake3) (ot_blocks : Fin DELTA → Block) : CommitmentRandomness :=
  let hash := blake3 .hash (u32ToLeBytes DOMAIN_MASK_SUM_RANDOMNESS ++
    (List.ofFn fun j => List.ofFn (ot_blocks j)).flatten)
  BitVec.ofNat 128 (leToNat ((List.range 16).map hash))

/-! ## Runs -/

/-- The run budget: how many preprocessing runs exist, and how many are spent. -/
structure Runs where
  /-- How many runs exist. -/
  tau : ℕ
  /-- Next unspent run. -/
  ctr : ℕ
  /-- No more runs are spent than exist. -/
  ctr_le : ctr ≤ tau

namespace Runs

/-- A fresh budget. -/
def new (tau : ℕ) : Runs := ⟨tau, 0, Nat.zero_le tau⟩

/-- How many runs are left. -/
def remaining (self : Runs) : ℕ := self.tau - self.ctr

/-- Take `count` runs, returning the first, or `none` if that many are not left. -/
def take (self : Runs) (count : ℕ) : Option (ℕ × Runs) :=
  if h : self.remaining < count then
    none
  else
    some (self.ctr, ⟨self.tau, self.ctr + count, by
      have hle := self.ctr_le
      unfold remaining at h
      omega⟩)

/-- What is spent and what is left add up: `remaining` does not underflow. -/
theorem ctr_add_remaining (self : Runs) : self.ctr + self.remaining = self.tau := by
  have hle := self.ctr_le
  unfold remaining
  omega

/-- What taking runs does: they are the next ones, and they are there. -/
theorem take_eq_some {self : Runs} {count first : ℕ} {runs : Runs}
    (h : self.take count = some (first, runs)) :
    first = self.ctr ∧ runs.ctr = self.ctr + count ∧ runs.tau = self.tau ∧
      count ≤ self.remaining := by
  unfold take at h
  split_ifs at h with hlt
  obtain ⟨rfl, rfl⟩ := Prod.mk.inj (Option.some.inj h)
  exact ⟨rfl, rfl, rfl, Nat.le_of_not_lt hlt⟩

/-- Runs that are left can be taken. -/
theorem take_of_le {self : Runs} {count : ℕ} (h : count ≤ self.remaining) :
    ∃ runs, self.take count = some (self.ctr, runs) ∧ runs.ctr = self.ctr + count ∧
      runs.tau = self.tau := by
  refine ⟨_, dif_neg (Nat.not_lt_of_le h), rfl, rfl⟩

end Runs

/-- Blocks of pairs that repeat their side. -/
def sideBlocks : Fin N → Fin 2 → Block := fun _ side _ => UInt8.ofNat side

/-- Blocks of a run that repeat their position. -/
def positionBlocks : Fin DELTA → Block := fun position _ => UInt8.ofNat position

end PoolOprf
