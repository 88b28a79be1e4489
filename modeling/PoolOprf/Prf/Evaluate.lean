import PoolOprf.Prf.Modular

/-!
# The PRF

`SecretKey` and `evaluate` of `pool-prf/src/prf.rs`, and `hash_to_zq_matrix` of `hash.rs`. BLAKE3
is a parameter, `Blake3`: an arbitrary function from its mode and its input to a stream of bytes.
The layout of the hash matrix in that stream is the source's. `evaluate_eq` says that an
evaluation never stops, and gives its value: one rounded inner product per row.
-/

namespace PoolOprf

open Panic

/-! ## Keys -/

/-- Secret key of the PRF: a binary vector of length `N`. -/
@[ext]
structure SecretKey where
  /-- One byte per bit. -/
  bits : Fin N → UInt8
  /-- Every byte is 0 or 1. -/
  binary : ∀ i, (bits i).toNat ≤ 1

namespace SecretKey

/-- A key of bytes that are all 0 or 1. -/
def fromBits (bits : Fin N → UInt8) : Option SecretKey :=
  if h : ∀ i, (bits i).toNat ≤ 1 then some ⟨bits, h⟩ else none

/-- Key bit `i`. -/
def bit (sk : SecretKey) (i : Fin N) : Bool := sk.bits i == 1

/-- The key with given bits. -/
def ofBool (bits : Fin N → Bool) : SecretKey where
  bits i := (bits i).toUInt8
  binary i := by cases bits i <;> decide

@[simp]
theorem bit_ofBool (bits : Fin N → Bool) (i : Fin N) : (ofBool bits).bit i = bits i := by
  simp only [bit, ofBool]
  cases bits i <;> decide

/-- A byte of the key is its bit. -/
theorem bits_eq (sk : SecretKey) (i : Fin N) : sk.bits i = (sk.bit i).toUInt8 := by
  have h := sk.binary i
  have hcases : sk.bits i = 0 ∨ sk.bits i = 1 := by
    simp only [← UInt8.toNat_inj]
    have h0 : (0 : UInt8).toNat = 0 := rfl
    have h1 : (1 : UInt8).toNat = 1 := rfl
    omega
  rcases hcases with h | h <;> simp [bit, h] <;> decide

theorem bits_eq_zero_iff (sk : SecretKey) (i : Fin N) : sk.bits i = 0 ↔ sk.bit i = false := by
  rw [bits_eq]
  cases sk.bit i <;> decide

theorem bits_toNat (sk : SecretKey) (i : Fin N) : (sk.bits i).toNat = (sk.bit i).toNat := by
  rw [bits_eq]
  cases sk.bit i <;> rfl

/-- A key bit as a number of a ring. -/
theorem bits_cast {R : Type*} [CommRing R] (sk : SecretKey) (i : Fin N) :
    ((sk.bits i).toNat : R) = Lwr.bit (sk.bit i) := by
  rw [bits_toNat]
  cases sk.bit i <;> simp

instance : DecidableEq SecretKey := fun sk sk' =>
  decidable_of_iff (sk.bits = sk'.bits) ⟨fun h => SecretKey.ext h, fun h => h ▸ rfl⟩

end SecretKey

/-- The exclusive or of two bits is a bit. -/
theorem xor_toNat_lt_two {a b : UInt8} (ha : a.toNat ≤ 1) (hb : b.toNat ≤ 1) :
    (a ^^^ b).toNat < 2 := by
  rw [UInt8.toNat_xor]
  exact Nat.xor_lt_two_pow (n := 1) (by omega) (by omega)

/-! ## The hash matrix -/

/-- How BLAKE3 is set up: as a hash, or to derive keys under a context. -/
inductive Blake3Mode where
  /-- `Hasher::new`. -/
  | hash
  /-- `Hasher::new_derive_key`. -/
  | deriveKey (context : String)
  deriving DecidableEq

/-- BLAKE3 in its extendable form: the byte at each position of the output stream. -/
def Blake3 := Blake3Mode → List UInt8 → ℕ → UInt8

/-- A matrix of `H_ROWS × N` elements of `ℤ_q`. -/
abbrev ZqMatrix := Fin H_ROWS → Fin N → Zq

/-- Domain separator for the random oracle. -/
def RO_DOMAIN_SEPARATOR : String := "pool-oprf v1 random oracle to zq matrix"

/-- The little-endian bytes of a `u64`. -/
def u64ToLeBytes (x : ℕ) : List UInt8 := (List.range 8).map fun k => UInt8.ofNat (x >>> (8 * k))

/-- A `u16` of two bytes, the low one first. -/
def u16FromLeBytes (lo hi : UInt8) : UInt16 := lo.toUInt16 ||| (hi.toUInt16 <<< 8)

/-- `RO(t, x)`: hash a tag and an input to a matrix. -/
def hashToZqMatrix (blake3 : Blake3) (tag input : List UInt8) : ZqMatrix :=
  let xof := blake3 (.deriveKey RO_DOMAIN_SEPARATOR) (u64ToLeBytes tag.length ++ tag ++ input)
  fun row i =>
    let offset := row * N * 2
    reduceQ (u16FromLeBytes (xof (offset + 2 * i)) (xof (offset + 2 * i + 1))).toNat

/-! ## Evaluation -/

/-- The PRF's output. -/
abbrev PrfOutput := Fin OUTPUT_ELEMENTS → Zp

/-- `aᵀsk`, reduced mod `q`. -/
def innerProduct (v : Fin N → Zq) (sk : SecretKey) : Option Zq := do
  let sum ← checkedSum ACCUM (List.ofFn fun i => (v i).toNat * (sk.bits i).toNat)
  some (reduceQ sum)

/-- `⌈aᵀsk⌋` for one row. -/
def evaluateSingleRow (sk : SecretKey) (v : Fin N → Zq) : Option Zp := do
  let inner ← innerProduct v sk
  roundZqToZp inner

/-- Evaluate the PRF given a precomputed hash matrix. -/
def evaluateWithMatrix (sk : SecretKey) (m : ZqMatrix) : Option PrfOutput :=
  fromFn fun row => evaluateSingleRow sk (m row)

/-- Evaluate the PRF on the given tag and input: `Eval(sk, t, x)`. -/
def evaluate (blake3 : Blake3) (sk : SecretKey) (tag input : List UInt8) : Option PrfOutput :=
  evaluateWithMatrix sk (hashToZqMatrix blake3 tag input)

/-- The inner product as a natural number, before its reduction. -/
def innerSum (v : Fin N → Zq) (sk : SecretKey) : ℕ := ∑ i, (v i).toNat * (sk.bits i).toNat

theorem innerSum_cast {R : Type*} [CommRing R] (v : Fin N → Zq) (sk : SecretKey) :
    (innerSum v sk : R) = ∑ i, Lwr.bit (sk.bit i) * ((v i).toNat : R) := by
  unfold innerSum
  push_cast
  exact Finset.sum_congr rfl fun i _ => by rw [sk.bits_cast, mul_comm]

/-- An inner product fits its accumulator, whatever the vector. -/
theorem innerProduct_eq (v : Fin N → Zq) (sk : SecretKey) :
    innerProduct v sk = some (reduceQ (innerSum v sk)) := by
  have hterm : ∀ i, (v i).toNat * (sk.bits i).toNat ≤ 65535 := by
    intro i
    calc (v i).toNat * (sk.bits i).toNat ≤ (v i).toNat * 1 := Nat.mul_le_mul_left _ (sk.binary i)
      _ ≤ 65535 := by have := (v i).toNat_lt; omega
  rw [innerProduct, checkedSum_ofFn _ 65535 hterm (by norm_num)]
  rfl

/-- One row of an evaluation: the rounded inner product. -/
theorem evaluateSingleRow_eq (sk : SecretKey) (v : Fin N → Zq) :
    evaluateSingleRow sk v = some (reduceP (Lwr.nearest DELTA (innerSum v sk % Q))) := by
  rw [evaluateSingleRow, innerProduct_eq, Option.bind_eq_bind, Option.bind_some,
    roundZqToZp_of_lt (reduceQ_lt _), reduceQ_toNat]

/-- The output that an evaluation with a hash matrix returns. -/
def outputOf (sk : SecretKey) (m : ZqMatrix) : PrfOutput := fun row =>
  reduceP (Lwr.nearest DELTA (innerSum (m row) sk % Q))

@[simp]
theorem evaluateWithMatrix_eq (sk : SecretKey) (m : ZqMatrix) :
    evaluateWithMatrix sk m = some (outputOf sk m) :=
  fromFn_eq_some_iff.mpr fun row => evaluateSingleRow_eq sk (m row)

/-- An evaluation never stops. -/
theorem evaluate_eq (blake3 : Blake3) (sk : SecretKey) (tag input : List UInt8) :
    evaluate blake3 sk tag input = some (outputOf sk (hashToZqMatrix blake3 tag input)) :=
  evaluateWithMatrix_eq sk _

/-! ### A hash and a key whose outputs are known -/

/-- A hash that repeats sixteen times the last byte of its input, in two bytes. -/
def lastByteHash : Blake3 := fun _ input position =>
  if position % 2 = 0 then input.getLastD 0 <<< 4 else input.getLastD 0 >>> 4

/-- The key whose only bit is the first. -/
def oneBitKey : SecretKey := SecretKey.ofBool fun i => decide (i.val = 0)

theorem u16FromLeBytes_shifts (b : UInt8) :
    (u16FromLeBytes (b <<< 4) (b >>> 4)).toNat = 16 * b.toNat := by
  have hbytes : ∀ n : Fin 256, (u16FromLeBytes (UInt8.ofNat n <<< 4) (UInt8.ofNat n >>> 4)).toNat =
      16 * n.val := by
    decide +kernel
  have hbyte := hbytes ⟨b.toNat, b.toNat_lt⟩
  rwa [UInt8.ofNat_toNat] at hbyte

/-- A multiple of Δ is its own nearest. -/
theorem reduceP_nearest (b : UInt8) : reduceP (Lwr.nearest DELTA (16 * b.toNat % Q)) = b := by
  have hlt := b.toNat_lt
  rw [← UInt8.toNat_inj, reduceP_toNat]
  change (16 * b.toNat % 4096 / 16 + if 16 / 2 < 16 * b.toNat % 4096 % 16 then 1 else 0) % 256 = b.toNat
  split_ifs <;> omega

/-- The output on an input is its last byte in each row. -/
theorem evaluate_lastByteHash (tag : List UInt8) {input : List UInt8} (h : input ≠ []) :
    evaluate lastByteHash oneBitKey tag input = some fun _ => input.getLastD 0 := by
  have hlast : (u64ToLeBytes tag.length ++ tag ++ input).getLastD 0 = input.getLastD 0 := by
    obtain ⟨init, b, rfl⟩ := (List.eq_nil_or_concat input).resolve_left h
    rw [List.concat_eq_append, ← List.append_assoc, List.getLastD_concat, List.getLastD_concat]
  rw [evaluate_eq]
  refine congrArg some (funext fun row => ?_)
  have hentry : hashToZqMatrix lastByteHash tag input row 0 = reduceQ (16 * (input.getLastD 0).toNat) := by
    have heven : (row * N * 2 + 2 * (0 : Fin N).val) % 2 = 0 := by omega
    have hodd : (row * N * 2 + 2 * (0 : Fin N).val + 1) % 2 ≠ 0 := by omega
    unfold hashToZqMatrix lastByteHash
    dsimp only
    rw [if_pos heven, if_neg hodd, hlast, u16FromLeBytes_shifts]
  -- The key has one bit, so the inner product is the first entry.
  have hinner : innerSum (hashToZqMatrix lastByteHash tag input row) oneBitKey =
      16 * (input.getLastD 0).toNat := by
    have hlt := (input.getLastD 0).toNat_lt
    rw [innerSum, Finset.sum_eq_single 0 (fun i _ hi => ?_) (by simp), hentry, reduceQ_toNat,
      SecretKey.bits_toNat, oneBitKey, SecretKey.bit_ofBool]
    · change 16 * (input.getLastD 0).toNat % 4096 * 1 = _
      omega
    · have hzero : i.val ≠ 0 := fun hval => hi (Fin.ext hval)
      rw [SecretKey.bits_toNat, oneBitKey, SecretKey.bit_ofBool, decide_eq_false hzero, Bool.toNat_false,
        Nat.mul_zero]
  rw [outputOf, hinner, reduceP_nearest]

end PoolOprf
