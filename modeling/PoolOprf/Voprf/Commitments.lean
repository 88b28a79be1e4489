import PoolOprf.Lib.Air
import PoolOprf.Lib.Bits
import PoolOprf.Lib.Binding
import PoolOprf.Prf.Evaluate
import Mathlib

/-!
# Commitments

`pool-voprf/src/commitments.rs`, `hash_domains.rs`, and `plonky3/commitments.rs` with its four
kinds. A commitment hashes its domain and its values with Poseidon2 over BabyBear. Poseidon2 is
Plonky3's, and a parameter here: `Poseidon2` is its permutation, its circuit, and the two facts
that the circuits of this crate rely on. Every commitment's input fits in one permutation.

Each kind has its list of values (`elements`), and a commitment of a kind is a function of that
list (`Commitment.commit`). A key is packed into its values, and the packing loses nothing
(`packKey_elements_inj`).
-/

namespace PoolOprf

open Panic

/-! ## The field -/

/-- The prime of the BabyBear field. -/
abbrev BABY_BEAR : ℕ := 2013265921

/-- The field that the commitments and the circuits live in. -/
abbrev Val := ZMod BABY_BEAR

/-- Raising to a power of two is repeated squaring. -/
theorem Val.pow_two_pow_mul (x : Val) (k n : ℕ) :
    x ^ (2 ^ k * n) = (fun y => y ^ 2)^[k] (x ^ n) := by
  rw [pow_iterate, mul_comm, pow_mul]

/-- 31 generates the multiplicative group, of order `2 ^ 27 * 3 * 5`. -/
instance babyBear_prime : Fact (Nat.Prime BABY_BEAR) := ⟨by
  have hpow : ∀ k n m : ℕ, m = 2 ^ k * n → (31 : Val) ^ m = (fun y => y ^ 2)^[k] (31 ^ n) := by
    rintro k n m rfl
    exact Val.pow_two_pow_mul 31 k n
  refine lucas_primality BABY_BEAR (31 : Val) ?_ fun q hq hdvd => ?_
  · rw [hpow 27 15 _ (by norm_num)]
    decide +kernel
  have hfactors : BABY_BEAR - 1 = 2 ^ 27 * (3 * 5) := by norm_num
  rw [hfactors, hq.dvd_mul, hq.dvd_mul] at hdvd
  rcases hdvd with h2 | h3 | h5
  · rw [(Nat.prime_dvd_prime_iff_eq hq Nat.prime_two).mp (hq.dvd_of_dvd_pow h2),
      hpow 26 15 _ (by norm_num)]
    decide +kernel
  · rw [(Nat.prime_dvd_prime_iff_eq hq Nat.prime_three).mp h3, hpow 27 5 _ (by norm_num)]
    decide +kernel
  · rw [(Nat.prime_dvd_prime_iff_eq hq Nat.prime_five).mp h5, hpow 27 3 _ (by norm_num)]
    decide +kernel⟩

/-! ## Poseidon2 -/

/-- `Domain::Key`. -/
abbrev DOMAIN_KEY : ℕ := 1

/-- `Domain::MaskSum`. -/
abbrev DOMAIN_MASK_SUM : ℕ := 2

/-- `Domain::Pad`. -/
abbrev DOMAIN_PAD : ℕ := 3

/-- `Domain::Masks`. -/
abbrev DOMAIN_MASKS : ℕ := 4

/-- `Domain::MaskSumRandomness`. -/
abbrev DOMAIN_MASK_SUM_RANDOMNESS : ℕ := 5

/-- Elements of the wide permutation's state. -/
abbrev WIDTH : ℕ := 32

/-- Elements of the narrow permutation's state. -/
abbrev NARROW_WIDTH : ℕ := 16

/-- Elements of the state that no input is written over. -/
abbrev CAPACITY : ℕ := 8

/-- Elements of a digest. -/
abbrev DIGEST_ELEMENTS : ℕ := CAPACITY

/-- Elements that one narrow permutation takes in. -/
abbrev NARROW_RATE : ℕ := NARROW_WIDTH - CAPACITY

/-- Plonky3's Poseidon2 of `W` elements: the permutation, and its circuit. The columns of one
permutation start with its input and hold its output at `post`. -/
structure Poseidon2 (W : ℕ) where
  /-- The permutation. -/
  permute : List Val → List Val
  /-- The columns of one permutation in a circuit. -/
  COLS : ℕ
  /-- The first column of the state that the permutation ends in. -/
  post : ℕ
  /-- Plonky3's rules for the columns. -/
  air : List Val → Prop
  /-- Plonky3's columns for an input, `generate_trace_rows`. -/
  generate : List Val → List Val
  /-- The input is among the columns. -/
  width_le : W ≤ COLS
  /-- The output is among the columns. -/
  post_le : post + W ≤ COLS
  /-- The output has the input's width. -/
  permute_length : ∀ state, state.length = W → (permute state).length = W
  /-- Columns that pass the rules end in the permutation of their input. -/
  air_sound : ∀ cols, cols.length = COLS → air cols →
    Row.columns cols post (post + W) = permute (Row.columns cols 0 W)
  /-- Plonky3 generates the columns of one permutation. -/
  generate_length : ∀ state, state.length = W → (generate state).length = COLS
  /-- Plonky3's columns start with the input. -/
  generate_input : ∀ state, state.length = W → Row.columns (generate state) 0 W = state
  /-- Plonky3's columns pass Plonky3's rules. -/
  generate_air : ∀ state, state.length = W → air (generate state)

/-- The two permutations of the commitments. -/
structure Permutations where
  /-- The permutation of `WIDTH` elements. -/
  wide : Poseidon2 WIDTH
  /-- The permutation of `NARROW_WIDTH` elements. -/
  narrow : Poseidon2 NARROW_WIDTH

/-- A permutation with the plainest circuit: the columns are its input and its output. -/
def Poseidon2.ofPermute (W : ℕ) (permute : List Val → List Val)
    (h : ∀ state, (permute state).length = state.length) : Poseidon2 W where
  permute := permute
  COLS := W + W
  post := W
  air cols := Row.columns cols W (W + W) = permute (Row.columns cols 0 W)
  generate state := state ++ permute state
  width_le := Nat.le_add_left _ _
  post_le := le_rfl
  permute_length state hstate := (h state).trans hstate
  air_sound _ _ hair := hair
  generate_length state hstate := by rw [List.length_append, h, hstate]
  generate_input state hstate := by
    have hleft := Row.columns_append_left state (permute state)
    rwa [hstate] at hleft
  generate_air state hstate := by
    have hleft := Row.columns_append_left state (permute state)
    have hright := Row.columns_append_right state (permute state) 0 W
    rw [Row.columns_all ((h state).trans hstate), hstate, Nat.add_zero] at hright
    rw [hstate] at hleft
    rw [hleft, hright]

/-- Both permutations from one function of lists. -/
def Permutations.ofPermute (permute : List Val → List Val)
    (h : ∀ state, (permute state).length = state.length) : Permutations where
  wide := Poseidon2.ofPermute WIDTH permute h
  narrow := Poseidon2.ofPermute NARROW_WIDTH permute h

/-- Permutations that change nothing. -/
def Permutations.identity : Permutations := Permutations.ofPermute id fun _ => rfl

namespace Poseidon2

variable {W : ℕ} (sponge : Poseidon2 W)

/-- An input written over a zero state. -/
def state (W : ℕ) (input : List Val) : List Val := input ++ List.replicate (W - input.length) 0

theorem state_length {input : List Val} (h : input.length ≤ W) : (state W input).length = W := by
  rw [state, List.length_append, List.length_replicate]
  omega

/-- Hash an input that fits in one permutation: the first elements of the permuted state. -/
def hash (input : List Val) : Fin DIGEST_ELEMENTS → Val := fun i =>
  Row.col (sponge.permute (state W input)) i

end Poseidon2

/-! ## Commitments of a kind -/

/-- A commitment of one kind, `DOMAIN`, to `LEN` elements. -/
structure Commitment (S : Permutations) (DOMAIN LEN : ℕ) where
  /-- The hash's output. -/
  digest : Fin DIGEST_ELEMENTS → Val
  deriving DecidableEq

namespace Commitment

variable {S : Permutations} {DOMAIN LEN : ℕ}

/-- What is hashed: the domain, then the values. -/
def input (DOMAIN : ℕ) (elements : List Val) : List Val := (DOMAIN : Val) :: elements

/-- Hashes with the narrowest permutation the input fits. -/
def commit (elements : List Val) : Commitment S DOMAIN LEN where
  digest := if LEN < NARROW_RATE then S.narrow.hash (input DOMAIN elements)
    else S.wide.hash (input DOMAIN elements)

theorem commit_wide (h : ¬ LEN < NARROW_RATE) (elements : List Val) :
    (commit elements : Commitment S DOMAIN LEN).digest =
      S.wide.hash (input DOMAIN elements) := if_neg h

theorem commit_narrow (h : LEN < NARROW_RATE) (elements : List Val) :
    (commit elements : Commitment S DOMAIN LEN).digest =
      S.narrow.hash (input DOMAIN elements) := if_pos h

/-- A commitment opens to values, with some random elements, by an opening in `s`. -/
def OpensIn (s : Set (List Val)) (c : Commitment S DOMAIN LEN) (values randomness : List Val) :
    Prop :=
  values ++ randomness ∈ s ∧ c = commit (values ++ randomness)

/-- Commitments with one digest are equal. -/
theorem eq_of_digest {a b : Commitment S DOMAIN LEN} (h : a.digest = b.digest) : a = b := by
  cases a; cases b; cases h; rfl

end Commitment

/-- The `Commitment` trait: what a type commits to, and how. -/
class CommitmentTo (C : Type) (Input : outParam Type) where
  /-- Commit to an input. -/
  commit : Input → C
  /-- Commitments are compared. -/
  decEq : DecidableEq C

instance {C Input : Type} [h : CommitmentTo C Input] : DecidableEq C := h.decEq

/-! ## Random values -/

/-- What a commitment hashes in with its value to hide it: a `u128`. -/
abbrev CommitmentRandomness := BitVec 128

/-- How many bits a packed value puts in one element. -/
abbrev BITS_PER_ELEMENT : ℕ := 30

/-- How many elements a random value takes. -/
abbrev RANDOMNESS_ELEMENTS : ℕ := 5

/-- The random value as numbers of `BITS_PER_ELEMENT` bits, lowest first. -/
def packRandomness (randomness : CommitmentRandomness) : List Val :=
  (List.range RANDOMNESS_ELEMENTS).map fun k =>
    (((randomness.toNat >>> (k * BITS_PER_ELEMENT)) % 2 ^ BITS_PER_ELEMENT : ℕ) : Val)

@[simp]
theorem packRandomness_length (randomness : CommitmentRandomness) :
    (packRandomness randomness).length = RANDOMNESS_ELEMENTS := by simp [packRandomness]

/-! ## The key -/

/-- `N` bits, `BITS_PER_ELEMENT` per element, rounded up. -/
abbrev PACKED_KEY_ELEMENTS : ℕ := 17

/-- `pk`: a commitment to the packed key. -/
abbrev KeyCommitment (S : Permutations) := Commitment S DOMAIN_KEY PACKED_KEY_ELEMENTS

/-- Bits in one number, the first the lowest: `*element |= bit << position`. -/
def packElement (bits : List UInt8) : ℕ :=
  bits.zipIdx.foldl (fun element bit => element ||| (bit.1.toNat <<< bit.2)) 0

/-- Chunk `index` of a list, `BITS_PER_ELEMENT` entries each. -/
def keyChunk {α : Type} (bits : List α) (index : ℕ) : List α :=
  (bits.drop (index * BITS_PER_ELEMENT)).take BITS_PER_ELEMENT

/-- The key as `PACKED_KEY_ELEMENTS` numbers of `BITS_PER_ELEMENT` bits. -/
def packKey (sk : SecretKey) : List ℕ :=
  (List.range PACKED_KEY_ELEMENTS).map fun index =>
    packElement (keyChunk (List.ofFn sk.bits) index)

/-- A packed key as elements. -/
def keyElements (packed : List ℕ) : List Val := packed.map (Nat.cast : ℕ → Val)

/-- Commit to a key. -/
def keyCommit {S : Permutations} (sk : SecretKey) : KeyCommitment S :=
  Commitment.commit (keyElements (packKey sk))

instance (S : Permutations) : CommitmentTo (KeyCommitment S) SecretKey where
  commit := keyCommit
  decEq := inferInstance

/-! ### Packing loses nothing -/

/-- The key bits as field elements. -/
def keyColumns (sk : SecretKey) : List Val := List.ofFn fun i => ((sk.bits i).toNat : Val)

theorem keyColumns_length (sk : SecretKey) : (keyColumns sk).length = N := List.length_ofFn

/-- Every column of a key is a bit. -/
theorem assertBool_keyColumns (sk : SecretKey) : ∀ x ∈ keyColumns sk, Bits.AssertBool x := by
  intro x hx
  obtain ⟨i, rfl⟩ := List.mem_ofFn.mp hx
  rw [sk.bits_toNat]
  cases sk.bit i
  · simpa using Bits.assertBool_zero
  · simpa using Bits.assertBool_one

theorem keyChunk_length_le {α : Type} (bits : List α) (index : ℕ) :
    (keyChunk bits index).length ≤ BITS_PER_ELEMENT := List.length_take_le _ _

theorem keyChunk_map {α β : Type} (f : α → β) (bits : List α) (index : ℕ) :
    keyChunk (bits.map f) index = (keyChunk bits index).map f := by
  rw [keyChunk, keyChunk, List.map_take, List.map_drop]

/-- Setting bits that are all above the ones already set adds them. -/
theorem packElement_fold (bits : List UInt8) (hbits : ∀ bit ∈ bits, bit.toNat ≤ 1) :
    ∀ (element position : ℕ), element < 2 ^ position →
      (((bits.zipIdx position).foldl
        (fun element bit => element ||| (bit.1.toNat <<< bit.2)) element : ℕ) : Val) =
      (element : Val) + 2 ^ position * Bits.packBitsLe (bits.map fun bit => (bit.toNat : Val)) := by
  induction bits with
  | nil => intro element position _; simp [Bits.packBitsLe]
  | cons bit bits ih =>
    intro element position h
    rw [List.forall_mem_cons] at hbits
    have hor : element ||| (bit.toNat <<< position) = bit.toNat * 2 ^ position + element := by
      rw [Nat.or_comm, ← Nat.shiftLeft_add_eq_or_of_lt h, Nat.shiftLeft_eq]
    have hlt : bit.toNat * 2 ^ position + element < 2 ^ (position + 1) := by
      have := Nat.mul_le_mul_right (2 ^ position) hbits.1
      rw [pow_succ]
      omega
    rw [List.zipIdx_cons, List.foldl_cons, hor, ih hbits.2 _ _ hlt, List.map_cons,
      Bits.packBitsLe]
    push_cast
    ring

/-- A packed element as a sum of bit columns. -/
theorem packElement_cast {bits : List UInt8} (hbits : ∀ bit ∈ bits, bit.toNat ≤ 1) :
    (packElement bits : Val) = Bits.packBitsLe (bits.map fun bit => (bit.toNat : Val)) := by
  rw [packElement, packElement_fold bits hbits 0 0 (by norm_num)]
  simp

/-- The values of a key commitment, from the key's columns. -/
theorem keyElements_packKey (sk : SecretKey) :
    keyElements (packKey sk) = (List.range PACKED_KEY_ELEMENTS).map fun index =>
      Bits.packBitsLe (keyChunk (keyColumns sk) index) := by
  rw [keyElements, packKey, List.map_map]
  refine List.map_congr_left fun index _ => ?_
  have hbits : ∀ bit ∈ keyChunk (List.ofFn sk.bits) index, bit.toNat ≤ 1 := by
    intro bit hbit
    obtain ⟨i, rfl⟩ := List.mem_ofFn.mp (List.mem_of_mem_drop (List.mem_of_mem_take hbit))
    exact sk.binary i
  have hmap : keyColumns sk = (List.ofFn sk.bits).map fun bit => (bit.toNat : Val) := by
    rw [keyColumns, List.map_ofFn]
    rfl
  rw [Function.comp_apply, packElement_cast hbits, hmap, keyChunk_map]

theorem keyElements_packKey_length (sk : SecretKey) :
    (keyElements (packKey sk)).length = PACKED_KEY_ELEMENTS := by
  rw [keyElements_packKey, List.length_map, List.length_range]

/-- Columns that agree chunk by chunk agree. -/
theorem eq_of_keyChunk_eq {α : Type} {a b : List α} (hlen : a.length = b.length)
    (hle : a.length ≤ 510)
    (h : ∀ index < PACKED_KEY_ELEMENTS, keyChunk a index = keyChunk b index) : a = b := by
  refine List.ext_getElem hlen fun i ha hb => ?_
  have hchunk := h (i / 30) (show i / 30 < 17 by omega)
  have hget : ∀ l : List α, (keyChunk l (i / 30))[i % 30]? = l[i]? := by
    intro l
    rw [keyChunk, List.getElem?_take_of_lt (show i % 30 < 30 by omega), List.getElem?_drop]
    congr 1
    show i / 30 * 30 + i % 30 = i
    omega
  have heq : a[i]? = b[i]? := by rw [← hget a, ← hget b, hchunk]
  rwa [List.getElem?_eq_getElem ha, List.getElem?_eq_getElem hb, Option.some.injEq] at heq

/-- The key's columns are the key. -/
theorem keyColumns_inj {sk sk' : SecretKey} (h : keyColumns sk = keyColumns sk') : sk = sk' := by
  have hfun := List.ofFn_injective h
  ext i
  have hi : ((sk.bits i).toNat : Val) = ((sk'.bits i).toNat : Val) := congrFun hfun i
  have hb := sk.binary i
  have hb' := sk'.binary i
  exact Bits.natCast_inj (lt_of_le_of_lt hb (by norm_num)) (lt_of_le_of_lt hb' (by norm_num)) hi

/-- Two keys with the same packed elements are equal. -/
theorem packKey_elements_inj {sk sk' : SecretKey}
    (h : keyElements (packKey sk) = keyElements (packKey sk')) : sk = sk' := by
  rw [keyElements_packKey, keyElements_packKey, List.map_inj_left] at h
  refine keyColumns_inj (eq_of_keyChunk_eq ?_ ?_ fun index hindex => ?_)
  · rw [keyColumns_length, keyColumns_length]
  · rw [keyColumns_length]
    norm_num
  have hbool : ∀ sk : SecretKey, ∀ x ∈ keyChunk (keyColumns sk) index, Bits.AssertBool x :=
    fun sk x hx => assertBool_keyColumns sk x (List.mem_of_mem_drop (List.mem_of_mem_take hx))
  have hlen : (keyChunk (keyColumns sk) index).length =
      (keyChunk (keyColumns sk') index).length := by
    simp only [keyChunk, List.length_take, List.length_drop, keyColumns_length]
  have hpow : 2 ^ (keyChunk (keyColumns sk) index).length ≤ BABY_BEAR := by
    calc 2 ^ (keyChunk (keyColumns sk) index).length ≤ 2 ^ BITS_PER_ELEMENT :=
          Nat.pow_le_pow_right (by norm_num) (keyChunk_length_le _ _)
      _ ≤ BABY_BEAR := by norm_num
  exact Bits.packBitsLe_inj (hbool sk) (hbool sk') hlen hpow (h index (List.mem_range.mpr hindex))

/-! ## The other kinds -/

/-- The input of `m^v`. -/
structure MaskSumsInput where
  /-- `r̃^{v, k}_Σ` of each run `k`. -/
  r_sigma_sums : Fin RUNS_PER_EVALUATION → Zq
  /-- `randomness^v`. -/
  randomness : CommitmentRandomness

/-- The input of `c^v_{0, i}` and `c^v_{1, i}`. -/
structure MasksInput where
  /-- The mask of each run. -/
  masks : Fin RUNS_PER_EVALUATION → Zq
  /-- The OT block. -/
  randomness : CommitmentRandomness

/-- The input of `d^{v, k}_j`. -/
structure PadInput where
  /-- `r′^{v, k}_j`. -/
  pad : Zp
  /-- The OT block. -/
  randomness : CommitmentRandomness

/-- One number per run, then the random value. -/
abbrev VALUE_ELEMENTS : ℕ := RUNS_PER_EVALUATION + RANDOMNESS_ELEMENTS

/-- A committed number and its random value. -/
abbrev PAIR_ELEMENTS : ℕ := 1 + RANDOMNESS_ELEMENTS

/-- `m^v`. -/
abbrev MaskSumCommitment (S : Permutations) := Commitment S DOMAIN_MASK_SUM VALUE_ELEMENTS

/-- `c^v_{0, i}` and `c^v_{1, i}`. -/
abbrev MasksCommitment (S : Permutations) := Commitment S DOMAIN_MASKS VALUE_ELEMENTS

/-- `d^{v, k}_j`. -/
abbrev PadCommitment (S : Permutations) := Commitment S DOMAIN_PAD PAIR_ELEMENTS

/-- The number of each run, as field elements. -/
def runColumns (values : Fin RUNS_PER_EVALUATION → Zq) : List Val :=
  List.ofFn fun k => ((values k).toNat : Val)

@[simp]
theorem runColumns_length (values : Fin RUNS_PER_EVALUATION → Zq) :
    (runColumns values).length = RUNS_PER_EVALUATION := by simp [runColumns]

/-- The values of `m^v`. -/
def maskSumElements (input : MaskSumsInput) : List Val :=
  runColumns input.r_sigma_sums ++ packRandomness input.randomness

/-- The values of `c^v_{0, i}` and `c^v_{1, i}`. -/
def masksElements (input : MasksInput) : List Val :=
  runColumns input.masks ++ packRandomness input.randomness

/-- The values of `d^{v, k}_j`. -/
def padElements (input : PadInput) : List Val :=
  (input.pad.toNat : Val) :: packRandomness input.randomness

@[simp]
theorem maskSumElements_length (input : MaskSumsInput) :
    (maskSumElements input).length = VALUE_ELEMENTS := by simp [maskSumElements]

@[simp]
theorem masksElements_length (input : MasksInput) :
    (masksElements input).length = VALUE_ELEMENTS := by simp [masksElements]

@[simp]
theorem padElements_length (input : PadInput) : (padElements input).length = PAIR_ELEMENTS := by
  rw [padElements, List.length_cons, packRandomness_length, Nat.add_comm]

/-- Commit to the mask sums of an evaluation. -/
def maskSumCommit {S : Permutations} (input : MaskSumsInput) : MaskSumCommitment S :=
  Commitment.commit (maskSumElements input)

/-- Commit to the masks of a binary OT block. -/
def masksCommit {S : Permutations} (input : MasksInput) : MasksCommitment S :=
  Commitment.commit (masksElements input)

/-- Commit to a pad. -/
def padCommit {S : Permutations} (input : PadInput) : PadCommitment S :=
  Commitment.commit (padElements input)

instance (S : Permutations) : CommitmentTo (MaskSumCommitment S) MaskSumsInput where
  commit := maskSumCommit
  decEq := inferInstance

instance (S : Permutations) : CommitmentTo (MasksCommitment S) MasksInput where
  commit := masksCommit
  decEq := inferInstance

instance (S : Permutations) : CommitmentTo (PadCommitment S) PadInput where
  commit := padCommit
  decEq := inferInstance

end PoolOprf
