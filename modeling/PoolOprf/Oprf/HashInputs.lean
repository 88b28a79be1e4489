import PoolOprf.Oprf.DeltaOt
import PoolOprf.Plonky3.Openings

/-!
# What is hashed

The two hashes of the system and all that they are used for. Poseidon2 hashes the four kinds of
commitments (`CommitmentUse`) in one permutation each, of which `CommitmentUse.state` is the input;
BLAKE3 hashes inputs to matrices and blocks to masks, blocks, and random values (`Blake3Use`), and
`Blake3Use.hashed` is how it is set up and what it is given. Both tell the use and its arguments: a
commitment by its domain, which comes first, and by values whose number only depends on the domain
(`CommitmentUse.state_inj`), and BLAKE3's uses by the context that keys are derived under and,
without one, by their lengths (`Blake3Use.hashed_inj`).
-/

namespace PoolOprf

open Panic

/-! ## Values of commitments -/

/-- Numbers below the field's order are told apart as elements. -/
theorem runColumns_inj {values values' : Fin RUNS_PER_EVALUATION → Zq}
    (h : runColumns values = runColumns values') : values = values' := by
  funext k
  have hk : ((values k).toNat : Val) = (values' k).toNat := congrFun (List.ofFn_injective h) k
  have hlt : ∀ x : Zq, x.toNat < BABY_BEAR := fun x => x.toNat_lt.trans (by norm_num)
  exact UInt16.toNat_inj.mp (Bits.natCast_inj (hlt _) (hlt _) hk)

/-- A random value is the numbers that it is packed to: these have all its bits. -/
theorem packRandomness_inj {r r' : CommitmentRandomness} (h : packRandomness r = packRandomness r') :
    r = r' := by
  have hlimb : ∀ k < RANDOMNESS_ELEMENTS, (r.toNat >>> (k * BITS_PER_ELEMENT)) % 2 ^ BITS_PER_ELEMENT =
      (r'.toNat >>> (k * BITS_PER_ELEMENT)) % 2 ^ BITS_PER_ELEMENT := by
    intro k hk
    have hcast := List.map_inj_left.mp h k (List.mem_range.mpr hk)
    have hlt : ∀ x : ℕ, x % 2 ^ BITS_PER_ELEMENT < BABY_BEAR := fun x =>
      (Nat.mod_lt x (by norm_num)).trans (by norm_num)
    exact Bits.natCast_inj (hlt _) (hlt _) hcast
  refine BitVec.eq_of_toNat_eq (Nat.eq_of_testBit_eq fun i => ?_)
  by_cases hi : i < 128
  · -- Bit `i` is in number `i / 30`.
    have hbit : ∀ x : ℕ, x.testBit i =
        ((x >>> (i / 30 * 30)) % 2 ^ 30).testBit (i % 30) := by
      intro x
      have hmod : i % 30 < 30 := Nat.mod_lt i (by norm_num)
      have hsplit : i / 30 * 30 + i % 30 = i := Nat.div_add_mod' i 30
      rw [Nat.testBit_mod_two_pow, Nat.testBit_shiftRight, hsplit, decide_eq_true hmod,
        Bool.true_and]
    rw [hbit r.toNat, hbit r'.toNat]
    exact congrArg (Nat.testBit · (i % 30)) (hlimb (i / 30) (show i / 30 < 5 by omega))
  · have hlt : ∀ x : CommitmentRandomness, x.toNat < 2 ^ i := fun x =>
      x.isLt.trans_le (Nat.pow_le_pow_right (by norm_num) (Nat.le_of_not_lt hi))
    rw [Nat.testBit_lt_two_pow (hlt r), Nat.testBit_lt_two_pow (hlt r')]

theorem maskSumElements_inj {input input' : MaskSumsInput}
    (h : maskSumElements input = maskSumElements input') : input = input' := by
  obtain ⟨sums, r⟩ := input
  obtain ⟨sums', r'⟩ := input'
  obtain ⟨hsums, hr⟩ := List.append_inj h (by rw [runColumns_length, runColumns_length])
  obtain rfl : sums = sums' := runColumns_inj hsums
  obtain rfl : r = r' := packRandomness_inj hr
  rfl

theorem masksElements_inj {input input' : MasksInput}
    (h : masksElements input = masksElements input') : input = input' := by
  obtain ⟨masks, r⟩ := input
  obtain ⟨masks', r'⟩ := input'
  obtain ⟨hmasks, hr⟩ := List.append_inj h (by rw [runColumns_length, runColumns_length])
  obtain rfl : masks = masks' := runColumns_inj hmasks
  obtain rfl : r = r' := packRandomness_inj hr
  rfl

theorem padElements_inj {input input' : PadInput} (h : padElements input = padElements input') :
    input = input' := by
  obtain ⟨pad, r⟩ := input
  obtain ⟨pad', r'⟩ := input'
  obtain ⟨hpad, hr⟩ := List.cons.inj h
  have hlt : ∀ x : Zp, x.toNat < BABY_BEAR := fun x => x.toNat_lt.trans (by norm_num)
  obtain rfl : pad = pad' := UInt8.toNat_inj.mp (Bits.natCast_inj (hlt _) (hlt _) hpad)
  obtain rfl : r = r' := packRandomness_inj hr
  rfl

/-! ## Poseidon2 -/

/-- What Poseidon2 is used for: a commitment of each kind. -/
inductive CommitmentUse where
  /-- `key::commit`. -/
  | key (sk : SecretKey)
  /-- `mask_sum::commit`. -/
  | mask_sum (input : MaskSumsInput)
  /-- `masks::commit`. -/
  | masks (input : MasksInput)
  /-- `pad::commit`. -/
  | pad (input : PadInput)

namespace CommitmentUse

/-- The kind's domain. -/
def domain : CommitmentUse → ℕ
  | key _ => DOMAIN_KEY
  | mask_sum _ => DOMAIN_MASK_SUM
  | masks _ => DOMAIN_MASKS
  | pad _ => DOMAIN_PAD

/-- How many elements the kind commits to. -/
def len : CommitmentUse → ℕ
  | key _ => PACKED_KEY_ELEMENTS
  | mask_sum _ => VALUE_ELEMENTS
  | masks _ => VALUE_ELEMENTS
  | pad _ => PAIR_ELEMENTS

/-- The elements. -/
def elements : CommitmentUse → List Val
  | key sk => keyElements (packKey sk)
  | mask_sum input => maskSumElements input
  | masks input => masksElements input
  | pad input => padElements input

/-- The width of the permutation: the narrowest that the input fits. -/
def width (self : CommitmentUse) : ℕ := if self.len < NARROW_RATE then NARROW_WIDTH else WIDTH

/-- The permutation's input: the domain and the elements, and zeros. -/
def state (self : CommitmentUse) : List Val :=
  Poseidon2.state self.width (Commitment.input self.domain self.elements)

/-- The commitment's digest. -/
def digest (S : Permutations) : CommitmentUse → Fin DIGEST_ELEMENTS → Val
  | key sk => (keyCommit sk : KeyCommitment S).digest
  | mask_sum input => (maskSumCommit input : MaskSumCommitment S).digest
  | masks input => (masksCommit input : MasksCommitment S).digest
  | pad input => (padCommit input : PadCommitment S).digest

/-- The permutation. -/
def permute (S : Permutations) (self : CommitmentUse) : List Val → List Val :=
  if self.len < NARROW_RATE then S.narrow.permute else S.wide.permute

theorem elements_length (self : CommitmentUse) : self.elements.length = self.len := by
  cases self with
  | key sk => exact keyElements_packKey_length sk
  | mask_sum input => exact maskSumElements_length input
  | masks input => exact masksElements_length input
  | pad input => exact padElements_length input

/-- What is hashed fits in one permutation, with the capacity left. -/
theorem input_length_le (self : CommitmentUse) :
    (Commitment.input self.domain self.elements).length ≤ self.width - CAPACITY := by
  rw [Commitment.input, List.length_cons, self.elements_length]
  unfold width len
  cases self <;> norm_num

/-- A digest is what comes out of the permutation first. -/
theorem digest_eq (S : Permutations) (self : CommitmentUse) :
    self.digest S = fun i : Fin DIGEST_ELEMENTS => Row.col (self.permute S self.state) i := by
  cases self <;> rfl

/-- The permutation's input has its width. -/
theorem state_length (self : CommitmentUse) : self.state.length = self.width :=
  Poseidon2.state_length (self.input_length_le.trans (Nat.sub_le _ _))

/-- The kinds have different domains, also as elements. -/
theorem domain_inj {self other : CommitmentUse} (h : (self.domain : Val) = other.domain) :
    self.domain = other.domain := by
  have hlt : ∀ use : CommitmentUse, use.domain < BABY_BEAR := fun use => by
    cases use <;> norm_num [domain]
  exact Bits.natCast_inj (hlt self) (hlt other) h

/-- The domain and the elements tell the kind and what is committed to. -/
theorem elements_inj {self other : CommitmentUse} (hdomain : self.domain = other.domain)
    (helements : self.len = other.len → self.elements = other.elements) : self = other := by
  cases self with
  | key sk =>
    cases other with
    | key sk' => rw [packKey_elements_inj (helements rfl)]
    | mask_sum | masks | pad => cases hdomain
  | mask_sum input =>
    cases other with
    | mask_sum input' => rw [maskSumElements_inj (helements rfl)]
    | key | masks | pad => cases hdomain
  | masks input =>
    cases other with
    | masks input' => rw [masksElements_inj (helements rfl)]
    | key | mask_sum | pad => cases hdomain
  | pad input =>
    cases other with
    | pad input' => rw [padElements_inj (helements rfl)]
    | key | mask_sum | masks => cases hdomain

/-- A permutation's input tells the kind and what is committed to. -/
theorem state_inj {self other : CommitmentUse} (h : self.state = other.state) : self = other := by
  unfold state Poseidon2.state Commitment.input at h
  rw [List.cons_append, List.cons_append] at h
  obtain ⟨hdomain, hrest⟩ := List.cons.inj h
  refine elements_inj (domain_inj hdomain) fun hlen => ?_
  -- As many elements come before the zeros.
  exact (List.append_inj hrest (by rw [self.elements_length, other.elements_length, hlen])).1

end CommitmentUse

/-- An element of the packed key is what the circuit makes of the key's bit columns. -/
theorem packed_keyColumns (sk : SecretKey) {index : ℕ} (h : index < PACKED_KEY_ELEMENTS) :
    ∃ element, (packKey sk)[index]? = some element ∧
      KeyAir.packed (keyColumns sk) index = (element : Val) := by
  have hlen : (packKey sk).length = PACKED_KEY_ELEMENTS := by
    rw [packKey, List.length_map, List.length_range]
  have hget := List.getElem?_eq_getElem (l := packKey sk) (by rw [hlen]; exact h)
  refine ⟨_, hget, ?_⟩
  have hcast := congrArg (fun elements : List Val => elements[index]?) (keyElements_packKey sk)
  simp only [keyElements, List.getElem?_map, hget, List.getElem?_range h, Option.map_some,
    Option.some.injEq] at hcast
  rw [KeyAir.packed_eq]
  exact hcast.symm

/-! ## BLAKE3 -/

/-- What BLAKE3 is used for. -/
inductive Blake3Use where
  /-- `hash_to_zq_matrix`. -/
  | hashToZqMatrix (tag input : List UInt8)
  /-- `expand`. -/
  | expand (ot_block : Block)
  /-- `derive_ot_block`. -/
  | deriveOtBlock (blocks : Fin LOG_DELTA → Block) (choice : Zdelta)
  /-- `mask_sum_randomness`. -/
  | maskSumRandomness (ot_blocks : Fin DELTA → Block)

/-- Blocks end to end are told apart. -/
theorem flatten_blocks_inj {n : ℕ} {blocks blocks' : Fin n → Block}
    (h : (List.ofFn fun i => List.ofFn (blocks i)).flatten =
      (List.ofFn fun i => List.ofFn (blocks' i)).flatten) : blocks = blocks' := by
  have hlen : ∀ blocks : Fin n → Block, ∀ block ∈ List.ofFn fun i => List.ofFn (blocks i),
      block.length = 16 := by
    intro blocks block hblock
    obtain ⟨i, rfl⟩ := List.mem_ofFn.mp hblock
    exact List.length_ofFn
  have hchunks := congrArg (chunksExact 16) h
  rw [chunksExact_flatten (by norm_num) (hlen blocks), chunksExact_flatten (by norm_num) (hlen blocks')]
    at hchunks
  funext i
  exact List.ofFn_injective (congrFun (List.ofFn_injective hchunks) i)

theorem flatten_blocks_length {n : ℕ} (blocks : Fin n → Block) :
    (List.ofFn fun i => List.ofFn (blocks i)).flatten.length = n * 16 := by
  rw [List.length_flatten, List.map_ofFn, List.sum_ofFn]
  simp only [Function.comp_apply, List.length_ofFn, Finset.sum_const, Finset.card_univ,
    Fintype.card_fin, smul_eq_mul]

/-- A length that fits in 8 bytes is told by them. -/
theorem u64ToLeBytes_inj {x y : ℕ} (hx : x < 2 ^ 64) (hy : y < 2 ^ 64)
    (h : u64ToLeBytes x = u64ToLeBytes y) : x = y := by
  have hnat := congrArg leToNat h
  unfold u64ToLeBytes at hnat
  rw [leToNat_bytes, leToNat_bytes] at hnat
  have hpow : (256 : ℕ) ^ 8 = 2 ^ 64 := by norm_num
  rwa [hpow, Nat.mod_eq_of_lt hx, Nat.mod_eq_of_lt hy] at hnat

namespace Blake3Use

/-- How BLAKE3 is set up, and what is hashed. -/
def hashed : Blake3Use → Blake3Mode × List UInt8
  | hashToZqMatrix tag input =>
    (.deriveKey RO_DOMAIN_SEPARATOR, u64ToLeBytes tag.length ++ tag ++ input)
  | expand ot_block => (.deriveKey R_DOMAIN_SEPARATOR, List.ofFn ot_block)
  | deriveOtBlock blocks choice => (.hash, otInput blocks choice)
  | maskSumRandomness ot_blocks =>
    (.hash, u32ToLeBytes DOMAIN_MASK_SUM_RANDOMNESS ++
      (List.ofFn fun j => List.ofFn (ot_blocks j)).flatten)

/-- A tag's length fits in its 8 bytes. -/
def TagFits : Blake3Use → Prop
  | hashToZqMatrix tag _ => tag.length < 2 ^ 64
  | expand _ | deriveOtBlock _ _ | maskSumRandomness _ => True

/-- What the use makes of the hash. -/
def Result : Blake3Use → Type
  | hashToZqMatrix _ _ => ZqMatrix
  | expand _ => ℕ → Fin H_ROWS → Zq
  | deriveOtBlock _ _ => Option Block
  | maskSumRandomness _ => CommitmentRandomness

/-- The function of the use. -/
def result (blake3 : Blake3) : (self : Blake3Use) → self.Result
  | hashToZqMatrix tag input => PoolOprf.hashToZqMatrix blake3 tag input
  | expand ot_block => PoolOprf.expand blake3 ot_block
  | deriveOtBlock blocks choice => PoolOprf.deriveOtBlock blake3 blocks choice
  | maskSumRandomness ot_blocks => PoolOprf.maskSumRandomness blake3 ot_blocks

/-- BLAKE3 is given nothing else. -/
theorem result_congr {blake3 blake3' : Blake3} {self : Blake3Use}
    (h : blake3 self.hashed.1 self.hashed.2 = blake3' self.hashed.1 self.hashed.2) :
    self.result blake3 = self.result blake3' := by
  -- Each function asks the hash once, and what it returns is made of that answer alone.
  cases self with
  | hashToZqMatrix tag input =>
    have hstream : blake3 (.deriveKey RO_DOMAIN_SEPARATOR) (u64ToLeBytes tag.length ++ tag ++ input) =
        blake3' (.deriveKey RO_DOMAIN_SEPARATOR) (u64ToLeBytes tag.length ++ tag ++ input) := h
    change PoolOprf.hashToZqMatrix blake3 tag input = PoolOprf.hashToZqMatrix blake3' tag input
    unfold PoolOprf.hashToZqMatrix
    rw [hstream]
  | expand ot_block =>
    have hstream : maskStream blake3 ot_block = maskStream blake3' ot_block := h
    change PoolOprf.expand blake3 ot_block = PoolOprf.expand blake3' ot_block
    unfold PoolOprf.expand
    rw [hstream]
  | deriveOtBlock blocks choice =>
    have hstream : blake3 .hash (otInput blocks choice) = blake3' .hash (otInput blocks choice) := h
    change PoolOprf.deriveOtBlock blake3 blocks choice = PoolOprf.deriveOtBlock blake3' blocks choice
    unfold PoolOprf.deriveOtBlock otOutput
    rw [hstream]
  | maskSumRandomness ot_blocks =>
    have hstream : blake3 .hash (u32ToLeBytes DOMAIN_MASK_SUM_RANDOMNESS ++
          (List.ofFn fun j => List.ofFn (ot_blocks j)).flatten) =
        blake3' .hash (u32ToLeBytes DOMAIN_MASK_SUM_RANDOMNESS ++
          (List.ofFn fun j => List.ofFn (ot_blocks j)).flatten) := h
    change PoolOprf.maskSumRandomness blake3 ot_blocks = PoolOprf.maskSumRandomness blake3' ot_blocks
    unfold PoolOprf.maskSumRandomness
    rw [hstream]

/-- What is hashed tells the use and its arguments. -/
theorem hashed_inj {self other : Blake3Use} (hself : self.TagFits) (hother : other.TagFits)
    (h : self.hashed = other.hashed) : self = other := by
  have hseparators : RO_DOMAIN_SEPARATOR ≠ R_DOMAIN_SEPARATOR := by decide
  obtain ⟨hmode, hbytes⟩ := Prod.mk.inj h
  cases self with
  | hashToZqMatrix tag input =>
    cases other with
    | hashToZqMatrix tag' input' =>
      -- The tag's length comes first, and tells where the tag ends.
      have hbytes' : u64ToLeBytes tag.length ++ tag ++ input =
        u64ToLeBytes tag'.length ++ tag' ++ input' := hbytes
      rw [List.append_assoc, List.append_assoc] at hbytes'
      obtain ⟨hlen, hrest⟩ := List.append_inj hbytes' (by simp [u64ToLeBytes])
      obtain ⟨rfl, rfl⟩ := List.append_inj hrest (u64ToLeBytes_inj hself hother hlen)
      rfl
    | expand ot_block => exact absurd (Blake3Mode.deriveKey.inj hmode) hseparators
    | deriveOtBlock | maskSumRandomness => cases hmode
  | expand ot_block =>
    cases other with
    | hashToZqMatrix tag input => exact absurd (Blake3Mode.deriveKey.inj hmode).symm hseparators
    | expand ot_block' => rw [List.ofFn_injective hbytes]
    | deriveOtBlock | maskSumRandomness => cases hmode
  | deriveOtBlock blocks choice =>
    cases other with
    | hashToZqMatrix | expand => cases hmode
    | deriveOtBlock blocks' choice' =>
      obtain ⟨hblocks, hchoice⟩ := List.append_inj' hbytes rfl
      rw [flatten_blocks_inj hblocks, List.singleton_inj.mp hchoice]
    | maskSumRandomness ot_blocks =>
      -- Four blocks and a byte are fewer bytes than sixteen blocks.
      have hlen := congrArg List.length hbytes
      simp only [otInput, List.length_append, flatten_blocks_length] at hlen
      norm_num [u32ToLeBytes] at hlen
  | maskSumRandomness ot_blocks =>
    cases other with
    | hashToZqMatrix | expand => cases hmode
    | deriveOtBlock blocks choice =>
      have hlen := congrArg List.length hbytes
      simp only [otInput, List.length_append, flatten_blocks_length] at hlen
      norm_num [u32ToLeBytes] at hlen
    | maskSumRandomness ot_blocks' =>
      rw [flatten_blocks_inj (List.append_cancel_left hbytes)]

end Blake3Use

/-! ## Both hashes -/

/-- Whatever two uses of a hash are, with different purposes or different arguments, what is hashed
differs. Each kind of commitment hashes an input that fits in one permutation, which is all that its
digest is made of, and the circuit packs a key as the commitment does. What BLAKE3 is set up with
and given is all that a use of it depends on. -/
theorem hash_inputs_separated :
    (∀ self other : CommitmentUse, (self.width, self.state) = (other.width, other.state) →
      self = other) ∧
    (∀ self : CommitmentUse,
      (Commitment.input self.domain self.elements).length ≤ self.width - CAPACITY ∧
      self.state.length = self.width ∧
      ∀ S, self.digest S = fun i : Fin DIGEST_ELEMENTS => Row.col (self.permute S self.state) i) ∧
    (∀ (sk : SecretKey) (index : ℕ), index < PACKED_KEY_ELEMENTS →
      ∃ element, (packKey sk)[index]? = some element ∧
        KeyAir.packed (keyColumns sk) index = (element : Val)) ∧
    (∀ self other : Blake3Use, self.TagFits → other.TagFits → self.hashed = other.hashed →
      self = other) ∧
    ∀ (blake3 blake3' : Blake3) (self : Blake3Use),
      blake3 self.hashed.1 self.hashed.2 = blake3' self.hashed.1 self.hashed.2 →
        self.result blake3 = self.result blake3' := by
  refine ⟨fun self other h => ?_, fun self => ?_, fun sk index h => packed_keyColumns sk h,
    fun self other hself hother h => Blake3Use.hashed_inj hself hother h,
    fun blake3 blake3' self h => Blake3Use.result_congr h⟩
  · exact CommitmentUse.state_inj (Prod.mk.inj h).2
  · exact ⟨self.input_length_le, self.state_length, fun S => self.digest_eq S⟩

end PoolOprf
