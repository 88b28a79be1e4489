import PoolOprf.Plonky3.Sponge

/-!
# The circuits that open commitments

(K), (M), (P), and (S) of `pool-voprf/src/plonky3/constraints/`: each opens a commitment in one
permutation. For each, `row` (or `entries`, `trace`) is what the prover fills in, `Rules` are the
rules on a row, `Rules.sound` says what columns that pass the rules open, and `rules_row` says that
the prover's columns pass.

Offsets into a row are the source's constants. The number of columns depends on Poseidon2's.
-/

namespace PoolOprf

open Row Bits Panic CircuitSponge

variable {S : Permutations}

/-- (K) starts with the key bits, which other constraints read from there. -/
abbrev KEY_BITS : ℕ := N

/-- How many rows the online circuit has. -/
abbrev ROWS : ℕ := 256

/-- `n` rounded up to a power of 2: a table with one row per binary OT. -/
abbrev N_TABLE_ROWS : ℕ := 512

/-- Enough bits for any number up to `n`. -/
abbrev N_BITS : ℕ := 9

namespace Numeral

/-- 2 is a numeral of the field. -/
scoped instance atLeastTwo : Nat.AtLeastTwo 2 := inferInstance

end Numeral

/-! ## (K) -/

namespace KeyAir

/-- Where Poseidon2's columns start. -/
abbrev SPONGE : ℕ := KEY_BITS

/-- Where the packed key starts. -/
abbrev PACKED_KEY : ℕ := SPONGE + 1

/-- The columns of (K). -/
def NUM_COLS (S : Permutations) : ℕ := SPONGE + S.wide.COLS

/-- The row for `sk`. -/
def row (S : Permutations) (sk : SecretKey) : Option (List Val) := do
  let bits := List.ofFn fun i => if sk.bits i = 1 then (1 : Val) else 0
  let hash ← trace S.wide (Commitment.input DOMAIN_KEY (keyElements (packKey sk)))
  some (bits ++ hash)

/-- Element `index` of the packed key, from the key's bit columns. -/
def packed (bits : List Val) (index : ℕ) : Val :=
  ((keyChunk bits index).zipIdx.map fun bit => bit.1 * ((1 <<< bit.2 : ℕ) : Val)).sum

/-- The rules for (K) on the row, for `pk`. -/
structure Rules (S : Permutations) (row : List Val) (pk : Fin DIGEST_ELEMENTS → Val) : Prop where
  /-- Every key bit is 0 or 1. -/
  bits : ∀ bit ∈ columns row 0 KEY_BITS, AssertBool bit
  /-- Poseidon2's input is the key bits, packed. -/
  packed : ∀ index < PACKED_KEY_ELEMENTS,
    col row (PACKED_KEY + index) = packed (columns row 0 KEY_BITS) index
  /-- The key's commitment is `pk`. -/
  commitment : EvalCommitment S.wide row SPONGE (DOMAIN_KEY : ℕ) PACKED_KEY_ELEMENTS pk

/-- The values that a row's commitment opens. -/
def opened (row : List Val) : List Val := values row SPONGE PACKED_KEY_ELEMENTS

/-- A sum of columns times powers of two is the packed number. -/
theorem sum_zipIdx (bits : List Val) (position : ℕ) :
    ((bits.zipIdx position).map fun bit => bit.1 * ((1 <<< bit.2 : ℕ) : Val)).sum =
      2 ^ position * packBitsLe bits := by
  induction bits generalizing position with
  | nil => simp [packBitsLe]
  | cons bit bits ih =>
    rw [List.zipIdx_cons, List.map_cons, List.sum_cons, ih, packBitsLe, Nat.one_shiftLeft]
    push_cast
    ring

theorem packed_eq (bits : List Val) (index : ℕ) :
    packed bits index = packBitsLe (keyChunk bits index) := by
  rw [packed, sum_zipIdx, pow_zero, one_mul]

/-- Columns that are bits are the columns of a key. -/
theorem exists_keyColumns {bits : List Val} (hlen : bits.length = N)
    (hbits : ∀ bit ∈ bits, AssertBool bit) : ∃ sk, bits = keyColumns sk := by
  refine ⟨SecretKey.ofBool fun i => decide (col bits i = 1), ext_col ?_ fun c hc => ?_⟩
  · rw [hlen, keyColumns_length]
  have hcN : c < N := by omega
  have hbool : AssertBool (col bits c) := by
    rw [col_eq_getElem hc]
    exact hbits _ (List.getElem_mem _)
  have hkey := col_ofFn (fun i : Fin N =>
    (((SecretKey.ofBool fun i => decide (col bits i = 1)).bits i).toNat : Val)) ⟨c, hcN⟩
  rw [keyColumns]
  refine Eq.trans ?_ hkey.symm
  rw [SecretKey.bits_toNat, SecretKey.bit_ofBool]
  rcases assertBool_iff.mp hbool with h | h
  · rw [h]
    simp
  · rw [h]
    simp

/-- Columns that pass the rules hold a key and open `pk` to it. -/
theorem Rules.sound {row : List Val} {pk : Fin DIGEST_ELEMENTS → Val}
    (hrow : row.length = NUM_COLS S) (h : Rules S row pk) :
    ∃ sk, columns row 0 KEY_BITS = keyColumns sk ∧ opened row = keyElements (packKey sk) ∧
      (keyCommit sk : KeyCommitment S).digest = pk := by
  have hwide : 32 ≤ S.wide.COLS := S.wide.width_le
  have hcols : row.length = 482 + S.wide.COLS := hrow
  obtain ⟨sk, hsk⟩ := exists_keyColumns (columns_length (show 482 ≤ row.length by omega)) h.bits
  have hlen : (opened row).length = 17 := columns_length (show 500 ≤ row.length by omega)
  have hopened : opened row = keyElements (packKey sk) := by
    rw [keyElements_packKey, ← hsk]
    refine ext_col ?_ fun c hc => ?_
    · rw [hlen, List.length_map, List.length_range]
    have hc17 : c < 17 := by omega
    have hcol : col (opened row) c = col row (PACKED_KEY + c) :=
      col_columns row 483 500 c (by omega)
    rw [hcol, h.packed c hc17, packed_eq, col_eq_getElem (by simpa using hc17)]
    simp
  refine ⟨sk, hsk, hopened, ?_⟩
  rw [keyCommit, Commitment.commit_wide (by norm_num), ← hopened]
  exact h.commitment.hash_eq hcols.ge (by norm_num) (by norm_num)

/-- The prover's row. -/
def honestRow (S : Permutations) (sk : SecretKey) : List Val :=
  keyColumns sk ++ S.wide.generate
    (Poseidon2.state WIDTH (Commitment.input DOMAIN_KEY (keyElements (packKey sk))))

theorem input_length (sk : SecretKey) :
    (Commitment.input DOMAIN_KEY (keyElements (packKey sk))).length = 18 := by
  rw [Commitment.input, List.length_cons, keyElements_packKey_length]

theorem row_eq (sk : SecretKey) : row S sk = some (honestRow S sk) := by
  have hbits : (List.ofFn fun i => if sk.bits i = 1 then (1 : Val) else 0) = keyColumns sk := by
    rw [keyColumns]
    congr 1
    funext i
    rw [sk.bits_eq]
    cases sk.bit i <;> decide
  rw [row, trace_eq S.wide (by rw [input_length]; norm_num), hbits]
  rfl

theorem honestRow_length (sk : SecretKey) : (honestRow S sk).length = NUM_COLS S := by
  rw [honestRow, List.length_append, keyColumns_length, S.wide.generate_length]
  · rfl
  · exact Poseidon2.state_length (by rw [input_length]; norm_num)

theorem honestRow_bits (sk : SecretKey) : columns (honestRow S sk) 0 KEY_BITS = keyColumns sk := by
  have h := columns_append_left (keyColumns sk) (S.wide.generate
    (Poseidon2.state WIDTH (Commitment.input DOMAIN_KEY (keyElements (packKey sk)))))
  rwa [keyColumns_length] at h

theorem key_bits_le (S : Permutations) : KEY_BITS ≤ NUM_COLS S := Nat.le_add_right KEY_BITS _

/-- Both circuits start with the columns of (K). -/
theorem honestRow_length_layout (sk : SecretKey) : (honestRow S sk).length = 0 + NUM_COLS S := by
  rw [honestRow_length, Nat.zero_add]

/-- A key bit of a row of either. -/
theorem col_key {row : List Val} {sk : SecretKey}
    (h : columns (columns row 0 (0 + NUM_COLS S)) 0 KEY_BITS = keyColumns sk) (i : Fin N) :
    col row (0 + i) = ((sk.bits i).toNat : Val) := by
  have hi : i.val < 482 := i.isLt
  have hlt : 0 + i.val < 0 + NUM_COLS S := Nat.add_lt_add_left (lt_of_lt_of_le hi (key_bits_le S)) 0
  calc col row (0 + i) = col (columns row 0 (0 + NUM_COLS S)) (0 + i) := by
        rw [col_columns row 0 (0 + NUM_COLS S) (0 + i) (by omega), ← Nat.add_assoc]
    _ = col (columns (columns row 0 (0 + NUM_COLS S)) 0 KEY_BITS) i := by
        rw [col_columns _ 0 482 i (by omega)]
    _ = ((sk.bits i).toNat : Val) := by rw [h, keyColumns, col_ofFn fun i => ((sk.bits i).toNat : Val)]

theorem honestRow_opened (sk : SecretKey) :
    opened (honestRow S sk) = keyElements (packKey sk) := by
  have h := values_generate S.wide (DOMAIN_KEY : Val) (keyColumns sk) []
    (keyElements_packKey_length sk) (by norm_num)
  rwa [List.append_nil, keyColumns_length] at h

/-- The prover's row passes the rules. -/
theorem rules_row (sk : SecretKey) :
    Rules S (honestRow S sk) (keyCommit sk : KeyCommitment S).digest where
  bits := by
    rw [honestRow_bits]
    exact assertBool_keyColumns sk
  packed index hindex := by
    have hcol : col (opened (honestRow S sk)) index = col (honestRow S sk) (PACKED_KEY + index) := by
      rw [opened, values, col_columns _ _ _ _ (by omega)]
    rw [← hcol, honestRow_opened, keyElements_packKey, honestRow_bits, packed_eq,
      col_eq_getElem (by simpa using hindex)]
    simp
  commitment := by
    have h := evalCommitment_generate S.wide (DOMAIN_KEY : Val)
      (keyColumns sk) [] (keyElements_packKey_length sk) (by norm_num) (by norm_num)
    rw [List.append_nil, keyColumns_length] at h
    rw [keyCommit, Commitment.commit_wide (by norm_num)]
    exact h

end KeyAir

/-! ## (M) -/

namespace MaskSumAir

/-- Where Poseidon2's columns start. -/
abbrev SPONGE : ℕ := 0

/-- Where the mask sums start. -/
abbrev R_SIGMA : ℕ := SPONGE + 1

/-- Where the random value starts. -/
abbrev RANDOMNESS : ℕ := R_SIGMA + RUNS_PER_EVALUATION

/-- The columns of (M). -/
def NUM_COLS (S : Permutations) : ℕ := SPONGE + S.wide.COLS

/-- The row for the mask sum of each run and their random value. -/
def row (S : Permutations) (r_sigma_sum : Fin RUNS_PER_EVALUATION → Zq)
    (randomness : CommitmentRandomness) : Option (List Val) :=
  trace S.wide (Commitment.input DOMAIN_MASK_SUM (maskSumElements ⟨r_sigma_sum, randomness⟩))

/-- The rules for (M) on the row, for `m^v`. -/
def Rules (S : Permutations) (row : List Val) (m : Fin DIGEST_ELEMENTS → Val) : Prop :=
  EvalCommitment S.wide row SPONGE (DOMAIN_MASK_SUM : ℕ) VALUE_ELEMENTS m

/-- The values that a row's commitment opens. -/
def opened (row : List Val) : List Val := values row SPONGE VALUE_ELEMENTS

/-- Columns that pass the rules open `m^v`. -/
theorem Rules.sound {row : List Val} {m : Fin DIGEST_ELEMENTS → Val}
    (hrow : row.length = NUM_COLS S) (h : Rules S row m) :
    (Commitment.commit (opened row) : MaskSumCommitment S).digest = m := by
  rw [Commitment.commit_wide (by norm_num)]
  exact EvalCommitment.hash_eq h hrow.ge (by norm_num) (by norm_num)

/-- The prover's row. -/
def honestRow (S : Permutations) (input : MaskSumsInput) : List Val :=
  S.wide.generate
    (Poseidon2.state WIDTH (Commitment.input DOMAIN_MASK_SUM (maskSumElements input)))

theorem input_length (input : MaskSumsInput) :
    (Commitment.input DOMAIN_MASK_SUM (maskSumElements input)).length = 22 := by
  rw [Commitment.input, List.length_cons, maskSumElements_length]
  rfl

theorem row_eq (r_sigma_sum : Fin RUNS_PER_EVALUATION → Zq) (randomness : CommitmentRandomness) :
    row S r_sigma_sum randomness = some (honestRow S ⟨r_sigma_sum, randomness⟩) :=
  trace_eq S.wide (by rw [input_length]; norm_num)

theorem honestRow_length (input : MaskSumsInput) :
    (honestRow S input).length = NUM_COLS S := by
  rw [honestRow, S.wide.generate_length, NUM_COLS, Nat.zero_add]
  exact Poseidon2.state_length (by rw [input_length]; norm_num)

theorem honestRow_opened (input : MaskSumsInput) :
    opened (honestRow S input) = maskSumElements input := by
  have h := values_generate S.wide (DOMAIN_MASK_SUM : Val) [] []
    (maskSumElements_length input) (by norm_num)
  rwa [List.append_nil] at h

/-- The prover's row passes the rules. -/
theorem rules_row (input : MaskSumsInput) :
    Rules S (honestRow S input) (maskSumCommit input : MaskSumCommitment S).digest := by
  have h := evalCommitment_generate S.wide (DOMAIN_MASK_SUM : Val) [] []
    (maskSumElements_length input) (by norm_num) (by norm_num)
  rw [List.append_nil] at h
  rw [maskSumCommit, Commitment.commit_wide (by norm_num)]
  exact h

/-- The mask sums of the prover's row. -/
theorem honestRow_r_sigma (input : MaskSumsInput) :
    columns (honestRow S input) R_SIGMA RANDOMNESS = runColumns input.r_sigma_sums := by
  have h := columns_columns (honestRow S input) (SPONGE + 1)
    (SPONGE + 1 + VALUE_ELEMENTS) 0 RUNS_PER_EVALUATION (by norm_num)
  have hopen : columns (honestRow S input) (SPONGE + 1) (SPONGE + 1 + VALUE_ELEMENTS) =
      maskSumElements input := honestRow_opened input
  rw [hopen, maskSumElements] at h
  have hleft := columns_append_left (runColumns input.r_sigma_sums)
    (packRandomness input.randomness)
  rw [runColumns_length] at hleft
  rw [← h, hleft]

end MaskSumAir

/-! ## (P) -/

namespace PadsAir

/-- Where Poseidon2's columns start. -/
abbrev SPONGE : ℕ := 0

/-- Where the pad is. -/
abbrev PAD : ℕ := SPONGE + 1

/-- The columns of (P). -/
def NUM_COLS (S : Permutations) : ℕ := SPONGE + S.narrow.COLS

/-- The `Δ` entries, one row each: entry `j` on row `j`. -/
def entries (S : Permutations) (pads : Fin DELTA → Zp)
    (randomness : Fin DELTA → CommitmentRandomness) : Option (List Val) := do
  let rows ← fromFn fun j =>
    trace S.narrow (Commitment.input DOMAIN_PAD (padElements ⟨pads j, randomness j⟩))
  some (List.ofFn rows).flatten

/-- The rules for (P) on the row: its pad and random value hash to `hash`. -/
def Rules (S : Permutations) (row : List Val) (hash : Fin DIGEST_ELEMENTS → Val) : Prop :=
  EvalCommitment S.narrow row SPONGE (DOMAIN_PAD : ℕ) PAIR_ELEMENTS hash

/-- The values that a row's commitment opens. -/
def opened (row : List Val) : List Val := values row SPONGE PAIR_ELEMENTS

/-- Columns that pass the rules open `hash`. -/
theorem Rules.sound {row : List Val} {hash : Fin DIGEST_ELEMENTS → Val}
    (hrow : row.length = NUM_COLS S) (h : Rules S row hash) :
    (Commitment.commit (opened row) : PadCommitment S).digest = hash := by
  rw [Commitment.commit_narrow (by norm_num)]
  exact EvalCommitment.hash_eq h hrow.ge (by norm_num) (by norm_num)

/-- What a row opens is a pad and a random value. -/
theorem opened_eq {row : List Val} (hrow : row.length = NUM_COLS S) :
    opened row = col row PAD :: columns row (PAD + 1) (PAD + 1 + RANDOMNESS_ELEMENTS) := by
  have hnarrow : 16 ≤ S.narrow.COLS := S.narrow.width_le
  have hcols : row.length = 0 + S.narrow.COLS := hrow
  have hlen : PAD < row.length := show 1 < row.length by omega
  rw [opened, values, ← columns_append_columns row (b := PAD + 1) (by norm_num) (by norm_num),
    columns_one hlen]
  rfl

/-- The prover's entry. -/
def honestRow (S : Permutations) (input : PadInput) : List Val :=
  S.narrow.generate
    (Poseidon2.state NARROW_WIDTH (Commitment.input DOMAIN_PAD (padElements input)))

theorem input_length (input : PadInput) :
    (Commitment.input DOMAIN_PAD (padElements input)).length = 7 := by
  rw [Commitment.input, List.length_cons, padElements_length]
  rfl

theorem entries_eq (pads : Fin DELTA → Zp) (randomness : Fin DELTA → CommitmentRandomness) :
    entries S pads randomness =
      some (List.ofFn fun j => honestRow S ⟨pads j, randomness j⟩).flatten := by
  rw [entries, fromFn_eq_some_iff.mpr fun j =>
    trace_eq S.narrow (by rw [input_length]; norm_num)]
  rfl

theorem honestRow_length (input : PadInput) : (honestRow S input).length = NUM_COLS S := by
  rw [honestRow, S.narrow.generate_length, NUM_COLS, Nat.zero_add]
  exact Poseidon2.state_length (by rw [input_length]; norm_num)

/-- The prover's entry passes the rules. -/
theorem rules_row (input : PadInput) :
    Rules S (honestRow S input) (padCommit input : PadCommitment S).digest := by
  have h := evalCommitment_generate S.narrow (DOMAIN_PAD : Val) [] []
    (padElements_length input) (by norm_num) (by norm_num)
  rw [List.append_nil] at h
  rw [padCommit, Commitment.commit_narrow (by norm_num)]
  exact h

theorem honestRow_opened (input : PadInput) :
    opened (honestRow S input) = padElements input := by
  have h := values_generate S.narrow (DOMAIN_PAD : Val) [] []
    (padElements_length input) (by norm_num)
  rwa [List.append_nil] at h

/-- The pad of the prover's entry. -/
theorem honestRow_pad (input : PadInput) :
    col (honestRow S input) PAD = (input.pad.toNat : Val) := by
  have hcons := opened_eq (S := S) (honestRow_length input)
  rw [honestRow_opened, padElements] at hcons
  exact (List.cons.inj hcons).1.symm

end PadsAir

/-! ## (S) -/

namespace ServerMasksAir

open scoped Numeral

/-- Where the key bit is. -/
abbrev SK_I : ℕ := 0

/-- Where Poseidon2's columns start. -/
abbrev SPONGE : ℕ := SK_I + 1

/-- Where the masks start. -/
abbrev MASKS : ℕ := SPONGE + 1

/-- The columns of (S). -/
def NUM_COLS (S : Permutations) : ℕ := SPONGE + S.wide.COLS

/-- The rows of the table, one per binary OT, the last repeated. -/
def table (S : Permutations) (sk : SecretKey) (masks : Fin N → Fin RUNS_PER_EVALUATION → Zq)
    (ot_blocks : Fin N → CommitmentRandomness) : Option (Fin N_TABLE_ROWS → List Val) :=
  fromFn fun row => do
    let i : Fin N := ⟨min row.val (N - 1), lt_of_le_of_lt (min_le_right _ _) (by norm_num)⟩
    let hash ← trace S.wide
      (Commitment.input DOMAIN_MASKS (masksElements ⟨masks i, ot_blocks i⟩))
    some (((sk.bits i).toNat : Val) :: hash)

/-- The digest that the row's commitment has to end in. -/
def selected (sk_i b_bar_i : Val) (c_0 c_1 : Fin DIGEST_ELEMENTS → Val) :
    Fin DIGEST_ELEMENTS → Val :=
  let b_i := b_bar_i + sk_i - b_bar_i * sk_i * 2
  fun e => c_0 e + b_i * (c_1 e - c_0 e)

/-- The rules for (S) on the row. -/
structure Rules (S : Permutations) (row : List Val) (b_bar_i : Val)
    (c_0 c_1 : Fin DIGEST_ELEMENTS → Val) : Prop where
  /-- The key bit is 0 or 1. -/
  sk_i : AssertBool (col row SK_I)
  /-- The masks and the OT block hash to the client's commitment. -/
  commitment : EvalCommitment S.wide row SPONGE (DOMAIN_MASKS : ℕ) VALUE_ELEMENTS
    (selected (col row SK_I) b_bar_i c_0 c_1)

/-- The values that a row's commitment opens. -/
def opened (row : List Val) : List Val := values row SPONGE VALUE_ELEMENTS

/-- Columns that pass the rules open the selected commitment. -/
theorem Rules.sound {row : List Val} {b_bar_i : Val} {c_0 c_1 : Fin DIGEST_ELEMENTS → Val}
    (hrow : row.length = NUM_COLS S) (h : Rules S row b_bar_i c_0 c_1) :
    (Commitment.commit (opened row) : MasksCommitment S).digest =
      selected (col row SK_I) b_bar_i c_0 c_1 := by
  rw [Commitment.commit_wide (by norm_num)]
  exact EvalCommitment.hash_eq h.commitment hrow.ge (by norm_num) (by norm_num)

/-- The selected commitment is the one at `b̄_i ⊕ sk_i`. -/
theorem selected_eq {b s : UInt8} (hb : b.toNat ≤ 1) (hs : s.toNat ≤ 1)
    (c : Fin 2 → Fin DIGEST_ELEMENTS → Val) :
    index c (b ^^^ s).toNat = some (selected (s.toNat : Val) (b.toNat : Val) (c 0) (c 1)) := by
  have hbit : ∀ x : UInt8, x.toNat ≤ 1 → x = 0 ∨ x = 1 := by
    intro x hx
    simp only [← UInt8.toNat_inj]
    have h0 : (0 : UInt8).toNat = 0 := rfl
    have h1 : (1 : UInt8).toNat = 1 := rfl
    omega
  have h00 : ((0 : UInt8) ^^^ 0).toNat = 0 := rfl
  have h01 : ((0 : UInt8) ^^^ 1).toNat = 1 := rfl
  have h10 : ((1 : UInt8) ^^^ 0).toNat = 1 := rfl
  have h11 : ((1 : UInt8) ^^^ 1).toNat = 0 := rfl
  have hn0 : (0 : UInt8).toNat = 0 := rfl
  have hn1 : (1 : UInt8).toNat = 1 := rfl
  have hc0 : index c 0 = some (c 0) := index_val c 0
  have hc1 : index c 1 = some (c 1) := index_val c 1
  rcases hbit b hb with rfl | rfl <;> rcases hbit s hs with rfl | rfl
  · rw [h00, hc0, hn0]
    simp [selected]
  · rw [h01, hc1, hn0, hn1]
    simp [selected]
  · rw [h10, hc1, hn0, hn1]
    simp [selected]
  · rw [h11, hc0, hn1]
    norm_num [selected]

/-- The prover's row for a binary OT. -/
def honestRow (S : Permutations) (sk_i : UInt8) (input : MasksInput) : List Val :=
  (sk_i.toNat : Val) :: S.wide.generate
    (Poseidon2.state WIDTH (Commitment.input DOMAIN_MASKS (masksElements input)))

theorem input_length (input : MasksInput) :
    (Commitment.input DOMAIN_MASKS (masksElements input)).length = 22 := by
  rw [Commitment.input, List.length_cons, masksElements_length]
  rfl

/-- The binary OT that a row is for. The rows after the last count as the last. -/
def blockOf (row : ℕ) : Fin N :=
  ⟨min row (N - 1), lt_of_le_of_lt (min_le_right _ _) (by norm_num)⟩

theorem table_eq (sk : SecretKey) (masks : Fin N → Fin RUNS_PER_EVALUATION → Zq)
    (ot_blocks : Fin N → CommitmentRandomness) :
    table S sk masks ot_blocks = some fun row : Fin N_TABLE_ROWS => honestRow S (sk.bits (blockOf row))
      ⟨masks (blockOf row), ot_blocks (blockOf row)⟩ := by
  refine fromFn_eq_some_iff.mpr fun row => ?_
  simp only [Option.bind_eq_bind]
  rw [trace_eq S.wide (by rw [input_length]; norm_num)]
  rfl

theorem honestRow_length (sk_i : UInt8) (input : MasksInput) :
    (honestRow S sk_i input).length = NUM_COLS S := by
  rw [honestRow, List.length_cons, S.wide.generate_length, NUM_COLS, Nat.add_comm]
  exact Poseidon2.state_length (by rw [input_length]; norm_num)

theorem honestRow_sk_i (sk_i : UInt8) (input : MasksInput) :
    col (honestRow S sk_i input) SK_I = (sk_i.toNat : Val) := rfl

/-- The prover's row passes the rules. -/
theorem rules_row {sk_i b_bar_i : UInt8} {input : MasksInput} {c : Fin 2 → MasksCommitment S}
    (hs : sk_i.toNat ≤ 1) (hb : b_bar_i.toNat ≤ 1)
    (hc : index c (b_bar_i ^^^ sk_i).toNat = some (masksCommit input)) :
    Rules S (honestRow S sk_i input) (b_bar_i.toNat : Val) (c 0).digest (c 1).digest where
  sk_i := by
    rw [honestRow_sk_i]
    have hcases : sk_i.toNat = 0 ∨ sk_i.toNat = 1 := by omega
    rcases hcases with h | h
    · rw [h, Nat.cast_zero]; exact assertBool_zero
    · rw [h, Nat.cast_one]; exact assertBool_one
  commitment := by
    have h := evalCommitment_generate S.wide (DOMAIN_MASKS : Val)
      [(sk_i.toNat : Val)] [] (masksElements_length input) (by norm_num) (by norm_num)
    rw [List.append_nil] at h
    have hlt : (b_bar_i ^^^ sk_i).toNat < 2 := xor_toNat_lt_two hb hs
    have hsel := selected_eq hb hs fun e => (c e).digest
    rw [index_of_lt _ hlt] at hsel hc
    have hdigest : (c ⟨(b_bar_i ^^^ sk_i).toNat, hlt⟩).digest =
        S.wide.hash ((DOMAIN_MASKS : Val) :: masksElements input) := by
      rw [Option.some.inj hc, masksCommit, Commitment.commit_wide (by norm_num)]
      rfl
    rw [honestRow_sk_i, ← Option.some.inj hsel, hdigest]
    exact h

theorem honestRow_opened (sk_i : UInt8) (input : MasksInput) :
    opened (honestRow S sk_i input) = masksElements input := by
  have h := values_generate S.wide (DOMAIN_MASKS : Val)
    [(sk_i.toNat : Val)] [] (masksElements_length input) (by norm_num)
  rwa [List.append_nil] at h

/-- The masks of the prover's row. -/
theorem honestRow_masks (sk_i : UInt8) (input : MasksInput) (k : Fin RUNS_PER_EVALUATION) :
    col (honestRow S sk_i input) (MASKS + k) = ((input.masks k).toNat : Val) := by
  have hopened : columns (honestRow S sk_i input) (SPONGE + 1) (SPONGE + 1 + VALUE_ELEMENTS) =
      masksElements input := honestRow_opened sk_i input
  have hk : k.val < RUNS_PER_EVALUATION := k.isLt
  rw [← col_columns (honestRow S sk_i input) MASKS (SPONGE + 1 + VALUE_ELEMENTS) _ (by grind),
    hopened, masksElements, col_append_left (by simp), runColumns, col_ofFn]

end ServerMasksAir

end PoolOprf
