import PoolOprf.Plonky3.PreprocessingCompleteness
import PoolOprf.Lib.Binding

/-!
# Soundness of the preprocessing circuit

A table that passes the rules of the preprocessing circuit opens `pk` on every row, the commitment
at `b̄_i ⊕ sk_i` on the row of block `i`, and `m^v` on every row of evaluation `v`. Where no two
openings of `pk` collide, every row has the same key (`key_eq`), which (S) and (T) copy bit by bit
(`sk_i_eq`). (T) then adds up the masks that (S) opens down the rows of an evaluation, and the row
of the last block ties the sum to what (M) opens there (`mask_sum_eq`). `pinned_of_holds` puts this
together and `preprocessing_sound` is the statement for any table. What the prover's own table opens
is its witness, and nothing else (`keyOpenings_trace`, `maskSumOpenings_trace`,
`masksOpenings_trace`).
-/

namespace PoolOprf

open Row Bits Panic Air Binding

variable {S : Permutations}

namespace PreprocessingAir

/-! ## What a table opens -/

/-- Row `r` of a table. -/
def rowAt (table : List (List Val)) (r : ℕ) : List Val := table.getD r []

/-- The columns of (K) on row `r`. -/
def keyAt (S : Permutations) (table : List (List Val)) (r : ℕ) : List Val :=
  columns (rowAt table r) KEY (MASK_SUM S)

/-- The columns of (M) on row `r`. -/
def maskSumAt (S : Permutations) (table : List (List Val)) (r : ℕ) : List Val :=
  columns (rowAt table r) (MASK_SUM S) (SERVER_MASKS S)

/-- The columns of (S) on row `r`. -/
def serverMasksAt (S : Permutations) (table : List (List Val)) (r : ℕ) : List Val :=
  columns (rowAt table r) (SERVER_MASKS S) (SUM_OF_MASKS S)

/-- The columns of (T) on row `r`. -/
def sumOfMasksAt (S : Permutations) (table : List (List Val)) (r : ℕ) : List Val :=
  columns (rowAt table r) (SUM_OF_MASKS S) (NUM_COLS S)

/-- What the rows of a table open `pk` to. -/
def keyOpenings (S : Permutations) (table : List (List Val)) : Set (List Val) :=
  {x | ∃ r < table.length, x = KeyAir.opened (keyAt S table r)}

/-- What the rows of a table open the `m^v` to. -/
def maskSumOpenings (S : Permutations) (table : List (List Val)) : Set (List Val) :=
  {x | ∃ r < table.length, x = MaskSumAir.opened (maskSumAt S table r)}

/-- What the rows of a table open the `c^v` to. -/
def masksOpenings (S : Permutations) (table : List (List Val)) : Set (List Val) :=
  {x | ∃ r < table.length, x = ServerMasksAir.opened (serverMasksAt S table r)}

section Table

variable {statement : Preprocessing S} {table : List (List Val)}

/-- The row of block `i` in evaluation `v`. -/
def rowOf (v : Fin statement.evaluations.length) (i : ℕ) : ℕ := v * N_TABLE_ROWS + i

theorem rowOf_succ (v : Fin statement.evaluations.length) (i : ℕ) :
    rowOf v i + 1 = rowOf v (i + 1) := Nat.add_assoc _ _ _

theorem rowOf_lt (v : Fin statement.evaluations.length) {i : ℕ} (hi : i < N_TABLE_ROWS) :
    rowOf v i < rows statement.evaluations.length := by
  refine lt_of_lt_of_le ?_ (le_rows _)
  have hv : v.val + 1 ≤ statement.evaluations.length := v.isLt
  have hi' : i < 512 := hi
  have hmul := Nat.mul_le_mul_right 512 hv
  show v.val * 512 + i < statement.evaluations.length * 512
  omega

theorem evaluation_rowOf (v : Fin statement.evaluations.length) {i : ℕ} (hi : i < N_TABLE_ROWS) :
    evaluation (rowOf v i) statement.evaluations.length = v := by
  have hv : v.val + 1 ≤ statement.evaluations.length := v.isLt
  have hi' : i < 512 := hi
  have hdiv : rowOf v i / N_TABLE_ROWS = v := by
    show (v.val * 512 + i) / 512 = v.val
    omega
  rw [evaluation, hdiv]
  exact min_eq_left (Nat.le_sub_one_of_lt v.isLt)

theorem rowOf_mod (v : Fin statement.evaluations.length) {i : ℕ} (hi : i < N_TABLE_ROWS) :
    rowOf v i % N_TABLE_ROWS = i := by
  have hi' : i < 512 := hi
  show (v.val * 512 + i) % 512 = i
  omega

theorem block_rowOf (v : Fin statement.evaluations.length) (i : Fin N) :
    block (rowOf v i) = i := by
  have hi : i.val < 482 := i.isLt
  rw [block, rowOf_mod v (show i.val < 512 by omega)]
  exact Fin.ext (min_eq_left (show i.val ≤ 481 by omega))

/-- The rules on the row of a block, with the statement's values. -/
theorem rowRules_of_holds
    (h : (air S (new statement)).Holds table (publicValues statement))
    (v : Fin statement.evaluations.length) (i : Fin N) :
    RowRules S (rowAt table (rowOf v i)) (rowAt table (rowOf v (i + 1))) statement.pk.digest
      (statement.evaluations.get v).m.digest ((statement.b_bar i).toNat : Val)
      ((statement.evaluations.get v).c i 0).digest ((statement.evaluations.get v).c i 1).digest
      (SumOfMasksAir.flag (0 ≤ i.val ∧ i.val < 1)) (SumOfMasksAir.flag (0 ≤ i.val ∧ i.val < N - 1))
      (SumOfMasksAir.flag (N - 1 ≤ i.val ∧ i.val < N)) (picks i) := by
  have hi : i.val < 482 := i.isLt
  have hlt := rowOf_lt v (show i.val < 512 by omega)
  have hrules := h.rules (rowOf v i) hlt
  -- The next row is in the same evaluation.
  have hnext : (rowOf v i + 1) % (air S (new statement)).height = rowOf v (i + 1) := by
    rw [rowOf_succ]
    exact Nat.mod_eq_of_lt (rowOf_lt v (show i.val + 1 < 512 by omega))
  have hsel : (fun j : Fin N => if i.val = j.val then (1 : Val) else 0) = picks i := by
    funext j
    simp only [picks, Fin.ext_iff, eq_comm]
  have hnew := rules_new statement v hlt (evaluation_rowOf v (show i.val < 512 by omega))
    (rowAt table (rowOf v i)) (rowAt table (rowOf v (i + 1)))
  rw [rowOf_mod v (show i.val < 512 by omega), block_rowOf, hsel] at hnew
  rw [hnext] at hrules
  exact hnew.mp hrules

section Lengths

variable (h : (air S (new statement)).Holds table (publicValues statement)) {r : ℕ}
  (hr : r < rows statement.evaluations.length)

include h hr

theorem rowAt_length : (rowAt table r).length = NUM_COLS S := h.row_length hr

theorem keyAt_length : (keyAt S table r).length = KeyAir.NUM_COLS S := by
  rw [keyAt, columns_length (by
    rw [rowAt_length h hr]; unfold NUM_COLS SUM_OF_MASKS SERVER_MASKS; omega), MASK_SUM]
  omega

theorem maskSumAt_length : (maskSumAt S table r).length = MaskSumAir.NUM_COLS S := by
  rw [maskSumAt, columns_length (by
    rw [rowAt_length h hr]; unfold NUM_COLS SUM_OF_MASKS; omega), SERVER_MASKS]
  omega

theorem serverMasksAt_length : (serverMasksAt S table r).length = ServerMasksAir.NUM_COLS S := by
  rw [serverMasksAt, columns_length (by
    rw [rowAt_length h hr]; unfold NUM_COLS; omega), SUM_OF_MASKS]
  omega

theorem sumOfMasksAt_length : (sumOfMasksAt S table r).length = SumOfMasksAir.NUM_COLS := by
  rw [sumOfMasksAt, columns_length (rowAt_length h hr).ge, NUM_COLS]
  omega

end Lengths

/-! ## The key -/

/-- Without a collision, every block's row holds the key that `pk` commits to. -/
theorem key_eq (hE : 0 < statement.evaluations.length)
    (h : (air S (new statement)).Holds table (publicValues statement))
    (hkey : ¬ Collision (Commitment.commit : List Val → KeyCommitment S) (keyOpenings S table)) :
    ∃ sk, statement.pk = keyCommit sk ∧ keyElements (packKey sk) ∈ keyOpenings S table ∧
      ∀ (v : Fin statement.evaluations.length) (i : Fin N),
        columns (keyAt S table (rowOf v i)) 0 KEY_BITS = keyColumns sk := by
  have hlt : ∀ (v : Fin statement.evaluations.length) (i : Fin N),
      rowOf v i < rows statement.evaluations.length := by
    intro v i
    have hi : i.val < 482 := i.isLt
    exact rowOf_lt v (show i.val < 512 by omega)
  have hrow : ∀ (v : Fin statement.evaluations.length) (i : Fin N), ∃ sk,
      columns (keyAt S table (rowOf v i)) 0 KEY_BITS = keyColumns sk ∧
      KeyAir.opened (keyAt S table (rowOf v i)) = keyElements (packKey sk) ∧
      keyCommit sk = statement.pk := by
    intro v i
    obtain ⟨sk, hbits, hopened, hdigest⟩ := (rowRules_of_holds h v i).key.sound
      (keyAt_length h (hlt v i))
    exact ⟨sk, hbits, hopened, Commitment.eq_of_digest hdigest⟩
  have hmem : ∀ (v : Fin statement.evaluations.length) (i : Fin N) sk,
      KeyAir.opened (keyAt S table (rowOf v i)) = keyElements (packKey sk) →
        keyElements (packKey sk) ∈ keyOpenings S table :=
    fun v i sk hsk => ⟨rowOf v i, by rw [h.height]; exact hlt v i, hsk.symm⟩
  obtain ⟨sk, -, hopened, hpk⟩ := hrow ⟨0, hE⟩ 0
  refine ⟨sk, hpk.symm, hmem _ _ sk hopened, fun v i => ?_⟩
  obtain ⟨sk', hbits', hopened', hpk'⟩ := hrow v i
  -- All rows' keys open `pk`, so they are one key.
  have hcommit : (Commitment.commit (keyElements (packKey sk')) : KeyCommitment S) =
      Commitment.commit (keyElements (packKey sk)) := hpk'.trans hpk.symm
  have heq := eq_of_digest_eq hkey (hmem v i sk' hopened') (hmem _ _ sk hopened) hcommit
  rw [hbits', packKey_elements_inj heq]

/-- The key bit that (T) uses on the row of a block. -/
theorem sk_i_eq (h : (air S (new statement)).Holds table (publicValues statement))
    {v : Fin statement.evaluations.length} {i : Fin N} {sk : SecretKey}
    (hsk : columns (keyAt S table (rowOf v i)) 0 KEY_BITS = keyColumns sk) :
    col (sumOfMasksAt S table (rowOf v i)) SumOfMasksAir.SK_I = ((sk.bits i).toNat : Val) := by
  have hbit := (rowRules_of_holds h v i).key_bit
  rw [select_picks, sub_eq_zero] at hbit
  exact hbit.trans (KeyAir.col_key hsk i)

/-! ## The masks -/

/-- The mask of block `i` and run `k` that (S) opens in evaluation `v`. -/
def maskAt (S : Permutations) (table : List (List Val)) (v : Fin statement.evaluations.length)
    (i : Fin N) (k : Fin RUNS_PER_EVALUATION) : Val :=
  col (serverMasksAt S table (rowOf v i)) (ServerMasksAir.MASKS + k)

/-- The commitment at `b̄_i ⊕ sk_i` opens to the masks on the row of the block. -/
theorem masks_open (hb : ∀ i, (statement.b_bar i).toNat ≤ 1)
    (h : (air S (new statement)).Holds table (publicValues statement))
    {v : Fin statement.evaluations.length} {i : Fin N} {sk : SecretKey}
    (hsk : columns (keyAt S table (rowOf v i)) 0 KEY_BITS = keyColumns sk) :
    ∃ (c : MasksCommitment S) (randomness : List Val),
      index ((statement.evaluations.get v).c i) (statement.b_bar i ^^^ sk.bits i).toNat = some c ∧
      randomness.length = RANDOMNESS_ELEMENTS ∧
      c.OpensIn (masksOpenings S table) (List.ofFn (maskAt S table v i)) randomness := by
  have hi : i.val < 482 := i.isLt
  have hlt := rowOf_lt v (show i.val < 512 by omega)
  have hrules := rowRules_of_holds h v i
  have hwide : 32 ≤ S.wide.COLS := S.wide.width_le
  have hlen : (serverMasksAt S table (rowOf v i)).length = 1 + S.wide.COLS :=
    serverMasksAt_length h hlt
  have hopened : ServerMasksAir.opened (serverMasksAt S table (rowOf v i)) =
      List.ofFn (maskAt S table v i) ++
        columns (serverMasksAt S table (rowOf v i)) 18 23 :=
    CircuitSponge.values_eq_ofFn RUNS_PER_EVALUATION RANDOMNESS_ELEMENTS (show 23 ≤ _ by omega)
  have hcommit := hrules.server_masks.sound hlen
  have hskS : col (serverMasksAt S table (rowOf v i)) ServerMasksAir.SK_I =
      ((sk.bits i).toNat : Val) := hrules.sk_i.trans (sk_i_eq h hsk)
  have hsel := ServerMasksAir.selected_eq (hb i) (sk.binary i) fun b =>
    ((statement.evaluations.get v).c i b).digest
  have hbit : (statement.b_bar i ^^^ sk.bits i).toNat < 2 :=
    xor_toNat_lt_two (hb i) (sk.binary i)
  -- The row's digest is the one at `b̄_i ⊕ sk_i`, which the selection picks out.
  rw [index_of_lt _ hbit, Option.some.injEq] at hsel
  refine ⟨_, columns (serverMasksAt S table (rowOf v i)) 18 23, index_of_lt _ hbit,
    columns_length (show 23 ≤ _ by omega), ⟨rowOf v i, by rw [h.height]; exact hlt, hopened.symm⟩,
    Commitment.eq_of_digest ?_⟩
  rw [← hopened, hsel, ← hskS]
  exact hcommit.symm

/-! ## The mask sums -/

/-- The mask sum of run `k` that (M) opens on the row of the last block of evaluation `v`. -/
def maskSumOf (S : Permutations) (table : List (List Val)) (v : Fin statement.evaluations.length)
    (k : Fin RUNS_PER_EVALUATION) : Val :=
  col (maskSumAt S table (rowOf v (N - 1))) (MaskSumAir.R_SIGMA + k)

/-- `m^v` opens to the mask sums. -/
theorem mask_sums_open (h : (air S (new statement)).Holds table (publicValues statement))
    (v : Fin statement.evaluations.length) : ∃ randomness : List Val,
      randomness.length = RANDOMNESS_ELEMENTS ∧
      (statement.evaluations.get v).m.OpensIn (maskSumOpenings S table)
        (List.ofFn (maskSumOf S table v)) randomness := by
  have hlt := rowOf_lt v (show N - 1 < 512 by norm_num)
  have hwide : 32 ≤ S.wide.COLS := S.wide.width_le
  have hlen : (maskSumAt S table (rowOf v (N - 1))).length = 0 + S.wide.COLS :=
    maskSumAt_length h hlt
  have hopened : MaskSumAir.opened (maskSumAt S table (rowOf v (N - 1))) =
      List.ofFn (maskSumOf S table v) ++ columns (maskSumAt S table (rowOf v (N - 1))) 17 22 :=
    CircuitSponge.values_eq_ofFn RUNS_PER_EVALUATION RANDOMNESS_ELEMENTS (show 22 ≤ _ by omega)
  have hcommit := (rowRules_of_holds h v ⟨N - 1, by norm_num⟩).mask_sum.sound hlen
  refine ⟨columns (maskSumAt S table (rowOf v (N - 1))) 17 22, columns_length (show 22 ≤ _ by omega),
    ⟨rowOf v (N - 1), by rw [h.height]; exact hlt, hopened.symm⟩, Commitment.eq_of_digest ?_⟩
  rw [← hopened]
  exact hcommit.symm

/-- The mask sums are reduced. -/
theorem maskSumOf_lt (h : (air S (new statement)).Holds table (publicValues statement))
    (v : Fin statement.evaluations.length) (k : Fin RUNS_PER_EVALUATION) :
    (maskSumOf S table v k).val < Q := by
  have hlt := rowOf_lt v (show N - 1 < 512 by norm_num)
  have hrules := rowRules_of_holds h v ⟨N - 1, by norm_num⟩
  obtain ⟨value, hvalue, hpack⟩ := SumOfMasksAir.rSigmaBits_spec (sumOfMasksAt_length h hlt)
    (fun bit hbit => hrules.sum_of_masks.bits bit
      (List.mem_cons_of_mem _ (List.mem_append_left _ hbit))) k
  have heq : maskSumOf S table v k = (value : Val) :=
    (hrules.r_sigma_sum k).symm.trans hpack
  have hvalue' : value < 4096 := hvalue
  rw [heq, ZMod.val_natCast_of_lt (show value < 2013265921 by omega)]
  exact hvalue

/-- The mask sum of a run is the sum of its masks, if these are reduced. -/
theorem mask_sum_eq (h : (air S (new statement)).Holds table (publicValues statement))
    {v : Fin statement.evaluations.length} {sk : SecretKey}
    (hsk : ∀ i : Fin N, columns (keyAt S table (rowOf v i)) 0 KEY_BITS = keyColumns sk)
    {k : Fin RUNS_PER_EVALUATION} (hmasks : ∀ i, (maskAt S table v i k).val < Q) :
    (maskSumOf S table v k).val =
      (∑ i, SumOfMasksAir.termNat (sk.bit i) (maskAt S table v i k).val) % Q := by
  have hlt : ∀ i < N, rowOf v i < rows statement.evaluations.length := by
    intro i hi
    have hi' : i < 482 := hi
    exact rowOf_lt v (show i < 512 by omega)
  have hcast : ∀ x : Val, ((x.val : ℕ) : Val) = x := ZMod.natCast_zmod_val
  -- The key bits and the masks as sequences along the rows.
  have hsum := @SumOfMasksAir.r_sigma_eq (fun i => sumOfMasksAt S table (rowOf v i)) k
    (fun i => if hi : i < N then sk.bit ⟨i, hi⟩ else false)
    (fun i => if hi : i < N then (maskAt S table v ⟨i, hi⟩ k).val else 0)
    (fun i hi => sumOfMasksAt_length h (hlt i hi))
    (fun i hi => (rowRules_of_holds h v ⟨i, hi⟩).sum_of_masks)
    (fun i hi => by rw [dif_pos hi, ← sk.bits_toNat]; exact sk_i_eq h (hsk ⟨i, hi⟩))
    (fun i hi => by
      rw [dif_pos hi, hcast]
      exact ((rowRules_of_holds h v ⟨i, hi⟩).masks k).symm)
    (fun i hi => by simp only [dif_pos hi]; exact hmasks ⟨i, hi⟩)
  have hrange : ∑ i ∈ Finset.range N, SumOfMasksAir.termNat
      (if hi : i < N then sk.bit ⟨i, hi⟩ else false)
      (if hi : i < N then (maskAt S table v ⟨i, hi⟩ k).val else 0) =
        ∑ i, SumOfMasksAir.termNat (sk.bit i) (maskAt S table v i k).val := by
    rw [Finset.sum_range]
    refine Finset.sum_congr rfl fun i _ => ?_
    rw [dif_pos i.isLt, dif_pos i.isLt]
  have hrow := (rowRules_of_holds h v ⟨N - 1, by norm_num⟩).r_sigma_sum k
  have heq : maskSumOf S table v k =
      (((∑ i, SumOfMasksAir.termNat (sk.bit i) (maskAt S table v i k).val) % Q : ℕ) : Val) := by
    rw [← hrange]
    exact hrow.symm.trans hsum
  have hmod : (∑ i, SumOfMasksAir.termNat (sk.bit i) (maskAt S table v i k).val) % Q < 4096 :=
    Nat.mod_lt _ (by norm_num)
  rw [heq, ZMod.val_natCast_of_lt (show _ < 2013265921 by omega)]

/-! ## Any table -/

/-- What a table without a collision of the key commitment says of the statement. -/
structure Pinned (statement : Preprocessing S) (table : List (List Val)) (sk : SecretKey)
    (masks : Fin statement.evaluations.length → Fin N → Fin RUNS_PER_EVALUATION → Val)
    (r_sigma_sums : Fin statement.evaluations.length → Fin RUNS_PER_EVALUATION → Val) : Prop where
  /-- `pk` opens to the key. -/
  pk : statement.pk = keyCommit sk
  /-- The table opens it so. -/
  key_mem : keyElements (packKey sk) ∈ keyOpenings S table
  /-- The client's commitment at `b̄_i ⊕ sk_i` opens to the masks. -/
  c : ∀ v i, ∃ (c : MasksCommitment S) (randomness : List Val),
    index ((statement.evaluations.get v).c i) (statement.b_bar i ^^^ sk.bits i).toNat = some c ∧
    randomness.length = RANDOMNESS_ELEMENTS ∧
    c.OpensIn (masksOpenings S table) (List.ofFn (masks v i)) randomness
  /-- `m^v` opens to the mask sums. -/
  m : ∀ v, ∃ randomness : List Val, randomness.length = RANDOMNESS_ELEMENTS ∧
    (statement.evaluations.get v).m.OpensIn (maskSumOpenings S table)
      (List.ofFn (r_sigma_sums v)) randomness
  /-- The mask sums are reduced. -/
  r_sigma_sums_lt : ∀ v k, (r_sigma_sums v k).val < Q
  /-- A mask sum is the sum of the masks, where these are reduced. -/
  r_sigma_sums : ∀ v k, (∀ i, (masks v i k).val < Q) → (r_sigma_sums v k).val =
    (∑ i, SumOfMasksAir.termNat (sk.bit i) (masks v i k).val) % Q

/-- A table that passes the rules pins the statement down. -/
theorem pinned_of_holds (hE : 0 < statement.evaluations.length)
    (hb : ∀ i, (statement.b_bar i).toNat ≤ 1)
    (h : (air S (new statement)).Holds table (publicValues statement))
    (hkey : ¬ Collision (Commitment.commit : List Val → KeyCommitment S) (keyOpenings S table)) :
    ∃ sk masks r_sigma_sums, Pinned statement table sk masks r_sigma_sums := by
  obtain ⟨sk, hpk, hmem, hbits⟩ := key_eq hE h hkey
  exact ⟨sk, maskAt S table, maskSumOf S table, hpk, hmem, fun v i => masks_open hb h (hbits v i),
    mask_sums_open h, maskSumOf_lt h, fun v k hmasks => mask_sum_eq h (hbits v) hmasks⟩

end Table

/-- The sum of the terms mod `q` is the signed sum of the masks mod `q`. -/
theorem sum_termNat_emod {sk : SecretKey} {r : Fin N → ℕ} (hr : ∀ i, r i < Q) :
    (((∑ i, SumOfMasksAir.termNat (sk.bit i) (r i)) % Q : ℕ) : ℤ) =
      (∑ i, (1 - 2 * ((sk.bit i).toNat : ℤ)) * (r i : ℤ)) % (Q : ℤ) := by
  rw [Int.natCast_mod]
  refine (ZMod.intCast_eq_intCast_iff' _ _ Q).mp ?_
  rw [Int.cast_natCast, Nat.cast_sum, Int.cast_sum]
  refine Finset.sum_congr rfl fun i _ => ?_
  rw [SumOfMasksAir.termNat_cast (hr i)]
  cases sk.bit i
  · simp
  · norm_num

/-- Soundness of the preprocessing circuit: a table that passes every rule has a collision of the
key commitment, or there is a key that `pk` commits to such that in every evaluation each commitment
at `b̄_i ⊕ sk_i` opens to masks and `m^v` to reduced sums, which are those of the masks where these
are reduced. -/
theorem preprocessing_sound (statement : Preprocessing S) (hE : 1 ≤ statement.evaluations.length)
    (hb : ∀ i, (statement.b_bar i).toNat ≤ 1) {table : List (List Val)}
    (h : (air S (new statement)).Holds table (publicValues statement)) :
    Collision (Commitment.commit : List Val → KeyCommitment S) (keyOpenings S table) ∨
    ∃ sk : SecretKey, statement.pk = keyCommit sk ∧
      ∀ v : Fin statement.evaluations.length,
        ∃ (masks : Fin N → Fin RUNS_PER_EVALUATION → Val)
          (r_sigma_sums : Fin RUNS_PER_EVALUATION → Val),
          (∀ i, ∃ randomness : List Val, randomness.length = RANDOMNESS_ELEMENTS ∧
            index ((statement.evaluations.get v).c i) (statement.b_bar i ^^^ sk.bits i).toNat =
              some (Commitment.commit (List.ofFn (masks i) ++ randomness))) ∧
          (∃ randomness : List Val, randomness.length = RANDOMNESS_ELEMENTS ∧
            (statement.evaluations.get v).m =
              Commitment.commit (List.ofFn r_sigma_sums ++ randomness)) ∧
          (∀ k, (r_sigma_sums k).val < Q) ∧
          ∀ k, (∀ i, (masks i k).val < Q) → ((r_sigma_sums k).val : ℤ) =
            (∑ i, (1 - 2 * ((sk.bit i).toNat : ℤ)) * ((masks i k).val : ℤ)) % (Q : ℤ) := by
  by_cases hkey : Collision (Commitment.commit : List Val → KeyCommitment S) (keyOpenings S table)
  · exact .inl hkey
  obtain ⟨sk, masks, r_sigma_sums, hpinned⟩ := pinned_of_holds hE hb h hkey
  refine .inr ⟨sk, hpinned.pk, fun v => ⟨masks v, r_sigma_sums v, fun i => ?_, ?_,
    hpinned.r_sigma_sums_lt v, fun k hmasks => ?_⟩⟩
  · obtain ⟨c, randomness, hc, hlen, -, hopen⟩ := hpinned.c v i
    exact ⟨randomness, hlen, hc.trans (congrArg some hopen)⟩
  · obtain ⟨randomness, hlen, -, hopen⟩ := hpinned.m v
    exact ⟨randomness, hlen, hopen⟩
  · rw [hpinned.r_sigma_sums v k hmasks, sum_termNat_emod hmasks]

/-! ## What the prover's table opens -/

section Trace

variable {statement : Preprocessing S} {witness : PreprocessingWitness} {table : List (List Val)}

/-- A row of the prover's table is the prover's row of a block in an evaluation. -/
theorem rowAt_trace (h : statement.Holds witness) (htrace : trace S witness = some table) {r : ℕ}
    (hr : r < table.length) :
    ∃ v ∈ witness.evaluations, ∃ i, rowAt table r = honestRow witness v i S := by
  obtain ⟨hE, heq⟩ := trace_of_holds h
  obtain rfl := Option.some.inj (htrace.symm.trans heq)
  rw [List.length_map, List.length_range] at hr
  refine ⟨evaluationOf hE r, List.get_mem _ _, block r, ?_⟩
  unfold rowAt
  rw [getD_map_range _ hr]

/-- Where proofs are tables, the prover's proof is its table. -/
theorem trace_of_prove {coins : (Stark.transparent Val).Coins} {proof : (Stark.transparent Val).Proof}
    (h : prove (Stark.transparent Val) coins statement witness = some (.ok proof)) :
    trace S witness = some proof := by
  rcases prove_cases (Stark.transparent Val) coins statement witness with
    ⟨-, hfailed⟩ | ⟨table, htrace, -, hproved⟩
  · rw [hfailed] at h
    cases h
  · rw [hproved] at h
    obtain rfl : table = proof := Except.ok.inj (Option.some.inj h)
    exact htrace

/-- The prover's table opens `pk` to its key. -/
theorem keyOpenings_trace (h : statement.Holds witness) (htrace : trace S witness = some table) :
    keyOpenings S table ⊆ {keyElements (packKey witness.sk)} := by
  rintro x ⟨r, hr, rfl⟩
  obtain ⟨v, -, i, hrow⟩ := rowAt_trace h htrace hr
  unfold keyAt
  rw [hrow, honestRow_key]
  exact KeyAir.honestRow_opened witness.sk

/-- The prover's table opens the `m^v` to its evaluations' mask sums. -/
theorem maskSumOpenings_trace (h : statement.Holds witness) (htrace : trace S witness = some table) :
    maskSumOpenings S table ⊆ {x | ∃ v ∈ witness.evaluations,
      x = maskSumElements ⟨v.r_sigma_sums, v.m_randomness⟩} := by
  rintro x ⟨r, hr, rfl⟩
  obtain ⟨v, hv, i, hrow⟩ := rowAt_trace h htrace hr
  refine ⟨v, hv, ?_⟩
  unfold maskSumAt
  rw [hrow, honestRow_mask_sum]
  exact MaskSumAir.honestRow_opened _

/-- The prover's table opens the `c^v` to its evaluations' masks. -/
theorem masksOpenings_trace (h : statement.Holds witness) (htrace : trace S witness = some table) :
    masksOpenings S table ⊆ {x | ∃ v ∈ witness.evaluations, ∃ i,
      x = masksElements ⟨v.masks i, witness.ot_blocks i⟩} := by
  rintro x ⟨r, hr, rfl⟩
  obtain ⟨v, hv, i, hrow⟩ := rowAt_trace h htrace hr
  refine ⟨v, hv, i, ?_⟩
  unfold serverMasksAt
  rw [hrow, honestRow_server_masks]
  exact ServerMasksAir.honestRow_opened _ _

end Trace

/-- The witness of one evaluation with masks of all zeros. -/
def zeroWitness : PreprocessingWitness where
  sk := SecretKey.ofBool fun _ => false
  ot_blocks _ := 0
  evaluations := [
    { masks := fun _ _ => 0
      r_sigma_sums := fun _ => reduceQ (rSigmaNat (SecretKey.ofBool fun _ => false) fun _ => 0)
      m_randomness := 0 }]

/-- The honest statement for the witness of all zeros. -/
def zeroStatement : Preprocessing Permutations.identity :=
  PreprocessingStatement.honest zeroWitness (fun _ => 0) [fun _ _ => masksCommit ⟨fun _ => 0, 0⟩]

theorem zeroStatement_holds : zeroStatement.Holds zeroWitness where
  pk := rfl
  nonempty := List.cons_ne_nil _ _
  length := rfl
  evaluations pair hpair := by
    obtain rfl := List.mem_singleton.mp hpair
    refine ⟨fun _ => Nat.zero_le 1, fun i => ?_, fun _ _ => ?_, fun _ => rfl, rfl⟩
    · exact index_of_lt _ (@xor_toNat_lt_two 0 _ (Nat.zero_le 1) (zeroWitness.sk.binary i))
    · show (0 : UInt16).toNat < 4096
      decide

theorem preprocessing_sound_zeroStatement : ∃ table,
    (air Permutations.identity (new zeroStatement)).Holds table (publicValues zeroStatement) ∧
    (Collision (Commitment.commit : List Val → KeyCommitment Permutations.identity)
        (keyOpenings Permutations.identity table) ∨
      ∃ sk, zeroStatement.pk = keyCommit sk) := by
  have hholds := holds_of_holds zeroStatement_holds (show 0 < 1 from one_pos)
  refine ⟨_, hholds, ?_⟩
  rcases preprocessing_sound zeroStatement (le_refl 1) (fun _ => Nat.zero_le 1) hholds with h | ⟨sk, hpk, -⟩
  · exact .inl h
  · exact .inr ⟨sk, hpk⟩

end PreprocessingAir

end PoolOprf
