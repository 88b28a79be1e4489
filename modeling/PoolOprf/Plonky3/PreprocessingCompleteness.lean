import PoolOprf.Plonky3.Preprocessing
import PoolOprf.Plonky3.System

/-!
# Completeness of the preprocessing circuit

The prover's table for a statement and a witness that satisfy the relation. `trace_eq` says what its
rows are, one per number below `rows`, and `holds_of_holds` that each passes the rules. What the
rules of (T) ask of the next row they ask only within an evaluation: there the next row is of the
same evaluation and of the next block (`evaluation_succ`), also where the table's rows go on past
the last evaluation, and the step from the last row of the table to the first is never one of these.
-/

namespace PoolOprf

open Row Bits Panic Air

variable {S : Permutations}

namespace PreprocessingAir

/-! ## The prover's table -/

/-- (K) is `k_row`, (S) is for `s_witness`, (M) and (T) are for `witness`. -/
def table (S : Permutations) (k_row : List Val) (s_witness witness : PreprocessingWitness) :
    Option (List (List Val)) := do
  let evaluations := witness.evaluations.length
  let m_rows ← witness.evaluations.mapM fun v => MaskSumAir.row S v.r_sigma_sums v.m_randomness
  let s_tables ← s_witness.evaluations.mapM fun v =>
    ServerMasksAir.table S s_witness.sk v.masks s_witness.ot_blocks
  let t_tables ← witness.evaluations.mapM fun v => SumOfMasksAir.table witness.sk v.masks
  let values ← (List.range (rows evaluations)).mapM fun row => do
    let v := evaluation row evaluations
    let i := row % N_TABLE_ROWS
    let m_row ← m_rows[v]?
    let s_row ← index (← s_tables[v]?) i
    let t_row ← index (← t_tables[v]?) i
    some (k_row ++ (m_row ++ (s_row ++ t_row)))
  some (chunksExact (NUM_COLS S) values.flatten)

/-- The prover's table. -/
def trace (S : Permutations) (witness : PreprocessingWitness) : Option (List (List Val)) := do
  table S (← KeyAir.row S witness.sk) witness witness

/-! ## The prover's rows -/

section HonestRow

variable (witness : PreprocessingWitness) (v : EvaluationWitness) (i : Fin N)

/-- The columns of (K). -/
abbrev keyPart (S : Permutations) : List Val := KeyAir.honestRow S witness.sk

/-- The columns of (M) on the rows of an evaluation. -/
abbrev maskSumPart (S : Permutations) : List Val :=
  MaskSumAir.honestRow S ⟨v.r_sigma_sums, v.m_randomness⟩

/-- The columns of (S) on the row of block `i` of an evaluation. -/
def serverMasksPart (S : Permutations) : List Val :=
  ServerMasksAir.honestRow S (witness.sk.bits i) ⟨v.masks i, witness.ot_blocks i⟩

/-- The columns of (T) on the row of block `i` of an evaluation. -/
def sumOfMasksPart : List Val := SumOfMasksAir.honestRow witness.sk v.masks i

/-- The prover's row of block `i` of an evaluation. -/
def honestRow (S : Permutations) : List Val :=
  keyPart witness S ++ (maskSumPart v S ++ (serverMasksPart witness v i S ++
    sumOfMasksPart witness v i))

theorem serverMasksPart_length :
    (serverMasksPart witness v i S).length = ServerMasksAir.NUM_COLS S :=
  ServerMasksAir.honestRow_length _ _

theorem sumOfMasksPart_length :
    (sumOfMasksPart witness v i).length = SumOfMasksAir.NUM_COLS :=
  SumOfMasksAir.honestRow_length _ _ _

theorem honestRow_length : (honestRow witness v i S).length = NUM_COLS S := by
  rw [honestRow, List.length_append, List.length_append, List.length_append,
    KeyAir.honestRow_length_layout, MaskSumAir.honestRow_length, serverMasksPart_length,
    sumOfMasksPart_length, NUM_COLS, SUM_OF_MASKS, SERVER_MASKS, MASK_SUM, KEY]
  omega

theorem honestRow_key :
    columns (honestRow witness v i S) KEY (MASK_SUM S) = keyPart witness S := by
  rw [MASK_SUM, ← KeyAir.honestRow_length_layout witness.sk]
  exact columns_append_left _ _

theorem honestRow_mask_sum :
    columns (honestRow witness v i S) (MASK_SUM S) (SERVER_MASKS S) = maskSumPart v S := by
  rw [SERVER_MASKS, MASK_SUM, ← KeyAir.honestRow_length_layout witness.sk,
    ← MaskSumAir.honestRow_length ⟨v.r_sigma_sums, v.m_randomness⟩]
  exact columns_part _ _ _

theorem honestRow_server_masks :
    columns (honestRow witness v i S) (SERVER_MASKS S) (SUM_OF_MASKS S) =
      serverMasksPart witness v i S := by
  have h := columns_part (keyPart witness S ++ maskSumPart v S) (serverMasksPart witness v i S)
    (sumOfMasksPart witness v i)
  rw [List.append_assoc, List.length_append, KeyAir.honestRow_length_layout,
    MaskSumAir.honestRow_length, serverMasksPart_length] at h
  exact h

theorem honestRow_sum_of_masks :
    columns (honestRow witness v i S) (SUM_OF_MASKS S) (NUM_COLS S) =
      sumOfMasksPart witness v i := by
  have h := columns_part (keyPart witness S ++ (maskSumPart v S ++ serverMasksPart witness v i S))
    (sumOfMasksPart witness v i) []
  rw [List.append_nil, List.append_assoc, List.append_assoc, List.length_append, List.length_append,
    KeyAir.honestRow_length_layout, MaskSumAir.honestRow_length, serverMasksPart_length, sumOfMasksPart_length,
    ← Nat.add_assoc] at h
  exact h

/-- The key bits of the prover's row. -/
theorem honestRow_bit (j : Fin N) :
    col (honestRow witness v i S) (KEY + j) = ((witness.sk.bits j).toNat : Val) := by
  refine KeyAir.col_key (?_ : columns (columns (honestRow witness v i S) KEY (MASK_SUM S))
    0 KEY_BITS = keyColumns witness.sk) j
  rw [honestRow_key]
  exact KeyAir.honestRow_bits witness.sk

end HonestRow

/-! ## The next row -/

/-- The rows are blocks of `N_TABLE_ROWS`. -/
theorem dvd_rows {evaluations : ℕ} (h : 0 < evaluations) : N_TABLE_ROWS ∣ rows evaluations := by
  have hle : 9 ≤ Nat.clog 2 (evaluations * N_TABLE_ROWS) := by
    refine Nat.lt_clog_iff_pow_lt (by norm_num) |>.mpr ?_
    show 2 ^ 8 < evaluations * 512
    omega
  exact Nat.pow_dvd_pow 2 hle

/-- Before the last block, the next row is in the table and in the same evaluation, for the next
block. -/
theorem evaluation_succ {evaluations r : ℕ} (hE : 0 < evaluations) (hr : r < rows evaluations)
    (hblock : r % N_TABLE_ROWS < N - 1) :
    (r + 1) % rows evaluations = r + 1 ∧
      evaluation (r + 1) evaluations = evaluation r evaluations ∧
      (r + 1) % N_TABLE_ROWS = r % N_TABLE_ROWS + 1 := by
  obtain ⟨k, hk⟩ := dvd_rows hE
  have hblock' : r % 512 < 481 := hblock
  have hk' : rows evaluations = 512 * k := hk
  have hlt : r + 1 < rows evaluations := by omega
  refine ⟨Nat.mod_eq_of_lt hlt, ?_, ?_⟩
  · have hdiv : (r + 1) / N_TABLE_ROWS = r / N_TABLE_ROWS := by
      show (r + 1) / 512 = r / 512
      omega
    rw [evaluation, evaluation, hdiv]
  · show (r + 1) % 512 = r % 512 + 1
    omega

/-! ## The rules of one row -/

/-- The prover's row passes the rules, for the values of its evaluation and block, if the next row
is the prover's row of the next block where there is one. -/
theorem rowRules_honestRow {statement : Preprocessing S} {witness : PreprocessingWitness}
    (hpk : keyCommit witness.sk = statement.pk)
    {evaluation : EvaluationStatement (MasksCommitment S) (MaskSumCommitment S)}
    {v : EvaluationWitness}
    (h : evaluation.Holds statement.b_bar witness.sk witness.ot_blocks v) {i : ℕ}
    {next : List Val} (hnext : i < N - 1 →
      next = honestRow witness v (ServerMasksAir.blockOf (i + 1)) S) :
    RowRules S (honestRow witness v (ServerMasksAir.blockOf i) S) next statement.pk.digest
      evaluation.m.digest ((statement.b_bar (ServerMasksAir.blockOf i)).toNat : Val)
      (evaluation.c (ServerMasksAir.blockOf i) 0).digest
      (evaluation.c (ServerMasksAir.blockOf i) 1).digest
      (SumOfMasksAir.flag (0 ≤ i ∧ i < 1)) (SumOfMasksAir.flag (0 ≤ i ∧ i < N - 1))
      (SumOfMasksAir.flag (N - 1 ≤ i ∧ i < N)) (fun j => if i = j then 1 else 0) where
  key := by
    rw [honestRow_key, ← hpk]
    exact KeyAir.rules_row witness.sk
  mask_sum := by
    rw [honestRow_mask_sum, ← h.m]
    exact MaskSumAir.rules_row _
  server_masks := by
    rw [honestRow_server_masks]
    exact ServerMasksAir.rules_row (witness.sk.binary _) (h.b_bar_le _) (h.c _)
  sum_of_masks := by
    rw [honestRow_sum_of_masks]
    refine SumOfMasksAir.rules_row h.masks fun hi => ?_
    rw [hnext hi, honestRow_sum_of_masks]
    rfl
  key_bit := by
    -- `sel` picks the row's block, or nothing.
    by_cases hi : i < N
    · have hsel : (fun j : Fin N => if i = j then (1 : Val) else 0) = picks ⟨i, hi⟩ := by
        funext j
        simp only [picks, Fin.ext_iff, eq_comm]
      have hblock : ServerMasksAir.blockOf i = ⟨i, hi⟩ :=
        Fin.ext (min_eq_left (Nat.le_sub_one_of_lt hi))
      rw [hsel, select_picks, honestRow_sum_of_masks, honestRow_bit, sumOfMasksPart,
        SumOfMasksAir.honestRow_sk_i, hblock, sub_self]
    · have hsel : (fun j : Fin N => if i = j then (1 : Val) else 0) = fun _ => 0 := by
        funext j
        exact if_neg fun hij : i = j => hi (hij ▸ j.isLt)
      rw [hsel, select]
      simp only [zero_mul, Finset.sum_const_zero]
  sk_i := by
    rw [honestRow_server_masks, honestRow_sum_of_masks, serverMasksPart, sumOfMasksPart,
      ServerMasksAir.honestRow_sk_i, SumOfMasksAir.honestRow_sk_i]
  masks k := by
    rw [honestRow_server_masks, honestRow_sum_of_masks, serverMasksPart, sumOfMasksPart,
      ServerMasksAir.honestRow_masks, SumOfMasksAir.honestRow_mask]
  r_sigma_sum k := by
    have hk : k.val < RUNS_PER_EVALUATION := k.isLt
    have hcol := col_columns (maskSumPart v S) MaskSumAir.R_SIGMA MaskSumAir.RANDOMNESS k
      (Nat.add_lt_add_left hk _)
    -- The bits at the end of a block are those of the sum mod `Q`, which the mask sums have too.
    have hlt : SumOfMasksAir.prefixSum witness.sk v.masks k N % Q < 2 ^ 12 :=
      Nat.mod_lt _ (by norm_num)
    have hsum : (v.r_sigma_sums k).toNat = SumOfMasksAir.prefixSum witness.sk v.masks k N % Q := by
      rw [h.r_sigma_sums, ← SumOfMasksAir.reduceQ_prefixSum h.masks, reduceQ_toNat]
    rw [honestRow_sum_of_masks, honestRow_mask_sum, ← hcol, maskSumPart,
      MaskSumAir.honestRow_r_sigma, runColumns, col_ofFn, sumOfMasksPart,
      SumOfMasksAir.honestRow_rSigmaBits, packBitsLe_bits hlt, ← hsum]

/-! ## The table -/

section Table

variable {statement : Preprocessing S} {witness : PreprocessingWitness}

/-- The evaluation that a row of the table is in. -/
def evaluationOf (hE : 0 < witness.evaluations.length) (r : ℕ) : EvaluationWitness :=
  witness.evaluations.get ⟨evaluation r witness.evaluations.length, evaluation_lt hE⟩

/-- The prover's table, row by row. -/
theorem trace_eq (hE : 0 < witness.evaluations.length)
    (hmasks : ∀ v ∈ witness.evaluations, ∀ i k, (v.masks i k).toNat < Q) :
    trace S witness = some ((List.range (rows witness.evaluations.length)).map fun r =>
      honestRow witness (evaluationOf hE r) (block r) S) := by
  have hm : (witness.evaluations.mapM fun v => MaskSumAir.row S v.r_sigma_sums v.m_randomness) =
      some (witness.evaluations.map fun v => maskSumPart v S) :=
    mapM_eq_some_map fun v _ => MaskSumAir.row_eq v.r_sigma_sums v.m_randomness
  have hs : (witness.evaluations.mapM fun v =>
      ServerMasksAir.table S witness.sk v.masks witness.ot_blocks) =
        some (witness.evaluations.map fun v (row : Fin N_TABLE_ROWS) =>
          serverMasksPart witness v (ServerMasksAir.blockOf row) S) :=
    mapM_eq_some_map fun v _ => ServerMasksAir.table_eq witness.sk v.masks witness.ot_blocks
  have ht : (witness.evaluations.mapM fun v => SumOfMasksAir.table witness.sk v.masks) =
      some (witness.evaluations.map fun v (row : Fin N_TABLE_ROWS) =>
        sumOfMasksPart witness v (ServerMasksAir.blockOf row)) :=
    mapM_eq_some_map fun v hv => SumOfMasksAir.table_eq (hmasks v hv)
  have hcols : 0 < NUM_COLS S := Nat.add_pos_right _ (by norm_num)
  -- Row `r` is the key's columns and those of its evaluation, at its block.
  rw [trace, KeyAir.row_eq, Option.bind_eq_bind, Option.bind_some, table, hm, hs, ht]
  simp only [Option.bind_eq_bind, Option.bind_some]
  rw [mapM_eq_some_map (g := fun r => honestRow witness (evaluationOf hE r) (block r) S),
    Option.bind_some, chunksExact_flatten hcols]
  · intro row hrow
    obtain ⟨r, -, rfl⟩ := List.mem_map.mp hrow
    exact honestRow_length _ _ _
  · intro r _
    have hv : evaluation r witness.evaluations.length < witness.evaluations.length :=
      evaluation_lt hE
    have hi : r % N_TABLE_ROWS < N_TABLE_ROWS := Nat.mod_lt _ (by norm_num)
    simp only [List.getElem?_map, List.getElem?_eq_getElem hv, Option.map_some, Option.bind_some,
      index_of_lt _ hi]
    rfl

/-- The prover's table passes every rule on every row. -/
theorem holds_of_holds (h : statement.Holds witness) (hE : 0 < witness.evaluations.length) :
    (air S (new statement)).Holds ((List.range (rows witness.evaluations.length)).map fun r =>
      honestRow witness (evaluationOf hE r) (block r) S) (publicValues statement) where
  height := by
    rw [List.length_map, List.length_range, ← PreprocessingStatement.Holds.length h]
    rfl
  width row hrow := by
    obtain ⟨r, -, rfl⟩ := List.mem_map.mp hrow
    exact honestRow_length _ _ _
  public_values := rfl
  rules r hr := by
    have hlen : statement.evaluations.length = witness.evaluations.length :=
      PreprocessingStatement.Holds.length h
    have hr' : r < rows witness.evaluations.length := by
      rw [← hlen]
      exact hr
    have hvlt : evaluation r statement.evaluations.length < statement.evaluations.length :=
      evaluation_lt (by rw [hlen]; exact hE)
    have hrules := rules_new statement ⟨_, hvlt⟩ (r := r) hr rfl
    refine (hrules _ _).mpr ?_
    rw [getD_map_range _ hr']
    -- The row is of evaluation `v`, of which the statement and the witness have the same number.
    have hmem : (statement.evaluations.get ⟨_, hvlt⟩, evaluationOf hE r) ∈
        statement.evaluations.zip witness.evaluations := by
      rw [List.mem_iff_getElem]
      refine ⟨evaluation r statement.evaluations.length, ?_, ?_⟩
      · rw [List.length_zip, ← hlen, min_self]
        exact hvlt
      · simp only [List.getElem_zip, evaluationOf, List.get_eq_getElem, hlen]
    refine rowRules_honestRow h.pk (PreprocessingStatement.Holds.evaluations h _ hmem)
      fun hblock => ?_
    -- Off the last block the next row is the next block of the same evaluation.
    obtain ⟨hmod, heval, hsucc⟩ := evaluation_succ hE hr' hblock
    have hnext : (r + 1) % (air S (new statement)).height = r + 1 := by
      refine Eq.trans ?_ hmod
      rw [← hlen]
      rfl
    have hlt : r + 1 < rows witness.evaluations.length := by
      rw [← hmod]
      exact Nat.mod_lt _ (lt_of_le_of_lt (Nat.zero_le _) hr')
    rw [hnext, getD_map_range _ hlt, evaluationOf, block, hsucc]
    simp only [heval]
    rfl

end Table

/-! ## The prover and the verifier -/

/-- The prover: checks the witness first. -/
def prove (stark : Stark Val) (coins : stark.Coins) (statement : Preprocessing S)
    (witness : PreprocessingWitness) : Option (Except (ProveError stark) stark.Proof) := do
  if !(← statement.holdsFor witness) then
    some (.error .WrongWitness)
  else
    let self := new statement
    let table ← trace S witness
    some (Plonky3.proved (stark.prove coins (air S self) table self.public_values))

/-- The verifier. -/
def verify (stark : Stark Val) (statement : Preprocessing S) (proof : stark.Proof) :
    Except (VerifyError stark) Unit :=
  if statement.evaluations.isEmpty then
    .error .NoEvaluation
  else
    let self := new statement
    Plonky3.verified (stark.verify (air S self) self.public_values proof)

/-- The prover's table for a statement and a witness that satisfy the relation, row by row. -/
theorem trace_of_holds {statement : Preprocessing S} {witness : PreprocessingWitness}
    (h : statement.Holds witness) : ∃ hE : 0 < witness.evaluations.length,
      trace S witness = some ((List.range (rows witness.evaluations.length)).map fun r =>
        honestRow witness (evaluationOf hE r) (block r) S) := by
  have hlen : statement.evaluations.length = witness.evaluations.length :=
    PreprocessingStatement.Holds.length h
  have hE : 0 < witness.evaluations.length := by
    rw [← hlen]
    exact List.length_pos_of_ne_nil (PreprocessingStatement.Holds.nonempty h)
  refine ⟨hE, trace_eq hE fun v hv => ?_⟩
  obtain ⟨n, hn, rfl⟩ := List.mem_iff_getElem.mp hv
  have hn' : n < statement.evaluations.length := by rw [hlen]; exact hn
  have hmem : (statement.evaluations[n], witness.evaluations[n]) ∈
      statement.evaluations.zip witness.evaluations := by
    rw [List.mem_iff_getElem]
    exact ⟨n, by rw [List.length_zip, hlen, min_self]; exact hn, List.getElem_zip⟩
  exact (PreprocessingStatement.Holds.evaluations h _ hmem).masks

/-- The prover's table for a statement and a witness that satisfy the relation. -/
theorem valid_of_holdsFor {statement : Preprocessing S} {witness : PreprocessingWitness}
    (h : statement.holdsFor witness = some true) : ∃ table, trace S witness = some table ∧
      (air S (new statement)).Holds table (new statement).public_values := by
  have hholds := PreprocessingStatement.holdsFor_eq_some_true.mp h
  obtain ⟨hE, htrace⟩ := trace_of_holds hholds
  exact ⟨_, htrace, holds_of_holds hholds hE⟩

/-- Completeness of the preprocessing circuit: the check of a witness does not stop, and where it is
true the prover's table has `rows` rows, a power of 2, and passes every rule on every row. -/
theorem preprocessing_complete (statement : Preprocessing S) (witness : PreprocessingWitness) :
    (statement.holdsFor witness).isSome ∧
    (statement.holdsFor witness = some true → ∃ table, trace S witness = some table ∧
      table.length = rows statement.evaluations.length ∧
      (∃ k, rows statement.evaluations.length = 2 ^ k) ∧
      (air S (new statement)).Holds table (new statement).public_values) := by
  refine ⟨statement.holdsFor_isSome witness, fun h => ?_⟩
  obtain ⟨table, htrace, hholds⟩ := valid_of_holdsFor h
  exact ⟨table, htrace, hholds.height, ⟨_, rfl⟩, hholds⟩

/-- The prover refuses a wrong witness or hands Plonky3 a valid table. -/
theorem prove_cases (stark : Stark Val) (coins : stark.Coins) (statement : Preprocessing S)
    (witness : PreprocessingWitness) :
    (statement.holdsFor witness = some false ∧
      prove stark coins statement witness = some (.error .WrongWitness)) ∨
    ∃ table, trace S witness = some table ∧
      (air S (new statement)).Holds table (new statement).public_values ∧
      prove stark coins statement witness = some (Plonky3.proved
        (stark.prove coins (air S (new statement)) table (new statement).public_values)) := by
  obtain ⟨b, hb⟩ := Option.isSome_iff_exists.mp (statement.holdsFor_isSome witness)
  cases b with
  | false => exact .inl ⟨hb, by simp [prove, hb]⟩
  | true =>
    obtain ⟨table, htrace, hholds⟩ := valid_of_holdsFor hb
    exact .inr ⟨table, htrace, hholds, by simp [prove, hb, htrace]⟩

/-- A complete proof system proves a statement that holds, and accepts the proof. -/
theorem prove_of_complete {stark : Stark Val} (hstark : stark.Complete) {statement : Preprocessing S}
    {witness : PreprocessingWitness} (h : statement.holdsFor witness = some true)
    (coins : stark.Coins) :
    ∃ proof, prove stark coins statement witness = some (.ok proof) ∧
      verify stark statement proof = .ok () := by
  have hne := (PreprocessingStatement.holdsFor_eq_some_true.mp h).nonempty
  rcases prove_cases stark coins statement witness with
    ⟨hfalse, -⟩ | ⟨table, -, hholds, hprove⟩
  · rw [h] at hfalse
    cases hfalse
  · obtain ⟨proof, hproof, hverify⟩ := hstark coins (air S (new statement)) table
      (new statement).public_values hholds
    refine ⟨proof, ?_, ?_⟩
    · rw [hprove, hproof]
      rfl
    · unfold verify
      rw [if_neg fun hempty => hne (List.isEmpty_iff.mp hempty)]
      exact Plonky3.verified_eq_ok.mpr hverify

end PreprocessingAir

end PoolOprf
