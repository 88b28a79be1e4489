import PoolOprf.Plonky3.Online
import PoolOprf.Plonky3.System

/-!
# Completeness of the online circuit

The prover's table for a statement and a witness that satisfy the relation. `trace_eq` says what its
rows are: the rows that the parts' `honestRow` are, side by side (`honestRow`). `rowRules_honestRow`
goes through the rules of one row with the parts' `rules_row`, and `holds_of_holds` puts the rows
together. `online_complete` is the statement for any statement and witness, and what `prove` does
with it.
-/

namespace PoolOprf

open Row Bits Panic Air

variable {S : Permutations}

namespace OnlineAir

/-! ## The prover's rows -/

section HonestRow

variable (statement : Online S) (witness : OnlineWitness) (k : Fin RUNS_PER_EVALUATION)
  (j : Fin DELTA)

/-- The columns of (K). -/
abbrev keyPart (S : Permutations) : List Val := KeyAir.honestRow S witness.sk

/-- The columns of (M). -/
abbrev maskSumPart (S : Permutations) : List Val :=
  MaskSumAir.honestRow S ⟨witness.r_sigma_sums, witness.m_randomness⟩

/-- The columns of (A) on the rows of run `k`. -/
def sumPart : List Val :=
  SumAir.honestRow witness.sk (witness.runs k).r_sigma_sum (statement.runs k).e

/-- `ã^{v, k}_Σ`. -/
def aSigmaOf : Zq :=
  reduceQ (aSigmaNat witness.sk (witness.runs k).r_sigma_sum (statement.runs k).e)

/-- The columns of (R) on the row of entry `j` of run `k`. -/
def responsePart : List Val :=
  ResponseAir.honestRow (aSigmaOf statement witness k) (witness.runs k).pads
    (statement.runs k).b_bar_prime j

/-- The pad and the random value of entry `j` of run `k`. -/
def padInput : PadInput :=
  ⟨(witness.runs k).pads (padPosition j (statement.runs k).b_bar_prime),
    (witness.runs k).d_randomness (padPosition j (statement.runs k).b_bar_prime)⟩

/-- The columns of (P) on the row of entry `j` of run `k`. -/
def padsPart : List Val := PadsAir.honestRow S (padInput statement witness k j)

/-- The prover's row of entry `j` of run `k`. -/
def honestRow : List Val :=
  keyPart witness S ++ (maskSumPart witness S ++ (sumPart statement witness k ++
    (responsePart statement witness k j ++ padsPart statement witness k j)))

theorem sumPart_length : (sumPart statement witness k).length = SumAir.NUM_COLS :=
  SumAir.honestRow_length _ _ _

theorem responsePart_length :
    (responsePart statement witness k j).length = ResponseAir.NUM_COLS :=
  ResponseAir.honestRow_length _ _ _ _

theorem padsPart_length : (padsPart statement witness k j).length = PadsAir.NUM_COLS S :=
  PadsAir.honestRow_length _

theorem honestRow_length : (honestRow statement witness k j).length = NUM_COLS S := by
  rw [honestRow, List.length_append, List.length_append, List.length_append, List.length_append,
    KeyAir.honestRow_length_layout, MaskSumAir.honestRow_length, sumPart_length, responsePart_length,
    padsPart_length, NUM_COLS, PADS, RESPONSE, SUM, MASK_SUM, KEY]
  omega

theorem honestRow_key :
    columns (honestRow statement witness k j) KEY (MASK_SUM S) = keyPart witness S := by
  rw [MASK_SUM, ← KeyAir.honestRow_length_layout witness.sk]
  exact columns_append_left _ _

theorem honestRow_mask_sum :
    columns (honestRow statement witness k j) (MASK_SUM S) (SUM S) = maskSumPart witness S := by
  rw [SUM, MASK_SUM, ← KeyAir.honestRow_length_layout witness.sk,
    ← MaskSumAir.honestRow_length ⟨witness.r_sigma_sums, witness.m_randomness⟩]
  exact columns_part _ _ _

theorem honestRow_sum :
    columns (honestRow statement witness k j) (SUM S) (RESPONSE S) =
      sumPart statement witness k := by
  have h := columns_part (keyPart witness S ++ maskSumPart witness S) (sumPart statement witness k)
    (responsePart statement witness k j ++ padsPart statement witness k j)
  rw [List.append_assoc, List.length_append, KeyAir.honestRow_length_layout,
    MaskSumAir.honestRow_length, sumPart_length] at h
  exact h

theorem honestRow_response :
    columns (honestRow statement witness k j) (RESPONSE S) (PADS S) =
      responsePart statement witness k j := by
  have h := columns_part (keyPart witness S ++ (maskSumPart witness S ++
    sumPart statement witness k)) (responsePart statement witness k j)
    (padsPart statement witness k j)
  rw [List.append_assoc, List.append_assoc, List.length_append, List.length_append,
    KeyAir.honestRow_length_layout, MaskSumAir.honestRow_length, sumPart_length, responsePart_length,
    ← Nat.add_assoc] at h
  exact h

theorem honestRow_pads :
    columns (honestRow statement witness k j) (PADS S) (NUM_COLS S) =
      padsPart statement witness k j := by
  have h := columns_part (keyPart witness S ++ (maskSumPart witness S ++
    (sumPart statement witness k ++ responsePart statement witness k j)))
    (padsPart statement witness k j) []
  rw [List.append_nil, List.append_assoc, List.append_assoc, List.append_assoc, List.length_append,
    List.length_append, List.length_append, KeyAir.honestRow_length_layout,
    MaskSumAir.honestRow_length, sumPart_length, responsePart_length, padsPart_length,
    ← Nat.add_assoc, ← Nat.add_assoc] at h
  exact h

/-- The key bits of the prover's row. -/
theorem honestRow_bit (i : Fin N) :
    col (honestRow statement witness k j) (KEY + i) = ((witness.sk.bits i).toNat : Val) := by
  refine KeyAir.col_key (?_ : columns (columns (honestRow statement witness k j) KEY (MASK_SUM S))
    0 KEY_BITS = keyColumns witness.sk) i
  rw [honestRow_key]
  exact KeyAir.honestRow_bits witness.sk

end HonestRow

/-! ## The rules of one row -/

/-- The prover's row of an entry passes the rules, for the values of its run and entry. -/
theorem rowRules_honestRow {statement : Online S} {witness : OnlineWitness}
    (h : statement.Holds witness) (k : Fin RUNS_PER_EVALUATION) (j : Fin DELTA) :
    RowRules S (honestRow statement witness k j) (picks k) statement.pk.digest statement.m.digest
      (fun i => (((statement.runs k).e i).toNat : Val)) (j : ℕ)
      (((statement.runs k).y j).toNat : Val)
      ((statement.runs k).d (padPosition j (statement.runs k).b_bar_prime)).digest where
  key := by
    rw [honestRow_key, ← h.pk]
    exact KeyAir.rules_row witness.sk
  mask_sum := by
    rw [honestRow_mask_sum, ← h.m]
    exact MaskSumAir.rules_row _
  sum := by
    simp only [honestRow_sum, honestRow_bit]
    exact SumAir.rules_row (h.runs k).r_sigma_sum (h.runs k).e
  response := by
    rw [honestRow_response, (h.runs k).y]
    exact ResponseAir.rules_row _ (reduceQ_lt _) j
  pads := by
    rw [honestRow_pads, ← (h.runs k).d (padPosition j (statement.runs k).b_bar_prime)]
    exact PadsAir.rules_row _
  r_sigma_sum := by
    -- The row's run picks its own sum out of those that `m` commits to.
    rw [honestRow_sum, honestRow_mask_sum, select_picks]
    have hk : k.val < RUNS_PER_EVALUATION := k.isLt
    have hcol := col_columns (maskSumPart witness S) MaskSumAir.R_SIGMA MaskSumAir.RANDOMNESS k
      (Nat.add_lt_add_left hk _)
    rw [← hcol, maskSumPart, MaskSumAir.honestRow_r_sigma, runColumns, col_ofFn]
    rfl
  a_sigma_sum := by
    rw [honestRow_response, honestRow_sum, sumPart, SumAir.aSigma_honestRow]
    rfl
  pad := by
    have hpad := ResponseAir.honestRow_rest (aSigmaOf statement witness k) (witness.runs k).pads
      (statement.runs k).b_bar_prime j 1
    rw [honestRow_response, honestRow_pads, padsPart, PadsAir.honestRow_pad]
    exact hpad

/-! ## The table -/

section Table

variable {statement : Online S} {witness : OnlineWitness}

/-- The prover's rows of one run. -/
theorem runRows_honest {k : Fin RUNS_PER_EVALUATION}
    (hb : (statement.runs k).b_bar_prime.toNat < DELTA) :
    RunRows.honest witness.sk (statement.runs k) (witness.runs k) = some
      { sum := sumPart statement witness k
        response := (List.ofFn (responsePart statement witness k)).flatten
        pads := (List.ofFn (padsPart statement witness k)).flatten } := by
  rw [RunRows.honest, aSigmaSum_eq, SumAir.row_eq, inResponseOrder_of_lt _ hb,
    inResponseOrder_of_lt _ hb]
  simp only [Option.bind_eq_bind, Option.bind_some]
  rw [ResponseAir.entries_eq (reduceQ_lt _) hb, Option.bind_some, PadsAir.entries_eq,
    Option.bind_some]
  rfl

/-- The rows of the prover's table have the circuit's columns. -/
theorem length_of_mem_rows {row : List Val}
    (h : row ∈ (List.ofFn fun k => List.ofFn (honestRow statement witness k)).flatten) :
    row.length = NUM_COLS S := by
  obtain ⟨rows, hrows, hmem⟩ := List.mem_flatten.mp h
  obtain ⟨k, rfl⟩ := List.mem_ofFn.mp hrows
  obtain ⟨j, rfl⟩ := List.mem_ofFn.mp hmem
  exact honestRow_length statement witness k j

/-- The prover's table, row by row. -/
theorem trace_eq (hb : ∀ k, (statement.runs k).b_bar_prime.toNat < DELTA) :
    trace statement witness = some
      (List.ofFn fun k => List.ofFn (honestRow statement witness k)).flatten := by
  have hruns : (fromFn fun k => RunRows.honest witness.sk (statement.runs k) (witness.runs k)) =
      some fun k => { sum := sumPart statement witness k
                      response := (List.ofFn (responsePart statement witness k)).flatten
                      pads := (List.ofFn (padsPart statement witness k)).flatten } :=
    fromFn_eq_some_iff.mpr fun k => runRows_honest (hb k)
  -- Each run's part of the table puts the same key and mask sums before each of its own rows.
  have hparts : ∀ k, List.zipWith (fun response pad => keyPart witness S ++
      (maskSumPart witness S ++ (sumPart statement witness k ++ (response ++ pad))))
      (chunksExact ResponseAir.NUM_COLS (List.ofFn (responsePart statement witness k)).flatten)
      (chunksExact (PadsAir.NUM_COLS S) (List.ofFn (padsPart statement witness k)).flatten) =
        List.ofFn (honestRow statement witness k) := by
    intro k
    have hpads : 0 < PadsAir.NUM_COLS S := by
      have hnarrow : 16 ≤ S.narrow.COLS := S.narrow.width_le
      rw [PadsAir.NUM_COLS]
      omega
    have hresponse := chunksExact_flatten (n := ResponseAir.NUM_COLS) (by norm_num)
      (List.forall_mem_ofFn_iff.mpr fun j => responsePart_length statement witness k j)
    have hpad := chunksExact_flatten hpads
      (List.forall_mem_ofFn_iff.mpr fun j => padsPart_length statement witness k j)
    rw [hresponse, hpad, zipWith_ofFn]
    rfl
  have hcols : 0 < NUM_COLS S := by
    unfold NUM_COLS PADS ResponseAir.NUM_COLS
    omega
  have hmap : (List.ofFn fun k => (List.ofFn (honestRow statement witness k)).flatten) =
      (List.ofFn fun k => List.ofFn (honestRow statement witness k)).map List.flatten := by
    rw [List.map_ofFn, Function.comp_def]
  rw [trace, KeyAir.row_eq, MaskSumAir.row_eq, hruns]
  simp only [Option.bind_eq_bind, Option.bind_some, table, Option.some.injEq]
  have hvalues := congrArg List.flatten (congrArg List.ofFn (funext fun k =>
    congrArg List.flatten (hparts k)))
  refine (congrArg (chunksExact (NUM_COLS S)) hvalues).trans ?_
  rw [hmap, ← List.flatten_flatten, chunksExact_flatten hcols fun row hrow => length_of_mem_rows hrow]

/-- The row of an entry in the prover's table. -/
theorem trace_row (k : Fin RUNS_PER_EVALUATION) (j : Fin DELTA) :
    (List.ofFn fun k => List.ofFn (honestRow statement witness k)).flatten.getD (rowOf k j) [] =
      honestRow statement witness k j := by
  have h := getElem?_flatten_ofFn DELTA (by norm_num)
    (fun k => List.length_ofFn (f := honestRow statement witness k)) k j.isLt
  rw [rowOf, Nat.mul_comm, List.getD_eq_getElem?_getD, h, List.getElem?_eq_getElem (by simp),
    Option.getD_some, List.getElem_ofFn]

/-- The prover's table passes every rule on every row. -/
theorem holds_of_holds (h : statement.Holds witness) : (air S).Holds
    (List.ofFn fun k => List.ofFn (honestRow statement witness k)).flatten (pubOf statement) where
  height := by
    rw [List.length_flatten, List.map_ofFn, List.sum_ofFn]
    simp only [Function.comp_apply, List.length_ofFn]
    rfl
  width _ hrow := length_of_mem_rows hrow
  public_values := pubOf_length statement
  rules r hr := by
    obtain ⟨k, j, rfl⟩ := exists_rowOf hr
    rw [trace_row]
    have hat := rules_at (S := S) (honestRow statement witness k j)
      ((List.ofFn fun k => List.ofFn (honestRow statement witness k)).flatten.getD
        ((rowOf k j + 1) % (air S).height) []) (pubOf statement) k j
    simp only [pubOf_pk, pubOf_m, runValues_pubOf, runPart_e, runPart_y, runPart_d] at hat
    exact hat.mpr (rowRules_honestRow h k j)

end Table

/-! ## The prover and the verifier -/

/-- The prover: checks the witness first. -/
def prove (stark : Stark Val) (coins : stark.Coins) (statement : Online S)
    (witness : OnlineWitness) : Option (Except (ProveError stark) stark.Proof) := do
  if !(← statement.holdsFor witness) then
    some (.error .WrongWitness)
  else
    let table ← trace statement witness
    some (Plonky3.proved (stark.prove coins (air S) table (← publicValues statement)))

/-- The verifier. -/
def verify (stark : Stark Val) (statement : Online S) (proof : stark.Proof) :
    Except (VerifyError stark) Unit :=
  Plonky3.verified do
    let values ← publicValues statement
    stark.verify (air S) values proof

/-- The prover's table for a statement and a witness that satisfy the relation. -/
theorem valid_of_holdsFor {statement : Online S} {witness : OnlineWitness}
    (h : statement.holdsFor witness = some true) : ∃ table pub, trace statement witness = some table ∧
      publicValues statement = some pub ∧ (air S).Holds table pub := by
  have hholds := OnlineStatement.holdsFor_eq_some_true.mp h
  have hb := fun k => (hholds.runs k).b_bar_prime
  exact ⟨_, _, trace_eq hb, publicValues_eq hb, holds_of_holds hholds⟩

/-- The prover refuses a wrong witness or hands Plonky3 a table that passes the rules. -/
theorem prove_cases (stark : Stark Val) (coins : stark.Coins) (statement : Online S)
    (witness : OnlineWitness) :
    (statement.holdsFor witness = some false ∧
      prove stark coins statement witness = some (.error .WrongWitness)) ∨
    ∃ table pub, trace statement witness = some table ∧ publicValues statement = some pub ∧
      (air S).Holds table pub ∧ prove stark coins statement witness =
        some (Plonky3.proved (stark.prove coins (air S) table pub)) := by
  obtain ⟨b, hb⟩ := Option.isSome_iff_exists.mp (statement.holdsFor_isSome witness)
  cases b with
  | false => exact .inl ⟨hb, by simp [prove, hb]⟩
  | true =>
    obtain ⟨table, pub, htrace, hpub, hholds⟩ := valid_of_holdsFor hb
    exact .inr ⟨table, pub, htrace, hpub, hholds, by simp [prove, hb, htrace, hpub]⟩

/-- A complete proof system proves a statement that holds, and accepts the proof. -/
theorem prove_of_complete {stark : Stark Val} (hstark : stark.Complete) {statement : Online S}
    {witness : OnlineWitness} (h : statement.holdsFor witness = some true) (coins : stark.Coins) :
    ∃ proof, prove stark coins statement witness = some (.ok proof) ∧
      verify stark statement proof = .ok () := by
  rcases prove_cases stark coins statement witness with
    ⟨hfalse, -⟩ | ⟨table, pub, -, hpub, hholds, hprove⟩
  · rw [h] at hfalse
    cases hfalse
  · obtain ⟨proof, hproof, hverify⟩ := hstark coins (air S) table pub hholds
    refine ⟨proof, ?_, ?_⟩
    · rw [hprove, hproof]
      rfl
    · unfold verify
      rw [Plonky3.verified_eq_ok, hpub]
      exact hverify

/-- Completeness of the online circuit: the check of a witness does not stop, and where it is true
the prover's table passes every rule for the statement's public values. The prover thus refuses a
wrong witness or hands Plonky3 a valid table. -/
theorem online_complete (statement : Online S) (witness : OnlineWitness) :
    (statement.holdsFor witness).isSome ∧
    (statement.holdsFor witness = some true → ∃ table pub, trace statement witness = some table ∧
      publicValues statement = some pub ∧ (air S).Holds table pub) ∧
    ∀ (stark : Stark Val) (coins : stark.Coins),
      (statement.holdsFor witness = some false ∧
        prove stark coins statement witness = some (.error .WrongWitness)) ∨
      ∃ table pub, trace statement witness = some table ∧ publicValues statement = some pub ∧
        (air S).Holds table pub ∧ prove stark coins statement witness =
          some (Plonky3.proved (stark.prove coins (air S) table pub)) := by
  exact ⟨statement.holdsFor_isSome witness, valid_of_holdsFor,
    fun stark coins => prove_cases stark coins statement witness⟩

end OnlineAir

end PoolOprf
