import PoolOprf.Plonky3.Arithmetic
import PoolOprf.Voprf.Statements

/-!
# The online circuit

`pool-voprf/src/plonky3/statements/online.rs`. Row `Δ·k + j` of the table is for entry `j` of run
`k`, and holds the columns of (K), (M), (A), (R), and (P) side by side. Two rounds of selectors pick
the public values of the row's run and entry: `rules_at` reads the rules of a row with the values
picked, as `RowRules`.

Soundness goes from the rows to the statement. Every row opens `pk` and `m^v`; without a collision
all of them open these to the same key and mask sums (`key_eq`, `mask_sum_eq`), and each row's (A)
and (R) then give the response's entry (`RowRules.response_eq`). Completeness goes the other way:
`trace_eq` says what the prover's table is, and `holds_of_holds` that it passes every rule.
-/

namespace PoolOprf

open Row Bits Panic Air

variable {S : Permutations}

/-- The online statement over this crate's commitments. -/
abbrev Online (S : Permutations) :=
  OnlineStatement (KeyCommitment S) (MaskSumCommitment S) (PadCommitment S)

namespace OnlineAir

/-! ## Layout -/

/-- Where the columns of (K) start. -/
abbrev KEY : ℕ := 0

/-- Where the columns of (M) start. -/
def MASK_SUM (S : Permutations) : ℕ := KEY + KeyAir.NUM_COLS S

/-- Where the columns of (A) start. -/
def SUM (S : Permutations) : ℕ := MASK_SUM S + MaskSumAir.NUM_COLS S

/-- Where the columns of (R) start. -/
def RESPONSE (S : Permutations) : ℕ := SUM S + SumAir.NUM_COLS

/-- Where the columns of (P) start. -/
def PADS (S : Permutations) : ℕ := RESPONSE S + ResponseAir.NUM_COLS

/-- The columns of the circuit. -/
def NUM_COLS (S : Permutations) : ℕ := PADS S + PadsAir.NUM_COLS S

/-- Where `pk` starts in the public values. -/
abbrev PK : ℕ := 0

/-- Where `m^v` starts in the public values. -/
abbrev M : ℕ := PK + DIGEST_ELEMENTS

/-- Where the runs start in the public values. -/
abbrev FIRST_RUN : ℕ := M + DIGEST_ELEMENTS

/-- Where `e` starts within a run's public values. -/
abbrev E : ℕ := 0

/-- Where `y` starts within a run's public values. -/
abbrev Y : ℕ := E + N

/-- Where `d` starts within a run's public values. -/
abbrev D : ℕ := Y + DELTA

/-- The public values of a run. -/
abbrev RUN_PUBLIC_VALUES : ℕ := D + DELTA * DIGEST_ELEMENTS

/-- The public values of the circuit. -/
abbrev NUM_PUBLIC_VALUES : ℕ := FIRST_RUN + RUNS_PER_EVALUATION * RUN_PUBLIC_VALUES

/-- Where the selectors `s` start in the periodic columns. -/
abbrev SEL_S : ℕ := 0

/-- Where the selectors `u` start in the periodic columns. -/
abbrev SEL_U : ℕ := SEL_S + DELTA

/-- `values` in the order (R) uses the pads: entry `j` is value `(j - b̄′) mod Δ`. -/
def inResponseOrder {T : Type} (values : Fin DELTA → T) (b_bar_prime : Zdelta) :
    Option (Fin DELTA → T) :=
  fromFn fun j => do
    let position ← subDelta (UInt8.ofNat j) b_bar_prime
    index values position.toNat

theorem inResponseOrder_of_lt {T : Type} (values : Fin DELTA → T) {b_bar_prime : Zdelta}
    (hb : b_bar_prime.toNat < DELTA) :
    inResponseOrder values b_bar_prime = some fun j => values (padPosition j b_bar_prime) := by
  refine fromFn_eq_some_iff.mpr fun j => ?_
  have hj : (UInt8.ofNat j.val).toNat = j.val := ofNat_toNat_of_lt_delta j.isLt
  rw [subDelta_of_lt (by rw [hj]; exact j.isLt) hb, Option.bind_eq_bind, Option.bind_some,
    ofNat_mod_delta_toNat, hj]
  exact index_val values (padPosition j b_bar_prime)

/-- The public values of a statement. -/
def publicValues (statement : Online S) : Option (List Val) := do
  let runs ← fromFn fun k => do
    let run := statement.runs k
    let d ← inResponseOrder run.d run.b_bar_prime
    some (List.ofFn (fun i => ((run.e i).toNat : Val)) ++
      (List.ofFn (fun j => ((run.y j).toNat : Val)) ++
      (List.ofFn fun j => List.ofFn (d j).digest).flatten))
  some (List.ofFn statement.pk.digest ++ (List.ofFn statement.m.digest ++ (List.ofFn runs).flatten))

/-- `s`, then `u`. -/
def periodicColumns : List (List Val) :=
  selectors Val DELTA 1 ++ selectors Val RUNS_PER_EVALUATION DELTA

/-! ## The table -/

/-- The rows of one run: one of (A), the `Δ` entries of (R) and of (P). -/
structure RunRows where
  /-- The row of (A). -/
  sum : List Val
  /-- The entries of (R). -/
  response : List Val
  /-- The entries of (P). -/
  pads : List Val

/-- The prover's rows of one run. -/
def RunRows.honest (sk : SecretKey) (run : RunStatement (PadCommitment S)) (witness : RunWitness) :
    Option RunRows := do
  let a_sigma_sum ← aSigmaSum sk witness.r_sigma_sum run.e
  let sum ← SumAir.row sk witness.r_sigma_sum run.e
  let response ← ResponseAir.entries a_sigma_sum witness.pads run.b_bar_prime
  let pads ← PadsAir.entries S (← inResponseOrder witness.pads run.b_bar_prime)
    (← inResponseOrder witness.d_randomness run.b_bar_prime)
  some { sum := sum, response := response, pads := pads }

/-- Row `Δ·k + j` is the rows of (K) and (M), then run `k`'s row of (A), then its entry `j` of (R)
and of (P). -/
def table (S : Permutations) (key mask_sum : List Val)
    (runs : Fin RUNS_PER_EVALUATION → RunRows) : List (List Val) :=
  let values := (List.ofFn fun k =>
    (List.zipWith
      (fun response pad => key ++ (mask_sum ++ ((runs k).sum ++ (response ++ pad))))
      (chunksExact ResponseAir.NUM_COLS (runs k).response)
      (chunksExact (PadsAir.NUM_COLS S) (runs k).pads)).flatten).flatten
  chunksExact (NUM_COLS S) values

/-- The prover's table. -/
def trace (statement : Online S) (witness : OnlineWitness) : Option (List (List Val)) := do
  let key ← KeyAir.row S witness.sk
  let mask_sum ← MaskSumAir.row S witness.r_sigma_sums witness.m_randomness
  let runs ← fromFn fun k => RunRows.honest witness.sk (statement.runs k) (witness.runs k)
  some (table S key mask_sum runs)

/-! ## The rules -/

/-- The rules on a row, for the public values that the selectors pick. -/
structure RowRules (S : Permutations) (row : List Val) (u : Fin RUNS_PER_EVALUATION → Val)
    (pk m : Fin DIGEST_ELEMENTS → Val) (e : Fin N → Val) (j y_j : Val)
    (d : Fin DIGEST_ELEMENTS → Val) : Prop where
  /-- (K). -/
  key : KeyAir.Rules S (columns row KEY (MASK_SUM S)) pk
  /-- (M). -/
  mask_sum : MaskSumAir.Rules S (columns row (MASK_SUM S) (SUM S)) m
  /-- (A), which reads (K)'s key bits. -/
  sum : SumAir.Rules (columns row (SUM S) (RESPONSE S)) (fun i => col row (KEY + i)) e
  /-- (R). -/
  response : ResponseAir.Rules (columns row (RESPONSE S) (PADS S)) j y_j
  /-- (P). -/
  pads : PadsAir.Rules S (columns row (PADS S) (NUM_COLS S)) d
  /-- `r̃_Σ` of the row's run is one column in (A) and one of (M)'s, which `u` picks. -/
  r_sigma_sum : col (columns row (SUM S) (RESPONSE S)) SumAir.R_SIGMA =
    select u fun k => col (columns row (MASK_SUM S) (SUM S)) (MaskSumAir.R_SIGMA + k)
  /-- `ã_Σ` is bits in (A) and one column of (R). -/
  a_sigma_sum : col (columns row (RESPONSE S) (PADS S)) ResponseAir.A_SIGMA =
    SumAir.aSigma (columns row (SUM S) (RESPONSE S))
  /-- The pad of the row's entry is one column of (R) and one of (P). -/
  pad : col (columns row (RESPONSE S) (PADS S)) ResponseAir.PAD =
    col (columns row (PADS S) (NUM_COLS S)) PadsAir.PAD

/-- The public values of run `k`. -/
def runValues (pub : List Val) (k : ℕ) : List Val :=
  columns pub (FIRST_RUN + k * RUN_PUBLIC_VALUES) (FIRST_RUN + (k + 1) * RUN_PUBLIC_VALUES)

/-- `value` of the row's run: `Σ_k u_k·value(run k)`. -/
def ofRun (u : Fin RUNS_PER_EVALUATION → Val) (pub : List Val) (value : List Val → Val) : Val :=
  select u fun k => value (runValues pub k)

/-- The rules of the circuit. -/
def rules (S : Permutations) (row _next periodic pub : List Val) : Prop :=
  let s : Fin DELTA → Val := fun j => col periodic (SEL_S + j)
  let u : Fin RUNS_PER_EVALUATION → Val := fun k => col periodic (SEL_U + k)
  RowRules S row u (fun i => col pub (PK + i)) (fun i => col pub (M + i))
    (fun i => ofRun u pub fun run => col run (E + i)) (selectIndex s)
    (ofRun u pub fun run => select s fun j => col run (Y + j))
    (fun i => ofRun u pub fun run => select s fun j => col run (D + j * DIGEST_ELEMENTS + i))

/-- The circuit. -/
def air (S : Permutations) : Air Val where
  width := NUM_COLS S
  height := ROWS
  num_public_values := NUM_PUBLIC_VALUES
  periodic_columns := periodicColumns
  rules := rules S

/-! ### The values that the selectors pick -/

/-- The row of entry `j` of run `k`. -/
def rowOf (k : Fin RUNS_PER_EVALUATION) (j : Fin DELTA) : ℕ := DELTA * k + j

theorem rowOf_lt (k : Fin RUNS_PER_EVALUATION) (j : Fin DELTA) : rowOf k j < ROWS := by
  have hk : k.val < 16 := k.isLt
  have hj : j.val < 16 := j.isLt
  show 16 * k.val + j.val < 256
  omega

/-- Every row is for an entry of a run. -/
theorem exists_rowOf {r : ℕ} (hr : r < ROWS) : ∃ k j, r = rowOf k j := by
  have hr' : r < 256 := hr
  refine ⟨⟨r / 16, show r / 16 < 16 by omega⟩, ⟨r % 16, show r % 16 < 16 by omega⟩, ?_⟩
  show r = 16 * (r / 16) + r % 16
  omega

theorem periodic_s (k : Fin RUNS_PER_EVALUATION) (j : Fin DELTA) :
    (fun i : Fin DELTA => col (periodicAt periodicColumns (rowOf k j)) (SEL_S + i)) = picks j := by
  have hj : j.val < 16 := j.isLt
  have h := col_periodicAt_selectors (F := Val) 1 (by norm_num) (rowOf k j) j (by
      show (16 * k.val + j.val) % (16 * 1) / 1 = j.val
      omega)
  rw [← h]
  funext i
  rw [periodicColumns, periodicAt_append, Nat.zero_add, col_append_left]
  rw [periodicAt_length, selectors, List.length_map, List.length_range]
  exact i.isLt

theorem periodic_u (k : Fin RUNS_PER_EVALUATION) (j : Fin DELTA) :
    (fun i : Fin RUNS_PER_EVALUATION => col (periodicAt periodicColumns (rowOf k j)) (SEL_U + i)) =
      picks k := by
  have hk : k.val < 16 := k.isLt
  have hj : j.val < 16 := j.isLt
  have h := col_periodicAt_selectors (F := Val) DELTA (by norm_num) (rowOf k j) k (by
      show (16 * k.val + j.val) % (16 * 16) / 16 = k.val
      omega)
  rw [← h]
  funext i
  have happ := col_append_right (periodicAt (selectors Val DELTA 1) (rowOf k j))
    (periodicAt (selectors Val RUNS_PER_EVALUATION DELTA) (rowOf k j)) i
  rw [periodicAt_length, selectors, List.length_map, List.length_range] at happ
  rw [periodicColumns, periodicAt_append]
  exact happ

/-- On row `Δ·k + j`, the rules are those for run `k` and entry `j`. -/
theorem rules_at (row next pub : List Val) (k : Fin RUNS_PER_EVALUATION) (j : Fin DELTA) :
    rules S row next (periodicAt periodicColumns (rowOf k j)) pub =
      RowRules S row (picks k) (fun i => col pub (PK + i)) (fun i => col pub (M + i))
        (fun i => col (runValues pub k) (E + i)) (j : ℕ) (col (runValues pub k) (Y + j))
        (fun i => col (runValues pub k) (D + j * DIGEST_ELEMENTS + i)) := by
  unfold rules
  simp only [periodic_s, periodic_u, ofRun, select_picks, selectIndex_picks]

/-! ## The public values -/

/-- The public values of run `k` of a statement. -/
def runPart (statement : Online S) (k : Fin RUNS_PER_EVALUATION) : List Val :=
  List.ofFn (fun i => (((statement.runs k).e i).toNat : Val)) ++
    (List.ofFn (fun j => (((statement.runs k).y j).toNat : Val)) ++
    (List.ofFn fun j => List.ofFn
      ((statement.runs k).d (padPosition j (statement.runs k).b_bar_prime)).digest).flatten)

/-- The public values of a statement whose `b̄′` are in `ℤ_Δ`. -/
def pubOf (statement : Online S) : List Val :=
  List.ofFn statement.pk.digest ++
    (List.ofFn statement.m.digest ++ (List.ofFn (runPart statement)).flatten)

theorem publicValues_eq {statement : Online S}
    (hb : ∀ k, (statement.runs k).b_bar_prime.toNat < DELTA) :
    publicValues statement = some (pubOf statement) := by
  have hruns : (fromFn fun k => do
      let d ← inResponseOrder (statement.runs k).d (statement.runs k).b_bar_prime
      some (List.ofFn (fun i => (((statement.runs k).e i).toNat : Val)) ++
        (List.ofFn (fun j => (((statement.runs k).y j).toNat : Val)) ++
        (List.ofFn fun j => List.ofFn (d j).digest).flatten))) = some (runPart statement) := by
    refine fromFn_eq_some_iff.mpr fun k => ?_
    rw [inResponseOrder_of_lt _ (hb k)]
    rfl
  rw [publicValues, hruns]
  rfl

section PublicValues

variable (statement : Online S) (k : Fin RUNS_PER_EVALUATION)

theorem digests_length (f : Fin DELTA → Fin DIGEST_ELEMENTS → Val) :
    (List.ofFn fun j => List.ofFn (f j)).flatten.length = 128 := by
  rw [List.length_flatten, List.map_ofFn, List.sum_ofFn]
  simp only [Function.comp_apply, List.length_ofFn]
  rfl

theorem runPart_length : (runPart statement k).length = RUN_PUBLIC_VALUES := by
  rw [runPart, List.length_append, List.length_append, List.length_ofFn, List.length_ofFn,
    digests_length]
  rfl

theorem pubOf_length : (pubOf statement).length = NUM_PUBLIC_VALUES := by
  rw [pubOf, List.length_append, List.length_append, List.length_ofFn, List.length_ofFn,
    List.length_flatten, List.map_ofFn, List.sum_ofFn]
  simp only [Function.comp_apply, runPart_length]
  rfl

theorem pubOf_pk (i : Fin DIGEST_ELEMENTS) :
    col (pubOf statement) (PK + i) = statement.pk.digest i := by
  rw [pubOf, Nat.zero_add, col_append_left (by rw [List.length_ofFn]; exact i.isLt), col_ofFn]

theorem pubOf_m (i : Fin DIGEST_ELEMENTS) :
    col (pubOf statement) (M + i) = statement.m.digest i := by
  have h := col_middle (List.ofFn statement.pk.digest) (List.ofFn statement.m.digest)
    (List.ofFn (runPart statement)).flatten (c := i) (by rw [List.length_ofFn]; exact i.isLt)
  rw [List.length_ofFn, col_ofFn] at h
  exact h

theorem runValues_pubOf : runValues (pubOf statement) k = runPart statement k := by
  have h := columns_append_right (List.ofFn statement.pk.digest ++ List.ofFn statement.m.digest)
    (List.ofFn (runPart statement)).flatten (k * RUN_PUBLIC_VALUES) ((k + 1) * RUN_PUBLIC_VALUES)
  rw [columns_flatten_ofFn (by norm_num) (runPart_length statement) k, List.length_append,
    List.length_ofFn, List.length_ofFn, List.append_assoc] at h
  exact h

theorem runPart_e (i : Fin N) :
    col (runPart statement k) (E + i) = (((statement.runs k).e i).toNat : Val) := by
  rw [runPart, Nat.zero_add, col_append_left (by rw [List.length_ofFn]; exact i.isLt), col_ofFn]

theorem runPart_y (j : Fin DELTA) :
    col (runPart statement k) (Y + j) = (((statement.runs k).y j).toNat : Val) := by
  have h := col_middle (List.ofFn fun i => (((statement.runs k).e i).toNat : Val))
    (List.ofFn fun j => (((statement.runs k).y j).toNat : Val))
    (List.ofFn fun j => List.ofFn
      ((statement.runs k).d (padPosition j (statement.runs k).b_bar_prime)).digest).flatten
    (c := j) (by rw [List.length_ofFn]; exact j.isLt)
  rw [List.length_ofFn, col_ofFn (fun j => (((statement.runs k).y j).toNat : Val))] at h
  rw [← h]
  rfl

theorem runPart_d (j : Fin DELTA) (i : Fin DIGEST_ELEMENTS) :
    col (runPart statement k) (D + j * DIGEST_ELEMENTS + i) =
      ((statement.runs k).d (padPosition j (statement.runs k).b_bar_prime)).digest i := by
  have h := col_append_right (List.ofFn (fun i => (((statement.runs k).e i).toNat : Val)) ++
      List.ofFn (fun j => (((statement.runs k).y j).toNat : Val)))
    (List.ofFn fun j => List.ofFn
      ((statement.runs k).d (padPosition j (statement.runs k).b_bar_prime)).digest).flatten
    (j * DIGEST_ELEMENTS + i)
  rw [List.append_assoc, List.length_append, List.length_ofFn, List.length_ofFn] at h
  have hcol := col_flatten_ofFn DIGEST_ELEMENTS (by norm_num)
    (fun j => List.length_ofFn (f :=
      ((statement.runs k).d (padPosition j (statement.runs k).b_bar_prime)).digest)) j i.isLt
  rw [hcol, col_ofFn] at h
  rw [← h, Nat.add_assoc]
  rfl

end PublicValues

end OnlineAir

end PoolOprf
