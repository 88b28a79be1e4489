import PoolOprf.Plonky3.Arithmetic
import PoolOprf.Voprf.Statements
import Mathlib.Data.Nat.Log

/-!
# The preprocessing circuit

`pool-voprf/src/plonky3/statements/preprocessing.rs`. Evaluation `v` has `N_TABLE_ROWS` consecutive
rows, one per binary OT block and then the last one's again, and the rows after the last evaluation
count as its. A row holds the columns of (K), (M), (S), and (T) side by side. The public values are
too many for selectors, so periodic columns hold those of the row's evaluation and block: `rules_at`
reads the rules of a row with these values, as `RowRules`.
-/

namespace PoolOprf

open Row Bits Panic Air

variable {S : Permutations}

/-- The preprocessing statement over this crate's commitments. -/
abbrev Preprocessing (S : Permutations) :=
  PreprocessingStatement (KeyCommitment S) (MasksCommitment S) (MaskSumCommitment S)

/-- The circuit of the whole preprocessing statement. Its periodic columns are built from the public
values. -/
structure PreprocessingAir where
  /-- The public values. -/
  public_values : List Val
  /-- How many evaluations there are. -/
  evaluations : ℕ

namespace PreprocessingAir

/-! ## Layout -/

/-- Where the columns of (K) start. -/
abbrev KEY : ℕ := 0

/-- Where the columns of (M) start. -/
def MASK_SUM (S : Permutations) : ℕ := KEY + KeyAir.NUM_COLS S

/-- Where the columns of (S) start. -/
def SERVER_MASKS (S : Permutations) : ℕ := MASK_SUM S + MaskSumAir.NUM_COLS S

/-- Where the columns of (T) start. -/
def SUM_OF_MASKS (S : Permutations) : ℕ := SERVER_MASKS S + ServerMasksAir.NUM_COLS S

/-- The columns of the circuit. -/
def NUM_COLS (S : Permutations) : ℕ := SUM_OF_MASKS S + SumOfMasksAir.NUM_COLS

/-- Where `pk` starts in the public values. -/
abbrev PK : ℕ := 0

/-- Where `b̄` starts in the public values. -/
abbrev B_BAR : ℕ := PK + DIGEST_ELEMENTS

/-- Where the evaluations start in the public values. -/
abbrev FIRST_EVALUATION : ℕ := B_BAR + N

/-- `m^v`, then `c^v_{0, i}` and `c^v_{1, i}` of each `i`. -/
abbrev VALUES_PER_EVALUATION : ℕ := DIGEST_ELEMENTS + N * 2 * DIGEST_ELEMENTS

/-- Where `m^v` starts in the periodic columns. -/
abbrev M : ℕ := 0

/-- Where (S)'s periodic columns start: `b̄_i`, `c^v_{0, i}`, then `c^v_{1, i}`. -/
abbrev S_B_BAR : ℕ := M + DIGEST_ELEMENTS

/-- Where `c^v_{0, i}` starts in the periodic columns. -/
abbrev S_C_0 : ℕ := S_B_BAR + 1

/-- Where `c^v_{1, i}` starts in the periodic columns. -/
abbrev S_C_1 : ℕ := S_C_0 + DIGEST_ELEMENTS

/-- Where (T)'s periodic columns start. -/
abbrev T : ℕ := S_C_1 + DIGEST_ELEMENTS

/-- Where `sel_i` starts in the periodic columns. -/
abbrev SEL : ℕ := T + 3

/-- The first power of 2 from `n` on. -/
def nextPowerOfTwo (n : ℕ) : ℕ := 2 ^ Nat.clog 2 n

/-- The rows of a table for `evaluations` evaluations. -/
def rows (evaluations : ℕ) : ℕ := nextPowerOfTwo (evaluations * N_TABLE_ROWS)

/-- The evaluation `row` is in, out of `evaluations`. The rows after the last evaluation count as
the last one. -/
def evaluation (row evaluations : ℕ) : ℕ := min (row / N_TABLE_ROWS) (evaluations - 1)

/-- The binary OT block `row` is for. The rows after block `n - 1` count as block `n - 1`. -/
def block (row : ℕ) : Fin N := ServerMasksAir.blockOf (row % N_TABLE_ROWS)

theorem le_rows (evaluations : ℕ) : evaluations * N_TABLE_ROWS ≤ rows evaluations :=
  Nat.le_pow_clog (by norm_num) _

theorem evaluation_lt {row evaluations : ℕ} (h : 0 < evaluations) :
    evaluation row evaluations < evaluations :=
  lt_of_le_of_lt (min_le_right _ _) (Nat.sub_lt h one_pos)

/-! ## Public values and periodic columns -/

/-- The public values of one evaluation. -/
def evaluationPart (evaluation : EvaluationStatement (MasksCommitment S) (MaskSumCommitment S)) :
    List Val :=
  List.ofFn evaluation.m.digest ++
    (List.ofFn fun i => (List.ofFn fun b => List.ofFn (evaluation.c i b).digest).flatten).flatten

/-- The public values of a statement. -/
def publicValues (statement : Preprocessing S) : List Val :=
  List.ofFn statement.pk.digest ++
    (List.ofFn (fun i => ((statement.b_bar i).toNat : Val)) ++
    (statement.evaluations.map evaluationPart).flatten)

/-- The circuit of a statement. -/
def new (statement : Preprocessing S) : PreprocessingAir where
  public_values := publicValues statement
  evaluations := statement.evaluations.length

/-- The public values of evaluation `v`. -/
def evaluationValues (self : PreprocessingAir) (v : ℕ) : List Val :=
  columns self.public_values (FIRST_EVALUATION + v * VALUES_PER_EVALUATION)
    (FIRST_EVALUATION + (v + 1) * VALUES_PER_EVALUATION)

/-- `m^v`. -/
def m (self : PreprocessingAir) (v : ℕ) (e : ℕ) : Val := col (self.evaluationValues v) e

/-- `c^v_{b, i}`. -/
def c (self : PreprocessingAir) (v i b : ℕ) (e : ℕ) : Val :=
  col (self.evaluationValues v) ((1 + 2 * i + b) * DIGEST_ELEMENTS + e)

/-- A column with `value v i` on the rows of evaluation `v`, block `i`. -/
def column (self : PreprocessingAir) (value : ℕ → ℕ → Val) : List Val :=
  (List.range (rows self.evaluations)).map fun row =>
    value (evaluation row self.evaluations) (block row)

/-- `sel_i`. -/
def selColumns : List (List Val) :=
  (List.range N).map fun i => (List.range N_TABLE_ROWS).map fun row => if row = i then 1 else 0

/-- `m^v`, (S)'s, (T)'s, then `sel_i`. -/
def periodicColumns (self : PreprocessingAir) : List (List Val) :=
  ((List.range DIGEST_ELEMENTS).map fun e => self.column fun v _ => self.m v e) ++
    ([self.column fun _ i => col self.public_values (B_BAR + i)] ++
    (((List.range 2).flatMap fun b =>
      (List.range DIGEST_ELEMENTS).map fun e => self.column fun v i => self.c v i b e) ++
    (SumOfMasksAir.periodicColumns ++ selColumns)))

/-! ## The rules -/

/-- The rules on a row and the next one, for the values of the row's evaluation and block. -/
structure RowRules (S : Permutations) (row next : List Val) (pk m : Fin DIGEST_ELEMENTS → Val)
    (b_bar_i : Val) (c_0 c_1 : Fin DIGEST_ELEMENTS → Val)
    (first_block has_next_block last_block : Val) (sel : Fin N → Val) : Prop where
  /-- (K). -/
  key : KeyAir.Rules S (columns row KEY (MASK_SUM S)) pk
  /-- (M). -/
  mask_sum : MaskSumAir.Rules S (columns row (MASK_SUM S) (SERVER_MASKS S)) m
  /-- (S). -/
  server_masks : ServerMasksAir.Rules S (columns row (SERVER_MASKS S) (SUM_OF_MASKS S)) b_bar_i
    c_0 c_1
  /-- (T). -/
  sum_of_masks : SumOfMasksAir.Rules (columns row (SUM_OF_MASKS S) (NUM_COLS S))
    (columns next (SUM_OF_MASKS S) (NUM_COLS S)) first_block has_next_block last_block
  /-- `sk_i` of (T) is bit `i` of (K). -/
  key_bit : select sel (fun i =>
    col (columns row (SUM_OF_MASKS S) (NUM_COLS S)) SumOfMasksAir.SK_I - col row (KEY + i)) = 0
  /-- `sk_i` is the same in (S) and (T). -/
  sk_i : col (columns row (SERVER_MASKS S) (SUM_OF_MASKS S)) ServerMasksAir.SK_I =
    col (columns row (SUM_OF_MASKS S) (NUM_COLS S)) SumOfMasksAir.SK_I
  /-- The masks are the same in (S) and (T). -/
  masks : ∀ k : Fin RUNS_PER_EVALUATION,
    col (columns row (SERVER_MASKS S) (SUM_OF_MASKS S)) (ServerMasksAir.MASKS + k) =
      col (columns row (SUM_OF_MASKS S) (NUM_COLS S)) (SumOfMasksAir.MASKS + k)
  /-- `r̃^{v, k}_Σ` is bits in (T) and one column of (M). -/
  r_sigma_sum : ∀ k : Fin RUNS_PER_EVALUATION,
    packBitsLe (SumOfMasksAir.rSigmaBits (columns row (SUM_OF_MASKS S) (NUM_COLS S)) k) =
      col (columns row (MASK_SUM S) (SERVER_MASKS S)) (MaskSumAir.R_SIGMA + k)

/-- The rules of the circuit. -/
def rules (S : Permutations) (row next periodic pub : List Val) : Prop :=
  RowRules S row next (fun i => col pub (PK + i)) (fun i => col periodic (M + i))
    (col periodic S_B_BAR) (fun e => col periodic (S_C_0 + e)) (fun e => col periodic (S_C_1 + e))
    (col periodic T) (col periodic (T + 1)) (col periodic (T + 2)) (fun i => col periodic (SEL + i))

/-- The circuit. -/
def air (S : Permutations) (self : PreprocessingAir) : Air Val where
  width := NUM_COLS S
  height := rows self.evaluations
  num_public_values := self.public_values.length
  periodic_columns := self.periodicColumns
  rules := rules S

/-! ### The values of the periodic columns -/

section Periodic

variable (self : PreprocessingAir) {r : ℕ} (hr : r < rows self.evaluations)

include hr in
theorem periodicAt_columns {n : ℕ} (value : ℕ → ℕ → ℕ → Val) :
    periodicAt ((List.range n).map fun e => self.column (value e)) r =
      (List.range n).map fun e => value e (evaluation r self.evaluations) (block r) := by
  have h := periodicAt_map_range (n := n) (lt_of_le_of_lt (Nat.zero_le r) hr)
    (fun e row => value e (evaluation row self.evaluations) (block row)) r
  rw [Nat.mod_eq_of_lt hr] at h
  exact h

/-- (T)'s periodic values on row `i` of an evaluation. -/
def flags (i : ℕ) : List Val :=
  [SumOfMasksAir.flag (0 ≤ i ∧ i < 1), SumOfMasksAir.flag (0 ≤ i ∧ i < N - 1),
    SumOfMasksAir.flag (N - 1 ≤ i ∧ i < N)]

/-- `sel` on row `i` of an evaluation: it picks the row's block, if it has one. -/
def selValues (i : ℕ) : List Val := (List.range N).map fun j => if i = j then 1 else 0

/-- `m^v`. -/
def mValues (v : ℕ) : List Val := (List.range DIGEST_ELEMENTS).map (self.m v)

/-- `c^v_{b, i}`. -/
def cValues (v i b : ℕ) : List Val := (List.range DIGEST_ELEMENTS).map (self.c v i b)

theorem periodicAt_flags (r : ℕ) :
    periodicAt SumOfMasksAir.periodicColumns r = flags (r % N_TABLE_ROWS) := by
  have hcolumn : ∀ first last, col (SumOfMasksAir.periodicColumn first last)
      (r % (SumOfMasksAir.periodicColumn first last).length) =
        SumOfMasksAir.flag (first ≤ r % N_TABLE_ROWS ∧ r % N_TABLE_ROWS < last) := by
    intro first last
    have hlt : r % N_TABLE_ROWS < N_TABLE_ROWS := Nat.mod_lt _ (by norm_num)
    rw [SumOfMasksAir.periodicColumn, List.length_map, List.length_range,
      col_eq_getElem (by simpa using hlt), List.getElem_map, List.getElem_range]
    rfl
  simp only [periodicAt, SumOfMasksAir.periodicColumns, List.map_cons, List.map_nil, hcolumn, flags]

theorem periodicAt_sel (r : ℕ) : periodicAt selColumns r = selValues (r % N_TABLE_ROWS) :=
  periodicAt_map_range (by norm_num) (fun i row => if row = i then 1 else 0) r

/-- The periodic values of a row. -/
def periodicValues (r : ℕ) : List Val :=
  let v := evaluation r self.evaluations
  self.mValues v ++ ([col self.public_values (B_BAR + block r)] ++
    (self.cValues v (block r) 0 ++ (self.cValues v (block r) 1 ++
    (flags (r % N_TABLE_ROWS) ++ selValues (r % N_TABLE_ROWS)))))

include hr in
theorem periodicAt_periodicColumns :
    periodicAt self.periodicColumns r = self.periodicValues r := by
  have hbBar := self.periodicAt_columns hr (n := 1) fun _ _ i => col self.public_values (B_BAR + i)
  rw [List.range_one, List.map_singleton, List.map_singleton] at hbBar
  have hc : ((List.range 2).flatMap fun b => (List.range DIGEST_ELEMENTS).map fun e =>
      self.column fun v i => self.c v i b e) =
      ((List.range DIGEST_ELEMENTS).map fun e => self.column fun v i => self.c v i 0 e) ++
        ((List.range DIGEST_ELEMENTS).map fun e => self.column fun v i => self.c v i 1 e) := by
    have hrange : List.range 2 = [0, 1] := rfl
    rw [hrange, List.flatMap_cons, List.flatMap_singleton]
  rw [periodicColumns, hc, periodicAt_append, periodicAt_append, periodicAt_append,
    periodicAt_append, periodicAt_append, hbBar, periodicAt_flags, periodicAt_sel,
    self.periodicAt_columns hr fun e v _ => self.m v e,
    self.periodicAt_columns hr fun e v i => self.c v i 0 e,
    self.periodicAt_columns hr fun e v i => self.c v i 1 e, List.append_assoc]
  rfl

theorem mValues_length (v : ℕ) : (self.mValues v).length = DIGEST_ELEMENTS := by
  rw [mValues, List.length_map, List.length_range]

theorem cValues_length (v i b : ℕ) : (self.cValues v i b).length = DIGEST_ELEMENTS := by
  rw [cValues, List.length_map, List.length_range]

theorem col_map_range {n : ℕ} (f : ℕ → Val) (i : Fin n) : col ((List.range n).map f) i = f i := by
  rw [col_eq_getElem (by simp), List.getElem_map, List.getElem_range]

theorem periodicValues_m (i : Fin DIGEST_ELEMENTS) :
    col (self.periodicValues r) (M + i) = self.m (evaluation r self.evaluations) i := by
  rw [periodicValues, Nat.zero_add, col_append_left (by rw [mValues_length]; exact i.isLt), mValues,
    col_map_range]

theorem periodicValues_b_bar : col (self.periodicValues r) S_B_BAR =
    col self.public_values (B_BAR + block r) := by
  have h := col_middle (self.mValues (evaluation r self.evaluations))
    [col self.public_values (B_BAR + block r)]
    (self.cValues (evaluation r self.evaluations) (block r) 0 ++
      (self.cValues (evaluation r self.evaluations) (block r) 1 ++
      (flags (r % N_TABLE_ROWS) ++ selValues (r % N_TABLE_ROWS)))) (c := 0) (by simp)
  rw [mValues_length] at h
  exact h

/-- The columns after `m^v` and `b̄_i`. -/
theorem periodicValues_rest (e : ℕ) : col (self.periodicValues r) (S_C_0 + e) =
    col (self.cValues (evaluation r self.evaluations) (block r) 0 ++
      (self.cValues (evaluation r self.evaluations) (block r) 1 ++
      (flags (r % N_TABLE_ROWS) ++ selValues (r % N_TABLE_ROWS)))) e := by
  have h := col_append_right (self.mValues (evaluation r self.evaluations) ++
    [col self.public_values (B_BAR + block r)])
    (self.cValues (evaluation r self.evaluations) (block r) 0 ++
      (self.cValues (evaluation r self.evaluations) (block r) 1 ++
      (flags (r % N_TABLE_ROWS) ++ selValues (r % N_TABLE_ROWS)))) e
  rw [List.length_append, mValues_length, List.length_singleton, List.append_assoc] at h
  rw [← h]
  rfl

theorem periodicValues_c_0 (e : Fin DIGEST_ELEMENTS) : col (self.periodicValues r) (S_C_0 + e) =
    self.c (evaluation r self.evaluations) (block r) 0 e := by
  rw [periodicValues_rest, col_append_left (by rw [cValues_length]; exact e.isLt), cValues,
    col_map_range]

theorem periodicValues_c_1 (e : Fin DIGEST_ELEMENTS) : col (self.periodicValues r) (S_C_1 + e) =
    self.c (evaluation r self.evaluations) (block r) 1 e := by
  have h := col_middle (self.cValues (evaluation r self.evaluations) (block r) 0)
    (self.cValues (evaluation r self.evaluations) (block r) 1)
    (flags (r % N_TABLE_ROWS) ++ selValues (r % N_TABLE_ROWS)) (c := e)
    (by rw [cValues_length]; exact e.isLt)
  rw [cValues_length] at h
  rw [show S_C_1 = S_C_0 + DIGEST_ELEMENTS from rfl, Nat.add_assoc, periodicValues_rest, h, cValues,
    col_map_range]

/-- The columns after those of (S). -/
theorem periodicValues_flags (e : ℕ) : col (self.periodicValues r) (T + e) =
    col (flags (r % N_TABLE_ROWS) ++ selValues (r % N_TABLE_ROWS)) e := by
  have h := col_append_right (self.cValues (evaluation r self.evaluations) (block r) 0 ++
    self.cValues (evaluation r self.evaluations) (block r) 1)
    (flags (r % N_TABLE_ROWS) ++ selValues (r % N_TABLE_ROWS)) e
  rw [List.length_append, cValues_length, cValues_length, List.append_assoc] at h
  rw [show T = S_C_0 + (DIGEST_ELEMENTS + DIGEST_ELEMENTS) from rfl, Nat.add_assoc,
    periodicValues_rest, h]

theorem periodicValues_sel (i : Fin N) : col (self.periodicValues r) (SEL + i) =
    if r % N_TABLE_ROWS = i then 1 else 0 := by
  have h := col_append_right (flags (r % N_TABLE_ROWS)) (selValues (r % N_TABLE_ROWS)) i
  rw [show (flags (r % N_TABLE_ROWS)).length = 3 from rfl, selValues, col_map_range] at h
  rw [show SEL = T + 3 from rfl, Nat.add_assoc, periodicValues_flags, selValues, h]

include hr in
/-- On a row, the rules are those for the row's evaluation and block. -/
theorem rules_at (row next : List Val) :
    rules S row next (periodicAt self.periodicColumns r) self.public_values =
      RowRules S row next (fun i => col self.public_values (PK + i))
        (fun i => self.m (evaluation r self.evaluations) i)
        (col self.public_values (B_BAR + block r))
        (fun e => self.c (evaluation r self.evaluations) (block r) 0 e)
        (fun e => self.c (evaluation r self.evaluations) (block r) 1 e)
        (SumOfMasksAir.flag (0 ≤ r % N_TABLE_ROWS ∧ r % N_TABLE_ROWS < 1))
        (SumOfMasksAir.flag (0 ≤ r % N_TABLE_ROWS ∧ r % N_TABLE_ROWS < N - 1))
        (SumOfMasksAir.flag (N - 1 ≤ r % N_TABLE_ROWS ∧ r % N_TABLE_ROWS < N))
        (fun i => if r % N_TABLE_ROWS = i then 1 else 0) := by
  have hflag := self.periodicValues_flags (r := r)
  have h0 := hflag 0
  have h1 := hflag 1
  have h2 := hflag 2
  unfold rules
  simp only [self.periodicAt_periodicColumns hr, periodicValues_m, periodicValues_b_bar,
    periodicValues_c_0, periodicValues_c_1, periodicValues_sel, h1, h2]
  rw [Nat.add_zero] at h0
  rw [h0]
  rfl

end Periodic

/-! ### The public values -/

section PublicValues

variable (statement : Preprocessing S) (v : Fin statement.evaluations.length)

theorem commitments_length (digest : Fin 2 → Fin DIGEST_ELEMENTS → Val) :
    (List.ofFn fun b => List.ofFn (digest b)).flatten.length = 2 * DIGEST_ELEMENTS := by
  rw [List.length_flatten, List.map_ofFn, List.sum_ofFn]
  simp only [Function.comp_apply, List.length_ofFn]
  rfl

theorem evaluationPart_length
    (evaluation : EvaluationStatement (MasksCommitment S) (MaskSumCommitment S)) :
    (evaluationPart evaluation).length = VALUES_PER_EVALUATION := by
  rw [evaluationPart, List.length_append, List.length_ofFn, List.length_flatten, List.map_ofFn,
    List.sum_ofFn]
  simp only [Function.comp_apply, commitments_length, Finset.sum_const, Finset.card_univ,
    Fintype.card_fin, smul_eq_mul]
  rfl

theorem publicValues_pk (i : Fin DIGEST_ELEMENTS) :
    col (publicValues statement) (PK + i) = statement.pk.digest i := by
  rw [publicValues, Nat.zero_add, col_append_left (by rw [List.length_ofFn]; exact i.isLt),
    col_ofFn]

theorem publicValues_b_bar (i : Fin N) :
    col (publicValues statement) (B_BAR + i) = ((statement.b_bar i).toNat : Val) := by
  have h := col_middle (List.ofFn statement.pk.digest)
    (List.ofFn fun i => ((statement.b_bar i).toNat : Val))
    (statement.evaluations.map evaluationPart).flatten (c := i)
    (by rw [List.length_ofFn]; exact i.isLt)
  rw [List.length_ofFn, col_ofFn (fun i => ((statement.b_bar i).toNat : Val))] at h
  exact h

theorem evaluationValues_new :
    (new statement).evaluationValues v = evaluationPart (statement.evaluations.get v) := by
  have hparts : statement.evaluations.map evaluationPart =
      List.ofFn fun v => evaluationPart (statement.evaluations.get v) := by
    rw [List.ofFn_comp' , List.ofFn_get]
  have h := columns_append_right (List.ofFn statement.pk.digest ++
      List.ofFn fun i => ((statement.b_bar i).toNat : Val))
    (statement.evaluations.map evaluationPart).flatten (v * VALUES_PER_EVALUATION)
    ((v + 1) * VALUES_PER_EVALUATION)
  rw [hparts, columns_flatten_ofFn (by norm_num) (fun v => evaluationPart_length _) v, ← hparts,
    List.length_append, List.length_ofFn, List.length_ofFn, List.append_assoc] at h
  exact h

theorem m_new (e : Fin DIGEST_ELEMENTS) :
    (new statement).m v e = (statement.evaluations.get v).m.digest e := by
  rw [m, evaluationValues_new, evaluationPart,
    col_append_left (by rw [List.length_ofFn]; exact e.isLt), col_ofFn]

theorem c_new (i : Fin N) (b : Fin 2) (e : Fin DIGEST_ELEMENTS) :
    (new statement).c v i b e = ((statement.evaluations.get v).c i b).digest e := by
  have he : e.val < 8 := e.isLt
  have hb := b.isLt
  have hright := col_append_right (List.ofFn (statement.evaluations.get v).m.digest)
    (List.ofFn fun i => (List.ofFn fun b =>
      List.ofFn ((statement.evaluations.get v).c i b).digest).flatten).flatten
    (i * (2 * DIGEST_ELEMENTS) + (b * DIGEST_ELEMENTS + e))
  have houter := col_flatten_ofFn (2 * DIGEST_ELEMENTS) (by norm_num) (fun i =>
    commitments_length fun b => ((statement.evaluations.get v).c i b).digest) i
    (c := b * DIGEST_ELEMENTS + e) (show b.val * 8 + e.val < 16 by omega)
  have hinner := col_flatten_ofFn DIGEST_ELEMENTS (by norm_num) (fun b =>
    List.length_ofFn (f := ((statement.evaluations.get v).c i b).digest)) b e.isLt
  rw [houter, hinner, col_ofFn, List.length_ofFn] at hright
  rw [c, evaluationValues_new, ← hright, evaluationPart]
  congr 1
  show (1 + 2 * i.val + b.val) * 8 + e.val = 8 + (i.val * (2 * 8) + (b.val * 8 + e.val))
  omega

/-- The rules on a row of evaluation `v`, with the statement's values. -/
theorem rules_new {r : ℕ} (hr : r < rows statement.evaluations.length)
    (hv : evaluation r statement.evaluations.length = v) (row next : List Val) :
    rules S row next (periodicAt (new statement).periodicColumns r) (publicValues statement) =
      RowRules S row next statement.pk.digest (statement.evaluations.get v).m.digest
        ((statement.b_bar (block r)).toNat : Val)
        ((statement.evaluations.get v).c (block r) 0).digest
        ((statement.evaluations.get v).c (block r) 1).digest
        (SumOfMasksAir.flag (0 ≤ r % N_TABLE_ROWS ∧ r % N_TABLE_ROWS < 1))
        (SumOfMasksAir.flag (0 ≤ r % N_TABLE_ROWS ∧ r % N_TABLE_ROWS < N - 1))
        (SumOfMasksAir.flag (N - 1 ≤ r % N_TABLE_ROWS ∧ r % N_TABLE_ROWS < N))
        (fun i => if r % N_TABLE_ROWS = i then 1 else 0) := by
  have h := (new statement).rules_at (S := S) hr row next
  have hv' : evaluation r (new statement).evaluations = v := hv
  have hc0 := c_new statement v (block r) 0
  have hc1 := c_new statement v (block r) 1
  rw [hv'] at h
  simp only [m_new] at h
  rw [show (new statement).public_values = publicValues statement from rfl] at h
  simp only [publicValues_pk, publicValues_b_bar] at h
  exact h.trans (congrArg₂ (fun c_0 c_1 => RowRules S row next _ _ _ c_0 c_1 _ _ _ _)
    (funext hc0) (funext hc1))

end PublicValues

end PreprocessingAir

end PoolOprf
