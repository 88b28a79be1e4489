import PoolOprf.Oprf.Online

/-!
# What a request is

`rowRequest` and `rowFinalize` are the row of a request and of the client's state for a run, and
`requestRows` and `finalizeRows` those of a whole request, from its first run on. An evaluation is
`H_ROWS` of these (`requestEvaluation_of_le`), the loop goes through consecutive runs
(`requestLoop_spec`), and `requestBatch_cases` is the outcome: a refusal that leaves the state as it
is, or those rows, with as many runs spent. In VOPRF mode each evaluation also has its online
statement (`requestStatements`).
-/

namespace PoolOprf

open Panic

variable {S : Permutations}

/-! ## Requests -/

theorem zero_lt_delta : (0 : Zdelta).toNat < DELTA := by decide

instance : Inhabited RcEntry := ⟨⟨0, 0, zero_lt_delta⟩⟩

namespace ClientState

/-- The client's entry of a run. -/
def rcAt (state : ClientState S) (ctr : ℕ) : RcEntry := state.r_c.getD ctr default

/-- The mask of a run from one block of a pair. -/
def maskAt (state : ClientState S) (blake3 : Blake3) (ctr : ℕ) (i : Fin N) (b : Bool) : Zq :=
  maskOf blake3 (state.blockAt i b) ctr

/-- `r_Σ` of a run, before its reduction. -/
def rSigmaNat (state : ClientState S) (blake3 : Blake3) (ctr : ℕ) : ℕ :=
  ∑ i, (state.maskAt blake3 ctr i (state.bhatBit i)).toNat

/-- `r_Σ` of a run. -/
def rSigma (state : ClientState S) (blake3 : Blake3) (ctr : ℕ) : Zq :=
  reduceQ (state.rSigmaNat blake3 ctr)

/-- The row of a request for a run. -/
def rowRequest (state : ClientState S) (blake3 : Blake3) (a : Fin N → Zq) (ctr : ℕ) :
    RowRequest where
  e i := reduceQ ((a i).toNat + (state.maskAt blake3 ctr i (state.bhatBit i)).toNat +
    (state.maskAt blake3 ctr i (!state.bhatBit i)).toNat)
  b_bar_prime := UInt8.ofNat (((state.rSigma blake3 ctr).toNat % DELTA + DELTA -
    (state.rcAt ctr).b_prime.toNat) % DELTA)

/-- The row of the client's state for a run. -/
def rowFinalize (state : ClientState S) (blake3 : Blake3) (ctr : ℕ) : RowFinalizeState where
  ctr := ctr
  r_sigma := state.rSigma blake3 ctr
  r_prime := (state.rcAt ctr).r_prime

/-- The rows of a request for an evaluation. -/
def evaluationRows (state : ClientState S) (blake3 : Blake3) (m : ZqMatrix) (first_run : ℕ) :
    List RowRequest :=
  List.ofFn fun k => state.rowRequest blake3 (m k) (first_run + k)

/-- The rows of the client's state for an evaluation. -/
def evaluationFinRows (state : ClientState S) (blake3 : Blake3) (first_run : ℕ) :
    List RowFinalizeState :=
  List.ofFn fun k : Fin H_ROWS => state.rowFinalize blake3 (first_run + k)

/-- The rows of a request, from a run on. -/
def requestRows (state : ClientState S) (blake3 : Blake3) (tag : List UInt8) :
    ℕ → List (List UInt8) → List RowRequest
  | _, [] => []
  | ctr, input :: inputs => state.evaluationRows blake3 (hashToZqMatrix blake3 tag input) ctr ++
      state.requestRows blake3 tag (ctr + H_ROWS) inputs

/-- The rows of the client's state, from a run on. -/
def finalizeRows (state : ClientState S) (blake3 : Blake3) : ℕ → ℕ → List RowFinalizeState
  | _, 0 => []
  | ctr, n + 1 => state.evaluationFinRows blake3 ctr ++ state.finalizeRows blake3 (ctr + H_ROWS) n

/-- The client's entry of a run that exists. -/
theorem r_c_getElem? {state : ClientState S} {ctr : ℕ} (h : ctr < state.runs.tau) :
    state.r_c[ctr]? = some (state.rcAt ctr) := by
  rw [← state.r_c_length] at h
  rw [rcAt, List.getD_eq_getElem?_getD, List.getElem?_eq_getElem h, Option.getD_some]

theorem rowRequest_e_lt (state : ClientState S) (blake3 : Blake3) (a : Fin N → Zq) (ctr : ℕ)
    (i : Fin N) : ((state.rowRequest blake3 a ctr).e i).toNat < Q := reduceQ_lt _

theorem rowRequest_b_bar_prime_toNat (state : ClientState S) (blake3 : Blake3) (a : Fin N → Zq)
    (ctr : ℕ) : (state.rowRequest blake3 a ctr).b_bar_prime.toNat =
      ((state.rSigma blake3 ctr).toNat % DELTA + DELTA - (state.rcAt ctr).b_prime.toNat) % DELTA :=
  ofNat_mod_delta_toNat _

theorem rowRequest_b_bar_prime_lt (state : ClientState S) (blake3 : Blake3) (a : Fin N → Zq)
    (ctr : ℕ) : (state.rowRequest blake3 a ctr).b_bar_prime.toNat < DELTA := by
  rw [rowRequest_b_bar_prime_toNat]
  exact Nat.mod_lt _ (by norm_num)

section Spent

variable {state state' : ClientState S} {n : ℕ}

/-- The rows of a run do not depend on the runs spent. -/
theorem Spent.rowRequest (h : Spent state state' n) (blake3 : Blake3) :
    state'.rowRequest blake3 = state.rowRequest blake3 := by
  unfold ClientState.rowRequest rSigma rSigmaNat maskAt blockAt bhatBit rcAt
  rw [h.ot_blocks, h.bhat, h.r_c]

theorem Spent.rowFinalize (h : Spent state state' n) (blake3 : Blake3) :
    state'.rowFinalize blake3 = state.rowFinalize blake3 := by
  unfold ClientState.rowFinalize rSigma rSigmaNat maskAt blockAt bhatBit rcAt
  rw [h.ot_blocks, h.bhat, h.r_c]

theorem Spent.requestRows (h : Spent state state' n) (blake3 : Blake3) (tag : List UInt8) :
    ∀ (inputs : List (List UInt8)) (ctr : ℕ),
      state'.requestRows blake3 tag ctr inputs = state.requestRows blake3 tag ctr inputs
  | [], _ => rfl
  | input :: inputs, ctr => by
    rw [ClientState.requestRows, ClientState.requestRows, evaluationRows, evaluationRows,
      h.rowRequest, h.requestRows blake3 tag inputs]

theorem Spent.finalizeRows (h : Spent state state' n) (blake3 : Blake3) :
    ∀ (m ctr : ℕ), state'.finalizeRows blake3 ctr m = state.finalizeRows blake3 ctr m
  | 0, _ => rfl
  | m + 1, ctr => by
    rw [ClientState.finalizeRows, ClientState.finalizeRows, evaluationFinRows, evaluationFinRows,
      h.rowFinalize, h.finalizeRows blake3 m]

end Spent

/-- The row of a run in an evaluation. -/
theorem evaluationRows_getElem? (state : ClientState S) (blake3 : Blake3) (m : ZqMatrix) (first_run : ℕ)
    (k : Fin H_ROWS) : (state.evaluationRows blake3 m first_run)[k.val]? =
      some (state.rowRequest blake3 (m k) (first_run + k)) := by
  rw [evaluationRows, List.getElem?_ofFn, dif_pos k.isLt]

theorem requestRows_length (state : ClientState S) (blake3 : Blake3) (tag : List UInt8) :
    ∀ (inputs : List (List UInt8)) (ctr : ℕ),
      (state.requestRows blake3 tag ctr inputs).length = tauFor inputs.length
  | [], _ => rfl
  | input :: inputs, ctr => by
    rw [requestRows, List.length_append, evaluationRows, List.length_ofFn,
      requestRows_length state blake3 tag inputs, List.length_cons, tauFor_succ]

theorem finalizeRows_length (state : ClientState S) (blake3 : Blake3) :
    ∀ (n ctr : ℕ), (state.finalizeRows blake3 ctr n).length = tauFor n
  | 0, _ => rfl
  | n + 1, ctr => by
    rw [finalizeRows, List.length_append, evaluationFinRows, List.length_ofFn,
      finalizeRows_length state blake3 n, tauFor_succ]

/-- The rows of a request are in range. -/
theorem requestRows_inRange (state : ClientState S) (blake3 : Blake3) (tag : List UInt8) :
    ∀ (inputs : List (List UInt8)) (ctr : ℕ),
      ∀ row ∈ state.requestRows blake3 tag ctr inputs, row.InRange
  | [], _ => by simp [requestRows]
  | input :: inputs, ctr => by
    rw [requestRows, List.forall_mem_append]
    refine ⟨fun row hrow => ?_, state.requestRows_inRange blake3 tag inputs _⟩
    obtain ⟨k, rfl⟩ := List.mem_ofFn.mp hrow
    exact ⟨state.rowRequest_e_lt blake3 _ _, state.rowRequest_b_bar_prime_lt blake3 _ _⟩

/-- The runs of a request's rows are consecutive. -/
theorem finalizeRows_ctr (state : ClientState S) (blake3 : Blake3) :
    ∀ (n ctr : ℕ), (state.finalizeRows blake3 ctr n).map RowFinalizeState.ctr =
      List.range' ctr (tauFor n)
  | 0, _ => rfl
  | n + 1, ctr => by
    have hfirst : (state.evaluationFinRows blake3 ctr).map RowFinalizeState.ctr =
        List.range' ctr H_ROWS := by
      rw [evaluationFinRows, List.map_ofFn]
      rfl
    rw [finalizeRows, List.map_append, hfirst, finalizeRows_ctr state blake3 n, tauFor_succ,
      List.range'_append_1]

/-- The rows of each evaluation of a request. -/
theorem requestRows_getElem? (state : ClientState S) (blake3 : Blake3) (tag : List UInt8)
    (k : Fin H_ROWS) :
    ∀ (inputs : List (List UInt8)) (ctr v : ℕ) (input : List UInt8), inputs[v]? = some input →
      (state.requestRows blake3 tag ctr inputs)[tauFor v + k]? =
        some (state.rowRequest blake3 (hashToZqMatrix blake3 tag input k) (ctr + (tauFor v + k))) ∧
      (state.finalizeRows blake3 ctr inputs.length)[tauFor v + k]? =
        some (state.rowFinalize blake3 (ctr + (tauFor v + k)))
  | input :: inputs, ctr, 0, x, h => by
    -- The first input's rows are those at the front.
    obtain rfl : input = x := Option.some.inj h
    have hzero : tauFor 0 + k.val = k.val := by rw [tauFor_zero, Nat.zero_add]
    rw [requestRows, List.length_cons, finalizeRows, hzero,
      List.getElem?_append_left (by rw [evaluationRows, List.length_ofFn]; exact k.isLt),
      List.getElem?_append_left (by rw [evaluationFinRows, List.length_ofFn]; exact k.isLt)]
    constructor
    · exact state.evaluationRows_getElem? blake3 _ ctr k
    · rw [evaluationFinRows, List.getElem?_ofFn, dif_pos k.isLt]
  | input :: inputs, ctr, v + 1, x, h => by
    obtain ⟨hrow, hfin⟩ := requestRows_getElem? state blake3 tag k inputs (ctr + H_ROWS) v x h
    have hindex : tauFor (v + 1) + k.val = H_ROWS + (tauFor v + k) := by
      rw [tauFor_succ, Nat.add_assoc]
    have hctr : ctr + (H_ROWS + (tauFor v + k.val)) = ctr + H_ROWS + (tauFor v + k) := by ring
    have hlen : (state.evaluationRows blake3 (hashToZqMatrix blake3 tag input) ctr).length =
        H_ROWS := List.length_ofFn
    have hlen' : (state.evaluationFinRows blake3 ctr).length = H_ROWS := List.length_ofFn
    rw [requestRows, List.length_cons, finalizeRows, hindex, hctr,
      List.getElem?_append_right (by omega), List.getElem?_append_right (by omega), hlen, hlen',
      Nat.add_sub_cancel_left]
    exact ⟨hrow, hfin⟩

end ClientState

/-- An evaluation on runs that exist. -/
theorem requestEvaluation_of_le (blake3 : Blake3) {state : ClientState S} {first_run : ℕ}
    (h : first_run + H_ROWS ≤ state.runs.tau) (m : ZqMatrix) :
    requestEvaluation blake3 state first_run m =
      some (state.evaluationRows blake3 m first_run, state.evaluationFinRows blake3 first_run) := by
  have hbhat : (fromFn fun i => state.rBhat blake3 i first_run) =
      some fun i => expand blake3 (state.blockAt i (state.bhatBit i)) first_run :=
    fromFn_eq_some_iff.mpr fun i => state.rBhat_eq blake3 i first_run
  have hnot : (fromFn fun i => state.rNotBhat blake3 i first_run) =
      some fun i => expand blake3 (state.blockAt i (!state.bhatBit i)) first_run :=
    fromFn_eq_some_iff.mpr fun i => state.rNotBhat_eq blake3 i first_run
  unfold requestEvaluation
  rw [hbhat, hnot]
  simp only [Option.bind_eq_bind, Option.bind_some, expand_apply]
  rw [(fromFn_eq_some_iff (g := fun k : Fin H_ROWS =>
    (state.rowRequest blake3 (m k) (first_run + k),
      state.rowFinalize blake3 (first_run + k)))).mpr]
  · rfl
  intro k
  have hk : k.val < 16 := k.isLt
  -- Neither accumulator overflows.
  have he : (fromFn fun i => (checkedSum ACCUM [(m k i).toNat,
      (maskOf blake3 (state.blockAt i (state.bhatBit i)) (first_run + k)).toNat,
      (maskOf blake3 (state.blockAt i (!state.bhatBit i)) (first_run + k)).toNat]).bind
        fun sum => some (reduceQ sum)) =
      some (state.rowRequest blake3 (m k) (first_run + k)).e := by
    refine fromFn_eq_some_iff.mpr fun i => ?_
    have h₁ := (m k i).toNat_lt
    have h₂ := (maskOf blake3 (state.blockAt i (state.bhatBit i)) (first_run + k)).toNat_lt
    have h₃ := (maskOf blake3 (state.blockAt i (!state.bhatBit i)) (first_run + k)).toNat_lt
    rw [checkedSum_of_lt]
    · simp only [List.sum_cons, List.sum_nil, Option.bind_some, Nat.add_zero, ← Nat.add_assoc]
      rfl
    · have hlt : (m k i).toNat + ((maskOf blake3 (state.blockAt i (state.bhatBit i))
          (first_run + k)).toNat + ((maskOf blake3 (state.blockAt i (!state.bhatBit i))
          (first_run + k)).toNat + 0)) < 2 ^ 32 := by omega
      simpa only [List.sum_cons, List.sum_nil] using hlt
  have hsum : checkedSum ACCUM (List.ofFn fun i =>
      (maskOf blake3 (state.blockAt i (state.bhatBit i)) (first_run + k)).toNat) =
        some (state.rSigmaNat blake3 (first_run + k)) :=
    checkedSum_ofFn _ Q (fun i => (maskOf_lt _ _ _).le) (by norm_num)
  have hle : first_run + 16 ≤ state.runs.tau := h
  have hrc : state.r_c[first_run + k.val]? = some (state.rcAt (first_run + k)) :=
    ClientState.r_c_getElem? (by omega)
  have hb := (state.rcAt (first_run + k)).b_prime_lt
  rw [he, hsum, hrc]
  simp only [Option.bind_some]
  rw [subDelta_of_lt (reduceDelta_lt _) hb]
  simp only [Option.bind_some, reduceDelta_toNat]
  rfl

/-- The online statements of a request, from a run on: none in plain mode. -/
def ClientState.requestStatements (state : ClientState S) (blake3 : Blake3) (tag : List UInt8) :
    ℕ → List (List UInt8) → Option (List (Online S))
  | _, [] => some []
  | ctr, input :: inputs => do
    let statements ← match state.voprf with
      | some voprf => do
        some [← voprf.onlineStatement ctr
          (state.evaluationRows blake3 (hashToZqMatrix blake3 tag input) ctr)]
      | none => some []
    let statements' ← state.requestStatements blake3 tag (ctr + H_ROWS) inputs
    some (statements ++ statements')

theorem ClientState.Spent.requestStatements {state state' : ClientState S} {n : ℕ}
    (h : Spent state state' n) (blake3 : Blake3) (tag : List UInt8) :
    ∀ (inputs : List (List UInt8)) (ctr : ℕ),
      state'.requestStatements blake3 tag ctr inputs = state.requestStatements blake3 tag ctr inputs
  | [], _ => rfl
  | input :: inputs, ctr => by
    rw [ClientState.requestStatements, ClientState.requestStatements, evaluationRows,
      evaluationRows, h.rowRequest, h.voprf, h.requestStatements blake3 tag inputs]

/-- The loop over the evaluations of a request stops only where an online statement does. -/
theorem requestLoop_spec (blake3 : Blake3) (tag : List UInt8) :
    ∀ (inputs : List (List UInt8)) (state : ClientState S),
      tauFor inputs.length ≤ state.runs.remaining →
      ∃ state', ClientState.Spent state state' (tauFor inputs.length) ∧
        requestLoop blake3 tag inputs state =
          (state.requestStatements blake3 tag state.runs.ctr inputs).map fun statements =>
            (state', state.requestRows blake3 tag state.runs.ctr inputs,
              state.finalizeRows blake3 state.runs.ctr inputs.length, statements)
  | [], state, _ => ⟨state, ClientState.Spent.refl state, rfl⟩
  | input :: inputs, state, hle => by
    have hlen : tauFor (input :: inputs).length = H_ROWS + tauFor inputs.length :=
      tauFor_succ inputs.length
    obtain ⟨state₁, hnext, hspent₁⟩ := ClientState.nextRuns_of_le
      (show H_ROWS ≤ state.runs.remaining by omega)
    have hbudget := state.runs.ctr_add_remaining
    have hbudget₁ := state₁.runs.ctr_add_remaining
    have hctr := hspent₁.ctr
    have htau := hspent₁.tau
    have heval := requestEvaluation_of_le blake3
      (show state.runs.ctr + H_ROWS ≤ state₁.runs.tau by omega) (hashToZqMatrix blake3 tag input)
    have hrows : state₁.evaluationRows blake3 (hashToZqMatrix blake3 tag input) state.runs.ctr =
        state.evaluationRows blake3 (hashToZqMatrix blake3 tag input) state.runs.ctr := by
      rw [ClientState.evaluationRows, ClientState.evaluationRows, hspent₁.rowRequest]
    have hfin : state₁.evaluationFinRows blake3 state.runs.ctr =
        state.evaluationFinRows blake3 state.runs.ctr := by
      rw [ClientState.evaluationFinRows, ClientState.evaluationFinRows, hspent₁.rowFinalize]
    obtain ⟨state₂, hspent₂, hloop⟩ := requestLoop_spec blake3 tag inputs state₁ (by omega)
    refine ⟨state₂, ?_, ?_⟩
    · rw [hlen]
      exact hspent₁.trans hspent₂
    · rw [requestLoop, hnext, ClientState.requestStatements, List.length_cons]
      simp only [Option.bind_eq_bind, Option.bind_some]
      rw [heval, hrows, hfin, hspent₁.voprf, hloop, hspent₁.requestStatements, hctr,
        hspent₁.requestRows, hspent₁.finalizeRows]
      -- What is left to bind are the statements, of this evaluation and of the others.
      cases state.voprf with
      | none => cases state.requestStatements blake3 tag (state.runs.ctr + H_ROWS) inputs <;> rfl
      | some voprf =>
        simp only [Option.bind_some]
        cases voprf.onlineStatement state.runs.ctr
            (state.evaluationRows blake3 (hashToZqMatrix blake3 tag input) state.runs.ctr) with
        | none => rfl
        | some statement =>
          cases state.requestStatements blake3 tag (state.runs.ctr + H_ROWS) inputs <;> rfl

/-- A request of a plain client has no statements. -/
theorem ClientState.requestStatements_plain {state : ClientState S} (h : state.voprf = none)
    (blake3 : Blake3) (tag : List UInt8) :
    ∀ (inputs : List (List UInt8)) (ctr : ℕ),
      state.requestStatements blake3 tag ctr inputs = some []
  | [], _ => rfl
  | input :: inputs, ctr => by
    rw [requestStatements, h, requestStatements_plain h blake3 tag inputs]
    rfl

section Statements

variable {voprf : ClientVoprf S}

/-- What an online statement is made of. -/
theorem ClientVoprf.onlineStatement_eq_some {first_run : ℕ} {rows : List RowRequest}
    {statement : Online S} (h : voprf.onlineStatement first_run rows = some statement) :
    statement.pk = voprf.pk.pk ∧ voprf.m[first_run / RUNS_PER_EVALUATION]? = some statement.m ∧
      ∀ k : Fin RUNS_PER_EVALUATION, voprf.d[first_run + k]? = some (statement.runs k).d ∧
        ∃ row, rows[k.val]? = some row ∧ (statement.runs k).e = row.e ∧
          (statement.runs k).b_bar_prime = row.b_bar_prime := by
  unfold ClientVoprf.onlineStatement at h
  simp only [Option.bind_eq_bind, Option.bind_eq_some_iff, Option.some.injEq] at h
  obtain ⟨m, hm, runs, hruns, rfl⟩ := h
  refine ⟨rfl, hm, fun k => ?_⟩
  have hk := fromFn_eq_some_iff.mp hruns k
  simp only [Option.bind_eq_some_iff, Option.some.injEq] at hk
  obtain ⟨d, hd, row, hrow, hrun⟩ := hk
  simp only [← hrun]
  exact ⟨hd, row, hrow, rfl, rfl⟩

/-- An online statement of a state's own request has the request's rows. -/
theorem ClientVoprf.onlineStatement_request {state : ClientState S} {blake3 : Blake3} {m : ZqMatrix}
    {first_run : ℕ} {statement : Online S} (h : voprf.onlineStatement first_run
      (state.evaluationRows blake3 m first_run) = some statement) (k : Fin RUNS_PER_EVALUATION) :
    voprf.d[first_run + k]? = some (statement.runs k).d ∧
      (statement.runs k).e = (state.rowRequest blake3 (m k) (first_run + k)).e ∧
      (statement.runs k).b_bar_prime = (state.rowRequest blake3 (m k) (first_run + k)).b_bar_prime := by
  obtain ⟨-, -, hruns⟩ := ClientVoprf.onlineStatement_eq_some h
  obtain ⟨hd, row, hrow, he, hb⟩ := hruns k
  obtain rfl := Option.some.inj ((state.evaluationRows_getElem? blake3 m first_run k).symm.trans hrow)
  exact ⟨hd, he, hb⟩

/-- A response changes the `y` of a statement only. -/
theorem withResponse_request (statement : Online S) (rows : List RowResponse)
    (k : Fin RUNS_PER_EVALUATION) :
    ((withResponse statement rows).runs k).e = (statement.runs k).e ∧
      ((withResponse statement rows).runs k).b_bar_prime = (statement.runs k).b_bar_prime := by
  unfold withResponse
  dsimp only
  cases rows[k.val]? with
  | none => exact ⟨rfl, rfl⟩
  | some row => exact ⟨rfl, rfl⟩

/-- An evaluation that begins at a whole number of evaluations has its `m` and its `d`. -/
theorem ClientVoprf.onlineStatement_isSome {state : ClientState S} (h : state.voprf = some voprf)
    {first_run : ℕ} (haligned : H_ROWS ∣ first_run) (hle : first_run + H_ROWS ≤ state.runs.tau)
    {rows : List RowRequest} (hrows : rows.length = H_ROWS) :
    (voprf.onlineStatement first_run rows).isSome := by
  obtain ⟨v, rfl⟩ := haligned
  have hmlen : voprf.m.length = state.runs.tau / 16 := state.m_length voprf h
  have hdlen : voprf.d.length = state.runs.tau / 16 * 16 := state.d_length voprf h
  -- The runs are an evaluation's, which the preprocessing has commitments for.
  have hv : v < state.runs.tau / 16 := by
    rw [Nat.lt_div_iff_mul_lt (by norm_num)]
    have h' : 16 * v + 16 ≤ state.runs.tau := hle
    omega
  have hm : 16 * v / 16 < voprf.m.length := by
    rw [hmlen]
    omega
  have hd : ∀ k : Fin RUNS_PER_EVALUATION, 16 * v + k.val < voprf.d.length := by
    intro k
    rw [hdlen]
    have hk : k.val < 16 := k.isLt
    omega
  have hr : ∀ k : Fin RUNS_PER_EVALUATION, k.val < rows.length := fun k => by
    rw [hrows]
    exact k.isLt
  unfold ClientVoprf.onlineStatement
  rw [List.getElem?_eq_getElem hm]
  simp only [Option.bind_eq_bind, Option.bind_some]
  rw [(fromFn_eq_some_iff (g := fun k => _)).mpr fun k => by
    rw [List.getElem?_eq_getElem (hd k), Option.bind_some, List.getElem?_eq_getElem (hr k),
      Option.bind_some]]
  rfl

namespace ClientState

variable {state : ClientState S}

/-- Every evaluation of a request has a statement. -/
theorem requestStatements_isSome (blake3 : Blake3) (tag : List UInt8) :
    ∀ (inputs : List (List UInt8)) (ctr : ℕ), (state.voprf.isSome → H_ROWS ∣ ctr) →
      ctr + tauFor inputs.length ≤ state.runs.tau →
      (state.requestStatements blake3 tag ctr inputs).isSome
  | [], _, _, _ => rfl
  | input :: inputs, ctr, haligned, hle => by
    have hlen : tauFor (input :: inputs).length = H_ROWS + tauFor inputs.length :=
      tauFor_succ inputs.length
    have ih := requestStatements_isSome blake3 tag inputs (ctr + H_ROWS)
      (fun h => (haligned h).add dvd_rfl) (by omega)
    obtain ⟨statements', hst'⟩ := Option.isSome_iff_exists.mp ih
    rw [requestStatements, hst']
    cases hvoprf : state.voprf with
    | none => rfl
    | some voprf =>
      have hrows : (state.evaluationRows blake3 (hashToZqMatrix blake3 tag input) ctr).length =
          H_ROWS := List.length_ofFn
      obtain ⟨statement, hst⟩ := Option.isSome_iff_exists.mp
        (ClientVoprf.onlineStatement_isSome hvoprf (haligned (by rw [hvoprf]; rfl))
          (by omega : ctr + H_ROWS ≤ state.runs.tau) hrows)
      simp only [hst]
      rfl

/-- The statement of each evaluation of a request. -/
theorem requestStatements_getElem? (hvoprf : state.voprf = some voprf) (blake3 : Blake3)
    (tag : List UInt8) :
    ∀ (inputs : List (List UInt8)) (ctr : ℕ) (statements : List (Online S)),
      state.requestStatements blake3 tag ctr inputs = some statements →
      statements.length = inputs.length ∧ ∀ v input, inputs[v]? = some input →
        ∃ statement, statements[v]? = some statement ∧
          voprf.onlineStatement (ctr + tauFor v) (state.evaluationRows blake3
            (hashToZqMatrix blake3 tag input) (ctr + tauFor v)) = some statement
  | [], _, statements, h => by
    obtain rfl : [] = statements := Option.some.inj h
    exact ⟨rfl, fun v input hv => by simp at hv⟩
  | input :: inputs, ctr, statements, h => by
    rw [requestStatements, hvoprf] at h
    simp only [Option.bind_eq_bind, Option.bind_eq_some_iff, Option.some.injEq] at h
    obtain ⟨statement, hst, _, rfl, statements', hst', rfl⟩ := h
    obtain ⟨hlen, ih⟩ :=
      requestStatements_getElem? hvoprf blake3 tag inputs (ctr + H_ROWS) statements' hst'
    refine ⟨by simp [hlen], fun v x hv => ?_⟩
    -- The first statement is on the runs from the counter, the others from the next evaluation on.
    cases v with
    | zero =>
      obtain rfl : input = x := Option.some.inj hv
      refine ⟨statement, rfl, ?_⟩
      simpa [tauFor] using hst
    | succ v =>
      obtain ⟨statement', hget, hstatement'⟩ := ih v x hv
      have hctr : ctr + tauFor (v + 1) = ctr + H_ROWS + tauFor v := by
        rw [tauFor_succ, Nat.add_assoc]
      rw [hctr]
      exact ⟨statement', hget, hstatement'⟩

end ClientState

end Statements

/-- A request that passes the checks. -/
structure RequestAccepted (state : ClientState S) (tag : List UInt8) (inputs : List (List UInt8)) :
    Prop where
  tag_le : tag.length ≤ MAX_TAG_LEN
  nonempty : inputs ≠ []
  batch_le : inputs.length ≤ MAX_BATCH_EVALUATIONS
  voprf_batch_le : state.voprf.isSome → inputs.length ≤ MAX_VOPRF_BATCH_EVALUATIONS
  runs_le : tauFor inputs.length ≤ state.runs.remaining

/-- Request, case by case: a refusal leaves the state as it is; otherwise the request is of the next
runs, which are spent. -/
theorem requestBatch_cases (blake3 : Blake3) (state : ClientState S) (tag : List UInt8)
    (inputs : List (List UInt8)) :
    (¬ RequestAccepted state tag inputs ∧
      ∃ error, requestBatch blake3 state tag inputs = some (state, .error error)) ∨
    RequestAccepted state tag inputs ∧
      ∃ state', ClientState.Spent state state' (tauFor inputs.length) ∧
        requestBatch blake3 state tag inputs =
          (state.requestStatements blake3 tag state.runs.ctr inputs).map fun statements =>
            (state', .ok (⟨state.uid, tag, state.requestRows blake3 tag state.runs.ctr inputs⟩,
              ⟨state.uid, state.finalizeRows blake3 state.runs.ctr inputs.length,
                state.voprf.map fun _ => statements⟩)) := by
  unfold requestBatch
  simp only []
  -- One case for each check, in the source's order.
  split_ifs with htag hempty hbatch hvoprf
  · exact .inl ⟨fun h => absurd h.tag_le (by omega), _, rfl⟩
  · exact .inl ⟨fun h => h.nonempty (List.isEmpty_iff.mp hempty), _, rfl⟩
  · exact .inl ⟨fun h => absurd h.batch_le (by omega), _, rfl⟩
  · exact .inl ⟨fun h => absurd (h.voprf_batch_le hvoprf.1) (by omega), _, rfl⟩
  -- A batch within its limit has runs that a `usize` counts.
  rw [checkedTauFor_eq_some ((not_lt.mp hbatch).trans_lt (by norm_num)), Option.bind_eq_bind,
    Option.bind_some]
  split_ifs with hruns
  · exact .inl ⟨fun h => absurd h.runs_le (by omega), _, rfl⟩
  · refine .inr ⟨⟨by omega, fun h => hempty (List.isEmpty_iff.mpr h), by omega,
      fun h => by by_contra hlt; exact hvoprf ⟨h, by omega⟩, by omega⟩, ?_⟩
    obtain ⟨state', hspent, hloop⟩ := requestLoop_spec blake3 tag inputs state (by omega)
    refine ⟨state', hspent, ?_⟩
    simp only [Option.bind_eq_bind]
    rw [hloop]
    cases state.requestStatements blake3 tag state.runs.ctr inputs with
    | none => rfl
    | some statements =>
      simp only [Option.map_some, Option.bind_some, hspent.voprf]

/-- What a request that is built is: of the next runs, which are spent, with the client's online
statements in VOPRF mode. -/
theorem requestBatch_eq_ok {blake3 : Blake3} {state state' : ClientState S} {tag : List UInt8}
    {inputs : List (List UInt8)} {req : RequestMessage} {fin : FinalizeState S}
    (h : requestBatch blake3 state tag inputs = some (state', .ok (req, fin))) :
    RequestAccepted state tag inputs ∧ ClientState.Spent state state' (tauFor inputs.length) ∧
      req = ⟨state.uid, tag, state.requestRows blake3 tag state.runs.ctr inputs⟩ ∧
      ∃ statements, state.requestStatements blake3 tag state.runs.ctr inputs = some statements ∧
        fin = ⟨state.uid, state.finalizeRows blake3 state.runs.ctr inputs.length,
          state.voprf.map fun _ => statements⟩ := by
  rcases requestBatch_cases blake3 state tag inputs with
    ⟨-, error, hrefused⟩ | ⟨haccepted, state₁, hspent, hcall⟩
  · rw [hrefused] at h
    cases h
  · rw [hcall, Option.map_eq_some_iff] at h
    obtain ⟨statements, hstatements, hpair⟩ := h
    obtain ⟨rfl, hok⟩ := Prod.mk.inj hpair
    obtain ⟨rfl, rfl⟩ := Prod.mk.inj (Except.ok.inj hok)
    exact ⟨haccepted, hspent, rfl, statements, hstatements, rfl⟩

/-- A request that passes the checks is built, by a client that has spent whole evaluations if in
VOPRF mode. -/
theorem RequestAccepted.requestBatch {state : ClientState S} {tag : List UInt8}
    {inputs : List (List UInt8)} (h : RequestAccepted state tag inputs) (blake3 : Blake3)
    (haligned : state.voprf.isSome → H_ROWS ∣ state.runs.ctr) :
    ∃ state' req fin, requestBatch blake3 state tag inputs = some (state', .ok (req, fin)) := by
  have hbudget := state.runs.ctr_add_remaining
  have hruns := h.runs_le
  obtain ⟨statements, hstatements⟩ := Option.isSome_iff_exists.mp
    (ClientState.requestStatements_isSome blake3 tag inputs state.runs.ctr haligned (by omega))
  rcases requestBatch_cases blake3 state tag inputs with
    ⟨hrefused, -⟩ | ⟨-, state', -, hcall⟩
  · exact absurd h hrefused
  · rw [hstatements, Option.map_some] at hcall
    exact ⟨state', _, _, hcall⟩

/-- The rows of a request for one of its evaluations. -/
theorem ClientState.requestRows_chunk (state : ClientState S) (blake3 : Blake3) (tag : List UInt8) :
    ∀ (inputs : List (List UInt8)) (ctr v : ℕ) (input : List UInt8), inputs[v]? = some input →
      (chunksExact H_ROWS (state.requestRows blake3 tag ctr inputs))[v]? =
        some (state.evaluationRows blake3 (hashToZqMatrix blake3 tag input) (ctr + tauFor v))
  | [], _, _, _, h => by simp at h
  | first :: inputs, ctr, v, input, h => by
    have hlen : (state.evaluationRows blake3 (hashToZqMatrix blake3 tag first) ctr).length = H_ROWS :=
      List.length_ofFn
    rw [requestRows, chunksExact_append (by norm_num) hlen]
    cases v with
    | zero =>
      obtain rfl := Option.some.inj h
      rw [List.getElem?_cons_zero, tauFor_zero, Nat.add_zero]
    | succ v =>
      have hctr : ctr + H_ROWS + tauFor v = ctr + tauFor (v + 1) := by
        rw [tauFor_succ, Nat.add_assoc]
      rw [List.getElem?_cons_succ, requestRows_chunk state blake3 tag inputs (ctr + H_ROWS) v input h,
        hctr]

end PoolOprf
