import PoolOprf.Oprf.State
import PoolOprf.Plonky3.OnlineCompleteness

/-!
# The online phase

Request, BlindEval, and Finalize of `pool-oprf/src/online.rs`, with the online proofs of `voprf.rs`.
A function stops (`none`) where the source asserts, expects, or indexes out of bounds. What a
function changes through a reference is part of what it returns: `requestBatch` and `blindEval`
return the state also with an error, and `blindEval` the rows that it had computed by then.
-/

namespace PoolOprf

open Panic

variable {S : Permutations}

abbrev MAX_TAG_LEN : ℕ := 1024

/-- Most evaluations one request may carry. -/
abbrev MAX_BATCH_EVALUATIONS : ℕ := 1024

/-- Most evaluations one VOPRF request may carry. -/
abbrev MAX_VOPRF_BATCH_EVALUATIONS : ℕ := 8

/-! ## Errors -/

/-- Why a request is not built. -/
inductive RequestError where
  /-- preprocessing exhausted: a request needs {needed} runs, only {have} left -/
  | Exhausted (needed have_runs : ℕ)
  /-- tag is {len} bytes, the maximum is {MAX_TAG_LEN} -/
  | TagTooLong (len : ℕ)
  /-- a request must carry at least one evaluation -/
  | EmptyBatch
  /-- batch of {len} evaluations, the maximum is {MAX_BATCH_EVALUATIONS} -/
  | BatchTooLarge (len : ℕ)
  /-- VOPRF batch of {len} evaluations, the maximum is {MAX_VOPRF_BATCH_EVALUATIONS} -/
  | VoprfBatchTooLarge (len : ℕ)

/-- Why a request is not answered. -/
inductive BlindEvalError (stark : Stark Val) where
  /-- no preprocessing state for session {uid} -/
  | UnknownSession (uid : Uid)
  /-- preprocessing exhausted: a request needs {needed} runs, only {have} left -/
  | Exhausted (needed have_runs : ℕ)
  /-- malformed request: {0} -/
  | Malformed (what : String)
  /-- proving the response failed -/
  | Prove (error : ProveError stark)

/-- Why a response is refused. -/
inductive FinalizeError (stark : Stark Val) where
  /-- response is for session {got}, this request was session {want} -/
  | SessionMismatch (want got : Uid)
  /-- malformed response: {0} -/
  | Malformed (what : String)
  /-- response row {row} is for run {got}, this request used run {want} -/
  | CounterMismatch (row want got : ℕ)
  /-- this request was a batch of {len} evaluations; use finalize_batch -/
  | NotSingle (len : ℕ)
  /-- the response proof does not verify -/
  | Verify (error : VerifyError stark)

/-! ## Messages -/

/-- One row of a request. -/
structure RowRequest where
  /-- `e_i = a_i + r_i + r^ctr_{1-b̄_i,i} mod q`. -/
  e : Fin N → Zq
  /-- `b̄′ = (r_Σ mod Δ - b′_ctr) mod Δ`. -/
  b_bar_prime : Zdelta

/-- The request message the client sends to the server. -/
structure RequestMessage where
  /-- The session. -/
  uid : Uid
  /-- The public tag `t`, in the clear. -/
  tag : List UInt8
  /-- One or more evaluations end to end. -/
  rows : List RowRequest

def RequestMessage.evaluations (self : RequestMessage) : ℕ := self.rows.length / H_ROWS

/-- One row of a response. -/
structure RowResponse where
  /-- `y_i = ⌈(ã_Σ - i) mod q⌋ + r′_{(i - b̄′) mod Δ, ctr} mod p`. -/
  y : Fin DELTA → Zp
  /-- The preprocessing run this row consumed. -/
  ctr : ℕ

/-- The response message the server sends back. -/
structure ResponseMessage (stark : Stark Val) where
  /-- The session. -/
  uid : Uid
  /-- The rows, in the order of the request's. -/
  rows : List RowResponse
  /-- `π_online` of each evaluation, if a VOPRF. -/
  proofs : List stark.Proof

/-- One row's `st_fin`. -/
structure RowFinalizeState where
  /-- The run of the row. -/
  ctr : ℕ
  /-- `r_Σ = r_1 + ... + r_n mod q`. -/
  r_sigma : Zq
  /-- `r′_{b′_ctr}`. -/
  r_prime : Zp

/-- State the client keeps between Request and Finalize. -/
structure FinalizeState (S : Permutations) where
  /-- The session. -/
  uid : Uid
  /-- The rows, in the order of the request's. -/
  rows : List RowFinalizeState
  /-- If a VOPRF, the online statement of each evaluation. -/
  voprf : Option (List (Online S))

def FinalizeState.evaluations (self : FinalizeState S) : ℕ := self.rows.length / H_ROWS

/-! ## Online proofs -/

/-- The online statement of the evaluation on runs `first_run ..` with request `rows`. `y` is zero
until the response comes. -/
def ClientVoprf.onlineStatement (self : ClientVoprf S) (first_run : ℕ) (rows : List RowRequest) :
    Option (Online S) := do
  let m ← self.m[first_run / RUNS_PER_EVALUATION]?
  let runs ← fromFn fun k : Fin RUNS_PER_EVALUATION => do
    let d ← self.d[first_run + k]?
    let row ← rows[k.val]?
    some { d := d, e := row.e, b_bar_prime := row.b_bar_prime, y := fun _ => 0 }
  some { pk := self.pk.pk, m := m, runs := runs }

/-- A statement with the `y` of a response. -/
def withResponse (statement : Online S) (rows : List RowResponse) : Online S where
  pk := statement.pk
  m := statement.m
  runs k := match rows[k.val]? with
    | some row => { statement.runs k with y := row.y }
    | none => statement.runs k

/-- Verify `π_online` of one evaluation. -/
def verifyOnline (stark : Stark Val) (statement : Online S) (rows : List RowResponse)
    (proof : stark.Proof) : Except (VerifyError stark) Unit :=
  OnlineAir.verify stark (withResponse statement rows) proof

/-- The witness of `π_online`. -/
def ServerVoprf.onlineWitness (self : ServerVoprf) (blake3 : Blake3) (sk : SecretKey)
    (first_run : ℕ) (r_sigma_sums : Fin RUNS_PER_EVALUATION → Zq) : Option OnlineWitness := do
  -- `randomness^v`, from run 0 of this evaluation.
  let first_blocks ← self.delta_ot_blocks[first_run]?
  let runs ← fromFn fun k : Fin RUNS_PER_EVALUATION => do
    let ot_blocks ← self.delta_ot_blocks[first_run + k]?
    some
      { r_sigma_sum := r_sigma_sums k
        pads := fun j => rPrimeFromBlock (ot_blocks j)
        d_randomness := fun j => randomness (ot_blocks j) }
  some { sk := sk, m_randomness := maskSumRandomness blake3 first_blocks, runs := runs }

/-- The statement and the witness of `π_online`. -/
def ServerVoprf.onlineStatement (self : ServerVoprf) (S : Permutations) (blake3 : Blake3)
    (sk : SecretKey) (first_run : ℕ) (rows : List RowRequest)
    (r_sigma_sums : Fin RUNS_PER_EVALUATION → Zq) : Option (Online S × OnlineWitness) := do
  let witness ← self.onlineWitness blake3 sk first_run r_sigma_sums
  let rows ← fromFn fun k : Fin RUNS_PER_EVALUATION => rows[k.val]?
  let statement ← OnlineStatement.honest witness (fun k => (rows k).e) fun k => (rows k).b_bar_prime
  some (statement, witness)

/-- `π_online`. -/
def ServerVoprf.proveOnline (self : ServerVoprf) (S : Permutations) (blake3 : Blake3)
    (stark : Stark Val) (coins : stark.Coins) (sk : SecretKey) (first_run : ℕ)
    (rows : List RowRequest) (r_sigma_sums : Fin RUNS_PER_EVALUATION → Zq) :
    Option (Except (ProveError stark) stark.Proof) := do
  let (statement, witness) ← self.onlineStatement S blake3 sk first_run rows r_sigma_sums
  OnlineAir.prove stark coins statement witness

/-! ## Request -/

/-- The `H_ROWS` base runs of Request for one evaluation, runs `first_run .. first_run + H_ROWS`. -/
def requestEvaluation (blake3 : Blake3) (state : ClientState S) (first_run : ℕ) (m : ZqMatrix) :
    Option (List RowRequest × List RowFinalizeState) := do
  let r_bhats ← fromFn fun i => state.rBhat blake3 i first_run
  let r_not_bhats ← fromFn fun i => state.rNotBhat blake3 i first_run
  let rows ← fromFn fun k : Fin H_ROWS => do
    let e ← fromFn fun i => do
      let sum ← checkedSum ACCUM
        [(m k i).toNat, (r_bhats i k).toNat, (r_not_bhats i k).toNat]
      some (reduceQ sum)
    let r_sigma_acc ← checkedSum ACCUM (List.ofFn fun i => (r_bhats i k).toNat)
    let ctr := first_run + k
    let r_sigma := reduceQ r_sigma_acc
    let rc ← state.r_c[ctr]?
    let b_bar_prime ← subDelta (reduceDelta r_sigma) rc.b_prime
    some
      ((⟨e, b_bar_prime⟩ : RowRequest), (⟨ctr, r_sigma, rc.r_prime⟩ : RowFinalizeState))
  some (List.ofFn fun k => (rows k).1, List.ofFn fun k => (rows k).2)

/-- The evaluations of a request, one after the other. -/
def requestLoop (blake3 : Blake3) (tag : List UInt8) : List (List UInt8) → ClientState S →
    Option (ClientState S × List RowRequest × List RowFinalizeState × List (Online S))
  | [], state => some (state, [], [], [])
  | input :: inputs, state => do
    let m := hashToZqMatrix blake3 tag input
    let (first_run, state) ← state.nextRuns H_ROWS
    let (rows, fin_rows) ← requestEvaluation blake3 state first_run m
    let statements ← match state.voprf with
      | some voprf => do some [← voprf.onlineStatement first_run rows]
      | none => some []
    let (state, rows', fin_rows', statements') ← requestLoop blake3 tag inputs state
    some (state, rows ++ rows', fin_rows ++ fin_rows', statements ++ statements')

/-- Request. -/
def requestBatch (blake3 : Blake3) (state : ClientState S) (tag : List UInt8)
    (inputs : List (List UInt8)) :
    Option (ClientState S × Except RequestError (RequestMessage × FinalizeState S)) :=
  if tag.length > MAX_TAG_LEN then
    some (state, .error (.TagTooLong tag.length))
  else if inputs.isEmpty then
    some (state, .error .EmptyBatch)
  else if inputs.length > MAX_BATCH_EVALUATIONS then
    some (state, .error (.BatchTooLarge inputs.length))
  else if state.voprf.isSome ∧ inputs.length > MAX_VOPRF_BATCH_EVALUATIONS then
    some (state, .error (.VoprfBatchTooLarge inputs.length))
  else do
    let needed_runs ← checkedTauFor inputs.length
    let have_runs := state.runs.remaining
    if have_runs < needed_runs then
      some (state, .error (.Exhausted needed_runs have_runs))
    else do
      let uid := state.uid
      let (state, rows, fin_rows, statements) ← requestLoop blake3 tag inputs state
      some (state, .ok
        ({ uid := uid, tag := tag, rows := rows },
          { uid := uid, rows := fin_rows, voprf := state.voprf.map fun _ => statements }))

/-- Build a request for one input. -/
def request (blake3 : Blake3) (state : ClientState S) (tag input : List UInt8) :
    Option (ClientState S × Except RequestError (RequestMessage × FinalizeState S)) :=
  requestBatch blake3 state tag [input]

/-! ## BlindEval -/

/-- The `H_ROWS` base runs of BlindEval for one evaluation, runs `first_run .. first_run + H_ROWS`.
Returns the rows and `r̃_Σ` of each run. -/
def blindEvalOne (blake3 : Blake3) (state : ServerState) (sk : SecretKey) (reqs : List RowRequest)
    (first_run : ℕ) : Option (List RowResponse × (Fin H_ROWS → Zq)) :=
  if reqs.length = H_ROWS then do
    let rows ← fromFn fun k : Fin H_ROWS => do
      let req ← reqs[k.val]?
      let ctr := first_run + k
      let r_sigma_sum ← rSigmaSum sk fun i => state.r blake3 i first_run k
      let a_sigma_sum ← aSigmaSum sk r_sigma_sum req.e
      let pads ← state.s_s[ctr]?
      let y ← respond a_sigma_sum pads req.b_bar_prime
      some ((⟨y, ctr⟩ : RowResponse), r_sigma_sum)
    some (List.ofFn fun k => (rows k).1, fun k => (rows k).2)
  else none

/-- The evaluations of a request, one after the other, until one is not proved. Returns the state
and the rows that were computed with the result. -/
def blindEvalLoop (S : Permutations) (blake3 : Blake3) (stark : Stark Val)
    (coins : ℕ → stark.Coins) (sk : SecretKey) :
    List (List RowRequest) → ServerState → List RowResponse → List stark.Proof →
      Option (ServerState × List RowResponse × Except (ProveError stark) (List stark.Proof))
  | [], state, rows, proofs => some (state, rows, .ok proofs)
  | eval :: evals, state, rows, proofs => do
    let (first_run, state) ← state.nextRuns H_ROWS
    let (new_rows, r_sigma_sums) ← blindEvalOne blake3 state sk eval first_run
    let rows := rows ++ new_rows
    match state.voprf with
    | none => blindEvalLoop S blake3 stark coins sk evals state rows proofs
    | some voprf =>
      match ← voprf.proveOnline S blake3 stark (coins proofs.length) sk first_run eval
        r_sigma_sums with
      | .error error => some (state, rows, .error error)
      | .ok proof => blindEvalLoop S blake3 stark coins sk evals state rows (proofs ++ [proof])

/-- What is wrong with a row of a request. -/
def RowRequest.malformed (row : RowRequest) : Option String :=
  if ∃ i, Q ≤ (row.e i).toNat then
    some "e has an element outside Zq"
  else if DELTA ≤ row.b_bar_prime.toNat then
    some "b_bar' is outside [0, DELTA)"
  else none

/-- A row of a request whose operands are in range. -/
structure RowRequest.InRange (row : RowRequest) : Prop where
  e : ∀ i, (row.e i).toNat < Q
  b_bar_prime : row.b_bar_prime.toNat < DELTA

/-- BlindEval. Returns the state and the rows that were computed with the result. -/
def blindEval (S : Permutations) (blake3 : Blake3) (stark : Stark Val) (coins : ℕ → stark.Coins)
    (state : ServerState) (sk : SecretKey) (req : RequestMessage) :
    Option (ServerState × List RowResponse ×
      Except (BlindEvalError stark) (ResponseMessage stark)) :=
  if req.uid ≠ state.uid then
    some (state, [], .error (.UnknownSession req.uid))
  else if req.tag.length > MAX_TAG_LEN then
    some (state, [], .error (.Malformed "tag is longer than MAX_TAG_LEN"))
  else if req.rows.isEmpty ∨ ¬ H_ROWS ∣ req.rows.length then
    some (state, [], .error (.Malformed "row count is not a whole number of evaluations"))
  else if req.evaluations > MAX_BATCH_EVALUATIONS then
    some (state, [], .error (.Malformed "batch is larger than MAX_BATCH_EVALUATIONS"))
  else if state.voprf.isSome ∧ req.evaluations > MAX_VOPRF_BATCH_EVALUATIONS then
    some (state, [], .error (.Malformed "batch is larger than MAX_VOPRF_BATCH_EVALUATIONS"))
  else
    match req.rows.findSome? RowRequest.malformed with
    | some what => some (state, [], .error (.Malformed what))
    | none =>
      let needed_runs := req.rows.length
      let have_runs := state.runs.remaining
      if have_runs < needed_runs then
        some (state, [], .error (.Exhausted needed_runs have_runs))
      else do
        let (state, rows, proofs) ← blindEvalLoop S blake3 stark coins sk
          (chunksExact H_ROWS req.rows) state [] []
        match proofs with
        | .error error => some (state, rows, .error (.Prove error))
        | .ok proofs => some (state, rows, .ok { uid := state.uid, rows := rows, proofs := proofs })

/-! ## Finalize -/

/-- One base run of Finalize, for a single response row. -/
def finalizeRow (fin : RowFinalizeState) (resp : RowResponse) : Option Zp := do
  let r_sigma_mod_delta := (reduceDelta fin.r_sigma).toNat
  let y ← subP (← index resp.y r_sigma_mod_delta) fin.r_prime
  let r_sigma_div_delta := (fin.r_sigma.toNat - r_sigma_mod_delta) / DELTA
  subP y (UInt8.ofNat r_sigma_div_delta)

/-- One evaluation of Finalize, from its row `row` on. -/
def finalizeRows (stark : Stark Val) : ℕ → List RowFinalizeState → List RowResponse →
    Option (Except (FinalizeError stark) (List Zp))
  | row, fin :: fins, resp :: resps =>
    if resp.ctr ≠ fin.ctr then
      some (.error (.CounterMismatch row fin.ctr resp.ctr))
    else do
      let out ← finalizeRow fin resp
      match ← finalizeRows stark (row + 1) fins resps with
      | .error error => some (.error error)
      | .ok outs => some (.ok (out :: outs))
  | _, _, _ => some (.ok [])

/-- A PRF output, written over zeros. -/
def outputFrom (out : List Zp) : PrfOutput := fun k => out.getD k 0

/-- The evaluations of Finalize, from evaluation `eval` on. -/
def finalizeLoop (stark : Stark Val) : ℕ → List (List RowFinalizeState) →
    List (List RowResponse) → Option (Except (FinalizeError stark) (List PrfOutput))
  | eval, fin_rows :: fins, resp_rows :: resps => do
    match ← finalizeRows stark (eval * H_ROWS) fin_rows resp_rows with
    | .error error => some (.error error)
    | .ok out =>
      match ← finalizeLoop stark (eval + 1) fins resps with
      | .error error => some (.error error)
      | .ok outputs => some (.ok (outputFrom out :: outputs))
  | _, _, _ => some (.ok [])

/-- The proofs of a response, one after the other. -/
def verifyLoop (stark : Stark Val) : List (Online S) → List (List RowResponse) →
    List stark.Proof → Except (VerifyError stark) Unit
  | statement :: statements, rows :: rest, proof :: proofs => do
    verifyOnline stark statement rows proof
    verifyLoop stark statements rest proofs
  | _, _, _ => .ok ()

/-- Finalize, after the proofs. -/
def finalizeOutputs (stark : Stark Val) (state : FinalizeState S) (resp : ResponseMessage stark) :
    Option (Except (FinalizeError stark) (List PrfOutput)) :=
  finalizeLoop stark 0 (chunksExact H_ROWS state.rows) (chunksExact H_ROWS resp.rows)

/-- Finalize. -/
def finalizeBatch (stark : Stark Val) (state : FinalizeState S) (resp : ResponseMessage stark) :
    Option (Except (FinalizeError stark) (List PrfOutput)) :=
  if resp.uid ≠ state.uid then
    some (.error (.SessionMismatch state.uid resp.uid))
  else if resp.rows.length ≠ state.rows.length then
    some (.error (.Malformed "wrong number of rows"))
  else if state.rows.length % H_ROWS ≠ 0 then
    none
  else
    match state.voprf with
    | none => finalizeOutputs stark state resp
    | some statements =>
      if resp.proofs.length ≠ statements.length then
        some (.error (.Malformed "not one proof per evaluation"))
      else
        match verifyLoop stark statements (chunksExact H_ROWS resp.rows) resp.proofs with
        | .error error => some (.error (.Verify error))
        | .ok () => finalizeOutputs stark state resp

/-- Finalize for one input. -/
def finalize (stark : Stark Val) (state : FinalizeState S) (resp : ResponseMessage stark) :
    Option (Except (FinalizeError stark) PrfOutput) :=
  if state.evaluations ≠ 1 then
    some (.error (.NotSingle state.evaluations))
  else do
    match ← finalizeBatch stark state resp with
    | .error error => some (.error error)
    | .ok outputs => do some (.ok (← outputs.getLast?))

end PoolOprf
