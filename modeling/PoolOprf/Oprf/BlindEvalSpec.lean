import PoolOprf.Oprf.Online

/-!
# What a response is

`rowResponse` is the row of a response to a request's row on a run, and `answers` those of
consecutive runs. An evaluation is `H_ROWS` of these (`blindEvalOne_of_le`), with `proofAt` as its
proof, of a statement that holds whoever made the request (`provedAt_holds`). The loop goes through
consecutive runs until an evaluation is not proved: `blindEvalLoop_cons` is one step of it,
`blindEvalLoop_spec` says what it answers, and `blindEvalLoop_proofs` what it proves.
-/

namespace PoolOprf

open Panic

variable {S : Permutations}

namespace ServerState

/-- The server's mask of a run. -/
def maskAt (state : ServerState) (blake3 : Blake3) (ctr : ℕ) (i : Fin N) : Zq :=
  maskOf blake3 (state.r_s i).ot_block ctr

/-- `r̃_Σ` of a run. -/
def rSigmaSumAt (state : ServerState) (blake3 : Blake3) (sk : SecretKey) (ctr : ℕ) : Zq :=
  reduceQ (rSigmaNat sk (state.maskAt blake3 ctr))

/-- The pads of a run. -/
def padsAt (state : ServerState) (ctr : ℕ) : Fin DELTA → Zp := state.s_s.getD ctr fun _ => 0

/-- The row of a response to a request's row on a run. -/
def rowResponse (state : ServerState) (blake3 : Blake3) (sk : SecretKey) (req : RowRequest)
    (ctr : ℕ) : RowResponse where
  y := responseEntry (reduceQ (aSigmaNat sk (state.rSigmaSumAt blake3 sk ctr) req.e))
    (state.padsAt ctr) req.b_bar_prime
  ctr := ctr

/-- The rows of a response, from a run on. -/
def answers (state : ServerState) (blake3 : Blake3) (sk : SecretKey) :
    ℕ → List RowRequest → List RowResponse
  | _, [] => []
  | ctr, req :: reqs =>
    state.rowResponse blake3 sk req ctr :: state.answers blake3 sk (ctr + 1) reqs

variable {state state' : ServerState} {n : ℕ}

/-- The rows of a run do not depend on the runs spent. -/
theorem Spent.rowResponse (h : Spent state state' n) (blake3 : Blake3) (sk : SecretKey) :
    state'.rowResponse blake3 sk = state.rowResponse blake3 sk := by
  unfold ServerState.rowResponse rSigmaSumAt maskAt padsAt
  rw [h.r_s, h.s_s]

theorem Spent.answers (h : Spent state state' n) (blake3 : Blake3) (sk : SecretKey) :
    ∀ (reqs : List RowRequest) (ctr : ℕ),
      state'.answers blake3 sk ctr reqs = state.answers blake3 sk ctr reqs
  | [], _ => rfl
  | req :: reqs, ctr => by
    rw [ServerState.answers, ServerState.answers, h.rowResponse, h.answers blake3 sk reqs]

theorem answers_length (state : ServerState) (blake3 : Blake3) (sk : SecretKey) :
    ∀ (reqs : List RowRequest) (ctr : ℕ),
      (state.answers blake3 sk ctr reqs).length = reqs.length
  | [], _ => rfl
  | req :: reqs, ctr => by
    rw [answers, List.length_cons, List.length_cons, answers_length state blake3 sk reqs]

theorem answers_append (state : ServerState) (blake3 : Blake3) (sk : SecretKey)
    (reqs' : List RowRequest) :
    ∀ (reqs : List RowRequest) (ctr : ℕ), state.answers blake3 sk ctr (reqs ++ reqs') =
      state.answers blake3 sk ctr reqs ++ state.answers blake3 sk (ctr + reqs.length) reqs'
  | [], _ => rfl
  | req :: reqs, ctr => by
    rw [List.cons_append, answers, answers, answers_append state blake3 sk reqs' reqs,
      List.length_cons, Nat.add_comm reqs.length 1, ← Nat.add_assoc, List.cons_append]

/-- The runs of a response's rows are consecutive. -/
theorem answers_ctr (state : ServerState) (blake3 : Blake3) (sk : SecretKey) :
    ∀ (reqs : List RowRequest) (ctr : ℕ),
      (state.answers blake3 sk ctr reqs).map RowResponse.ctr = List.range' ctr reqs.length
  | [], _ => rfl
  | req :: reqs, ctr => by
    rw [answers, List.map_cons, answers_ctr state blake3 sk reqs, List.length_cons,
      List.range'_succ]
    rfl

/-- A row of a response. -/
theorem answers_getElem? (state : ServerState) (blake3 : Blake3) (sk : SecretKey) :
    ∀ (reqs : List RowRequest) (ctr k : ℕ), (state.answers blake3 sk ctr reqs)[k]? =
      reqs[k]?.map fun req => state.rowResponse blake3 sk req (ctr + k)
  | [], _, _ => rfl
  | req :: reqs, ctr, 0 => rfl
  | req :: reqs, ctr, k + 1 => by
    rw [answers, List.getElem?_cons_succ, List.getElem?_cons_succ,
      answers_getElem? state blake3 sk reqs, Nat.add_assoc, Nat.add_comm 1 k]

/-- The rows of an array of a request's rows. -/
theorem answers_ofFn (state : ServerState) (blake3 : Blake3) (sk : SecretKey) {n : ℕ}
    (rows : Fin n → RowRequest) (ctr : ℕ) : state.answers blake3 sk ctr (List.ofFn rows) =
      List.ofFn fun k => state.rowResponse blake3 sk (rows k) (ctr + k) := by
  refine List.ext_getElem? fun k => ?_
  rw [answers_getElem?, List.getElem?_ofFn, List.getElem?_ofFn]
  split_ifs <;> rfl

/-- The rows of a response to one evaluation of a request. -/
theorem answers_chunk (state : ServerState) (blake3 : Blake3) (sk : SecretKey) (reqs : List RowRequest)
    (ctr : ℕ) {v : ℕ} {eval : List RowRequest} (h : (chunksExact H_ROWS reqs)[v]? = some eval) :
    (chunksExact H_ROWS (state.answers blake3 sk ctr reqs))[v]? =
      some (state.answers blake3 sk (ctr + tauFor v) eval) := by
  have hlt : v < reqs.length / H_ROWS := by
    rw [← chunksExact_length]
    exact (List.getElem?_eq_some_iff.mp h).1
  rw [chunksExact_getElem? hlt] at h
  rw [chunksExact_getElem? (by rwa [answers_length]), ← Option.some.inj h]
  -- Entry `k` of the evaluation is entry `v · H_ROWS + k` of the request.
  congr 1
  refine List.ext_getElem? fun k => ?_
  rw [List.getElem?_take, List.getElem?_drop, answers_getElem?, answers_getElem?, List.getElem?_take,
    List.getElem?_drop, tauFor, Nat.add_assoc]
  split_ifs
  · rfl
  · rfl

/-- The pads of a run that exists. -/
theorem s_s_getElem? {state : ServerState} {ctr : ℕ} (h : ctr < state.runs.tau) :
    state.s_s[ctr]? = some (state.padsAt ctr) := by
  rw [← state.s_s_length] at h
  rw [padsAt, List.getD_eq_getElem?_getD, List.getElem?_eq_getElem h, Option.getD_some]

end ServerState

/-! ## Online proofs -/

namespace ServerVoprf

/-- The 1-out-of-Δ OT blocks of a run. -/
def blocksAt (voprf : ServerVoprf) (run : ℕ) : Fin DELTA → Block :=
  voprf.delta_ot_blocks.getD run fun _ _ => 0

theorem delta_ot_blocks_getElem? {voprf : ServerVoprf} {run : ℕ}
    (h : run < voprf.delta_ot_blocks.length) :
    voprf.delta_ot_blocks[run]? = some (voprf.blocksAt run) := by
  rw [blocksAt, List.getD_eq_getElem?_getD, List.getElem?_eq_getElem h, Option.getD_some]

/-- The witness of an evaluation. -/
def witnessAt (voprf : ServerVoprf) (blake3 : Blake3) (sk : SecretKey) (first_run : ℕ)
    (r_sigma_sums : Fin RUNS_PER_EVALUATION → Zq) : OnlineWitness where
  sk := sk
  m_randomness := maskSumRandomness blake3 (voprf.blocksAt first_run)
  runs k :=
    { r_sigma_sum := r_sigma_sums k
      pads := fun j => rPrimeFromBlock (voprf.blocksAt (first_run + k) j)
      d_randomness := fun j => randomness (voprf.blocksAt (first_run + k) j) }

/-- The statement and the witness that the server proves of an evaluation on runs that exist. -/
theorem onlineStatement_of_le {voprf : ServerVoprf} {first_run : ℕ}
    (hle : first_run + H_ROWS ≤ voprf.delta_ot_blocks.length) {rows : Fin H_ROWS → RowRequest}
    (hb : ∀ k, (rows k).b_bar_prime.toNat < DELTA) (blake3 : Blake3) (sk : SecretKey)
    (r_sigma_sums : Fin RUNS_PER_EVALUATION → Zq) :
    voprf.onlineStatement S blake3 sk first_run (List.ofFn rows) r_sigma_sums =
      some (OnlineStatement.ofWitness (voprf.witnessAt blake3 sk first_run r_sigma_sums)
        (fun k => (rows k).e) fun k => (rows k).b_bar_prime,
        voprf.witnessAt blake3 sk first_run r_sigma_sums) := by
  have hle' : first_run + 16 ≤ voprf.delta_ot_blocks.length := hle
  have hwitness : voprf.onlineWitness blake3 sk first_run r_sigma_sums =
      some (voprf.witnessAt blake3 sk first_run r_sigma_sums) := by
    unfold onlineWitness
    rw [delta_ot_blocks_getElem? (by omega)]
    simp only [Option.bind_eq_bind, Option.bind_some]
    rw [fromFn_eq_some_iff.mpr fun k : Fin RUNS_PER_EVALUATION => by
      have hk : k.val < 16 := k.isLt
      rw [delta_ot_blocks_getElem? (by omega), Option.bind_some]]
    rfl
  have hrows : (fromFn fun k : Fin RUNS_PER_EVALUATION => (List.ofFn rows)[k.val]?) = some rows :=
    fromFn_ofFn rows
  unfold onlineStatement
  rw [hwitness, hrows]
  simp only [Option.bind_eq_bind, Option.bind_some]
  rw [OnlineStatement.honest_eq hb]
  rfl

end ServerVoprf

/-! ## BlindEval -/

/-- The server's check of a row. -/
theorem RowRequest.malformed_eq_none {row : RowRequest} :
    row.malformed = none ↔ row.InRange := by
  unfold RowRequest.malformed
  constructor
  · intro h
    split_ifs at h with he hb
    push Not at he hb
    exact ⟨he, hb⟩
  · intro h
    rw [if_neg (by push Not; exact h.e), if_neg (by push Not; exact h.b_bar_prime)]

/-- An evaluation on runs that exist. -/
theorem blindEvalOne_of_le (blake3 : Blake3) {state : ServerState} (sk : SecretKey)
    {rows : Fin H_ROWS → RowRequest} (hrows : ∀ k, (rows k).InRange) {first_run : ℕ}
    (hle : first_run + H_ROWS ≤ state.runs.tau) :
    blindEvalOne blake3 state sk (List.ofFn rows) first_run =
      some (state.answers blake3 sk first_run (List.ofFn rows),
        fun k : Fin H_ROWS => state.rSigmaSumAt blake3 sk (first_run + k)) := by
  have hrow : (fromFn fun k : Fin H_ROWS => do
      let req ← (List.ofFn rows)[k.val]?
      let r_sigma_sum ← rSigmaSum sk fun i => state.r blake3 i first_run k
      let a_sigma_sum ← aSigmaSum sk r_sigma_sum req.e
      let pads ← state.s_s[first_run + k.val]?
      let y ← respond a_sigma_sum pads req.b_bar_prime
      some ((⟨y, first_run + k⟩ : RowResponse), r_sigma_sum)) =
        some fun k => (state.rowResponse blake3 sk (rows k) (first_run + k),
          state.rSigmaSumAt blake3 sk (first_run + k)) := by
    refine fromFn_eq_some_iff.mpr fun k => ?_
    have hk : k.val < 16 := k.isLt
    -- The row, its masks and its pads are all there, because the runs are in the budget.
    have hget : (List.ofFn rows)[k.val]? = some (rows k) := by
      rw [List.getElem?_eq_getElem (by rw [List.length_ofFn]; exact k.isLt), List.getElem_ofFn]
    have hmasks : rSigmaSum sk (fun i => state.r blake3 i first_run k) =
        some (state.rSigmaSumAt blake3 sk (first_run + k)) := by
      unfold ServerState.r
      rw [rSigmaSum_of_lt sk fun i => expand_lt blake3 (state.r_s i).ot_block first_run k,
        ServerState.rSigmaSumAt]
      unfold ServerState.maskAt
      simp only [expand_apply]
    have hle' : first_run + 16 ≤ state.runs.tau := hle
    have hpads : state.s_s[first_run + k.val]? = some (state.padsAt (first_run + k)) :=
      ServerState.s_s_getElem? (by omega)
    rw [hget, hmasks, hpads]
    simp only [Option.bind_eq_bind, Option.bind_some]
    rw [aSigmaSum_eq, Option.bind_some, respond_of_lt _ (reduceQ_lt _) (hrows k).b_bar_prime]
    rfl
  unfold blindEvalOne
  rw [if_pos List.length_ofFn]
  simp only [Option.bind_eq_bind] at hrow ⊢
  rw [hrow, Option.bind_some, state.answers_ofFn]

/-! ### Proofs of a response -/

/-- The statement and the witness of an evaluation's proof. -/
def ServerState.provedAt (S : Permutations) (state : ServerState) (voprf : ServerVoprf)
    (blake3 : Blake3) (sk : SecretKey) (first_run : ℕ) (rows : Fin H_ROWS → RowRequest) :
    Online S × OnlineWitness :=
  let witness := voprf.witnessAt blake3 sk first_run
    fun k => state.rSigmaSumAt blake3 sk (first_run + k)
  (OnlineStatement.ofWitness witness (fun k => (rows k).e) fun k => (rows k).b_bar_prime, witness)

theorem ServerState.Spent.provedAt {state state' : ServerState} {n : ℕ} (h : Spent state state' n)
    (voprf : ServerVoprf) (blake3 : Blake3) (sk : SecretKey) :
    state'.provedAt S voprf blake3 sk = state.provedAt S voprf blake3 sk := by
  unfold ServerState.provedAt rSigmaSumAt maskAt
  rw [h.r_s]

/-- Whoever made a request, and however: if its operands are in range, the statement that the server
proves of it holds for the server's witness. -/
theorem ServerState.provedAt_holds (state : ServerState) (voprf : ServerVoprf) (blake3 : Blake3)
    (sk : SecretKey) (first_run : ℕ) {rows : Fin H_ROWS → RowRequest}
    (hrows : ∀ k, (rows k).InRange) :
    (state.provedAt S voprf blake3 sk first_run rows).1.Holds
      (state.provedAt S voprf blake3 sk first_run rows).2 :=
  OnlineStatement.ofWitness_holds (fun _ => reduceQ_lt _) (fun k => (hrows k).e)
    fun k => (hrows k).b_bar_prime

/-- The proof of an evaluation. -/
def ServerState.proofAt (S : Permutations) (stark : Stark Val) (state : ServerState)
    (voprf : ServerVoprf) (blake3 : Blake3) (sk : SecretKey) (coins : stark.Coins) (first_run : ℕ)
    (rows : Fin H_ROWS → RowRequest) : Option (Except (ProveError stark) stark.Proof) :=
  OnlineAir.prove stark coins (state.provedAt S voprf blake3 sk first_run rows).1
    (state.provedAt S voprf blake3 sk first_run rows).2

/-- Proving an evaluation hands Plonky3 a table that passes every rule. -/
theorem ServerState.proofAt_eq (stark : Stark Val) (state : ServerState) (voprf : ServerVoprf)
    (blake3 : Blake3) (sk : SecretKey) (coins : stark.Coins) (first_run : ℕ)
    {rows : Fin H_ROWS → RowRequest} (hrows : ∀ k, (rows k).InRange) :
    ∃ table pub,
      OnlineAir.publicValues (state.provedAt S voprf blake3 sk first_run rows).1 = some pub ∧
      (OnlineAir.air S).Holds table pub ∧
      state.proofAt S stark voprf blake3 sk coins first_run rows =
        some (Plonky3.proved (stark.prove coins (OnlineAir.air S) table pub)) := by
  have hholds := OnlineStatement.holdsFor_eq_some_true.mpr
    (state.provedAt_holds (S := S) voprf blake3 sk first_run hrows)
  rcases OnlineAir.prove_cases stark coins (state.provedAt S voprf blake3 sk first_run rows).1
    (state.provedAt S voprf blake3 sk first_run rows).2 with
    ⟨hfalse, -⟩ | ⟨table, pub, -, hpub, htable, hprove⟩
  · rw [hholds] at hfalse
    cases hfalse
  · exact ⟨table, pub, hpub, htable, hprove⟩

/-- One evaluation of the loop. -/
theorem blindEvalLoop_cons (S : Permutations) (blake3 : Blake3) (stark : Stark Val)
    (coins : ℕ → stark.Coins) (sk : SecretKey) {eval : Fin H_ROWS → RowRequest}
    (hrange : ∀ k, (eval k).InRange) {state : ServerState} (hle : H_ROWS ≤ state.runs.remaining) :
    ∃ state₁, ServerState.Spent state state₁ H_ROWS ∧
      ∀ (evals : List (List RowRequest)) (rows : List RowResponse) (proofs : List stark.Proof),
      blindEvalLoop S blake3 stark coins sk (List.ofFn eval :: evals) state rows proofs =
        match state.voprf with
        | none => blindEvalLoop S blake3 stark coins sk evals state₁
            (rows ++ state.answers blake3 sk state.runs.ctr (List.ofFn eval)) proofs
        | some voprf =>
          (state.proofAt S stark voprf blake3 sk (coins proofs.length) state.runs.ctr eval).bind
            fun
            | .error error => some (state₁,
                rows ++ state.answers blake3 sk state.runs.ctr (List.ofFn eval), .error error)
            | .ok proof => blindEvalLoop S blake3 stark coins sk evals state₁
                (rows ++ state.answers blake3 sk state.runs.ctr (List.ofFn eval))
                (proofs ++ [proof]) := by
  obtain ⟨state₁, hnext, hspent⟩ := ServerState.nextRuns_of_le hle
  refine ⟨state₁, hspent, fun evals rows proofs => ?_⟩
  have hbudget := state.runs.ctr_add_remaining
  have htau := hspent.tau
  -- The masks are read after the runs are reserved, which leaves them as they were.
  have heval := blindEvalOne_of_le blake3 sk hrange
    (by omega : state.runs.ctr + H_ROWS ≤ state₁.runs.tau)
  rw [hspent.answers] at heval
  rw [blindEvalLoop, hnext]
  simp only [Option.bind_eq_bind, Option.bind_some]
  rw [heval, hspent.voprf]
  simp only [Option.bind_some]
  cases hvoprf : state.voprf with
  | none => rfl
  | some voprf =>
    have hdelta := state.delta_length voprf hvoprf
    have hle' : state.runs.ctr + H_ROWS ≤ voprf.delta_ot_blocks.length := by omega
    -- What is proved does not depend on the runs that are spent either.
    have hproof : voprf.proveOnline S blake3 stark (coins proofs.length) sk state.runs.ctr
        (List.ofFn eval) (fun k => state₁.rSigmaSumAt blake3 sk (state.runs.ctr + k)) =
          state.proofAt S stark voprf blake3 sk (coins proofs.length) state.runs.ctr eval := by
      rw [ServerVoprf.proveOnline,
        ServerVoprf.onlineStatement_of_le hle' fun k => (hrange k).b_bar_prime,
        ServerState.proofAt, ← hspent.provedAt]
      rfl
    refine (congrArg (Option.bind · _) hproof).trans (Option.bind_congr fun proved _ => ?_)
    cases proved <;> rfl

/-- The loop over the evaluations of a request. `m` of them are answered, on the next runs: all of
them, unless one is not proved. -/
theorem blindEvalLoop_spec (blake3 : Blake3) (stark : Stark Val) (coins : ℕ → stark.Coins)
    (sk : SecretKey) :
    ∀ (evals : List (Fin H_ROWS → RowRequest)) (state : ServerState) (rows : List RowResponse)
      (proofs : List stark.Proof), (∀ eval ∈ evals, ∀ k, (eval k).InRange) →
      tauFor evals.length ≤ state.runs.remaining →
      ∃ state' m result, m ≤ evals.length ∧ ServerState.Spent state state' (tauFor m) ∧
        blindEvalLoop S blake3 stark coins sk (evals.map List.ofFn) state rows proofs =
          some (state', rows ++ state.answers blake3 sk state.runs.ctr
            ((evals.map List.ofFn).take m).flatten, result) ∧
        (∀ proofs', result = .ok proofs' → m = evals.length) ∧
        (state.voprf = none → result = .ok proofs)
  | [], state, rows, proofs, _, _ =>
    ⟨state, 0, .ok proofs, le_rfl, ServerState.Spent.refl state, by
      rw [List.map_nil, blindEvalLoop, List.take_nil, List.flatten_nil, ServerState.answers,
        List.append_nil], fun _ _ => rfl, fun _ => rfl⟩
  | eval :: evals, state, rows, proofs, hrange, hle => by
    rw [List.forall_mem_cons] at hrange
    have hlen : tauFor (eval :: evals).length = H_ROWS + tauFor evals.length := tauFor_succ evals.length
    obtain ⟨state₁, hspent₁, hcons⟩ := blindEvalLoop_cons S blake3 stark coins sk hrange.1
      (show H_ROWS ≤ state.runs.remaining by omega)
    have hbudget := state.runs.ctr_add_remaining
    have hbudget₁ := state₁.runs.ctr_add_remaining
    have hctr := hspent₁.ctr
    have htau := hspent₁.tau
    -- What the loop does once this evaluation is answered and the next runs are taken.
    have hrest : ∀ proofs', ∃ state' m result, m ≤ (eval :: evals).length ∧
        ServerState.Spent state state' (tauFor m) ∧
        blindEvalLoop S blake3 stark coins sk (evals.map List.ofFn) state₁
            (rows ++ state.answers blake3 sk state.runs.ctr (List.ofFn eval)) proofs' =
          some (state', rows ++ state.answers blake3 sk state.runs.ctr
            (((eval :: evals).map List.ofFn).take m).flatten, result) ∧
        (∀ proofs'', result = .ok proofs'' → m = (eval :: evals).length) ∧
        (state.voprf = none → result = .ok proofs') := by
      intro proofs'
      obtain ⟨state', m, result, hm, hspent', hloop, hok, hplain⟩ := blindEvalLoop_spec blake3 stark
        coins sk evals state₁ (rows ++ state.answers blake3 sk state.runs.ctr (List.ofFn eval))
        proofs' hrange.2 (by omega)
      refine ⟨state', m + 1, result, Nat.succ_le_succ hm, ?_, ?_,
        fun proofs'' h => congrArg Nat.succ (hok proofs'' h),
        fun h => hplain (hspent₁.voprf.trans h)⟩
      · rw [tauFor_succ]
        exact hspent₁.trans hspent'
      · rw [hloop, hspent₁.answers, hctr, List.map_cons, List.take_succ_cons, List.flatten_cons,
          ServerState.answers_append, List.length_ofFn, List.append_assoc]
    rw [List.map_cons, hcons]
    cases hvoprf : state.voprf with
    | none => simpa only [hvoprf, List.map_cons] using hrest proofs
    | some voprf =>
      obtain ⟨table, pub, -, -, hproof⟩ := state.proofAt_eq (S := S) stark voprf blake3 sk
        (coins proofs.length) state.runs.ctr hrange.1
      simp only [hproof, Option.bind_some]
      cases Plonky3.proved (stark.prove (coins proofs.length) (OnlineAir.air S) table pub) with
      | error error =>
        -- The runs and the rows of this evaluation are spent, although it is not proved.
        refine ⟨state₁, 1, .error error, by simp, by simpa [tauFor] using hspent₁, ?_,
          (fun _ h => by cases h), fun h => by cases h⟩
        simp
      | ok proof =>
        obtain ⟨state', m, result, hm, hspent', hloop, hok, -⟩ := hrest (proofs ++ [proof])
        exact ⟨state', m, result, hm, hspent', hloop, hok, fun h => by cases h⟩

/-- The proofs that the loop makes: one for each evaluation, in order, until one fails. -/
theorem blindEvalLoop_proofs (blake3 : Blake3) (stark : Stark Val) (coins : ℕ → stark.Coins)
    (sk : SecretKey) {voprf : ServerVoprf} :
    ∀ (evals : List (Fin H_ROWS → RowRequest)) (state : ServerState) (rows : List RowResponse)
      (proofs : List stark.Proof) {state' : ServerState} {rows' : List RowResponse}
      {result : Except (ProveError stark) (List stark.Proof)},
      state.voprf = some voprf → (∀ eval ∈ evals, ∀ k, (eval k).InRange) →
      tauFor evals.length ≤ state.runs.remaining →
      blindEvalLoop S blake3 stark coins sk (evals.map List.ofFn) state rows proofs =
        some (state', rows', result) →
      (∀ error, result = .error error → ∃ v eval, evals[v]? = some eval ∧
        state.proofAt S stark voprf blake3 sk (coins (proofs.length + v))
          (state.runs.ctr + tauFor v) eval = some (.error error)) ∧
      (∀ proofs', result = .ok proofs' → ∃ new, proofs' = proofs ++ new ∧
        new.length = evals.length ∧ ∀ (v : ℕ) eval, evals[v]? = some eval →
          ∃ proof, new[v]? = some proof ∧
            state.proofAt S stark voprf blake3 sk (coins (proofs.length + v))
              (state.runs.ctr + tauFor v) eval = some (.ok proof))
  | [], state, rows, proofs, state', rows', result, _, _, _, h => by
    rw [List.map_nil, blindEvalLoop] at h
    obtain rfl := (Prod.mk.inj (Prod.mk.inj (Option.some.inj h)).2).2
    refine ⟨(fun _ h => by cases h), fun proofs' h => ⟨[], ?_, rfl, fun v eval hv => ?_⟩⟩
    · rw [List.append_nil, Except.ok.inj h]
    · simp at hv
  | eval :: evals, state, rows, proofs, state', rows', result, hvoprf, hrange, hle, h => by
    rw [List.forall_mem_cons] at hrange
    have hlen : tauFor (eval :: evals).length = H_ROWS + tauFor evals.length := tauFor_succ evals.length
    obtain ⟨state₁, hspent, hcons⟩ := blindEvalLoop_cons S blake3 stark coins sk hrange.1
      (show H_ROWS ≤ state.runs.remaining by omega)
    have hbudget := state.runs.ctr_add_remaining
    have hbudget₁ := state₁.runs.ctr_add_remaining
    have hctr := hspent.ctr
    have htau := hspent.tau
    rw [List.map_cons, hcons, hvoprf] at h
    simp only [Option.bind_eq_some_iff] at h
    obtain ⟨proved, hproof, h⟩ := h
    -- The first proof that fails ends the loop; otherwise its rest starts one evaluation further
    -- on.
    cases proved with
    | error error =>
      obtain rfl := (Prod.mk.inj (Prod.mk.inj (Option.some.inj h)).2).2
      refine ⟨fun error' h => ⟨0, eval, rfl, ?_⟩, (fun _ h => by cases h)⟩
      obtain rfl := Except.error.inj h
      simpa [tauFor] using hproof
    | ok proof =>
      obtain ⟨herror, hok⟩ := blindEvalLoop_proofs blake3 stark coins sk evals state₁ _ _
        (hspent.voprf.trans hvoprf) hrange.2 (by omega) h
      -- Evaluation `v` of the rest is evaluation `v + 1`: in its coins, in its runs, and in what is
      -- proved.
      have hindex : ∀ v, coins ((proofs ++ [proof]).length + v) = coins (proofs.length + (v + 1)) :=
        fun v => by rw [List.length_append, List.length_singleton, Nat.add_assoc, Nat.add_comm 1 v]
      have hrun : ∀ v, state₁.runs.ctr + tauFor v = state.runs.ctr + tauFor (v + 1) := fun v => by
        rw [hctr, tauFor_succ, Nat.add_assoc]
      have hsame : ∀ coins first_run eval,
          state₁.proofAt S stark voprf blake3 sk coins first_run eval =
            state.proofAt S stark voprf blake3 sk coins first_run eval := fun _ _ _ => by
        rw [ServerState.proofAt, ServerState.proofAt, hspent.provedAt]
      simp only [hindex, hrun, hsame] at herror hok
      refine ⟨fun error h => ?_, fun proofs' h => ?_⟩
      · obtain ⟨v, eval', hv, hproof'⟩ := herror error h
        exact ⟨v + 1, eval', hv, hproof'⟩
      · obtain ⟨new, rfl, hnew, hall⟩ := hok proofs' h
        refine ⟨proof :: new, by simp, by simp [hnew], ?_⟩
        rintro (_ | v) eval' hv
        · obtain rfl := Option.some.inj hv
          exact ⟨proof, rfl, by simpa [tauFor] using hproof⟩
        · exact hall v eval' hv

end PoolOprf
