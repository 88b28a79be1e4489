import PoolOprf.Oprf.Matching

/-!
# No message makes a side stop

A function of the model is `none` where the source would panic. None is reachable from a message of
the other side: BlindEval has a result for every state and every request (`blindEvalAll_spec`,
through the validation of the request), and so have Request and Finalize for the states that a
preprocessing leaves. The client's runs begin at 0 and are spent by whole evaluations, so that the
online statements of a VOPRF find their commitments (`requestAll_aligned`), and what a Request
leaves for Finalize has whole evaluations (`FinalizeState.Whole`), for which Finalize takes any
response (`finalizeBatch_isSome`).
-/

namespace PoolOprf

open Panic

variable {S : Permutations} {stark : Stark Val}

/-! ## Finalize -/

/-- Neither subtraction of Finalize stops, and the entry that it reads is there. -/
theorem finalizeRow_isSome (fin : RowFinalizeState) (resp : RowResponse) :
    ∃ out, finalizeRow fin resp = some out := by
  have hentry := index_of_lt resp.y (reduceDelta_lt fin.r_sigma)
  unfold finalizeRow
  simp only [Option.bind_eq_bind, hentry, Option.bind_some, subP_eq]
  exact ⟨_, rfl⟩

/-- What is subtracted from `r_Σ` before the division is no more than it. -/
theorem reduceDelta_le (x : Zq) : (reduceDelta x).toNat ≤ x.toNat := by
  rw [reduceDelta_toNat]
  exact Nat.mod_le _ _

theorem finalizeRows_isSome (stark : Stark Val) :
    ∀ (row : ℕ) (fins : List RowFinalizeState) (resps : List RowResponse),
      ∃ result, finalizeRows stark row fins resps = some result
  | _, [], _ => ⟨.ok [], by rw [finalizeRows]; simp⟩
  | _, _ :: _, [] => ⟨.ok [], by rw [finalizeRows]; simp⟩
  | row, fin :: fins, resp :: resps => by
    rw [finalizeRows]
    by_cases hctr : resp.ctr ≠ fin.ctr
    · exact ⟨_, if_pos hctr⟩
    obtain ⟨out, hout⟩ := finalizeRow_isSome fin resp
    obtain ⟨result, hresult⟩ := finalizeRows_isSome stark (row + 1) fins resps
    rw [if_neg hctr, hout]
    simp only [Option.bind_eq_bind, Option.bind_some, hresult]
    cases result with
    | error error => exact ⟨_, rfl⟩
    | ok outs => exact ⟨_, rfl⟩

theorem finalizeLoop_isSome (stark : Stark Val) :
    ∀ (eval : ℕ) (fins : List (List RowFinalizeState)) (resps : List (List RowResponse)),
      ∃ result, finalizeLoop stark eval fins resps = some result
  | _, [], _ => ⟨.ok [], by rw [finalizeLoop]; simp⟩
  | _, _ :: _, [] => ⟨.ok [], by rw [finalizeLoop]; simp⟩
  | eval, fin_rows :: fins, resp_rows :: resps => by
    obtain ⟨result, hresult⟩ := finalizeRows_isSome stark (eval * H_ROWS) fin_rows resp_rows
    obtain ⟨result', hresult'⟩ := finalizeLoop_isSome stark (eval + 1) fins resps
    rw [finalizeLoop]
    simp only [Option.bind_eq_bind, Option.bind_some, hresult]
    cases result with
    | error error => exact ⟨_, rfl⟩
    | ok out =>
      simp only [Option.bind_some, hresult']
      cases result' with
      | error error => exact ⟨_, rfl⟩
      | ok outputs => exact ⟨_, rfl⟩

/-- What a client keeps of a request that it made: whole evaluations, and in VOPRF mode statements
whose public values can be computed. -/
structure FinalizeState.Whole (fin : FinalizeState S) : Prop where
  rows : H_ROWS ∣ fin.rows.length
  b_bar_prime : ∀ statements, fin.voprf = some statements → ∀ statement ∈ statements,
    ∀ k, (statement.runs k).b_bar_prime.toNat < DELTA

namespace FinalizeState.Whole

variable {fin : FinalizeState S}

/-- Finalize takes any response. -/
theorem finalizeBatch_isSome (h : fin.Whole) (resp : ResponseMessage stark) :
    ∃ result, finalizeBatch stark fin resp = some result := by
  unfold finalizeBatch
  by_cases huid : resp.uid ≠ fin.uid
  · exact ⟨_, if_pos huid⟩
  rw [if_neg huid]
  by_cases hlen : resp.rows.length ≠ fin.rows.length
  · exact ⟨_, if_pos hlen⟩
  rw [if_neg hlen, if_neg (not_not.mpr (Nat.mod_eq_zero_of_dvd h.rows))]
  obtain ⟨result, hresult⟩ := finalizeLoop_isSome stark 0 (chunksExact H_ROWS fin.rows)
    (chunksExact H_ROWS resp.rows)
  have houtputs : finalizeOutputs stark fin resp = some result := hresult
  cases fin.voprf with
  | none => exact ⟨result, houtputs⟩
  | some statements =>
    dsimp only
    by_cases hproofs : resp.proofs.length ≠ statements.length
    · exact ⟨_, if_pos hproofs⟩
    rw [if_neg hproofs]
    cases verifyLoop stark statements (chunksExact H_ROWS resp.rows) resp.proofs with
    | error error => exact ⟨_, rfl⟩
    | ok => exact ⟨result, houtputs⟩

/-- And so does the one-input case: its one evaluation has an output. -/
theorem finalize_isSome (h : fin.Whole) (resp : ResponseMessage stark) :
    ∃ result, finalize stark fin resp = some result := by
  unfold finalize
  by_cases hsingle : fin.evaluations ≠ 1
  · exact ⟨_, if_pos hsingle⟩
  obtain ⟨result, hresult⟩ := h.finalizeBatch_isSome resp
  rw [if_neg hsingle]
  simp only [Option.bind_eq_bind, hresult, Option.bind_some]
  cases result with
  | error error => exact ⟨_, rfl⟩
  | ok outputs =>
    obtain ⟨-, hlen, -, -, houtputs⟩ := finalizeBatch_eq_ok.mp hresult
    obtain ⟨hcount, -⟩ := (finalizeOutputs_eq_ok hlen).mp houtputs
    have hne : outputs ≠ [] := by
      rintro rfl
      rw [not_not.mp hsingle] at hcount
      cases hcount
    simp only [List.getLast?_eq_some_getLast hne, Option.bind_some]
    exact ⟨_, rfl⟩

/-- The public values of a statement with any response's `y` can be computed. -/
theorem publicValues_isSome (h : fin.Whole) {statements : List (Online S)}
    (hvoprf : fin.voprf = some statements) {statement : Online S} (hmem : statement ∈ statements)
    (rows : List RowResponse) :
    ∃ values, OnlineAir.publicValues (withResponse statement rows) = some values := by
  refine ⟨_, OnlineAir.publicValues_eq fun k => ?_⟩
  rw [(withResponse_request statement rows k).2]
  exact h.b_bar_prime statements hvoprf statement hmem k

end FinalizeState.Whole

/-! ## Request -/

/-- The statements of a request have its rows' `b̄′`. -/
theorem requestStatements_b_bar_prime {state : ClientState S} {voprf : ClientVoprf S}
    (hvoprf : state.voprf = some voprf) (blake3 : Blake3) (tag : List UInt8)
    {inputs : List (List UInt8)} {ctr : ℕ} {statements : List (Online S)}
    (h : state.requestStatements blake3 tag ctr inputs = some statements) :
    ∀ statement ∈ statements, ∀ k, (statement.runs k).b_bar_prime.toNat < DELTA := by
  obtain ⟨hlen, hget⟩ := ClientState.requestStatements_getElem? hvoprf blake3 tag inputs ctr
    statements h
  intro statement hmem k
  obtain ⟨v, hv⟩ := List.mem_iff_getElem?.mp hmem
  obtain ⟨input, hinput⟩ : ∃ input, inputs[v]? = some input :=
    ⟨_, List.getElem?_eq_getElem (hlen ▸ (List.getElem?_eq_some_iff.mp hv).1)⟩
  obtain ⟨statement', hv', hst⟩ := hget v input hinput
  obtain rfl := Option.some.inj (hv.symm.trans hv')
  obtain ⟨-, -, hb⟩ := ClientVoprf.onlineStatement_request hst k
  rw [hb]
  exact state.rowRequest_b_bar_prime_lt blake3 _ _

/-- From a budget that whole evaluations were taken from, Request has a result, and so has Finalize
for what it leaves, whatever the response; the budget stays one of whole evaluations. -/
theorem requestBatch_isSome (blake3 : Blake3) {state : ClientState S}
    (haligned : H_ROWS ∣ state.runs.ctr) (tag : List UInt8) (inputs : List (List UInt8)) :
    ∃ state' result, requestBatch blake3 state tag inputs = some (state', result) ∧
      H_ROWS ∣ state'.runs.ctr ∧ ∀ req fin, result = .ok (req, fin) → fin.Whole := by
  rcases requestBatch_cases blake3 state tag inputs with
    ⟨-, error, hcall⟩ | ⟨haccepted, state', hspent, hcall⟩
  · exact ⟨state, _, hcall, haligned, fun _ _ h => (by cases h)⟩
  have hbudget := state.runs.ctr_add_remaining
  have hruns := haccepted.runs_le
  have hsome : (state.requestStatements blake3 tag state.runs.ctr inputs).isSome :=
    ClientState.requestStatements_isSome blake3 tag inputs state.runs.ctr (fun _ => haligned)
      (by omega)
  obtain ⟨statements, hstatements⟩ := Option.isSome_iff_exists.mp hsome
  rw [hstatements, Option.map_some] at hcall
  refine ⟨state', _, hcall, ?_, fun req fin hok => ?_⟩
  · rw [hspent.ctr]
    exact haligned.add (dvd_tauFor inputs.length)
  · obtain ⟨rfl, rfl⟩ := Prod.mk.inj (Except.ok.inj hok)
    constructor
    · rw [state.finalizeRows_length blake3 inputs.length state.runs.ctr]
      exact dvd_tauFor inputs.length
    · intro statements' hvoprf
      obtain ⟨voprf, hstate, rfl⟩ := Option.map_eq_some_iff.mp hvoprf
      exact requestStatements_b_bar_prime hstate blake3 tag hstatements

/-- Any history of Requests has a result and spends whole evaluations. -/
theorem requestAll_aligned (blake3 : Blake3) :
    ∀ (calls : List RequestCall) (state : ClientState S), H_ROWS ∣ state.runs.ctr →
      ∃ state' records, requestAll blake3 calls state = some (state', records) ∧
        H_ROWS ∣ state'.runs.ctr
  | [], state, haligned => ⟨state, [], rfl, haligned⟩
  | (tag, inputs) :: calls, state, haligned => by
    obtain ⟨state₁, record, hcall, haligned₁, -⟩ :=
      requestBatch_isSome blake3 haligned tag inputs
    obtain ⟨state', records, hcalls, haligned'⟩ := requestAll_aligned blake3 calls state₁ haligned₁
    refine ⟨state', record :: records, ?_, haligned'⟩
    rw [requestAll, hcall]
    simp only [Option.bind_eq_bind, Option.bind_some, hcalls]

/-! ## Both sides -/

/-- No message of the other side makes an honest side stop. A server, from any state and after any
history of calls, has a result for every request, and so after any preprocessing that gets to its
end. A client, from any state that a preprocessing leaves, whatever it received, and after any
history of calls, has a result for every Request; and for what a Request leaves, Finalize, also of
one input, has a result for every response, the public values of the statements that it verifies can
be computed, and no row's `r_Σ` is less than what is subtracted from it. -/
theorem no_message_stops (blake3 : Blake3) (stark : Stark Val) :
    (∀ (calls : List (BlindEvalCall stark)) (state : ServerState),
      ∃ state' records, blindEvalAll S blake3 stark calls state = some (state', records) ∧
        ∀ coins sk req, ∃ result, blindEval S blake3 stark coins state' sk req = some result) ∧
    ∀ (pk : Option (VerifiedKey S)) (tau : ℕ) (uid : Uid) (ots : ClientOts)
      (received : ServerMessages S stark) (client : ClientState S),
      preprocClientWith blake3 pk tau uid ots received = some (.ok client) →
      ∀ calls : List RequestCall,
        ∃ client' records, requestAll blake3 calls client = some (client', records) ∧
          ∀ (tag : List UInt8) (inputs : List (List UInt8)),
            ∃ next result, requestBatch blake3 client' tag inputs = some (next, result) ∧
              ∀ req fin, result = .ok (req, fin) →
                (∀ resp : ResponseMessage stark,
                  (∃ outputs, finalizeBatch stark fin resp = some outputs) ∧
                  ∃ output, finalize stark fin resp = some output) ∧
                (∀ statements, fin.voprf = some statements → ∀ statement ∈ statements,
                  ∀ rows, ∃ values,
                    OnlineAir.publicValues (withResponse statement rows) = some values) ∧
                ∀ row ∈ fin.rows, (reduceDelta row.r_sigma).toNat ≤ row.r_sigma.toNat := by
  constructor
  · intro calls state
    obtain ⟨state', records, hcalls, -⟩ := blindEvalAll_spec S blake3 stark calls state
    refine ⟨state', records, hcalls, fun coins sk req => ?_⟩
    obtain ⟨state'', n, result, -, -, hcall, -⟩ :=
      blindEval_spec S blake3 stark coins state' sk req
    exact ⟨_, hcall⟩
  · intro pk tau uid ots received client hclient calls
    have hruns := (preprocClientWith_eq_ok hclient).runs
    -- A fresh state is at its first run, and every batch keeps the counter on a multiple of
    -- `H_ROWS`.
    have haligned : H_ROWS ∣ client.runs.ctr := by
      rw [hruns]
      exact Nat.dvd_zero H_ROWS
    obtain ⟨client', records, hcalls, haligned'⟩ := requestAll_aligned blake3 calls client haligned
    refine ⟨client', records, hcalls, fun tag inputs => ?_⟩
    obtain ⟨next, result, hcall, -, hwhole⟩ := requestBatch_isSome blake3 haligned' tag inputs
    refine ⟨next, result, hcall, fun req fin hok => ?_⟩
    have hfin := hwhole req fin hok
    exact ⟨fun resp => ⟨hfin.finalizeBatch_isSome resp, hfin.finalize_isSome resp⟩,
      fun statements hvoprf statement hmem rows => hfin.publicValues_isSome hvoprf hmem rows,
      fun row _ => reduceDelta_le row.r_sigma⟩

end PoolOprf
