import PoolOprf.Oprf.RequestSpec
import PoolOprf.Oprf.BlindEvalSpec

/-!
# What the two sides accept

`BlindEvalAccepted` is what the server checks of a request. `blindEval_refused` says that a request
that does not pass leaves the state as it is, and `blindEval_of_accepted` that one that passes is
answered by the loop. `blindEval_cases` is the outcome: a refusal, or rows of the next runs, which
are spent even when a proof fails. `accepted_or_unchanged` puts the two sides together: what
`requestBatch` returns passes the checks of every server of the session that has the runs.
-/

namespace PoolOprf

open Panic

variable {S : Permutations} {stark : Stark Val}

/-- A request that passes the checks. -/
structure BlindEvalAccepted (state : ServerState) (req : RequestMessage) : Prop where
  uid : req.uid = state.uid
  tag_le : req.tag.length ≤ MAX_TAG_LEN
  nonempty : req.rows ≠ []
  whole : H_ROWS ∣ req.rows.length
  batch_le : req.evaluations ≤ MAX_BATCH_EVALUATIONS
  voprf_batch_le : state.voprf.isSome → req.evaluations ≤ MAX_VOPRF_BATCH_EVALUATIONS
  rows : ∀ row ∈ req.rows, row.InRange
  runs_le : req.rows.length ≤ state.runs.remaining

/-- An accepted request is of whole evaluations. -/
theorem BlindEvalAccepted.tauFor_evaluations {state : ServerState} {req : RequestMessage}
    (h : BlindEvalAccepted state req) : tauFor req.evaluations = req.rows.length :=
  Nat.div_mul_cancel h.whole

/-- The runs of an accepted request are left. -/
theorem BlindEvalAccepted.tauFor_le {state : ServerState} {req : RequestMessage}
    (h : BlindEvalAccepted state req) : tauFor req.evaluations ≤ state.runs.remaining :=
  h.tauFor_evaluations.trans_le h.runs_le

/-- A request that is well formed, on its own, for a server of a mode. -/
structure RequestMessage.WellFormed (req : RequestMessage) (voprf : Bool) : Prop where
  tag_le : req.tag.length ≤ MAX_TAG_LEN
  nonempty : req.rows ≠ []
  whole : H_ROWS ∣ req.rows.length
  batch_le : req.evaluations ≤ MAX_BATCH_EVALUATIONS
  voprf_batch_le : voprf → req.evaluations ≤ MAX_VOPRF_BATCH_EVALUATIONS
  rows : ∀ row ∈ req.rows, row.InRange

/-- The checks are of the session, of the message, and of the runs left. -/
theorem blindEvalAccepted_iff {state : ServerState} {req : RequestMessage} :
    BlindEvalAccepted state req ↔ req.uid = state.uid ∧ req.WellFormed state.voprf.isSome ∧
      req.rows.length ≤ state.runs.remaining := by
  constructor
  · rintro ⟨huid, htag, hne, hwhole, hbatch, hvoprf, hrows, hruns⟩
    exact ⟨huid, ⟨htag, hne, hwhole, hbatch, hvoprf, hrows⟩, hruns⟩
  · rintro ⟨huid, ⟨htag, hne, hwhole, hbatch, hvoprf, hrows⟩, hruns⟩
    exact ⟨huid, htag, hne, hwhole, hbatch, hvoprf, hrows, hruns⟩

/-- Why a request is refused: its session, the message, or the runs left, in the order of the
checks. -/
def BlindEvalError.Refuses {stark : Stark Val} (state : ServerState) (req : RequestMessage) :
    BlindEvalError stark → Prop
  | .UnknownSession uid => req.uid ≠ state.uid ∧ uid = req.uid
  | .Malformed _ => req.uid = state.uid ∧ ¬ req.WellFormed state.voprf.isSome
  | .Exhausted needed have_runs => req.uid = state.uid ∧ req.WellFormed state.voprf.isSome ∧
      needed = req.rows.length ∧ have_runs = state.runs.remaining ∧ have_runs < needed
  | .Prove _ => False

/-- What the loop's proofs make of its rows. -/
def blindEvalResult {stark : Stark Val} (uid : Uid) (rows : List RowResponse) :
    Except (ProveError stark) (List stark.Proof) →
      Except (BlindEvalError stark) (ResponseMessage stark)
  | .error error => .error (.Prove error)
  | .ok proofs => .ok ⟨uid, rows, proofs⟩

section BlindEval

variable (S : Permutations) (blake3 : Blake3) (stark : Stark Val) (coins : ℕ → stark.Coins)
  (state : ServerState) (sk : SecretKey) (req : RequestMessage)

/-- A request that does not pass the checks is refused for what it fails, and the state stays. -/
theorem blindEval_refused (h : ¬ BlindEvalAccepted state req) :
    ∃ error : BlindEvalError stark, error.Refuses state req ∧
      blindEval S blake3 stark coins state sk req = some (state, [], .error error) := by
  unfold blindEval
  simp only []
  -- One case for each check, in the source's order: the error names the first one that fails.
  split_ifs with huid htag hwhole hbatch hvoprf hruns
  · exact ⟨.UnknownSession req.uid, ⟨huid, rfl⟩, rfl⟩
  · exact ⟨.Malformed _, ⟨not_not.mp huid, fun h => absurd h.tag_le (by omega)⟩, rfl⟩
  · refine ⟨.Malformed _, ⟨not_not.mp huid, fun h => ?_⟩, rfl⟩
    rcases hwhole with hempty | hdvd
    · exact h.nonempty (List.isEmpty_iff.mp hempty)
    · exact hdvd h.whole
  · exact ⟨.Malformed _, ⟨not_not.mp huid, fun h => absurd h.batch_le (by omega)⟩, rfl⟩
  · exact ⟨.Malformed _,
      ⟨not_not.mp huid, fun h => absurd (h.voprf_batch_le hvoprf.1) (by omega)⟩, rfl⟩
  all_goals
    -- Past the batch's size the rows are checked one by one, and last the runs that are left.
    push Not at hwhole
    cases hmalformed : req.rows.findSome? RowRequest.malformed with
    | some what =>
      refine ⟨.Malformed what, ⟨not_not.mp huid, fun h => ?_⟩, rfl⟩
      obtain ⟨row, hrow, hwhat⟩ := List.exists_of_findSome?_eq_some hmalformed
      rw [RowRequest.malformed_eq_none.mpr (h.rows row hrow)] at hwhat
      cases hwhat
    | none =>
      have hwell : req.WellFormed state.voprf.isSome :=
        ⟨by omega, fun h => hwhole.1 (List.isEmpty_iff.mpr h), hwhole.2, by omega,
          fun h => by by_contra hlt; exact hvoprf ⟨h, by omega⟩, fun row hrow =>
            RowRequest.malformed_eq_none.mp (List.findSome?_eq_none_iff.mp hmalformed row hrow)⟩
      first
        | exact ⟨.Exhausted _ _, ⟨not_not.mp huid, hwell, rfl, rfl, hruns⟩, rfl⟩
        | exact absurd (blindEvalAccepted_iff.mpr ⟨not_not.mp huid, hwell, by omega⟩) h

/-- A request that passes the checks is of evaluations of `H_ROWS` rows, which the loop answers. -/
theorem blindEval_of_accepted (h : BlindEvalAccepted state req) :
    ∃ evals : List (Fin H_ROWS → RowRequest),
      chunksExact H_ROWS req.rows = evals.map List.ofFn ∧ evals.length = req.evaluations ∧
      (∀ eval ∈ evals, ∀ k, (eval k).InRange) ∧
      (∀ m, ((evals.map List.ofFn).take m).flatten = req.rows.take (tauFor m)) ∧
      blindEval S blake3 stark coins state sk req =
        (blindEvalLoop S blake3 stark coins sk (evals.map List.ofFn) state [] []).map
          fun out => (out.1, out.2.1, blindEvalResult out.1.uid out.2.1 out.2.2) := by
  obtain ⟨evals, hevals⟩ := exists_map_ofFn fun chunk hchunk =>
    length_of_mem_chunksExact (n := H_ROWS) (l := req.rows) hchunk
  have hlen : evals.length = req.evaluations := by
    rw [RequestMessage.evaluations, ← chunksExact_length, hevals, List.length_map]
  have hflatten : ∀ m, ((evals.map List.ofFn).take m).flatten = req.rows.take (tauFor m) := by
    intro m
    rw [← hevals, take_chunksExact_flatten (by norm_num) m h.whole, tauFor]
  refine ⟨evals, hevals, hlen, fun eval heval k => ?_, hflatten, ?_⟩
  · refine h.rows _ ?_
    -- Each row of a chunk is one of the request, whose rows are in range.
    have hmem : eval k ∈ ((evals.map List.ofFn).take evals.length).flatten := by
      rw [List.take_of_length_le (by rw [List.length_map])]
      exact List.mem_flatten.mpr ⟨_, List.mem_map.mpr ⟨eval, heval, rfl⟩,
        List.mem_ofFn.mpr ⟨k, rfl⟩⟩
    rw [hflatten] at hmem
    exact List.mem_of_mem_take hmem
  · -- No check fires, so the loop runs over the whole batch.
    have hmalformed : req.rows.findSome? RowRequest.malformed = none :=
      List.findSome?_eq_none_iff.mpr fun row hrow =>
        RowRequest.malformed_eq_none.mpr (h.rows row hrow)
    have htag := h.tag_le
    have hbatch := h.batch_le
    have hruns := h.runs_le
    unfold blindEval
    simp only []
    rw [if_neg (not_not.mpr h.uid), if_neg (by omega), if_neg, if_neg (by omega), if_neg,
      hmalformed, if_neg (by omega), hevals]
    · simp only [Option.bind_eq_bind]
      cases blindEvalLoop S blake3 stark coins sk (evals.map List.ofFn) state [] [] with
      | none => rfl
      | some out =>
        obtain ⟨state', rows, proofs⟩ := out
        cases proofs <;> rfl
    · rintro ⟨hvoprf, hlt⟩
      exact absurd (h.voprf_batch_le hvoprf) (by omega)
    · rintro (hempty | hdvd)
      · exact h.nonempty (List.isEmpty_iff.mp hempty)
      · exact hdvd h.whole

/-- BlindEval, case by case: a refusal leaves the state as it is; otherwise `m` evaluations are
answered on the next runs, which are spent, and a response has them all. -/
theorem blindEval_cases :
    (¬ BlindEvalAccepted state req ∧ ∃ error,
      blindEval S blake3 stark coins state sk req = some (state, [], .error error)) ∨
    BlindEvalAccepted state req ∧ ∃ state' m result, m ≤ req.evaluations ∧
      ServerState.Spent state state' (tauFor m) ∧
      blindEval S blake3 stark coins state sk req = some (state',
        state.answers blake3 sk state.runs.ctr (req.rows.take (tauFor m)), result) ∧
      (∀ resp, result = .ok resp → m = req.evaluations ∧ resp.uid = state.uid ∧
        resp.rows = state.answers blake3 sk state.runs.ctr req.rows) ∧
      (state.voprf = none → result = .ok
        ⟨state.uid, state.answers blake3 sk state.runs.ctr req.rows, []⟩) := by
  by_cases haccepted : BlindEvalAccepted state req
  swap
  · obtain ⟨error, -, herror⟩ := blindEval_refused S blake3 stark coins state sk req haccepted
    exact .inl ⟨haccepted, error, herror⟩
  refine .inr ⟨haccepted, ?_⟩
  obtain ⟨evals, hevals, hlen, hrange, hflatten, hblind⟩ :=
    blindEval_of_accepted S blake3 stark coins state sk req haccepted
  have hruns := haccepted.runs_le
  obtain ⟨state', m, result, hm, hspent, hloop, hok, hplain⟩ := blindEvalLoop_spec (S := S) blake3
    stark coins sk evals state [] [] hrange
    (by rw [hlen, haccepted.tauFor_evaluations]; exact hruns)
  -- The loop stops after `m` evaluations, which are all of them where it returns proofs.
  have hall : m = evals.length → req.rows.take (tauFor m) = req.rows := fun h => by
    rw [h, hlen, haccepted.tauFor_evaluations, List.take_length]
  rw [hblind, hloop, List.nil_append, hflatten]
  refine ⟨state', m, _, hlen ▸ hm, hspent, rfl, ?_, ?_⟩
  · rintro resp h
    cases result with
    | error error => cases h
    | ok proofs =>
      obtain rfl := Except.ok.inj h
      exact ⟨(hok proofs rfl).trans hlen, hspent.uid, by rw [hall (hok proofs rfl)]⟩
  · intro h
    have hmall := hok [] (hplain h)
    rw [hplain h, hspent.uid, hall hmall]
    rfl

end BlindEval

/-- BlindEval, whatever the request: `n` of its rows are answered, on the next `n` runs, and a
response has them all. -/
theorem blindEval_spec (S : Permutations) (blake3 : Blake3) (stark : Stark Val)
    (coins : ℕ → stark.Coins) (state : ServerState) (sk : SecretKey) (req : RequestMessage) :
    ∃ state' n result, n ≤ req.rows.length ∧ ServerState.Spent state state' n ∧
      blindEval S blake3 stark coins state sk req = some (state',
        state.answers blake3 sk state.runs.ctr (req.rows.take n), result) ∧
      ∀ resp, result = .ok resp → n = req.rows.length ∧ req.uid = state.uid ∧
        resp.uid = state.uid ∧ resp.rows = state.answers blake3 sk state.runs.ctr req.rows := by
  rcases blindEval_cases S blake3 stark coins state sk req with
    ⟨-, error, h⟩ | ⟨haccepted, state', m, result, hm, hspent, h, hok, -⟩
  · exact ⟨state, 0, .error error, Nat.zero_le _, ServerState.Spent.refl state, h,
      fun _ h => nomatch h⟩
  · have hlen := haccepted.tauFor_evaluations
    refine ⟨state', tauFor m, result, ?_, hspent, h, fun resp hresp => ?_⟩
    · rw [← hlen]
      exact Nat.mul_le_mul_right H_ROWS hm
    · obtain ⟨rfl, huid, hrows⟩ := hok resp hresp
      exact ⟨hlen, haccepted.uid, huid, hrows⟩

/-! ## Requests of the client -/

/-- A request of a client passes the checks of every server of the session and the mode that has the
runs. -/
theorem RequestAccepted.blindEvalAccepted {client : ClientState S} {tag : List UInt8}
    {inputs : List (List UInt8)} (h : RequestAccepted client tag inputs) (blake3 : Blake3)
    {server : ServerState} (huid : server.uid = client.uid)
    (hmode : server.voprf.isSome = client.voprf.isSome)
    (hruns : tauFor inputs.length ≤ server.runs.remaining) :
    BlindEvalAccepted server
      ⟨client.uid, tag, client.requestRows blake3 tag client.runs.ctr inputs⟩ := by
  have hlen := client.requestRows_length blake3 tag inputs client.runs.ctr
  have hpos : 0 < inputs.length := List.length_pos_of_ne_nil h.nonempty
  have heval : RequestMessage.evaluations
      ⟨client.uid, tag, client.requestRows blake3 tag client.runs.ctr inputs⟩ = inputs.length := by
    rw [RequestMessage.evaluations, hlen, tauFor_div]
  refine ⟨huid.symm, h.tag_le, fun hempty => ?_, ?_, ?_, fun hvoprf => ?_,
    client.requestRows_inRange blake3 tag inputs _, by rw [hlen]; exact hruns⟩
  · rw [show client.requestRows blake3 tag client.runs.ctr inputs = [] from hempty] at hlen
    have hzero : 0 = inputs.length * 16 := hlen
    omega
  · rw [hlen]
    exact dvd_mul_left _ _
  · rw [heval]
    exact h.batch_le
  · rw [heval]
    exact h.voprf_batch_le (hmode ▸ hvoprf)

/-- Plonky3's prover fails on an evaluation of a request: on a table that passes every rule, for the
public values of the statement that the server proves of that evaluation. -/
def ProverFails (S : Permutations) (blake3 : Blake3) (stark : Stark Val) (coins : ℕ → stark.Coins)
    (state : ServerState) (sk : SecretKey) (req : RequestMessage) (error : stark.ProvingError) : Prop :=
  ∃ (voprf : ServerVoprf) (v : ℕ) (eval : Fin H_ROWS → RowRequest) (table : List (List Val))
    (pub : List Val), state.voprf = some voprf ∧
    (chunksExact H_ROWS req.rows)[v]? = some (List.ofFn eval) ∧
    OnlineAir.publicValues
      (state.provedAt S voprf blake3 sk (state.runs.ctr + tauFor v) eval).1 = some pub ∧
    (OnlineAir.air S).Holds table pub ∧
    stark.prove (coins v) (OnlineAir.air S) table pub = .error error

/-- What a server that accepts a request does: it answers all of it, unless a prover fails. -/
theorem blindEval_accepted (S : Permutations) (blake3 : Blake3) (stark : Stark Val)
    (coins : ℕ → stark.Coins) (state : ServerState) (sk : SecretKey) (req : RequestMessage)
    (haccepted : BlindEvalAccepted state req) :
    (∃ state' resp, blindEval S blake3 stark coins state sk req = some (state', resp.rows, .ok resp) ∧
      ServerState.Spent state state' req.rows.length ∧ resp.uid = req.uid ∧
      resp.rows.length = req.rows.length ∧
      resp.proofs.length = if state.voprf.isSome then req.evaluations else 0) ∨
    state.voprf.isSome ∧ ∃ state' rows error,
      ProverFails S blake3 stark coins state sk req error ∧
      blindEval S blake3 stark coins state sk req =
        some (state', rows, .error (.Prove (.Prover error))) := by
  obtain ⟨evals, hevals, hlen, hrange, hflatten, hblind⟩ :=
    blindEval_of_accepted S blake3 stark coins state sk req haccepted
  have hruns : tauFor evals.length ≤ state.runs.remaining := hlen ▸ haccepted.tauFor_le
  obtain ⟨state', m, result, -, hspent, hloop, hok, hplain⟩ :=
    blindEvalLoop_spec (S := S) blake3 stark coins sk evals state [] [] hrange hruns
  rw [hblind, hloop, List.nil_append, hflatten]
  cases result with
  | ok proofs =>
    obtain rfl := hok proofs rfl
    rw [hlen, haccepted.tauFor_evaluations] at hspent ⊢
    rw [List.take_length]
    refine .inl ⟨state', ⟨state'.uid, state.answers blake3 sk state.runs.ctr req.rows, proofs⟩, rfl,
      hspent, hspent.uid.trans haccepted.uid.symm, state.answers_length blake3 sk req.rows _, ?_⟩
    change proofs.length = _
    cases hvoprf : state.voprf with
    | none =>
      rw [Except.ok.inj (hplain hvoprf)]
      rfl
    | some voprf =>
      obtain ⟨-, hproofs⟩ := blindEvalLoop_proofs blake3 stark coins sk evals state [] [] hvoprf
        hrange hruns hloop
      obtain ⟨new, rfl, hnew, -⟩ := hproofs proofs rfl
      exact hnew.trans hlen
  | error error =>
    -- A plain server proves nothing, so its loop has no error to return.
    cases hvoprf : state.voprf with
    | none => exact absurd (hplain hvoprf) (fun h => nomatch h)
    | some voprf =>
      obtain ⟨hproofs, -⟩ := blindEvalLoop_proofs blake3 stark coins sk evals state [] [] hvoprf
        hrange hruns hloop
      obtain ⟨v, eval, hv, hproof⟩ := hproofs error rfl
      rw [List.length_nil, Nat.zero_add] at hproof
      obtain ⟨table, pub, hpub, htable, hprove⟩ := state.proofAt_eq (S := S) stark voprf blake3 sk
        (coins v) (state.runs.ctr + tauFor v) (hrange eval (List.mem_of_getElem? hv))
      rw [hprove] at hproof
      -- The statement of an accepted request holds, so the error is the prover's own.
      cases hstark : stark.prove (coins v) (OnlineAir.air S) table pub with
      | ok proof =>
        rw [hstark] at hproof
        cases hproof
      | error error' =>
        rw [hstark] at hproof
        obtain rfl := Except.error.inj (Option.some.inj hproof)
        have hchunk : (chunksExact H_ROWS req.rows)[v]? = some (List.ofFn eval) := by
          rw [hevals, List.getElem?_map, hv]
          rfl
        exact .inr ⟨rfl, state', _, error',
          ⟨voprf, v, eval, table, pub, hvoprf, hchunk, hpub, htable, hstark⟩, rfl⟩

/-- What a VOPRF server's response is: the rows of the next runs, which are spent, and a proof of
each evaluation. -/
theorem blindEval_proofs {blake3 : Blake3} {coins : ℕ → stark.Coins} {state state' : ServerState}
    {sk : SecretKey} {req : RequestMessage} {voprf : ServerVoprf} {rows : List RowResponse}
    {resp : ResponseMessage stark} (haccepted : BlindEvalAccepted state req)
    (hvoprf : state.voprf = some voprf)
    (h : blindEval S blake3 stark coins state sk req = some (state', rows, .ok resp)) :
    ServerState.Spent state state' req.rows.length ∧ resp.uid = state.uid ∧
      resp.rows = state.answers blake3 sk state.runs.ctr req.rows ∧
      resp.proofs.length = req.evaluations ∧
      ∀ (v : ℕ) (eval : Fin H_ROWS → RowRequest),
        (chunksExact H_ROWS req.rows)[v]? = some (List.ofFn eval) →
        ∃ proof, resp.proofs[v]? = some proof ∧
          state.proofAt S stark voprf blake3 sk (coins v) (state.runs.ctr + tauFor v) eval =
            some (.ok proof) := by
  obtain ⟨evals, hevals, hlen, hrange, -, hblind⟩ :=
    blindEval_of_accepted S blake3 stark coins state sk req haccepted
  have hruns : tauFor evals.length ≤ state.runs.remaining := hlen ▸ haccepted.tauFor_le
  obtain ⟨state₁, n, result, hn, hspent, hcall, hok⟩ :=
    blindEval_spec S blake3 stark coins state sk req
  obtain ⟨rfl, hpair⟩ := Prod.mk.inj (Option.some.inj (hcall.symm.trans h))
  obtain ⟨hall, -, huid, hresprows⟩ := hok resp (Prod.mk.inj hpair).2
  rw [hblind, Option.map_eq_some_iff] at h
  obtain ⟨⟨state₂, rows', proved⟩, hloop, hout⟩ := h
  have hresult : blindEvalResult state₂.uid rows' proved = .ok resp :=
    (Prod.mk.inj (Prod.mk.inj hout).2).2
  cases proved with
  | error error => cases hresult
  | ok proofs =>
    obtain rfl := Except.ok.inj hresult
    obtain ⟨-, hproofs⟩ := blindEvalLoop_proofs blake3 stark coins sk evals state [] [] hvoprf
      hrange hruns hloop
    obtain ⟨new, rfl, hnew, hproof⟩ := hproofs proofs rfl
    refine ⟨hall ▸ hspent, huid, hresprows, hnew.trans hlen, fun v eval hv => ?_⟩
    rw [hevals, List.getElem?_map] at hv
    obtain ⟨eval', heval', hofFn⟩ := Option.map_eq_some_iff.mp hv
    -- The chunks of the request are the evaluations that the loop goes over.
    obtain rfl := List.ofFn_injective hofFn
    obtain ⟨proof, hget, hprove⟩ := hproof v eval' heval'
    refine ⟨proof, hget, ?_⟩
    rw [List.length_nil, Nat.zero_add] at hprove
    exact hprove

/-- The two validators. A server refuses exactly the requests that fail a check, and then nothing
changes; it answers every row of the others, spending one run each, unless Plonky3's prover fails. A
client builds a request or leaves its state as it is, and a request that it builds passes the checks
of every server of its session and mode that has the runs. -/
theorem accepted_or_unchanged (S : Permutations) (blake3 : Blake3) (stark : Stark Val) :
    (∀ (state : ServerState) (sk : SecretKey) (req : RequestMessage) (coins : ℕ → stark.Coins),
      (¬ BlindEvalAccepted state req → ∃ error : BlindEvalError stark, error.Refuses state req ∧
        blindEval S blake3 stark coins state sk req = some (state, [], .error error)) ∧
      (BlindEvalAccepted state req →
        (∃ state' resp,
          blindEval S blake3 stark coins state sk req = some (state', resp.rows, .ok resp) ∧
          ServerState.Spent state state' req.rows.length ∧ resp.uid = req.uid ∧
          resp.rows.length = req.rows.length ∧
          resp.proofs.length = if state.voprf.isSome then req.evaluations else 0) ∨
        state.voprf.isSome ∧ ∃ state' rows error,
          ProverFails S blake3 stark coins state sk req error ∧
          blindEval S blake3 stark coins state sk req =
            some (state', rows, .error (.Prove (.Prover error))))) ∧
    ∀ (client : ClientState S) (tag : List UInt8) (inputs : List (List UInt8)),
      (∀ client' result, requestBatch blake3 client tag inputs = some (client', result) →
        (¬ RequestAccepted client tag inputs ∧ client' = client ∧ ∃ error, result = .error error) ∨
        RequestAccepted client tag inputs ∧
          ClientState.Spent client client' (inputs.length * H_ROWS) ∧
          ∃ req fin, result = .ok (req, fin) ∧ ∀ server : ServerState, server.uid = client.uid →
            server.voprf.isSome = client.voprf.isSome →
            inputs.length * H_ROWS ≤ server.runs.remaining → BlindEvalAccepted server req) ∧
      ((client.voprf.isSome → H_ROWS ∣ client.runs.ctr) →
        (requestBatch blake3 client tag inputs).isSome) := by
  refine ⟨fun state sk req coins => ⟨blindEval_refused S blake3 stark coins state sk req,
    blindEval_accepted S blake3 stark coins state sk req⟩, fun client tag inputs => ?_⟩
  rcases requestBatch_cases blake3 client tag inputs with
    ⟨hrefused, error, h⟩ | ⟨haccepted, client₁, hspent, h⟩
  · constructor
    -- A refused request returns the state as it was.
    · intro client' result hresult
      obtain ⟨rfl, rfl⟩ := Prod.mk.inj (Option.some.inj (h.symm.trans hresult))
      exact .inl ⟨hrefused, rfl, error, rfl⟩
    · intro _
      rw [h]
      rfl
  · constructor
    · intro client' result hresult
      rw [h] at hresult
      obtain ⟨statements, -, hpair⟩ := Option.map_eq_some_iff.mp hresult
      obtain ⟨rfl, rfl⟩ := Prod.mk.inj hpair
      exact .inr ⟨haccepted, hspent, _, _, rfl, fun server huid hmode hruns =>
        haccepted.blindEvalAccepted blake3 huid hmode hruns⟩
    · -- Only the statements can panic, and they do not where the batch is aligned.
      intro haligned
      have hbudget := client.runs.ctr_add_remaining
      have hruns := haccepted.runs_le
      rw [h, Option.isSome_map]
      exact ClientState.requestStatements_isSome blake3 tag inputs _ haligned (by omega)

end PoolOprf
