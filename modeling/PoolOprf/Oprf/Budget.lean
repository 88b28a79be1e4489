import PoolOprf.Oprf.Validation

/-!
# No run is spent twice

The calls of BlindEval on one state, and those of Request, in any number and with any arguments. A
call spends the runs of the rows that it computes, from the next one on, so over a history the runs
are consecutive (`blindEvalAll_spec`, `requestAll_spec`) and no pad and no byte of a mask is in two
rows.
-/

namespace PoolOprf

variable {S : Permutations}

/-- The bytes of a block's stream that the mask of a run is cut from. -/
def maskBytes (run : ℕ) : Set ℕ := {2 * run, 2 * run + 1}

theorem disjoint_maskBytes {run run' : ℕ} (h : run ≠ run') :
    Disjoint (maskBytes run) (maskBytes run') := by
  rw [Set.disjoint_left]
  intro position hposition hposition'
  simp only [maskBytes, Set.mem_insert_iff, Set.mem_singleton_iff] at hposition hposition'
  omega

/-- Rows on consecutive runs share no run and no byte of a mask. -/
theorem pairwise_of_range' {α : Type} {ctr : α → ℕ} {rows : List α} {first : ℕ}
    (h : rows.map ctr = List.range' first rows.length) :
    rows.Pairwise fun row row' =>
      ctr row < ctr row' ∧ Disjoint (maskBytes (ctr row)) (maskBytes (ctr row')) := by
  have hlt : (rows.map ctr).Pairwise (· < ·) := by
    rw [h]
    exact List.pairwise_lt_range'
  rw [List.pairwise_map] at hlt
  exact hlt.imp fun h => ⟨h, disjoint_maskBytes h.ne⟩

/-- Rows on consecutive runs are on those runs. -/
theorem ctr_mem_of_range' {α : Type} {ctr : α → ℕ} {rows : List α} {first : ℕ}
    (h : rows.map ctr = List.range' first rows.length) :
    ∀ row ∈ rows, first ≤ ctr row ∧ ctr row < first + rows.length := by
  intro row hrow
  have hmem : ctr row ∈ List.range' first rows.length := h ▸ List.mem_map.mpr ⟨row, hrow, rfl⟩
  exact List.mem_range'_1.mp hmem

/-! ## The server -/

/-- The arguments of a BlindEval. -/
structure BlindEvalCall (stark : Stark Val) where
  /-- The key. -/
  sk : SecretKey
  /-- The request. -/
  req : RequestMessage
  /-- The prover's randomness. -/
  coins : ℕ → stark.Coins

/-- What a BlindEval left: the rows that it computed and its result. -/
abbrev BlindEvalRecord (stark : Stark Val) :=
  List RowResponse × Except (BlindEvalError stark) (ResponseMessage stark)

/-- BlindEvals on one state, one after the other. -/
def blindEvalAll (S : Permutations) (blake3 : Blake3) (stark : Stark Val) :
    List (BlindEvalCall stark) → ServerState → Option (ServerState × List (BlindEvalRecord stark))
  | [], state => some (state, [])
  | call :: calls, state => do
    let (state, record) ← blindEval S blake3 stark call.coins state call.sk call.req
    let (state, records) ← blindEvalAll S blake3 stark calls state
    some (state, record :: records)

/-- The first BlindEval, then the others. -/
theorem blindEvalAll_cons {blake3 : Blake3} {stark : Stark Val} {call : BlindEvalCall stark}
    {calls : List (BlindEvalCall stark)} {state state₁ state' : ServerState}
    {record : BlindEvalRecord stark} {records : List (BlindEvalRecord stark)}
    (hcall : blindEval S blake3 stark call.coins state call.sk call.req = some (state₁, record))
    (hcalls : blindEvalAll S blake3 stark calls state₁ = some (state', records)) :
    blindEvalAll S blake3 stark (call :: calls) state = some (state', record :: records) := by
  rw [blindEvalAll, hcall]
  simp only [Option.bind_eq_bind, Option.bind_some]
  rw [hcalls]
  rfl

/-- All rows computed, in the order of their computation. -/
def rowsComputed {stark : Stark Val} (records : List (BlindEvalRecord stark)) : List RowResponse :=
  (records.map Prod.fst).flatten

/-- What a history of BlindEvals from `state` leaves. -/
structure BlindEvalHistory {stark : Stark Val} (blake3 : Blake3) (state : ServerState)
    (calls : List (BlindEvalCall stark)) (state' : ServerState)
    (records : List (BlindEvalRecord stark)) : Prop where
  /-- One record for each call. -/
  length : records.length = calls.length
  /-- As many runs are spent as rows are computed, and nothing else changes. -/
  spent : ServerState.Spent state state' (rowsComputed records).length
  /-- The runs are consecutive over the whole history. -/
  ctr : (rowsComputed records).map RowResponse.ctr =
    List.range' state.runs.ctr (rowsComputed records).length
  /-- A row is computed from the pads and the masks of its own run. -/
  rows : ∀ pair ∈ calls.zip records, ∀ (k : ℕ) (row : RowResponse), pair.2.1[k]? = some row →
    ∃ req, pair.1.req.rows[k]? = some req ∧
      row = state.rowResponse blake3 pair.1.sk req row.ctr
  /-- A response has the rows that were computed, one for each of the request's. -/
  accepted : ∀ pair ∈ calls.zip records, ∀ resp, pair.2.2 = .ok resp →
    resp.rows = pair.2.1 ∧ ∃ first,
      resp.rows.map RowResponse.ctr = List.range' first pair.1.req.rows.length

/-- BlindEvals never stop, whatever the requests. -/
theorem blindEvalAll_spec (S : Permutations) (blake3 : Blake3) (stark : Stark Val) :
    ∀ (calls : List (BlindEvalCall stark)) (state : ServerState),
      ∃ state' records, blindEvalAll S blake3 stark calls state = some (state', records) ∧
        BlindEvalHistory blake3 state calls state' records
  | [], state => ⟨state, [], rfl, rfl, ServerState.Spent.refl state, rfl,
      fun _ h => by simp at h, fun _ h => by simp at h⟩
  | call :: calls, state => by
    obtain ⟨state₁, n, result, hn, hspent₁, hcall, hok⟩ :=
      blindEval_spec S blake3 stark call.coins state call.sk call.req
    obtain ⟨state', records, hcalls, h⟩ := blindEvalAll_spec S blake3 stark calls state₁
    have hlen : (call.req.rows.take n).length = n := by rw [List.length_take]; omega
    have hrows := state.answers_ctr blake3 call.sk (call.req.rows.take n) state.runs.ctr
    rw [hlen] at hrows
    have hrowslen := state.answers_length blake3 call.sk (call.req.rows.take n) state.runs.ctr
    rw [hlen] at hrowslen
    refine ⟨state', _, blindEvalAll_cons hcall hcalls, ?_⟩
    have hcomputed : rowsComputed ((state.answers blake3 call.sk state.runs.ctr
        (call.req.rows.take n), result) :: records) =
          state.answers blake3 call.sk state.runs.ctr (call.req.rows.take n) ++
            rowsComputed records := by
      rw [rowsComputed, List.map_cons, List.flatten_cons, rowsComputed]
    constructor
    case length => rw [List.length_cons, List.length_cons, h.length]
    case spent =>
      rw [hcomputed, List.length_append, hrowslen]
      exact hspent₁.trans h.spent
    case ctr =>
      -- The runs of the other calls begin where those of this one end.
      rw [hcomputed, List.map_append, hrows, h.ctr, hspent₁.ctr, List.length_append, hrowslen,
        List.range'_append_1]
    case rows =>
      rw [List.zip_cons_cons, List.forall_mem_cons]
      constructor
      · intro k row hrow
        rw [ServerState.answers_getElem?, Option.map_eq_some_iff] at hrow
        obtain ⟨req, hreq, rfl⟩ := hrow
        rw [List.getElem?_take] at hreq
        split_ifs at hreq
        exact ⟨req, hreq, rfl⟩
      · intro pair hpair k row hrow
        rw [← hspent₁.rowResponse]
        exact h.rows pair hpair k row hrow
    case accepted =>
      rw [List.zip_cons_cons, List.forall_mem_cons]
      refine ⟨fun resp hresp => ?_, h.accepted⟩
      obtain ⟨rfl, -, -, hresprows⟩ := hok resp hresp
      rw [hresprows, List.take_length]
      exact ⟨rfl, _, state.answers_ctr blake3 call.sk call.req.rows state.runs.ctr⟩

/-! ## The client -/

/-- The arguments of a Request: a tag and inputs. -/
abbrev RequestCall := List UInt8 × List (List UInt8)

/-- What a Request returned. -/
abbrev RequestRecord (S : Permutations) := Except RequestError (RequestMessage × FinalizeState S)

/-- Requests on one state, one after the other. -/
def requestAll (blake3 : Blake3) :
    List RequestCall → ClientState S → Option (ClientState S × List (RequestRecord S))
  | [], state => some (state, [])
  | (tag, inputs) :: calls, state => do
    let (state, record) ← requestBatch blake3 state tag inputs
    let (state, records) ← requestAll blake3 calls state
    some (state, record :: records)

/-- Calls, one after the other, are the first and then the rest. -/
theorem requestAll_cons_eq_some {blake3 : Blake3} {call : RequestCall} {calls : List RequestCall}
    {state state' : ClientState S} {records : List (RequestRecord S)}
    (h : requestAll blake3 (call :: calls) state = some (state', records)) :
    ∃ state₁ record records', requestBatch blake3 state call.1 call.2 = some (state₁, record) ∧
      requestAll blake3 calls state₁ = some (state', records') ∧ records = record :: records' := by
  rw [requestAll] at h
  simp only [Option.bind_eq_bind, Option.bind_eq_some_iff, Option.some.injEq] at h
  obtain ⟨⟨state₁, record⟩, hcall, ⟨state₂, records'⟩, hcalls, hpair⟩ := h
  obtain ⟨rfl, rfl⟩ := Prod.mk.inj hpair
  exact ⟨state₁, record, records', hcall, hcalls, rfl⟩

/-- A call in the middle of others is made on the state that the earlier ones leave, and a request
is built if it passes the checks there. -/
theorem requestAll_accepted_iff {blake3 : Blake3} {call : RequestCall} {later : List RequestCall} :
    ∀ {earlier : List RequestCall} {state state' : ClientState S} {records : List (RequestRecord S)},
      requestAll blake3 (earlier ++ call :: later) state = some (state', records) →
      ∃ before requested, requestAll blake3 earlier state = some (before, requested) ∧
        (RequestAccepted before call.1 call.2 ↔
          ∃ req fin, records[earlier.length]? = some (.ok (req, fin)))
  | [], state, state', records, h => by
    obtain ⟨state₁, record, records', hcall, -, rfl⟩ := requestAll_cons_eq_some h
    refine ⟨state, [], rfl, ?_⟩
    rw [List.length_nil, List.getElem?_cons_zero]
    -- What is returned for the call is that of `requestBatch` on the state before it.
    constructor
    · intro haccepted
      rcases requestBatch_cases blake3 state call.1 call.2 with
        ⟨hrefused, -⟩ | ⟨-, state₂, -, hcall'⟩
      · exact absurd haccepted hrefused
      · rw [hcall', Option.map_eq_some_iff] at hcall
        obtain ⟨statements, -, hpair⟩ := hcall
        obtain ⟨-, rfl⟩ := Prod.mk.inj hpair
        exact ⟨_, _, rfl⟩
    · rintro ⟨req, fin, hok⟩
      obtain rfl := Option.some.inj hok
      exact (requestBatch_eq_ok hcall).1
  | first :: earlier, state, state', records, h => by
    obtain ⟨state₁, record, records', hcall, hcalls, rfl⟩ := requestAll_cons_eq_some h
    obtain ⟨before, requested, hearlier, haccepted⟩ := requestAll_accepted_iff hcalls
    refine ⟨before, record :: requested, ?_, haccepted⟩
    rw [requestAll, hcall]
    simp only [Option.bind_eq_bind, Option.bind_some, hearlier]

/-- The rows of a Request: none if it was refused. -/
def rowsOf : RequestRecord S → List RowFinalizeState
  | .ok (_, fin) => fin.rows
  | .error _ => []

/-- All rows requested, in the order of their computation. -/
def rowsRequested (records : List (RequestRecord S)) : List RowFinalizeState :=
  (records.map rowsOf).flatten

/-- What a history of Requests from `state` leaves. -/
structure RequestHistory (blake3 : Blake3) (state : ClientState S) (calls : List RequestCall)
    (state' : ClientState S) (records : List (RequestRecord S)) : Prop where
  /-- One record for each call. -/
  length : records.length = calls.length
  /-- As many runs are spent as rows are requested, and nothing else changes. -/
  spent : ClientState.Spent state state' (rowsRequested records).length
  /-- The runs are consecutive over the whole history. -/
  ctr : (rowsRequested records).map RowFinalizeState.ctr =
    List.range' state.runs.ctr (rowsRequested records).length
  /-- A request has `H_ROWS` rows for each input, and each is computed from the entry and the masks
  of its own run. -/
  rows : ∀ pair ∈ calls.zip records, ∀ req fin, pair.2 = .ok (req, fin) →
    req.rows.length = tauFor pair.1.2.length ∧ fin.rows.length = tauFor pair.1.2.length ∧
    ∀ (v : ℕ) (input : List UInt8) (k : Fin H_ROWS), pair.1.2[v]? = some input →
      ∃ ctr, req.rows[tauFor v + k]? =
          some (state.rowRequest blake3 (hashToZqMatrix blake3 pair.1.1 input k) ctr) ∧
        fin.rows[tauFor v + k]? = some (state.rowFinalize blake3 ctr)
  /-- The runs of one request are consecutive. -/
  accepted : ∀ pair ∈ calls.zip records, ∀ req fin, pair.2 = .ok (req, fin) →
    ∃ first, fin.rows.map RowFinalizeState.ctr = List.range' first (tauFor pair.1.2.length)

/-- The first call of a history, then the others. -/
theorem RequestHistory.cons {blake3 : Blake3} {state state₁ state' : ClientState S}
    {call : RequestCall} {calls : List RequestCall} {record : RequestRecord S}
    {records : List (RequestRecord S)}
    (hspent₁ : ClientState.Spent state state₁ (rowsOf record).length)
    (hctr : (rowsOf record).map RowFinalizeState.ctr =
      List.range' state.runs.ctr (rowsOf record).length)
    (hok : ∀ req fin, record = .ok (req, fin) →
      req.rows = state.requestRows blake3 call.1 state.runs.ctr call.2 ∧
      fin.rows = state.finalizeRows blake3 state.runs.ctr call.2.length)
    (h : RequestHistory blake3 state₁ calls state' records) :
    RequestHistory blake3 state (call :: calls) state' (record :: records) := by
  have hrequested : rowsRequested (record :: records) = rowsOf record ++ rowsRequested records := by
    rw [rowsRequested, List.map_cons, List.flatten_cons, rowsRequested]
  constructor
  case length => rw [List.length_cons, List.length_cons, h.length]
  case spent =>
    rw [hrequested, List.length_append]
    exact hspent₁.trans h.spent
  case ctr =>
    -- The runs of the other calls begin where those of this one end.
    rw [hrequested, List.map_append, hctr, h.ctr, hspent₁.ctr, List.length_append,
      List.range'_append_1]
  case rows =>
    rw [List.zip_cons_cons, List.forall_mem_cons]
    constructor
    · intro req fin hrecord
      obtain ⟨hreq, hfin⟩ := hok req fin hrecord
      refine ⟨hreq ▸ state.requestRows_length blake3 call.1 call.2 state.runs.ctr,
        hfin ▸ state.finalizeRows_length blake3 call.2.length state.runs.ctr, ?_⟩
      intro v input k hinput
      rw [hreq, hfin]
      exact ⟨_, state.requestRows_getElem? blake3 call.1 k call.2 state.runs.ctr v input hinput⟩
    · rw [← hspent₁.rowRequest, ← hspent₁.rowFinalize]
      exact h.rows
  case accepted =>
    rw [List.zip_cons_cons, List.forall_mem_cons]
    refine ⟨fun req fin hrecord => ?_, h.accepted⟩
    rw [(hok req fin hrecord).2]
    exact ⟨_, state.finalizeRows_ctr blake3 call.2.length state.runs.ctr⟩

/-- Requests that do not stop. -/
theorem requestAll_spec (blake3 : Blake3) :
    ∀ (calls : List RequestCall) (state state' : ClientState S)
      (records : List (RequestRecord S)), requestAll blake3 calls state = some (state', records) →
      RequestHistory blake3 state calls state' records
  | [], state, state', records, h => by
    obtain ⟨rfl, rfl⟩ := Prod.mk.inj (Option.some.inj h)
    exact ⟨rfl, ClientState.Spent.refl state, rfl, fun _ h => by simp at h, fun _ h => by simp at h⟩
  | (tag, inputs) :: calls, state, state', records, h => by
    obtain ⟨state₁, record, records', hcall, hcalls, rfl⟩ := requestAll_cons_eq_some h
    have ih := requestAll_spec blake3 calls state₁ _ records' hcalls
    -- A refused call leaves the state as it is; an accepted one takes the next runs.
    rcases requestBatch_cases blake3 state tag inputs with
      ⟨-, error, hcall'⟩ | ⟨-, state₁', hspent₁, hcall'⟩
    · rw [hcall'] at hcall
      obtain ⟨rfl, rfl⟩ := Prod.mk.inj (Option.some.inj hcall)
      exact RequestHistory.cons (ClientState.Spent.refl state) rfl
        (fun _ _ h => nomatch h) ih
    · rw [hcall', Option.map_eq_some_iff] at hcall
      obtain ⟨statements, -, hpair⟩ := hcall
      obtain ⟨rfl, rfl⟩ := Prod.mk.inj hpair
      have hlen := state.finalizeRows_length blake3 inputs.length state.runs.ctr
      refine RequestHistory.cons ?_ ?_ (fun req fin h => ?_) ih
      · simp only [rowsOf, hlen]
        exact hspent₁
      · simp only [rowsOf, hlen]
        exact state.finalizeRows_ctr blake3 inputs.length state.runs.ctr
      · obtain ⟨rfl, rfl⟩ := Prod.mk.inj (Except.ok.inj h)
        exact ⟨rfl, rfl⟩

/-- Requests never stop, from a budget of whole evaluations if the client is of a VOPRF. -/
theorem requestAll_isSome (blake3 : Blake3) :
    ∀ (calls : List RequestCall) (state : ClientState S),
      (state.voprf.isSome → H_ROWS ∣ state.runs.ctr) → (requestAll blake3 calls state).isSome
  | [], _, _ => rfl
  | (tag, inputs) :: calls, state, haligned => by
    rw [requestAll]
    rcases requestBatch_cases blake3 state tag inputs with
      ⟨-, error, hcall⟩ | ⟨haccepted, state₁, hspent₁, hcall⟩
    · rw [hcall]
      obtain ⟨result, hresult⟩ := Option.isSome_iff_exists.mp
        (requestAll_isSome blake3 calls state haligned)
      simp only [Option.bind_eq_bind, Option.bind_some, hresult, Option.isSome_some]
    · have hbudget := state.runs.ctr_add_remaining
      have hruns := haccepted.runs_le
      obtain ⟨statements, hstatements⟩ := Option.isSome_iff_exists.mp
        (ClientState.requestStatements_isSome blake3 tag inputs state.runs.ctr haligned (by omega))
      have haligned₁ : state₁.voprf.isSome → H_ROWS ∣ state₁.runs.ctr := by
        rw [hspent₁.voprf, hspent₁.ctr]
        exact fun h => (haligned h).add (dvd_tauFor inputs.length)
      obtain ⟨result, hresult⟩ := Option.isSome_iff_exists.mp
        (requestAll_isSome blake3 calls state₁ haligned₁)
      rw [hcall, hstatements]
      simp only [Option.map_some, Option.bind_eq_bind, Option.bind_some, hresult,
        Option.isSome_some]

/-! ## Both parties -/

/-- No run is spent twice, by any history of calls on either party's state, and the counter stays
within the budget. The rows are strictly increasing in their runs, which are all below τ; no two
have a byte of a mask in common; the pads of a server's row and the entry of a client's are those of
its run. The server's calls never stop, nor do the client's from a budget that whole evaluations
were taken from. -/
theorem runs_spent_once (blake3 : Blake3) :
    (∀ (stark : Stark Val) (calls : List (BlindEvalCall stark)) (state : ServerState),
      ∃ state' records, blindEvalAll S blake3 stark calls state = some (state', records) ∧
        BlindEvalHistory blake3 state calls state' records ∧
        ((rowsComputed records).Pairwise fun row row' => row.ctr < row'.ctr ∧
          Disjoint (maskBytes row.ctr) (maskBytes row'.ctr)) ∧
        (∀ row ∈ rowsComputed records, row.ctr < state.runs.tau ∧
          state.s_s[row.ctr]? = some (state.padsAt row.ctr)) ∧
        state'.runs.ctr ≤ state'.runs.tau ∧
        state'.runs.ctr + state'.runs.remaining = state'.runs.tau) ∧
    ∀ (calls : List RequestCall) (state : ClientState S),
      ((state.voprf.isSome → H_ROWS ∣ state.runs.ctr) →
        (requestAll blake3 calls state).isSome) ∧
      ∀ state' records, requestAll blake3 calls state = some (state', records) →
        RequestHistory blake3 state calls state' records ∧
        ((rowsRequested records).Pairwise fun row row' => row.ctr < row'.ctr ∧
          Disjoint (maskBytes row.ctr) (maskBytes row'.ctr)) ∧
        (∀ row ∈ rowsRequested records, row.ctr < state.runs.tau ∧
          state.r_c[row.ctr]? = some (state.rcAt row.ctr)) ∧
        state'.runs.ctr ≤ state'.runs.tau ∧
        state'.runs.ctr + state'.runs.remaining = state'.runs.tau := by
  constructor
  · -- The server: a row below the counter that is left has its pads.
    intro stark calls state
    obtain ⟨state', records, hcalls, h⟩ := blindEvalAll_spec S blake3 stark calls state
    have hle := state'.runs.ctr_le
    have hctr := h.spent.ctr
    have htau := h.spent.tau
    refine ⟨state', records, hcalls, h, pairwise_of_range' h.ctr, fun row hrow => ?_, hle,
      state'.runs.ctr_add_remaining⟩
    have hmem := ctr_mem_of_range' h.ctr row hrow
    have hlt : row.ctr < state.runs.tau := by omega
    exact ⟨hlt, ServerState.s_s_getElem? hlt⟩
  · -- The client, over the requests that it built.
    intro calls state
    refine ⟨requestAll_isSome blake3 calls state, fun state' records hcalls => ?_⟩
    have h := requestAll_spec blake3 calls state state' records hcalls
    have hle := state'.runs.ctr_le
    have hctr := h.spent.ctr
    have htau := h.spent.tau
    refine ⟨h, pairwise_of_range' h.ctr, fun row hrow => ?_, hle, state'.runs.ctr_add_remaining⟩
    have hmem := ctr_mem_of_range' h.ctr row hrow
    have hlt : row.ctr < state.runs.tau := by omega
    exact ⟨hlt, ClientState.r_c_getElem? hlt⟩

end PoolOprf
