import PoolOprf.Lib.Reachable
import PoolOprf.Oprf.Session

/-!
# No wrong output over ordered streams

What an `OprfClient` returns over ordered streams, whatever calls are abandoned. A history
(`OprfHistory`) says of each session what the server had at its start and how many runs the client
has spent, and lists the requests that the client has made. The invariant (`OprfInvariant`) is that
the server's counter, with what its tasks may still spend, is no more than the first run of any
request of its session that it has yet to answer. So a response is for runs no later than those of
the request that it answers (`Made.AnsweredBy`), an older request's runs are before the newest's,
and a response that the newest accepts answers it on its own runs (`OprfInvariant.client_returns`).
-/

namespace PoolOprf

variable {S : Permutations} {stark : Stark Val}

/-! ## What the tasks do -/

/-- What is left of the client's state, with a request's runs spent if there is a request. -/
theorem requestTask_spec (blake3 : Blake3) (call : OprfCall) (state : Option (ClientState S)) :
    (∀ client', (requestTask blake3 call state).1 = some client' →
      ∃ client n, state = some client ∧ ClientState.Spent client client' n) ∧
    ∀ req fin, (requestTask blake3 call state).2 = some (.ok (req, fin)) →
      ∃ client client', state = some client ∧ (requestTask blake3 call state).1 = some client' ∧
        requestBatch blake3 client call.tag call.inputs = some (client', .ok (req, fin)) := by
  unfold requestTask
  cases state with
  | none => exact ⟨fun _ h => (by cases h), fun _ _ h => (by cases h)⟩
  | some client =>
    rw [Option.bind_some, call.request_eq]
    rcases requestBatch_cases blake3 client call.tag call.inputs with
      ⟨-, error, hcall⟩ | ⟨-, client₁, hspent, hcall⟩
    · rw [hcall]
      refine ⟨fun client' h => ⟨client, 0, rfl, ?_⟩, fun _ _ h => (by cases h)⟩
      obtain rfl := Option.some.inj h
      exact ClientState.Spent.refl client
    · rw [hcall]
      cases hst : client.requestStatements blake3 call.tag client.runs.ctr call.inputs with
      | none => exact ⟨fun _ h => (by cases h), fun _ _ h => (by cases h)⟩
      | some statements =>
        refine ⟨fun client' h => ?_, fun req fin h => ?_⟩
        · obtain rfl := Option.some.inj h
          exact ⟨client, _, rfl, hspent⟩
        · rw [hst] at hcall
          rw [← Except.ok.inj (Option.some.inj h)]
          exact ⟨client, client₁, rfl, rfl, hcall⟩

/-- The runs that a request may spend on a server: its own, if it is of the server's session. -/
def mayCost (uid : Uid) (req : RequestMessage) : ℕ := if req.uid = uid then req.rows.length else 0

/-- What is left of the server's state, with no more runs spent than the request has rows. -/
theorem blindEvalTask_spec (S : Permutations) (blake3 : Blake3) (stark : Stark Val)
    (coins : ℕ → stark.Coins) (sk : SecretKey) (req : RequestMessage) (state : Option ServerState) :
    (∀ server', (blindEvalTask S blake3 stark coins sk req state).1 = some server' →
      ∃ server n, state = some server ∧ ServerState.Spent server server' n ∧
        n ≤ mayCost server.uid req) ∧
    ∀ resp, (blindEvalTask S blake3 stark coins sk req state).2 = some (.ok resp) →
      ∃ server server' rows, state = some server ∧
        blindEval S blake3 stark coins server sk req = some (server', rows, .ok resp) := by
  unfold blindEvalTask
  cases state with
  | none => exact ⟨fun _ h => (by cases h), fun _ h => (by cases h)⟩
  | some server =>
    rw [Option.bind_some]
    -- A refused request spends nothing. An accepted one spends no more than its rows.
    rcases blindEval_cases S blake3 stark coins server sk req with
      ⟨-, error, hcall⟩ | ⟨haccepted, server₁, m, result, hm, hspent, hcall, -⟩
    · rw [hcall]
      refine ⟨fun server' h => ⟨server, 0, rfl, ?_, Nat.zero_le _⟩, fun _ h => (by cases h)⟩
      obtain rfl := Option.some.inj h
      exact ServerState.Spent.refl server
    · rw [hcall]
      refine ⟨fun server' h => ?_, fun resp h => ?_⟩
      · obtain rfl := Option.some.inj h
        refine ⟨server, _, rfl, hspent, ?_⟩
        unfold mayCost
        rw [if_pos haccepted.uid, ← haccepted.tauFor_evaluations]
        exact Nat.mul_le_mul_right H_ROWS hm
      · obtain rfl : result = .ok resp := Option.some.inj h
        exact ⟨server, server₁, _, rfl, hcall⟩

/-- A call that returns outputs has finalized its response to them. -/
theorem finalizeBatch_of_finalize {call : OprfCall} {fin : FinalizeState S} {resp : ResponseMessage stark}
    {outputs : List PrfOutput} (h : call.finalize stark fin resp = some (.ok outputs)) :
    finalizeBatch stark fin resp = some (.ok outputs) := by
  cases call with
  | evaluateBatch tag inputs => exact h
  | evaluate tag x =>
    unfold OprfCall.finalize at h
    obtain ⟨result, hresult, hmap⟩ := Option.map_eq_some_iff.mp h
    cases result with
    | error error => cases hmap
    | ok output =>
      obtain rfl : [output] = outputs := Except.ok.inj hmap
      unfold finalize at hresult
      by_cases hone : fin.evaluations ≠ 1
      · rw [if_pos hone] at hresult
        cases hresult
      rw [if_neg hone, Option.bind_eq_bind, Option.bind_eq_some_iff] at hresult
      obtain ⟨all, hall, hresult⟩ := hresult
      cases all with
      | error error => cases hresult
      | ok all =>
        obtain ⟨last, hlast, hsome⟩ := Option.bind_eq_some_iff.mp hresult
        obtain rfl : last = output := Except.ok.inj (Option.some.inj hsome)
        -- One evaluation has one output, so that the last one is all of them.
        obtain ⟨-, hlen, -, -, houtputs⟩ := finalizeBatch_eq_ok.mp hall
        obtain ⟨hcount, -⟩ := (finalizeOutputs_eq_ok hlen).mp houtputs
        rw [not_not.mp hone] at hcount
        obtain ⟨only, rfl⟩ := List.length_eq_one_iff.mp hcount
        obtain rfl : only = last := Option.some.inj hlast
        exact hall

/-! ## Requests and what answers them -/

/-- A request that the client has made. -/
structure Made (S : Permutations) where
  /-- The state it was made from. -/
  client : ClientState S
  /-- The call it was made for. -/
  call : OprfCall
  req : RequestMessage
  fin : FinalizeState S

namespace Made

/-- The session of a request. -/
def uid (self : Made S) : Uid := self.client.uid

/-- Its first run. -/
def start (self : Made S) : ℕ := self.client.runs.ctr

/-- The run after its last. -/
def stop (self : Made S) : ℕ := self.start + tauFor self.call.inputs.length

/-- It is what its call requests from a state that matches the server's at the start of the
session. -/
structure Valid (blake3 : Blake3) (sk : SecretKey) (server : ServerState) (made : Made S) : Prop where
  matched : Matched made.client server sk
  request : ∃ client', requestBatch blake3 made.client made.call.tag made.call.inputs =
    some (client', .ok (made.req, made.fin))

/-- A response to it, on runs from `ctr` on. -/
def AnsweredBy (blake3 : Blake3) (sk : SecretKey) (server : ServerState) (self : Made S) (ctr : ℕ)
    (resp : ResponseMessage stark) : Prop :=
  ∃ n state coins state' rows, ServerState.Spent server state n ∧ state.runs.ctr = ctr ∧
    blindEval S blake3 stark coins state sk self.req = some (state', rows, .ok resp)

variable {blake3 : Blake3} {sk : SecretKey} {server server' : ServerState} {made made' : Made S}

theorem Valid.inputs_ne (h : made.Valid blake3 sk server) : made.call.inputs ≠ [] := by
  obtain ⟨client', hrequest⟩ := h.request
  exact (requestBatch_eq_ok hrequest).1.nonempty

/-- A request has runs of its own. -/
theorem Valid.start_lt_stop (h : made.Valid blake3 sk server) : made.start < made.stop := by
  have hpos := List.length_pos_of_ne_nil h.inputs_ne
  unfold stop tauFor
  exact Nat.lt_add_of_pos_right (Nat.mul_pos hpos (by norm_num))

theorem Valid.req_uid (h : made.Valid blake3 sk server) : made.req.uid = made.uid := by
  obtain ⟨client', hrequest⟩ := h.request
  obtain ⟨-, -, hreq, -⟩ := requestBatch_eq_ok hrequest
  rw [hreq]
  rfl

/-- It costs a server of its session its runs, and any other none. -/
theorem Valid.mayCost (h : made.Valid blake3 sk server) (uid : Uid) :
    PoolOprf.mayCost uid made.req = if made.uid = uid then made.stop - made.start else 0 := by
  obtain ⟨client', hrequest⟩ := h.request
  obtain ⟨-, -, hreq, -⟩ := requestBatch_eq_ok hrequest
  unfold PoolOprf.mayCost
  rw [h.req_uid]
  unfold stop
  rw [Nat.add_sub_cancel_left, hreq, made.client.requestRows_length]

/-- A response that is finalized to outputs is of the request's session, and on its runs. -/
theorem ctr_of_finalize (h : made.Valid blake3 sk server) (h' : made'.Valid blake3 sk server')
    {ctr : ℕ} {resp : ResponseMessage stark} (hresp : made'.AnsweredBy blake3 sk server' ctr resp)
    {outputs : List PrfOutput} (hok : finalizeBatch stark made.fin resp = some (.ok outputs)) :
    made'.uid = made.uid ∧ ctr = made.start := by
  obtain ⟨client', hrequest⟩ := h.request
  obtain ⟨haccepted, -, -, statements, -, hfin⟩ := requestBatch_eq_ok hrequest
  obtain ⟨n, state, coins, state', rows, -, rfl, hanswer⟩ := hresp
  obtain ⟨state₁, m, result, -, -, hcall, hspec⟩ :=
    blindEval_spec S blake3 stark coins state sk made'.req
  obtain ⟨-, hpair⟩ := Prod.mk.inj (Option.some.inj (hcall.symm.trans hanswer))
  obtain ⟨-, hrequid, hrespuid, hrows⟩ := hspec resp (Prod.mk.inj hpair).2
  obtain ⟨huid, hlen, -, -, houtputs⟩ := finalizeBatch_eq_ok.mp hok
  obtain ⟨hcount, hall⟩ := (finalizeOutputs_eq_ok hlen).mp houtputs
  have hfinlen := made.client.finalizeRows_length blake3 made.call.inputs.length made.client.runs.ctr
  -- `finalizeBatch` compares the sessions, and the row counters of each evaluation.
  refine ⟨?_, ?_⟩
  · rw [← h'.req_uid, hrequid, ← hrespuid, huid, hfin]
    rfl
  · -- The first row is on the first run of each.
    have hne : 0 < outputs.length := by
      have hpos := List.length_pos_of_ne_nil haccepted.nonempty
      rw [hcount, FinalizeState.evaluations, hfin]
      change 0 < (made.client.finalizeRows blake3 made.client.runs.ctr
        made.call.inputs.length).length / H_ROWS
      rw [hfinlen, tauFor_div]
      exact hpos
    obtain ⟨row, row', hrow, hrow', hctr, -⟩ := hall 0 _ (List.getElem?_eq_getElem hne) 0
    rw [tauFor_zero, Fin.val_zero, Nat.add_zero] at hrow hrow'
    have hfirst : row.ctr = made.client.runs.ctr := by
      have hctrs := made.client.finalizeRows_ctr blake3 made.call.inputs.length made.client.runs.ctr
      have hget := congrArg (fun l => l[0]?) hctrs
      rw [hfin] at hrow
      simp only [List.getElem?_map] at hget
      rw [hrow, List.getElem?_range' (by rw [← hfinlen]; exact (List.getElem?_eq_some_iff.mp hrow).1)]
        at hget
      simpa using hget
    have hfirst' : row'.ctr = state.runs.ctr := by
      rw [hrows, ServerState.answers_getElem?] at hrow'
      obtain ⟨req, -, rfl⟩ := Option.map_eq_some_iff.mp hrow'
      rfl
    rw [← hfirst', hctr, hfirst]
    rfl

/-- A request's own response on its own runs is finalized to the PRF's outputs. -/
theorem Valid.finalize_own (h : made.Valid blake3 sk server) {resp : ResponseMessage stark}
    (hresp : made.AnsweredBy blake3 sk server made.start resp) {outputs : List PrfOutput}
    (hok : finalizeBatch stark made.fin resp = some (.ok outputs)) :
    made.call.inputs.map (evaluate blake3 sk made.call.tag) = outputs.map some := by
  obtain ⟨client', hrequest⟩ := h.request
  obtain ⟨haccepted, -, hreq, statements, -, hfin⟩ := requestBatch_eq_ok hrequest
  obtain ⟨n, state, coins, state', rows, hspent, hctr, hanswer⟩ := hresp
  have hmatched := h.matched.spent (ClientState.Spent.refl made.client) hspent
  obtain ⟨state₁, m, result, -, -, hcall, hspec⟩ := blindEval_spec S blake3 stark coins state sk made.req
  obtain ⟨-, hpair⟩ := Prod.mk.inj (Option.some.inj (hcall.symm.trans hanswer))
  obtain ⟨-, -, -, hrows⟩ := hspec resp (Prod.mk.inj hpair).2
  rw [hctr, hreq] at hrows
  have hbudget := made.client.runs.ctr_add_remaining
  have hruns := haccepted.runs_le
  have houtputs := hmatched.finalizeOutputs blake3
    (show made.start + tauFor made.call.inputs.length ≤ made.client.runs.tau by unfold start; omega)
    (show made.fin.rows = made.client.finalizeRows blake3 made.start made.call.inputs.length by
      rw [hfin]; rfl) hrows
  obtain ⟨-, -, -, -, hown⟩ := finalizeBatch_eq_ok.mp hok
  obtain rfl := Except.ok.inj (Option.some.inj (houtputs.symm.trans hown))
  rw [List.map_map]
  exact List.map_congr_left fun x _ => evaluate_eq blake3 sk made.call.tag x

end Made

/-! ## What a run keeps -/

/-- What has happened in the sessions. -/
structure OprfHistory (S : Permutations) where
  /-- The server's state at the start of each session. -/
  base : Uid → ServerState
  /-- How many runs the client has spent in each session. -/
  spent : Uid → ℕ
  /-- The requests that the client has made, in order. -/
  made : List (Made S)

/-- What was spent of a session only grows. -/
theorem OprfHistory.spent_le (history : OprfHistory S) {client client' : ClientState S} {n : ℕ}
    (hctr : client.runs.ctr = history.spent client.uid) (hspent : ClientState.Spent client client' n)
    (uid : Uid) :
    history.spent uid ≤ Function.update history.spent client.uid client'.runs.ctr uid := by
  by_cases heq : uid = client.uid
  · rw [heq, Function.update_self, ← hctr, hspent.ctr]
    exact Nat.le_add_right _ _
  · rw [Function.update_of_ne heq]

/-- The call that the client has made a request for. -/
def OprfClientPhase.current : OprfClientPhase S stark → Option (OprfCall × FinalizeState S)
  | .sending call _ fin | .receiving call fin | .finalizing call fin _ => some (call, fin)
  | .idle | .requesting _ | .renewing _ => none

/-- The request that the client has not sent. -/
def OprfClientPhase.unsent : OprfClientPhase S stark → List RequestMessage
  | .sending _ req _ => [req]
  | .idle | .requesting _ | .receiving _ _ | .finalizing _ _ _ | .renewing _ => []

/-- The response that the client has taken. -/
def OprfClientPhase.taken : OprfClientPhase S stark → List (ResponseMessage stark)
  | .finalizing _ _ resp => [resp]
  | .idle | .requesting _ | .sending _ _ _ | .receiving _ _ | .renewing _ => []

/-- The request that the server has taken. -/
def OprfServerPhase.taken : OprfServerPhase stark → List RequestMessage
  | .serving req => [req]
  | .idle | .responding _ | .renewing _ => []

/-- The response that the server has not sent. -/
def OprfServerPhase.unsent : OprfServerPhase stark → List (ResponseMessage stark)
  | .responding resp => [resp]
  | .idle | .serving _ | .renewing _ => []

namespace OprfRun

/-- The requests that are to be answered, in order. -/
def unanswered (run : OprfRun S stark) : List RequestMessage :=
  run.server.taken ++ run.requests ++ run.client.unsent

/-- The responses that are to be finalized. -/
def responded (run : OprfRun S stark) : List (ResponseMessage stark) :=
  run.client.taken ++ run.responses ++ run.server.unsent

/-- The runs that the server has spent, with those that its tasks may still spend. -/
def reserved (run : OprfRun S stark) (server : ServerState) : ℕ :=
  server.runs.ctr + (run.server_tasks.map (mayCost server.uid)).sum

end OprfRun

/-- The invariant of a run. -/
structure OprfInvariant (blake3 : Blake3) (sk : SecretKey) (history : OprfHistory S)
    (run : OprfRun S stark) : Prop where
  /-- A session starts with nothing spent. -/
  base : ∀ uid ∈ run.uids, (history.base uid).uid = uid ∧ (history.base uid).runs.ctr = 0
  /-- A request's runs are among those that the client has spent. -/
  made : ∀ made ∈ history.made, made.uid ∈ run.uids ∧
    made.Valid blake3 sk (history.base made.uid) ∧ made.stop ≤ history.spent made.uid
  /-- A request's runs come before those of the next of its session. -/
  ordered : history.made.Pairwise fun made made' => made.uid = made'.uid → made.stop ≤ made'.start
  client_state : ∀ client, run.client_state = some client → client.uid ∈ run.uids ∧
    Matched client (history.base client.uid) sk ∧ client.runs.ctr = history.spent client.uid
  /-- A state that the client has not taken over has nothing spent. -/
  client_renewing : ∀ client, run.client = .renewing (some client) → client.uid ∈ run.uids ∧
    Matched client (history.base client.uid) sk ∧ client.runs.ctr = 0 ∧
    history.spent client.uid = 0 ∧
    ∀ client', run.client_state = some client' → client'.uid ≠ client.uid
  /-- The client waits for the answer to its newest request. -/
  current : ∀ call fin, run.client.current = some (call, fin) →
    ∃ made, history.made.getLast? = some made ∧ made.call = call ∧ made.fin = fin
  server_state : ∀ server, run.server_state = some server → server.uid ∈ run.uids ∧
    ServerState.Spent (history.base server.uid) server server.runs.ctr ∧
    run.reserved server ≤ history.spent server.uid
  server_renewing : ∀ server, run.server = .renewing (some server) →
    server.uid ∈ run.uids ∧ server = history.base server.uid
  /-- The server has no more reserved than the client had spent before any request that is to be
  answered. -/
  unanswered : ∃ queued : List (Made S), queued.Sublist history.made ∧ run.unanswered = queued.map Made.req ∧
    ∀ server, run.server_state = some server → ∀ made ∈ queued, made.uid = server.uid →
      run.reserved server ≤ made.start
  /-- A response is on runs no later than those of the request that it answers. -/
  responded : ∀ resp ∈ run.responded, ∃ made ∈ history.made, ∃ ctr ≤ made.start,
    made.AnsweredBy blake3 sk (history.base made.uid) ctr resp
  /-- What was returned is right. -/
  returned : ∀ call outputs, (call, outputs) ∈ run.returned →
    call.inputs.map (evaluate blake3 sk call.tag) = outputs.map some

/-- Some history has the invariant. -/
def OprfSafe (blake3 : Blake3) (sk : SecretKey) (run : OprfRun S stark) : Prop :=
  ∃ history, OprfInvariant blake3 sk history run

namespace OprfInvariant

variable {blake3 : Blake3} {sk : SecretKey} {history : OprfHistory S} {run : OprfRun S stark}

/-- Both sides hold the first session at the start. -/
theorem new {client : ClientState S} {server : ServerState} (h : Renewed sk client server) :
    OprfInvariant blake3 sk ⟨fun _ => server, fun _ => 0, []⟩ (.new stark client server) where
  base uid huid := by
    obtain rfl := List.mem_singleton.mp huid
    exact ⟨h.matched.uid, h.server_ctr⟩
  made _ hmem := (by cases hmem)
  ordered := .nil
  client_state client' hclient := by
    obtain rfl := Option.some.inj hclient
    exact ⟨List.mem_singleton.mpr rfl, h.matched, h.client_ctr⟩
  client_renewing _ hphase := (by cases hphase)
  current _ _ hcurrent := (by cases hcurrent)
  server_state server' hserver := by
    obtain rfl := Option.some.inj hserver
    refine ⟨List.mem_singleton.mpr h.matched.uid, ?_, ?_⟩
    · rw [h.server_ctr]
      exact ServerState.Spent.refl server
    · change server.runs.ctr + 0 ≤ 0
      rw [h.server_ctr]
  server_renewing _ hphase := (by cases hphase)
  unanswered := ⟨[], .slnil, rfl, fun _ _ _ hmem => (by cases hmem)⟩
  responded _ hmem := (by cases hmem)
  returned _ _ hmem := (by cases hmem)

/-- Fewer requests to be answered. -/
theorem unanswered_of_sublist (h : OprfInvariant blake3 sk history run) {reqs : List RequestMessage}
    (hsub : reqs.Sublist run.unanswered) :
    ∃ queued : List (Made S), queued.Sublist history.made ∧ reqs = queued.map Made.req ∧
      ∀ server, run.server_state = some server → ∀ made ∈ queued, made.uid = server.uid →
        run.reserved server ≤ made.start := by
  obtain ⟨queued, hqueued, hreqs, hreserved⟩ := h.unanswered
  rw [hreqs] at hsub
  obtain ⟨queued', hsub', rfl⟩ := List.sublist_map_iff.mp hsub
  exact ⟨queued', hsub'.trans hqueued, rfl,
    fun server hserver made hmade => hreserved server hserver made (hsub'.subset hmade)⟩

/-- The client may leave what it does for a phase that holds nothing. -/
theorem client_quiet (h : OprfInvariant blake3 sk history run) {phase : OprfClientPhase S stark}
    (hcurrent : phase.current = none) (hunsent : phase.unsent = []) (htaken : phase.taken = [])
    (hrenewing : ∀ client, phase ≠ .renewing (some client)) :
    OprfInvariant blake3 sk history { run with client := phase } :=
  { h with
    client_renewing := fun client hphase => absurd hphase (hrenewing client)
    current := fun call fin hsome => by
      rw [show _ = none from hcurrent] at hsome
      cases hsome
    unanswered := h.unanswered_of_sublist (by
      unfold OprfRun.unanswered
      rw [hunsent]
      exact (List.Sublist.refl _).append (List.nil_sublist _))
    responded := fun resp hresp => h.responded resp (by
      unfold OprfRun.responded at hresp ⊢
      rw [htaken, List.nil_append] at hresp
      rw [List.append_assoc]
      exact List.mem_append_right _ hresp) }

theorem client_idle (h : OprfInvariant blake3 sk history run) :
    OprfInvariant blake3 sk history { run with client := .idle } :=
  h.client_quiet rfl rfl rfl fun _ hphase => (by cases hphase)

/-- The server may leave what it does for a phase that holds nothing. -/
theorem server_quiet (h : OprfInvariant blake3 sk history run) {phase : OprfServerPhase stark}
    (htaken : phase.taken = []) (hunsent : phase.unsent = [])
    (hrenewing : ∀ server, phase ≠ .renewing (some server)) :
    OprfInvariant blake3 sk history { run with server := phase } :=
  { h with
    server_renewing := fun server hphase => absurd hphase (hrenewing server)
    unanswered := h.unanswered_of_sublist (by
      unfold OprfRun.unanswered
      rw [htaken]
      exact ((List.nil_sublist _).append (List.Sublist.refl _)).append (List.Sublist.refl _))
    responded := fun resp hresp => h.responded resp (by
      unfold OprfRun.responded at hresp ⊢
      rw [hunsent, List.append_nil] at hresp
      exact List.mem_append_left _ hresp) }

theorem server_idle (h : OprfInvariant blake3 sk history run) :
    OprfInvariant blake3 sk history { run with server := .idle } :=
  h.server_quiet rfl rfl fun _ hphase => (by cases hphase)

/-! ### The client -/

/-- The client's state with runs spent is of the same session. -/
theorem client_state_spent (h : OprfInvariant blake3 sk history run) {client client' : ClientState S}
    (hclient : run.client_state = some client) {n : ℕ} (hspent : ClientState.Spent client client' n) :
    client'.uid ∈ run.uids ∧ Matched client' (history.base client'.uid) sk ∧
      client'.runs.ctr = Function.update history.spent client.uid client'.runs.ctr client'.uid := by
  obtain ⟨huid, hmatched, -⟩ := h.client_state client hclient
  rw [hspent.uid, Function.update_self]
  exact ⟨huid, hmatched.spent hspent (ServerState.Spent.refl _), rfl⟩

/-- The client's state with runs of a task spent. -/
theorem client_spent (h : OprfInvariant blake3 sk history run) {state : Option (ClientState S)}
    (hspent : ∀ client', state = some client' →
      ∃ client n, run.client_state = some client ∧ ClientState.Spent client client' n)
    (tasks : List OprfCall) :
    OprfSafe blake3 sk { run with client_state := state, client_tasks := tasks } := by
  cases state with
  | none =>
    exact ⟨history, { h with
      client_state := fun _ hclient => (by cases hclient)
      client_renewing := fun client hphase => by
        obtain ⟨huid, hmatched, hctr, hzero, -⟩ := h.client_renewing client hphase
        exact ⟨huid, hmatched, hctr, hzero, fun _ hclient => (by cases hclient)⟩ }⟩
  | some client' =>
    obtain ⟨client, n, hclient, hspent⟩ := hspent client' rfl
    obtain ⟨-, -, hctr⟩ := h.client_state client hclient
    have hle := history.spent_le hctr hspent
    -- Only the client's own session has spent more, and its requests so far are still before that.
    refine ⟨{ history with spent := Function.update history.spent client.uid client'.runs.ctr },
      { h with
        made := fun made hmade => ?_
        client_state := fun _ heq => ?_
        client_renewing := fun half hphase => ?_
        server_state := fun server hserver => ?_ }⟩
    · obtain ⟨huid, hvalid, hstop⟩ := h.made made hmade
      exact ⟨huid, hvalid, hstop.trans (hle _)⟩
    · obtain rfl := Option.some.inj heq
      exact h.client_state_spent hclient hspent
    · obtain ⟨huid', hmatched', hctr', hzero, hne⟩ := h.client_renewing half hphase
      refine ⟨huid', hmatched', hctr', ?_, fun _ heq => ?_⟩
      · change Function.update history.spent client.uid client'.runs.ctr half.uid = 0
        rw [Function.update_of_ne (hne client hclient).symm, hzero]
      · obtain rfl := Option.some.inj heq
        rw [hspent.uid]
        exact hne client hclient
    · obtain ⟨huid', hspent', hreserved⟩ := h.server_state server hserver
      exact ⟨huid', hspent', hreserved.trans (hle _)⟩

/-- A request is made of the client's next runs. -/
theorem client_made (h : OprfInvariant blake3 sk history run) {call : OprfCall}
    (hphase : run.client = .requesting call) {client client' : ClientState S} {req : RequestMessage}
    {fin : FinalizeState S} (hclient : run.client_state = some client)
    (hrequest : requestBatch blake3 client call.tag call.inputs = some (client', .ok (req, fin))) :
    OprfSafe blake3 sk
      { run with client := .sending call req fin, client_state := some client' } := by
  obtain ⟨haccepted, hspent, -⟩ := requestBatch_eq_ok hrequest
  obtain ⟨huid, hmatched, hctr⟩ := h.client_state client hclient
  have hle := history.spent_le hctr hspent
  have hstop : Made.stop ⟨client, call, req, fin⟩ = client'.runs.ctr := hspent.ctr.symm
  obtain ⟨queued, hqueued, hreqs, hreserved⟩ := h.unanswered
  refine ⟨⟨history.base, Function.update history.spent client.uid client'.runs.ctr,
    history.made ++ [⟨client, call, req, fin⟩]⟩,
    { h with
      made := fun made hmade => ?_
      ordered := ?_
      client_state := fun _ heq => ?_
      client_renewing := fun _ hphase => (by cases hphase)
      current := fun call' fin' hcurrent => ?_
      server_state := fun server hserver => ?_
      unanswered := ⟨queued ++ [⟨client, call, req, fin⟩], hqueued.append (List.Sublist.refl _), ?_, ?_⟩
      responded := fun resp hresp => ?_ }⟩
  · rcases List.mem_append.mp hmade with hold | hnew
    · obtain ⟨huid', hvalid, hstop'⟩ := h.made made hold
      exact ⟨huid', hvalid, hstop'.trans (hle _)⟩
    · obtain rfl := List.mem_singleton.mp hnew
      refine ⟨huid, ⟨hmatched, client', hrequest⟩, ?_⟩
      rw [hstop]
      exact (Function.update_self (f := history.spent) client.uid client'.runs.ctr).ge
  · -- The client had spent the runs of the requests before.
    refine List.pairwise_append.mpr ⟨h.ordered, List.pairwise_singleton _ _, fun made hmade made' hnew => ?_⟩
    obtain rfl := List.mem_singleton.mp hnew
    intro heq
    obtain ⟨-, -, hstop'⟩ := h.made made hmade
    rw [heq] at hstop'
    exact hstop'.trans hctr.ge
  · obtain rfl := Option.some.inj heq
    exact h.client_state_spent hclient hspent
  · obtain ⟨rfl, rfl⟩ := Prod.mk.inj (Option.some.inj hcurrent)
    exact ⟨_, List.getLast?_concat, rfl, rfl⟩
  · obtain ⟨huid', hspent', hreserved'⟩ := h.server_state server hserver
    exact ⟨huid', hspent', hreserved'.trans (hle _)⟩
  · unfold OprfRun.unanswered at hreqs ⊢
    rw [hphase] at hreqs
    have hnil : (OprfClientPhase.requesting call : OprfClientPhase S stark).unsent = [] := rfl
    rw [hnil, List.append_nil] at hreqs
    rw [List.map_append, ← hreqs]
    rfl
  · intro server hserver made hmade heq
    rcases List.mem_append.mp hmade with hold | hnew
    · exact hreserved server hserver made hold heq
    · obtain rfl := List.mem_singleton.mp hnew
      obtain ⟨-, -, hreserved'⟩ := h.server_state server hserver
      rw [← heq] at hreserved'
      exact hreserved'.trans hctr.ge
  · have hresp' : resp ∈ run.responded := by
      unfold OprfRun.responded at hresp ⊢
      rw [hphase]
      exact hresp
    obtain ⟨made, hmade, hanswered⟩ := h.responded resp hresp'
    exact ⟨made, List.mem_append_left _ hmade, hanswered⟩

/-- The client takes over the state of its renewal. -/
theorem client_renewed (h : OprfInvariant blake3 sk history run) {client : ClientState S}
    (hphase : run.client = .renewing (some client)) :
    OprfInvariant blake3 sk history
      { run with client := .idle, client_state := some client, client_tasks := [] } := by
  obtain ⟨huid, hmatched, hctr, hzero, -⟩ := h.client_renewing client hphase
  exact { h.client_idle with
    client_state := fun _ heq => by
      obtain rfl := Option.some.inj heq
      exact ⟨huid, hmatched, by rw [hctr, hzero]⟩
    client_renewing := fun _ hphase => (by cases hphase) }

/-- What the client returns is right: the response that it took is finalized to outputs only if it
answers the client's own request on its own runs. -/
theorem client_returns (h : OprfInvariant blake3 sk history run) {call : OprfCall} {fin : FinalizeState S}
    {resp : ResponseMessage stark} (hphase : run.client = .finalizing call fin resp)
    {outputs : List PrfOutput} (hok : call.finalize stark fin resp = some (.ok outputs)) :
    call.inputs.map (evaluate blake3 sk call.tag) = outputs.map some := by
  obtain ⟨made, hlast, rfl, rfl⟩ := h.current call fin (by rw [hphase]; rfl)
  obtain ⟨made', hmade', ctr, hle, hanswered⟩ := h.responded resp (by
    unfold OprfRun.responded
    rw [hphase]
    exact List.mem_append_left _ (List.mem_append_left _ (List.mem_singleton.mpr rfl)))
  obtain ⟨before, hbefore⟩ := List.getLast?_eq_some_iff.mp hlast
  have hmade : made ∈ history.made := List.mem_of_getLast? hlast
  obtain ⟨-, hvalid, -⟩ := h.made made hmade
  obtain ⟨-, hvalid', -⟩ := h.made made' hmade'
  have hbatch := finalizeBatch_of_finalize hok
  obtain ⟨huid, rfl⟩ := Made.ctr_of_finalize hvalid hvalid' hanswered hbatch
  -- An older request of the session ends before the newest starts.
  have hnewest : made' = made := by
    have hordered := h.ordered
    rw [hbefore] at hmade' hordered
    rcases List.mem_append.mp hmade' with hold | hnew
    · have hstop := (List.pairwise_append.mp hordered).2.2 made' hold made (List.mem_singleton.mpr rfl) huid
      have hlt := hvalid'.start_lt_stop
      omega
    · exact List.mem_singleton.mp hnew
  rw [hnewest] at hanswered
  exact hvalid.finalize_own hanswered hbatch

/-! ### The server -/

/-- The server's state with runs spent is of the same session. -/
theorem server_state_spent (h : OprfInvariant blake3 sk history run) {server server' : ServerState}
    (hserver : run.server_state = some server) {n : ℕ} (hspent : ServerState.Spent server server' n) :
    server'.uid ∈ run.uids ∧
      ServerState.Spent (history.base server'.uid) server' server'.runs.ctr := by
  obtain ⟨huid, hbase, -⟩ := h.server_state server hserver
  rw [hspent.uid, hspent.ctr]
  exact ⟨huid, hbase.trans hspent⟩

/-- The server has answered, or left to a task, the request that it took. -/
theorem server_served (h : OprfInvariant blake3 sk history run) {req : RequestMessage}
    (hphase : run.server = .serving req) {phase : OprfServerPhase stark} (htaken : phase.taken = [])
    (hrenewing : ∀ server, phase ≠ .renewing (some server)) {state : Option ServerState}
    {tasks : List RequestMessage}
    (hspent : ∀ server', state = some server' → ∃ server n, run.server_state = some server ∧
      ServerState.Spent server server' n ∧
      OprfRun.reserved { run with server_tasks := tasks } server' ≤
        run.reserved server + mayCost server.uid req)
    (hunsent : ∀ resp ∈ phase.unsent, ∃ server server' coins rows, run.server_state = some server ∧
      blindEval S blake3 stark coins server sk req = some (server', rows, .ok resp)) :
    OprfInvariant blake3 sk history
      { run with server := phase, server_state := state, server_tasks := tasks } := by
  -- The request is the first of those that are to be answered.
  obtain ⟨queued, hqueued, hreqs, hreserved⟩ := h.unanswered
  unfold OprfRun.unanswered at hreqs
  rw [hphase] at hreqs
  obtain ⟨made, rest, rfl, rfl, hrest⟩ : ∃ made rest, queued = made :: rest ∧ made.req = req ∧
      run.requests ++ run.client.unsent = rest.map Made.req := by
    cases queued with
    | nil => cases hreqs
    | cons made rest =>
      obtain ⟨hreq, hrest⟩ := List.cons.inj hreqs
      exact ⟨made, rest, rfl, hreq.symm, hrest⟩
  have hmade : made ∈ history.made := hqueued.subset List.mem_cons_self
  obtain ⟨-, hvalid, hstop⟩ := h.made made hmade
  have hordered := List.pairwise_cons.mp (h.ordered.sublist hqueued)
  have hlt := hvalid.start_lt_stop
  -- What is reserved now is no more than before, or than the end of the request.
  have hnow : ∀ server' server n, run.server_state = some server → ServerState.Spent server server' n →
      OprfRun.reserved { run with server_tasks := tasks } server' ≤
        run.reserved server + mayCost server.uid made.req →
      (made.uid = server.uid ∧
        OprfRun.reserved { run with server_tasks := tasks } server' ≤ made.stop) ∨
      (made.uid ≠ server.uid ∧
        OprfRun.reserved { run with server_tasks := tasks } server' ≤ run.reserved server) := by
    intro server' server n hserver _ hle
    rw [hvalid.mayCost] at hle
    by_cases heq : made.uid = server.uid
    · have hstart := hreserved server hserver made List.mem_cons_self heq
      rw [if_pos heq] at hle
      exact .inl ⟨heq, by omega⟩
    · rw [if_neg heq] at hle
      exact .inr ⟨heq, hle⟩
  exact { h with
    server_state := fun server' hserver' => by
      obtain ⟨server, n, hserver, hspent', hle⟩ := hspent server' hserver'
      obtain ⟨-, -, hreserved'⟩ := h.server_state server hserver
      obtain ⟨huid, hbase⟩ := h.server_state_spent hserver hspent'
      refine ⟨huid, hbase, ?_⟩
      rw [hspent'.uid]
      rcases hnow server' server n hserver hspent' hle with ⟨heq, hstop'⟩ | ⟨-, hle'⟩
      · rw [heq] at hstop
        exact hstop'.trans hstop
      · exact hle'.trans hreserved'
    server_renewing := fun server hserver => absurd hserver (hrenewing server)
    unanswered := ⟨rest, (List.sublist_cons_self made rest).trans hqueued, by
      unfold OprfRun.unanswered
      dsimp only
      rw [htaken, List.nil_append, hrest], fun server' hserver' made' hmade' heq => by
      obtain ⟨server, n, hserver, hspent', hle⟩ := hspent server' hserver'
      rw [hspent'.uid] at heq
      rcases hnow server' server n hserver hspent' hle with ⟨heq', hstop'⟩ | ⟨-, hle'⟩
      · exact hstop'.trans (hordered.1 made' hmade' (heq'.trans heq.symm))
      · exact hle'.trans (hreserved server hserver made' (List.mem_cons_of_mem _ hmade') heq)⟩
    responded := fun resp hresp => by
      unfold OprfRun.responded at hresp
      rcases List.mem_append.mp hresp with hold | hnew
      · refine h.responded resp ?_
        unfold OprfRun.responded
        exact List.mem_append_left _ hold
      · -- A new response is on the server's counter, which is not past the request's first run.
        obtain ⟨server, server', coins, rows, hserver, hanswer⟩ := hunsent resp hnew
        obtain ⟨-, hbase, -⟩ := h.server_state server hserver
        obtain ⟨state₁, m, result, -, -, hcall, hspec⟩ :=
          blindEval_spec S blake3 stark coins server sk made.req
        obtain ⟨-, hpair⟩ := Prod.mk.inj (Option.some.inj (hcall.symm.trans hanswer))
        obtain ⟨-, huid, -⟩ := hspec resp (Prod.mk.inj hpair).2
        rw [hvalid.req_uid] at huid
        have hstart := hreserved server hserver made List.mem_cons_self huid
        refine ⟨made, hmade, server.runs.ctr, (Nat.le_add_right _ _).trans hstart, ?_⟩
        rw [huid]
        exact ⟨_, server, coins, server', rows, hbase, rfl, hanswer⟩ }

/-- A task of the server's runs. -/
theorem server_spent (h : OprfInvariant blake3 sk history run) {state : Option ServerState}
    {tasks : List RequestMessage}
    (hspent : ∀ server', state = some server' → ∃ server n, run.server_state = some server ∧
      ServerState.Spent server server' n ∧
      OprfRun.reserved { run with server_tasks := tasks } server' ≤ run.reserved server) :
    OprfInvariant blake3 sk history { run with server_state := state, server_tasks := tasks } := by
  obtain ⟨queued, hqueued, hreqs, hreserved⟩ := h.unanswered
  exact { h with
    server_state := fun server' hserver' => by
      obtain ⟨server, n, hserver, hspent', hle⟩ := hspent server' hserver'
      obtain ⟨-, -, hreserved'⟩ := h.server_state server hserver
      obtain ⟨huid, hbase⟩ := h.server_state_spent hserver hspent'
      rw [← hspent'.uid] at hreserved'
      exact ⟨huid, hbase, hle.trans hreserved'⟩
    unanswered := ⟨queued, hqueued, hreqs, fun server' hserver' made hmade heq => by
      obtain ⟨server, n, hserver, hspent', hle⟩ := hspent server' hserver'
      rw [hspent'.uid] at heq
      exact hle.trans (hreserved server hserver made hmade heq)⟩ }

/-- The server takes over the state of its renewal. -/
theorem server_renewed (h : OprfInvariant blake3 sk history run) {server : ServerState}
    (hphase : run.server = .renewing (some server)) :
    OprfInvariant blake3 sk history
      { run with server := .idle, server_state := some server, server_tasks := [] } := by
  obtain ⟨huid, hbase⟩ := h.server_renewing server hphase
  have hzero : server.runs.ctr = 0 := by
    rw [hbase]
    exact (h.base server.uid huid).2
  have hreserved : OprfRun.reserved { run with server_tasks := [] } server = 0 := hzero
  obtain ⟨queued, hqueued, hreqs, -⟩ := h.server_idle.unanswered
  exact { h.server_idle with
    server_state := fun _ heq => by
      obtain rfl := Option.some.inj heq
      refine ⟨huid, ?_, hreserved.trans_le (Nat.zero_le _)⟩
      rw [hzero, ← hbase]
      exact ServerState.Spent.refl server
    unanswered := ⟨queued, hqueued, hreqs, fun _ heq made _ _ => by
      obtain rfl := Option.some.inj heq
      exact hreserved.trans_le (Nat.zero_le _)⟩ }

/-! ### Both -/

/-- A preprocessing opens a session of its own. -/
theorem preprocess (h : OprfInvariant blake3 sk history run) {client : ClientState S}
    {server : ServerState} (hclient : run.client = .renewing none) (hserver : run.server = .renewing none)
    (hrenewed : Renewed sk client server) (huid : client.uid ∉ run.uids) :
    OprfSafe blake3 sk
      { run with
        client := .renewing (some client)
        server := .renewing (some server)
        uids := client.uid :: run.uids } := by
  -- The sessions so far are as they were.
  have hbase : ∀ uid ∈ run.uids, Function.update history.base client.uid server uid = history.base uid := by
    intro uid hmem
    refine Function.update_of_ne ?_ _ _
    rintro rfl
    exact huid hmem
  have hspent : ∀ uid ∈ run.uids, Function.update history.spent client.uid 0 uid = history.spent uid := by
    intro uid hmem
    refine Function.update_of_ne ?_ _ _
    rintro rfl
    exact huid hmem
  have hbase' : Function.update history.base client.uid server client.uid = server :=
    Function.update_self (f := history.base) client.uid server
  have hspent' : Function.update history.spent client.uid 0 client.uid = 0 :=
    Function.update_self (f := history.spent) client.uid 0
  refine ⟨⟨Function.update history.base client.uid server, Function.update history.spent client.uid 0,
    history.made⟩, { h with
      base := fun uid hmem => ?_
      made := fun made hmade => ?_
      client_state := fun client' hstate => ?_
      client_renewing := fun _ heq => ?_
      current := fun _ _ hcurrent => (by cases hcurrent)
      server_state := fun server' hstate => ?_
      server_renewing := fun _ heq => ?_
      unanswered := ?_
      responded := fun resp hresp => ?_ }⟩
  · dsimp only
    rcases List.mem_cons.mp hmem with rfl | hold
    · rw [hbase']
      exact ⟨hrenewed.matched.uid, hrenewed.server_ctr⟩
    · rw [hbase uid hold]
      exact h.base uid hold
  · obtain ⟨hmem, hvalid, hstop⟩ := h.made made hmade
    dsimp only
    rw [hbase _ hmem, hspent _ hmem]
    exact ⟨List.mem_cons_of_mem _ hmem, hvalid, hstop⟩
  · obtain ⟨hmem, hmatched, hctr⟩ := h.client_state client' hstate
    dsimp only
    rw [hbase _ hmem, hspent _ hmem]
    exact ⟨List.mem_cons_of_mem _ hmem, hmatched, hctr⟩
  · cases heq
    dsimp only
    rw [hbase', hspent']
    refine ⟨List.mem_cons_self, hrenewed.matched, hrenewed.client_ctr, rfl, fun client' hstate heq => ?_⟩
    exact huid (heq ▸ (h.client_state client' hstate).1)
  · obtain ⟨hmem, hbase₁, hreserved⟩ := h.server_state server' hstate
    dsimp only
    rw [hbase _ hmem, hspent _ hmem]
    exact ⟨List.mem_cons_of_mem _ hmem, hbase₁, hreserved⟩
  · cases heq
    dsimp only
    rw [hrenewed.matched.uid, hbase']
    exact ⟨List.mem_cons_self, rfl⟩
  · obtain ⟨queued, hqueued, hreqs, hreserved⟩ := h.unanswered
    refine ⟨queued, hqueued, ?_, hreserved⟩
    unfold OprfRun.unanswered at hreqs ⊢
    rw [hclient, hserver] at hreqs
    exact hreqs
  · have hresp' : resp ∈ run.responded := by
      unfold OprfRun.responded at hresp ⊢
      rw [hclient, hserver]
      exact hresp
    obtain ⟨made, hmade, ctr, hle, hanswered⟩ := h.responded resp hresp'
    refine ⟨made, hmade, ctr, hle, ?_⟩
    dsimp only
    rw [hbase _ (h.made made hmade).1]
    exact hanswered

/-! ### Each step -/

/-- The task of the request has run. -/
theorem client_requests (h : OprfInvariant blake3 sk history run) {call : OprfCall}
    (hphase : run.client = .requesting call) :
    OprfSafe blake3 sk
      { run with
        client := requested call (requestTask blake3 call run.client_state).2
        client_state := (requestTask blake3 call run.client_state).1 } := by
  obtain ⟨hstate, hrequest⟩ := requestTask_spec blake3 call run.client_state
  cases hresult : (requestTask blake3 call run.client_state).2 with
  | none =>
    obtain ⟨history', h'⟩ := h.client_spent hstate run.client_tasks
    exact ⟨history', h'.client_idle⟩
  | some result =>
    cases result with
    | error error =>
      obtain ⟨history', h'⟩ := h.client_spent hstate run.client_tasks
      exact ⟨history', h'.client_idle⟩
    | ok sent =>
      obtain ⟨client, client', hclient, hclient', hbatch⟩ := hrequest sent.1 sent.2 hresult
      rw [hclient']
      exact h.client_made hphase hclient hbatch

/-- The request goes from the call to the stream. -/
theorem client_sends (h : OprfInvariant blake3 sk history run) {call : OprfCall} {req : RequestMessage}
    {fin : FinalizeState S} (hphase : run.client = .sending call req fin) :
    OprfInvariant blake3 sk history
      { run with client := .receiving call fin, requests := run.requests ++ [req] } := by
  refine { h with
    client_renewing := fun _ hphase => (by cases hphase)
    current := fun call' fin' hcurrent => h.current call' fin' (by rw [hphase]; exact hcurrent)
    unanswered := h.unanswered_of_sublist ?_
    responded := fun resp hresp => h.responded resp ?_ }
  · unfold OprfRun.unanswered
    rw [hphase, List.append_assoc, List.append_assoc, List.append_assoc]
    exact List.Sublist.refl _
  · unfold OprfRun.responded at hresp ⊢
    rw [hphase]
    exact hresp

/-- The response goes from the stream to the call. -/
theorem client_receives (h : OprfInvariant blake3 sk history run) {call : OprfCall} {fin : FinalizeState S}
    {resp : ResponseMessage stark} {responses : List (ResponseMessage stark)}
    (hphase : run.client = .receiving call fin) (hqueue : run.responses = resp :: responses) :
    OprfInvariant blake3 sk history
      { run with client := .finalizing call fin resp, responses := responses } := by
  refine { h with
    client_renewing := fun _ hphase => (by cases hphase)
    current := fun call' fin' hcurrent => h.current call' fin' (by rw [hphase]; exact hcurrent)
    unanswered := h.unanswered_of_sublist ?_
    responded := fun resp' hresp => h.responded resp' ?_ }
  · unfold OprfRun.unanswered
    rw [hphase]
    exact List.Sublist.refl _
  · unfold OprfRun.responded at hresp ⊢
    rw [hphase, hqueue]
    exact hresp

/-- The call is over, and what it returns is right. -/
theorem client_ends (h : OprfInvariant blake3 sk history run) {call : OprfCall} {fin : FinalizeState S}
    {resp : ResponseMessage stark} (hphase : run.client = .finalizing call fin resp) :
    OprfInvariant blake3 sk history
      { run with
        client := .idle
        returned := run.returned ++ returnedOk call (call.finalize stark fin resp) } := by
  refine { h.client_idle with returned := fun call' outputs hmem => ?_ }
  rcases List.mem_append.mp hmem with hold | hnew
  · exact h.returned call' outputs hold
  cases hresult : call.finalize stark fin resp with
  | none =>
    rw [hresult] at hnew
    cases hnew
  | some result =>
    rw [hresult] at hnew
    cases result with
    | error error => cases hnew
    | ok outputs' =>
      obtain ⟨rfl, rfl⟩ := Prod.mk.inj (List.mem_singleton.mp hnew)
      exact h.client_returns hphase hresult

/-- The request goes from the stream to the server. -/
theorem server_receives (h : OprfInvariant blake3 sk history run) {req : RequestMessage}
    {requests : List RequestMessage} (hphase : run.server = .idle)
    (hqueue : run.requests = req :: requests) :
    OprfInvariant blake3 sk history { run with server := .serving req, requests := requests } := by
  refine { h with
    server_renewing := fun _ hphase => (by cases hphase)
    unanswered := h.unanswered_of_sublist ?_
    responded := fun resp hresp => h.responded resp ?_ }
  · unfold OprfRun.unanswered
    rw [hphase, hqueue]
    exact List.Sublist.refl _
  · unfold OprfRun.responded at hresp ⊢
    rw [hphase]
    exact hresp

/-- The task of the answer has run. -/
theorem server_answers (h : OprfInvariant blake3 sk history run) {req : RequestMessage}
    (coins : ℕ → stark.Coins) (hphase : run.server = .serving req) :
    OprfInvariant blake3 sk history
      { run with
        server := answered (blindEvalTask S blake3 stark coins sk req run.server_state).2
        server_state := (blindEvalTask S blake3 stark coins sk req run.server_state).1 } := by
  obtain ⟨hstate, hanswer⟩ := blindEvalTask_spec S blake3 stark coins sk req run.server_state
  have hspent : ∀ server', (blindEvalTask S blake3 stark coins sk req run.server_state).1 =
      some server' → ∃ server n, run.server_state = some server ∧
        ServerState.Spent server server' n ∧
        OprfRun.reserved { run with server_tasks := run.server_tasks } server' ≤
          run.reserved server + mayCost server.uid req := by
    intro server' hserver'
    obtain ⟨server, n, hserver, hspent, hcost⟩ := hstate server' hserver'
    refine ⟨server, n, hserver, hspent, ?_⟩
    unfold OprfRun.reserved
    rw [hspent.uid, hspent.ctr]
    omega
  -- An answer goes on to be sent; an error or a panic ends the call.
  cases hresult : (blindEvalTask S blake3 stark coins sk req run.server_state).2 with
  | none =>
    exact h.server_served hphase rfl (fun _ hphase => (by cases hphase)) hspent
      fun _ hmem => (by cases hmem)
  | some result =>
    cases result with
    | error error =>
      exact h.server_served hphase rfl (fun _ hphase => (by cases hphase)) hspent
        fun _ hmem => (by cases hmem)
    | ok resp =>
      refine h.server_served hphase rfl (fun _ hphase => (by cases hphase)) hspent
        fun resp' hmem => ?_
      obtain rfl := List.mem_singleton.mp hmem
      obtain ⟨server, server', rows, hserver, hblind⟩ := hanswer _ hresult
      exact ⟨server, server', coins, rows, hserver, hblind⟩

/-- A task of the server's that was left has run. -/
theorem server_task (h : OprfInvariant blake3 sk history run) {before after : List RequestMessage}
    {req : RequestMessage} (coins : ℕ → stark.Coins) (htasks : run.server_tasks = before ++ req :: after) :
    OprfInvariant blake3 sk history
      { run with
        server_state := (blindEvalTask S blake3 stark coins sk req run.server_state).1
        server_tasks := before ++ after } := by
  obtain ⟨hstate, -⟩ := blindEvalTask_spec S blake3 stark coins sk req run.server_state
  refine h.server_spent fun server' hserver' => ?_
  obtain ⟨server, n, hserver, hspent, hcost⟩ := hstate server' hserver'
  refine ⟨server, n, hserver, hspent, ?_⟩
  -- The task spends no more than was reserved for it.
  unfold OprfRun.reserved
  rw [htasks, hspent.uid, hspent.ctr]
  simp only [List.map_append, List.map_cons, List.sum_append, List.sum_cons]
  omega

/-- The response goes from the server to the stream. -/
theorem server_responds (h : OprfInvariant blake3 sk history run) {resp : ResponseMessage stark}
    (hphase : run.server = .responding resp) :
    OprfInvariant blake3 sk history
      { run with server := .idle, responses := run.responses ++ [resp] } := by
  refine { h.server_idle with responded := fun resp' hresp => h.responded resp' ?_ }
  unfold OprfRun.responded at hresp ⊢
  have hnil : (OprfServerPhase.idle : OprfServerPhase stark).unsent = [] := rfl
  rw [hnil, List.append_nil] at hresp
  rw [hphase, List.append_assoc]
  exact hresp

/-- A step keeps the invariant. -/
theorem step (h : OprfInvariant blake3 sk history run) {run' : OprfRun S stark}
    (hstep : OprfStep blake3 stark sk run run') : OprfSafe blake3 sk run' := by
  cases hstep with
  | client_calls call hphase =>
    exact ⟨history, h.client_quiet rfl rfl rfl fun _ hphase => (by cases hphase)⟩
  | client_requests call hphase => exact h.client_requests hphase
  | client_leaves call hphase =>
    obtain ⟨history', h'⟩ := h.client_spent
      (fun client hclient => ⟨client, 0, hclient, ClientState.Spent.refl client⟩)
      (run.client_tasks ++ [call])
    exact ⟨history', h'.client_idle⟩
  | client_task before after call htasks =>
    exact h.client_spent (requestTask_spec blake3 call run.client_state).1 (before ++ after)
  | client_sends call req fin hphase => exact ⟨history, h.client_sends hphase⟩
  | client_receives call fin resp responses hphase hqueue =>
    exact ⟨history, h.client_receives hphase hqueue⟩
  | client_returns call fin resp hphase => exact ⟨history, h.client_ends hphase⟩
  | client_renews state hphase hstate =>
    exact ⟨history, h.client_quiet rfl rfl rfl fun _ hphase => (by cases hphase)⟩
  | client_renewed state hphase => exact ⟨history, h.client_renewed hphase⟩
  | client_drops hphase => exact ⟨history, h.client_idle⟩
  | server_receives req requests hphase hqueue => exact ⟨history, h.server_receives hphase hqueue⟩
  | server_answers req coins hphase => exact ⟨history, h.server_answers coins hphase⟩
  | server_leaves req hphase =>
    refine ⟨history, h.server_served hphase rfl (fun _ hphase => (by cases hphase))
      (fun server hserver => ⟨server, 0, hserver, ServerState.Spent.refl server, ?_⟩)
      fun _ hmem => (by cases hmem)⟩
    unfold OprfRun.reserved
    rw [List.map_append, List.sum_append, List.map_singleton, List.sum_singleton, Nat.add_assoc]
  | server_task before after req coins htasks => exact ⟨history, h.server_task coins htasks⟩
  | server_responds resp hphase => exact ⟨history, h.server_responds hphase⟩
  | server_renews hphase =>
    exact ⟨history, h.server_quiet rfl rfl fun _ hphase => (by cases hphase)⟩
  | server_renewed state hphase => exact ⟨history, h.server_renewed hphase⟩
  | server_drops hphase => exact ⟨history, h.server_idle⟩
  | preprocess client server hclient hserver hrenewed huid =>
    exact h.preprocess hclient hserver hrenewed huid

end OprfInvariant

/-! ## Every run -/

section Runs

variable {blake3 : Blake3} {sk : SecretKey}

/-- A preprocessing that gets to its end on both sides leaves matching states with nothing spent. -/
theorem renewed_of_preprocessing {build : Build} {coins : stark.Coins} {pk : Option (VerifiedKey S)}
    {tau : ℕ} {uid : Uid} {binary delta : BinaryOts} {masks : List (MasksMessage S)}
    {sent : ServerMessages S stark} {client : ClientState S} {server : ServerState}
    (hserver : preprocServer blake3 build coins sk tau binary delta
      (clientHello stark uid tau pk.isSome).toOption masks = some (.ok (sent, server)))
    (hclient : preprocClient blake3 build pk tau uid binary delta sent =
      some (.ok client)) : Renewed sk client server := by
  obtain ⟨opened, cots, sots, m, -, hots, huid, -, hclient, hserver⟩ := both_established pk hserver hclient
  refine ⟨matched_of_established hots hclient hserver huid, ?_, ?_⟩
  · rw [hclient.runs]
    rfl
  · rw [hserver.runs]
    rfl

/-- A call that nothing disturbs returns. -/
theorem undisturbed_call {client : ClientState S} {server : ServerState}
    (h : Aligned blake3 sk client server) (hstark : client.voprf.isSome → stark.Complete)
    (coins : ℕ → stark.Coins) {tag : List UInt8} {inputs : List (List UInt8)}
    (haccepted : RequestAccepted client tag inputs) :
    ∃ run outputs, Reachable (OprfStep blake3 stark sk) (.new stark client server) run ∧
      (.evaluateBatch tag inputs, outputs) ∈ run.returned := by
  obtain ⟨client', req, fin, hrequest⟩ := h.request haccepted
  obtain ⟨server', rows, resp, hanswer⟩ := h.answered hstark hrequest coins
  have hfinalize := h.finalizeBatch hstark hrequest hanswer
  have htask : requestTask blake3 (.evaluateBatch tag inputs) (some client) =
      (some client', some (.ok (req, fin))) := by
    have hcall : (OprfCall.evaluateBatch tag inputs).request blake3 client =
        some (client', .ok (req, fin)) := hrequest
    unfold requestTask
    rw [Option.bind_some, hcall]
  have hblind : blindEvalTask S blake3 stark coins sk req (some server) =
      (some server', some (.ok resp)) := by
    unfold blindEvalTask
    rw [Option.bind_some, hanswer]
  have hreturned : returnedOk (.evaluateBatch tag inputs) (finalizeBatch stark fin resp) =
      [(.evaluateBatch tag inputs,
        inputs.map fun input => outputOf sk (hashToZqMatrix blake3 tag input))] := by
    rw [hfinalize]
    rfl
  have hrequests : OprfStep blake3 stark sk
      ⟨.requesting (.evaluateBatch tag inputs), .idle, some client, some server, [], [], [], [],
        [client.uid], []⟩
      ⟨.sending (.evaluateBatch tag inputs) req fin, .idle, some client', some server, [], [], [], [],
        [client.uid], []⟩ := by
    have hstep : OprfStep blake3 stark sk ⟨.requesting (.evaluateBatch tag inputs), .idle, some client,
      some server, [], [], [], [], [client.uid], []⟩ _ := .client_requests _ _ rfl
    dsimp only at hstep
    rw [htask] at hstep
    exact hstep
  have hanswers : OprfStep blake3 stark sk
      ⟨.receiving (.evaluateBatch tag inputs) fin, .serving req, some client', some server, [], [], [], [],
        [client.uid], []⟩
      ⟨.receiving (.evaluateBatch tag inputs) fin, .responding resp, some client', some server', [],
        [], [], [], [client.uid], []⟩ := by
    have hstep : OprfStep blake3 stark sk ⟨.receiving (.evaluateBatch tag inputs) fin, .serving req,
      some client', some server, [], [], [], [], [client.uid], []⟩ _ := .server_answers _ _ coins rfl
    dsimp only at hstep
    rw [hblind] at hstep
    exact hstep
  -- The eight steps of a call: it is called, requests and sends, the server receives, answers and
  -- responds, and the client receives and returns.
  refine ⟨_, inputs.map fun input => outputOf sk (hashToZqMatrix blake3 tag input),
    ((((((((Reachable.refl (OprfStep blake3 stark sk) (.new stark client server)).tail
      (.client_calls _ (.evaluateBatch tag inputs) rfl)).tail hrequests).tail
      (.client_sends _ _ req fin rfl)).tail (.server_receives _ req [] rfl rfl)).tail hanswers).tail
      (.server_responds _ resp rfl)).tail (.client_receives _ _ fin resp [] rfl rfl)).tail
      (.client_returns _ _ fin resp rfl), ?_⟩
  change _ ∈ [] ++ returnedOk (.evaluateBatch tag inputs) (finalizeBatch stark fin resp)
  rw [hreturned]
  exact List.mem_singleton.mpr rfl

/-- Over ordered streams an `OprfClient` never returns a wrong output. In every run of an honest
client and an honest server from matching states, whatever calls are abandoned and wherever,
whatever messages are not sent, and whatever renewals fail on either side, as long as those that get
to the end open new sessions and leave matching states: every call that returns outputs returns the
PRF's values of its own inputs under its own tag. -/
theorem no_wrong_output (blake3 : Blake3) (stark : Stark Val) (sk : SecretKey) {client : ClientState S}
    {server : ServerState} (h : Renewed sk client server) (run : OprfRun S stark)
    (hreach : Reachable (OprfStep blake3 stark sk) (.new stark client server) run) (call : OprfCall)
    (outputs : List PrfOutput) (hreturned : (call, outputs) ∈ run.returned) :
    call.inputs.map (evaluate blake3 sk call.tag) = outputs.map some := by
  have hstart : OprfSafe blake3 sk (.new stark client server) := ⟨_, OprfInvariant.new h⟩
  obtain ⟨history, hinv⟩ : OprfSafe blake3 sk run := hreach.invariant hstart fun _ _ _ hsafe hstep => by
    obtain ⟨history, hinv⟩ := hsafe
    exact hinv.step hstep
  exact hinv.returned call outputs hreturned

theorem no_wrong_output_zero :
    ∃ (run : OprfRun Permutations.identity (Stark.transparent Val)) (outputs : List PrfOutput),
      Reachable (OprfStep (fun _ _ _ => 0) (Stark.transparent Val) zeroKey)
        (.new (Stark.transparent Val) (zeroClient Permutations.identity 16) (zeroServer 16)) run ∧
      (.evaluateBatch [] [[]], outputs) ∈ run.returned ∧
      [evaluate (fun _ _ _ => 0) zeroKey [] []] = outputs.map some := by
  have haligned : Aligned (S := Permutations.identity) (fun _ _ _ => 0) zeroKey (zeroClient _ 16)
      (zeroServer 16) := ⟨zero_matched 16, rfl, .inl ⟨rfl, rfl⟩⟩
  have haccepted : RequestAccepted (zeroClient Permutations.identity 16) [] [[]] :=
    ⟨Nat.zero_le _, List.cons_ne_nil _ _, by decide, fun h => (by cases h), Nat.le_refl 16⟩
  obtain ⟨run, outputs, hreach, hreturned⟩ := undisturbed_call haligned
    (fun _ => Stark.transparent_complete Val) (fun _ => ()) haccepted
  exact ⟨run, outputs, hreach, hreturned, no_wrong_output (fun _ _ _ => 0) (Stark.transparent Val) zeroKey
    ⟨zero_matched 16, rfl, rfl⟩ run hreach _ outputs hreturned⟩

end Runs

end PoolOprf
