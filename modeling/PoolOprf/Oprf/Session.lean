import PoolOprf.Oprf.Exchange

/-!
# Client and server over a channel

`OprfClient` and `OprfSession` (`pool-oprf/src/client.rs`, `server.rs`) over the streams of
`channel.rs`: their errors, their batch limits, and their steps (`OprfStep`). A call goes on from
one await to the next, and is abandoned at any of them. A message that was sent stays on its stream,
and a blocking task that was started runs also when its call is abandoned: its result is dropped,
but not the runs that it spends. A response carries nothing of the request that it answers but the
session and its runs, and `exchange` takes the next one on the stream.
-/

namespace PoolOprf

variable {S : Permutations} {stark : Stark Val}

/-- Errors of a channel. -/
inductive ChannelError where
  /-- peer closed the stream unexpectedly -/
  | UnexpectedClose

/-- Errors of an `OprfClient`. -/
inductive ClientError (stark : Stark Val) where
  /-- transport failed -/
  | Channel (error : ChannelError)
  /-- building the request failed -/
  | Request (error : RequestError)
  /-- finalizing the response failed -/
  | Finalize (error : FinalizeError stark)

/-- Errors of an `OprfSession`. -/
inductive ServerError (stark : Stark Val) where
  /-- evaluating the request failed -/
  | BlindEval (error : BlindEvalError stark)

/-- Most evaluations one request of the client may carry. -/
def ClientState.maxBatchEvaluations (self : ClientState S) : ℕ :=
  match self.voprf with
  | some _ => MAX_VOPRF_BATCH_EVALUATIONS
  | none => MAX_BATCH_EVALUATIONS

/-- Most evaluations one request to the server may carry. -/
def ServerState.maxBatchEvaluations (self : ServerState) : ℕ :=
  match self.voprf with
  | some _ => MAX_VOPRF_BATCH_EVALUATIONS
  | none => MAX_BATCH_EVALUATIONS

/-- The limit of a mode. -/
def maxBatch (voprf : Bool) : ℕ := if voprf then MAX_VOPRF_BATCH_EVALUATIONS else MAX_BATCH_EVALUATIONS

theorem maxBatch_pos (voprf : Bool) : 0 < maxBatch voprf := by cases voprf <;> decide

theorem ClientState.maxBatchEvaluations_eq (self : ClientState S) :
    self.maxBatchEvaluations = maxBatch self.voprf.isSome := by
  unfold maxBatchEvaluations
  cases self.voprf <;> rfl

theorem ServerState.maxBatchEvaluations_eq (self : ServerState) :
    self.maxBatchEvaluations = maxBatch self.voprf.isSome := by
  unfold maxBatchEvaluations
  cases self.voprf <;> rfl

theorem ClientState.maxBatchEvaluations_pos (self : ClientState S) : 0 < self.maxBatchEvaluations := by
  rw [self.maxBatchEvaluations_eq]
  exact maxBatch_pos _

theorem ServerState.maxBatchEvaluations_pos (self : ServerState) : 0 < self.maxBatchEvaluations := by
  rw [self.maxBatchEvaluations_eq]
  exact maxBatch_pos _

/-! ## Calls -/

/-- A call of an `OprfClient`. -/
inductive OprfCall where
  /-- Evaluate the OPRF on a tag and an input. -/
  | evaluate (tag x : List UInt8)
  /-- Evaluate several inputs under one tag. -/
  | evaluateBatch (tag : List UInt8) (inputs : List (List UInt8))

namespace OprfCall

/-- The tag of a call. -/
def tag : OprfCall → List UInt8
  | evaluate tag _ => tag
  | evaluateBatch tag _ => tag

/-- The inputs of a call. -/
def inputs : OprfCall → List (List UInt8)
  | evaluate _ x => [x]
  | evaluateBatch _ inputs => inputs

/-- The request of a call. -/
def request (blake3 : Blake3) (state : ClientState S) : OprfCall →
    Option (ClientState S × Except RequestError (RequestMessage × FinalizeState S))
  | evaluate tag x => PoolOprf.request blake3 state tag x
  | evaluateBatch tag inputs => requestBatch blake3 state tag inputs

/-- The outputs of a call. -/
def finalize (stark : Stark Val) (fin : FinalizeState S) (resp : ResponseMessage stark) : OprfCall →
    Option (Except (FinalizeError stark) (List PrfOutput))
  | evaluate _ _ => (PoolOprf.finalize stark fin resp).map fun result => result.map fun out => [out]
  | evaluateBatch _ _ => finalizeBatch stark fin resp

/-- Every call requests as a batch of its inputs. -/
theorem request_eq (call : OprfCall) (blake3 : Blake3) (state : ClientState S) :
    call.request blake3 state = requestBatch blake3 state call.tag call.inputs := by
  cases call <;> rfl

end OprfCall

/-! ## Blocking tasks -/

/-- The task of a call's request, on the client's state under its lock: the state that it leaves,
and its result. A task that panics leaves the lock poisoned (`none`), and a task that finds it so
panics. -/
def requestTask (blake3 : Blake3) (call : OprfCall) (state : Option (ClientState S)) :
    Option (ClientState S) × Option (Except RequestError (RequestMessage × FinalizeState S)) :=
  match state.bind fun state => call.request blake3 state with
  | none => (none, none)
  | some (state, result) => (some state, some result)

/-- The task of a request's answer, on the server's state under its lock. -/
def blindEvalTask (S : Permutations) (blake3 : Blake3) (stark : Stark Val) (coins : ℕ → stark.Coins)
    (sk : SecretKey) (req : RequestMessage) (state : Option ServerState) :
    Option ServerState × Option (Except (BlindEvalError stark) (ResponseMessage stark)) :=
  match state.bind fun state => blindEval S blake3 stark coins state sk req with
  | none => (none, none)
  | some (state, _, result) => (some state, some result)

/-! ## Phases -/

/-- Where the client is in a call. -/
inductive OprfClientPhase (S : Permutations) (stark : Stark Val) where
  /-- In no call. -/
  | idle
  /-- It waits for the task of the request. -/
  | requesting (call : OprfCall)
  /-- It has not sent the request. -/
  | sending (call : OprfCall) (req : RequestMessage) (fin : FinalizeState S)
  /-- It waits for a response. -/
  | receiving (call : OprfCall) (fin : FinalizeState S)
  /-- It waits for the task that finalizes the response. -/
  | finalizing (call : OprfCall) (fin : FinalizeState S) (resp : ResponseMessage stark)
  /-- It preprocesses again, and may have got to the end with this state. -/
  | renewing (state : Option (ClientState S))

/-- Where the server is in a call. -/
inductive OprfServerPhase (stark : Stark Val) where
  /-- In no call, or waiting for a request. -/
  | idle
  /-- It waits for the task of the answer. -/
  | serving (req : RequestMessage)
  /-- It has not sent the response. -/
  | responding (resp : ResponseMessage stark)
  /-- It preprocesses again, and may have got to the end with this state. -/
  | renewing (state : Option ServerState)

/-- Both sides, the messages in flight, and what the client's calls have returned. -/
structure OprfRun (S : Permutations) (stark : Stark Val) where
  client : OprfClientPhase S stark
  server : OprfServerPhase stark
  /-- The client's state, if its lock is not poisoned. -/
  client_state : Option (ClientState S)
  /-- The server's state, if its lock is not poisoned. -/
  server_state : Option ServerState
  /-- Tasks of abandoned calls that have this state of the client's. -/
  client_tasks : List OprfCall
  /-- Tasks of abandoned calls that have this state of the server's. -/
  server_tasks : List RequestMessage
  /-- Requests that the server has not read. -/
  requests : List RequestMessage
  /-- Responses that the client has not read. -/
  responses : List (ResponseMessage stark)
  /-- The sessions so far. -/
  uids : List Uid
  /-- The calls that returned `Ok`, with their outputs. -/
  returned : List (OprfCall × List PrfOutput)

/-- Two sides after their first preprocessing. -/
def OprfRun.new (stark : Stark Val) (client : ClientState S) (server : ServerState) : OprfRun S stark where
  client := .idle
  server := .idle
  client_state := some client
  server_state := some server
  client_tasks := []
  server_tasks := []
  requests := []
  responses := []
  uids := [client.uid]
  returned := []

/-- What a preprocessing leaves: matching states with nothing spent. -/
structure Renewed (sk : SecretKey) (client : ClientState S) (server : ServerState) : Prop where
  matched : Matched client server sk
  client_ctr : client.runs.ctr = 0
  server_ctr : server.runs.ctr = 0

/-! ## Steps -/

/-- The client goes on after its request, or returns its error. -/
def requested (call : OprfCall) :
    Option (Except RequestError (RequestMessage × FinalizeState S)) → OprfClientPhase S stark
  | some (.ok (req, fin)) => .sending call req fin
  | some (.error _) | none => .idle

/-- The server goes on after its answer, or returns its error. -/
def answered : Option (Except (BlindEvalError stark) (ResponseMessage stark)) → OprfServerPhase stark
  | some (.ok resp) => .responding resp
  | some (.error _) | none => .idle

/-- What a call returns, if `Ok`. -/
def returnedOk (call : OprfCall) :
    Option (Except (FinalizeError stark) (List PrfOutput)) → List (OprfCall × List PrfOutput)
  | some (.ok outputs) => [(call, outputs)]
  | some (.error _) | none => []

/-- The client is at an await of a call that leaves no task behind. -/
def OprfClientPhase.droppable : OprfClientPhase S stark → Bool
  | .idle | .requesting _ => false
  | .sending _ _ _ | .receiving _ _ | .finalizing _ _ _ | .renewing _ => true

/-- The server is at an await of a call that leaves no task behind. -/
def OprfServerPhase.droppable : OprfServerPhase stark → Bool
  | .idle | .serving _ => false
  | .responding _ | .renewing _ => true

section Steps

variable (blake3 : Blake3) (stark : Stark Val) (sk : SecretKey)

/-- A step of one side, or a preprocessing of both. -/
inductive OprfStep : OprfRun S stark → OprfRun S stark → Prop
  /-- The client is called. -/
  | client_calls (run : OprfRun S stark) (call : OprfCall) (hphase : run.client = .idle) :
      OprfStep run { run with client := .requesting call }
  /-- The task of the request runs. -/
  | client_requests (run : OprfRun S stark) (call : OprfCall) (hphase : run.client = .requesting call) :
      OprfStep run { run with
        client := requested call (requestTask blake3 call run.client_state).2
        client_state := (requestTask blake3 call run.client_state).1 }
  /-- The call is abandoned, and its task is left. -/
  | client_leaves (run : OprfRun S stark) (call : OprfCall) (hphase : run.client = .requesting call) :
      OprfStep run { run with client := .idle, client_tasks := run.client_tasks ++ [call] }
  /-- A task that was left runs. -/
  | client_task (run : OprfRun S stark) (before after : List OprfCall) (call : OprfCall)
      (htasks : run.client_tasks = before ++ call :: after) :
      OprfStep run { run with
        client_state := (requestTask blake3 call run.client_state).1
        client_tasks := before ++ after }
  /-- The request is sent. -/
  | client_sends (run : OprfRun S stark) (call : OprfCall) (req : RequestMessage) (fin : FinalizeState S)
      (hphase : run.client = .sending call req fin) :
      OprfStep run { run with client := .receiving call fin, requests := run.requests ++ [req] }
  /-- The next response is taken. -/
  | client_receives (run : OprfRun S stark) (call : OprfCall) (fin : FinalizeState S)
      (resp : ResponseMessage stark) (responses : List (ResponseMessage stark))
      (hphase : run.client = .receiving call fin) (hqueue : run.responses = resp :: responses) :
      OprfStep run { run with client := .finalizing call fin resp, responses := responses }
  /-- The call returns. -/
  | client_returns (run : OprfRun S stark) (call : OprfCall) (fin : FinalizeState S)
      (resp : ResponseMessage stark) (hphase : run.client = .finalizing call fin resp) :
      OprfStep run { run with
        client := .idle
        returned := run.returned ++ returnedOk call (call.finalize stark fin resp) }
  /-- The client preprocesses again. It reads its state, so its lock is not poisoned. -/
  | client_renews (run : OprfRun S stark) (state : ClientState S) (hphase : run.client = .idle)
      (hstate : run.client_state = some state) : OprfStep run { run with client := .renewing none }
  /-- Its state is replaced. Tasks that were left have the old one. -/
  | client_renewed (run : OprfRun S stark) (state : ClientState S)
      (hphase : run.client = .renewing (some state)) :
      OprfStep run { run with client := .idle, client_state := some state, client_tasks := [] }
  /-- The client's call is abandoned, or fails. -/
  | client_drops (run : OprfRun S stark) (hphase : run.client.droppable) :
      OprfStep run { run with client := .idle }
  /-- The next request is taken. -/
  | server_receives (run : OprfRun S stark) (req : RequestMessage) (requests : List RequestMessage)
      (hphase : run.server = .idle) (hqueue : run.requests = req :: requests) :
      OprfStep run { run with server := .serving req, requests := requests }
  /-- The task of the answer runs. -/
  | server_answers (run : OprfRun S stark) (req : RequestMessage) (coins : ℕ → stark.Coins)
      (hphase : run.server = .serving req) :
      OprfStep run { run with
        server := answered (blindEvalTask S blake3 stark coins sk req run.server_state).2
        server_state := (blindEvalTask S blake3 stark coins sk req run.server_state).1 }
  /-- The call is abandoned, and its task is left. -/
  | server_leaves (run : OprfRun S stark) (req : RequestMessage) (hphase : run.server = .serving req) :
      OprfStep run { run with server := .idle, server_tasks := run.server_tasks ++ [req] }
  /-- A task that was left runs. -/
  | server_task (run : OprfRun S stark) (before after : List RequestMessage) (req : RequestMessage)
      (coins : ℕ → stark.Coins) (htasks : run.server_tasks = before ++ req :: after) :
      OprfStep run { run with
        server_state := (blindEvalTask S blake3 stark coins sk req run.server_state).1
        server_tasks := before ++ after }
  /-- The response is sent. -/
  | server_responds (run : OprfRun S stark) (resp : ResponseMessage stark)
      (hphase : run.server = .responding resp) :
      OprfStep run { run with server := .idle, responses := run.responses ++ [resp] }
  /-- The server preprocesses again. -/
  | server_renews (run : OprfRun S stark) (hphase : run.server = .idle) :
      OprfStep run { run with server := .renewing none }
  /-- Its state is replaced. Tasks that were left have the old one. -/
  | server_renewed (run : OprfRun S stark) (state : ServerState)
      (hphase : run.server = .renewing (some state)) :
      OprfStep run { run with server := .idle, server_state := some state, server_tasks := [] }
  /-- The server's call is abandoned, or fails. -/
  | server_drops (run : OprfRun S stark) (hphase : run.server.droppable) :
      OprfStep run { run with server := .idle }
  /-- The two sides get to the end of a preprocessing, for a new session. Either may still fail. -/
  | preprocess (run : OprfRun S stark) (client : ClientState S) (server : ServerState)
      (hclient : run.client = .renewing none) (hserver : run.server = .renewing none)
      (hrenewed : Renewed sk client server) (huid : client.uid ∉ run.uids) :
      OprfStep run { run with
        client := .renewing (some client)
        server := .renewing (some server)
        uids := client.uid :: run.uids }

end Steps

end PoolOprf
