import PoolOprf.Oprf.Session
import PoolOprf.Psi.Protocol

/-!
# A run of PSI

`PsiClient` and `PsiSession` (`pool-psi/src/client.rs` and `server.rs`) over the streams of
`transport.rs` and the OPRF's channel: one run from the client's announcement to its intersection.
Each side has a phase, and a stream is the list of the messages on it. `clientMove` and `serverMove`
are what a side does next, `none` while it waits; `PsiStep` is a move of either, or the
preprocessing that the two sides do together. The number of requests is never sent: the client cuts
its set into batches, and the server counts.
-/

namespace PoolOprf

open Panic

variable {S : Permutations} {stark : Stark Val}

/-- Errors of a PSI run. -/
inductive PsiError (stark : Stark Val) where
  /-- the OPRF client failed -/
  | Oprf (error : ClientError stark)
  /-- the OPRF server failed -/
  | OprfServer (error : ServerError stark)
  /-- peer closed the stream unexpectedly -/
  | UnexpectedClose
  /-- the client set must have at least one element -/
  | EmptyClientSet
  /-- client set has {len} elements, the maximum is {max} -/
  | ClientSetTooLarge (len max : ℕ)
  /-- server set has {len} elements, the maximum is {max} -/
  | ServerSetTooLarge (len max : ℕ)
  /-- this session was prepared for {expected} elements, got {got} -/
  | SetSizeMismatch (expected got : ℕ)
  /-- peer sent a malformed message: {0} -/
  | Malformed (what : String)

/-- What the two sides are called with. -/
structure PsiConfig (S : Permutations) where
  /-- The hash. -/
  blake3 : Blake3
  /-- What the build decides. -/
  build : Build
  /-- The server's key, if a VOPRF. -/
  pk : Option (VerifiedKey S)
  /-- How many elements the client announces. -/
  set_size : ℕ
  /-- The client's set. -/
  set : List (List UInt8)
  /-- The server's secret key. -/
  sk : SecretKey
  /-- The tag. -/
  tag : List UInt8
  /-- The server's set. -/
  server_set : List (List UInt8)

/-! ## Phases -/

/-- Where the client is. -/
inductive PsiClientPhase (S : Permutations) (stark : Stark Val) where
  /-- It has not announced its set size. -/
  | connected
  /-- It is preprocessing. -/
  | announced
  /-- It waits for the masked set. -/
  | preprocessed (oprf : ClientState S)
  /-- It has these batches to go. -/
  | requesting (oprf : ClientState S) (masked : MaskedServerSet) (batches : List (List (List UInt8)))
      (outputs : List PrfOutput)
  /-- It waits for a response, and has these batches to go after it. -/
  | waiting (oprf : ClientState S) (masked : MaskedServerSet) (fin : FinalizeState S)
      (batches : List (List (List UInt8))) (outputs : List PrfOutput)
  /-- It has returned these indices. -/
  | finished (oprf : ClientState S) (indices : List ℕ)
  /-- It has returned an error. -/
  | failed (error : PsiError stark)
  /-- It has panicked. -/
  | stopped

/-- Where the server is. -/
inductive PsiServerPhase (stark : Stark Val) where
  /-- It waits for the client's set size. -/
  | connected
  /-- It is preprocessing for so many elements. -/
  | accepted (set_size : ℕ)
  /-- It has not sent its masked set. -/
  | preprocessed (oprf : ServerState) (set_size : ℕ)
  /-- It waits for so many requests. -/
  | serving (oprf : ServerState) (requests : ℕ)
  /-- It has answered them all. -/
  | finished (oprf : ServerState)
  /-- It has returned an error. -/
  | failed (error : PsiError stark)
  /-- It has panicked. -/
  | stopped

/-- The client has returned, and its streams are closed. -/
def PsiClientPhase.ended : PsiClientPhase S stark → Bool
  | .finished _ _ | .failed _ | .stopped => true
  | _ => false

/-- The server has returned, and its streams are closed. -/
def PsiServerPhase.ended : PsiServerPhase stark → Bool
  | .finished _ | .failed _ | .stopped => true
  | _ => false

/-- The client has returned an error or has panicked. -/
def PsiClientPhase.broken : PsiClientPhase S stark → Bool
  | .failed _ | .stopped => true
  | _ => false

/-- The server has returned an error or has panicked. -/
def PsiServerPhase.broken : PsiServerPhase stark → Bool
  | .failed _ | .stopped => true
  | _ => false

/-- Both sides and the messages in flight. -/
structure PsiRun (S : Permutations) (stark : Stark Val) where
  client : PsiClientPhase S stark
  server : PsiServerPhase stark
  /-- The client's set size. -/
  sizes : List ℕ
  /-- The server's masked set. -/
  sets : List MaskedServerSet
  /-- Requests that the server has not read. -/
  requests : List RequestMessage
  /-- Responses that the client has not read. -/
  responses : List (ResponseMessage stark)
  /-- How many requests the client has sent. -/
  sent : ℕ

namespace PsiRun

/-- Two connected sides. -/
def new (S : Permutations) (stark : Stark Val) : PsiRun S stark :=
  ⟨.connected, .connected, [], [], [], [], 0⟩

end PsiRun

/-! ## The client -/

/-- Announce a set size. -/
def announceSetSize (cfg : PsiConfig S) (run : PsiRun S stark) : PsiRun S stark :=
  if cfg.set_size = 0 then
    { run with client := .failed .EmptyClientSet }
  else if cfg.set_size > MAX_CLIENT_SET then
    { run with client := .failed (.ClientSetTooLarge cfg.set_size MAX_CLIENT_SET) }
  else
    { run with client := .announced, sizes := run.sizes ++ [cfg.set_size] }

/-- Receive the masked set, and cut the client's set into batches. -/
def receiveSet (cfg : PsiConfig S) (oprf : ClientState S) (masked : MaskedServerSet) :
    PsiClientPhase S stark :=
  if masked.elements.length > MAX_SERVER_SET then
    .failed (.ServerSetTooLarge masked.elements.length MAX_SERVER_SET)
  else
    match chunks oprf.maxBatchEvaluations cfg.set with
    | none => .stopped
    | some batches => .requesting oprf masked batches []

/-- Request the next batch. After the last one, look the outputs up. -/
def sendRequest (cfg : PsiConfig S) (oprf : ClientState S) (masked : MaskedServerSet)
    (batches : List (List (List UInt8))) (outputs : List PrfOutput) (run : PsiRun S stark) :
    PsiRun S stark :=
  match batches with
  | [] => { run with client := .finished oprf (intersect outputs masked.elements) }
  | batch :: batches =>
    match requestBatch cfg.blake3 oprf masked.tag batch with
    | none => { run with client := .stopped }
    | some (_, .error error) => { run with client := .failed (.Oprf (.Request error)) }
    | some (oprf, .ok (req, fin)) =>
      { run with
        client := .waiting oprf masked fin batches outputs
        requests := run.requests ++ [req]
        sent := run.sent + 1 }

/-- Finalize the response of a batch. -/
def receiveResponse (oprf : ClientState S) (masked : MaskedServerSet) (fin : FinalizeState S)
    (batches : List (List (List UInt8))) (outputs : List PrfOutput) (resp : ResponseMessage stark) :
    PsiClientPhase S stark :=
  match finalizeBatch stark fin resp with
  | none => .stopped
  | some (.error error) => .failed (.Oprf (.Finalize error))
  | some (.ok outs) => .requesting oprf masked batches (outputs ++ outs)

/-- What the client does next, or `none` while it waits. -/
def clientMove (cfg : PsiConfig S) (run : PsiRun S stark) : Option (PsiRun S stark) :=
  match run.client with
  | .connected => some (announceSetSize cfg run)
  | .preprocessed oprf =>
    if cfg.set.length ≠ cfg.set_size then
      some { run with client := .failed (.SetSizeMismatch cfg.set_size cfg.set.length) }
    else
      match run.sets with
      | masked :: sets => some { run with client := receiveSet cfg oprf masked, sets := sets }
      | [] => if run.server.ended then some { run with client := .failed .UnexpectedClose } else none
  | .requesting oprf masked batches outputs => some (sendRequest cfg oprf masked batches outputs run)
  | .waiting oprf masked fin batches outputs =>
    match run.responses with
    | resp :: responses =>
      some { run with
        client := receiveResponse oprf masked fin batches outputs resp
        responses := responses }
    | [] =>
      if run.server.ended then
        some { run with client := .failed (.Oprf (.Channel .UnexpectedClose)) }
      else none
  | .announced | .finished _ _ | .failed _ | .stopped => none

/-! ## The server -/

/-- Take the client's set size. -/
def receiveSetSize (announced : ℕ) : PsiServerPhase stark :=
  if announced = 0 then
    .failed (.Malformed "client announced an empty set")
  else if announced > MAX_CLIENT_SET then
    .failed (.ClientSetTooLarge announced MAX_CLIENT_SET)
  else
    .accepted announced

/-- Mask the server's set and send it. The number of requests to wait for comes from the set
size. -/
def sendSet (cfg : PsiConfig S) (oprf : ServerState) (set_size : ℕ) (run : PsiRun S stark) :
    PsiRun S stark :=
  match maskServerSet cfg.blake3 cfg.sk cfg.tag cfg.server_set with
  | none => { run with server := .stopped }
  | some masked =>
    if masked.length > MAX_SERVER_SET then
      { run with server := .failed (.ServerSetTooLarge masked.length MAX_SERVER_SET) }
    else
      { run with
        sets := run.sets ++ [⟨cfg.tag, masked⟩]
        server := match requestsFor set_size oprf.maxBatchEvaluations with
          | none => .stopped
          | some requests => .serving oprf requests }

/-- Send an already-masked set. The number of requests to wait for comes from the set size. -/
def serveMasked (cfg : PsiConfig S) (masked : List MaskedElement) (oprf : ServerState) (set_size : ℕ)
    (run : PsiRun S stark) : PsiRun S stark :=
  if masked.length > MAX_SERVER_SET then
    { run with server := .failed (.ServerSetTooLarge masked.length MAX_SERVER_SET) }
  else
    { run with
      sets := run.sets ++ [⟨cfg.tag, masked⟩]
      server := match requestsFor set_size oprf.maxBatchEvaluations with
        | none => .stopped
        | some requests => .serving oprf requests }

/-- Answer a request, with `left` more to wait for. -/
def serveNext (cfg : PsiConfig S) (coins : ℕ → stark.Coins) (oprf : ServerState) (left : ℕ)
    (req : RequestMessage) (run : PsiRun S stark) : PsiRun S stark :=
  match blindEval S cfg.blake3 stark coins oprf cfg.sk req with
  | none => { run with server := .stopped }
  | some (_, _, .error error) => { run with server := .failed (.OprfServer (.BlindEval error)) }
  | some (oprf, _, .ok resp) =>
    { run with server := .serving oprf left, responses := run.responses ++ [resp] }

/-- What the server does next, or `none` while it waits. -/
def serverMove (cfg : PsiConfig S) (coins : ℕ → stark.Coins) (run : PsiRun S stark) :
    Option (PsiRun S stark) :=
  match run.server with
  | .connected =>
    match run.sizes with
    | announced :: sizes => some { run with server := receiveSetSize announced, sizes := sizes }
    | [] => if run.client.ended then some { run with server := .failed .UnexpectedClose } else none
  | .preprocessed oprf set_size => some (sendSet cfg oprf set_size run)
  | .serving oprf 0 => some { run with server := .finished oprf }
  | .serving oprf (left + 1) =>
    match run.requests with
    | req :: requests => some (serveNext cfg coins oprf left req { run with requests := requests })
    | [] => if run.client.ended then some { run with server := .failed .UnexpectedClose } else none
  | .accepted _ | .finished _ | .failed _ | .stopped => none

/-- How the online phase is called: with the server's set, or with one that is masked already. -/
inductive ServeCall where
  /-- `serve`. -/
  | serve
  /-- `serve_masked`. -/
  | serve_masked (masked : List MaskedElement)

namespace ServeCall

/-- The masked set. -/
def masked (cfg : PsiConfig S) : ServeCall → Option (List MaskedElement)
  | serve => maskServerSet cfg.blake3 cfg.sk cfg.tag cfg.server_set
  | serve_masked masked => some masked

/-- What the call does first. -/
def send (cfg : PsiConfig S) : ServeCall → ServerState → ℕ → PsiRun S stark → PsiRun S stark
  | serve => sendSet cfg
  | serve_masked masked => serveMasked cfg masked

/-- What the server does next, or `none` while it waits. -/
def move (cfg : PsiConfig S) (coins : ℕ → stark.Coins) (call : ServeCall) (run : PsiRun S stark) :
    Option (PsiRun S stark) :=
  match run.server with
  | .preprocessed oprf set_size => some (call.send cfg oprf set_size run)
  | _ => serverMove cfg coins run

end ServeCall

/-! ## Both sides -/

namespace PsiConfig

/-- The client's `c` of the preprocessing, if a VOPRF. -/
def masks (cfg : PsiConfig S) (binary delta : BinaryOts) : List (MasksMessage S) :=
  match cfg.pk, clientOtsOf cfg.blake3 cfg.build binary delta (tauFor cfg.set_size) with
  | some _, some ots =>
    (masksCommitments cfg.blake3 ots.ot_blocks (evaluationsFor (tauFor cfg.set_size))).map List.ofFn
  | _, _ => []

/-- A preprocessing of both sides, the server's for `set_size` elements, that leaves them with
`oprf` and `oprf'`. -/
def Preprocesses (cfg : PsiConfig S) (stark : Stark Val) (set_size : ℕ) (oprf : ClientState S)
    (oprf' : ServerState) : Prop :=
  ∃ (uid : Uid) (binary delta : BinaryOts) (coins : stark.Coins) (sent : ServerMessages S stark),
    preprocServer cfg.blake3 cfg.build coins cfg.sk (tauFor set_size) binary delta
      (clientHello stark uid (tauFor cfg.set_size) cfg.pk.isSome).toOption (cfg.masks binary delta) =
        some (.ok (sent, oprf')) ∧
    preprocClient cfg.blake3 cfg.build cfg.pk (tauFor cfg.set_size) uid binary delta sent =
      some (.ok oprf)

end PsiConfig

/-- A step of a run. -/
inductive PsiStep (cfg : PsiConfig S) : PsiRun S stark → PsiRun S stark → Prop
  /-- The client moves. -/
  | client (run run' : PsiRun S stark) (hmove : clientMove cfg run = some run') : PsiStep cfg run run'
  /-- The server moves. -/
  | server (run run' : PsiRun S stark) (coins : ℕ → stark.Coins)
      (hmove : serverMove cfg coins run = some run') : PsiStep cfg run run'
  /-- Both sides preprocess. -/
  | preprocess (run : PsiRun S stark) (set_size : ℕ) (oprf : ClientState S) (oprf' : ServerState)
      (hclient : run.client = .announced) (hserver : run.server = .accepted set_size)
      (hpreproc : cfg.Preprocesses stark set_size oprf oprf') :
      PsiStep cfg run { run with client := .preprocessed oprf, server := .preprocessed oprf' set_size }

/-- A step of a run whose server is called so. -/
inductive ServeStep (cfg : PsiConfig S) (call : ServeCall) : PsiRun S stark → PsiRun S stark → Prop
  /-- The client moves. -/
  | client (run run' : PsiRun S stark) (hmove : clientMove cfg run = some run') :
      ServeStep cfg call run run'
  /-- The server moves. -/
  | server (run run' : PsiRun S stark) (coins : ℕ → stark.Coins)
      (hmove : call.move cfg coins run = some run') : ServeStep cfg call run run'
  /-- Both sides preprocess. -/
  | preprocess (run : PsiRun S stark) (set_size : ℕ) (oprf : ClientState S) (oprf' : ServerState)
      (hclient : run.client = .announced) (hserver : run.server = .accepted set_size)
      (hpreproc : cfg.Preprocesses stark set_size oprf oprf') :
      ServeStep cfg call run
        { run with client := .preprocessed oprf, server := .preprocessed oprf' set_size }

/-- There is a masked set. -/
theorem ServeCall.masked_isSome (call : ServeCall) (cfg : PsiConfig S) :
    ∃ masked, call.masked cfg = some masked := by
  cases call with
  | serve =>
    obtain ⟨masked, hmasked, -⟩ := maskServerSet_spec cfg.blake3 cfg.sk cfg.tag cfg.server_set
    exact ⟨masked, hmasked⟩
  | serve_masked masked => exact ⟨masked, rfl⟩

/-- Serving is masking the set and serving the masked set. -/
theorem ServeCall.send_eq {cfg : PsiConfig S} {call : ServeCall} {masked : List MaskedElement}
    (h : call.masked cfg = some masked) (oprf : ServerState) (set_size : ℕ) (run : PsiRun S stark) :
    call.send cfg oprf set_size run = serveMasked cfg masked oprf set_size run := by
  cases call with
  | serve =>
    have hmasked : maskServerSet cfg.blake3 cfg.sk cfg.tag cfg.server_set = some masked := h
    unfold send sendSet serveMasked
    rw [hmasked]
  | serve_masked masked' =>
    obtain rfl := Option.some.inj h
    rfl

/-- The server of a run serves its set. -/
theorem serveCall_serve_move (cfg : PsiConfig S) (coins : ℕ → stark.Coins) (run : PsiRun S stark) :
    ServeCall.serve.move cfg coins run = serverMove cfg coins run := by
  unfold ServeCall.move
  split
  · rename_i hserver
    unfold serverMove
    rw [hserver]
    rfl
  · rfl

theorem PsiStep.serveStep {cfg : PsiConfig S} {run run' : PsiRun S stark} (h : PsiStep cfg run run') :
    ServeStep cfg .serve run run' := by
  cases h with
  | client _ hmove => exact .client _ _ hmove
  | server _ coins hmove =>
    rw [← serveCall_serve_move] at hmove
    exact .server _ _ coins hmove
  | preprocess set_size oprf oprf' hclient hserver hpreproc =>
    exact .preprocess _ set_size oprf oprf' hclient hserver hpreproc

theorem ServeStep.psiStep {cfg : PsiConfig S} {run run' : PsiRun S stark}
    (h : ServeStep cfg .serve run run') : PsiStep cfg run run' := by
  cases h with
  | client _ hmove => exact .client _ _ hmove
  | server _ coins hmove =>
    rw [serveCall_serve_move] at hmove
    exact .server _ _ coins hmove
  | preprocess set_size oprf oprf' hclient hserver hpreproc =>
    exact .preprocess _ set_size oprf oprf' hclient hserver hpreproc

end PoolOprf
