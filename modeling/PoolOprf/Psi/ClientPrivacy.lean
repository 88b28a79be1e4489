import PoolOprf.Oprf.ClientPrivacy
import PoolOprf.Oprf.PanicFree
import PoolOprf.Psi.Exact

/-!
# What a PSI client shows a cheating server

A server that sends any masked set, and then any responses, each chosen from what it has seen, to a
client that runs `PsiClient::intersect` (`clientAgainst`). It sees the commitments of the
preprocessing, the requests and when the client ends. The client's set is in its requests, which
hide it (`Alike`), and whether the client goes on depends on what Finalize checks of a response: the
session, the number of rows, the runs, and the proofs of the statements, none of which the inputs
are in (`finalizeBatch_outcome`). So two runs with sets of one size stay alike
(`RunAlike.clientAgainst`). A plain client has sent no commitments, and `psi_hides_set` follows for
it; those of a VOPRF are to the masks that hide the set, and whether they show them is a matter of
the hash.
-/

namespace PoolOprf

open Panic

variable {S : Permutations} {stark : Stark Val}

/-! ## What a client shows of a response -/

/-- Whether Finalize stops, refuses, or returns outputs. -/
def outcome {α : Type} (result : Option (Except (FinalizeError stark) α)) :
    Option (Except (FinalizeError stark) Unit) :=
  result.map (Except.map fun _ => ())

theorem finalizeRows_outcome (stark : Stark Val) :
    ∀ (row : ℕ) {fins fins' : List RowFinalizeState} (resps : List RowResponse),
      fins'.map RowFinalizeState.ctr = fins.map RowFinalizeState.ctr →
      outcome (finalizeRows stark row fins' resps) = outcome (finalizeRows stark row fins resps)
  | _, [], [], _, _ => rfl
  | _, _ :: _, _ :: _, [], _ => by
    rw [finalizeRows, finalizeRows]
    · simp
    · simp
  | row, fin :: fins, fin' :: fins', resp :: resps, h => by
    obtain ⟨hctr, hrest⟩ := List.cons.inj h
    have ih := finalizeRows_outcome stark (row + 1) resps hrest
    rw [finalizeRows, finalizeRows, hctr]
    by_cases hrun : resp.ctr ≠ fin.ctr
    · rw [if_pos hrun, if_pos hrun]
    -- A row itself always finalizes; the values may differ, and are not in the outcome.
    · obtain ⟨out, hout⟩ := finalizeRow_isSome fin resp
      obtain ⟨out', hout'⟩ := finalizeRow_isSome fin' resp
      obtain ⟨result, hresult⟩ := finalizeRows_isSome stark (row + 1) fins resps
      obtain ⟨result', hresult'⟩ := finalizeRows_isSome stark (row + 1) fins' resps
      rw [hresult, hresult'] at ih
      rw [if_neg hrun, if_neg hrun, hout, hout']
      simp only [Option.bind_eq_bind, Option.bind_some, hresult, hresult']
      cases result with
      | error error =>
        cases result' with
        | error error' => exact ih
        | ok outs' => cases ih
      | ok outs =>
        cases result' with
        | error error' => cases ih
        | ok outs' => rfl

theorem finalizeLoop_outcome (stark : Stark Val) :
    ∀ (eval : ℕ) {fins fins' : List (List RowFinalizeState)} (resps : List (List RowResponse)),
      fins'.map (List.map RowFinalizeState.ctr) = fins.map (List.map RowFinalizeState.ctr) →
      outcome (finalizeLoop stark eval fins' resps) = outcome (finalizeLoop stark eval fins resps)
  | _, [], [], _, _ => rfl
  | _, _ :: _, _ :: _, [], _ => by
    rw [finalizeLoop, finalizeLoop]
    · simp
    · simp
  | eval, rows :: fins, rows' :: fins', resp_rows :: resps, h => by
    obtain ⟨hrows, hrest⟩ := List.cons.inj h
    have hfirst := finalizeRows_outcome stark (eval * H_ROWS) resp_rows hrows
    have ih := finalizeLoop_outcome stark (eval + 1) resps hrest
    obtain ⟨first, hresult⟩ := finalizeRows_isSome stark (eval * H_ROWS) rows resp_rows
    obtain ⟨first', hresult'⟩ := finalizeRows_isSome stark (eval * H_ROWS) rows' resp_rows
    obtain ⟨others, hothers⟩ := finalizeLoop_isSome stark (eval + 1) fins resps
    obtain ⟨others', hothers'⟩ := finalizeLoop_isSome stark (eval + 1) fins' resps
    rw [hresult, hresult'] at hfirst
    rw [hothers, hothers'] at ih
    rw [finalizeLoop, finalizeLoop, hresult, hresult']
    simp only [Option.bind_eq_bind, Option.bind_some]
    -- The first evaluation fails on both sides or on none, and then so do the others.
    cases first with
    | error error =>
      cases first' with
      | error error' => exact hfirst
      | ok out' => cases hfirst
    | ok out =>
      cases first' with
      | error error' => cases hfirst
      | ok out' =>
        simp only [hothers, hothers', Option.bind_some]
        cases others with
        | error error =>
          cases others' with
          | error error' => exact ih
          | ok outputs' => cases ih
        | ok outputs =>
          cases others' with
          | error error' => cases ih
          | ok outputs' => rfl

/-- Finalize checks a response against what alike requests have in common. -/
theorem FinAlike.finalizeBatch_outcome {fin fin' : FinalizeState S} (h : FinAlike fin fin')
    (resp : ResponseMessage stark) :
    outcome (finalizeBatch stark fin' resp) = outcome (finalizeBatch stark fin resp) := by
  have hlen : fin'.rows.length = fin.rows.length := by
    rw [← List.length_map RowFinalizeState.ctr, h.ctr, List.length_map]
  have hchunks : (chunksExact H_ROWS fin'.rows).map (List.map RowFinalizeState.ctr) =
      (chunksExact H_ROWS fin.rows).map (List.map RowFinalizeState.ctr) := by
    rw [← chunksExact_map, ← chunksExact_map, h.ctr]
  have houtputs : outcome (finalizeOutputs stark fin' resp) =
      outcome (finalizeOutputs stark fin resp) := finalizeLoop_outcome stark 0 _ hchunks
  -- The checks before the outputs read the uid, the lengths and the statements, which both have.
  unfold finalizeBatch
  rw [h.uid, hlen, h.voprf]
  by_cases huid : resp.uid ≠ fin.uid
  · rw [if_pos huid, if_pos huid]
  rw [if_neg huid, if_neg huid]
  by_cases hrows : resp.rows.length ≠ fin.rows.length
  · rw [if_pos hrows, if_pos hrows]
  rw [if_neg hrows, if_neg hrows]
  by_cases hwhole : fin.rows.length % H_ROWS ≠ 0
  · rw [if_pos hwhole, if_pos hwhole]
  rw [if_neg hwhole, if_neg hwhole]
  cases fin.voprf with
  | none => exact houtputs
  | some statements =>
    dsimp only
    by_cases hproofs : resp.proofs.length ≠ statements.length
    · rw [if_pos hproofs, if_pos hproofs]
    rw [if_neg hproofs, if_neg hproofs]
    cases verifyLoop stark statements (chunksExact H_ROWS resp.rows) resp.proofs with
    | error error => rfl
    | ok => exact houtputs

/-! ## A run with a cheating server -/

/-- What a server sees of a client's run: the commitments, the requests, and whether the client has
ended. -/
structure ServerView (S : Permutations) where
  /-- `c` of the preprocessing. -/
  masks : List (MasksMessage S)
  requests : List RequestMessage
  sent : ℕ
  ended : Bool

/-- What a server sends, and whether it closes the streams. -/
structure Delivery (stark : Stark Val) where
  responses : List (ResponseMessage stark)
  close : Bool

/-- The `c` that a client with this state has sent in its preprocessing, if a VOPRF. -/
def ClientState.masksSent (state : ClientState S) (blake3 : Blake3) : List (MasksMessage S) :=
  if state.voprf.isSome then
    (masksCommitments blake3 state.ot_blocks (evaluationsFor state.runs.tau)).map List.ofFn
  else []

namespace PsiRun

/-- What the server sees, which has received these commitments. -/
def serverView (masks : List (MasksMessage S)) (run : PsiRun S stark) : ServerView S :=
  ⟨masks, run.requests, run.sent, run.client.ended⟩

/-- A run in which the client has preprocessed, and a server's masked set is on its way. -/
def prepared (stark : Stark Val) (oprf : ClientState S) (masked : MaskedServerSet) : PsiRun S stark :=
  { PsiRun.new S stark with client := .preprocessed oprf, sets := [masked] }

/-- A run in which the server sends something. -/
def deliver (delivery : Delivery stark) (run : PsiRun S stark) : PsiRun S stark :=
  { run with
    responses := run.responses ++ delivery.responses
    server := if delivery.close then .stopped else run.server }

end PsiRun

/-- A client's run with a server that sends what it likes, from what it has seen. In each round the
server sends, and the client moves unless it waits. -/
def clientAgainst (cfg : PsiConfig S) (masks : List (MasksMessage S))
    (server : ℕ → ServerView S → Delivery stark) : ℕ → PsiRun S stark → PsiRun S stark
  | 0, run => run
  | rounds + 1, run =>
    let run := run.deliver (server rounds (run.serverView masks))
    clientAgainst cfg masks server rounds ((clientMove cfg run).getD run)

/-- What such a server has seen after some rounds of a client that has preprocessed. -/
def viewAgainst (cfg : PsiConfig S) (oprf : ClientState S) (masked : MaskedServerSet)
    (server : ℕ → ServerView S → Delivery stark) (rounds : ℕ) : ServerView S :=
  let masks := oprf.masksSent cfg.blake3
  (clientAgainst cfg masks server rounds (PsiRun.prepared stark oprf masked)).serverView masks

/-! ## Runs that are alike -/

/-- The rows of the first of some inputs, and of the others. -/
theorem RowsFor.append {blake3 : Blake3} {tag : List UInt8} {inputs others : List (List UInt8)}
    {ctr : ℕ} {a : ℕ → Fin N → Zq} (h : RowsFor blake3 tag (inputs ++ others) ctr a) :
    RowsFor blake3 tag inputs ctr a ∧ RowsFor blake3 tag others (ctr + tauFor inputs.length) a := by
  constructor
  · intro v input k hinput
    have hv : v < inputs.length := (List.getElem?_eq_some_iff.mp hinput).1
    exact h v input k (by rw [List.getElem?_append_left hv]; exact hinput)
  · intro v input k hinput
    have hrun : ctr + tauFor inputs.length + (tauFor v + k.val) =
        ctr + (tauFor (inputs.length + v) + k.val) := by
      rw [tauFor_add]
      ring
    rw [hrun]
    refine h (inputs.length + v) input k ?_
    rw [List.getElem?_append_right (Nat.le_add_right _ _), Nat.add_sub_cancel_left]
    exact hinput

section RunAlike

variable (blake3 blake3' : Blake3) (set set' : List (List UInt8)) (masked : MaskedServerSet)
  (a a' : ℕ → Fin N → Zq)

/-- Batches of the two clients that are left to request, from the next run on. -/
structure BatchesAlike (ctr : ℕ) (batches batches' : List (List (List UInt8))) : Prop where
  lengths : batches'.map List.length = batches.map List.length
  rows : RowsFor blake3 masked.tag batches.flatten ctr a
  rows' : RowsFor blake3' masked.tag batches'.flatten ctr a'

/-- Where two clients are that show the same. -/
inductive PhaseAlike : PsiClientPhase S stark → PsiClientPhase S stark → Prop
  | preprocessed (oprf oprf' : ClientState S) (h : Alike blake3 blake3' oprf oprf' a a')
      (rows : RowsFor blake3 masked.tag set oprf.runs.ctr a)
      (rows' : RowsFor blake3' masked.tag set' oprf.runs.ctr a') :
      PhaseAlike (.preprocessed oprf) (.preprocessed oprf')
  | requesting (oprf oprf' : ClientState S) (batches batches' : List (List (List UInt8)))
      (outputs outputs' : List PrfOutput) (h : Alike blake3 blake3' oprf oprf' a a')
      (left : BatchesAlike blake3 blake3' masked a a' oprf.runs.ctr batches batches') :
      PhaseAlike (.requesting oprf masked batches outputs) (.requesting oprf' masked batches' outputs')
  | waiting (oprf oprf' : ClientState S) (fin fin' : FinalizeState S)
      (batches batches' : List (List (List UInt8))) (outputs outputs' : List PrfOutput)
      (h : Alike blake3 blake3' oprf oprf' a a') (hfin : FinAlike fin fin')
      (left : BatchesAlike blake3 blake3' masked a a' oprf.runs.ctr batches batches') :
      PhaseAlike (.waiting oprf masked fin batches outputs) (.waiting oprf' masked fin' batches' outputs')
  | ended (phase phase' : PsiClientPhase S stark) (h : phase.ended) (h' : phase'.ended) :
      PhaseAlike phase phase'

/-- Two runs that show the same. -/
structure RunAlike (run run' : PsiRun S stark) : Prop where
  client : PhaseAlike blake3 blake3' set set' masked a a' run.client run'.client
  server : run'.server = run.server
  /-- The masked set is the one that the rows are for. -/
  masked : ∀ masked' ∈ run.sets, masked' = masked
  sets : run'.sets = run.sets
  requests : run'.requests = run.requests
  responses : run'.responses = run.responses
  sent : run'.sent = run.sent

end RunAlike

section Step

variable {blake3 blake3' : Blake3} {set set' : List (List UInt8)} {masked : MaskedServerSet}
  {a a' : ℕ → Fin N → Zq} {run run' : PsiRun S stark}

/-- Both have ended, or neither. -/
theorem PhaseAlike.ended_eq {phase phase' : PsiClientPhase S stark}
    (h : PhaseAlike blake3 blake3' set set' masked a a' phase phase') : phase'.ended = phase.ended := by
  cases h with
  | preprocessed => rfl
  | requesting => rfl
  | waiting => rfl
  | ended _ _ hended hended' => rw [hended, hended']

/-- Such runs show the same. -/
theorem RunAlike.serverView (h : RunAlike blake3 blake3' set set' masked a a' run run')
    (masks : List (MasksMessage S)) : run'.serverView masks = run.serverView masks := by
  unfold PsiRun.serverView
  rw [h.requests, h.sent, h.client.ended_eq]

/-- Prepared clients that are alike. -/
theorem RunAlike.prepared (stark : Stark Val) {oprf oprf' : ClientState S}
    (h : Alike blake3 blake3' oprf oprf' a a') (hrows : RowsFor blake3 masked.tag set oprf.runs.ctr a)
    (hrows' : RowsFor blake3' masked.tag set' oprf.runs.ctr a') :
    RunAlike blake3 blake3' set set' masked a a' (PsiRun.prepared stark oprf masked)
      (PsiRun.prepared stark oprf' masked) where
  client := .preprocessed oprf oprf' h hrows hrows'
  server := rfl
  masked := fun _ hm => List.mem_singleton.mp hm
  sets := rfl
  requests := rfl
  responses := rfl
  sent := rfl

/-- Whatever the server sends, they stay alike. -/
theorem RunAlike.deliver (h : RunAlike blake3 blake3' set set' masked a a' run run')
    (delivery : Delivery stark) :
    RunAlike blake3 blake3' set set' masked a a' (run.deliver delivery) (run'.deliver delivery) where
  client := h.client
  server := by
    unfold PsiRun.deliver
    rw [h.server]
  masked := h.masked
  sets := h.sets
  requests := h.requests
  responses := congrArg (· ++ delivery.responses) h.responses
  sent := h.sent

/-- The set is cut into batches of the same sizes. -/
theorem chunks_alike {batch : ℕ} (hbatch : 0 < batch) {ctr : ℕ} (hlen : set'.length = set.length)
    (hrows : RowsFor blake3 masked.tag set ctr a) (hrows' : RowsFor blake3' masked.tag set' ctr a') :
    ∃ batches batches', chunks batch set = some batches ∧ chunks batch set' = some batches' ∧
      BatchesAlike blake3 blake3' masked a a' ctr batches batches' := by
  obtain ⟨batches, hchunks, -, hflatten, -⟩ := chunks_spec hbatch set
  obtain ⟨batches', hchunks', -, hflatten', -⟩ := chunks_spec hbatch set'
  have hlengths := chunks_lengths batch hlen
  rw [hchunks, hchunks', Option.map_some, Option.map_some] at hlengths
  exact ⟨batches, batches', hchunks, hchunks', Option.some.inj hlengths, by rw [hflatten]; exact hrows,
    by rw [hflatten']; exact hrows'⟩

/-- The masked set comes. -/
theorem receiveSet_alike {cfg cfg' : PsiConfig S} {oprf oprf' : ClientState S}
    (hlen : cfg'.set.length = cfg.set.length) (h : Alike blake3 blake3' oprf oprf' a a')
    (hrows : RowsFor blake3 masked.tag cfg.set oprf.runs.ctr a)
    (hrows' : RowsFor blake3' masked.tag cfg'.set oprf.runs.ctr a') :
    PhaseAlike blake3 blake3' cfg.set cfg'.set masked a a'
      (receiveSet cfg oprf masked : PsiClientPhase S stark) (receiveSet cfg' oprf' masked) := by
  have hbatch : oprf'.maxBatchEvaluations = oprf.maxBatchEvaluations := by
    unfold ClientState.maxBatchEvaluations
    rw [h.voprf]
  obtain ⟨batches, batches', hchunks, hchunks', hleft⟩ :=
    chunks_alike oprf.maxBatchEvaluations_pos hlen hrows hrows'
  unfold receiveSet
  rw [hbatch, hchunks, hchunks']
  by_cases hlarge : masked.elements.length > MAX_SERVER_SET
  · rw [if_pos hlarge, if_pos hlarge]
    exact .ended _ _ rfl rfl
  · rw [if_neg hlarge, if_neg hlarge]
    exact .requesting oprf oprf' batches batches' [] [] h hleft

/-- A response comes. -/
theorem receiveResponse_alike {oprf oprf' : ClientState S} {fin fin' : FinalizeState S}
    {batches batches' : List (List (List UInt8))} {outputs outputs' : List PrfOutput}
    (h : Alike blake3 blake3' oprf oprf' a a') (hfin : FinAlike fin fin')
    (hleft : BatchesAlike blake3 blake3' masked a a' oprf.runs.ctr batches batches')
    (resp : ResponseMessage stark) :
    PhaseAlike blake3 blake3' set set' masked a a'
      (receiveResponse oprf masked fin batches outputs resp)
      (receiveResponse oprf' masked fin' batches' outputs' resp) := by
  have houtcome := hfin.finalizeBatch_outcome resp
  unfold receiveResponse
  -- The outcome is the same for both, so the two go on, fail or panic together.
  cases hresult : finalizeBatch stark fin resp with
  | none =>
    cases hresult' : finalizeBatch stark fin' resp with
    | none => exact .ended _ _ rfl rfl
    | some result' =>
      rw [hresult, hresult'] at houtcome
      cases houtcome
  | some result =>
    cases hresult' : finalizeBatch stark fin' resp with
    | none =>
      rw [hresult, hresult'] at houtcome
      cases houtcome
    | some result' =>
      rw [hresult, hresult'] at houtcome
      cases result with
      | error error =>
        cases result' with
        | error error' => exact .ended _ _ rfl rfl
        | ok outs' => cases houtcome
      | ok outs =>
        cases result' with
        | error error' => cases houtcome
        | ok outs' => exact .requesting oprf oprf' batches batches' _ _ h hleft

/-- The next batch is requested. -/
theorem sendRequest_alike {cfg cfg' : PsiConfig S} {oprf oprf' : ClientState S}
    {batches batches' : List (List (List UInt8))} {outputs outputs' : List PrfOutput}
    (hrun : RunAlike cfg.blake3 cfg'.blake3 set set' masked a a' run run')
    (h : Alike cfg.blake3 cfg'.blake3 oprf oprf' a a')
    (hleft : BatchesAlike cfg.blake3 cfg'.blake3 masked a a' oprf.runs.ctr batches batches') :
    RunAlike cfg.blake3 cfg'.blake3 set set' masked a a'
      (sendRequest cfg oprf masked batches outputs run)
      (sendRequest cfg' oprf' masked batches' outputs' run') := by
  cases batches with
  | nil =>
    cases batches' with
    | nil => exact { hrun with client := .ended _ _ rfl rfl }
    | cons batch' batches' => cases hleft.lengths
  | cons batch batches =>
    cases batches' with
    | nil => cases hleft.lengths
    | cons batch' batches' =>
      obtain ⟨hlen, hlengths⟩ := List.cons.inj hleft.lengths
      obtain ⟨hbatch, hrest⟩ := RowsFor.append (List.flatten_cons ▸ hleft.rows)
      obtain ⟨hbatch', hrest'⟩ := RowsFor.append (List.flatten_cons ▸ hleft.rows')
      unfold sendRequest
      simp only []
      -- The next batches have one length, so they are refused alike, or give the same request.
      rcases h.requestBatch hlen hbatch hbatch' with
        ⟨-, error, hcall, hcall'⟩ | ⟨-, ⟨hcall, hcall'⟩ | ⟨oprf₁, oprf₁', req, fin, fin', hcall, hcall',
          hfin, hspent, h₁⟩⟩
      · rw [hcall, hcall']
        exact { hrun with client := .ended _ _ rfl rfl }
      · rw [hcall, hcall']
        exact { hrun with client := .ended _ _ rfl rfl }
      · rw [hcall, hcall']
        refine { hrun with
          client := .waiting oprf₁ oprf₁' fin fin' batches batches' outputs outputs' h₁ hfin ?_
          requests := congrArg (· ++ [req]) hrun.requests
          sent := congrArg (· + 1) hrun.sent }
        rw [hlen] at hrest'
        exact ⟨hlengths, hspent.ctr ▸ hrest, hspent.ctr ▸ hrest'⟩

/-- A client that has ended does not move. -/
theorem clientMove_ended (cfg : PsiConfig S) (h : run.client.ended) : clientMove cfg run = none := by
  unfold clientMove
  cases hclient : run.client <;> simp_all [PsiClientPhase.ended]

/-- The client moves, or waits. -/
theorem RunAlike.move {cfg cfg' : PsiConfig S} (hlen : cfg'.set.length = cfg.set.length)
    (hsize : cfg'.set_size = cfg.set_size)
    (h : RunAlike cfg.blake3 cfg'.blake3 cfg.set cfg'.set masked a a' run run') :
    RunAlike cfg.blake3 cfg'.blake3 cfg.set cfg'.set masked a a' ((clientMove cfg run).getD run)
      ((clientMove cfg' run').getD run') := by
  have hphase := h.client
  generalize hclient : run.client = phase at hphase
  generalize hclient' : run'.client = phase' at hphase
  -- The two clients are in the same phase and wait for the same streams.
  cases hphase with
  | preprocessed oprf oprf' hoprf hrows hrows' =>
    unfold clientMove
    rw [hclient, hclient']
    simp only []
    rw [hlen, hsize, h.sets, h.server]
    by_cases hmismatch : cfg.set.length ≠ cfg.set_size
    · rw [if_pos hmismatch, if_pos hmismatch]
      exact { h with client := .ended _ _ rfl rfl, server := rfl, sets := rfl }
    rw [if_neg hmismatch, if_neg hmismatch]
    cases hsets : run.sets with
    | nil =>
      simp only []
      by_cases hended : run.server.ended
      · rw [if_pos hended, if_pos hended]
        exact { h with
          client := .ended _ _ rfl rfl
          server := rfl
          masked := fun _ hm => by cases hm
          sets := rfl }
      · rw [if_neg hended, if_neg hended]
        exact h
    | cons masked' sets =>
      obtain rfl : masked' = masked := h.masked masked' (by rw [hsets]; exact List.mem_cons_self)
      exact { h with
        client := receiveSet_alike hlen hoprf hrows hrows'
        server := rfl
        masked := fun m hm => h.masked m (by rw [hsets]; exact List.mem_cons_of_mem _ hm)
        sets := rfl }
  | requesting oprf oprf' batches batches' outputs outputs' hoprf hleft =>
    unfold clientMove
    rw [hclient, hclient']
    exact sendRequest_alike h hoprf hleft
  | waiting oprf oprf' fin fin' batches batches' outputs outputs' hoprf hfin hleft =>
    unfold clientMove
    rw [hclient, hclient']
    simp only []
    rw [h.responses, h.server]
    cases run.responses with
    | nil =>
      simp only []
      by_cases hended : run.server.ended
      · rw [if_pos hended, if_pos hended]
        exact { h with client := .ended _ _ rfl rfl, server := rfl, responses := rfl }
      · rw [if_neg hended, if_neg hended]
        exact h
    | cons resp responses =>
      exact { h with
        client := receiveResponse_alike hoprf hfin hleft resp
        server := rfl
        responses := rfl }
  | ended _ _ hended hended' =>
    rw [clientMove_ended cfg (by rw [hclient]; exact hended),
      clientMove_ended cfg' (by rw [hclient']; exact hended')]
    exact h

/-- Runs with the same server stay alike for any number of rounds. -/
theorem RunAlike.clientAgainst {cfg cfg' : PsiConfig S} (hlen : cfg'.set.length = cfg.set.length)
    (hsize : cfg'.set_size = cfg.set_size) (masks : List (MasksMessage S))
    (server : ℕ → ServerView S → Delivery stark) :
    ∀ (rounds : ℕ) {run run' : PsiRun S stark},
      RunAlike cfg.blake3 cfg'.blake3 cfg.set cfg'.set masked a a' run run' →
      RunAlike cfg.blake3 cfg'.blake3 cfg.set cfg'.set masked a a'
        (clientAgainst cfg masks server rounds run) (clientAgainst cfg' masks server rounds run')
  | 0, _, _, h => h
  | rounds + 1, run, run', h => by
    rw [PoolOprf.clientAgainst, PoolOprf.clientAgainst, h.serverView]
    exact RunAlike.clientAgainst hlen hsize masks server rounds ((h.deliver _).move hlen hsize)

end Step

/-- Plain PSI hides the client's set from a cheating server. No block that the server lacks is
another of the client's (`OthersFresh`). Whatever masked set the server sends, and whatever it sends
then, what it sees of the run (the requests, and when the client ends) is the same for every two
sets of one size, up to a bijection of what it does not have of the client's preprocessing. -/
theorem psi_hides_set (cfg : PsiConfig S) {set' : List (List UInt8)}
    (hlen : set'.length = cfg.set.length) {state : ClientState S} {b : Fin N → Bool}
    (hplain : state.voprf = none) (hfresh : state.OthersFresh b)
    (s_s : Fin state.runs.tau → Fin DELTA → Zp) (masked : MaskedServerSet)
    (server : ℕ → ServerView S → Delivery stark) (rounds : ℕ) :
    ∃ move : Equiv.Perm (Fin state.runs.tau → HiddenRun), ∀ hidden,
      viewAgainst { cfg with blake3 := withStreams cfg.blake3 (state.otherBlocks b) hidden }
          (state.withHidden s_s hidden) masked server rounds =
        viewAgainst
          { cfg with
            blake3 := withStreams cfg.blake3 (state.otherBlocks b) (move hidden)
            set := set' }
          (state.withHidden s_s (move hidden)) masked server rounds := by
  obtain ⟨a, ha, -⟩ := exists_rowsFor cfg.blake3 masked.tag cfg.set state.runs.ctr fun _ _ => 0
  obtain ⟨a', ha', -⟩ := exists_rowsFor cfg.blake3 masked.tag set' state.runs.ctr fun _ _ => 0
  refine ⟨Equiv.piCongrRight fun run => moveRun state cfg.blake3 b a a' run, fun hidden => ?_⟩
  -- The move keeps every row, so the clients are alike before the first round.
  have hclients : Alike (withStreams cfg.blake3 (state.otherBlocks b) hidden)
      (withStreams cfg.blake3 (state.otherBlocks b) fun run => moveRun state cfg.blake3 b a a' run
        (hidden run)) (state.withHidden s_s hidden) (state.withHidden s_s fun run =>
          moveRun state cfg.blake3 b a a' run (hidden run)) a a' :=
    { uid := rfl
      voprf := rfl
      tau := rfl
      ctr := rfl
      row := fun run _ hlt => rowRequest_shear cfg.blake3 hfresh s_s hidden a a' hlt }
  have hrun := RunAlike.prepared stark hclients (ha.withStreams _ _) (ha'.withStreams _ _)
  -- A plain client has sent no commitments, so nothing that is moved has been shown.
  have hmasks : ∀ (blake3 : Blake3) (hidden : Fin state.runs.tau → HiddenRun),
      (state.withHidden s_s hidden).masksSent blake3 = [] := by
    intro blake3 hidden
    have hvoprf : (state.withHidden s_s hidden).voprf = none := hplain
    rw [ClientState.masksSent, hvoprf]
    rfl
  let cfg₁ := { cfg with blake3 := withStreams cfg.blake3 (state.otherBlocks b) hidden }
  let cfg₁' := { cfg with
    blake3 := withStreams cfg.blake3 (state.otherBlocks b) fun run =>
      moveRun state cfg.blake3 b a a' run (hidden run)
    set := set' }
  have hlen₁ : cfg₁'.set.length = cfg₁.set.length := hlen
  unfold viewAgainst
  simp only [hmasks]
  exact ((RunAlike.clientAgainst hlen₁ rfl [] server rounds hrun).serverView []).symm

/-- A response to the client's first batch of three elements. -/
def threeAnswers : ResponseMessage (Stark.transparent Val) where
  uid _ := 0
  rows := (List.range 48).map fun ctr => ⟨fun j => UInt8.ofNat (ctr + j), ctr⟩
  proofs := []

theorem psi_hides_set_numbered :
    ∃ move : Equiv.Perm (Fin 48 → HiddenRun), ∀ hidden,
      viewAgainst
          { overlapConfig with
            blake3 := withStreams lastByteHash
              ((numberedClient Permutations.identity 48 false).otherBlocks fun _ => false) hidden }
          ((numberedClient Permutations.identity 48 false).withHidden (fun _ j => UInt8.ofNat j) hidden)
          ⟨[7], [fun _ => 1, fun _ => 4]⟩
          (fun _ view => ⟨if view.sent = 1 then [threeAnswers] else [], view.ended⟩) 6 =
        viewAgainst
          { overlapConfig with
            blake3 := withStreams lastByteHash
              ((numberedClient Permutations.identity 48 false).otherBlocks fun _ => false) (move hidden)
            set := [[4], [5], [6]] }
          ((numberedClient Permutations.identity 48 false).withHidden (fun _ j => UInt8.ofNat j)
            (move hidden))
          ⟨[7], [fun _ => 1, fun _ => 4]⟩
          (fun _ view => ⟨if view.sent = 1 then [threeAnswers] else [], view.ended⟩) 6 :=
  psi_hides_set overlapConfig (show [[(4 : UInt8)], [5], [6]].length = overlapConfig.set.length from rfl)
    rfl (numberedClient_fresh 48 false) (fun _ j => UInt8.ofNat j) ⟨[7], [fun _ => 1, fun _ => 4]⟩
    (fun _ view => ⟨if view.sent = 1 then [threeAnswers] else [], view.ended⟩) 6

end PoolOprf
