import PoolOprf.Lib.Reachable
import PoolOprf.Psi.Run

/-!
# PSI is exact

A run of PSI between honest parties (`PsiConfig.Honest`). Both sides make the number of requests out
of the same set size and the same batch limit, so the client's batches are as many as the server
waits for (`PsiInvariant`). Every run is finite (`psi_noEndlessRun`), and while the two sides are
not both done one of them can move (`PsiInvariant.progress`), so that a run can only end with both
done and the client's indices those of the intersection (`psi_exact`).
-/

namespace PoolOprf

open Panic

variable {S : Permutations} {stark : Stark Val}

/-- Two honest parties whose sets have sizes that the protocol allows. A VOPRF's client has the
server's key, and its proof system proves what holds. -/
structure PsiConfig.Honest (cfg : PsiConfig S) (stark : Stark Val) : Prop where
  /-- The client announces its set's size. -/
  set_size : cfg.set_size = cfg.set.length
  set_pos : 1 ≤ cfg.set.length
  set_le : cfg.set.length ≤ MAX_CLIENT_SET
  tag_le : cfg.tag.length ≤ MAX_TAG_LEN
  server_set_le : ∀ masked, maskServerSet cfg.blake3 cfg.sk cfg.tag cfg.server_set = some masked →
    masked.length ≤ MAX_SERVER_SET
  pk : ∀ key, cfg.pk = some key → key.pk = keyCommit cfg.sk
  complete : cfg.pk.isSome → stark.Complete
  /-- There are random choices for a prover to make. -/
  coins : Nonempty stark.Coins

/-- What a session takes of the two parties, whatever the tag and the masked set are. -/
structure PsiConfig.Parties (cfg : PsiConfig S) (stark : Stark Val) : Prop where
  set_size : cfg.set_size = cfg.set.length
  set_pos : 1 ≤ cfg.set.length
  set_le : cfg.set.length ≤ MAX_CLIENT_SET
  pk : ∀ key, cfg.pk = some key → key.pk = keyCommit cfg.sk
  complete : cfg.pk.isSome → stark.Complete
  coins : Nonempty stark.Coins

theorem PsiConfig.Honest.parties {cfg : PsiConfig S} (h : cfg.Honest stark) : cfg.Parties stark :=
  ⟨h.set_size, h.set_pos, h.set_le, h.pk, h.complete, h.coins⟩

/-! ## The preprocessing -/

/-- The set sizes that may be announced are far from the counts that overflow. -/
theorem Build.fits_of_setSize (build : Build) {set_size : ℕ} (hle : set_size ≤ MAX_CLIENT_SET) :
    build.Fits (tauFor set_size) := by
  have hle' : set_size ≤ 2 ^ 16 := hle
  apply build.fits_of_le
  change set_size * 16 ≤ 2 ^ 61
  omega

/-- Two sides in step with so many evaluations left. -/
structure PsiAligned (cfg : PsiConfig S) (oprf : ClientState S) (oprf' : ServerState) (left : ℕ) : Prop
    extends Aligned cfg.blake3 cfg.sk oprf oprf' where
  voprf : oprf.voprf.isSome = cfg.pk.isSome
  remaining : oprf.runs.remaining = tauFor left

namespace PsiConfig.Parties

variable {cfg : PsiConfig S}

/-- τ as it goes on the wire. -/
theorem tau_toNat (hcfg : cfg.Parties stark) :
    (UInt64.ofNat (tauFor cfg.set_size)).toNat = tauFor cfg.set_size := by
  have hle : cfg.set.length ≤ 2 ^ 16 := hcfg.set_le
  have hlt : tauFor cfg.set_size < 2 ^ 64 := by
    rw [hcfg.set_size]
    change cfg.set.length * 16 < 2 ^ 64
    omega
  rw [UInt64.toNat_ofNat']
  exact Nat.mod_eq_of_lt hlt

theorem fits (hcfg : cfg.Parties stark) : cfg.build.Fits (tauFor cfg.set_size) := by
  rw [hcfg.set_size]
  exact cfg.build.fits_of_setSize hcfg.set_le

/-- A preprocessing with any session, OTs and proving coins gets to its end on both sides. -/
theorem preprocesses (hcfg : cfg.Parties stark) (uid : Uid) (binary delta : BinaryOts)
    (coins : stark.Coins) :
    ∃ (sent : ServerMessages S stark) (oprf : ClientState S) (oprf' : ServerState),
      preprocServer cfg.blake3 cfg.build coins cfg.sk (tauFor cfg.set_size) binary delta
        (clientHello stark uid (tauFor cfg.set_size) cfg.pk.isSome).toOption
        (cfg.masks binary delta) = some (.ok (sent, oprf')) ∧
      preprocClient cfg.blake3 cfg.build cfg.pk (tauFor cfg.set_size) uid binary delta sent =
        some (.ok oprf) := by
  have htau := hcfg.tau_toNat
  have hfits : cfg.build.Fits (UInt64.ofNat (tauFor cfg.set_size)).toNat := by
    rw [htau]
    exact hcfg.fits
  have hrows : H_ROWS ≤ (UInt64.ofNat (tauFor cfg.set_size)).toNat := by
    have hpos := hcfg.set_pos
    rw [htau, hcfg.set_size]
    change 16 ≤ cfg.set.length * 16
    omega
  -- Without `pk` only the OTs have to fit; with it, the client has to send its commitments.
  cases hpk : cfg.pk with
  | none =>
    obtain ⟨m, hm, -⟩ := requiredBinaryOtCount_of_fits (Nat.le_trans (by norm_num) hrows) hfits
    obtain ⟨sent, oprf', oprf, hserver, hclient⟩ := plain_preprocessing (S := S) cfg.blake3
      stark cfg.sk _ hm uid binary delta [] coins
    -- A plain client sends no commitments.
    have hmasks : cfg.masks binary delta = [] := by
      unfold masks
      rw [hpk]
    rw [htau] at hserver hclient
    rw [hmasks]
    exact ⟨sent, oprf, oprf', hserver, hclient⟩
  | some key =>
    obtain ⟨cots, sent, oprf', oprf, hcots, hserver, hclient⟩ := voprf_preprocessing cfg.blake3
      (hcfg.complete (by rw [hpk]; rfl)) (hcfg.pk key hpk) _ hrows hfits uid binary delta coins
    rw [htau] at hcots hserver hclient
    have hmasks : cfg.masks binary delta = (masksCommitments cfg.blake3 cots.ot_blocks
        (evaluationsFor (tauFor cfg.set_size))).map List.ofFn := by
      unfold masks
      rw [hpk, hcots]
    rw [hmasks]
    exact ⟨sent, oprf, oprf', hserver, hclient⟩

/-- Both sides are in step after the preprocessing, with an evaluation for each element. -/
theorem aligned (hcfg : cfg.Parties stark) {oprf : ClientState S} {oprf' : ServerState}
    (h : cfg.Preprocesses stark cfg.set_size oprf oprf') :
    PsiAligned cfg oprf oprf' cfg.set.length := by
  obtain ⟨uid, binary, delta, coins, sent, hserver, hclient⟩ := h
  obtain ⟨opened, cots, sots, m, hm, hots, huid, hvoprf, hclient, hserver⟩ :=
    both_established cfg.pk hserver hclient
  rw [Nat.min_eq_left ((requiredBinaryOtCount_eq_some hm).2.1.mpr hcfg.fits)] at hots
  have hruns : oprf.runs = Runs.new (tauFor cfg.set_size) := by
    rw [hclient.runs, hots.rcEntries_length]
  have hremaining : oprf.runs.remaining = tauFor cfg.set.length := by
    rw [hruns, hcfg.set_size]
    rfl
  refine ⟨⟨matched_of_established hots hclient hserver huid, ?_, ?_⟩, ?_, hremaining⟩
  · rw [hruns, hserver.runs, hots.serverPads_length]
  · -- A VOPRF's two states are in step: its proofs are about the same pads and masks.
    cases hpk : cfg.pk with
    | none =>
      rw [hpk] at hvoprf
      exact .inl ⟨hclient.plain hpk, hserver.plain hvoprf⟩
    | some key =>
      rw [hpk] at hvoprf hclient
      obtain ⟨voprf, hstep⟩ :=
        inStep_of_established (hcfg.pk key hpk) hots hclient hserver huid hvoprf
      exact .inr ⟨voprf, _, hstep⟩
  · cases hpk : cfg.pk with
    | none =>
      rw [hclient.plain hpk]
      rfl
    | some key =>
      obtain ⟨voprf, hsome, -⟩ := hclient.voprf key hpk
      rw [hsome]
      rfl

end PsiConfig.Parties

/-! ## One batch -/

/-- `F_sk(tag, x)` of an element. -/
def PsiConfig.value (cfg : PsiConfig S) (x : List UInt8) : PrfOutput :=
  outputOf cfg.sk (hashToZqMatrix cfg.blake3 cfg.tag x)

namespace PsiAligned

variable {cfg : PsiConfig S} {oprf oprf₁ : ClientState S} {oprf' : ServerState} {left : ℕ}

theorem client_limit (h : PsiAligned cfg oprf oprf' left) :
    oprf.maxBatchEvaluations = maxBatch cfg.pk.isSome := by
  rw [oprf.maxBatchEvaluations_eq, h.voprf]

/-- The server has the client's batch limit. -/
theorem server_limit (h : PsiAligned cfg oprf oprf' left) :
    oprf'.maxBatchEvaluations = maxBatch cfg.pk.isSome := by
  rw [oprf'.maxBatchEvaluations_eq, h.isSome_eq, h.voprf]

/-- The server has as many runs left. -/
theorem server_remaining (h : PsiAligned cfg oprf oprf' left) :
    oprf'.runs.remaining = tauFor left := by
  rw [h.remaining_eq, h.remaining]

/-- A batch of what is left may be requested. -/
theorem requestAccepted (h : PsiAligned cfg oprf oprf' left) (htag : cfg.tag.length ≤ MAX_TAG_LEN)
    {batch : List (List UInt8)} (hne : batch ≠ []) (hlimit : batch.length ≤ maxBatch cfg.pk.isSome)
    (hleft : batch.length ≤ left) : RequestAccepted oprf cfg.tag batch := by
  refine ⟨htag, hne, ?_, fun hvoprf => ?_, ?_⟩
  · refine hlimit.trans ?_
    cases cfg.pk.isSome <;> decide
  · rw [h.voprf] at hvoprf
    rw [hvoprf] at hlimit
    exact hlimit
  · rw [h.remaining]
    exact Nat.mul_le_mul_right H_ROWS hleft

/-- A batch that is requested is accepted and answered. It leaves the two sides in step with so many
evaluations less, and it is finalized to its elements' values. -/
theorem exchange (h : PsiAligned cfg oprf oprf' left) (hcfg : cfg.Parties stark)
    {batch : List (List UInt8)} {req : RequestMessage} {fin : FinalizeState S}
    (hrequest : requestBatch cfg.blake3 oprf cfg.tag batch = some (oprf₁, .ok (req, fin)))
    (coins : ℕ → stark.Coins) :
    ∃ oprf₁' rows resp,
      blindEval S cfg.blake3 stark coins oprf' cfg.sk req = some (oprf₁', rows, .ok resp) ∧
      PsiAligned cfg oprf₁ oprf₁' (left - batch.length) ∧
      finalizeBatch stark fin resp = some (.ok (batch.map cfg.value)) := by
  have hstark : oprf.voprf.isSome → stark.Complete := fun hvoprf =>
    hcfg.complete (h.voprf ▸ hvoprf)
  obtain ⟨oprf₁', rows, resp, hanswer⟩ := h.toAligned.answered hstark hrequest coins
  obtain ⟨-, hnext⟩ := h.toAligned.next hrequest hanswer
  obtain ⟨haccepted, hspent, -⟩ := requestBatch_eq_ok hrequest
  refine ⟨oprf₁', rows, resp, hanswer, ⟨hnext, ?_, ?_⟩,
    h.toAligned.finalizeBatch hstark hrequest hanswer⟩
  · rw [hspent.voprf, h.voprf]
  · have hremaining := h.remaining
    unfold Runs.remaining tauFor at hremaining ⊢
    rw [hspent.tau, hspent.ctr, Nat.sub_mul]
    unfold tauFor
    omega

end PsiAligned

/-! ## What a run keeps -/

/-- The server has so many requests to wait for, and may be done when there are none. -/
def Serves (oprf' : ServerState) (left : ℕ) (phase : PsiServerPhase stark) : Prop :=
  phase = .serving oprf' left ∨ left = 0 ∧ phase = .finished oprf'

/-- The joint phases of a run, with the set that the server masks and the number of requests that it
waits for. From the first request on, as many batches are left at the client as requests at the
server, and the outputs so far with the values of what is left are the values of the client's
set. -/
inductive PsiInvariant (cfg : PsiConfig S) (masked : List MaskedElement) (total : ℕ) :
    PsiRun S stark → Prop
  /-- Nothing has happened. -/
  | connected : PsiInvariant cfg masked total (.new S stark)
  /-- The set size is on its way. -/
  | announced : PsiInvariant cfg masked total
      ⟨.announced, .connected, [cfg.set_size], [], [], [], 0⟩
  /-- Both sides are preprocessing. -/
  | accepted : PsiInvariant cfg masked total ⟨.announced, .accepted cfg.set_size, [], [], [], [], 0⟩
  /-- Both sides have preprocessed. -/
  | preprocessed (oprf : ClientState S) (oprf' : ServerState)
      (h : PsiAligned cfg oprf oprf' cfg.set.length) : PsiInvariant cfg masked total
        ⟨.preprocessed oprf, .preprocessed oprf' cfg.set_size, [], [], [], [], 0⟩
  /-- The masked set is on its way. -/
  | sent (oprf : ClientState S) (oprf' : ServerState) (h : PsiAligned cfg oprf oprf' cfg.set.length) :
      PsiInvariant cfg masked total
        ⟨.preprocessed oprf, .serving oprf' total, [], [⟨cfg.tag, masked⟩], [], [], 0⟩
  /-- The client has the response to its last batch, if any. -/
  | requesting (oprf : ClientState S) (oprf' : ServerState) (server : PsiServerPhase stark)
      (batches : List (List (List UInt8))) (outputs : List PrfOutput) (sent : ℕ)
      (h : PsiAligned cfg oprf oprf' batches.flatten.length)
      (hserver : Serves oprf' batches.length server)
      (hbatches : ∀ batch ∈ batches, batch ≠ [] ∧ batch.length ≤ maxBatch cfg.pk.isSome)
      (houtputs : outputs ++ batches.flatten.map cfg.value = cfg.set.map cfg.value)
      (hsent : sent + batches.length = total) : PsiInvariant cfg masked total
        ⟨.requesting oprf ⟨cfg.tag, masked⟩ batches outputs, server, [], [], [], [], sent⟩
  /-- A request is on its way. -/
  | requested (oprf oprf₁ : ClientState S) (oprf' : ServerState) (fin : FinalizeState S)
      (req : RequestMessage) (batch : List (List UInt8)) (batches : List (List (List UInt8)))
      (outputs : List PrfOutput) (sent : ℕ)
      (h : PsiAligned cfg oprf oprf' (batch.length + batches.flatten.length))
      (hrequest : requestBatch cfg.blake3 oprf cfg.tag batch = some (oprf₁, .ok (req, fin)))
      (hbatches : ∀ batch ∈ batches, batch ≠ [] ∧ batch.length ≤ maxBatch cfg.pk.isSome)
      (houtputs : outputs ++ batch.map cfg.value ++ batches.flatten.map cfg.value =
        cfg.set.map cfg.value)
      (hsent : sent + batches.length = total) : PsiInvariant cfg masked total
        ⟨.waiting oprf₁ ⟨cfg.tag, masked⟩ fin batches outputs, .serving oprf' (batches.length + 1), [],
          [], [req], [], sent⟩
  /-- Its response is on its way. -/
  | answered (oprf : ClientState S) (oprf' : ServerState) (server : PsiServerPhase stark)
      (fin : FinalizeState S) (resp : ResponseMessage stark) (batch : List (List UInt8))
      (batches : List (List (List UInt8))) (outputs : List PrfOutput) (sent : ℕ)
      (h : PsiAligned cfg oprf oprf' batches.flatten.length)
      (hserver : Serves oprf' batches.length server)
      (hresp : finalizeBatch stark fin resp = some (.ok (batch.map cfg.value)))
      (hbatches : ∀ batch ∈ batches, batch ≠ [] ∧ batch.length ≤ maxBatch cfg.pk.isSome)
      (houtputs : outputs ++ batch.map cfg.value ++ batches.flatten.map cfg.value =
        cfg.set.map cfg.value)
      (hsent : sent + batches.length = total) : PsiInvariant cfg masked total
        ⟨.waiting oprf ⟨cfg.tag, masked⟩ fin batches outputs, server, [], [], [], [resp], sent⟩
  /-- The client is done. -/
  | finished (oprf : ClientState S) (oprf' : ServerState) (server : PsiServerPhase stark)
      (h : PsiAligned cfg oprf oprf' 0) (hserver : Serves oprf' 0 server) :
      PsiInvariant cfg masked total
        ⟨.finished oprf (intersect (cfg.set.map cfg.value) masked), server, [], [], [], [], total⟩

/-- A server that waits for requests moves whatever it was called with. -/
theorem ServeCall.move_of_serving (call : ServeCall) (cfg : PsiConfig S) (coins : ℕ → stark.Coins)
    {run : PsiRun S stark} {oprf' : ServerState} {left : ℕ} (h : run.server = .serving oprf' left) :
    call.move cfg coins run = serverMove cfg coins run := by
  unfold ServeCall.move
  rw [h]

/-- A server that is done, or waits for requests that are not there, moves only to being done. -/
theorem Serves.move {oprf' : ServerState} {left : ℕ} {phase : PsiServerPhase stark}
    (h : Serves oprf' left phase) (cfg : PsiConfig S) (call : ServeCall) (coins : ℕ → stark.Coins)
    {run run' : PsiRun S stark} (hmove : call.move cfg coins run = some run')
    (hphase : run.server = phase) (hopen : left ≠ 0 → run.client.ended = false)
    (hrequests : run.requests = []) :
    ∃ phase', Serves oprf' left phase' ∧ run' = { run with server := phase' } := by
  rcases h with rfl | ⟨rfl, rfl⟩
  · rw [call.move_of_serving cfg coins hphase] at hmove
    unfold serverMove at hmove
    cases left with
    | zero =>
      rw [hphase] at hmove
      exact ⟨.finished oprf', .inr ⟨rfl, rfl⟩, (Option.some.inj hmove).symm⟩
    | succ left =>
      rw [hphase, hrequests] at hmove
      dsimp only at hmove
      rw [hopen (Nat.succ_ne_zero left), if_neg Bool.false_ne_true] at hmove
      cases hmove
  · unfold ServeCall.move serverMove at hmove
    rw [hphase] at hmove
    cases hmove

section Steps

variable {call : ServeCall} {cfg : PsiConfig S} {masked : List MaskedElement} {total : ℕ}
  {run run' : PsiRun S stark}

/-- The client's moves keep the invariant. -/
theorem PsiInvariant.clientMove (hcfg : cfg.Parties stark) (htag : cfg.tag.length ≤ MAX_TAG_LEN)
    (hle : masked.length ≤ MAX_SERVER_SET)
    (htotal : requestsFor cfg.set_size (maxBatch cfg.pk.isSome) = some total)
    (h : PsiInvariant cfg masked total run) (hmove : PoolOprf.clientMove cfg run = some run') :
    PsiInvariant cfg masked total run' := by
  have hpos := hcfg.set_pos
  cases h with
  | connected =>
    obtain rfl := Option.some.inj hmove
    unfold announceSetSize
    rw [if_neg (by rw [hcfg.set_size]; omega), if_neg (by rw [hcfg.set_size]; exact hcfg.set_le.not_gt)]
    exact .announced
  | announced => cases hmove
  | accepted => cases hmove
  | preprocessed oprf oprf' h =>
    unfold PoolOprf.clientMove at hmove
    dsimp only at hmove
    rw [if_neg (not_not.mpr hcfg.set_size.symm)] at hmove
    cases hmove
  | sent oprf oprf' h =>
    unfold PoolOprf.clientMove at hmove
    dsimp only at hmove
    rw [if_neg (not_not.mpr hcfg.set_size.symm)] at hmove
    obtain rfl := Option.some.inj hmove
    -- The client's batches are as many as the requests that the server counts on.
    obtain ⟨batches, hchunks, hcount, hflatten, hbatches⟩ :=
      chunks_spec (maxBatch_pos cfg.pk.isSome) cfg.set
    have hlen : batches.length = total := by
      unfold requestsFor at htotal
      rw [hcfg.set_size, hcount] at htotal
      exact Option.some.inj htotal
    unfold receiveSet
    dsimp only
    rw [if_neg hle.not_gt, h.client_limit, hchunks]
    refine .requesting oprf oprf' _ batches [] 0 ?_ (.inl (by rw [hlen])) hbatches ?_ ?_
    · rw [hflatten]
      exact h
    · rw [hflatten, List.nil_append]
    · rw [hlen, Nat.zero_add]
  | requesting oprf oprf' server batches outputs sent h hserver hbatches houtputs hsent =>
    obtain rfl := Option.some.inj hmove
    unfold sendRequest
    cases batches with
    | nil =>
      rw [List.flatten_nil, List.map_nil, List.append_nil] at houtputs
      rw [List.length_nil, Nat.add_zero] at hsent
      rw [houtputs, hsent]
      exact .finished oprf oprf' server h hserver
    | cons batch batches =>
      rw [List.forall_mem_cons] at hbatches
      rw [List.flatten_cons, List.length_append] at h
      rw [List.length_cons] at hserver hsent
      have haccepted := h.requestAccepted htag hbatches.1.1 hbatches.1.2
        (Nat.le_add_right _ _)
      obtain ⟨oprf₁, req, fin, hrequest⟩ := h.toAligned.request haccepted
      dsimp only
      rw [hrequest]
      -- A batch is left, so the server waits for one more request.
      obtain rfl : server = .serving oprf' (batches.length + 1) :=
        hserver.resolve_right fun hnone => Nat.succ_ne_zero _ hnone.1
      refine .requested oprf oprf₁ oprf' fin req batch batches outputs _ h hrequest hbatches.2 ?_ ?_
      · rw [← houtputs, List.flatten_cons, List.map_append, List.append_assoc]
      · omega
  | requested oprf oprf₁ oprf' fin req batch batches outputs sent h hrequest hbatches houtputs hsent =>
    cases hmove
  | answered oprf oprf' server fin resp batch batches outputs sent h hserver hresp hbatches houtputs
      hsent =>
    obtain rfl := Option.some.inj hmove
    unfold receiveResponse
    rw [hresp]
    exact .requesting oprf oprf' server batches _ sent h hserver hbatches houtputs hsent
  | finished oprf oprf' server h hserver => cases hmove

/-- The server's moves keep the invariant. -/
theorem PsiInvariant.serverMove (hcfg : cfg.Parties stark) (hmasked : call.masked cfg = some masked)
    (hle : masked.length ≤ MAX_SERVER_SET)
    (htotal : requestsFor cfg.set_size (maxBatch cfg.pk.isSome) = some total)
    (h : PsiInvariant cfg masked total run) {coins : ℕ → stark.Coins}
    (hmove : call.move cfg coins run = some run') :
    PsiInvariant cfg masked total run' := by
  have hpos := hcfg.set_pos
  cases h with
  | connected => cases hmove
  | announced =>
    obtain rfl := Option.some.inj hmove
    unfold receiveSetSize
    rw [if_neg (by rw [hcfg.set_size]; omega), if_neg (by rw [hcfg.set_size]; exact hcfg.set_le.not_gt)]
    exact .accepted
  | accepted => cases hmove
  | preprocessed oprf oprf' h =>
    obtain rfl := Option.some.inj hmove
    rw [ServeCall.send_eq hmasked]
    unfold serveMasked
    rw [if_neg hle.not_gt, h.server_limit, htotal]
    exact .sent oprf oprf' h
  | sent oprf oprf' h =>
    -- A client with an element makes a request, so the server waits.
    have hne : total ≠ 0 := by
      rintro rfl
      obtain ⟨count, hcount, hle, -⟩ := divCeil_spec cfg.set_size (maxBatch_pos cfg.pk.isSome)
      obtain rfl := Option.some.inj (htotal.symm.trans hcount)
      rw [hcfg.set_size] at hle
      omega
    obtain ⟨requests, rfl⟩ := Nat.exists_eq_succ_of_ne_zero hne
    cases hmove
  | requesting oprf oprf' server batches outputs sent h hserver hbatches houtputs hsent =>
    obtain ⟨phase', hserver', rfl⟩ := hserver.move cfg call coins hmove rfl (fun _ => rfl) rfl
    exact .requesting oprf oprf' phase' batches outputs sent h hserver' hbatches houtputs hsent
  | requested oprf oprf₁ oprf' fin req batch batches outputs sent h hrequest hbatches houtputs hsent =>
    obtain rfl := Option.some.inj hmove
    -- The states are in step, so the request is served and its response will be accepted.
    obtain ⟨oprf₁', rows, resp, hanswer, hnext, hfinalize⟩ := h.exchange hcfg hrequest coins
    unfold serveNext
    rw [hanswer]
    rw [Nat.add_sub_cancel_left] at hnext
    exact .answered oprf₁ oprf₁' _ fin resp batch batches outputs sent hnext (.inl rfl) hfinalize
      hbatches houtputs hsent
  | answered oprf oprf' server fin resp batch batches outputs sent h hserver hresp hbatches houtputs
      hsent =>
    obtain ⟨phase', hserver', rfl⟩ := hserver.move cfg call coins hmove rfl (fun _ => rfl) rfl
    exact .answered oprf oprf' phase' fin resp batch batches outputs sent h hserver' hresp hbatches
      houtputs hsent
  | finished oprf oprf' server h hserver =>
    obtain ⟨phase', hserver', rfl⟩ := hserver.move cfg call coins hmove rfl (fun hne => absurd rfl hne) rfl
    exact .finished oprf oprf' phase' h hserver'

/-- A step keeps the invariant. -/
theorem PsiInvariant.step (hcfg : cfg.Parties stark) (htag : cfg.tag.length ≤ MAX_TAG_LEN)
    (hmasked : call.masked cfg = some masked) (hle : masked.length ≤ MAX_SERVER_SET)
    (htotal : requestsFor cfg.set_size (maxBatch cfg.pk.isSome) = some total)
    (h : PsiInvariant cfg masked total run) (hstep : ServeStep cfg call run run') :
    PsiInvariant cfg masked total run' := by
  cases hstep with
  | client _ hmove => exact h.clientMove hcfg htag hle htotal hmove
  | server _ coins hmove => exact h.serverMove hcfg hmasked hle htotal hmove
  | preprocess set_size oprf oprf' hclient hserver hpreproc =>
    cases h with
    | accepted =>
      cases hserver
      exact .preprocessed oprf oprf' (hcfg.aligned hpreproc)
    | connected => cases hclient
    | announced => cases hserver
    | _ => cases hclient

/-- While the two sides are not both done, one of them can move. -/
theorem PsiInvariant.progress (call : ServeCall) (hcfg : cfg.Parties stark)
    (h : PsiInvariant cfg masked total run) :
    (∃ run', ServeStep cfg call run run') ∨ ∃ oprf oprf', PsiAligned cfg oprf oprf' 0 ∧
      run = ⟨.finished oprf (intersect (cfg.set.map cfg.value) masked), .finished oprf', [], [], [], [],
        total⟩ := by
  obtain ⟨coins⟩ := hcfg.coins
  cases h with
  | connected => exact .inl ⟨_, .client _ _ rfl⟩
  | announced => exact .inl ⟨_, .server _ _ (fun _ => coins) rfl⟩
  | accepted =>
    obtain ⟨sent, oprf, oprf', hserver, hclient⟩ := hcfg.preprocesses (fun _ => 0)
      (fun _ _ => (fun _ _ => 0, true)) (fun _ _ => (fun _ _ => 0, true)) coins
    exact .inl ⟨_, .preprocess _ _ oprf oprf' rfl rfl ⟨_, _, _, _, sent, hserver, hclient⟩⟩
  | preprocessed oprf oprf' h => exact .inl ⟨_, .server _ _ (fun _ => coins) rfl⟩
  | sent oprf oprf' h =>
    exact .inl ⟨⟨receiveSet cfg oprf ⟨cfg.tag, masked⟩, .serving oprf' total, [], [], [], [], 0⟩,
      .client _ _ (if_neg (not_not.mpr hcfg.set_size.symm))⟩
  | requesting oprf oprf' server batches outputs sent h hserver hbatches houtputs hsent =>
    exact .inl ⟨_, .client _ _ rfl⟩
  | requested oprf oprf₁ oprf' fin req batch batches outputs sent h hrequest hbatches houtputs hsent =>
    exact .inl ⟨_, .server _ _ (fun _ => coins) rfl⟩
  | answered oprf oprf' server fin resp batch batches outputs sent h hserver hresp hbatches houtputs
      hsent => exact .inl ⟨_, .client _ _ rfl⟩
  | finished oprf oprf' server h hserver =>
    rcases hserver with rfl | ⟨-, rfl⟩
    · exact .inl ⟨_, .server _ _ (fun _ => coins) rfl⟩
    · exact .inr ⟨oprf, oprf', h, rfl⟩

end Steps

/-! ## No run without end -/

/-- How many steps are left to the client at most. -/
def PsiClientPhase.rank (cfg : PsiConfig S) : PsiClientPhase S stark → ℕ
  | .connected => 2 * cfg.set.length + 4
  | .announced => 2 * cfg.set.length + 3
  | .preprocessed _ => 2 * cfg.set.length + 2
  | .requesting _ _ batches _ => 2 * batches.length + 1
  | .waiting _ _ _ batches _ => 2 * batches.length + 2
  | .finished _ _ | .failed _ | .stopped => 0

/-- How many steps are left to the server at most. -/
def PsiServerPhase.rank : PsiServerPhase stark → ℕ
  | .connected => MAX_CLIENT_SET + 4
  | .accepted set_size => set_size + 3
  | .preprocessed _ set_size => set_size + 2
  | .serving _ requests => requests + 1
  | .finished _ | .failed _ | .stopped => 0

/-- There are no more requests than elements. -/
theorem requestsFor_le {set_size batch_size requests : ℕ} (hpos : 0 < batch_size)
    (h : requestsFor set_size batch_size = some requests) : requests ≤ set_size := by
  obtain ⟨count, hcount, -, hlt⟩ := divCeil_spec set_size hpos
  obtain rfl := Option.some.inj (h.symm.trans hcount)
  by_contra hgt
  have hmul := hlt set_size (Nat.lt_of_not_le hgt)
  exact absurd (Nat.le_mul_of_pos_right set_size hpos) (Nat.not_le.mpr hmul)

section Ranks

variable {cfg : PsiConfig S} {run run' : PsiRun S stark}

/-- Of the masked set and a batch for each element at most, two steps a batch are left. -/
theorem receiveSet_rank (cfg : PsiConfig S) (stark : Stark Val) (oprf : ClientState S)
    (masked : MaskedServerSet) :
    (receiveSet cfg oprf masked : PsiClientPhase S stark).rank cfg < 2 * cfg.set.length + 2 := by
  obtain ⟨batches, hchunks, -, hflatten, hbatches⟩ := chunks_spec oprf.maxBatchEvaluations_pos cfg.set
  have hle := length_le_of_flatten hflatten fun batch hbatch => (hbatches batch hbatch).1
  unfold receiveSet
  rw [hchunks]
  split_ifs
  · exact Nat.succ_pos _
  · change 2 * batches.length + 1 < 2 * cfg.set.length + 2
    omega

/-- The client's moves leave it with fewer steps, and the server as it is. -/
theorem clientMove_rank (hmove : clientMove cfg run = some run') :
    run'.client.rank cfg < run.client.rank cfg ∧ run'.server = run.server := by
  unfold clientMove at hmove
  -- A move ends the client or takes it to the next stage, and a request leaves a batch less to ask
  -- for.
  cases hclient : run.client with
  | connected =>
    rw [hclient] at hmove
    obtain rfl := Option.some.inj hmove
    unfold announceSetSize
    split_ifs
    · exact ⟨Nat.succ_pos _, rfl⟩
    · exact ⟨Nat.succ_pos _, rfl⟩
    · exact ⟨Nat.lt_succ_self _, rfl⟩
  | preprocessed oprf =>
    rw [hclient] at hmove
    dsimp only at hmove
    by_cases hsize : cfg.set.length ≠ cfg.set_size
    · rw [if_pos hsize] at hmove
      obtain rfl := Option.some.inj hmove
      exact ⟨Nat.succ_pos _, rfl⟩
    · rw [if_neg hsize] at hmove
      cases hsets : run.sets with
      | nil =>
        rw [hsets] at hmove
        dsimp only at hmove
        split_ifs at hmove
        obtain rfl := Option.some.inj hmove
        exact ⟨Nat.succ_pos _, rfl⟩
      | cons masked sets =>
        rw [hsets] at hmove
        obtain rfl := Option.some.inj hmove
        exact ⟨receiveSet_rank cfg stark oprf masked, rfl⟩
  | requesting oprf masked batches outputs =>
    rw [hclient] at hmove
    obtain rfl := Option.some.inj hmove
    unfold sendRequest
    cases batches with
    | nil => exact ⟨Nat.succ_pos _, rfl⟩
    | cons batch batches =>
      dsimp only
      split
      · exact ⟨Nat.succ_pos _, rfl⟩
      · exact ⟨Nat.succ_pos _, rfl⟩
      · exact ⟨Nat.lt_succ_self _, rfl⟩
  | waiting oprf masked fin batches outputs =>
    rw [hclient] at hmove
    dsimp only at hmove
    cases hresponses : run.responses with
    | nil =>
      rw [hresponses] at hmove
      dsimp only at hmove
      split_ifs at hmove
      obtain rfl := Option.some.inj hmove
      exact ⟨Nat.succ_pos _, rfl⟩
    | cons resp responses =>
      rw [hresponses] at hmove
      obtain rfl := Option.some.inj hmove
      unfold receiveResponse
      refine ⟨?_, rfl⟩
      dsimp only
      split
      · exact Nat.succ_pos _
      · exact Nat.succ_pos _
      · exact Nat.lt_succ_self _
  -- In the other phases the client does not move.
  | _ => rw [hclient] at hmove; cases hmove

/-- Of the masked set and a request for each element at most, a step a request is left. -/
theorem serveMasked_rank (cfg : PsiConfig S) (masked : List MaskedElement) (oprf : ServerState)
    (set_size : ℕ) (run : PsiRun S stark) :
    (serveMasked cfg masked oprf set_size run).server.rank < set_size + 2 ∧
      (serveMasked cfg masked oprf set_size run).client = run.client := by
  unfold serveMasked
  split_ifs
  · exact ⟨Nat.succ_pos _, rfl⟩
  · refine ⟨?_, rfl⟩
    dsimp only
    cases hrequests : requestsFor set_size oprf.maxBatchEvaluations with
    | none => exact Nat.succ_pos _
    | some requests =>
      have hle := requestsFor_le oprf.maxBatchEvaluations_pos hrequests
      change requests + 1 < set_size + 2
      omega

/-- The server's moves leave it with fewer steps, and the client as it is. -/
theorem serverMove_rank {coins : ℕ → stark.Coins} (hmove : serverMove cfg coins run = some run') :
    run'.server.rank < run.server.rank ∧ run'.client = run.client := by
  unfold serverMove at hmove
  -- As for the client: each request that is served is one fewer to serve.
  cases hserver : run.server with
  | connected =>
    rw [hserver] at hmove
    dsimp only at hmove
    cases hsizes : run.sizes with
    | nil =>
      rw [hsizes] at hmove
      dsimp only at hmove
      split_ifs at hmove
      obtain rfl := Option.some.inj hmove
      exact ⟨Nat.succ_pos _, rfl⟩
    | cons announced sizes =>
      rw [hsizes] at hmove
      obtain rfl := Option.some.inj hmove
      unfold receiveSetSize
      refine ⟨?_, rfl⟩
      dsimp only
      split_ifs with hzero hlarge
      · exact Nat.succ_pos _
      · exact Nat.succ_pos _
      · change announced + 3 < MAX_CLIENT_SET + 4
        omega
  | preprocessed oprf set_size =>
    rw [hserver] at hmove
    obtain rfl := Option.some.inj hmove
    obtain ⟨masked, hmasked, -⟩ := maskServerSet_spec cfg.blake3 cfg.sk cfg.tag cfg.server_set
    have hsend : sendSet cfg oprf set_size run = serveMasked cfg masked oprf set_size run := by
      apply ServeCall.send_eq (show ServeCall.serve.masked cfg = some masked from hmasked)
    rw [hsend]
    exact serveMasked_rank cfg masked oprf set_size run
  | serving oprf requests =>
    rw [hserver] at hmove
    cases requests with
    | zero =>
      obtain rfl := Option.some.inj hmove
      exact ⟨Nat.succ_pos _, rfl⟩
    | succ left =>
      dsimp only at hmove
      cases hrequests : run.requests with
      | nil =>
        rw [hrequests] at hmove
        dsimp only at hmove
        split_ifs at hmove
        obtain rfl := Option.some.inj hmove
        exact ⟨Nat.succ_pos _, rfl⟩
      | cons req requests =>
        rw [hrequests] at hmove
        obtain rfl := Option.some.inj hmove
        unfold serveNext
        split
        · exact ⟨Nat.succ_pos _, rfl⟩
        · exact ⟨Nat.succ_pos _, rfl⟩
        · exact ⟨Nat.lt_succ_self _, rfl⟩
  -- In the other phases the server does not move.
  | _ => rw [hserver] at hmove; cases hmove

/-- And so they do whatever the server was called with. -/
theorem ServeCall.move_rank {call : ServeCall} {coins : ℕ → stark.Coins}
    (hmove : call.move cfg coins run = some run') :
    run'.server.rank < run.server.rank ∧ run'.client = run.client := by
  unfold ServeCall.move at hmove
  split at hmove
  · rename_i oprf set_size hserver
    obtain rfl := Option.some.inj hmove
    obtain ⟨masked, hmasked⟩ := call.masked_isSome cfg
    rw [hserver, ServeCall.send_eq hmasked]
    exact serveMasked_rank cfg masked oprf set_size run
  · exact serverMove_rank hmove

end Ranks

/-- No run of the two sides goes on for ever, whoever they are. -/
theorem serve_noEndlessRun (cfg : PsiConfig S) (stark : Stark Val) (call : ServeCall) :
    NoEndlessRun fun run run' : PsiRun S stark => ServeStep cfg call run run' := by
  refine noEndlessRun_of_measure
    (fun run : PsiRun S stark => run.client.rank cfg + run.server.rank) fun run run' hstep => ?_
  cases hstep with
  | client _ hmove =>
    obtain ⟨hlt, hserver⟩ := clientMove_rank hmove
    rw [hserver]
    omega
  | server _ coins hmove =>
    obtain ⟨hlt, hclient⟩ := call.move_rank hmove
    rw [hclient]
    omega
  | preprocess set_size oprf oprf' hclient hserver =>
    rw [hclient, hserver]
    change 2 * cfg.set.length + 2 + (set_size + 2) < 2 * cfg.set.length + 3 + (set_size + 3)
    omega

theorem psi_noEndlessRun (cfg : PsiConfig S) (stark : Stark Val) :
    NoEndlessRun fun run run' : PsiRun S stark => PsiStep cfg run run' := by
  rintro ⟨run, hrun⟩
  exact serve_noEndlessRun cfg stark .serve ⟨run, fun n => (hrun n).serveStep⟩

/-! ## The intersection -/

/-- The indices that the client looks up among its values are those of its elements that have the
value of one of the server's. -/
theorem mem_intersect_values (cfg : PsiConfig S) {masked : List MaskedElement}
    (hmasked : ∀ element, element ∈ masked ↔
      ∃ y ∈ cfg.server_set, evaluate cfg.blake3 cfg.sk cfg.tag y = some element) (i : ℕ) :
    i ∈ intersect (cfg.set.map cfg.value) masked ↔ ∃ x, cfg.set[i]? = some x ∧ ∃ y ∈ cfg.server_set,
      evaluate cfg.blake3 cfg.sk cfg.tag x = evaluate cfg.blake3 cfg.sk cfg.tag y := by
  have hvalue : ∀ x, evaluate cfg.blake3 cfg.sk cfg.tag x = some (cfg.value x) :=
    fun x => evaluate_eq cfg.blake3 cfg.sk cfg.tag x
  rw [mem_intersect]
  constructor
  · rintro ⟨out, hout, hmem⟩
    rw [List.getElem?_map] at hout
    obtain ⟨x, hx, rfl⟩ := Option.map_eq_some_iff.mp hout
    obtain ⟨y, hy, hvalue'⟩ := (hmasked _).mp hmem
    exact ⟨x, hx, y, hy, (hvalue x).trans hvalue'.symm⟩
  · rintro ⟨x, hx, y, hy, heq⟩
    refine ⟨cfg.value x, by rw [List.getElem?_map, hx]; rfl, (hmasked _).mpr ⟨y, hy, ?_⟩⟩
    rw [← heq, hvalue]

section Runs

variable {cfg : PsiConfig S} {masked : List MaskedElement} {total : ℕ} {run : PsiRun S stark}

/-- No side of a run has broken off. -/
theorem PsiInvariant.not_broken (h : PsiInvariant cfg masked total run) :
    run.client.broken = false ∧ run.server.broken = false := by
  have hserves : ∀ {oprf' : ServerState} {left : ℕ} {phase : PsiServerPhase stark},
      Serves oprf' left phase → phase.broken = false := by
    rintro oprf' left phase (rfl | ⟨-, rfl⟩) <;> rfl
  cases h with
  | requesting _ _ _ _ _ _ _ hserver => exact ⟨rfl, hserves hserver⟩
  | answered _ _ _ _ _ _ _ _ _ _ hserver => exact ⟨rfl, hserves hserver⟩
  | finished _ _ _ _ hserver => exact ⟨rfl, hserves hserver⟩
  | connected => exact ⟨rfl, rfl⟩
  | announced => exact ⟨rfl, rfl⟩
  | accepted => exact ⟨rfl, rfl⟩
  | preprocessed => exact ⟨rfl, rfl⟩
  | sent => exact ⟨rfl, rfl⟩
  | requested => exact ⟨rfl, rfl⟩

/-- A batch that the client comes to may be requested. -/
theorem PsiInvariant.requestAccepted (htag : cfg.tag.length ≤ MAX_TAG_LEN)
    (h : PsiInvariant cfg masked total run)
    {oprf : ClientState S} {set : MaskedServerSet} {batch : List (List UInt8)}
    {batches : List (List (List UInt8))} {outputs : List PrfOutput}
    (hclient : run.client = .requesting oprf set (batch :: batches) outputs) :
    RequestAccepted oprf set.tag batch := by
  cases h with
  | requesting oprf oprf' server batches outputs sent h hserver hbatches =>
    cases hclient
    rw [List.forall_mem_cons] at hbatches
    rw [List.flatten_cons, List.length_append] at h
    exact h.requestAccepted htag hbatches.1.1 hbatches.1.2 (Nat.le_add_right _ _)
  | _ => cases hclient

/-- A request on its way is accepted by the server, which waits for it. -/
theorem PsiInvariant.blindEvalAccepted (h : PsiInvariant cfg masked total run) {req : RequestMessage}
    (hreq : req ∈ run.requests) :
    ∃ oprf' left, run.server = .serving oprf' (left + 1) ∧ BlindEvalAccepted oprf' req := by
  cases h with
  | requested oprf oprf₁ oprf' fin req' batch batches outputs sent h hrequest =>
    obtain rfl := List.mem_singleton.mp hreq
    exact ⟨oprf', batches.length, rfl, h.toAligned.accepted hrequest⟩
  | _ => cases hreq

/-- A client that is done has the indices of the intersection. -/
theorem PsiInvariant.indices (h : PsiInvariant cfg masked total run) {oprf : ClientState S}
    {indices : List ℕ} (hclient : run.client = .finished oprf indices) :
    indices = intersect (cfg.set.map cfg.value) masked := by
  cases h with
  | finished => cases hclient; rfl
  | _ => cases hclient

end Runs

/-- PSI is exact. Whatever the keys, the sets, and the tag are, and in either mode, between honest
parties: the masked set is strictly increasing and has the PRF values of the server's set and no
others, and every run is finite. In every state of a run neither side has failed, each batch that
the client comes to is within the limits and the runs that are left, and each request on its way is
one that the server waits for and accepts. The run can go on until both sides are done, with as many
requests sent as the server waited for and no run left; and the client's indices are then in
increasing order those of its elements that have the PRF value of one of the server's, so that they
have each element that the server has. -/
theorem psi_exact (cfg : PsiConfig S) (stark : Stark Val) (hcfg : cfg.Honest stark) :
    ∃ masked, maskServerSet cfg.blake3 cfg.sk cfg.tag cfg.server_set = some masked ∧
      (masked.Pairwise fun a b => MaskedElement.bytes a < MaskedElement.bytes b) ∧
      (∀ element, element ∈ masked ↔
        ∃ y ∈ cfg.server_set, evaluate cfg.blake3 cfg.sk cfg.tag y = some element) ∧
      (NoEndlessRun fun run run' : PsiRun S stark => PsiStep cfg run run') ∧
      ∀ run : PsiRun S stark, Reachable (fun run run' => PsiStep cfg run run') (.new S stark) run →
        run.client.broken = false ∧ run.server.broken = false ∧
        (∀ oprf set batch batches outputs,
          run.client = .requesting oprf set (batch :: batches) outputs →
            RequestAccepted oprf set.tag batch) ∧
        (∀ req ∈ run.requests, ∃ oprf' left,
          run.server = .serving oprf' (left + 1) ∧ BlindEvalAccepted oprf' req) ∧
        (∀ oprf indices, run.client = .finished oprf indices →
          indices.Pairwise (· < ·) ∧
          (∀ i, i ∈ indices ↔ ∃ x, cfg.set[i]? = some x ∧ ∃ y ∈ cfg.server_set,
            evaluate cfg.blake3 cfg.sk cfg.tag x = evaluate cfg.blake3 cfg.sk cfg.tag y) ∧
          ∀ i x, cfg.set[i]? = some x → x ∈ cfg.server_set → i ∈ indices) ∧
        ((∃ run', PsiStep cfg run run') ∨ ∃ oprf oprf' indices,
          run.client = .finished oprf indices ∧ run.server = .finished oprf' ∧
          oprf.runs.remaining = 0 ∧ oprf'.runs.remaining = 0 ∧
          requestsFor cfg.set_size oprf'.maxBatchEvaluations = some run.sent ∧
          run.requests = [] ∧ run.responses = []) := by
  obtain ⟨masked, hmasked, hsorted, hmem⟩ :=
    maskServerSet_spec cfg.blake3 cfg.sk cfg.tag cfg.server_set
  obtain ⟨total, htotal, -⟩ := divCeil_spec cfg.set_size (maxBatch_pos cfg.pk.isSome)
  refine ⟨masked, hmasked, hsorted, hmem, psi_noEndlessRun cfg stark, fun run hreach => ?_⟩
  -- The invariant holds of every state of a run, and the rest is read off it.
  have hinv : PsiInvariant cfg masked total run :=
    hreach.invariant .connected fun _ _ _ h hstep => h.step hcfg.parties hcfg.tag_le
      (show ServeCall.serve.masked cfg = some masked from hmasked) (hcfg.server_set_le masked hmasked)
      htotal hstep.serveStep
  obtain ⟨hclient, hserver⟩ := hinv.not_broken
  refine ⟨hclient, hserver, fun oprf set batch batches outputs h => hinv.requestAccepted hcfg.tag_le h,
    fun req hreq => hinv.blindEvalAccepted hreq, fun oprf indices h => ?_, ?_⟩
  · obtain rfl := hinv.indices h
    refine ⟨intersect_pairwise _ _, mem_intersect_values cfg hmem, fun i x hx hserver => ?_⟩
    exact (mem_intersect_values cfg hmem i).mpr ⟨x, hx, x, hserver, rfl⟩
  -- A state with no next step is the end, where no run is left on either side.
  · rcases hinv.progress .serve hcfg.parties with ⟨run', hstep⟩ | ⟨oprf, oprf', h, rfl⟩
    · exact .inl ⟨run', hstep.psiStep⟩
    · refine .inr ⟨oprf, oprf', _, rfl, rfl, ?_, ?_, ?_, rfl, rfl⟩
      · rw [h.remaining, tauFor_zero]
      · rw [h.server_remaining, tauFor_zero]
      · rw [h.server_limit]
        exact htotal

/-- A run over two sets of one element. -/
def oneElementConfig : PsiConfig Permutations.identity where
  blake3 _ _ _ := 0
  build := Build.cryprot true
  pk := some ⟨keyCommit zeroKey⟩
  set_size := 1
  set := [[]]
  sk := zeroKey
  tag := []
  server_set := [[]]

/-- A run over sets with a hit, a miss, and duplicates on both sides. -/
def overlapConfig : PsiConfig Permutations.identity where
  blake3 := lastByteHash
  build := Build.cryprot true
  pk := some ⟨keyCommit oneBitKey⟩
  set_size := 3
  set := [[1], [2], [1]]
  sk := oneBitKey
  tag := [7]
  server_set := [[3], [1], [3]]

/-- Of the client's elements, the first and the last are the server's, too. -/
theorem overlapConfig_found_iff (i : ℕ) :
    (∃ x, overlapConfig.set[i]? = some x ∧ ∃ y ∈ overlapConfig.server_set,
      evaluate overlapConfig.blake3 overlapConfig.sk overlapConfig.tag x =
        evaluate overlapConfig.blake3 overlapConfig.sk overlapConfig.tag y) ↔ i ∈ [0, 2] := by
  constructor
  · rintro ⟨x, hx, y, hy, heval⟩
    rcases i with _ | _ | _ | i
    · exact List.mem_cons_self
    · -- The second one has another last byte than each of the server's.
      obtain rfl : [2] = x := Option.some.inj hx
      have hserver : ∀ y ∈ [[(3 : UInt8)], [1], [3]], y ≠ [] ∧ (2 : UInt8) ≠ y.getLastD 0 := by decide
      obtain ⟨hne, hlast⟩ := hserver y hy
      have heval' : evaluate lastByteHash oneBitKey [7] [2] = evaluate lastByteHash oneBitKey [7] y := heval
      rw [evaluate_lastByteHash [7] (List.cons_ne_nil 2 []), evaluate_lastByteHash [7] hne] at heval'
      exact absurd (congrFun (Option.some.inj heval') 0) hlast
    · exact List.mem_cons_of_mem _ List.mem_cons_self
    · cases hx
  · intro hi
    have hserver : [1] ∈ overlapConfig.server_set := List.mem_cons_of_mem _ List.mem_cons_self
    rcases List.mem_pair.mp hi with rfl | rfl
    · exact ⟨[1], rfl, [1], hserver, rfl⟩
    · exact ⟨[1], rfl, [1], hserver, rfl⟩

theorem psi_exact_overlap : ∃ (run : PsiRun Permutations.identity (Stark.transparent Val)) (oprf : _),
    Reachable (fun run run' => PsiStep overlapConfig run run')
      (.new Permutations.identity (Stark.transparent Val)) run ∧
    run.client = .finished oprf [0, 2] := by
  have hcfg : overlapConfig.Honest (Stark.transparent Val) :=
    { set_size := rfl
      set_pos := show 1 ≤ 3 by decide
      set_le := show 3 ≤ MAX_CLIENT_SET by decide
      tag_le := show 1 ≤ MAX_TAG_LEN by decide
      server_set_le := fun masked hmasked =>
        (maskServerSet_length_le hmasked).trans (show 3 ≤ MAX_SERVER_SET by decide)
      pk := fun key hkey => by cases hkey; rfl
      complete := fun _ => Stark.transparent_complete Val
      coins := ⟨()⟩ }
  obtain ⟨masked, -, -, -, hfinite, hall⟩ :=
    psi_exact overlapConfig (Stark.transparent Val) hcfg
  -- A run that cannot go on is one whose client is done.
  obtain ⟨run, hreach, hlast⟩ := hfinite.exists_last (.new _ _)
  obtain ⟨-, -, -, -, hindices, hend⟩ := hall run hreach
  obtain ⟨oprf, -, indices, hclient, -⟩ := hend.resolve_left fun ⟨next, hstep⟩ => hlast next hstep
  obtain ⟨hsorted, hmem, -⟩ := hindices oprf indices hclient
  have heq : indices = [0, 2] :=
    hsorted.eq_of_mem_iff (by decide) fun i => (hmem i).trans (overlapConfig_found_iff i)
  exact ⟨run, oprf, hreach, heq ▸ hclient⟩

end PoolOprf
