import PoolOprf.Oprf.PanicFree
import PoolOprf.Oprf.PreprocessingPanicFree
import PoolOprf.Oprf.PublishedKey
import PoolOprf.Psi.Exact

/-!
# A PSI client and a cheating server

A client of `PsiClient::new_voprf` and `intersect`, and a server that does whatever it likes: it
sends any messages of the preprocessing, any masked set and any responses, in any order, and closes
the streams when it likes (`RecordedRun.Step`). A run records what the client accepts
(`RecordedRun`): the preprocessing, the masked set, and each exchange. The record changes nothing of
the run.

What the client has so far is the outputs of its recorded exchanges, and these with the batches left
are its set (`Recorded`, kept by each step: `Recorded.step`). The exchanges are ones of a session
under the client's `pk`, so their outputs are the PRF of the published key
(`ClientSession.Accepted.outputs`), and the indices are those of the elements whose PRF is in the
masked set: `psi_sound`. All that is left to a cheating server is the masked set.
-/

namespace PoolOprf

open Panic

variable {S : Permutations} {stark : Stark Val}

/-! ## A run with any server -/

/-- A client's run, with what it has accepted. -/
structure RecordedRun (S : Permutations) (stark : Stark Val) where
  run : PsiRun S stark
  /-- The preprocessing, and the requests that were answered. -/
  session : Option (ClientSession S stark)
  /-- The masked set that was taken. -/
  masked : Option MaskedServerSet
  /-- The batch of the last request. -/
  asked : List (List UInt8)

/-- A session with one more exchange. -/
def ClientSession.answered (session : ClientSession S stark) (x : Exchange S stark) :
    ClientSession S stark :=
  { session with exchanges := insert x session.exchanges }

namespace RecordedRun

/-- A client that has not announced its set size. -/
def new (S : Permutations) (stark : Stark Val) : RecordedRun S stark := ⟨.new S stark, none, none, []⟩

/-- The exchange of the last request with a response. -/
def exchange (record : RecordedRun S stark) (masked : MaskedServerSet) (fin : FinalizeState S)
    (resp : ResponseMessage stark) (outputs : List PrfOutput) : Exchange S stark :=
  ⟨masked.tag, record.asked, fin, resp, outputs⟩

/-- What the client records of its next move, which leads to `run`. -/
def moved (cfg : PsiConfig S) (record : RecordedRun S stark) (run : PsiRun S stark) :
    RecordedRun S stark :=
  match record.run.client with
  | .preprocessed _ =>
    { record with
      run := run
      masked := if cfg.set.length ≠ cfg.set_size then record.masked else record.run.sets.head? }
  | .requesting _ _ batches _ => { record with run := run, asked := batches.headD [] }
  | .waiting _ masked fin _ _ =>
    match record.run.responses with
    | [] => { record with run := run }
    | resp :: _ =>
      match finalizeBatch stark fin resp with
      | some (.ok outputs) =>
        { record with
          run := run
          session := record.session.map fun session =>
            session.answered (record.exchange masked fin resp outputs) }
      | _ => { record with run := run }
  | _ => { record with run := run }

/-- A step: the client moves, or gets to the end of its preprocessing with any messages of the
server, or anything happens that is not the client's. -/
inductive Step (cfg : PsiConfig S) : RecordedRun S stark → RecordedRun S stark → Prop
  /-- The client moves. -/
  | client (record : RecordedRun S stark) (run : PsiRun S stark)
      (hmove : clientMove cfg record.run = some run) : Step cfg record (record.moved cfg run)
  /-- The client accepts a preprocessing. -/
  | preprocess (record : RecordedRun S stark) (uid : Uid) (ots : ClientOts)
      (received : ServerMessages S stark) (oprf : ClientState S) (hclient : record.run.client = .announced)
      (hpreproc : preprocClientWith cfg.blake3 cfg.pk (tauFor cfg.set_size) uid ots received =
        some (.ok oprf)) : Step cfg record
        { record with
          run := { record.run with client := .preprocessed oprf }
          session := some ⟨tauFor cfg.set_size, uid, ots, received, oprf, ∅⟩ }
  /-- The client's preprocessing panics. -/
  | panic (record : RecordedRun S stark) (uid : Uid) (ots : ClientOts) (received : ServerMessages S stark)
      (hclient : record.run.client = .announced) (hchoices : ots.choices.length = tauFor cfg.set_size)
      (hblocks : ots.blocks.length = tauFor cfg.set_size)
      (hpreproc : preprocClientWith cfg.blake3 cfg.pk (tauFor cfg.set_size) uid ots received = none) :
      Step cfg record { record with run := { record.run with client := .stopped } }
  /-- The server takes and sends what it likes. -/
  | server (record : RecordedRun S stark) (server : PsiServerPhase stark) (sizes : List ℕ)
      (sets : List MaskedServerSet) (requests : List RequestMessage)
      (responses : List (ResponseMessage stark)) : Step cfg record
        { record with
          run := ⟨record.run.client, server, sizes, sets, requests, responses, record.run.sent⟩ }

end RecordedRun

/-! ## What the client has recorded -/

/-- The client accepted the preprocessing, and each of the responses. -/
structure ClientSession.Of (cfg : PsiConfig S) (session : ClientSession S stark) : Prop where
  preprocessing : preprocClientWith cfg.blake3 cfg.pk session.tau session.uid session.ots
    session.received = some (.ok session.state)
  exchanges : ∀ x ∈ session.exchanges, session.state.Exchanged cfg.blake3 x

/-- The session is the client's, the masked set is the one that was taken, and the outputs are those
of the exchanges. -/
structure Exchanging (cfg : PsiConfig S) (record : RecordedRun S stark)
    (session : ClientSession S stark) (masked : MaskedServerSet) (exchanges : List (Exchange S stark))
    (outputs : List PrfOutput) : Prop where
  session_eq : record.session = some session
  accepted : session.Of cfg
  masked_eq : record.masked = some masked
  masked_le : masked.elements.length ≤ MAX_SERVER_SET
  exchanges_mem : ∀ x ∈ exchanges, x ∈ session.exchanges ∧ x.tag = masked.tag
  outputs_eq : outputs = exchanges.flatMap Exchange.outputs

/-- What is recorded in each phase of the client, which is never stopped. Its set is what it has
exchanged and what it has to go. -/
inductive Recorded (cfg : PsiConfig S) (record : RecordedRun S stark) :
    PsiClientPhase S stark → Prop
  /-- Nothing. -/
  | connected : Recorded cfg record .connected
  | announced : Recorded cfg record .announced
  /-- The preprocessing. -/
  | preprocessed (session : ClientSession S stark) (hsession : record.session = some session)
      (haccepted : session.Of cfg) : Recorded cfg record (.preprocessed session.state)
  /-- Some exchanges. -/
  | requesting (session : ClientSession S stark) (masked : MaskedServerSet)
      (exchanges : List (Exchange S stark)) (outputs : List PrfOutput) (oprf : ClientState S)
      (batches : List (List (List UInt8)))
      (h : Exchanging cfg record session masked exchanges outputs)
      (hreach : Reachable (RequestStep cfg.blake3) session.state oprf)
      (hset : cfg.set = exchanges.flatMap Exchange.inputs ++ batches.flatten) :
      Recorded cfg record (.requesting oprf masked batches outputs)
  /-- A request, too. -/
  | waiting (session : ClientSession S stark) (masked : MaskedServerSet)
      (exchanges : List (Exchange S stark)) (outputs : List PrfOutput) (before oprf : ClientState S)
      (req : RequestMessage) (fin : FinalizeState S) (batches : List (List (List UInt8)))
      (h : Exchanging cfg record session masked exchanges outputs)
      (hreach : Reachable (RequestStep cfg.blake3) session.state before)
      (hrequest : requestBatch cfg.blake3 before masked.tag record.asked = some (oprf, .ok (req, fin)))
      (hwhole : fin.Whole)
      (hset : cfg.set = exchanges.flatMap Exchange.inputs ++ (record.asked ++ batches.flatten)) :
      Recorded cfg record (.waiting oprf masked fin batches outputs)
  /-- All exchanges. -/
  | finished (session : ClientSession S stark) (masked : MaskedServerSet)
      (exchanges : List (Exchange S stark)) (outputs : List PrfOutput) (oprf : ClientState S)
      (h : Exchanging cfg record session masked exchanges outputs)
      (hset : cfg.set = exchanges.flatMap Exchange.inputs) :
      Recorded cfg record (.finished oprf (intersect outputs masked.elements))
  | failed (error : PsiError stark) : Recorded cfg record (.failed error)

section Steps

variable {cfg : PsiConfig S} {record record' : RecordedRun S stark}
  {session : ClientSession S stark} {masked : MaskedServerSet} {exchanges : List (Exchange S stark)}
  {outputs : List PrfOutput}

/-- What is recorded does not depend on the streams. -/
theorem Exchanging.congr (h : Exchanging cfg record session masked exchanges outputs)
    (hsession : record'.session = record.session) (hmasked : record'.masked = record.masked) :
    Exchanging cfg record' session masked exchanges outputs where
  session_eq := hsession.trans h.session_eq
  accepted := h.accepted
  masked_eq := hmasked.trans h.masked_eq
  masked_le := h.masked_le
  exchanges_mem := h.exchanges_mem
  outputs_eq := h.outputs_eq

theorem Recorded.congr {phase : PsiClientPhase S stark} (h : Recorded cfg record phase)
    (hsession : record'.session = record.session) (hmasked : record'.masked = record.masked)
    (hasked : record'.asked = record.asked) : Recorded cfg record' phase := by
  cases h with
  | connected => exact .connected
  | announced => exact .announced
  | preprocessed session h haccepted => exact .preprocessed session (hsession.trans h) haccepted
  | requesting session masked exchanges outputs oprf batches h hreach hset =>
    exact .requesting session masked exchanges outputs oprf batches (h.congr hsession hmasked) hreach hset
  | waiting session masked exchanges outputs before oprf req fin batches h hreach hrequest hwhole hset =>
    rw [← hasked] at hrequest hset
    exact .waiting session masked exchanges outputs before oprf req fin batches
      (h.congr hsession hmasked) hreach hrequest hwhole hset
  | finished session masked exchanges outputs oprf h hset =>
    exact .finished session masked exchanges outputs oprf (h.congr hsession hmasked) hset
  | failed error => exact .failed error

/-- An accepted response is one more exchange of the session. -/
theorem Exchanging.answered (h : Exchanging cfg record session masked exchanges outputs)
    {before oprf : ClientState S} {req : RequestMessage} {fin : FinalizeState S}
    (hreach : Reachable (RequestStep cfg.blake3) session.state before)
    (hrequest : requestBatch cfg.blake3 before masked.tag record.asked = some (oprf, .ok (req, fin)))
    {resp : ResponseMessage stark} {outs : List PrfOutput}
    (hresponse : finalizeBatch stark fin resp = some (.ok outs))
    (hsession : record'.session =
      some (session.answered (record.exchange masked fin resp outs)))
    (hmasked : record'.masked = record.masked) :
    Exchanging cfg record' (session.answered (record.exchange masked fin resp outs)) masked
      (exchanges ++ [record.exchange masked fin resp outs]) (outputs ++ outs) where
  session_eq := hsession
  accepted := by
    refine ⟨h.accepted.preprocessing, ?_⟩
    rintro x (rfl | hx)
    · exact ⟨⟨before, oprf, req, hreach, hrequest⟩, hresponse⟩
    · exact h.accepted.exchanges x hx
  masked_eq := hmasked.trans h.masked_eq
  masked_le := h.masked_le
  exchanges_mem x hx := by
    rcases List.mem_append.mp hx with hx | hx
    · exact ⟨Set.mem_insert_of_mem _ (h.exchanges_mem x hx).1, (h.exchanges_mem x hx).2⟩
    · obtain rfl := List.mem_singleton.mp hx
      exact ⟨Set.mem_insert _ _, rfl⟩
  outputs_eq := by
    rw [List.flatMap_append, ← h.outputs_eq]
    exact congrArg (outputs ++ ·) (List.append_nil outs).symm

/-- The record changes nothing of the run. -/
theorem RecordedRun.moved_run (cfg : PsiConfig S) (record : RecordedRun S stark) (run : PsiRun S stark) :
    (record.moved cfg run).run = run := by
  unfold moved
  split
  · rfl
  · rfl
  · split
    · rfl
    · split <;> rfl
  · rfl

/-- A client that announces its set size has recorded nothing. -/
theorem recorded_announceSetSize (record : RecordedRun S stark) (run : PsiRun S stark) :
    Recorded cfg record (announceSetSize cfg run).client := by
  unfold announceSetSize
  by_cases hzero : cfg.set_size = 0
  · rw [if_pos hzero]
    exact .failed _
  rw [if_neg hzero]
  by_cases hlarge : cfg.set_size > MAX_CLIENT_SET
  · rw [if_pos hlarge]
    exact .failed _
  rw [if_neg hlarge]
  exact .announced

/-- A client that takes a masked set has its whole set to go. -/
theorem Recorded.receiveSet (haccepted : session.Of cfg)
    (hsession : record.session = some session) (hmasked : record.masked = some masked) :
    Recorded cfg record (PoolOprf.receiveSet cfg session.state masked) := by
  unfold PoolOprf.receiveSet
  by_cases hle : masked.elements.length > MAX_SERVER_SET
  · rw [if_pos hle]
    exact .failed _
  rw [if_neg hle]
  obtain ⟨batches, hbatches, -, hflatten, -⟩ :=
    chunks_spec session.state.maxBatchEvaluations_pos cfg.set
  rw [hbatches]
  refine .requesting session masked [] [] _ batches ⟨hsession, haccepted, hmasked, not_lt.mp hle, ?_, rfl⟩
    (Reachable.refl _ _) ?_
  · intro x hx
    cases hx
  · rw [hflatten]
    rfl

/-- A state that requests lead to has spent whole evaluations. -/
theorem ClientSession.Of.aligned (h : session.Of cfg) {oprf : ClientState S}
    (hreach : Reachable (RequestStep cfg.blake3) session.state oprf) : H_ROWS ∣ oprf.runs.ctr := by
  obtain ⟨n, hspent⟩ := spent_of_reachable hreach
  rw [hspent.ctr, (preprocClientWith_eq_ok h.preprocessing).runs]
  exact Dvd.intro_left n (Nat.zero_add _).symm

/-- A client sends the request of its next batch, or returns. -/
theorem Exchanging.sendRequest (h : Exchanging cfg record session masked exchanges outputs)
    {oprf : ClientState S} (hreach : Reachable (RequestStep cfg.blake3) session.state oprf)
    {batches : List (List (List UInt8))}
    (hset : cfg.set = exchanges.flatMap Exchange.inputs ++ batches.flatten) (run : PsiRun S stark) :
    Recorded cfg { record with run := run, asked := batches.headD [] }
      (PoolOprf.sendRequest cfg oprf masked batches outputs record.run).client := by
  unfold PoolOprf.sendRequest
  cases batches with
  | nil =>
    rw [List.flatten_nil, List.append_nil] at hset
    exact .finished session masked exchanges outputs oprf (h.congr rfl rfl) hset
  | cons batch batches =>
    obtain ⟨oprf', result, hrequest, -, hwhole⟩ :=
      requestBatch_isSome cfg.blake3 (h.accepted.aligned hreach) masked.tag batch
    dsimp only
    rw [hrequest]
    cases result with
    | error error => exact .failed _
    | ok built =>
      obtain ⟨req, fin⟩ := built
      rw [List.flatten_cons] at hset
      exact .waiting session masked exchanges outputs oprf oprf' req fin batches (h.congr rfl rfl) hreach
        hrequest (hwhole req fin rfl) hset

/-- A client takes the response to its request, and has one more exchange if it accepts it. -/
theorem Exchanging.receiveResponse (h : Exchanging cfg record session masked exchanges outputs)
    {before oprf : ClientState S} {req : RequestMessage} {fin : FinalizeState S}
    {batches : List (List (List UInt8))}
    (hclient : record.run.client = .waiting oprf masked fin batches outputs)
    (hreach : Reachable (RequestStep cfg.blake3) session.state before)
    (hrequest : requestBatch cfg.blake3 before masked.tag record.asked = some (oprf, .ok (req, fin)))
    (hwhole : fin.Whole)
    (hset : cfg.set = exchanges.flatMap Exchange.inputs ++ (record.asked ++ batches.flatten))
    {resp : ResponseMessage stark} {responses : List (ResponseMessage stark)}
    (hresponses : record.run.responses = resp :: responses) (run : PsiRun S stark) :
    Recorded cfg (record.moved cfg run) (PoolOprf.receiveResponse oprf masked fin batches outputs resp) := by
  obtain ⟨result, hresponse⟩ := hwhole.finalizeBatch_isSome resp
  unfold RecordedRun.moved PoolOprf.receiveResponse
  rw [hclient, hresponses]
  dsimp only
  rw [hresponse]
  cases result with
  | error error => exact .failed _
  | ok outs =>
    have hafter : Reachable (RequestStep cfg.blake3) session.state oprf :=
      hreach.tail ⟨masked.tag, record.asked, _, hrequest⟩
    have hset' : cfg.set =
        (exchanges ++ [record.exchange masked fin resp outs]).flatMap Exchange.inputs ++
          batches.flatten := by
      rw [hset, List.flatMap_append, List.flatMap_singleton, List.append_assoc]
      rfl
    dsimp only
    rw [h.session_eq]
    exact .requesting _ masked _ _ oprf batches (h.answered hreach hrequest hresponse rfl rfl) hafter
      hset'

/-- The client's moves keep the record. -/
theorem Recorded.clientMove (h : Recorded cfg record record.run.client) {run : PsiRun S stark}
    (hmove : PoolOprf.clientMove cfg record.run = some run) :
    Recorded cfg (record.moved cfg run) run.client := by
  unfold PoolOprf.clientMove at hmove
  generalize hclient : record.run.client = phase at h hmove
  cases h with
  | connected =>
    obtain rfl := Option.some.inj hmove
    exact recorded_announceSetSize _ _
  | preprocessed session hsession haccepted =>
    dsimp only at hmove
    by_cases hsize : cfg.set.length ≠ cfg.set_size
    · rw [if_pos hsize] at hmove
      obtain rfl := Option.some.inj hmove
      exact .failed _
    rw [if_neg hsize] at hmove
    cases hsets : record.run.sets with
    | nil =>
      rw [hsets] at hmove
      dsimp only at hmove
      split_ifs at hmove
      obtain rfl := Option.some.inj hmove
      exact .failed _
    | cons masked sets =>
      rw [hsets] at hmove
      obtain rfl := Option.some.inj hmove
      apply Recorded.receiveSet haccepted
      · unfold RecordedRun.moved
        rw [hclient]
        exact hsession
      · unfold RecordedRun.moved
        rw [hclient]
        dsimp only
        rw [if_neg hsize, hsets]
        rfl
  | requesting session masked exchanges outputs oprf batches h hreach hset =>
    obtain rfl := Option.some.inj hmove
    -- The batch that is asked for is recorded, and the set has it in one of the two parts.
    have hmoved : record.moved cfg (sendRequest cfg oprf masked batches outputs record.run) =
        { record with
          run := sendRequest cfg oprf masked batches outputs record.run
          asked := batches.headD [] } := by
      unfold RecordedRun.moved
      rw [hclient]
    rw [hmoved]
    exact h.sendRequest hreach hset _
  | waiting session masked exchanges outputs before oprf req fin batches h hreach hrequest hwhole hset =>
    dsimp only at hmove
    cases hresponses : record.run.responses with
    | nil =>
      rw [hresponses] at hmove
      dsimp only at hmove
      split_ifs at hmove
      obtain rfl := Option.some.inj hmove
      exact .failed _
    | cons resp responses =>
      rw [hresponses] at hmove
      obtain rfl := Option.some.inj hmove
      exact h.receiveResponse hclient hreach hrequest hwhole hset hresponses _
  -- A client that preprocesses waits for that, and one that has ended does not move.
  | announced | finished | failed => cases hmove

/-- Every step keeps the record. -/
theorem Recorded.step (h : Recorded cfg record record.run.client)
    (hstep : RecordedRun.Step cfg record record') : Recorded cfg record' record'.run.client := by
  cases hstep with
  | client run hmove =>
    rw [record.moved_run cfg run]
    exact h.clientMove hmove
  | preprocess uid ots received oprf hclient hpreproc =>
    exact .preprocessed ⟨tauFor cfg.set_size, uid, ots, received, oprf, ∅⟩ rfl
      ⟨hpreproc, fun x hx => absurd hx (Set.notMem_empty x)⟩
  | panic uid ots received hclient hchoices hblocks hpreproc =>
    obtain ⟨result, hresult⟩ := preprocClientWith_isSome cfg.blake3 cfg.pk uid hchoices hblocks received
    rw [hpreproc] at hresult
    cases hresult
  | server server sizes sets requests responses => exact h.congr rfl rfl rfl

/-- The record is right for the client's phase. -/
def RecordedRun.Right (cfg : PsiConfig S) (record : RecordedRun S stark) : Prop :=
  Recorded cfg record record.run.client

/-- The record is right in every run with any server. -/
theorem right_of_reachable (h : Reachable (RecordedRun.Step cfg) (RecordedRun.new S stark) record) :
    record.Right cfg := by
  have hnew : (RecordedRun.new S stark).Right cfg := .connected
  apply h.invariant hnew
  intro before after _ hbefore hstep
  exact Recorded.step hbefore hstep

/-- A VOPRF client's session is one under its `pk`. -/
theorem ClientSession.Of.accepted (h : session.Of cfg) {pk : VerifiedKey S} (hpk : cfg.pk = some pk) :
    session.Accepted cfg.blake3 pk := by
  refine ⟨?_, h.exchanges⟩
  unfold preprocClientVoprf
  rw [← hpk]
  exact h.preprocessing

/-- What a client got for its set, if the sessions' outputs are the PRF of a key. -/
theorem Exchanging.outputs_map (h : Exchanging cfg record session masked exchanges outputs)
    {sk : SecretKey} (hexchanges : ∀ x ∈ session.exchanges,
      x.outputs.map some = x.inputs.map (evaluate cfg.blake3 sk x.tag)) :
    outputs.map some = (exchanges.flatMap Exchange.inputs).map (evaluate cfg.blake3 sk masked.tag) := by
  rw [h.outputs_eq, List.map_flatMap, List.map_flatMap]
  refine List.flatMap_congr fun x hx => ?_
  obtain ⟨hmem, htag⟩ := h.exchanges_mem x hx
  rw [hexchanges x hmem, htag]

/-- What a client looks up of outputs that are the PRF of a key. -/
theorem mem_intersect_evaluate {sk : SecretKey} {tag : List UInt8} {set : List (List UInt8)}
    (h : outputs.map some = set.map (evaluate cfg.blake3 sk tag)) {server : List MaskedElement} {i : ℕ} :
    i ∈ intersect outputs server ↔ ∃ x out, set[i]? = some x ∧
      evaluate cfg.blake3 sk tag x = some out ∧ out ∈ server := by
  have hget : (outputs[i]?).map some = (set[i]?).map (evaluate cfg.blake3 sk tag) := by
    rw [← List.getElem?_map, ← List.getElem?_map, h]
  rw [mem_intersect]
  constructor
  · rintro ⟨out, hout, hmem⟩
    rw [hout, Option.map_some] at hget
    obtain ⟨x, hx, heval⟩ := Option.map_eq_some_iff.mp hget.symm
    exact ⟨x, out, hx, heval, hmem⟩
  · rintro ⟨x, out, hx, heval, hmem⟩
    rw [hx, Option.map_some, heval] at hget
    obtain ⟨out', hout', heq⟩ := Option.map_eq_some_iff.mp hget
    obtain rfl := Option.some.inj heq
    exact ⟨out', hout', hmem⟩

end Steps

/-- PSI is sound against any server. No client panics, plain or not, whatever the server sends and
when. If the `π_setup` of a `pk` verifies, then `pk` commits to a key that does not depend on any
run, and in every run of a client under this `pk`, if it returns indices, then these are, in
increasing order, those of the elements of its set whose PRF under that key and the server's tag is
in the masked set that it took. Assumed are a table behind each proof that Plonky3 accepts, and that
no two different inputs of one kind of commitment that are hashed have equal digests. -/
theorem psi_sound (stark : Stark Val) :
    (∀ (cfg : PsiConfig S) (record : RecordedRun S stark),
      Reachable (RecordedRun.Step cfg) (.new S stark) record → record.run.client ≠ .stopped) ∧
    ∀ tables : Air Val → List Val → stark.Proof → List (List Val), stark.Extracts tables →
      ∀ (pk : KeyCommitment S) (proof : stark.Proof) (verified : VerifiedKey S),
        VerifiedKey.verify stark pk proof = .ok verified →
        ∃ sk : SecretKey, pk = keyCommit sk ∧
          ∀ (cfg : PsiConfig S), cfg.pk = some verified → ∀ record : RecordedRun S stark,
            Reachable (RecordedRun.Step cfg) (.new S stark) record →
            (CommitmentInputs.union (HashedUnder cfg.blake3 tables verified proof
              {session | record.session = some session})).NoCollision S →
            ∀ oprf indices, record.run.client = .finished oprf indices →
              ∃ masked, record.masked = some masked ∧ masked.elements.length ≤ MAX_SERVER_SET ∧
                indices.Pairwise (· < ·) ∧
                ∀ i, i ∈ indices ↔ ∃ x out, cfg.set[i]? = some x ∧
                  evaluate cfg.blake3 sk masked.tag x = some out ∧ out ∈ masked.elements := by
  constructor
  · intro cfg record hreach hstopped
    -- Nothing is recorded of a client that has panicked.
    have hrecorded : Recorded cfg record record.run.client := right_of_reachable hreach
    rw [hstopped] at hrecorded
    cases hrecorded
  intro tables htables pk proof verified hverified
  obtain ⟨rfl, haccepted⟩ := VerifiedKey.verify_eq_ok.mp hverified
  obtain ⟨sk, hpk, hmem⟩ := KeyAir.exists_key_of_holds (htables _ _ _ haccepted)
  refine ⟨sk, hpk, fun cfg hcfg record hreach hno oprf indices hfinished => ?_⟩
  have hrecorded : Recorded cfg record record.run.client := right_of_reachable hreach
  rw [hfinished] at hrecorded
  cases hrecorded with
  | finished session masked exchanges outputs _ h hset =>
    have hsetup := keyOpenings_subset cfg.blake3 tables ⟨pk⟩ proof
      {session | record.session = some session}
    have houtputs := h.outputs_map fun x hx =>
      (h.accepted.accepted hcfg).outputs htables hno
        (fun part hpart => CommitmentInputs.subset_union (.session session h.session_eq part hpart))
        hpk (hsetup hmem) hx
    rw [← hset] at houtputs
    exact ⟨masked, h.masked_eq, h.masked_le, intersect_pairwise outputs masked.elements,
      fun i => mem_intersect_evaluate houtputs⟩

/-! ## A run with an honest server -/

/-- A client moves, and records it. -/
theorem RecordedRun.Step.move {cfg : PsiConfig S} {record : RecordedRun S stark}
    (record' : RecordedRun S stark) (hmove : clientMove cfg record.run = some record'.run)
    (hmoved : record.moved cfg record'.run = record') : RecordedRun.Step cfg record record' :=
  hmoved ▸ .client record record'.run hmove

/-- A client with one batch, whose preprocessing and whose response it accepts, returns. -/
theorem reachable_oneBatch (cfg : PsiConfig S) (masked : MaskedServerSet) (hpos : cfg.set_size ≠ 0)
    (hle : cfg.set_size ≤ MAX_CLIENT_SET) (hlen : cfg.set.length = cfg.set_size) {uid : Uid}
    {ots : ClientOts} {received : ServerMessages S stark} {oprf oprf' : ClientState S}
    (hpreproc : preprocClientWith cfg.blake3 cfg.pk (tauFor cfg.set_size) uid ots received =
      some (.ok oprf))
    (hchunks : chunks oprf.maxBatchEvaluations cfg.set = some [cfg.set])
    (hmasked : masked.elements.length ≤ MAX_SERVER_SET) {req : RequestMessage} {fin : FinalizeState S}
    (hrequest : requestBatch cfg.blake3 oprf masked.tag cfg.set = some (oprf', .ok (req, fin)))
    {resp : ResponseMessage stark} {outs : List PrfOutput}
    (hresponse : finalizeBatch stark fin resp = some (.ok outs)) :
    ∃ record, Reachable (RecordedRun.Step cfg) (.new S stark) record ∧
      record.session = some ⟨tauFor cfg.set_size, uid, ots, received, oprf,
        {⟨masked.tag, cfg.set, fin, resp, outs⟩}⟩ ∧
      record.masked = some masked ∧
      record.run.client = .finished oprf' (intersect outs masked.elements) := by
  have hannounce : announceSetSize cfg (PsiRun.new S stark) =
      ⟨.announced, .connected, [cfg.set_size], [], [], [], 0⟩ := by
    unfold announceSetSize
    rw [if_neg hpos, if_neg hle.not_gt]
    rfl
  have hset : (receiveSet cfg oprf masked : PsiClientPhase S stark) =
      .requesting oprf masked [cfg.set] [] := by
    unfold receiveSet
    rw [if_neg hmasked.not_gt, hchunks]
  -- Announce, preprocess, take the set, request, take the response and return.
  have hannounced : Reachable (RecordedRun.Step cfg) (.new S stark)
      ⟨⟨.announced, .connected, [cfg.set_size], [], [], [], 0⟩, none, none, []⟩ :=
    (Reachable.refl _ _).tail (.move _ (congrArg some hannounce) rfl)
  have hpreprocessed := hannounced.tail (.preprocess _ uid ots received oprf rfl hpreproc)
  have hsent := hpreprocessed.tail (.server _ .connected [] [masked] [] [])
  have htaken := hsent.tail (.move ⟨⟨.requesting oprf masked [cfg.set] [], .connected, [], [], [],
    [], 0⟩, some ⟨tauFor cfg.set_size, uid, ots, received, oprf, ∅⟩, some masked, []⟩ (by
      unfold clientMove
      dsimp only
      rw [if_neg (not_not.mpr hlen), hset]) (by
      unfold RecordedRun.moved
      dsimp only
      rw [if_neg (not_not.mpr hlen)]
      rfl))
  have hrequested := htaken.tail (.move ⟨⟨.waiting oprf' masked fin [] [], .connected, [], [],
    [req], [], 1⟩, some ⟨tauFor cfg.set_size, uid, ots, received, oprf, ∅⟩, some masked, cfg.set⟩ (by
      unfold clientMove sendRequest
      dsimp only
      rw [hrequest]
      rfl) rfl)
  have hanswered := hrequested.tail (.server _ .connected [] [] [] [resp])
  have hgot := hanswered.tail (.move ⟨⟨.requesting oprf' masked [] outs, .connected, [], [], [],
    [], 1⟩, some ⟨tauFor cfg.set_size, uid, ots, received, oprf, {⟨masked.tag, cfg.set, fin, resp, outs⟩}⟩,
    some masked, cfg.set⟩ (by
      unfold clientMove receiveResponse
      dsimp only
      rw [hresponse]
      rfl) (by
      unfold RecordedRun.moved
      dsimp only
      rw [hresponse]
      dsimp only
      unfold ClientSession.answered
      rw [Option.map_some]
      dsimp only
      rw [insert_empty_eq]
      rfl))
  have hfinished := hgot.tail (.move ⟨⟨.finished oprf' (intersect outs masked.elements), .connected, [], [], [],
    [], 1⟩, some ⟨tauFor cfg.set_size, uid, ots, received, oprf, {⟨masked.tag, cfg.set, fin, resp, outs⟩}⟩,
    some masked, []⟩ rfl rfl)
  exact ⟨_, hfinished, rfl, rfl, rfl⟩

theorem psi_sound_one :
    ∃ (proof : (Stark.transparent Val).Proof)
      (record : RecordedRun Permutations.identity (Stark.transparent Val))
      (oprf : ClientState Permutations.identity) (indices : List ℕ) (masked : MaskedServerSet)
      (sk : SecretKey),
      VerifiedKey.verify (Stark.transparent Val)
        (keyCommit zeroKey : KeyCommitment Permutations.identity) proof = .ok ⟨keyCommit zeroKey⟩ ∧
      Reachable (RecordedRun.Step oneElementConfig)
        (.new Permutations.identity (Stark.transparent Val)) record ∧
      record.run.client = .finished oprf indices ∧ record.masked = some masked ∧
      (keyCommit zeroKey : KeyCommitment Permutations.identity) = keyCommit sk ∧
      ∀ i, i ∈ indices ↔ ∃ x out, oneElementConfig.set[i]? = some x ∧
        evaluate oneElementConfig.blake3 sk masked.tag x = some out ∧ out ∈ masked.elements := by
  have htau : UInt64.toNat 16 = 16 := by simp
  have hle : H_ROWS ≤ UInt64.toNat 16 := by rw [htau]
  have hots : OtsMatched (zeroClientOts 16) (zeroServerOts 16) (UInt64.toNat 16) := by
    rw [htau]
    exact zero_otsMatched 16
  have hlen : ([] : List UInt8).length ≤ MAX_TAG_LEN := Nat.zero_le _
  obtain ⟨received, state, client', req, fin, resp, outs, hpreproc, hrequest, hresponse, hsubset⟩ :=
    hots.firstExchange hle
      (rfl : (⟨keyCommit zeroKey⟩ : VerifiedKey Permutations.identity).pk = keyCommit zeroKey)
      oneElementConfig.blake3 (fun _ => 0) hlen (List.cons_ne_nil [] []) (by decide)
      (by rw [htau]; exact le_rfl)
  rw [htau] at hpreproc hsubset
  -- The server's set is the client's element, masked.
  obtain ⟨elements, hmasked, -, -⟩ := maskServerSet_spec oneElementConfig.blake3 zeroKey [] [[]]
  have hmaskedLe : elements.length ≤ MAX_SERVER_SET :=
    (maskServerSet_length_le hmasked).trans (show 1 ≤ MAX_SERVER_SET by decide)
  have hchunks : chunks state.maxBatchEvaluations oneElementConfig.set = some [oneElementConfig.set] := by
    obtain ⟨voprf, hvoprf, -⟩ := (preprocClientWith_eq_ok hpreproc).voprf _ rfl
    rw [state.maxBatchEvaluations_eq, hvoprf, Option.isSome_some]
    decide
  obtain ⟨record, hreach, hsession, hrecorded, hfinished⟩ := reachable_oneBatch oneElementConfig
    ⟨[], elements⟩ (by decide) (by decide) rfl hpreproc hchunks hmaskedLe hrequest hresponse
  obtain ⟨proof, hpublished, hverified⟩ := setup_verified (S := Permutations.identity)
    (Stark.transparent_complete Val) () ⟨zeroKey⟩
  obtain ⟨sk, hpk, hruns⟩ := (psi_sound (Stark.transparent Val)).2 (fun _ _ table => table)
    (Stark.transparent_extracts Val) _ proof _ hverified
  have hkeys : KeyAir.keyOpenings proof ⊆ {keyElements (packKey zeroKey)} := by
    rw [setup_transparent hpublished]
    exact KeyAir.keyOpenings_trace zeroKey
  obtain ⟨masked, hmasked', -, -, hindices⟩ := hruns oneElementConfig rfl record hreach (by
    apply honestInputs_zero.mono
    apply HashedUnder.subset
    · exact ⟨hkeys, Set.empty_subset _, Set.empty_subset _, Set.empty_subset _⟩
    · rintro session hsession'
      obtain rfl := Option.some.inj (hsession.symm.trans hsession')
      exact hsubset) _ _ hfinished
  exact ⟨proof, record, _, _, masked, sk, hverified, hreach, hfinished, hmasked', hpk, hindices⟩

end PoolOprf
