import PoolOprf.Oprf.Budget
import PoolOprf.Oprf.FinalizeSpec

/-!
# The protocol computes the PRF

`Matched` is what one preprocessing leaves on the two sides for a key. A row of a response to a row
of a request on the same run is then unblinded to that row of the PRF's output
(`Matched.finalizeRow`): the sums agree by `ClientState.blinded_sum`, the rounding by `Lwr.unblind`,
and the entry that the client reads is padded with its own pad. A plain request is thus finalized to
the PRF's outputs if it is answered on its own runs, and is refused at its first row otherwise
(`Matched.finalizeBatch`).
-/

namespace PoolOprf

open Panic

variable {S : Permutations}

/-- The server's choice in a binary OT. -/
def ServerState.bBit (state : ServerState) (i : Fin N) : Bool :=
  decide ((state.r_s i).b.toNat = 1)

/-- A client's and a server's state from one preprocessing with key `sk`. -/
structure Matched (client : ClientState S) (server : ServerState) (sk : SecretKey) : Prop where
  /-- One session. -/
  uid : server.uid = client.uid
  /-- The server has the block of its choice in each binary OT. -/
  ot_block : ∀ i, index (client.ot_blocks i) (server.r_s i).b.toNat =
    some (server.r_s i).ot_block
  /-- `b̄_i = b_i ⊕ sk_i`. -/
  bhat : ∀ i, client.bhat i = (server.r_s i).b ^^^ sk.bits i
  /-- As many runs. -/
  tau : server.runs.tau = client.runs.tau
  /-- The client has the pad of its choice in each run. -/
  r_prime : ∀ (j : ℕ) rc, client.r_c[j]? = some rc →
    ∃ pads, server.s_s[j]? = some pads ∧ index pads rc.b_prime.toNat = some rc.r_prime

/-! ### States of zeros -/

/-- A plain client's state of `tau` runs with all blocks, choices, and pads zero. -/
def zeroClient (S : Permutations) (tau : ℕ) : ClientState S where
  ot_blocks _ _ _ := 0
  bhat _ := 0
  r_c := List.replicate tau ⟨0, 0, zero_lt_delta⟩
  uid _ := 0
  runs := Runs.new tau
  voprf := none
  bhat_le _ := by decide
  r_c_length := List.length_replicate
  m_length _ h := nomatch h
  d_length _ h := nomatch h

/-- The plain server's state to it. -/
def zeroServer (tau : ℕ) : ServerState where
  r_s _ := ⟨0, fun _ => 0, by decide⟩
  s_s := List.replicate tau fun _ => 0
  uid _ := 0
  runs := Runs.new tau
  voprf := none
  s_s_length := List.length_replicate
  delta_length _ h := nomatch h

/-- The key of zeros. -/
def zeroKey : SecretKey := SecretKey.ofBool fun _ => false

theorem zero_matched (tau : ℕ) : Matched (zeroClient S tau) (zeroServer tau) zeroKey where
  uid := rfl
  ot_block _ := rfl
  bhat _ := show (0 : UInt8) = 0 ^^^ Bool.toUInt8 false by decide
  tau := rfl
  r_prime j rc h := by
    obtain ⟨hj, rfl⟩ := List.getElem?_eq_some_iff.mp h
    have hlt : j < tau := by simpa [zeroClient] using hj
    refine ⟨fun _ => 0, by simp [zeroServer, hlt], ?_⟩
    simp [zeroClient, index]

namespace Matched

variable {client client' : ClientState S} {server server' : ServerState} {sk : SecretKey}

/-- States match whatever has been spent. -/
theorem spent (h : Matched client server sk) {n n' : ℕ} (hc : ClientState.Spent client client' n)
    (hs : ServerState.Spent server server' n') : Matched client' server' sk where
  uid := by rw [hc.uid, hs.uid, h.uid]
  ot_block := by rw [hc.ot_blocks, hs.r_s]; exact h.ot_block
  bhat := by rw [hc.bhat, hs.r_s]; exact h.bhat
  tau := by rw [hc.tau, hs.tau, h.tau]
  r_prime := by rw [hc.r_c, hs.s_s]; exact h.r_prime

/-- The server's block in a binary OT. -/
theorem blockAt_bBit (h : Matched client server sk) (i : Fin N) :
    client.blockAt i (server.bBit i) = (server.r_s i).ot_block := by
  have hle := (server.r_s i).b_le
  have hcases : (server.r_s i).b.toNat = 0 ∨ (server.r_s i).b.toNat = 1 := by omega
  have hblock := h.ot_block i
  unfold ClientState.blockAt ServerState.bBit
  rcases hcases with hb | hb
  · rw [hb] at hblock ⊢
    exact Option.some.inj hblock
  · rw [hb] at hblock ⊢
    exact Option.some.inj hblock

/-- The block that the client blinds with. -/
theorem bhatBit_eq (h : Matched client server sk) (i : Fin N) :
    client.bhatBit i = (server.bBit i ^^ sk.bit i) := by
  have hle := (server.r_s i).b_le
  have hcases : (server.r_s i).b = 0 ∨ (server.r_s i).b = 1 := by
    simp only [← UInt8.toNat_inj]
    have h0 : (0 : UInt8).toNat = 0 := rfl
    have h1 : (1 : UInt8).toNat = 1 := rfl
    omega
  unfold ClientState.bhatBit ServerState.bBit
  rw [h.bhat, sk.bits_eq]
  rcases hcases with hb | hb
  · rw [hb]
    cases sk.bit i <;> rfl
  · rw [hb]
    cases sk.bit i <;> rfl

/-- The sum behind a response: the row's inner product, blinded by `r_Σ`. -/
theorem aSigma_eq (h : Matched client server sk) (blake3 : Blake3) (a : Fin N → Zq) (ctr : ℕ) :
    reduceQ (aSigmaNat sk (server.rSigmaSumAt blake3 sk ctr)
      (client.rowRequest blake3 a ctr).e) =
        reduceQ (innerSum a sk + (client.rSigma blake3 ctr).toNat) := by
  refine eq_reduceQ_of_cast (reduceQ_lt _) ?_
  -- The server's side of a binary OT is the one that the key and `b̄` select.
  have hmask : ∀ i, server.maskAt blake3 ctr i =
      client.maskAt blake3 ctr i (client.bhatBit i ^^ sk.bit i) := by
    intro i
    unfold ServerState.maskAt ClientState.maskAt
    rw [h.bhatBit_eq, Bool.xor_assoc, Bool.xor_self, Bool.xor_false, h.blockAt_bBit]
  have hserver : ((server.rSigmaSumAt blake3 sk ctr).toNat : ZMod Q) =
      ∑ i, (1 - 2 * Lwr.bit (sk.bit i)) *
        ((client.maskAt blake3 ctr i (client.bhatBit i ^^ sk.bit i)).toNat : ZMod Q) := by
    have hlt : ∀ i, (server.maskAt blake3 ctr i).toNat < Q := fun i => maskOf_lt _ _ _
    rw [ServerState.rSigmaSumAt, reduceQ_cast, rSigmaNat_cast sk hlt]
    exact Finset.sum_congr rfl fun i _ => by rw [hmask]
  rw [reduceQ_cast, aSigmaNat_cast]
  exact client.blinded_sum blake3 a sk hserver

/-- The entry of a response that the client reads is padded with the client's pad. -/
theorem pad_eq (h : Matched client server sk) (blake3 : Blake3) (a : Fin N → Zq) {ctr : ℕ}
    (hctr : ctr < client.runs.tau) {j : Fin DELTA}
    (hj : j.val = (client.rSigma blake3 ctr).toNat % DELTA) :
    server.padsAt ctr (padPosition j (client.rowRequest blake3 a ctr).b_bar_prime) =
      (client.rcAt ctr).r_prime := by
  obtain ⟨pads, hpads, hpad⟩ := h.r_prime ctr _ (ClientState.r_c_getElem? hctr)
  rw [ServerState.s_s_getElem? (h.tau ▸ hctr), Option.some.injEq] at hpads
  rw [index_of_lt _ (client.rcAt ctr).b_prime_lt, Option.some.injEq, ← hpads] at hpad
  rw [client.padPosition_eq blake3 a hj]
  exact hpad

/-- A row answered on its own run is finalized to its rounded inner product. -/
theorem finalizeRow (h : Matched client server sk) (blake3 : Blake3) (a : Fin N → Zq) {ctr : ℕ}
    (hctr : ctr < client.runs.tau) :
    PoolOprf.finalizeRow (client.rowFinalize blake3 ctr)
      (server.rowResponse blake3 sk (client.rowRequest blake3 a ctr) ctr) =
        some (reduceP (Lwr.nearest DELTA (innerSum a sk % Q))) := by
  obtain ⟨j, hj⟩ : ∃ j : Fin DELTA, j.val = (client.rSigma blake3 ctr).toNat % DELTA :=
    ⟨⟨_, Nat.mod_lt _ (by norm_num)⟩, rfl⟩
  refine finalizeRow_of_entry (innerSum a sk) (reduceQ_lt _) hj ?_
  change (responseEntry _ _ _ j).toNat = (Lwr.nearest DELTA (((innerSum a sk +
    (client.rSigma blake3 ctr).toNat) % Q + Q - j) % Q) + (client.rcAt ctr).r_prime.toNat) % P
  rw [h.aSigma_eq, responseEntry, h.pad_eq blake3 a hctr hj, reduceP_toNat, reduceP_toNat,
    reduceQ_toNat, Nat.mod_add_mod]

/-- Rows answered on their own runs are finalized to the PRF's outputs. -/
theorem finalizeOutputs (h : Matched client server sk) (blake3 : Blake3) {stark : Stark Val}
    {tag : List UInt8} {inputs : List (List UInt8)} {ctr : ℕ}
    (hle : ctr + tauFor inputs.length ≤ client.runs.tau) {fin : FinalizeState S}
    (hfinrows : fin.rows = client.finalizeRows blake3 ctr inputs.length) {resp : ResponseMessage stark}
    (hrows : resp.rows =
      server.answers blake3 sk ctr (client.requestRows blake3 tag ctr inputs)) :
    PoolOprf.finalizeOutputs stark fin resp =
      some (.ok (inputs.map fun input => outputOf sk (hashToZqMatrix blake3 tag input))) := by
  have hlen : resp.rows.length = fin.rows.length := by
    rw [hrows, hfinrows, ServerState.answers_length, ClientState.requestRows_length,
      ClientState.finalizeRows_length]
  refine (finalizeOutputs_eq_ok hlen).mpr ⟨?_, fun v output houtput k => ?_⟩
  · rw [List.length_map, FinalizeState.evaluations, hfinrows, ClientState.finalizeRows_length,
      tauFor_div]
  · rw [List.getElem?_map, Option.map_eq_some_iff] at houtput
    obtain ⟨input, hinput, rfl⟩ := houtput
    have hv : v < inputs.length := (List.getElem?_eq_some_iff.mp hinput).1
    -- Row `k` of evaluation `v` is the same row of the request and of the response.
    obtain ⟨hreq, hfin⟩ := client.requestRows_getElem? blake3 tag k inputs ctr v input hinput
    refine ⟨_, server.rowResponse blake3 sk (client.rowRequest blake3
      (hashToZqMatrix blake3 tag input k) (ctr + (tauFor v + k))) (ctr + (tauFor v + k)),
      hfinrows ▸ hfin, ?_, rfl, h.finalizeRow blake3 _ ?_⟩
    · rw [hrows, ServerState.answers_getElem?, hreq]
      rfl
    · have hk : k.val < 16 := k.isLt
      have hlt : ctr + (v * 16 + k.val) < client.runs.tau := by
        have hle' : ctr + inputs.length * 16 ≤ client.runs.tau := hle
        omega
      exact hlt

/-- A plain request that is answered is finalized to the PRF's outputs if the server's runs are its
own, and is refused at its first row otherwise. -/
theorem finalizeBatch (h : Matched client server sk) (blake3 : Blake3) {stark : Stark Val}
    {tag : List UInt8} {inputs : List (List UInt8)} (hne : inputs ≠ []) {ctr : ℕ}
    (hle : ctr + tauFor inputs.length ≤ client.runs.tau) {fin : FinalizeState S}
    (hfinuid : fin.uid = client.uid)
    (hfinrows : fin.rows = client.finalizeRows blake3 ctr inputs.length) (hvoprf : fin.voprf = none)
    {ctr' : ℕ} {resp : ResponseMessage stark} (huid : resp.uid = server.uid)
    (hrows : resp.rows =
      server.answers blake3 sk ctr' (client.requestRows blake3 tag ctr inputs)) :
    (ctr' = ctr → PoolOprf.finalizeBatch stark fin resp =
        some (.ok (inputs.map fun input => outputOf sk (hashToZqMatrix blake3 tag input)))) ∧
      (ctr' ≠ ctr → PoolOprf.finalizeBatch stark fin resp =
        some (.error (.CounterMismatch 0 ctr ctr'))) := by
  have huid' : resp.uid = fin.uid := huid.trans (h.uid.trans hfinuid.symm)
  have hlen : resp.rows.length = fin.rows.length := by
    rw [hrows, hfinrows, ServerState.answers_length, ClientState.requestRows_length,
      ClientState.finalizeRows_length]
  have hwhole : fin.rows.length % H_ROWS = 0 := by
    rw [hfinrows, ClientState.finalizeRows_length]
    exact Nat.mod_eq_zero_of_dvd (dvd_tauFor _)
  constructor
  · -- On its own runs: each row is unblinded to the PRF.
    rintro rfl
    refine finalizeBatch_eq_ok.mpr ⟨huid', hlen, hwhole, fun _ hst => ?_,
      h.finalizeOutputs blake3 hle hfinrows hrows⟩
    rw [hvoprf] at hst
    cases hst
  · -- On other runs: the first row already has another counter.
    intro hctr
    obtain ⟨input, hinput⟩ : ∃ input, inputs[0]? = some input := by
      cases inputs with
      | nil => exact absurd rfl hne
      | cons input _ => exact ⟨input, rfl⟩
    obtain ⟨hreq, hfin⟩ := client.requestRows_getElem? blake3 tag 0 inputs ctr 0 input hinput
    rw [tauFor_zero, Fin.val_zero, Nat.add_zero, Nat.add_zero] at hreq hfin
    rw [← hfinrows] at hfin
    have hrow' : resp.rows[0]? = some (server.rowResponse blake3 sk (client.rowRequest blake3
        (hashToZqMatrix blake3 tag input 0) ctr) ctr') := by
      rw [hrows, ServerState.answers_getElem?, hreq]
      rfl
    exact finalizeBatch_mismatch huid' hlen hwhole hvoprf hfin hrow' hctr

/-- The server accepts what the client does when their budgets agree. -/
theorem blindEvalAccepted (h : Matched client server sk) (blake3 : Blake3) {tag : List UInt8}
    {inputs : List (List UInt8)} (haccepted : RequestAccepted client tag inputs)
    (hctr : server.runs.ctr = client.runs.ctr) (hvoprf : server.voprf.isSome → client.voprf.isSome) :
    BlindEvalAccepted server
      ⟨client.uid, tag, client.requestRows blake3 tag client.runs.ctr inputs⟩ := by
  have hlen := client.requestRows_length blake3 tag inputs client.runs.ctr
  have hevaluations : RequestMessage.evaluations
      ⟨client.uid, tag, client.requestRows blake3 tag client.runs.ctr inputs⟩ = inputs.length := by
    rw [RequestMessage.evaluations, hlen, tauFor_div]
  refine ⟨h.uid.symm, haccepted.tag_le, fun hnil => ?_, ?_, ?_, fun hs => ?_,
    client.requestRows_inRange blake3 tag inputs client.runs.ctr, ?_⟩
  · have hpos := List.length_pos_iff.mpr haccepted.nonempty
    have hzero : 0 = inputs.length * 16 := (congrArg List.length hnil).symm.trans hlen
    omega
  · rw [hlen]
    exact dvd_tauFor inputs.length
  · rw [hevaluations]
    exact haccepted.batch_le
  · rw [hevaluations]
    exact haccepted.voprf_batch_le (hvoprf hs)
  · have hruns := haccepted.runs_le
    rw [hlen, Runs.remaining, h.tau, hctr]
    exact hruns

end Matched

/-- The requests that were accepted, in order: of each call, the request and the state that is
kept. -/
def requestsSent (calls : List RequestCall) (records : List (RequestRecord S)) :
    List (RequestCall × RequestMessage × FinalizeState S) :=
  (calls.zip records).filterMap fun pair =>
    match pair.2 with
    | .ok sent => some (pair.1, sent)
    | .error _ => none

section Plain

variable {stark : Stark Val} {sk : SecretKey}

/-- A request of a plain history, whenever it is answered. -/
theorem finalizeBatch_of_history (blake3 : Blake3) :
    ∀ (calls : List RequestCall) {client client' : ClientState S} {server : ServerState}
      {records : List (RequestRecord S)}, Matched client server sk → client.voprf = none →
      requestAll blake3 calls client = some (client', records) →
      ∀ pair ∈ calls.zip records, ∀ req fin, pair.2 = .ok (req, fin) →
      ∃ first, fin.rows[0]?.map RowFinalizeState.ctr = some first ∧
        ∀ {ctr' : ℕ} {resp : ResponseMessage stark}, resp.uid = server.uid →
          resp.rows = server.answers blake3 sk ctr' req.rows →
          (ctr' = first → finalizeBatch stark fin resp = some (.ok (pair.1.2.map fun input =>
            outputOf sk (hashToZqMatrix blake3 pair.1.1 input)))) ∧
          (ctr' ≠ first → finalizeBatch stark fin resp =
            some (.error (.CounterMismatch 0 first ctr')))
  | [], client, client', server, records, _, _, h => by
    obtain ⟨rfl, rfl⟩ := Prod.mk.inj (Option.some.inj h)
    simp
  | (tag, inputs) :: calls, client, client', server, records, hmatched, hplain, h => by
    obtain ⟨client₁, record, records', hcall, hcalls, rfl⟩ := requestAll_cons_eq_some h
    rw [List.zip_cons_cons, List.forall_mem_cons]
    rcases requestBatch_cases blake3 client tag inputs with
      ⟨-, error, hcall'⟩ | ⟨haccepted, client₁', hspent, hcall'⟩
    · -- A refused call leaves the state, and keeps nothing to finalize.
      rw [hcall'] at hcall
      obtain ⟨rfl, rfl⟩ := Prod.mk.inj (Option.some.inj hcall)
      exact ⟨(fun _ _ h => by cases h), finalizeBatch_of_history blake3 calls hmatched hplain hcalls⟩
    · rw [hcall', ClientState.requestStatements_plain hplain] at hcall
      obtain ⟨rfl, rfl⟩ := Prod.mk.inj (Option.some.inj hcall)
      -- An accepted one spends runs, over which the states stay matched.
      have hmatched₁ := hmatched.spent hspent (ServerState.Spent.refl server)
      refine ⟨fun req fin hok => ?_, finalizeBatch_of_history blake3 calls hmatched₁
        (hspent.voprf.trans hplain) hcalls⟩
      obtain ⟨rfl, rfl⟩ := Prod.mk.inj (Except.ok.inj hok)
      have hbudget := client.runs.ctr_add_remaining
      have hruns := haccepted.runs_le
      have hvoprf : client.voprf.map (fun _ => ([] : List (Online S))) = none := by rw [hplain]; rfl
      refine ⟨client.runs.ctr, ?_, fun huid hrows => hmatched.finalizeBatch blake3
        haccepted.nonempty (by omega) rfl rfl hvoprf huid hrows⟩
      obtain ⟨input, hinput⟩ : ∃ input, inputs[0]? = some input := by
        cases inputs with
        | nil => exact absurd rfl haccepted.nonempty
        | cons input _ => exact ⟨input, rfl⟩
      have hfin := (client.requestRows_getElem? blake3 tag 0 inputs client.runs.ctr 0 input hinput).2
      rw [tauFor_zero, Fin.val_zero, Nat.add_zero, Nat.add_zero] at hfin
      rw [hfin]
      rfl

/-- The requests of a plain history, delivered once and in order. -/
theorem finalizeBatch_in_order (blake3 : Blake3) (coins : ℕ → stark.Coins) :
    ∀ (calls : List RequestCall) {client client' : ClientState S} {server : ServerState}
      {records : List (RequestRecord S)}, Matched client server sk → client.voprf = none →
      server.voprf = none → server.runs.ctr = client.runs.ctr →
      requestAll blake3 calls client = some (client', records) →
      ∃ server' answered, blindEvalAll S blake3 stark
          ((requestsSent calls records).map fun sent => ⟨sk, sent.2.1, coins⟩) server =
            some (server', answered) ∧
        answered.length = (requestsSent calls records).length ∧
        ∀ pair ∈ (requestsSent calls records).zip answered, ∃ resp, pair.2.2 = .ok resp ∧
          finalizeBatch stark pair.1.2.2 resp = some (.ok (pair.1.1.2.map fun input =>
            outputOf sk (hashToZqMatrix blake3 pair.1.1.1 input)))
  | [], client, client', server, records, _, _, _, _, h => by
    obtain ⟨rfl, rfl⟩ := Prod.mk.inj (Option.some.inj h)
    exact ⟨server, [], rfl, rfl, by simp⟩
  | (tag, inputs) :: calls, client, client', server, records, hmatched, hplain, hplain', hctr, h => by
    obtain ⟨client₁, record, records', hcall, hcalls, rfl⟩ := requestAll_cons_eq_some h
    rcases requestBatch_cases blake3 client tag inputs with
      ⟨-, error, hcall'⟩ | ⟨haccepted, client₁', hspent, hcall'⟩
    · -- A refused call sends nothing.
      rw [hcall'] at hcall
      obtain ⟨rfl, rfl⟩ := Prod.mk.inj (Option.some.inj hcall)
      have hsent : requestsSent ((tag, inputs) :: calls) (.error error :: records') =
          requestsSent calls records' := rfl
      rw [hsent]
      exact finalizeBatch_in_order blake3 coins calls hmatched hplain hplain' hctr hcalls
    · rw [hcall', ClientState.requestStatements_plain hplain] at hcall
      obtain ⟨rfl, rfl⟩ := Prod.mk.inj (Option.some.inj hcall)
      have hlen := client.requestRows_length blake3 tag inputs client.runs.ctr
      have hbudget := client.runs.ctr_add_remaining
      have hruns := haccepted.runs_le
      have haccepted' := hmatched.blindEvalAccepted blake3 haccepted hctr
        (fun h => by rw [hplain'] at h; cases h)
      rcases blindEval_cases S blake3 stark coins server sk
          ⟨client.uid, tag, client.requestRows blake3 tag client.runs.ctr inputs⟩ with
        ⟨hno, -⟩ | ⟨-, server₁, m, result, -, hspent', hanswer, hok, hresult⟩
      -- The server takes what the client sends, as both check the same on matching states.
      · exact absurd haccepted' hno
      obtain rfl := hresult hplain'
      obtain ⟨hm, -, -⟩ := hok _ rfl
      -- The server spends as many runs as the client did.
      have hctr₁ : server₁.runs.ctr = client₁'.runs.ctr := by
        rw [hspent'.ctr, hspent.ctr, hctr, hm, haccepted'.tauFor_evaluations]
        exact congrArg _ hlen
      obtain ⟨server', answered, hanswers, hlen', hrest⟩ := finalizeBatch_in_order blake3 coins calls
        (hmatched.spent hspent hspent') (hspent.voprf.trans hplain) (hspent'.voprf.trans hplain')
        hctr₁ hcalls
      have hfirst : finalizeBatch stark (⟨client.uid,
          client.finalizeRows blake3 client.runs.ctr inputs.length,
          client.voprf.map fun _ => []⟩ : FinalizeState S) ⟨server.uid,
          server.answers blake3 sk server.runs.ctr
            (client.requestRows blake3 tag client.runs.ctr inputs), []⟩ =
          some (.ok (inputs.map fun input => outputOf sk (hashToZqMatrix blake3 tag input))) :=
        (hmatched.finalizeBatch blake3 haccepted.nonempty (by omega) rfl rfl (by rw [hplain]; rfl)
          rfl rfl).1 hctr
      refine ⟨server', _, blindEvalAll_cons hanswer hanswers, congrArg Nat.succ hlen', ?_⟩
      change ∀ pair ∈ (_, _) :: (requestsSent calls records').zip answered, _
      rw [List.forall_mem_cons]
      exact ⟨⟨_, rfl, hfirst⟩, hrest⟩

end Plain

/-- The plain protocol computes the PRF. From matching states with nothing spent, a call yields a
request exactly if it passes the checks on the state that the calls before it leave. Whatever
requests are made, and in whatever order, how often, and after whatever else they reach the server:
an answered request is finalized to the PRF's outputs on its inputs if the server's next run is the
request's first, and is refused for its counter otherwise. If all of them are delivered once and in
order, every one is answered, and is finalized to the PRF's outputs. -/
theorem plain_protocol_correct (blake3 : Blake3) (stark : Stark Val) (sk : SecretKey)
    {client : ClientState S} {server : ServerState} (hmatched : Matched client server sk)
    (hclient : client.voprf = none) (hserver : server.voprf = none) (hctr : client.runs.ctr = 0)
    (hctr' : server.runs.ctr = 0) (calls : List RequestCall) :
    ∃ client' records, requestAll blake3 calls client = some (client', records) ∧
      records.length = calls.length ∧
      (∀ earlier call later, calls = earlier ++ call :: later →
        ∃ before requested, requestAll blake3 earlier client = some (before, requested) ∧
          (RequestAccepted before call.1 call.2 ↔
            ∃ req fin, records[earlier.length]? = some (.ok (req, fin)))) ∧
      (∀ pair ∈ calls.zip records, ∀ req fin, pair.2 = .ok (req, fin) →
        ∃ first outputs, fin.rows[0]?.map RowFinalizeState.ctr = some first ∧
          pair.1.2.mapM (evaluate blake3 sk pair.1.1) = some outputs ∧
          ∀ (served : List (BlindEvalCall stark)) server' answered,
            blindEvalAll S blake3 stark served server = some (server', answered) →
            ∀ coins server'' rows resp,
              blindEval S blake3 stark coins server' sk req = some (server'', rows, .ok resp) →
              finalizeBatch stark fin resp = some (if server'.runs.ctr = first then .ok outputs
                else .error (.CounterMismatch 0 first server'.runs.ctr))) ∧
      ∀ coins : ℕ → stark.Coins, ∃ server' answered,
        blindEvalAll S blake3 stark
          ((requestsSent calls records).map fun sent => ⟨sk, sent.2.1, coins⟩) server =
            some (server', answered) ∧
        answered.length = (requestsSent calls records).length ∧
        ∀ pair ∈ (requestsSent calls records).zip answered, ∃ resp outputs,
          pair.2.2 = .ok resp ∧
          pair.1.1.2.mapM (evaluate blake3 sk pair.1.1.1) = some outputs ∧
          finalizeBatch stark pair.1.2.2 resp = some (.ok outputs) := by
  have heval : ∀ (tag : List UInt8) (inputs : List (List UInt8)),
      inputs.mapM (evaluate blake3 sk tag) =
        some (inputs.map fun input => outputOf sk (hashToZqMatrix blake3 tag input)) :=
    fun tag inputs => mapM_eq_some_map fun input _ => evaluate_eq blake3 sk tag input
  obtain ⟨⟨client', records⟩, hrequests⟩ := Option.isSome_iff_exists.mp
    (requestAll_isSome blake3 calls client fun _ => hctr ▸ dvd_zero _)
  have hhistory := requestAll_spec blake3 calls client client' records hrequests
  refine ⟨client', records, hrequests, hhistory.length, ?_, ?_, fun coins => ?_⟩
  · rintro earlier call later rfl
    exact requestAll_accepted_iff hrequests
  · intro pair hpair req fin hok
    obtain ⟨first, hfirst, hfinalize⟩ := @finalizeBatch_of_history _ stark _ blake3 calls
      _ _ _ _ hmatched hclient hrequests pair hpair req fin hok
    refine ⟨first, _, hfirst, heval _ _, ?_⟩
    intro served server' answered hserved coins server'' rows resp hresp
    -- The server has spent some runs, and nothing else has changed.
    obtain ⟨_, _, hserved', hspent⟩ := blindEvalAll_spec S blake3 stark served server
    obtain ⟨rfl, rfl⟩ := Prod.mk.inj (Option.some.inj (hserved.symm.trans hserved'))
    obtain ⟨_, _, _, -, -, hcall, hanswer⟩ :=
      blindEval_spec S blake3 stark coins server' sk req
    have hresult := (Prod.mk.inj (Prod.mk.inj (Option.some.inj (hresp.symm.trans hcall))).2).2
    obtain ⟨-, -, huid, hrows⟩ := hanswer resp hresult.symm
    rw [hspent.spent.uid] at huid
    rw [hspent.spent.answers] at hrows
    obtain ⟨heq, hne⟩ := hfinalize huid hrows
    -- Only the counter can differ, which is what the client compares first.
    split_ifs with hfirst'
    · exact heq hfirst'
    · exact hne hfirst'
  · obtain ⟨server', answered, hserved, hlen, hall⟩ := finalizeBatch_in_order blake3 coins calls
      hmatched hclient hserver (hctr'.trans hctr.symm) hrequests
    refine ⟨server', answered, hserved, hlen, fun pair hpair => ?_⟩
    obtain ⟨resp, hresp, hfinalize⟩ := hall pair hpair
    exact ⟨resp, _, hresp, heval _ _, hfinalize⟩

/-! ### A client and a server of a key with one bit -/

/-- The position that the client chose in each run. -/
theorem three_lt_delta : (3 : Zdelta).toNat < DELTA := by decide

/-- `b̄` of that key, where the server chose side 1 of every pair. -/
theorem oneBitClient_bhat_le (i : Fin N) : (1 ^^^ oneBitKey.bits i).toNat ≤ 1 :=
  Nat.le_of_lt_succ (xor_toNat_lt_two (a := 1) le_rfl (oneBitKey.binary i))

theorem oneBitClient_m_length (S : Permutations) (tau : ℕ) (v : ClientVoprf S) (h : v ∈ none) :
    v.m.length = evaluationsFor tau := by
  cases h

theorem oneBitClient_d_length (S : Permutations) (tau : ℕ) (v : ClientVoprf S) (h : v ∈ none) :
    v.d.length = tauFor (evaluationsFor tau) := by
  cases h

theorem oneBitServer_delta_length (tau : ℕ) (v : ServerVoprf) (h : v ∈ none) :
    v.delta_ot_blocks.length = tau := by
  cases h

/-- A plain client's state of `tau` runs. -/
def oneBitClient (S : Permutations) (tau : ℕ) : ClientState S where
  ot_blocks := sideBlocks
  bhat i := 1 ^^^ oneBitKey.bits i
  r_c := List.replicate tau ⟨3, 7, three_lt_delta⟩
  uid _ := 9
  runs := Runs.new tau
  voprf := none
  bhat_le := oneBitClient_bhat_le
  r_c_length := List.length_replicate
  m_length := oneBitClient_m_length S tau
  d_length := oneBitClient_d_length S tau

/-- The plain server's state to it, with pads from 4 on. -/
def oneBitServer (tau : ℕ) : ServerState where
  r_s _ := ⟨1, fun _ => 1, le_rfl⟩
  s_s := List.replicate tau fun position => UInt8.ofNat (position + 4)
  uid _ := 9
  runs := Runs.new tau
  voprf := none
  s_s_length := List.length_replicate
  delta_length := oneBitServer_delta_length tau

theorem oneBit_matched (tau : ℕ) : Matched (oneBitClient S tau) (oneBitServer tau) oneBitKey where
  uid := rfl
  ot_block _ := rfl
  bhat _ := rfl
  tau := rfl
  r_prime j rc h := by
    obtain ⟨hj, rfl⟩ := List.getElem?_eq_some_iff.mp h
    have hlt : j < tau := by simpa [oneBitClient] using hj
    refine ⟨fun position => UInt8.ofNat (position + 4), by simp [oneBitServer, hlt], ?_⟩
    have hchoice : 3 < DELTA := by norm_num
    simp [oneBitClient, index, hchoice]

theorem oneBitClient_accepted : RequestAccepted (oneBitClient S 48) [7] [[1], [2]] where
  tag_le := by decide
  nonempty := List.cons_ne_nil _ _
  batch_le := by decide
  voprf_batch_le h := by cases h
  runs_le := show 32 ≤ 48 by decide

/-- After two evaluations it has the runs for one more. -/
theorem oneBitClient_next {blake3 : Blake3} {client : ClientState S} {req : RequestMessage}
    {fin : FinalizeState S}
    (h : requestBatch blake3 (oneBitClient S 48) [7] [[1], [2]] = some (client, .ok (req, fin))) :
    RequestAccepted client [] [[3]] := by
  obtain ⟨-, hspent, -⟩ := requestBatch_eq_ok h
  refine ⟨by decide, List.cons_ne_nil _ _, by decide, fun hvoprf => ?_, ?_⟩
  · rw [hspent.voprf] at hvoprf
    cases hvoprf
  · rw [Runs.remaining, hspent.tau, hspent.ctr]
    exact le_rfl

theorem plain_protocol_correct_oneBit : ∃ client' records,
    requestAll lastByteHash [([7], [[1], [2]]), ([], [[3]])] (oneBitClient Permutations.identity 48) =
      some (client', records) ∧
    (∃ req fin, records[0]? = some (.ok (req, fin))) ∧
    (∃ req fin, records[1]? = some (.ok (req, fin))) ∧
    ∃ server' answered, blindEvalAll Permutations.identity lastByteHash (Stark.transparent Val)
        ((requestsSent [([7], [[1], [2]]), ([], [[3]])] records).map fun sent =>
          ⟨oneBitKey, sent.2.1, fun _ => ()⟩) (oneBitServer 48) = some (server', answered) ∧
      answered.length = 2 ∧
      ∀ pair ∈ (requestsSent [([7], [[1], [2]]), ([], [[3]])] records).zip answered, ∃ resp,
        pair.2.2 = .ok resp ∧
        finalizeBatch (Stark.transparent Val) pair.1.2.2 resp =
          some (.ok (pair.1.1.2.map fun input _ => input.getLastD 0)) := by
  obtain ⟨client', records, hrequests, hlen, haccepted, -, hinorder⟩ :=
    plain_protocol_correct lastByteHash (Stark.transparent Val) oneBitKey
      (oneBit_matched (S := Permutations.identity) 48) rfl rfl rfl rfl [([7], [[1], [2]]), ([], [[3]])]
  obtain ⟨server', answered, hserved, hanswered, hall⟩ := hinorder fun _ => ()
  -- Both calls pass the checks, the second one on what the first leaves.
  obtain ⟨client₁, req₁, fin₁, hcall⟩ := (oneBitClient_accepted
    (S := Permutations.identity)).requestBatch lastByteHash (fun h => by cases h)
  obtain ⟨before, requested, hnone, hfirst⟩ := haccepted [] _ _ rfl
  obtain ⟨rfl, rfl⟩ := Prod.mk.inj (Option.some.inj hnone)
  obtain ⟨before, requested, hone, hsecond⟩ := haccepted [_] _ _ rfl
  rw [requestAll, hcall] at hone
  obtain ⟨rfl, -⟩ := Prod.mk.inj (Option.some.inj hone)
  obtain ⟨record, record', rfl⟩ := List.length_eq_two.mp hlen
  obtain ⟨req, fin, hok⟩ := hfirst.mp oneBitClient_accepted
  obtain ⟨req', fin', hok'⟩ := hsecond.mp (oneBitClient_next hcall)
  obtain rfl := Option.some.inj hok
  obtain rfl := Option.some.inj hok'
  refine ⟨client', _, hrequests, ⟨req, fin, rfl⟩, ⟨req', fin', rfl⟩, server', answered, hserved,
    hanswered, fun pair hpair => ?_⟩
  obtain ⟨resp, outputs, hresp, houtputs, hfinalize⟩ := hall pair hpair
  refine ⟨resp, hresp, ?_⟩
  -- No input is empty, so its output is its last byte.
  have hsent : pair.1 ∈ [(([7], [[1], [2]]), req, fin), (([], [[3]]), req', fin')] :=
    (List.of_mem_zip hpair).1
  have hinputs : ∀ input ∈ pair.1.1.2, input ≠ [] := by
    rcases List.mem_pair.mp hsent with hpair | hpair
    · rw [hpair]
      exact show ∀ input ∈ [[(1 : UInt8)], [2]], input ≠ [] by decide
    · rw [hpair]
      exact show ∀ input ∈ [[(3 : UInt8)]], input ≠ [] by decide
  rw [mapM_eq_some_map fun input hinput => evaluate_lastByteHash _ (hinputs input hinput)] at houtputs
  rw [hfinalize, ← Option.some.inj houtputs]

end PoolOprf
