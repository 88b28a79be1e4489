import PoolOprf.Oprf.Honest

/-!
# A batch between parties in step

`Aligned` is what two honest sides keep, in either mode: matching states of one mode that have spent
as many runs. A batch that the client may request is then requested (`Aligned.request`), answered
(`Aligned.answered`), and finalized to the PRF's outputs (`Aligned.finalizeBatch`), and leaves the
two sides aligned (`Aligned.next`). In VOPRF mode this takes a proof system that proves what holds:
the statements are those of `Honest`.
-/

namespace PoolOprf

open Panic

variable {S : Permutations} {stark : Stark Val}

/-- A server that accepts a request answers it, if its prover proves what holds. -/
theorem blindEval_of_complete (hstark : stark.Complete) (blake3 : Blake3) (coins : ℕ → stark.Coins)
    (sk : SecretKey) {state : ServerState} {req : RequestMessage}
    (haccepted : BlindEvalAccepted state req) :
    ∃ state' rows resp,
      blindEval S blake3 stark coins state sk req = some (state', rows, .ok resp) := by
  obtain ⟨evals, -, hlen, hrange, -, hblind⟩ :=
    blindEval_of_accepted S blake3 stark coins state sk req haccepted
  have hruns : tauFor evals.length ≤ state.runs.remaining := hlen ▸ haccepted.tauFor_le
  obtain ⟨state', m, result, -, -, hloop, -, hplain⟩ :=
    blindEvalLoop_spec (S := S) blake3 stark coins sk evals state [] [] hrange hruns
  rw [hblind, hloop]
  cases result with
  | ok proofs => exact ⟨state', _, _, rfl⟩
  | error error =>
    cases hvoprf : state.voprf with
    | none => exact absurd (hplain hvoprf) (by simp)
    | some voprf =>
      -- The evaluation whose proof failed has a statement that holds.
      obtain ⟨hproofs, -⟩ := blindEvalLoop_proofs blake3 stark coins sk evals state [] [] hvoprf
        hrange hruns hloop
      obtain ⟨v, eval, hv, hproof⟩ := hproofs error rfl
      have hholds := OnlineStatement.holdsFor_eq_some_true.mpr (state.provedAt_holds (S := S) voprf
        blake3 sk (state.runs.ctr + tauFor v) (hrange eval (List.mem_of_getElem? hv)))
      obtain ⟨proof, hprove, -⟩ := OnlineAir.prove_of_complete hstark hholds (coins ([].length + v))
      unfold ServerState.proofAt at hproof
      rw [hprove] at hproof
      cases hproof

/-- A preprocessing in VOPRF mode gets to its end on both sides where τ fits, if Plonky3 proves what
holds. -/
theorem voprf_preprocessing (blake3 : Blake3) {build : Build} (hstark : stark.Complete)
    {sk : SecretKey} {pk : VerifiedKey S} (hpk : pk.pk = keyCommit sk) (tau : UInt64)
    (htau : H_ROWS ≤ tau.toNat) (hfits : build.Fits tau.toNat) (uid : Uid)
    (binary delta : BinaryOts) (coins : stark.Coins) :
    ∃ (cots : ClientOts) (sent : ServerMessages S stark) (server : ServerState)
      (client : ClientState S),
      clientOtsOf blake3 build binary delta tau.toNat = some cots ∧
      preprocServer blake3 build coins sk tau.toNat binary delta
        (clientHello stark uid tau.toNat true).toOption
        ((masksCommitments blake3 cots.ot_blocks (evaluationsFor tau.toNat)).map List.ofFn) =
          some (.ok (sent, server)) ∧
      preprocClient blake3 build (some pk) tau.toNat uid binary delta sent =
        some (.ok client) := by
  have hpos : 1 ≤ tau.toNat := by
    have h16 : 16 ≤ tau.toNat := htau
    omega
  have hallowed : TauAllowed tau.toNat true := ⟨hpos, fun _ => htau⟩
  obtain ⟨m, hm, -⟩ := requiredBinaryOtCount_of_fits hpos hfits
  obtain ⟨cots, sots, hcots, hsots⟩ := ots_exist blake3 binary delta hm
  have hots := otsMatched_of_fits hfits hcots hsots
  -- The statement holds, so it is proved and its proof is accepted.
  obtain ⟨proof, hprove, hverify⟩ := PreprocessingAir.prove_of_complete hstark
    (hots.honestStatement_holds htau S blake3 sk) coins
  obtain ⟨server, -, hserver⟩ := hots.preprocServerVoprf uid hprove
  obtain ⟨client, hclient⟩ := OtsMatched.preprocClientWith blake3 hpk htau hots uid proof
  rw [hverify] at hclient
  have hopening : clientOpening stark uid tau.toNat (some pk).isSome
      (honestMessages S blake3 sk tau.toNat cots sots proof).echoed = .ok ⟨uid, tau.toNat, true⟩ :=
    clientOpening_honest stark uid hallowed
  refine ⟨cots, honestMessages S blake3 sk tau.toNat cots sots proof, server, client, hcots, ?_, ?_⟩
  -- With the opening and the OTs over, what is left are the two parts above.
  · unfold preprocServer
    rw [serverOpening_honest stark uid hallowed]
    simp only [Option.bind_eq_bind, Option.bind_some, hsots, if_true, hserver]
    rfl
  · unfold preprocClient
    rw [hopening]
    simp only [Option.bind_eq_bind, hcots, Option.bind_some]
    exact hclient

/-- Two honest sides in step, in either mode: matching states of one mode that have spent as many
runs. -/
structure Aligned (blake3 : Blake3) (sk : SecretKey) (client : ClientState S) (server : ServerState) :
    Prop where
  matched : Matched client server sk
  ctr : server.runs.ctr = client.runs.ctr
  mode : (client.voprf = none ∧ server.voprf = none) ∨
    ∃ voprf voprf', InStep blake3 sk voprf voprf' (client, server)

namespace Aligned

variable {blake3 : Blake3} {sk : SecretKey} {client : ClientState S} {server : ServerState}

/-- The two sides are of one mode. -/
theorem isSome_eq (h : Aligned blake3 sk client server) :
    server.voprf.isSome = client.voprf.isSome := by
  rcases h.mode with ⟨hclient, hserver⟩ | ⟨voprf, voprf', hstep⟩
  · rw [hclient, hserver]
    rfl
  · rw [hstep.matched.client_voprf, hstep.matched.server_voprf]
    rfl

/-- As many runs are left on both sides. -/
theorem remaining_eq (h : Aligned blake3 sk client server) :
    server.runs.remaining = client.runs.remaining := by
  unfold Runs.remaining
  rw [h.ctr, h.matched.tau]

/-- A request that the client may make is built. -/
theorem request (h : Aligned blake3 sk client server) {tag : List UInt8}
    {inputs : List (List UInt8)} (haccepted : RequestAccepted client tag inputs) :
    ∃ client' req fin, requestBatch blake3 client tag inputs = some (client', .ok (req, fin)) := by
  have haligned : client.voprf.isSome → H_ROWS ∣ client.runs.ctr := by
    rcases h.mode with ⟨hclient, -⟩ | ⟨voprf, voprf', hstep⟩
    · rw [hclient]
      exact fun hfalse => (by cases hfalse)
    · exact fun _ => hstep.aligned
  exact haccepted.requestBatch blake3 haligned

/-- An answered batch leaves the two sides aligned. -/
theorem next (h : Aligned blake3 sk client server) {client' : ClientState S} {server' : ServerState}
    {tag : List UInt8} {inputs : List (List UInt8)} {req : RequestMessage} {fin : FinalizeState S}
    {coins : ℕ → stark.Coins} {rows : List RowResponse} {resp : ResponseMessage stark}
    (hrequest : requestBatch blake3 client tag inputs = some (client', .ok (req, fin)))
    (hanswer : blindEval S blake3 stark coins server sk req = some (server', rows, .ok resp)) :
    ServerState.Spent server server' (tauFor inputs.length) ∧ Aligned blake3 sk client' server' := by
  obtain ⟨haccepted, hclient, rfl, -⟩ := requestBatch_eq_ok hrequest
  have hlen := client.requestRows_length blake3 tag inputs client.runs.ctr
  obtain ⟨server₁, n, result, -, hserver, hcall, hok⟩ := blindEval_spec S blake3 stark coins server sk
    ⟨client.uid, tag, client.requestRows blake3 tag client.runs.ctr inputs⟩
  obtain ⟨rfl, hpair⟩ := Prod.mk.inj (Option.some.inj (hcall.symm.trans hanswer))
  obtain ⟨hn, -⟩ := hok resp (Prod.mk.inj hpair).2
  rw [hn, hlen] at hserver
  refine ⟨hserver, h.matched.spent hclient hserver, ?_, ?_⟩
  · rw [hserver.ctr, hclient.ctr, h.ctr]
  · rcases h.mode with ⟨hc, hs⟩ | ⟨voprf, voprf', hstep⟩
    · exact .inl ⟨hclient.voprf.trans hc, hserver.voprf.trans hs⟩
    · exact .inr ⟨voprf, voprf', hstep.exchanges ⟨tag, inputs, _, fin, coins, rows, resp, hrequest, hanswer⟩⟩

/-- The server accepts what the client requests. -/
theorem accepted (h : Aligned blake3 sk client server) {client' : ClientState S} {tag : List UInt8}
    {inputs : List (List UInt8)} {req : RequestMessage} {fin : FinalizeState S}
    (hrequest : requestBatch blake3 client tag inputs = some (client', .ok (req, fin))) :
    BlindEvalAccepted server req := by
  obtain ⟨haccepted, -, rfl, -⟩ := requestBatch_eq_ok hrequest
  exact h.matched.blindEvalAccepted blake3 haccepted h.ctr (by rw [h.isSome_eq]; exact id)

/-- A response to the client's request is finalized to the PRF's outputs. -/
theorem finalizeBatch (h : Aligned blake3 sk client server)
    (hstark : client.voprf.isSome → stark.Complete) {client' : ClientState S} {server' : ServerState}
    {tag : List UInt8} {inputs : List (List UInt8)} {req : RequestMessage} {fin : FinalizeState S}
    {coins : ℕ → stark.Coins} {rows : List RowResponse} {resp : ResponseMessage stark}
    (hrequest : requestBatch blake3 client tag inputs = some (client', .ok (req, fin)))
    (hanswer : blindEval S blake3 stark coins server sk req = some (server', rows, .ok resp)) :
    PoolOprf.finalizeBatch stark fin resp =
      some (.ok (inputs.map fun input => outputOf sk (hashToZqMatrix blake3 tag input))) := by
  obtain ⟨haccepted, -, rfl, statements, hstatements, rfl⟩ := requestBatch_eq_ok hrequest
  have hlen := client.requestRows_length blake3 tag inputs client.runs.ctr
  obtain ⟨server₁, n, result, -, -, hcall, hok⟩ := blindEval_spec S blake3 stark coins server sk
    ⟨client.uid, tag, client.requestRows blake3 tag client.runs.ctr inputs⟩
  obtain ⟨-, hpair⟩ := Prod.mk.inj (Option.some.inj (hcall.symm.trans hanswer))
  obtain ⟨-, -, huid, hrows⟩ := hok resp (Prod.mk.inj hpair).2
  -- The rows are on the runs of the request: that is what `h.ctr` is for.
  rw [h.ctr] at hrows
  have hbudget := client.runs.ctr_add_remaining
  have hruns := haccepted.runs_le
  have hfinlen := client.finalizeRows_length blake3 inputs.length client.runs.ctr
  refine finalizeBatch_eq_ok.mpr ⟨huid.trans h.matched.uid, ?_, ?_, fun statements' hst => ?_,
    h.matched.finalizeOutputs blake3 (by omega) rfl hrows⟩
  · rw [hrows, ServerState.answers_length, hlen]
    exact hfinlen.symm
  · change (client.finalizeRows blake3 client.runs.ctr inputs.length).length % H_ROWS = 0
    exact Nat.mod_eq_zero_of_dvd (hfinlen ▸ dvd_tauFor inputs.length)
  · rcases h.mode with ⟨hclient, -⟩ | ⟨voprf, voprf', hstep⟩
    · rw [hclient] at hst
      cases hst
    have hvoprf : client.voprf = some voprf := hstep.matched.client_voprf
    -- A VOPRF client has a proof to check for each evaluation.
    have hsome : client.voprf.isSome := by
      rw [hvoprf]
      rfl
    rw [hvoprf] at hst
    obtain rfl := Option.some.inj hst
    obtain ⟨hstlen, -⟩ := ClientState.requestStatements_getElem? hvoprf blake3 tag inputs _ _ hstatements
    obtain ⟨-, -, -, hprooflen, -⟩ :=
      blindEval_proofs (hstep.accepted haccepted) hstep.matched.server_voprf hanswer
    refine ⟨?_, verifyLoop_of_verifyOnline fun v statement rows' proof hv hrows' hproof => ?_⟩
    · rw [hprooflen, hstlen]
      change (client.requestRows blake3 tag client.runs.ctr inputs).length / H_ROWS = inputs.length
      rw [hlen, tauFor_div]
    · -- The statement that the client verifies is the one that the server proved.
      have hlt : v < inputs.length := by
        rw [← hstlen]
        exact (List.getElem?_eq_some_iff.mp hv).1
      obtain ⟨_, eval, rows₁, sums, statements₁, statement₁, proved, witness, -, -, -, -, hholds,
        hfin, hst₁, hagree, hall⟩ := hstep.evaluationAgrees hrequest coins hlt
      obtain ⟨hrows₁, proof₁, hproof₁, hprove⟩ := hall _ _ _ hanswer
      rw [hvoprf] at hfin
      obtain rfl := Option.some.inj hfin
      obtain rfl := Option.some.inj (hst₁.symm.trans hv)
      obtain rfl := Option.some.inj (hrows₁.symm.trans hrows')
      obtain rfl := Option.some.inj (hproof₁.symm.trans hproof)
      obtain ⟨proof₂, hprove₂, hverify⟩ :=
        OnlineAir.prove_of_complete (hstark hsome) hholds (coins v)
      obtain rfl := Except.ok.inj (Option.some.inj (hprove.symm.trans hprove₂))
      unfold verifyOnline
      rw [hagree]
      exact hverify

/-- A batch that the client may request is requested, answered, and finalized to the PRF's
outputs. -/
theorem answered (h : Aligned blake3 sk client server)
    (hstark : client.voprf.isSome → stark.Complete) {client' : ClientState S} {tag : List UInt8}
    {inputs : List (List UInt8)} {req : RequestMessage} {fin : FinalizeState S}
    (hrequest : requestBatch blake3 client tag inputs = some (client', .ok (req, fin)))
    (coins : ℕ → stark.Coins) :
    ∃ server' rows resp, blindEval S blake3 stark coins server sk req = some (server', rows, .ok resp) := by
  have haccepted := h.accepted hrequest
  cases hvoprf : client.voprf with
  | none =>
    have hserver : server.voprf = none := Option.not_isSome_iff_eq_none.mp (by
      rw [h.isSome_eq, hvoprf]
      exact Bool.false_ne_true)
    rcases blindEval_cases S blake3 stark coins server sk req with
      ⟨hrefused, -⟩ | ⟨-, server', n, result, -, -, hcall, -, hplain⟩
    · exact absurd haccepted hrefused
    · rw [hplain hserver] at hcall
      exact ⟨server', _, _, hcall⟩
  | some voprf =>
    exact blindEval_of_complete (hstark (by rw [hvoprf]; rfl)) blake3 coins sk haccepted

end Aligned

end PoolOprf
