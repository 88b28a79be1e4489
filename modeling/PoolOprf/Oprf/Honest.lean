import PoolOprf.Lib.Reachable
import PoolOprf.Oprf.Matching
import PoolOprf.Oprf.ServerProofs

/-!
# Honest parties of a VOPRF do not refuse each other

The two sides build every statement from what each has: the client from the commitments and the rows
that it keeps, the server from its keys, masks, and pads. Over one OT outcome (`OtsMatched`) the two
checks of commitments pass (`OtsMatched.masks_accepted`, `OtsMatched.pads_accepted`) and the two
preprocessing statements are one (`clientStatement_eq`). What the preprocessing leaves is
`VoprfMatched`. It does not depend on what is spent, and over it the two online statements of an
evaluation are one (`VoprfMatched.withResponse`). `no_false_rejection` puts these together over a
whole session.
-/

namespace PoolOprf

open Panic

variable {S : Permutations} {stark : Stark Val}

/-! ## The preprocessing -/

/-- `d` of the first evaluations, run by run. -/
def padsOf (S : Permutations) (delta_ot_blocks : List (Fin DELTA → Block)) (evaluations : ℕ) :
    List (PadsCommitments S) :=
  (delta_ot_blocks.take (tauFor evaluations)).map fun ot_blocks j => padCommitment (ot_blocks j)

/-- The messages with `d`, end to end, are `d` run by run. -/
theorem padsMessage_flatten (delta_ot_blocks : List (Fin DELTA → Block)) (evaluations : ℕ) :
    ((List.range evaluations).map (padsMessage delta_ot_blocks)).flatten =
      padsOf S delta_ot_blocks evaluations := by
  unfold padsOf tauFor
  induction evaluations with
  | zero => rw [List.range_zero, Nat.zero_mul, List.take_zero]; rfl
  | succ v ih =>
    rw [List.range_succ, List.map_append, List.flatten_append, ih, Nat.add_mul, Nat.one_mul,
      List.take_add, List.map_append, List.map_singleton, List.flatten_singleton]
    rfl

theorem padsOf_getElem? {delta_ot_blocks : List (Fin DELTA → Block)} {evaluations run : ℕ}
    {d : PadsCommitments S} (h : (padsOf S delta_ot_blocks evaluations)[run]? = some d) :
    ∃ ot_blocks, delta_ot_blocks[run]? = some ot_blocks ∧
      d = fun j => padCommitment (ot_blocks j) := by
  unfold padsOf at h
  rw [List.getElem?_map, List.getElem?_take] at h
  split_ifs at h
  · obtain ⟨ot_blocks, hblocks, rfl⟩ := Option.map_eq_some_iff.mp h
    exact ⟨ot_blocks, hblocks, rfl⟩
  · cases h

theorem padsOf_length {delta_ot_blocks : List (Fin DELTA → Block)} {evaluations : ℕ}
    (h : tauFor evaluations ≤ delta_ot_blocks.length) :
    (padsOf S delta_ot_blocks evaluations).length = tauFor evaluations := by
  unfold padsOf
  rw [List.length_map, List.length_take, min_eq_left h]

namespace OtsMatched

variable {client : ClientOts} {server : ServerOts} {tau : ℕ}

/-- The server accepts an honest client's `c`. -/
theorem masks_accepted (h : OtsMatched client server tau) (S : Permutations) (stark : Stark Val)
    (blake3 : Blake3) (evaluations : ℕ) :
    receiveMasksCommitments stark blake3 server.r_s evaluations
      ((masksCommitments (S := S) blake3 client.ot_blocks evaluations).map List.ofFn) =
        some (.ok (masksCommitments blake3 client.ot_blocks evaluations)) := by
  have hlen := masksCommitments_length (S := S) blake3 client.ot_blocks evaluations
  have hread : readMasksCommitments stark
      (masksCommitments (S := S) blake3 client.ot_blocks evaluations).length
      ((masksCommitments (S := S) blake3 client.ot_blocks evaluations).map List.ofFn) =
        some (.ok (masksCommitments blake3 client.ot_blocks evaluations)) :=
    readMasksCommitments_map (masksCommitments blake3 client.ot_blocks evaluations)
  refine receiveMasksCommitments_eq_ok.mpr ⟨?_, fun i => ?_⟩
  · rw [hlen] at hread
    exact hread
  · exact masksChecked_masksCommitments blake3 (h.ot_block i) evaluations

/-- An honest server's `d` of a run opens to the client's pad at the client's choice. -/
theorem padChecked (h : OtsMatched client server tau) {evaluations run : ℕ}
    (hle : tauFor evaluations ≤ tau) {d : PadsCommitments S}
    (hd : (padsOf S server.delta_ot_blocks evaluations)[run]? = some d) :
    PadChecked client run d := by
  have hlt := (List.getElem?_eq_some_iff.mp hd).1
  obtain ⟨ot_blocks, hblocks, rfl⟩ := padsOf_getElem? hd
  rw [padsOf_length (h.delta_length ▸ hle)] at hlt
  obtain ⟨choice, hchoice⟩ : ∃ choice, client.choices[run]? = some choice :=
    ⟨_, List.getElem?_eq_getElem (h.choices_length ▸ hlt.trans_le hle)⟩
  obtain ⟨row, ot_block, hrow, hblock, hindex⟩ := h.block run choice hchoice
  obtain rfl := Option.some.inj (hblocks.symm.trans hrow)
  refine ⟨choice, ot_block, hchoice, hblock, ?_⟩
  rw [index_of_lt _ choice.2] at hindex ⊢
  rw [← Option.some.inj hindex]

/-- The client accepts an honest server's `d`. -/
theorem pads_accepted (h : OtsMatched client server tau) (S : Permutations) (stark : Stark Val)
    {evaluations : ℕ} (hle : tauFor evaluations ≤ tau) :
    receivePadsCommitments stark client 0 evaluations
      ((List.range evaluations).map (padsMessage server.delta_ot_blocks)) =
        some (.ok (padsOf S server.delta_ot_blocks evaluations)) := by
  have hmessage : ∀ message ∈ (List.range evaluations).map
      (padsMessage (S := S) server.delta_ot_blocks), message.length = RUNS_PER_EVALUATION := by
    intro message hmem
    obtain ⟨v, hv, rfl⟩ := List.mem_map.mp hmem
    have hlt := List.mem_range.mp hv
    have hlen : server.delta_ot_blocks.length = tau := h.delta_length
    have hmul : (v + 1) * 16 ≤ evaluations * 16 := Nat.mul_le_mul_right 16 hlt
    have hle' : evaluations * 16 ≤ tau := hle
    -- The message of evaluation `v` has all its runs, as the server has `τ` blocks.
    have htake : 16 ≤ server.delta_ot_blocks.length - v * 16 := by omega
    unfold padsMessage
    rw [List.length_map, List.length_take, List.length_drop]
    exact min_eq_left htake
  have hflatten := padsMessage_flatten (S := S) server.delta_ot_blocks evaluations
  -- The client opens its own pad in each run.
  have haccept : receivePadsCommitments stark client 0
      ((List.range evaluations).map (padsMessage (S := S) server.delta_ot_blocks)).length
      ((List.range evaluations).map (padsMessage server.delta_ot_blocks)) =
        some (.ok ((List.range evaluations).map (padsMessage server.delta_ot_blocks)).flatten) :=
    receivePadsCommitments_of_checked client hmessage fun run d hd => by
      rw [hflatten] at hd
      rw [Nat.zero_mul, Nat.zero_add]
      exact h.padChecked hle hd
  rw [List.length_map, List.length_range, hflatten] at haccept
  exact haccept

end OtsMatched

/-- Commitments with the `m` of evaluations that have them are those evaluations. -/
theorem zipWith_m {C M W : Type} (m : W → M) :
    ∀ (c : List (Fin N → Fin 2 → C)) (evaluations : List W),
      c.zipWith (fun c m => (⟨c, m⟩ : EvaluationStatement C M))
        ((c.zipWith (fun c w => (⟨c, m w⟩ : EvaluationStatement C M)) evaluations).map
          EvaluationStatement.m) = c.zipWith (fun c w => ⟨c, m w⟩) evaluations
  | [], _ => rfl
  | _ :: _, [] => rfl
  | c_v :: c, w :: evaluations => by
    rw [List.zipWith_cons_cons, List.map_cons, List.zipWith_cons_cons, zipWith_m m c evaluations]

/-- With the server's key and its `m`, the client verifies the statement that the server proved. -/
theorem clientStatement_eq {pk : VerifiedKey S} {sk : SecretKey} (hpk : pk.pk = keyCommit sk)
    (blake3 : Blake3) (ots : ServerOts) (c : List (MasksCommitments S)) :
    clientStatement pk (maskedKeyBits sk ots.r_s) c
      ((provedStatement blake3 sk ots c).evaluations.map EvaluationStatement.m) =
        provedStatement blake3 sk ots c := by
  unfold clientStatement provedStatement PreprocessingStatement.honest
  rw [hpk, zipWith_m]
  rfl

/-! ## The online phase -/

/-- What the preprocessing of a VOPRF leaves on the two sides for a key: matching states; what the
client received commits to what the server keeps, evaluation by evaluation and run by run; and the
server's pads are those of the blocks that it keeps. -/
structure VoprfMatched (blake3 : Blake3) (client : ClientState S) (server : ServerState) (sk : SecretKey)
    (voprf : ClientVoprf S) (voprf' : ServerVoprf) : Prop extends Matched client server sk where
  client_voprf : client.voprf = some voprf
  server_voprf : server.voprf = some voprf'
  /-- The client's key is the server's. -/
  pk : voprf.pk.pk = keyCommit sk
  /-- `m^v` is of the mask sums of the runs of evaluation `v`, with the blocks of its first run. -/
  m : ∀ (v : ℕ) m, voprf.m[v]? = some m → m = maskSumCommit
    ⟨fun k => server.rSigmaSumAt blake3 sk (firstRun v + k),
      maskSumRandomness blake3 (voprf'.blocksAt (firstRun v))⟩
  /-- `d` of a run is of its blocks. -/
  d : ∀ (run : ℕ) d, voprf.d[run]? = some d → d = fun j => padCommitment (voprf'.blocksAt run j)
  /-- The pads of a run are those of its blocks. -/
  pads : ∀ run < server.runs.tau, server.padsAt run = fun j => rPrimeFromBlock (voprf'.blocksAt run j)

namespace VoprfMatched

variable {blake3 : Blake3} {client client' : ClientState S} {server server' : ServerState}
  {sk : SecretKey} {voprf : ClientVoprf S} {voprf' : ServerVoprf}

/-- States match whatever has been spent. -/
theorem spent (h : VoprfMatched blake3 client server sk voprf voprf') {n n' : ℕ}
    (hc : ClientState.Spent client client' n) (hs : ServerState.Spent server server' n') :
    VoprfMatched blake3 client' server' sk voprf voprf' where
  toMatched := h.toMatched.spent hc hs
  client_voprf := hc.voprf.trans h.client_voprf
  server_voprf := hs.voprf.trans h.server_voprf
  pk := h.pk
  m v m hm := by
    unfold ServerState.rSigmaSumAt ServerState.maskAt
    rw [hs.r_s]
    exact h.m v m hm
  d := h.d
  pads run hrun := by
    unfold ServerState.padsAt
    rw [hs.s_s]
    exact h.pads run (hs.tau ▸ hrun)

/-- The statement of an evaluation that the client has, with the response's `y`, is the one that the
server proves. -/
theorem withResponse (h : VoprfMatched blake3 client server sk voprf voprf') {ctr : ℕ}
    (haligned : H_ROWS ∣ ctr) (hle : ctr + H_ROWS ≤ server.runs.tau) (m : ZqMatrix)
    {statement : Online S}
    (hstatement : voprf.onlineStatement ctr (client.evaluationRows blake3 m ctr) = some statement) :
    PoolOprf.withResponse statement
        (server.answers blake3 sk ctr (client.evaluationRows blake3 m ctr)) =
      (server.provedAt S voprf' blake3 sk ctr fun k => client.rowRequest blake3 (m k) (ctr + k)).1 := by
  obtain ⟨hpk, hm, -⟩ := ClientVoprf.onlineStatement_eq_some hstatement
  -- The evaluation's place among the `m` gives its first run back.
  have hfirst : firstRun (ctr / RUNS_PER_EVALUATION) = ctr := Nat.div_mul_cancel haligned
  have hsum := h.m _ _ hm
  rw [hfirst] at hsum
  unfold PoolOprf.withResponse ServerState.provedAt OnlineStatement.ofWitness
  refine congr (congrArg₂ OnlineStatement.mk (hpk.trans h.pk) hsum) (funext fun k => ?_)
  obtain ⟨hd, he, hb⟩ := ClientVoprf.onlineStatement_request hstatement k
  have hk : k.val < 16 := k.isLt
  have hle' : ctr + 16 ≤ server.runs.tau := hle
  have hy : (server.rowResponse blake3 sk (client.rowRequest blake3 (m k) (ctr + k)) (ctr + k)).y =
      responseEntry (reduceQ (aSigmaNat sk (server.rSigmaSumAt blake3 sk (ctr + k))
        (client.rowRequest blake3 (m k) (ctr + k)).e))
        (fun j => rPrimeFromBlock (voprf'.blocksAt (ctr + k) j))
        (client.rowRequest blake3 (m k) (ctr + k)).b_bar_prime := by
    unfold ServerState.rowResponse
    rw [h.pads (ctr + k) (by omega)]
  rw [ServerState.answers_getElem?, client.evaluationRows_getElem? blake3 m ctr k, Option.map_some]
  exact congr (congr (congr (congrArg RunStatement.mk (h.d _ _ hd)) he) hb) hy

end VoprfMatched

/-! ## A run of the preprocessing -/

/-- The `m` of an evaluation. -/
theorem provedStatement_m {blake3 : Blake3} {sk : SecretKey} {ots : ServerOts}
    {c : List (MasksCommitments S)} {v : ℕ} {m : MaskSumCommitment S}
    (h : ((provedStatement blake3 sk ots c).evaluations.map EvaluationStatement.m)[v]? = some m) :
    m = maskSumCommit ⟨(evaluationWitnessAt blake3 sk ots v).r_sigma_sums,
      (evaluationWitnessAt blake3 sk ots v).m_randomness⟩ := by
  obtain ⟨statement, hstatement, rfl⟩ := Option.map_eq_some_iff.mp (List.getElem?_map ▸ h)
  obtain ⟨c_v, witness, -, hwitness, rfl⟩ := List.getElem?_zipWith_eq_some.mp hstatement
  obtain ⟨v', hv', rfl⟩ := Option.map_eq_some_iff.mp (List.getElem?_map ▸ hwitness)
  obtain ⟨hlt, rfl⟩ := List.getElem?_eq_some_iff.mp hv'
  rw [List.getElem_range]
  rfl

/-- The mask sums of an evaluation are those of its runs. -/
theorem evaluationWitnessAt_r_sigma_sums {state : ServerState} {ots : ServerOts} (h : state.r_s = ots.r_s)
    (blake3 : Blake3) (sk : SecretKey) (v : ℕ) : (evaluationWitnessAt blake3 sk ots v).r_sigma_sums =
      fun k : Fin RUNS_PER_EVALUATION => state.rSigmaSumAt blake3 sk (firstRun v + k) := by
  unfold evaluationWitnessAt ServerState.rSigmaSumAt ServerState.maskAt
  simp only [expand_apply, h]

/-- Their random value is of the blocks of its first run. -/
theorem evaluationWitnessAt_m_randomness (blake3 : Blake3) (sk : SecretKey) (ots : ServerOts) (v : ℕ) :
    (evaluationWitnessAt blake3 sk ots v).m_randomness =
      maskSumRandomness blake3 (ServerVoprf.blocksAt ⟨ots.delta_ot_blocks⟩ (firstRun v)) := rfl

theorem provedStatement_m_length (blake3 : Blake3) (sk : SecretKey) (ots : ServerOts)
    (c : List (MasksCommitments S)) :
    ((provedStatement blake3 sk ots c).evaluations.map EvaluationStatement.m).length = c.length := by
  unfold provedStatement PreprocessingStatement.honest serverWitness
  rw [List.length_map, List.length_zipWith, List.length_map, List.length_range, min_self]

/-- The statement of a preprocessing of honest parties. -/
def honestStatement (S : Permutations) (blake3 : Blake3) (sk : SecretKey) (client : ClientOts)
    (server : ServerOts) (evaluations : ℕ) : Preprocessing S :=
  provedStatement blake3 sk server (masksCommitments blake3 client.ot_blocks evaluations)

/-- What an honest server sends after its opening: its τ, `d`, `b̄`, the `m`, and a proof. -/
def honestMessages (S : Permutations) {stark : Stark Val} (blake3 : Blake3) (sk : SecretKey) (tau : ℕ)
    (client : ClientOts) (server : ServerOts) (proof : stark.Proof) : ServerMessages S stark where
  echoed := some (encodeTau tau)
  pads := (List.range (evaluationsFor tau)).map (padsMessage server.delta_ot_blocks)
  bhat := some (List.ofFn (maskedKeyBits sk server.r_s))
  proof := some ⟨(honestStatement S blake3 sk client server (evaluationsFor tau)).evaluations.map
    EvaluationStatement.m, proof⟩

/-- The client's end of the preprocessing is its verifier's. -/
theorem finish_of_length {pk : VerifiedKey S} {c : List (MasksCommitments S)}
    {d : List (PadsCommitments S)} {b_bar : Fin N → UInt8} {m : List (MaskSumCommitment S)}
    {proof : stark.Proof} (h : m.length = c.length) :
    finish pk c d b_bar (some ⟨m, proof⟩) =
      match PreprocessingAir.verify stark (clientStatement pk b_bar c m) proof with
      | .error error => .error (.Verify error)
      | .ok () => .ok ⟨pk, m, d⟩ := by
  unfold finish
  dsimp only
  rw [if_neg (not_not.mpr h)]
  cases PreprocessingAir.verify stark (clientStatement pk b_bar c m) proof with
  | error error => rfl
  | ok => rfl

section Run

variable {blake3 : Blake3} {sk : SecretKey} {client : ClientOts} {server : ServerOts} {tau : ℕ}

/-- The server's messages before its proof. -/
theorem OtsMatched.preprocServerMessages (h : OtsMatched client server tau) (S : Permutations)
    (stark : Stark Val) (blake3 : Blake3) (sk : SecretKey) :
    PoolOprf.preprocServerMessages stark blake3 sk tau server
        ((masksCommitments (S := S) blake3 client.ot_blocks (evaluationsFor tau)).map List.ofFn) =
      some (.ok (masksCommitments blake3 client.ot_blocks (evaluationsFor tau),
        (List.range (evaluationsFor tau)).map (padsMessage server.delta_ot_blocks),
        maskedKeyBits sk server.r_s)) := by
  refine preprocServerMessages_eq_ok.mpr ⟨h.masks_accepted S stark blake3 _, ?_, rfl⟩
  exact padsCommitments_of_le (h.delta_length ▸ tauFor_evaluationsFor_le tau)

/-- The server's preprocessing ends as its prover does. -/
theorem OtsMatched.preprocServerVoprf (h : OtsMatched client server tau) {coins : stark.Coins} (uid : Uid)
    {result : Except (ProveError stark) stark.Proof}
    (hprove : PreprocessingAir.prove stark coins
      (honestStatement S blake3 sk client server (evaluationsFor tau))
      (serverWitness blake3 sk server (evaluationsFor tau)) = some result) :
    ∃ state, ServerState.new server.r_s (serverPads server) uid (some ⟨server.delta_ot_blocks⟩) =
        some state ∧
      PoolOprf.preprocServerVoprf blake3 coins sk tau uid server
          ((masksCommitments (S := S) blake3 client.ot_blocks (evaluationsFor tau)).map List.ofFn) =
        match result with
        | .error error => some (.error (.Prove error))
        | .ok proof => some (.ok ((List.range (evaluationsFor tau)).map
            (padsMessage server.delta_ot_blocks), maskedKeyBits sk server.r_s,
            ⟨(honestStatement S blake3 sk client server (evaluationsFor tau)).evaluations.map
              EvaluationStatement.m, proof⟩, state)) := by
  obtain ⟨state, hnew⟩ : ∃ state, ServerState.new server.r_s (serverPads server) uid
      (some ⟨server.delta_ot_blocks⟩) = some state := by
    refine ⟨_, dif_pos fun voprf hvoprf => ?_⟩
    obtain rfl := Option.some.inj hvoprf
    unfold serverPads
    rw [List.length_map]
  refine ⟨state, hnew, ?_⟩
  have hlen := masksCommitments_length (S := S) blake3 client.ot_blocks (evaluationsFor tau)
  -- The statement over the client's `c` is the honest one.
  have hstatement : serverStatement blake3 sk server (maskedKeyBits sk server.r_s)
      (masksCommitments blake3 client.ot_blocks (evaluationsFor tau)) =
        some (honestStatement S blake3 sk client server (evaluationsFor tau), serverWitness blake3 sk
          server (masksCommitments (S := S) blake3 client.ot_blocks (evaluationsFor tau)).length) :=
    serverStatement_eq (by rw [hlen, h.delta_length]; exact tauFor_evaluationsFor_le tau) blake3 sk
  rw [hlen] at hstatement
  unfold PoolOprf.preprocServerVoprf proveServer
  rw [h.preprocServerMessages S stark blake3 sk]
  simp only [Option.bind_eq_bind, Option.bind_some, hstatement, hprove]
  cases result with
  | error error => rfl
  | ok proof => simp only [Option.bind_some, hnew]

/-- And the client's as its verifier does, on the statement that the server proved. -/
theorem OtsMatched.preprocClientWith (blake3 : Blake3) {pk : VerifiedKey S}
    (hpk : pk.pk = keyCommit sk) {tau : UInt64} (htau : H_ROWS ≤ tau.toNat)
    (h : OtsMatched client server tau.toNat) (uid : Uid) (proof : stark.Proof) :
    ∃ state, PoolOprf.preprocClientWith blake3 (some pk) tau.toNat uid client
        (honestMessages S blake3 sk tau.toNat client server proof) =
      match PreprocessingAir.verify stark
        (honestStatement S blake3 sk client server (evaluationsFor tau.toNat)) proof with
      | .error error => some (.error (.Verify error))
      | .ok () => some (.ok state) := by
  have hpos : 1 ≤ tau.toNat := by
    have h16 : 16 ≤ tau.toNat := htau
    omega
  -- The opening: the echo is the client's own τ.
  have hopened : clientOpening stark uid tau.toNat (some pk).isSome
      (honestMessages S blake3 sk tau.toNat client server proof).echoed =
        .ok ⟨uid, tau.toNat, true⟩ := clientOpening_honest stark uid ⟨hpos, fun _ => htau⟩
  have hle := tauFor_evaluationsFor_le tau.toNat
  have hlen := masksCommitments_length (S := S) blake3 client.ot_blocks (evaluationsFor tau.toNat)
  have hr_c : (rcEntries client).length = tau.toNat := h.rcEntries_length
  have hd : (padsOf S server.delta_ot_blocks (evaluationsFor tau.toNat)).length =
      tauFor (evaluationsFor tau.toNat) := padsOf_length (by rw [h.delta_length]; exact hle)
  have hm := provedStatement_m_length (S := S) blake3 sk server
    (masksCommitments blake3 client.ot_blocks (evaluationsFor tau.toNat))
  rw [hlen] at hm
  -- A state can be built: one `m` for each evaluation, and one `d` for each of their runs.
  obtain ⟨state, hnew⟩ : ∃ state, ClientState.new client.ot_blocks (maskedKeyBits sk server.r_s)
      (rcEntries client) uid (some ⟨pk, (honestStatement S blake3 sk client server
        (evaluationsFor tau.toNat)).evaluations.map EvaluationStatement.m,
        padsOf S server.delta_ot_blocks (evaluationsFor tau.toNat)⟩) = some state := by
    refine ⟨_, dif_pos ⟨maskedKeyBits_le sk server.r_s, fun voprf hvoprf => ?_, fun voprf hvoprf => ?_⟩⟩
    · obtain rfl := Option.some.inj hvoprf
      rw [hr_c]
      exact hm
    · obtain rfl := Option.some.inj hvoprf
      rw [hr_c]
      exact hd
  refine ⟨state, ?_⟩
  -- Every check before the proof passes.
  have hread : (fromFn fun i : Fin N => (List.ofFn (maskedKeyBits sk server.r_s))[i.val]?) =
      some (maskedKeyBits sk server.r_s) := fromFn_ofFn (maskedKeyBits sk server.r_s)
  have hall := all_le_one_ofFn (maskedKeyBits_le sk server.r_s)
  have hpads : receivePadsCommitments stark client 0 (evaluationsFor tau.toNat)
      (honestMessages S blake3 sk tau.toNat client server proof).pads =
        some (.ok (padsOf S server.delta_ot_blocks (evaluationsFor tau.toNat))) :=
    h.pads_accepted S stark hle
  rw [preprocClientWith_of_opened hopened,
    if_pos (Option.isSome_some : (some pk).isSome = true), hpads, Option.bind_some]
  unfold clientEnd honestMessages
  unfold honestStatement at hnew ⊢
  dsimp only
  rw [if_neg (not_not.mpr List.length_ofFn), if_neg (not_not.mpr hall), hread, Option.bind_eq_bind,
    Option.bind_some, finish_of_length (hm.trans hlen.symm), clientStatement_eq hpk]
  cases PreprocessingAir.verify stark (provedStatement blake3 sk server
    (masksCommitments (S := S) blake3 client.ot_blocks (evaluationsFor tau.toNat))) proof with
  | error error => rfl
  | ok =>
    dsimp only
    rw [Option.bind_eq_bind, hnew, Option.bind_some]

end Run

/-- One batch that the client requests and the server answers. -/
def Exchanges (S : Permutations) (blake3 : Blake3) (stark : Stark Val) (sk : SecretKey)
    (states states' : ClientState S × ServerState) : Prop :=
  ∃ tag inputs req fin coins rows resp,
    requestBatch blake3 states.1 tag inputs = some (states'.1, .ok (req, fin)) ∧
      blindEval S blake3 stark coins states.2 sk req = some (states'.2, rows, .ok resp)

/-- Evaluation `v` of a request: the statement that the client has of it, with the rows of the
response, is the one that the server proves, which holds for the server's witness; and a response
has those rows and a proof of that statement. -/
def EvaluationAgrees (blake3 : Blake3) (stark : Stark Val) (coins : ℕ → stark.Coins) (sk : SecretKey)
    (server : ServerState) (req : RequestMessage) (fin : FinalizeState S) (v : ℕ) : Prop :=
  ∃ voprf eval rows r_sigma_sums statements statement proved witness,
    server.voprf = some voprf ∧ (chunksExact H_ROWS req.rows)[v]? = some eval ∧
    blindEvalOne blake3 server sk eval (server.runs.ctr + tauFor v) = some (rows, r_sigma_sums) ∧
    voprf.onlineStatement S blake3 sk (server.runs.ctr + tauFor v) eval r_sigma_sums =
      some (proved, witness) ∧
    proved.holdsFor witness = some true ∧
    fin.voprf = some statements ∧ statements[v]? = some statement ∧
    withResponse statement rows = proved ∧
    ∀ server' rows' resp,
      blindEval S blake3 stark coins server sk req = some (server', rows', .ok resp) →
      (chunksExact H_ROWS resp.rows)[v]? = some rows ∧ ∃ proof, resp.proofs[v]? = some proof ∧
        OnlineAir.prove stark (coins v) proved witness = some (.ok proof)

/-- The two sides after some batches: matching states that have spent as many runs, of whole
evaluations. -/
structure InStep (blake3 : Blake3) (sk : SecretKey) (voprf : ClientVoprf S) (voprf' : ServerVoprf)
    (states : ClientState S × ServerState) : Prop where
  matched : VoprfMatched blake3 states.1 states.2 sk voprf voprf'
  ctr : states.2.runs.ctr = states.1.runs.ctr
  aligned : H_ROWS ∣ states.1.runs.ctr

namespace InStep

variable {blake3 : Blake3} {sk : SecretKey} {voprf : ClientVoprf S} {voprf' : ServerVoprf}
  {states states' : ClientState S × ServerState}

/-- The server accepts what the client requests. -/
theorem accepted (h : InStep blake3 sk voprf voprf' states) {tag : List UInt8}
    {inputs : List (List UInt8)} (haccepted : RequestAccepted states.1 tag inputs) :
    BlindEvalAccepted states.2 ⟨states.1.uid, tag,
      states.1.requestRows blake3 tag states.1.runs.ctr inputs⟩ :=
  h.matched.toMatched.blindEvalAccepted blake3 haccepted h.ctr fun _ => by
    rw [h.matched.client_voprf]
    rfl

/-- A batch leaves the two sides in step. -/
theorem exchanges (h : InStep blake3 sk voprf voprf' states)
    (hstep : Exchanges S blake3 stark sk states states') :
    InStep blake3 sk voprf voprf' states' := by
  obtain ⟨tag, inputs, req, fin, coins, rows, resp, hrequest, hanswer⟩ := hstep
  obtain ⟨haccepted, hclient, rfl, -⟩ := requestBatch_eq_ok hrequest
  obtain ⟨hserver, -⟩ := blindEval_proofs (h.accepted haccepted) h.matched.server_voprf hanswer
  have hlen := states.1.requestRows_length blake3 tag inputs states.1.runs.ctr
  change ServerState.Spent _ _ (states.1.requestRows blake3 tag states.1.runs.ctr inputs).length at hserver
  rw [hlen] at hserver
  refine ⟨h.matched.spent hclient hserver, ?_, ?_⟩
  · rw [hserver.ctr, hclient.ctr, h.ctr]
  · rw [hclient.ctr]
    exact h.aligned.add (dvd_tauFor inputs.length)

/-- The statements of each evaluation of a batch agree. -/
theorem evaluationAgrees (h : InStep blake3 sk voprf voprf' states) {client' : ClientState S}
    {tag : List UInt8} {inputs : List (List UInt8)} {req : RequestMessage} {fin : FinalizeState S}
    (hrequest : requestBatch blake3 states.1 tag inputs = some (client', .ok (req, fin)))
    (coins : ℕ → stark.Coins) {v : ℕ} (hv : v < inputs.length) :
    EvaluationAgrees blake3 stark coins sk states.2 req fin v := by
  obtain ⟨haccepted, -, rfl, statements, hstatements, rfl⟩ := requestBatch_eq_ok hrequest
  obtain ⟨input, hinput⟩ : ∃ input, inputs[v]? = some input := ⟨_, List.getElem?_eq_getElem hv⟩
  obtain ⟨-, hall⟩ := ClientState.requestStatements_getElem? h.matched.client_voprf blake3 tag inputs
    states.1.runs.ctr statements hstatements
  obtain ⟨statement, hstatement, honline⟩ := hall v input hinput
  have hchunk := states.1.requestRows_chunk blake3 tag inputs states.1.runs.ctr v input hinput
  have hrun : states.1.runs.ctr + tauFor v = states.2.runs.ctr + tauFor v := by rw [h.ctr]
  rw [hrun] at honline hchunk
  -- The evaluation's runs exist on both sides.
  have hle : states.2.runs.ctr + tauFor v + H_ROWS ≤ states.2.runs.tau := by
    have hruns : inputs.length * 16 ≤ states.1.runs.remaining := haccepted.runs_le
    have hbudget := states.1.runs.ctr_add_remaining
    have hmul : (v + 1) * 16 ≤ inputs.length * 16 := Nat.mul_le_mul_right 16 hv
    rw [h.ctr, h.matched.toMatched.tau]
    change states.1.runs.ctr + v * 16 + 16 ≤ states.1.runs.tau
    omega
  have haligned : H_ROWS ∣ states.2.runs.ctr + tauFor v :=
    (h.ctr ▸ h.aligned).add (dvd_tauFor v)
  have hrange : ∀ k : Fin H_ROWS, (states.1.rowRequest blake3 (hashToZqMatrix blake3 tag input k)
      (states.2.runs.ctr + tauFor v + k)).InRange := fun k =>
    ⟨states.1.rowRequest_e_lt blake3 _ _, states.1.rowRequest_b_bar_prime_lt blake3 _ _⟩
  have hdelta := states.2.delta_length voprf' h.matched.server_voprf
  refine ⟨voprf', _, _, _, statements, statement, _, _, h.matched.server_voprf, hchunk,
    blindEvalOne_of_le blake3 sk hrange hle,
    ServerVoprf.onlineStatement_of_le (by omega) (fun k => (hrange k).b_bar_prime) blake3 sk _,
    OnlineStatement.holdsFor_eq_some_true.mpr (states.2.provedAt_holds voprf' blake3 sk
      (states.2.runs.ctr + tauFor v) hrange), ?_, hstatement,
    h.matched.withResponse haligned hle (hashToZqMatrix blake3 tag input) honline,
    fun server' rows' resp hresp => ?_⟩
  · rw [h.matched.client_voprf]
    rfl
  · obtain ⟨-, -, hrows, -, hproofs⟩ :=
      blindEval_proofs (h.accepted haccepted) h.matched.server_voprf hresp
    obtain ⟨proof, hproof, hprove⟩ := hproofs v _ hchunk
    refine ⟨?_, proof, hproof, hprove⟩
    rw [hrows]
    exact states.2.answers_chunk blake3 sk _ _ hchunk

end InStep

/-! ## A whole session -/

/-- The `m` that the server sends are those of the statement that it proves. -/
theorem proveServer_m {blake3 : Blake3} {coins : stark.Coins} {sk : SecretKey} {ots : ServerOts}
    {c : List (MasksCommitments S)} (hle : tauFor c.length ≤ ots.delta_ot_blocks.length)
    {proof : PreprocessingProof S stark} {voprf : ServerVoprf}
    (h : proveServer blake3 coins sk ots (maskedKeyBits sk ots.r_s) c = some (.ok (proof, voprf))) :
    proof.m = (provedStatement blake3 sk ots c).evaluations.map EvaluationStatement.m := by
  unfold proveServer at h
  rw [serverStatement_eq hle, Option.bind_eq_bind, Option.bind_some] at h
  obtain ⟨result, -, h⟩ := Option.bind_eq_some_iff.mp h
  cases result with
  | error error => cases h
  | ok proof' =>
    cases h
    rfl

/-- The two sides of a VOPRF are in step when their preprocessing ends, over the same OTs and the
client with what the server sent. -/
theorem inStep_of_established {blake3 : Blake3} {sk : SecretKey} {pk : VerifiedKey S}
    (hpk : pk.pk = keyCommit sk) {client : ClientOts} {server : ServerOts} {tau : ℕ}
    (h : OtsMatched client server tau) {coins : stark.Coins} {uid : Uid} {opened : Opened}
    {masks : List (MasksMessage S)} {sent : ServerMessages S stark} {state : ClientState S}
    {state' : ServerState} (hclient : ClientEstablished blake3 (some pk) tau uid client sent state)
    (hserver : ServerEstablished S blake3 coins sk tau opened server masks sent state')
    (huid : opened.uid = uid) (hmode : opened.voprf = true) :
    ∃ voprf, InStep blake3 sk voprf ⟨server.delta_ot_blocks⟩ (state, state') := by
  have hle := tauFor_evaluationsFor_le tau
  obtain ⟨hvoprf', c, proof, hreceive, hpads, hproof, hprove⟩ := hserver.voprf hmode
  obtain ⟨voprf, hvoprf, hreceived⟩ := hclient.voprf pk rfl
  have hmatched : Matched state state' sk := matched_of_established h hclient hserver huid
  -- What the client received is what the server sent.
  have hd : voprf.d = padsOf S server.delta_ot_blocks (evaluationsFor tau) := by
    rw [padsCommitments_of_le (by rw [h.delta_length]; exact hle), Option.some.injEq] at hpads
    have haccepted := hreceived.pads
    rw [← hpads, h.pads_accepted S stark hle] at haccepted
    exact (Except.ok.inj (Option.some.inj haccepted)).symm
  have hm : voprf.m = (provedStatement blake3 sk server c).evaluations.map EvaluationStatement.m := by
    obtain ⟨proof', hproof', -⟩ := hreceived.proof
    have hlen : c.length = evaluationsFor tau :=
      readMasksCommitments_length (receiveMasksCommitments_eq_ok.mp hreceive).1
    rw [hproof, Option.some.injEq] at hproof'
    rw [← proveServer_m (by rw [hlen, h.delta_length]; exact hle) hprove, hproof']
  -- What an exchange needs besides, run by run: the mask sums, the commitments to the pads and the
  -- pads.
  refine ⟨voprf, ⟨hmatched, hvoprf, hvoprf', hreceived.pk_eq ▸ hpk, fun v m hv => ?_,
    fun run d hrun => ?_, fun run hrun => ?_⟩, ?_, ?_⟩
  · rw [hm] at hv
    rw [provedStatement_m hv, evaluationWitnessAt_r_sigma_sums hserver.r_s, evaluationWitnessAt_m_randomness]
  · rw [hd] at hrun
    obtain ⟨ot_blocks, hblocks, rfl⟩ := padsOf_getElem? hrun
    unfold ServerVoprf.blocksAt
    rw [List.getD_eq_getElem?_getD, hblocks, Option.getD_some]
  · have hlt : run < server.delta_ot_blocks.length := by
      rw [hserver.runs] at hrun
      unfold serverPads at hrun
      rwa [List.length_map] at hrun
    unfold ServerState.padsAt ServerVoprf.blocksAt
    rw [hserver.s_s, serverPads, List.getD_eq_getElem?_getD, List.getElem?_map,
      List.getElem?_eq_getElem hlt, List.getD_eq_getElem?_getD, List.getElem?_eq_getElem hlt]
    rfl
  · rw [hserver.runs, hclient.runs]
    rfl
  · rw [hclient.runs]
    exact Nat.dvd_zero H_ROWS

/-- Honest parties are in step when their preprocessing ends. -/
theorem OtsMatched.inStep {blake3 : Blake3} {sk : SecretKey} {pk : VerifiedKey S}
    (hpk : pk.pk = keyCommit sk) {client : ClientOts} {server : ServerOts} {tau : ℕ}
    (h : OtsMatched client server tau) {coins : stark.Coins} {uid : Uid} {masks : List (MasksMessage S)}
    {b_bar : Fin N → UInt8} {proof : stark.Proof} {state : ClientState S} {state' : ServerState}
    (hserver : PoolOprf.preprocServerVoprf blake3 coins sk tau uid server masks =
      some (.ok ((List.range (evaluationsFor tau)).map (padsMessage server.delta_ot_blocks), b_bar,
        ⟨(honestStatement S blake3 sk client server (evaluationsFor tau)).evaluations.map
          EvaluationStatement.m, proof⟩, state')))
    (hclient : PoolOprf.preprocClientWith blake3 (some pk) tau uid client
      (honestMessages S blake3 sk tau client server proof) = some (.ok state)) :
    ∃ voprf, InStep blake3 sk voprf ⟨server.delta_ot_blocks⟩ (state, state') := by
  obtain ⟨c, hreceive, hpads, -, hprove, hnew⟩ := preprocServerVoprf_eq_ok hserver
  obtain ⟨hr_s, hs_s, huid, hruns, hvoprf'⟩ := ServerState.new_eq_some hnew
  have hsent : ServerEstablished S blake3 coins sk tau ⟨uid, tau, true⟩ server masks
      (honestMessages S blake3 sk tau client server proof) state' :=
    ⟨hr_s, hs_s, huid, hruns, rfl, fun hfalse => (by cases hfalse),
      fun _ => ⟨hvoprf', c, _, hreceive, hpads, rfl, hprove⟩⟩
  exact inStep_of_established hpk h (preprocClientWith_eq_ok hclient) hsent rfl rfl

/-- The statement of honest parties holds for the server's witness. -/
theorem OtsMatched.honestStatement_holds {client : ClientOts} {server : ServerOts} {tau : ℕ}
    (h : OtsMatched client server tau) (htau : H_ROWS ≤ tau) (S : Permutations) (blake3 : Blake3)
    (sk : SecretKey) :
    (honestStatement S blake3 sk client server (evaluationsFor tau)).holdsFor
      (serverWitness blake3 sk server (evaluationsFor tau)) = some true := by
  have hlen := masksCommitments_length (S := S) blake3 client.ot_blocks (evaluationsFor tau)
  have hne : masksCommitments (S := S) blake3 client.ot_blocks (evaluationsFor tau) ≠ [] := by
    have hpos : 0 < evaluationsFor tau := Nat.div_pos htau (by norm_num)
    rw [← hlen] at hpos
    exact List.ne_nil_of_length_pos hpos
  have hholds := serverStatement_holds sk hne fun i =>
    masksChecked_masksCommitments blake3 (h.ot_block i) (evaluationsFor tau)
  rw [hlen] at hholds
  exact PreprocessingStatement.holdsFor_eq_some_true.mpr hholds

/-- A prover of a statement that holds fails only where Plonky3's does. -/
theorem prove_of_holdsFor {statement : Preprocessing S} {witness : PreprocessingWitness}
    (h : statement.holdsFor witness = some true) (coins : stark.Coins) :
    (∃ error, PreprocessingAir.prove stark coins statement witness = some (.error (.Prover error))) ∨
      ∃ proof, PreprocessingAir.prove stark coins statement witness = some (.ok proof) := by
  rcases PreprocessingAir.prove_cases stark coins statement witness with
    ⟨hfalse, -⟩ | ⟨table, -, -, hprove⟩
  · rw [h] at hfalse
    cases hfalse
  · rw [hprove]
    cases stark.prove coins (PreprocessingAir.air S (PreprocessingAir.new statement)) table
      (PreprocessingAir.new statement).public_values with
    | error error => exact .inl ⟨error, rfl⟩
    | ok proof => exact .inr ⟨proof, rfl⟩

/-- No false rejection between honest parties of a VOPRF. Whatever the key, τ of at least one
evaluation, and the OTs are: the server's check of `c` and the client's of `d` pass, and the
statement that the client verifies is the one that the server proved, which holds for its witness,
so that only Plonky3 itself can end the preprocessing early. After any batches that were requested
and answered in order, the server accepts whatever the client requests next, and for each of its
evaluations the statement that the client verifies is the one that the server proves, which holds
for its witness. -/
theorem no_false_rejection (blake3 : Blake3) (stark : Stark Val) (sk : SecretKey) {pk : VerifiedKey S}
    (hpk : pk.pk = keyCommit sk) {tau : UInt64} (htau : H_ROWS ≤ tau.toNat) {client : ClientOts}
    {server : ServerOts} (hots : OtsMatched client server tau.toNat) (uid : Uid) :
    ∃ (c : List (MasksCommitments S)) (d : List (PadsMessage S)) (b_bar : Fin N → UInt8)
      (statement : Preprocessing S) (witness : PreprocessingWitness),
      c = masksCommitments blake3 client.ot_blocks (evaluationsFor tau.toNat) ∧
      preprocServerMessages stark blake3 sk tau.toNat server (c.map List.ofFn) =
        some (.ok (c, d, b_bar)) ∧
      receivePadsCommitments stark client 0 (evaluationsFor tau.toNat) d = some (.ok d.flatten) ∧
      d.flatten.length = tauFor (evaluationsFor tau.toNat) ∧
      serverStatement blake3 sk server b_bar c = some (statement, witness) ∧
      statement.holdsFor witness = some true ∧
      clientStatement pk b_bar c (statement.evaluations.map EvaluationStatement.m) = statement ∧
      ∀ coins : stark.Coins,
        (∃ error, PreprocessingAir.prove stark coins statement witness =
            some (.error (.Prover error)) ∧
          preprocServerVoprf blake3 coins sk tau.toNat uid server (c.map List.ofFn) =
            some (.error (.Prove (.Prover error)))) ∨
        ∃ proof state' result, PreprocessingAir.prove stark coins statement witness = some (.ok proof) ∧
          preprocServerVoprf blake3 coins sk tau.toNat uid server (c.map List.ofFn) =
            some (.ok (d, b_bar, ⟨statement.evaluations.map EvaluationStatement.m, proof⟩, state')) ∧
          preprocClientWith blake3 (some pk) tau.toNat uid client ⟨some (encodeTau tau.toNat), d,
            some (List.ofFn b_bar), some ⟨statement.evaluations.map EvaluationStatement.m, proof⟩⟩ =
              some result ∧
          ((∃ error, PreprocessingAir.verify stark statement proof = .error error ∧
              result = .error (.Verify error)) ∨
            ∃ state, PreprocessingAir.verify stark statement proof = .ok () ∧ result = .ok state ∧
              ∀ states, Reachable (Exchanges S blake3 stark sk) (state, state') states →
              ∀ tag inputs client' req fin,
              requestBatch blake3 states.1 tag inputs = some (client', .ok (req, fin)) →
              ∀ coins : ℕ → stark.Coins,
                (∃ server' rows answer,
                  blindEval S blake3 stark coins states.2 sk req = some (server', rows, answer) ∧
                  ((∃ resp, answer = .ok resp) ∨ ∃ error, answer = .error (.Prove (.Prover error)))) ∧
                ∀ v < inputs.length, EvaluationAgrees blake3 stark coins sk states.2 req fin v) := by
  have hle := tauFor_evaluationsFor_le tau.toNat
  have hlen := masksCommitments_length (S := S) blake3 client.ot_blocks (evaluationsFor tau.toNat)
  have hflatten := padsMessage_flatten (S := S) server.delta_ot_blocks (evaluationsFor tau.toNat)
  have hstatement : serverStatement blake3 sk server (maskedKeyBits sk server.r_s)
      (masksCommitments blake3 client.ot_blocks (evaluationsFor tau.toNat)) =
        some (honestStatement S blake3 sk client server (evaluationsFor tau.toNat), serverWitness blake3
          sk server (masksCommitments (S := S) blake3 client.ot_blocks (evaluationsFor tau.toNat)).length) :=
    serverStatement_eq (by rw [hlen, hots.delta_length]; exact hle) blake3 sk
  rw [hlen] at hstatement
  refine ⟨_, _, _, honestStatement S blake3 sk client server (evaluationsFor tau.toNat), _, rfl,
    hots.preprocServerMessages S stark blake3 sk, ?_, ?_, hstatement, ?_,
    clientStatement_eq hpk blake3 server _, fun coins => ?_⟩
  · rw [hflatten]
    exact hots.pads_accepted S stark hle
  · rw [hflatten]
    exact padsOf_length (by rw [hots.delta_length]; exact hle)
  · exact hots.honestStatement_holds htau S blake3 sk
  · rcases prove_of_holdsFor (hots.honestStatement_holds htau S blake3 sk) coins with
      ⟨error, hprove⟩ | ⟨proof, hprove⟩
    · obtain ⟨state', -, hserver⟩ := hots.preprocServerVoprf uid hprove
      exact .inl ⟨error, hprove, hserver⟩
    -- The proof exists; whether it is accepted is the verifier's.
    obtain ⟨state', -, hserver⟩ := hots.preprocServerVoprf uid hprove
    obtain ⟨state, hclient⟩ := OtsMatched.preprocClientWith blake3 hpk htau hots uid proof
    refine .inr ⟨proof, state', ?_⟩
    cases hverify : PreprocessingAir.verify stark
      (honestStatement S blake3 sk client server (evaluationsFor tau.toNat)) proof with
    | error error =>
      rw [hverify] at hclient
      exact ⟨_, hprove, hserver, hclient, .inl ⟨error, rfl, rfl⟩⟩
    | ok =>
      rw [hverify] at hclient
      refine ⟨_, hprove, hserver, hclient, .inr ⟨state, rfl, rfl, ?_⟩⟩
      intro states hreach tag inputs client' req fin hrequest coins
      -- Over any batches that were answered, the two sides stay in step.
      obtain ⟨voprf, hstart⟩ := hots.inStep hpk hserver hclient
      have hstep : InStep blake3 sk voprf ⟨server.delta_ot_blocks⟩ states :=
        hreach.invariant hstart fun _ _ _ h hstep => h.exchanges hstep
      refine ⟨?_, fun v hv => hstep.evaluationAgrees hrequest coins hv⟩
      obtain ⟨haccepted, -, rfl, -⟩ := requestBatch_eq_ok hrequest
      rcases blindEval_accepted S blake3 stark coins states.2 sk _ (hstep.accepted haccepted) with
        ⟨server', resp, hanswer, -⟩ | ⟨-, server', rows, error, -, hanswer⟩
      · exact ⟨server', _, _, hanswer, .inl ⟨resp, rfl⟩⟩
      · exact ⟨server', rows, _, hanswer, .inr ⟨error, rfl⟩⟩

/-- A client's part of the OTs, all zero. -/
def zeroClientOts (tau : ℕ) : ClientOts where
  ot_blocks _ _ _ := 0
  blocks := List.replicate tau fun _ => 0
  choices := List.replicate tau ⟨0, zero_lt_delta⟩

theorem zero_otsMatched (tau : ℕ) : OtsMatched (zeroClientOts tau) (zeroServerOts tau) tau where
  ot_block _ := rfl
  blocks_length := List.length_replicate
  choices_length := List.length_replicate
  delta_length := List.length_replicate
  block j choice h := by
    obtain ⟨hj, rfl⟩ := List.getElem?_eq_some_iff.mp h
    have hlt : j < tau := by simpa [zeroClientOts] using hj
    refine ⟨fun _ _ => 0, fun _ => 0, by simp [zeroServerOts, hlt], by simp [zeroClientOts, hlt], ?_⟩
    simp [zeroClientOts, index]

/-- A client's part of the OTs, with position 3 of every run. -/
def sideClientOts (tau : ℕ) : ClientOts where
  ot_blocks := sideBlocks
  blocks := List.replicate tau fun _ => 3
  choices := List.replicate tau ⟨3, three_lt_delta⟩

theorem side_otsMatched (tau : ℕ) : OtsMatched (sideClientOts tau) (sideServerOts tau) tau where
  ot_block _ := rfl
  blocks_length := List.length_replicate
  choices_length := List.length_replicate
  delta_length := List.length_replicate
  block j choice h := by
    obtain ⟨hj, rfl⟩ := List.getElem?_eq_some_iff.mp h
    have hlt : j < tau := by simpa [sideClientOts] using hj
    have hchoice : 3 < DELTA := by norm_num
    refine ⟨positionBlocks, fun _ => 3, by simp [sideServerOts, serverOts, hlt],
      by simp [sideClientOts, hlt], ?_⟩
    simp only [sideClientOts, List.getElem_replicate]
    exact dif_pos hchoice

theorem no_false_rejection_oneBit :
    ∃ (c : List (MasksCommitments Permutations.identity))
      (d : List (PadsMessage Permutations.identity)) (b_bar : Fin N → UInt8)
      (proof : PreprocessingProof Permutations.identity (Stark.transparent Val))
      (state client' : ClientState Permutations.identity) (state' : ServerState) (req : RequestMessage)
      (fin : FinalizeState Permutations.identity),
      preprocServerVoprf lastByteHash () oneBitKey 40 (fun _ => 9) (sideServerOts 40) (c.map List.ofFn) =
        some (.ok (d, b_bar, proof, state')) ∧
      preprocClientWith lastByteHash (some ⟨keyCommit oneBitKey⟩) 40 (fun _ => 9) (sideClientOts 40)
        ⟨some (encodeTau 40), d, some (List.ofFn b_bar), some proof⟩ = some (.ok state) ∧
      requestBatch lastByteHash state [7] [[1], [2]] = some (client', .ok (req, fin)) ∧
      EvaluationAgrees lastByteHash (Stark.transparent Val) (fun _ => ()) oneBitKey state' req fin 0 ∧
      EvaluationAgrees lastByteHash (Stark.transparent Val) (fun _ => ()) oneBitKey state' req fin 1 := by
  have htau : UInt64.toNat 40 = 40 := by simp
  have hle : H_ROWS ≤ UInt64.toNat 40 := by
    rw [htau]
    norm_num
  have hots : OtsMatched (sideClientOts 40) (sideServerOts 40) (UInt64.toNat 40) := by
    rw [htau]
    exact side_otsMatched 40
  have hpk : (⟨keyCommit oneBitKey⟩ : VerifiedKey Permutations.identity).pk = keyCommit oneBitKey := rfl
  obtain ⟨c, d, b_bar, statement, witness, -, -, -, -, -, hholds, -, hall⟩ :=
    no_false_rejection lastByteHash (Stark.transparent Val) oneBitKey hpk hle hots fun _ => 9
  -- The prover is complete, so the preprocessing ends on both sides.
  obtain ⟨proof, hproof, hverified⟩ :=
    PreprocessingAir.prove_of_complete (Stark.transparent_complete Val) hholds ()
  rcases hall () with ⟨error, herror, -⟩ | ⟨proof', state', result, hproof', hserver, hclient, hresult⟩
  · rw [hproof] at herror
    cases herror
  obtain rfl := Except.ok.inj (Option.some.inj (hproof.symm.trans hproof'))
  rcases hresult with ⟨error, herror, -⟩ | ⟨state, -, rfl, honline⟩
  · rw [hverified] at herror
    cases herror
  rw [htau] at hserver hclient
  have hruns := (preprocClientWith_eq_ok hclient).runs
  have haccepted : RequestAccepted state [7] [[1], [2]] := by
    refine ⟨by decide, List.cons_ne_nil _ _, by decide, fun _ => by decide, ?_⟩
    rw [hruns, (side_otsMatched 40).rcEntries_length]
    decide
  obtain ⟨client', req, fin, hrequest⟩ := haccepted.requestBatch lastByteHash fun _ => by
    rw [hruns]
    exact dvd_zero _
  obtain ⟨-, hagree⟩ := honline _ (Reachable.refl _ _) _ _ _ _ _ hrequest fun _ => ()
  exact ⟨c, d, b_bar, _, state, client', state', req, fin, hserver, hclient, hrequest,
    hagree 0 Nat.zero_lt_two, hagree 1 Nat.one_lt_two⟩

end PoolOprf
