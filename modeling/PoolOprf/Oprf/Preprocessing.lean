import PoolOprf.Oprf.Validation
import PoolOprf.Plonky3.PreprocessingCompleteness

/-!
# The preprocessing

Both sides of the preprocessing (`pool-oprf/src/preprocessing.rs`), with its VOPRF messages
(`voprf.rs`). What the oblivious transfers and the other side's messages hold is an argument, and
what a side sends is part of what it returns; a stream is the list of the messages on it.
`receivePadsCommitments_eq_ok` and `receiveMasksCommitments_eq_ok` say what the two checks of
commitments accept, and `preprocClientWith_eq_ok` what a client that gets to the end holds.
-/

namespace PoolOprf

open Panic

variable {S : Permutations}

/-! ## Errors and messages -/

/-- Errors during the preprocessing protocol. -/
inductive PreprocError (stark : Stark Val) where
  /-- peer closed the stream unexpectedly -/
  | UnexpectedClose
  /-- peer sent a malformed message: {0} -/
  | Malformed (what : String)
  /-- tau must be at least 1 -/
  | ZeroTau
  /-- a VOPRF needs tau of at least one evaluation, {H_ROWS}, got {tau} -/
  | VoprfTauTooSmall (tau : ℕ)
  /-- peer is preprocessing for tau = {theirs}, this side asked for {ours} -/
  | TauMismatch (ours theirs : ℕ)
  /-- the client's commitments to its masks do not match the server's masks -/
  | MasksMismatch
  /-- the server's commitment to the client's pad does not match the client's pad -/
  | PadsMismatch
  /-- proving the preprocessing failed -/
  | Prove (error : ProveError stark)
  /-- the preprocessing proof does not verify -/
  | Verify (error : VerifyError stark)

/-- `c^v`: the `n` pairs `c^v_{0, i}`, `c^v_{1, i}`, one per `i`, of one evaluation `v`. -/
abbrev MasksCommitments (S : Permutations) := Fin N → Fin 2 → MasksCommitment S

/-- `c^v` on its stream. -/
abbrev MasksMessage (S : Permutations) := List (Fin 2 → MasksCommitment S)

/-- `PadsCommitments` of each run `k` of one evaluation `v`. -/
abbrev PadsMessage (S : Permutations) := List (PadsCommitments S)

/-- `m^v` of each evaluation `v`, and `π_preproc`. -/
structure PreprocessingProof (S : Permutations) (stark : Stark Val) where
  /-- `m^v` of each evaluation `v`. -/
  m : List (MaskSumCommitment S)
  /-- `π_preproc`. -/
  proof : stark.Proof

/-- The client's part of the OTs: the pairs of the binary OTs, and of each 1-out-of-Δ OT its block
and its choice `b′`. -/
structure ClientOts where
  /-- The pairs. -/
  ot_blocks : Fin N → Fin 2 → Block
  /-- The block of each choice. -/
  blocks : List Block
  /-- The choices, in `ℤ_Δ`. -/
  choices : List { b_prime : Zdelta // b_prime.toNat < DELTA }

/-- The server's part of the OTs: its entries of the binary OTs, and all blocks of each 1-out-of-Δ
OT. -/
structure ServerOts where
  /-- The choices and their blocks. -/
  r_s : Fin N → RsEntry
  /-- The blocks. -/
  delta_ot_blocks : List (Fin DELTA → Block)

/-- The pad of a 1-out-of-Δ OT block, with the OT block as the random value. -/
def padCommitment (ot_block : Block) : PadCommitment S :=
  padCommit ⟨rPrimeFromBlock ot_block, randomness ot_block⟩

/-- The masks of a binary OT block for evaluation `v`, with the OT block as the random value. -/
def masksCommitment (blake3 : Blake3) (ot_block : Block) (v : ℕ) : MasksCommitment S :=
  masksCommit ⟨expand blake3 ot_block (firstRun v), randomness ot_block⟩

/-- τ on the wire. -/
def decodeTau (stark : Stark Val) (bytes : List UInt8) : Except (PreprocError stark) ℕ :=
  if bytes.length = 8 then .ok (leToNat bytes) else .error (.Malformed "tau has wrong length")

/-! ## The client of a VOPRF -/

/-- `c^v` of each evaluation `v`. -/
def masksCommitments (blake3 : Blake3) (ot_blocks : Fin N → Fin 2 → Block) (evaluations : ℕ) :
    List (MasksCommitments S) :=
  (List.range evaluations).map fun v i b => masksCommitment blake3 (ot_blocks i b) v

/-- The check of `d` of one evaluation, from run `run` on. -/
def checkPads (stark : Stark Val) (ots : ClientOts) :
    ℕ → PadsMessage S → Option (Except (PreprocError stark) Unit)
  | _, [] => some (.ok ())
  | run, d :: ds => do
    let choice ← ots.choices[run]?
    let ot_block ← ots.blocks[run]?
    let d_choice ← index d choice.1.toNat
    if d_choice ≠ padCommitment ot_block then some (.error .PadsMismatch)
    else checkPads stark ots (run + 1) ds

/-- Receive `d^{v, k}` of each run `k` of each evaluation from `v` on, and check that
`d^{v, k}_{b′^{v, k}}` commits to the client's pad and OT block. -/
def receivePadsCommitments (stark : Stark Val) (ots : ClientOts) :
    ℕ → ℕ → List (PadsMessage S) → Option (Except (PreprocError stark) (List (PadsCommitments S)))
  | _, 0, _ => some (.ok [])
  | _, _ + 1, [] => some (.error .UnexpectedClose)
  | v, evaluations + 1, message :: messages =>
    if message.length ≠ RUNS_PER_EVALUATION then
      some (.error (.Malformed "d has wrong length"))
    else do
      match ← checkPads stark ots (v * RUNS_PER_EVALUATION) message with
      | .error error => some (.error error)
      | .ok () =>
        match ← receivePadsCommitments stark ots (v + 1) evaluations messages with
        | .error error => some (.error error)
        | .ok d => some (.ok (message ++ d))

/-- The statement that the client verifies. -/
def clientStatement (pk : VerifiedKey S) (b_bar : Fin N → UInt8) (c : List (MasksCommitments S))
    (m : List (MaskSumCommitment S)) : Preprocessing S where
  pk := pk.pk
  b_bar := b_bar
  evaluations := c.zipWith (fun c m => ⟨c, m⟩) m

/-- Receive `m^v` of each evaluation `v` and `π_preproc`, and verify `π_preproc`. -/
def finish {stark : Stark Val} (pk : VerifiedKey S) (c : List (MasksCommitments S))
    (d : List (PadsCommitments S)) (b_bar : Fin N → UInt8) :
    Option (PreprocessingProof S stark) → Except (PreprocError stark) (ClientVoprf S)
  | none => .error .UnexpectedClose
  | some message =>
    if message.m.length ≠ c.length then .error (.Malformed "m has wrong length")
    else do
      (PreprocessingAir.verify stark (clientStatement pk b_bar c message.m) message.proof).mapError
        PreprocError.Verify
      .ok { pk := pk, m := message.m, d := d }

/-! ## The client -/

/-- What the server sends in a preprocessing. -/
structure ServerMessages (S : Permutations) (stark : Stark Val) where
  /-- The server's τ. -/
  echoed : Option (List UInt8)
  /-- `d` of each evaluation. -/
  pads : List (PadsMessage S)
  /-- `b̄`. -/
  bhat : Option (List UInt8)
  /-- `m` and `π_preproc`. -/
  proof : Option (PreprocessingProof S stark)

/-- A client's state with nothing spent. Its fields' ranges and lengths are what the preprocessing
checks or asked for. -/
def ClientState.new (ot_blocks : Fin N → Fin 2 → Block) (bhat : Fin N → UInt8) (r_c : List RcEntry)
    (uid : Uid) (voprf : Option (ClientVoprf S)) : Option (ClientState S) :=
  if h : (∀ i, (bhat i).toNat ≤ 1) ∧ (∀ v ∈ voprf, v.m.length = evaluationsFor r_c.length) ∧
      ∀ v ∈ voprf, v.d.length = tauFor (evaluationsFor r_c.length) then
    some
      { ot_blocks := ot_blocks
        bhat := bhat
        r_c := r_c
        uid := uid
        runs := Runs.new r_c.length
        voprf := voprf
        bhat_le := h.1
        r_c_length := rfl
        m_length := h.2.1
        d_length := h.2.2 }
  else none

/-- The client's entries of the 1-out-of-Δ OTs. -/
def rcEntries (ots : ClientOts) : List RcEntry :=
  ots.blocks.zipWith
    (fun block b_prime => ⟨b_prime.1, rPrimeFromBlock block, b_prime.2⟩) ots.choices

/-- The client's preprocessing, with the client's part of the OTs and the server's messages. -/
def preprocClientWith {stark : Stark Val} (blake3 : Blake3) (pk : Option (VerifiedKey S)) (tau : ℕ)
    (uid : Uid) (ots : ClientOts) (received : ServerMessages S stark) :
    Option (Except (PreprocError stark) (ClientState S)) :=
  if tau = 0 then some (.error .ZeroTau)
  else if pk.isSome ∧ evaluationsFor tau = 0 then some (.error (.VoprfTauTooSmall tau))
  else
    match received.echoed with
    | none => some (.error .UnexpectedClose)
    | some echoed =>
    match decodeTau stark echoed with
    | .error error => some (.error error)
    | .ok theirs =>
    if theirs ≠ tau then some (.error (.TauMismatch tau theirs))
    else do
      let c := masksCommitments blake3 ots.ot_blocks (evaluationsFor tau)
      let pads ← match pk with
        | some _ => receivePadsCommitments stark ots 0 (evaluationsFor tau) received.pads
        | none => some (.ok [])
      match pads with
      | .error error => some (.error error)
      | .ok d =>
      match received.bhat with
      | none => some (.error .UnexpectedClose)
      | some bhat =>
      if bhat.length ≠ N then some (.error (.Malformed "b_hat has wrong length"))
      else if ¬ bhat.all (fun b => b.toNat ≤ 1) then
        some (.error (.Malformed "b_hat entries must be bits"))
      else do
        let b_bar ← fromFn fun i : Fin N => bhat[i.val]?
        match pk with
        | none => do
          some (.ok (← ClientState.new ots.ot_blocks b_bar (rcEntries ots) uid none))
        | some pk =>
          match finish pk c d b_bar received.proof with
          | .error error => some (.error error)
          | .ok voprf => do
            some (.ok (← ClientState.new ots.ot_blocks b_bar (rcEntries ots) uid (some voprf)))

/-- A VOPRF client. -/
def preprocClientVoprf {stark : Stark Val} (blake3 : Blake3) (pk : VerifiedKey S) (tau : ℕ)
    (uid : Uid) (ots : ClientOts) (received : ServerMessages S stark) :
    Option (Except (PreprocError stark) (ClientState S)) :=
  preprocClientWith blake3 (some pk) tau uid ots received

/-! ## The server of a VOPRF -/

/-- `c^v` of each evaluation, from the stream. -/
def readMasksCommitments (stark : Stark Val) :
    ℕ → List (MasksMessage S) → Option (Except (PreprocError stark) (List (MasksCommitments S)))
  | 0, _ => some (.ok [])
  | _ + 1, [] => some (.error .UnexpectedClose)
  | evaluations + 1, message :: messages =>
    if message.length ≠ N then some (.error (.Malformed "c has wrong length"))
    else do
      let c_v ← fromFn fun i : Fin N => message[i.val]?
      match ← readMasksCommitments stark evaluations messages with
      | .error error => some (.error error)
      | .ok c => some (.ok (c_v :: c))

/-- Whether each `c^v_{b_i, i}` commits to the server's masks and OT block, from evaluation `v`
on. -/
def masksMatch (blake3 : Blake3) (r_s : Fin N → RsEntry) :
    ℕ → List (MasksCommitments S) → Option Bool
  | _, [] => some true
  | v, c_v :: c =>
    Panic.and
      ((List.finRange N).allM fun i => do
        let c_i ← index (c_v i) (r_s i).b.toNat
        some (c_i == masksCommitment blake3 (r_s i).ot_block v))
      (masksMatch blake3 r_s (v + 1) c)

/-- Receive `c^v` of each evaluation `v` and check that each `c^v_{b_i, i}` commits to the server's
masks and OT block. -/
def receiveMasksCommitments (stark : Stark Val) (blake3 : Blake3) (r_s : Fin N → RsEntry)
    (evaluations : ℕ) (messages : List (MasksMessage S)) :
    Option (Except (PreprocError stark) (List (MasksCommitments S))) := do
  match ← readMasksCommitments stark evaluations messages with
  | .error error => some (.error error)
  | .ok c =>
    if ← masksMatch blake3 r_s 0 c then some (.ok c) else some (.error .MasksMismatch)

/-- `d^{v, k}` of each run `k` of each evaluation `v`. -/
def padsCommitments (delta_ot_blocks : List (Fin DELTA → Block)) (evaluations : ℕ) :
    Option (List (PadsMessage S)) :=
  (List.range evaluations).mapM fun v =>
    if (v + 1) * RUNS_PER_EVALUATION ≤ delta_ot_blocks.length then
      some (((delta_ot_blocks.drop (v * RUNS_PER_EVALUATION)).take RUNS_PER_EVALUATION).map
        fun ot_blocks j => padCommitment (ot_blocks j))
    else none

/-- The server's masks of evaluation `v` and `r̃^{v, k}_Σ` of each run `k`. -/
def evaluationWitness (blake3 : Blake3) (sk : SecretKey) (r_s : Fin N → RsEntry) (v : ℕ)
    (m_randomness : CommitmentRandomness) : Option EvaluationWitness := do
  let masks : Fin N → Fin RUNS_PER_EVALUATION → Zq :=
    fun i => expand blake3 (r_s i).ot_block (firstRun v)
  let r_sigma_sums ← fromFn fun k => rSigmaSum sk fun i => masks i k
  some { masks := masks, r_sigma_sums := r_sigma_sums, m_randomness := m_randomness }

/-- The statement that the server proves, and its witness. -/
def serverStatement (blake3 : Blake3) (sk : SecretKey) (ots : ServerOts) (b_bar : Fin N → UInt8)
    (c : List (MasksCommitments S)) : Option (Preprocessing S × PreprocessingWitness) := do
  let evaluations ← (List.range c.length).mapM fun v => do
    let ot_blocks ← ots.delta_ot_blocks[v * RUNS_PER_EVALUATION]?
    evaluationWitness blake3 sk ots.r_s v (maskSumRandomness blake3 ot_blocks)
  let witness : PreprocessingWitness :=
    { sk := sk
      ot_blocks := fun i => randomness (ots.r_s i).ot_block
      evaluations := evaluations }
  some (PreprocessingStatement.honest witness b_bar c, witness)

/-- Prove the preprocessing: `m^v` of each evaluation `v` and `π_preproc`. -/
def proveServer {stark : Stark Val} (blake3 : Blake3) (coins : stark.Coins) (sk : SecretKey)
    (ots : ServerOts) (b_bar : Fin N → UInt8) (c : List (MasksCommitments S)) :
    Option (Except (PreprocError stark) (PreprocessingProof S stark × ServerVoprf)) := do
  let (statement, witness) ← serverStatement blake3 sk ots b_bar c
  match ← PreprocessingAir.prove stark coins statement witness with
  | .error error => some (.error (.Prove error))
  | .ok proof =>
    some (.ok
      ({ m := statement.evaluations.map EvaluationStatement.m, proof := proof },
        { delta_ot_blocks := ots.delta_ot_blocks }))

/-! ## The server -/

/-- `b̄_i = b_i ⊕ sk_i`. -/
def maskedKeyBits (sk : SecretKey) (r_s : Fin N → RsEntry) : Fin N → UInt8 :=
  fun i => (r_s i).b ^^^ sk.bits i

/-- A VOPRF server's preprocessing from the OTs to `b̄`: the check of `c`, then `d` and `b̄`, which
it sends, with the `c` that it goes on with. -/
def preprocServerMessages (stark : Stark Val) (blake3 : Blake3) (sk : SecretKey) (tau : ℕ)
    (ots : ServerOts) (received : List (MasksMessage S)) :
    Option (Except (PreprocError stark)
      (List (MasksCommitments S) × List (PadsMessage S) × (Fin N → UInt8))) := do
  match ← receiveMasksCommitments stark blake3 ots.r_s (evaluationsFor tau) received with
  | .error error => some (.error error)
  | .ok c => do
    let d ← padsCommitments ots.delta_ot_blocks (evaluationsFor tau)
    some (.ok (c, d, maskedKeyBits sk ots.r_s))

/-- A server's state with nothing spent. -/
def ServerState.new (r_s : Fin N → RsEntry) (s_s : List (Fin DELTA → Zp)) (uid : Uid)
    (voprf : Option ServerVoprf) : Option ServerState :=
  if h : ∀ v ∈ voprf, v.delta_ot_blocks.length = s_s.length then
    some
      { r_s := r_s
        s_s := s_s
        uid := uid
        runs := Runs.new s_s.length
        voprf := voprf
        s_s_length := rfl
        delta_length := h }
  else none

/-- The pads of each run. -/
def serverPads (ots : ServerOts) : List (Fin DELTA → Zp) :=
  ots.delta_ot_blocks.map fun blocks k => rPrimeFromBlock (blocks k)

/-- A VOPRF server's preprocessing, after the opening messages: what it sends and its state. -/
def preprocServerVoprf {stark : Stark Val} (blake3 : Blake3) (coins : stark.Coins) (sk : SecretKey)
    (tau : ℕ) (uid : Uid) (ots : ServerOts) (received : List (MasksMessage S)) :
    Option (Except (PreprocError stark)
      (List (PadsMessage S) × (Fin N → UInt8) × PreprocessingProof S stark × ServerState)) := do
  match ← preprocServerMessages stark blake3 sk tau ots received with
  | .error error => some (.error error)
  | .ok (c, d, b_bar) =>
    match ← proveServer blake3 coins sk ots b_bar c with
    | .error error => some (.error error)
    | .ok (proof, voprf) => do
      some (.ok (d, b_bar, proof, ← ServerState.new ots.r_s (serverPads ots) uid (some voprf)))

end PoolOprf
