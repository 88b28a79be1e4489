import PoolOprf.Oprf.Privacy

/-!
# The server's own proofs do not fail

A witness that does not satisfy its statement would make the server's prover stop with
`WrongWitness`, and whether it does could depend on the key. `never_wrong_witness` excludes it: the
server's check of `c` is what (S) needs (`serverStatement_holds`), and the ranges that BlindEval
checks are what the online statement needs (`ServerState.provedAt_holds`), so neither proof depends
on who made the commitments or the request.
-/

namespace PoolOprf

open Panic

variable {S : Permutations}

/-- The evaluations of an accepted request, as BlindEval answers and proves them. -/
theorem onlineStatement_of_accepted {state : ServerState} {voprf : ServerVoprf}
    (hvoprf : state.voprf = some voprf) (blake3 : Blake3) (sk : SecretKey) {req : RequestMessage}
    (h : BlindEvalAccepted state req) {v : ℕ} {eval : List RowRequest}
    (hv : (chunksExact H_ROWS req.rows)[v]? = some eval) :
    ∃ rows r_sigma_sums statement witness,
      blindEvalOne blake3 state sk eval (state.runs.ctr + tauFor v) = some (rows, r_sigma_sums) ∧
      voprf.onlineStatement S blake3 sk (state.runs.ctr + tauFor v) eval r_sigma_sums =
        some (statement, witness) ∧
      statement.holdsFor witness = some true := by
  obtain ⟨evals, hevals, hlen, hrange, -, -⟩ := blindEval_of_accepted S blake3
    (Stark.transparent Val) (fun _ => ()) state sk req h
  rw [hevals, List.getElem?_map] at hv
  obtain ⟨rows, hrows, rfl⟩ := Option.map_eq_some_iff.mp hv
  have hrows_range := hrange rows (List.mem_of_getElem? hrows)
  have hruns := h.runs_le
  have hbudget := state.runs.ctr_add_remaining
  have hdelta := state.delta_length voprf hvoprf
  have hlt : v < req.evaluations := by
    rw [← hlen]
    exact (List.getElem?_eq_some_iff.mp hrows).1
  -- The evaluation's runs are among those that the request was accepted for.
  have hle : state.runs.ctr + tauFor v + H_ROWS ≤ state.runs.tau := by
    have hmul : (v + 1) * 16 ≤ req.evaluations * 16 := Nat.mul_le_mul_right 16 hlt
    have htotal : req.evaluations * 16 = req.rows.length := h.tauFor_evaluations
    change state.runs.ctr + v * 16 + 16 ≤ state.runs.tau
    omega
  exact ⟨_, _, _, _, blindEvalOne_of_le blake3 sk hrows_range hle,
    ServerVoprf.onlineStatement_of_le (by omega) (fun k => (hrows_range k).b_bar_prime) blake3 sk _,
    OnlineStatement.holdsFor_eq_some_true.mpr
      (state.provedAt_holds voprf blake3 sk (state.runs.ctr + tauFor v) hrows_range)⟩

/-- A client cannot make the server's own proof fail. Whatever commitments the server accepts, the
statement of the preprocessing holds for its witness; whatever request it accepts later, in whatever
state, the statement of each evaluation holds for its witness. So no prover of the server returns
`WrongWitness`. -/
theorem never_wrong_witness (blake3 : Blake3) (stark : Stark Val) (sk : SecretKey) (ots : ServerOts)
    {tau : ℕ} (htau : H_ROWS ≤ tau) (hdelta : ots.delta_ot_blocks.length = tau)
    {messages : List (MasksMessage S)} {c : List (MasksCommitments S)}
    (hreceived : receiveMasksCommitments stark blake3 ots.r_s (evaluationsFor tau) messages =
      some (.ok c)) :
    (∃ statement witness,
      serverStatement blake3 sk ots (maskedKeyBits sk ots.r_s) c = some (statement, witness) ∧
      statement.holdsFor witness = some true) ∧
    (∀ coins : stark.Coins, ∃ result,
      proveServer blake3 coins sk ots (maskedKeyBits sk ots.r_s) c = some result ∧
      result ≠ .error (.Prove .WrongWitness)) ∧
    ∀ (state : ServerState) (voprf : ServerVoprf), state.voprf = some voprf →
      ∀ (sk : SecretKey) (req : RequestMessage),
        (BlindEvalAccepted state req → ∀ (v : ℕ) eval,
          (chunksExact H_ROWS req.rows)[v]? = some eval → ∃ rows r_sigma_sums statement witness,
            blindEvalOne blake3 state sk eval (state.runs.ctr + tauFor v) =
              some (rows, r_sigma_sums) ∧
            voprf.onlineStatement S blake3 sk (state.runs.ctr + tauFor v) eval r_sigma_sums =
              some (statement, witness) ∧
            statement.holdsFor witness = some true) ∧
        ∀ coins, ∃ state' rows result,
          blindEval S blake3 stark coins state sk req = some (state', rows, result) ∧
          result ≠ .error (.Prove .WrongWitness) := by
  obtain ⟨hread, hchecked⟩ := receiveMasksCommitments_eq_ok.mp hreceived
  have hlen : c.length = evaluationsFor tau := readMasksCommitments_length hread
  have hne : c ≠ [] := by
    have hpos : 0 < evaluationsFor tau := Nat.div_pos htau (by norm_num)
    rw [← hlen] at hpos
    exact List.ne_nil_of_length_pos hpos
  have hle : tauFor c.length ≤ ots.delta_ot_blocks.length := by
    rw [hlen, hdelta]
    exact tauFor_evaluationsFor_le tau
  refine ⟨⟨_, _, serverStatement_eq hle blake3 sk, PreprocessingStatement.holdsFor_eq_some_true.mpr
    (serverStatement_holds sk hne hchecked)⟩, fun coins => ?_, fun state voprf hvoprf sk req =>
      ⟨fun haccepted v eval hv => onlineStatement_of_accepted hvoprf blake3 sk haccepted hv,
        fun coins => ?_⟩⟩
  · -- The prover is called, so the only error left is its own.
    obtain ⟨table, -, hproof⟩ := proveServer_eq stark coins sk hne hle hchecked
    refine ⟨_, hproof, ?_⟩
    cases stark.prove coins
      (PreprocessingAir.air S (PreprocessingAir.new (provedStatement blake3 sk ots c))) table
      (PreprocessingAir.new (provedStatement blake3 sk ots c)).public_values <;>
        exact fun h => nomatch h
  · by_cases haccepted : BlindEvalAccepted state req
    · rcases blindEval_accepted S blake3 stark coins state sk req haccepted with
        ⟨state', resp, h, -⟩ | ⟨-, state', rows, error, -, h⟩
      · exact ⟨state', resp.rows, _, h, fun h => nomatch h⟩
      · exact ⟨state', rows, _, h, fun h => nomatch h⟩
    · -- No refusal is a proving error.
      obtain ⟨error, hrefuses, h⟩ :=
        blindEval_refused S blake3 stark coins state sk req haccepted
      refine ⟨state, [], _, h, fun herror => ?_⟩
      obtain rfl := Except.error.inj herror
      exact hrefuses

/-- Zero is a bit. -/
theorem zero_le_one : (0 : UInt8).toNat ≤ 1 := by decide

/-- A server's part of the OTs, all zero. -/
def zeroServerOts (tau : ℕ) : ServerOts where
  r_s _ := ⟨0, fun _ => 0, zero_le_one⟩
  delta_ot_blocks := List.replicate tau fun _ _ => 0

/-! ### A client that tries -/

/-- The server's part of the OTs, with side 0 of every pair. -/
def sideServerOts (tau : ℕ) : ServerOts :=
  serverOts sideBlocks (List.replicate tau positionBlocks) fun _ => false

theorem sideServer_delta_length (v : ServerVoprf)
    (h : v ∈ some (⟨List.replicate 16 positionBlocks⟩ : ServerVoprf)) : v.delta_ot_blocks.length = 16 := by
  obtain rfl := Option.some.inj h
  exact List.length_replicate

/-- The server after a preprocessing with them. -/
def sideServer : ServerState where
  r_s := (sideServerOts 16).r_s
  s_s := List.replicate 16 fun position => UInt8.ofNat position
  uid _ := 9
  runs := Runs.new 16
  voprf := some ⟨List.replicate 16 positionBlocks⟩
  s_s_length := List.length_replicate
  delta_length := sideServer_delta_length

/-- A row as large as the server takes. -/
def largestRow : RowRequest := ⟨fun _ => 4095, 15⟩

theorem largestRow_inRange : largestRow.InRange :=
  ⟨fun _ => show (4095 : Zq).toNat < Q by decide, by decide⟩

theorem sideServer_accepts :
    BlindEvalAccepted sideServer ⟨fun _ => 9, [7], List.replicate 16 largestRow⟩ where
  uid := rfl
  tag_le := by decide
  nonempty := List.cons_ne_nil _ _
  whole := dvd_rfl
  batch_le := show 1 ≤ MAX_BATCH_EVALUATIONS by decide
  voprf_batch_le _ := show 1 ≤ MAX_VOPRF_BATCH_EVALUATIONS by decide
  rows row hrow := List.eq_of_mem_replicate hrow ▸ largestRow_inRange
  runs_le := le_rfl

theorem never_wrong_witness_oneSided :
    (∃ statement witness, serverStatement (S := Permutations.identity) lastByteHash oneBitKey
        (sideServerOts 16) (maskedKeyBits oneBitKey (sideServerOts 16).r_s)
          [oneSided lastByteHash sideBlocks] = some (statement, witness) ∧
      statement.holdsFor witness = some true) ∧
    (∃ result, proveServer (S := Permutations.identity) lastByteHash
        (show (Stark.transparent Val).Coins from ()) oneBitKey (sideServerOts 16)
        (maskedKeyBits oneBitKey (sideServerOts 16).r_s) [oneSided lastByteHash sideBlocks] = some result ∧
          result ≠ .error (.Prove .WrongWitness)) ∧
    ∃ rows r_sigma_sums statement witness,
      blindEvalOne lastByteHash sideServer oneBitKey (List.replicate 16 largestRow) 0 =
        some (rows, r_sigma_sums) ∧
      ServerVoprf.onlineStatement ⟨List.replicate 16 positionBlocks⟩ Permutations.identity lastByteHash
        oneBitKey 0 (List.replicate 16 largestRow) r_sigma_sums = some (statement, witness) ∧
      statement.holdsFor witness = some true := by
  have hread : readMasksCommitments (S := Permutations.identity) (Stark.transparent Val)
      (evaluationsFor 16) ([oneSided lastByteHash sideBlocks].map List.ofFn) =
        some (.ok [oneSided lastByteHash sideBlocks]) :=
    readMasksCommitments_map [oneSided lastByteHash sideBlocks]
  -- The bad side is 1, and the server has side 0.
  have hchecked : ∀ i, MasksChecked (S := Permutations.identity) lastByteHash ((sideServerOts 16).r_s i) i 0
      [oneSided lastByteHash sideBlocks] := fun i =>
    (masksChecked_rsEntry lastByteHash sideBlocks _ i false).mpr
      ((passes_oneSided lastByteHash i false).mpr fun h => Bool.false_ne_true h.2)
  obtain ⟨hstatement, hproof, honline⟩ := never_wrong_witness lastByteHash (Stark.transparent Val)
    oneBitKey (sideServerOts 16) le_rfl List.length_replicate
    (receiveMasksCommitments_eq_ok.mpr ⟨hread, hchecked⟩)
  exact ⟨hstatement, hproof (), (honline sideServer _ rfl oneBitKey _).1 sideServer_accepts 0 _ rfl⟩

end PoolOprf
