import PoolOprf.Oprf.Exchange
import PoolOprf.Oprf.HashInputs
import PoolOprf.Lib.Reachable
import PoolOprf.Plonky3.OnlineSoundness
import PoolOprf.Plonky3.PreprocessingSoundness

/-!
# A VOPRF's client gets the PRF of one key

Whatever the server does, what a VOPRF's client accepts pins its outputs down. Assumed are a table
behind each proof that Plonky3's verifier accepts (`Stark.Extracts`), and that no two inputs of one
kind of commitment that are hashed by the client, or opened by these tables, have one digest
(`CommitmentInputs.NoCollision`).

The preprocessing pins the state (`PinnedState`): `pk` opens to a key; at `b̄_i ⊕ sk_i` the client's
own `c` opens to the client's own masks, so that `m` opens to their sums; and the client has checked
that `d` opens to its pad at its choice. An accepted online proof then opens `pk`, `m`, and `d` to
the same, so the entry of the response that the client reads is the one for this key, these sums,
and its pad, and what is left after finalizing is the key's PRF (`PinnedState.finalizeRow`,
`PinnedState.outputs`). `voprf_sound` is this for all requests of a state.

Honest parties meet the second assumption as far as their own values do: where proofs are tables, an
honest server's open its witnesses, so that nothing but `honestInputs` is hashed
(`OtsMatched.exchange`).
-/

namespace PoolOprf

open Panic Binding

variable {S : Permutations} {stark : Stark Val}

/-! ## What is committed to -/

/-- Inputs of commitments, kind by kind. -/
structure CommitmentInputs where
  /-- Of `pk`. -/
  key : Set (List Val)
  /-- Of the `m`. -/
  mask_sum : Set (List Val)
  /-- Of the `c`. -/
  masks : Set (List Val)
  /-- Of the `d`. -/
  pad : Set (List Val)

namespace CommitmentInputs

/-- All inputs together. -/
def union (parts : CommitmentInputs → Prop) : CommitmentInputs where
  key := {x | ∃ inputs, parts inputs ∧ x ∈ inputs.key}
  mask_sum := {x | ∃ inputs, parts inputs ∧ x ∈ inputs.mask_sum}
  masks := {x | ∃ inputs, parts inputs ∧ x ∈ inputs.masks}
  pad := {x | ∃ inputs, parts inputs ∧ x ∈ inputs.pad}

/-- Some inputs are among others. -/
structure Subset (inputs inputs' : CommitmentInputs) : Prop where
  key : inputs.key ⊆ inputs'.key
  mask_sum : inputs.mask_sum ⊆ inputs'.mask_sum
  masks : inputs.masks ⊆ inputs'.masks
  pad : inputs.pad ⊆ inputs'.pad

theorem subset_union {parts : CommitmentInputs → Prop} {inputs : CommitmentInputs} (h : parts inputs) :
    inputs.Subset (union parts) :=
  ⟨fun _ hx => ⟨inputs, h, hx⟩, fun _ hx => ⟨inputs, h, hx⟩, fun _ hx => ⟨inputs, h, hx⟩,
    fun _ hx => ⟨inputs, h, hx⟩⟩

/-- All inputs are among others that each part is among. -/
theorem union_subset {parts : CommitmentInputs → Prop} {inputs : CommitmentInputs}
    (h : ∀ part, parts part → part.Subset inputs) : (union parts).Subset inputs where
  key := fun _ ⟨part, hpart, hx⟩ => (h part hpart).key hx
  mask_sum := fun _ ⟨part, hpart, hx⟩ => (h part hpart).mask_sum hx
  masks := fun _ ⟨part, hpart, hx⟩ => (h part hpart).masks hx
  pad := fun _ ⟨part, hpart, hx⟩ => (h part hpart).pad hx

/-- No two different inputs of one kind have equal digests. -/
structure NoCollision (S : Permutations) (inputs : CommitmentInputs) : Prop where
  key : ¬ Collision (Commitment.commit : List Val → KeyCommitment S) inputs.key
  mask_sum : ¬ Collision (Commitment.commit : List Val → MaskSumCommitment S) inputs.mask_sum
  masks : ¬ Collision (Commitment.commit : List Val → MasksCommitment S) inputs.masks
  pad : ¬ Collision (Commitment.commit : List Val → PadCommitment S) inputs.pad

/-- Fewer inputs have fewer collisions. -/
theorem NoCollision.mono {inputs inputs' : CommitmentInputs} (hsubset : inputs.Subset inputs')
    (h : inputs'.NoCollision S) : inputs.NoCollision S where
  key hcollision := h.key (hcollision.mono hsubset.key)
  mask_sum hcollision := h.mask_sum (hcollision.mono hsubset.mask_sum)
  masks hcollision := h.masks (hcollision.mono hsubset.masks)
  pad hcollision := h.pad (hcollision.mono hsubset.pad)

end CommitmentInputs

/-- What the client hashes: the masks of its binary OT blocks in each evaluation, and its pads. -/
def ClientOts.inputs (blake3 : Blake3) (ots : ClientOts) (evaluations : ℕ) : CommitmentInputs where
  key := ∅
  mask_sum := ∅
  masks := {x | ∃ i b, ∃ v < evaluations, x = masksElements
    ⟨expand blake3 (ots.ot_blocks i b) (firstRun v), randomness (ots.ot_blocks i b)⟩}
  pad := {x | ∃ ot_block ∈ ots.blocks, x = padElements ⟨rPrimeFromBlock ot_block, randomness ot_block⟩}

/-- What a table of the preprocessing circuit opens. -/
def PreprocessingAir.inputs (S : Permutations) (table : List (List Val)) : CommitmentInputs where
  key := keyOpenings S table
  mask_sum := maskSumOpenings S table
  masks := masksOpenings S table
  pad := ∅

/-- What a table of the online circuit opens. -/
def OnlineAir.inputs (S : Permutations) (table : List (List Val)) : CommitmentInputs where
  key := keyOpenings S table
  mask_sum := maskSumOpenings S table
  masks := ∅
  pad := padOpenings S table

namespace Commitment

variable {DOMAIN LEN : ℕ}

theorem OpensIn.mono {s t : Set (List Val)} (hst : s ⊆ t) {c : Commitment S DOMAIN LEN}
    {values randomness : List Val} (h : c.OpensIn s values randomness) :
    c.OpensIn t values randomness := ⟨hst h.1, h.2⟩

/-- Without a collision, a commitment opens to one value. -/
theorem OpensIn.unique {s : Set (List Val)}
    (hno : ¬ Collision (Commitment.commit : List Val → Commitment S DOMAIN LEN) s)
    {c : Commitment S DOMAIN LEN} {values values' randomness randomness' : List Val}
    (h : c.OpensIn s values randomness) (h' : c.OpensIn s values' randomness')
    (hlen : values.length = values'.length) : values = values' := by
  have heq := eq_of_digest_eq hno h.1 h'.1 (h.2.symm.trans h'.2)
  exact (List.append_inj heq hlen).1

end Commitment

/-! ## What a client accepts -/

/-- A request that was answered, and what the client got. -/
structure Exchange (S : Permutations) (stark : Stark Val) where
  tag : List UInt8
  inputs : List (List UInt8)
  /-- What the client kept of the request. -/
  fin : FinalizeState S
  resp : ResponseMessage stark
  outputs : List PrfOutput

/-- A request from a state, whether it is built or refused. -/
def RequestStep (blake3 : Blake3) (state state' : ClientState S) : Prop :=
  ∃ tag inputs record, requestBatch blake3 state tag inputs = some (state', record)

/-- A request that was built from a state, after any others, and a response that was accepted. -/
structure ClientState.Exchanged (blake3 : Blake3) (state : ClientState S) (x : Exchange S stark) :
    Prop where
  request : ∃ before after req, Reachable (RequestStep blake3) state before ∧
    requestBatch blake3 before x.tag x.inputs = some (after, .ok (req, x.fin))
  response : finalizeBatch stark x.fin x.resp = some (.ok x.outputs)

/-- What is hashed in a preprocessing and some exchanges: by the client, and by the tables behind
`π_preproc` and each `π_online` that was accepted. -/
inductive Hashed (blake3 : Blake3) (tables : Air Val → List Val → stark.Proof → List (List Val))
    (pk : VerifiedKey S) (tau : ℕ) (ots : ClientOts) (received : ServerMessages S stark)
    (state : ClientState S) (exchanges : Set (Exchange S stark)) : CommitmentInputs → Prop
  /-- The client's. -/
  | client : Hashed blake3 tables pk tau ots received state exchanges
      (ots.inputs blake3 (evaluationsFor tau))
  /-- `π_preproc`'s. -/
  | preprocessing (message : PreprocessingProof S stark) (statement : Preprocessing S)
      (hmessage : received.proof = some message)
      (hstatement : statement = clientStatement pk state.bhat
        (masksCommitments blake3 ots.ot_blocks (evaluationsFor tau)) message.m) :
      Hashed blake3 tables pk tau ots received state exchanges (PreprocessingAir.inputs S
        (tables (PreprocessingAir.air S (PreprocessingAir.new statement))
          (PreprocessingAir.publicValues statement) message.proof))
  /-- A `π_online`'s. -/
  | online (x : Exchange S stark) (hx : x ∈ exchanges) (statements : List (Online S)) (v : ℕ)
      (statement : Online S) (rows : List RowResponse) (proof : stark.Proof) (pub : List Val)
      (hstatements : x.fin.voprf = some statements) (hstatement : statements[v]? = some statement)
      (hrows : (chunksExact H_ROWS x.resp.rows)[v]? = some rows)
      (hproof : x.resp.proofs[v]? = some proof)
      (hpub : OnlineAir.publicValues (withResponse statement rows) = some pub) :
      Hashed blake3 tables pk tau ots received state exchanges
        (OnlineAir.inputs S (tables (OnlineAir.air S) pub proof))

/-! ## The preprocessing -/

/-- What a client's state is pinned to: a key that `pk` opens to; the sums of its own masks for that
key, which the `m` open to; and its pads, which the `d` open to at its choices. -/
structure PinnedState (inputs : CommitmentInputs) (blake3 : Blake3) (state : ClientState S)
    (voprf : ClientVoprf S) (sk : SecretKey) : Prop where
  voprf_eq : state.voprf = some voprf
  /-- `pk` opens to the key. -/
  pk : voprf.pk.pk = keyCommit sk
  key_mem : keyElements (packKey sk) ∈ inputs.key
  /-- `m^v` opens to the sums of the masks at `b̄_i ⊕ sk_i`. -/
  m : ∀ (v : ℕ) m, voprf.m[v]? = some m → ∃ (r : Fin RUNS_PER_EVALUATION → Val) (randomness : List Val),
    m.OpensIn inputs.mask_sum (List.ofFn r) randomness ∧
    ∀ k, (r k).val < Q ∧ ((r k).val : ZMod Q) = ∑ i, (1 - 2 * Lwr.bit (sk.bit i)) *
      ((state.maskAt blake3 (firstRun v + k) i (state.bhatBit i ^^ sk.bit i)).toNat : ZMod Q)
  /-- `d` of a run opens to the client's pad at the client's choice. -/
  d : ∀ (run : ℕ) d, voprf.d[run]? = some d → ∃ randomness : List Val,
    (d ⟨(state.rcAt run).b_prime.toNat, (state.rcAt run).b_prime_lt⟩).OpensIn inputs.pad
      [((state.rcAt run).r_prime.toNat : Val)] randomness

/-- States are pinned whatever has been spent. -/
theorem PinnedState.spent {inputs : CommitmentInputs} {blake3 : Blake3} {state state' : ClientState S}
    {voprf : ClientVoprf S} {sk : SecretKey} (h : PinnedState inputs blake3 state voprf sk) {n : ℕ}
    (hspent : ClientState.Spent state state' n) : PinnedState inputs blake3 state' voprf sk where
  voprf_eq := hspent.voprf.trans h.voprf_eq
  pk := h.pk
  key_mem := h.key_mem
  m v m hm := by
    unfold ClientState.maskAt ClientState.blockAt ClientState.bhatBit
    rw [hspent.ot_blocks, hspent.bhat]
    exact h.m v m hm
  d run d hd := by
    unfold ClientState.rcAt
    rw [hspent.r_c]
    exact h.d run d hd

/-- The side of a binary OT that `b̄_i ⊕ sk_i` is. -/
theorem ClientState.index_side {α : Type} (state : ClientState S) (sk : SecretKey) (i : Fin N)
    (pair : Fin 2 → α) : index pair (state.bhat i ^^^ sk.bits i).toNat =
      some (pair (if state.bhatBit i ^^ sk.bit i then 1 else 0)) := by
  have hle := state.bhat_le i
  have hcases : state.bhat i = 0 ∨ state.bhat i = 1 := by
    simp only [← UInt8.toNat_inj]
    have h0 : (0 : UInt8).toNat = 0 := rfl
    have h1 : (1 : UInt8).toNat = 1 := rfl
    omega
  unfold ClientState.bhatBit
  rw [sk.bits_eq]
  rcases hcases with h | h
  · rw [h]
    cases sk.bit i <;> rfl
  · rw [h]
    cases sk.bit i <;> rfl

/-- A mask as an element is the mask. -/
theorem maskOf_cast_val (blake3 : Blake3) (ot_block : Block) (run : ℕ) :
    (((maskOf blake3 ot_block run).toNat : ℕ) : Val).val = (maskOf blake3 ot_block run).toNat := by
  have hlt : (maskOf blake3 ot_block run).toNat < 4096 := maskOf_lt blake3 ot_block run
  exact ZMod.val_natCast_of_lt (show _ < 2013265921 by omega)

section Preprocessing

variable {blake3 : Blake3} {pk : VerifiedKey S} {tau : ℕ} {uid : Uid} {ots : ClientOts}
  {received : ServerMessages S stark} {state : ClientState S} {voprf : ClientVoprf S}
  {inputs : CommitmentInputs}

/-- The client's entry of a run is of its block and its choice. -/
theorem ClientEstablished.rcAt (h : ClientEstablished blake3 (some pk) tau uid ots received state)
    {run : ℕ} {choice : { b_prime : Zdelta // b_prime.toNat < DELTA }} {ot_block : Block}
    (hchoice : ots.choices[run]? = some choice) (hblock : ots.blocks[run]? = some ot_block) :
    state.rcAt run = ⟨choice.1, rPrimeFromBlock ot_block, choice.2⟩ := by
  have hentry : (rcEntries ots)[run]? = some ⟨choice.1, rPrimeFromBlock ot_block, choice.2⟩ := by
    unfold rcEntries
    exact List.getElem?_zipWith_eq_some.mpr ⟨ot_block, choice, hblock, hchoice, rfl⟩
  unfold ClientState.rcAt
  rw [h.r_c, List.getD_eq_getElem?_getD, hentry, Option.getD_some]

/-- The client has checked that `d` opens to its own pad at its choice. -/
theorem VoprfReceived.pad_opens
    (hreceived : VoprfReceived pk blake3 tau ots received state.bhat voprf)
    (h : ClientEstablished blake3 (some pk) tau uid ots received state)
    (hclient : (ots.inputs blake3 (evaluationsFor tau)).Subset inputs) {run : ℕ} {d : PadsCommitments S}
    (hd : voprf.d[run]? = some d) : ∃ randomness : List Val,
      (d ⟨(state.rcAt run).b_prime.toNat, (state.rcAt run).b_prime_lt⟩).OpensIn inputs.pad
        [((state.rcAt run).r_prime.toNat : Val)] randomness := by
  obtain ⟨-, hchecked⟩ := receivePadsCommitments_eq_ok ots hreceived.pads
  obtain ⟨choice, ot_block, hchoice, hblock, hcommit⟩ := hchecked run d hd
  rw [Nat.zero_mul, Nat.zero_add] at hchoice hblock
  have hrc := h.rcAt hchoice hblock
  rw [index_of_lt _ choice.2, Option.some.injEq] at hcommit
  rw [hrc]
  refine ⟨packRandomness (randomness ot_block), hclient.pad ⟨ot_block, ?_, rfl⟩, hcommit⟩
  exact List.mem_of_getElem? hblock

/-- The evaluations of the statement that the client verifies. -/
theorem clientStatement_getElem? (pk : VerifiedKey S) (b_bar : Fin N → UInt8) (blake3 : Blake3)
    (ot_blocks : Fin N → Fin 2 → Block) {evaluations v : ℕ} {m : List (MaskSumCommitment S)}
    {m_v : MaskSumCommitment S} (hlen : m.length = evaluations) (hm : m[v]? = some m_v) :
    (clientStatement pk b_bar (masksCommitments blake3 ot_blocks evaluations) m).evaluations[v]? =
      some ⟨fun i b => masksCommitment blake3 (ot_blocks i b) v, m_v⟩ := by
  have hlt : v < evaluations := hlen ▸ (List.getElem?_eq_some_iff.mp hm).1
  have hc : (masksCommitments (S := S) blake3 ot_blocks evaluations)[v]? =
      some fun i b => masksCommitment blake3 (ot_blocks i b) v := by
    unfold masksCommitments
    rw [List.getElem?_map, List.getElem?_range hlt]
    rfl
  unfold clientStatement
  exact List.getElem?_zipWith_eq_some.mpr ⟨_, m_v, hc, hm, rfl⟩

/-- The masks that the server opens at `b̄_i ⊕ sk_i` are the client's own. -/
theorem masks_eq (h : ClientEstablished blake3 (some pk) tau uid ots received state)
    (hno : inputs.NoCollision S) (hclient : (ots.inputs blake3 (evaluationsFor tau)).Subset inputs)
    {sk : SecretKey} {i : Fin N} {v : ℕ} (hv : v < evaluationsFor tau) {c : MasksCommitment S}
    (hc : index (fun b => masksCommitment blake3 (ots.ot_blocks i b) v)
      (state.bhat i ^^^ sk.bits i).toNat = some c)
    {masks : Fin RUNS_PER_EVALUATION → Val} {randomness : List Val}
    (hopens : c.OpensIn inputs.masks (List.ofFn masks) randomness) (k : Fin RUNS_PER_EVALUATION) :
    masks k = ((state.maskAt blake3 (firstRun v + k) i (state.bhatBit i ^^ sk.bit i)).toNat : Val) := by
  rw [state.index_side sk i, Option.some.injEq, ← h.ot_blocks] at hc
  have hown : c.OpensIn inputs.masks
      (runColumns (expand blake3 (state.blockAt i (state.bhatBit i ^^ sk.bit i)) (firstRun v)))
      (packRandomness (PoolOprf.randomness (state.blockAt i (state.bhatBit i ^^ sk.bit i)))) := by
    refine ⟨hclient.masks ⟨i, if state.bhatBit i ^^ sk.bit i then 1 else 0, v, hv, ?_⟩, hc.symm⟩
    rw [← h.ot_blocks]
    rfl
  have heq := hopens.unique hno.masks hown (by rw [List.length_ofFn, runColumns_length])
  have hk := congrFun (List.ofFn_injective heq) k
  rw [hk, expand_apply]
  rfl

/-- What an accepted preprocessing pins the client's state to. -/
theorem ClientEstablished.pinned {tables : Air Val → List Val → stark.Proof → List (List Val)}
    (h : ClientEstablished blake3 (some pk) tau uid ots received state)
    (htables : stark.Extracts tables) (hno : inputs.NoCollision S)
    (hclient : (ots.inputs blake3 (evaluationsFor tau)).Subset inputs)
    (hpreproc : ∀ (message : PreprocessingProof S stark) (statement : Preprocessing S),
      received.proof = some message → statement = clientStatement pk state.bhat
        (masksCommitments blake3 ots.ot_blocks (evaluationsFor tau)) message.m →
      (PreprocessingAir.inputs S (tables (PreprocessingAir.air S (PreprocessingAir.new statement))
        (PreprocessingAir.publicValues statement) message.proof)).Subset inputs) :
    ∃ (voprf : ClientVoprf S) (sk : SecretKey), voprf.pk = pk ∧
      PinnedState inputs blake3 state voprf sk := by
  obtain ⟨voprf, hvoprf, hreceived⟩ := h.voprf pk rfl
  obtain ⟨proof, hproof, hverify⟩ := hreceived.proof
  generalize hstatement : clientStatement pk state.bhat
    (masksCommitments blake3 ots.ot_blocks (evaluationsFor tau)) voprf.m = statement at hverify
  -- The table behind the proof.
  unfold PreprocessingAir.verify at hverify
  split_ifs at hverify with hempty
  have hholds := htables _ _ _ (Plonky3.verified_eq_ok.mp hverify)
  have hsubset := hpreproc ⟨voprf.m, proof⟩ statement hproof hstatement.symm
  have hE : 0 < statement.evaluations.length := by
    apply List.length_pos_of_ne_nil
    rintro hnil
    exact hempty (List.isEmpty_iff.mpr hnil)
  have hb : ∀ i, (statement.b_bar i).toNat ≤ 1 := by
    rw [← hstatement]
    exact state.bhat_le
  -- A table that keeps the rules fixes a key, and masks and sums behind the commitments.
  obtain ⟨sk, masks, sums, hpinned⟩ := PreprocessingAir.pinned_of_holds hE hb hholds
    fun hcollision => hno.key (hcollision.mono hsubset.key)
  have hpk : pk.pk = keyCommit sk := by
    rw [← hpinned.pk, ← hstatement]
    rfl
  refine ⟨voprf, sk, hreceived.pk_eq, hvoprf, ?_, hsubset.key hpinned.key_mem, fun v m hm => ?_,
    fun run d hd => hreceived.pad_opens h hclient hd⟩
  · rw [hreceived.pk_eq]
    exact hpk
  · -- Evaluation `v` of the statement is of the client's own `c^v` and of `m^v`.
    have hget := clientStatement_getElem? pk state.bhat blake3 ots.ot_blocks hreceived.m_length hm
    rw [hstatement] at hget
    obtain ⟨hv, hget⟩ := List.getElem?_eq_some_iff.mp hget
    have hvE : v < evaluationsFor tau := by
      rw [← hreceived.m_length]
      exact (List.getElem?_eq_some_iff.mp hm).1
    obtain ⟨randomness, -, hopens⟩ := hpinned.m ⟨v, hv⟩
    have hbar : ∀ i, statement.b_bar i = state.bhat i := fun i => by
      rw [← hstatement]
      rfl
    -- The client made `c` from its own masks, so the table has these, at the side that the key bit
    -- gives.
    have hmasks : ∀ i k, masks ⟨v, hv⟩ i k =
        ((state.maskAt blake3 (firstRun v + k) i (state.bhatBit i ^^ sk.bit i)).toNat : Val) := by
      intro i k
      obtain ⟨c, randomness', hc, -, hopens'⟩ := hpinned.c ⟨v, hv⟩ i
      rw [hbar, List.get_eq_getElem, hget] at hc
      exact masks_eq h hno hclient hvE hc (hopens'.mono hsubset.masks) k
    have hval : ∀ i k, (masks ⟨v, hv⟩ i k).val =
        (state.maskAt blake3 (firstRun v + k) i (state.bhatBit i ^^ sk.bit i)).toNat := fun i k => by
      rw [hmasks]
      exact maskOf_cast_val blake3 _ _
    have hlt : ∀ i k, (masks ⟨v, hv⟩ i k).val < Q := fun i k => by
      rw [hval]
      exact maskOf_lt blake3 _ _
    refine ⟨sums ⟨v, hv⟩, randomness, ?_, fun k => ⟨hpinned.r_sigma_sums_lt ⟨v, hv⟩ k, ?_⟩⟩
    · rw [List.get_eq_getElem, hget] at hopens
      exact hopens.mono hsubset.mask_sum
    · rw [hpinned.r_sigma_sums ⟨v, hv⟩ k fun i => hlt i k, ZMod.natCast_mod, Nat.cast_sum]
      refine Finset.sum_congr rfl fun i _ => ?_
      rw [SumOfMasksAir.termNat_cast (hlt i k), hval]

end Preprocessing

/-! ## One evaluation -/

section Online

variable {blake3 : Blake3} {state : ClientState S} {voprf : ClientVoprf S} {sk : SecretKey}
  {inputs : CommitmentInputs}

/-- A statement with a whole response is the request's with the response's `y`. -/
theorem withResponse_runs {statement : Online S} {rows : List RowResponse} {k : Fin RUNS_PER_EVALUATION}
    {row : RowResponse} (hrow : rows[k.val]? = some row) :
    (withResponse statement rows).runs k = { statement.runs k with y := row.y } := by
  unfold withResponse
  dsimp only
  rw [hrow]

/-- The table behind an accepted proof is of the state's key. -/
theorem PinnedState.key_eq (h : PinnedState inputs blake3 state voprf sk) (hno : inputs.NoCollision S)
    {sk' : SecretKey} (hmem : keyElements (packKey sk') ∈ inputs.key)
    (hpk : voprf.pk.pk = keyCommit sk') : sk' = sk := by
  apply packKey_elements_inj
  apply eq_of_digest_eq hno.key hmem h.key_mem
  exact hpk.symm.trans h.pk

/-- What is left of an entry that the client reads is the key's PRF, if a table behind the proof
opens what the state is pinned to. -/
theorem PinnedState.finalizeRow (h : PinnedState inputs blake3 state voprf sk)
    (hno : inputs.NoCollision S) {first_run : ℕ} (haligned : H_ROWS ∣ first_run) (m : ZqMatrix)
    {statement : Online S} (hstatement : voprf.onlineStatement first_run
      (state.evaluationRows blake3 m first_run) = some statement)
    {rows : List RowResponse} {table : List (List Val)}
    (hholds : (OnlineAir.air S).Holds table (OnlineAir.pubOf (withResponse statement rows)))
    (hsubset : (OnlineAir.inputs S table).Subset inputs) {k : Fin RUNS_PER_EVALUATION}
    {row : RowResponse} (hrow : rows[k.val]? = some row) :
    PoolOprf.finalizeRow (state.rowFinalize blake3 (first_run + k)) row = some (outputOf sk m k) := by
  obtain ⟨hpk, hm, -⟩ := ClientVoprf.onlineStatement_eq_some hstatement
  -- The statement's request is the client's own.
  have he : ∀ k i, (((withResponse statement rows).runs k).e i).toNat < Q := by
    intro k i
    rw [(withResponse_request statement rows k).1, (ClientVoprf.onlineStatement_request hstatement k).2.1]
    exact state.rowRequest_e_lt blake3 _ _ i
  obtain ⟨sk', r, hpinned⟩ := OnlineAir.pinned_of_holds he hholds
    (fun hcollision => hno.key (hcollision.mono hsubset.key))
    fun hcollision => hno.mask_sum (hcollision.mono hsubset.mask_sum)
  obtain rfl : sk' = sk :=
    h.key_eq hno (hsubset.key hpinned.key_mem) (hpk.symm.trans hpinned.pk)
  -- `m^v` opens to the mask sums of the preprocessing.
  obtain ⟨r', randomness, hopens, hr⟩ := h.m _ _ hm
  obtain ⟨randomness', -, hopens'⟩ := hpinned.m
  obtain rfl : r = r' := List.ofFn_injective
    ((hopens'.mono hsubset.mask_sum).unique hno.mask_sum hopens (by
      rw [List.length_ofFn, List.length_ofFn]))
  have hfirst : firstRun (first_run / RUNS_PER_EVALUATION) = first_run := Nat.div_mul_cancel haligned
  obtain ⟨hrlt, hrsum⟩ := hr k
  rw [hfirst] at hrsum
  -- `d` opens to the client's pad where the client reads.
  obtain ⟨j, hj⟩ : ∃ j : Fin DELTA, j.val = (state.rSigma blake3 (first_run + k)).toNat % DELTA :=
    ⟨⟨_, Nat.mod_lt _ (by norm_num)⟩, rfl⟩
  obtain ⟨pad, randomness₁, -, hpadopens, hy⟩ := hpinned.y k hrlt j
  obtain ⟨hd, heq, hbeq⟩ := ClientVoprf.onlineStatement_request hstatement k
  rw [withResponse_runs hrow] at hpadopens hy
  dsimp only at hpadopens hy
  rw [hbeq, state.padPosition_eq blake3 (m k) hj] at hpadopens
  obtain ⟨randomness₂, hown⟩ := h.d _ _ hd
  have hpad : pad = ((state.rcAt (first_run + k)).r_prime.toNat : Val) :=
    List.singleton_injective ((hpadopens.mono hsubset.pad).unique hno.pad hown rfl)
  have hprime : (state.rcAt (first_run + k)).r_prime.toNat < 256 := UInt8.toNat_lt _
  have hpadval : pad.val = (state.rcAt (first_run + k)).r_prime.toNat := by
    rw [hpad]
    exact ZMod.val_natCast_of_lt (show _ < 2013265921 by omega)
  -- The sum behind the entry is the inner product, blinded.
  have hsum : (∑ i, (sk'.bit i).toNat * ((statement.runs k).e i).toNat + (r k).val) % Q =
      (innerSum (m k) sk' + (state.rSigma blake3 (first_run + k)).toNat) % Q := by
    apply (ZMod.natCast_eq_natCast_iff' _ _ Q).mp
    rw [← state.blinded_sum blake3 (m k) sk' hrsum, Nat.cast_add, Nat.cast_sum, heq]
    refine congrArg₂ (· + ·) (Finset.sum_congr rfl fun i _ => ?_) rfl
    rw [Nat.cast_mul, ← sk'.bits_toNat, sk'.bits_cast]
  have hentry := hy (by rw [hpadval]; exact hprime)
  rw [hsum, hpadval] at hentry
  exact finalizeRow_of_entry (innerSum (m k) sk') (reduceQ_lt _) hj hentry

/-- What a request of a pinned state is finalized to is the key's PRF. -/
theorem PinnedState.outputs {tables : Air Val → List Val → stark.Proof → List (List Val)}
    (h : PinnedState inputs blake3 state voprf sk) (htables : stark.Extracts tables)
    (hno : inputs.NoCollision S) (haligned : H_ROWS ∣ state.runs.ctr) {state' : ClientState S}
    {tag : List UInt8} {elements : List (List UInt8)} {req : RequestMessage} {fin : FinalizeState S}
    (hrequest : requestBatch blake3 state tag elements = some (state', .ok (req, fin)))
    {resp : ResponseMessage stark} {outputs : List PrfOutput}
    (hfinalize : finalizeBatch stark fin resp = some (.ok outputs))
    (honline : ∀ (statements : List (Online S)) (v : ℕ) statement rows proof pub,
      fin.voprf = some statements → statements[v]? = some statement →
      (chunksExact H_ROWS resp.rows)[v]? = some rows → resp.proofs[v]? = some proof →
      OnlineAir.publicValues (withResponse statement rows) = some pub →
        (OnlineAir.inputs S (tables (OnlineAir.air S) pub proof)).Subset inputs) :
    outputs.map some = elements.map (evaluate blake3 sk tag) := by
  obtain ⟨-, -, -, statements, hstatements, rfl⟩ := requestBatch_eq_ok hrequest
  obtain ⟨-, hlen, -, hverify, houtputs⟩ := finalizeBatch_eq_ok.mp hfinalize
  obtain ⟨houtlen, hrows⟩ := (finalizeOutputs_eq_ok hlen).mp houtputs
  have hvoprf : state.voprf.map (fun _ => statements) = some statements := by
    rw [h.voprf_eq]
    rfl
  obtain ⟨hprooflen, hloop⟩ := hverify statements hvoprf
  obtain ⟨hstlen, hst⟩ := ClientState.requestStatements_getElem? h.voprf_eq blake3 tag elements _ _
    hstatements
  have hfinlen := state.finalizeRows_length blake3 elements.length state.runs.ctr
  have houtlen' : outputs.length = elements.length := by
    rw [houtlen, FinalizeState.evaluations, hfinlen, tauFor_div]
  -- Evaluation by evaluation, and then run by run.
  apply List.ext_getElem?
  intro v
  rw [List.getElem?_map, List.getElem?_map]
  cases helement : elements[v]? with
  | none =>
    rw [List.getElem?_eq_none_iff] at helement
    rw [List.getElem?_eq_none_iff.mpr (by omega)]
    rfl
  | some element =>
    have hv : v < elements.length := (List.getElem?_eq_some_iff.mp helement).1
    have hvout : v < outputs.length := by omega
    have hvproof : v < resp.proofs.length := by omega
    obtain ⟨statement, hstatement, honlinest⟩ := hst v element helement
    rw [List.getElem?_eq_getElem hvout, Option.map_some, Option.map_some, evaluate_eq]
    refine congrArg (some ∘ some) (funext fun k => ?_)
    obtain ⟨row, row', hrow, hrow', -, hout⟩ := hrows v _ (List.getElem?_eq_getElem hvout) k
    obtain ⟨-, hfin⟩ := state.requestRows_getElem? blake3 tag k elements state.runs.ctr v element helement
    obtain rfl := Option.some.inj (hrow.symm.trans hfin)
    -- The rows of the evaluation, and their proof.
    have hresplen : resp.rows.length = tauFor elements.length := hlen.trans hfinlen
    have hchunk : v < resp.rows.length / H_ROWS := by
      rw [hresplen, tauFor_div]
      exact hv
    have hgetrows := chunksExact_getElem? hchunk
    have hgetrow : ((resp.rows.drop (v * H_ROWS)).take H_ROWS)[k.val]? = some row' := by
      rw [List.getElem?_take_of_lt k.isLt, List.getElem?_drop]
      exact hrow'
    -- The client has checked a proof of these rows, and there is a table behind it.
    have haccepted := verifyOnline_of_verifyLoop hloop hstatement hgetrows
      (List.getElem?_eq_getElem hvproof)
    have hb : ∀ k, ((withResponse statement ((resp.rows.drop (v * H_ROWS)).take
        H_ROWS)).runs k).b_bar_prime.toNat < DELTA := by
      intro k
      rw [(withResponse_request _ _ k).2, (ClientVoprf.onlineStatement_request honlinest k).2.2]
      exact state.rowRequest_b_bar_prime_lt blake3 _ _
    have hpub := OnlineAir.publicValues_eq hb
    unfold verifyOnline OnlineAir.verify at haccepted
    rw [Plonky3.verified_eq_ok, hpub] at haccepted
    have hholds := htables _ _ _ haccepted
    have hsubset := honline statements v statement _ _ _ hvoprf hstatement hgetrows
      (List.getElem?_eq_getElem hvproof) hpub
    have hrun : state.runs.ctr + (tauFor v + k.val) = state.runs.ctr + tauFor v + k.val :=
      (Nat.add_assoc _ _ _).symm
    rw [hrun] at hout
    have hleft := h.finalizeRow hno (haligned.add (dvd_tauFor v))
      (hashToZqMatrix blake3 tag element) honlinest hholds hsubset hgetrow
    exact Option.some.inj (hout.symm.trans hleft)

end Online

/-! ## What honest parties hash -/

section Honest

variable {blake3 : Blake3} {sk : SecretKey} {client : ClientOts} {server : ServerOts} {tau : ℕ}

/-- What honest parties hash: the key, the mask sums of each evaluation, the client's masks, and the
pads of the 1-out-of-Δ OT blocks. -/
def honestInputs (blake3 : Blake3) (sk : SecretKey) (client : ClientOts) (server : ServerOts) (tau : ℕ) :
    CommitmentInputs where
  key := {keyElements (packKey sk)}
  mask_sum := {x | ∃ v < evaluationsFor tau, x = maskSumElements
    ⟨(evaluationWitnessAt blake3 sk server v).r_sigma_sums,
      (evaluationWitnessAt blake3 sk server v).m_randomness⟩}
  masks := (client.inputs blake3 (evaluationsFor tau)).masks
  pad := {x | ∃ ot_blocks ∈ server.delta_ot_blocks, ∃ j, x = padElements
    ⟨rPrimeFromBlock (ot_blocks j), randomness (ot_blocks j)⟩}

/-- The client's pads are of the server's blocks. -/
theorem OtsMatched.client_inputs (h : OtsMatched client server tau) (blake3 : Blake3) (sk : SecretKey) :
    (client.inputs blake3 (evaluationsFor tau)).Subset (honestInputs blake3 sk client server tau) := by
  refine ⟨Set.empty_subset _, Set.empty_subset _, fun _ hx => hx, ?_⟩
  rintro x ⟨ot_block, hmem, rfl⟩
  obtain ⟨run, hrun, rfl⟩ := List.mem_iff_getElem.mp hmem
  have hlt : run < client.choices.length := by
    rw [h.choices_length, ← h.blocks_length]
    exact hrun
  obtain ⟨ot_blocks, block, hblocks, hblock, hindex⟩ := h.block run _ (List.getElem?_eq_getElem hlt)
  rw [List.getElem?_eq_getElem hrun, Option.some.injEq] at hblock
  rw [index_of_lt _ (client.choices[run]).2, Option.some.injEq] at hindex
  refine ⟨ot_blocks, List.mem_of_getElem? hblocks, ⟨_, (client.choices[run]).2⟩, ?_⟩
  rw [hblock, ← hindex]

/-- The table of an honest server's preprocessing opens its key, its mask sums, and the client's
masks. -/
theorem OtsMatched.preprocessing_inputs (h : OtsMatched client server tau) (htau : H_ROWS ≤ tau)
    {table : List (List Val)} (htrace : PreprocessingAir.trace S
      (serverWitness blake3 sk server (evaluationsFor tau)) = some table) :
    (PreprocessingAir.inputs S table).Subset (honestInputs blake3 sk client server tau) := by
  have hholds := PreprocessingStatement.holdsFor_eq_some_true.mp
    (h.honestStatement_holds htau S blake3 sk)
  have hevaluation : ∀ v ∈ (serverWitness blake3 sk server (evaluationsFor tau)).evaluations,
      ∃ v' < evaluationsFor tau, evaluationWitnessAt blake3 sk server v' = v := by
    intro v hv
    obtain ⟨v', hv', heq⟩ := List.mem_map.mp hv
    exact ⟨v', List.mem_range.mp hv', heq⟩
  refine ⟨?_, ?_, ?_, Set.empty_subset _⟩
  · intro x hx
    exact PreprocessingAir.keyOpenings_trace hholds htrace hx
  · intro x hx
    obtain ⟨v, hv, rfl⟩ := PreprocessingAir.maskSumOpenings_trace hholds htrace hx
    obtain ⟨v', hv', rfl⟩ := hevaluation v hv
    exact ⟨v', hv', rfl⟩
  · intro x hx
    obtain ⟨v, hv, i, rfl⟩ := PreprocessingAir.masksOpenings_trace hholds htrace hx
    obtain ⟨v', hv', rfl⟩ := hevaluation v hv
    -- The server's block is the client's at the server's choice.
    have hlt : (server.r_s i).b.toNat < 2 := Nat.lt_succ_of_le (server.r_s i).b_le
    have hside := h.ot_block i
    rw [index_of_lt _ hlt, Option.some.injEq] at hside
    refine ⟨i, ⟨_, hlt⟩, v', hv', ?_⟩
    rw [hside]
    rfl

/-- The table of an honest server's answer opens its key, the mask sums of the evaluation, and the
pads of its runs. -/
theorem InStep.online_inputs {voprf : ClientVoprf S} {states : ClientState S × ServerState}
    (hstep : InStep blake3 sk voprf ⟨server.delta_ot_blocks⟩ states) (hr_s : states.2.r_s = server.r_s)
    (htau : states.2.runs.tau = tau) {x : Exchange S (Stark.transparent Val)}
    {client' : ClientState S} {req : RequestMessage}
    (hrequest : requestBatch blake3 states.1 x.tag x.inputs = some (client', .ok (req, x.fin)))
    {coins : ℕ → (Stark.transparent Val).Coins} {server' : ServerState} {rows : List RowResponse}
    (hanswer : blindEval S blake3 (Stark.transparent Val) coins states.2 sk req =
      some (server', rows, .ok x.resp))
    {v : ℕ} {proof : (Stark.transparent Val).Proof} (hproof : x.resp.proofs[v]? = some proof) :
    (OnlineAir.inputs S proof).Subset (honestInputs blake3 sk client server tau) := by
  obtain ⟨haccepted, -, rfl, -⟩ := requestBatch_eq_ok hrequest
  obtain ⟨-, -, -, hlen, hproofs⟩ :=
    blindEval_proofs (hstep.accepted haccepted) hstep.matched.server_voprf hanswer
  have hrows := states.1.requestRows_length blake3 x.tag x.inputs states.1.runs.ctr
  have hv : v < x.inputs.length := by
    have hlt := (List.getElem?_eq_some_iff.mp hproof).1
    rw [hlen] at hlt
    change v < (states.1.requestRows blake3 x.tag states.1.runs.ctr x.inputs).length / H_ROWS at hlt
    rwa [hrows, tauFor_div] at hlt
  have hchunk := states.1.requestRows_chunk blake3 x.tag x.inputs states.1.runs.ctr v _
    (List.getElem?_eq_getElem hv)
  obtain ⟨proof', hproof', hprove⟩ := hproofs v _ hchunk
  obtain rfl := Option.some.inj (hproof.symm.trans hproof')
  -- The proof of the transparent system is the table, made from the witness of the server.
  have htrace := OnlineAir.trace_of_prove hprove
  have hrange : ∀ k : Fin H_ROWS, (states.1.rowRequest blake3 (hashToZqMatrix blake3 x.tag x.inputs[v] k)
      (states.1.runs.ctr + tauFor v + k)).InRange := fun k =>
    ⟨states.1.rowRequest_e_lt blake3 _ _, states.1.rowRequest_b_bar_prime_lt blake3 _ _⟩
  have hholds := states.2.provedAt_holds (S := S) ⟨server.delta_ot_blocks⟩ blake3 sk
    (states.2.runs.ctr + tauFor v) hrange
  -- The runs of the evaluation exist.
  have hle : states.2.runs.ctr + tauFor v + 16 ≤ tau := by
    have hruns : x.inputs.length * 16 ≤ states.1.runs.remaining := haccepted.runs_le
    have hbudget := states.1.runs.ctr_add_remaining
    have hmul : (v + 1) * 16 ≤ x.inputs.length * 16 := Nat.mul_le_mul_right 16 hv
    rw [← htau, hstep.ctr, hstep.matched.toMatched.tau]
    change states.1.runs.ctr + v * 16 + 16 ≤ states.1.runs.tau
    omega
  have hdelta : server.delta_ot_blocks.length = tau :=
    (states.2.delta_length _ hstep.matched.server_voprf).trans htau
  -- The table opens a key, the mask sums of the evaluation and the pads of its runs.
  refine ⟨?_, ?_, Set.empty_subset _, ?_⟩
  · intro y hy
    exact OnlineAir.keyOpenings_trace hholds htrace hy
  · intro y hy
    have hsums := OnlineAir.maskSumOpenings_trace hholds htrace hy
    rw [Set.mem_singleton_iff] at hsums
    have hfirst : firstRun ((states.2.runs.ctr + tauFor v) / RUNS_PER_EVALUATION) =
        states.2.runs.ctr + tauFor v :=
      Nat.div_mul_cancel ((hstep.ctr ▸ hstep.aligned).add (dvd_tauFor v))
    refine ⟨(states.2.runs.ctr + tauFor v) / RUNS_PER_EVALUATION, ?_, ?_⟩
    · change (states.2.runs.ctr + tauFor v) / 16 < tau / 16
      omega
    · rw [hsums, evaluationWitnessAt_r_sigma_sums hr_s, evaluationWitnessAt_m_randomness, hfirst]
      rfl
  · intro y hy
    obtain ⟨k, j, rfl⟩ := OnlineAir.padOpenings_trace hholds htrace hy
    have hk : k.val < 16 := k.isLt
    have hrun : states.2.runs.ctr + tauFor v + k < server.delta_ot_blocks.length := by omega
    refine ⟨_, List.getElem_mem hrun, j, ?_⟩
    unfold ServerState.provedAt ServerVoprf.witnessAt ServerVoprf.blocksAt
    dsimp only
    rw [List.getD_eq_getElem?_getD, List.getElem?_eq_getElem hrun, Option.getD_some]

/-- Between honest parties, whose proofs are tables, only honest inputs are hashed. -/
theorem OtsMatched.hashed (h : OtsMatched client server tau) (htau : H_ROWS ≤ tau) {pk : VerifiedKey S}
    {received : ServerMessages S (Stark.transparent Val)} {m : List (MaskSumCommitment S)}
    {proof : (Stark.transparent Val).Proof} (hreceived : received.proof = some ⟨m, proof⟩)
    (htrace : PreprocessingAir.trace S (serverWitness blake3 sk server (evaluationsFor tau)) = some proof)
    {state : ClientState S} {exchanges : Set (Exchange S (Stark.transparent Val))}
    (hexchanges : ∀ x ∈ exchanges, ∀ (v : ℕ) proof, x.resp.proofs[v]? = some proof →
      (OnlineAir.inputs S proof).Subset (honestInputs blake3 sk client server tau))
    {inputs : CommitmentInputs} (hinputs : Hashed blake3 (fun _ _ table => table) pk tau client received
      state exchanges inputs) : inputs.Subset (honestInputs blake3 sk client server tau) := by
  cases hinputs with
  | client => exact h.client_inputs blake3 sk
  | preprocessing message statement hmessage _ =>
    obtain rfl := Option.some.inj (hreceived.symm.trans hmessage)
    exact h.preprocessing_inputs htau htrace
  | online x hx statements v statement rows proof pub _ _ _ hproof _ => exact hexchanges x hx v proof hproof

/-- Honest parties, whose proofs are tables, get to the end of a preprocessing and of its first
request, and hash only honest inputs. -/
theorem OtsMatched.firstExchange {tau : UInt64} (h : OtsMatched client server tau.toNat)
    (htau : H_ROWS ≤ tau.toNat) {pk : VerifiedKey S} (hpk : pk.pk = keyCommit sk) (blake3 : Blake3)
    (uid : Uid) {tag : List UInt8} {elements : List (List UInt8)} (htag : tag.length ≤ MAX_TAG_LEN)
    (hne : elements ≠ []) (hbatch : elements.length ≤ MAX_VOPRF_BATCH_EVALUATIONS)
    (hruns : tauFor elements.length ≤ tau.toNat) :
    ∃ (received : ServerMessages S (Stark.transparent Val)) (state client' : ClientState S)
      (req : RequestMessage) (fin : FinalizeState S) (resp : ResponseMessage (Stark.transparent Val))
      (outs : List PrfOutput),
      preprocClientVoprf blake3 pk tau.toNat uid client received = some (.ok state) ∧
      requestBatch blake3 state tag elements = some (client', .ok (req, fin)) ∧
      finalizeBatch (Stark.transparent Val) fin resp = some (.ok outs) ∧
      (CommitmentInputs.union (Hashed blake3 (fun _ _ table => table) pk tau.toNat client received state
        {⟨tag, elements, fin, resp, outs⟩})).Subset (honestInputs blake3 sk client server tau.toNat) := by
  -- The preprocessing.
  obtain ⟨proof, hprove, hverify⟩ := PreprocessingAir.prove_of_complete
    (Stark.transparent_complete Val) (h.honestStatement_holds htau S blake3 sk) ()
  obtain ⟨server₀, hnew, hserver⟩ := h.preprocServerVoprf uid hprove
  obtain ⟨state, hclient⟩ := OtsMatched.preprocClientWith blake3 hpk htau h uid proof
  rw [hverify] at hclient
  obtain ⟨voprf, hstep⟩ := h.inStep hpk hserver hclient
  obtain ⟨hr_s, -, -, hserverRuns, -⟩ := ServerState.new_eq_some hnew
  have htauServer : server₀.runs.tau = tau.toNat := by
    rw [hserverRuns]
    unfold serverPads
    rw [List.length_map, h.delta_length]
    rfl
  -- The request, and its answer.
  have haligned : Aligned blake3 sk state server₀ :=
    ⟨hstep.matched.toMatched, hstep.ctr, .inr ⟨voprf, _, hstep⟩⟩
  have haccepted : RequestAccepted state tag elements := by
    refine ⟨htag, hne, hbatch.trans (by norm_num), fun _ => hbatch, ?_⟩
    unfold Runs.remaining
    rw [(preprocClientWith_eq_ok hclient).runs, h.rcEntries_length]
    exact hruns
  obtain ⟨client', req, fin, hrequest⟩ := haligned.request haccepted
  obtain ⟨server', rows, resp, hanswer⟩ := haligned.answered
    (fun _ => Stark.transparent_complete Val) hrequest fun _ => ()
  have hfinalize := haligned.finalizeBatch (fun _ => Stark.transparent_complete Val) hrequest hanswer
  refine ⟨_, state, client', req, fin, resp, _, hclient, hrequest, hfinalize, ?_⟩
  apply CommitmentInputs.union_subset
  intro inputs hinputs
  apply h.hashed htau rfl (PreprocessingAir.trace_of_prove hprove) _ hinputs
  rintro x rfl v proof' hproof
  exact hstep.online_inputs hr_s htauServer hrequest hanswer hproof

/-- The first request is an exchange. -/
theorem OtsMatched.exchange {tau : UInt64} (h : OtsMatched client server tau.toNat)
    (htau : H_ROWS ≤ tau.toNat) {pk : VerifiedKey S} (hpk : pk.pk = keyCommit sk) (blake3 : Blake3)
    (uid : Uid) {tag : List UInt8} {elements : List (List UInt8)} (htag : tag.length ≤ MAX_TAG_LEN)
    (hne : elements ≠ []) (hbatch : elements.length ≤ MAX_VOPRF_BATCH_EVALUATIONS)
    (hruns : tauFor elements.length ≤ tau.toNat) :
    ∃ (received : ServerMessages S (Stark.transparent Val)) (state : ClientState S)
      (x : Exchange S (Stark.transparent Val)),
      preprocClientVoprf blake3 pk tau.toNat uid client received = some (.ok state) ∧
      state.Exchanged blake3 x ∧ x.tag = tag ∧ x.inputs = elements ∧
      (CommitmentInputs.union (Hashed blake3 (fun _ _ table => table) pk tau.toNat client received state
        {x})).Subset (honestInputs blake3 sk client server tau.toNat) := by
  obtain ⟨received, state, client', req, fin, resp, outs, hclient, hrequest, hfinalize, hsubset⟩ :=
    h.firstExchange htau hpk blake3 uid htag hne hbatch hruns
  exact ⟨received, state, ⟨tag, elements, fin, resp, outs⟩, hclient,
    ⟨⟨state, client', req, .refl _ _, hrequest⟩, hfinalize⟩, rfl, rfl, hsubset⟩

end Honest

/-- Parties whose OTs are all zero hash one input of each kind. -/
theorem honestInputs_zero : (honestInputs (fun _ _ _ => 0) zeroKey (zeroClientOts 16) (zeroServerOts 16)
    16).NoCollision Permutations.identity := by
  refine ⟨not_collision_of_subsingleton ?_, not_collision_of_subsingleton ?_,
    not_collision_of_subsingleton ?_, not_collision_of_subsingleton ?_⟩
  · exact Set.subsingleton_singleton
  · rintro x ⟨v, hv, rfl⟩ y ⟨v', hv', rfl⟩
    obtain rfl : v = v' := by
      have hv₁ : v < 16 / 16 := hv
      have hv₂ : v' < 16 / 16 := hv'
      omega
    rfl
  · rintro x ⟨i, b, v, hv, rfl⟩ y ⟨i', b', v', hv', rfl⟩
    obtain rfl : v = v' := by
      have hv₁ : v < 16 / 16 := hv
      have hv₂ : v' < 16 / 16 := hv'
      omega
    rfl
  · rintro x ⟨ot_blocks, hmem, j, rfl⟩ y ⟨ot_blocks', hmem', j', rfl⟩
    rw [List.eq_of_mem_replicate hmem, List.eq_of_mem_replicate hmem']

/-! ## All requests of a state -/

/-- A request spends whole evaluations, and changes nothing else. -/
theorem RequestStep.spent {blake3 : Blake3} {state state' : ClientState S}
    (h : RequestStep blake3 state state') : ∃ n, ClientState.Spent state state' (tauFor n) := by
  obtain ⟨tag, inputs, record, hcall⟩ := h
  rcases requestBatch_cases blake3 state tag inputs with
    ⟨-, error, hrefused⟩ | ⟨-, after, hspent, hbuilt⟩
  · rw [hrefused] at hcall
    obtain ⟨rfl, -⟩ := Prod.mk.inj (Option.some.inj hcall)
    refine ⟨0, ?_⟩
    rw [tauFor_zero]
    exact ClientState.Spent.refl state
  · rw [hbuilt, Option.map_eq_some_iff] at hcall
    obtain ⟨statements, -, hpair⟩ := hcall
    obtain ⟨rfl, -⟩ := Prod.mk.inj hpair
    exact ⟨inputs.length, hspent⟩

/-- And so do any requests, one after the other. -/
theorem spent_of_reachable {blake3 : Blake3} {state state' : ClientState S}
    (h : Reachable (RequestStep blake3) state state') :
    ∃ n, ClientState.Spent state state' (tauFor n) := by
  apply h.invariant
  · refine ⟨0, ?_⟩
    rw [tauFor_zero]
    exact ClientState.Spent.refl state
  · rintro before after - ⟨n, hbefore⟩ hstep
    obtain ⟨n', hafter⟩ := hstep.spent
    refine ⟨n + n', ?_⟩
    rw [tauFor_add]
    exact hbefore.trans hafter

/-- A VOPRF is sound against any server. Whatever `pk` and the client's outcome of the OTs are, and
whatever the server sends, in the preprocessing and as responses: if the client's preprocessing
returns a state, then there is one binary key that `pk` commits to, and whatever requests the state
builds, with any tags and inputs, each response that it accepts gives the outputs of the PRF under
that key. Assumed are a table behind each proof that Plonky3 accepts, and that no two different
inputs of one kind of commitment that are hashed have equal digests. -/
theorem voprf_sound (blake3 : Blake3) (stark : Stark Val)
    (tables : Air Val → List Val → stark.Proof → List (List Val)) (htables : stark.Extracts tables)
    (pk : VerifiedKey S) (tau : ℕ) (uid : Uid) (ots : ClientOts) (received : ServerMessages S stark)
    (state : ClientState S)
    (hpreproc : preprocClientVoprf blake3 pk tau uid ots received = some (.ok state))
    (exchanges : Set (Exchange S stark)) (hexchanges : ∀ x ∈ exchanges, state.Exchanged blake3 x)
    (hno : (CommitmentInputs.union
      (Hashed blake3 tables pk tau ots received state exchanges)).NoCollision S) :
    ∃ sk : SecretKey, pk.pk = keyCommit sk ∧
      ∀ x ∈ exchanges, x.outputs.map some = x.inputs.map (evaluate blake3 sk x.tag) := by
  have hestablished := preprocClientWith_eq_ok hpreproc
  obtain ⟨voprf, sk, hpk, hpinned⟩ := hestablished.pinned htables hno
    (CommitmentInputs.subset_union .client) fun message statement hmessage hstatement =>
      CommitmentInputs.subset_union (.preprocessing message statement hmessage hstatement)
  refine ⟨sk, hpk ▸ hpinned.pk, fun x hx => ?_⟩
  obtain ⟨⟨before, after, req, hreach, hrequest⟩, hresponse⟩ := hexchanges x hx
  obtain ⟨n, hspent⟩ := spent_of_reachable hreach
  have haligned : H_ROWS ∣ before.runs.ctr := by
    rw [hspent.ctr, hestablished.runs]
    exact Dvd.intro_left n (Nat.zero_add _).symm
  apply (hpinned.spent hspent).outputs htables hno haligned hrequest hresponse
  intro statements v statement rows proof pub hstatements hstatement hrows hproof hpub
  exact CommitmentInputs.subset_union (.online x hx statements v statement rows proof pub hstatements
    hstatement hrows hproof hpub)

theorem voprf_sound_zero :
    ∃ (received : ServerMessages Permutations.identity (Stark.transparent Val))
      (state : ClientState Permutations.identity)
      (x : Exchange Permutations.identity (Stark.transparent Val)) (sk : SecretKey),
      preprocClientVoprf (fun _ _ _ => 0) ⟨keyCommit zeroKey⟩ 16 (fun _ => 0) (zeroClientOts 16)
        received = some (.ok state) ∧
      state.Exchanged (fun _ _ _ => 0) x ∧ x.tag = [] ∧ x.inputs = [[]] ∧
      (keyCommit zeroKey : KeyCommitment Permutations.identity) = keyCommit sk ∧
      x.outputs.map some = [evaluate (fun _ _ _ => 0) sk [] []] := by
  have htau : UInt64.toNat 16 = 16 := by simp
  have hle : H_ROWS ≤ UInt64.toNat 16 := by rw [htau]
  have hots : OtsMatched (zeroClientOts 16) (zeroServerOts 16) (UInt64.toNat 16) := by
    rw [htau]
    exact zero_otsMatched 16
  have hlen : ([] : List UInt8).length ≤ MAX_TAG_LEN := Nat.zero_le _
  obtain ⟨received, state, x, hpreproc, hexchanged, htag, hinputs, hsubset⟩ := hots.exchange hle
    (rfl : (⟨keyCommit zeroKey⟩ : VerifiedKey Permutations.identity).pk = keyCommit zeroKey)
    (fun _ _ _ => 0) (fun _ => 0) hlen (List.cons_ne_nil [] []) (by decide) (by rw [htau]; exact le_rfl)
  rw [htau] at hpreproc hsubset
  obtain ⟨sk, hpk, houtputs⟩ := voprf_sound (fun _ _ _ => 0) (Stark.transparent Val) (fun _ _ table => table)
    (Stark.transparent_extracts Val) _ 16 _ _ received state hpreproc {x}
    (fun y hy => Set.mem_singleton_iff.mp hy ▸ hexchanged) (honestInputs_zero.mono hsubset)
  have houtput := houtputs x (Set.mem_singleton x)
  rw [htag, hinputs] at houtput
  exact ⟨received, state, x, sk, hpreproc, hexchanged, htag, hinputs, hpk, houtput⟩

end PoolOprf
