import PoolOprf.Oprf.Correctness
import PoolOprf.Oprf.DeltaOt
import PoolOprf.Oprf.Handshake
import PoolOprf.Oprf.PreprocessingSpec

/-!
# What the preprocessing establishes

The two sides of the preprocessing (`preproc_client` and `preproc_server` in
`pool-oprf/src/preprocessing.rs`) from their openings to their states, over ideal binary OTs. Each
side makes its part of the OTs from its own half of them (`clientOtsOf`, `serverOtsOf`), and
`OtsMatched` is how the two parts fit (`otsMatched_of_binary`), with fewer 1-out-of-Δ OTs than asked
for where their number wraps. `preprocClientWith_eq_ok` and `preprocServer_eq_ok` say what a side
that gets to its end holds, so that over the same OTs and with each other's messages the two states
match (`preprocessing_matches`).
-/

namespace PoolOprf

open Panic

variable {S : Permutations} {stark : Stark Val}

/-! ## Both sides' parts of the OTs -/

/-- The server's entry for a choice and its block. -/
def receivedEntry (c : Bool) (ot_block : Block) : RsEntry := ⟨c.toUInt8, ot_block, toUInt8_toNat_le c⟩

/-- The choices of 1-out-of-Δ OTs, which are in `ℤ_Δ`. -/
def inZdelta (choices : List Zdelta) : Option (List { b_prime : Zdelta // b_prime.toNat < DELTA }) :=
  choices.mapM fun b_prime => if h : b_prime.toNat < DELTA then some ⟨b_prime, h⟩ else none

section Ots

variable (blake3 : Blake3) (build : Build) (binary delta : BinaryOts) (tau : ℕ)

/-- The client's pairs of the binary OTs, in which it is the sender. Those beyond `N` are
discarded. -/
def clientBinaryOts : Option (Fin N → Fin 2 → Block) := do
  let ot_blocks := (binary.send (← nextMultipleOf N build.BASE_OT_COUNT)).take N
  fromFn fun i : Fin N => ot_blocks[i.val]?

/-- The client's blocks and choices of the τ 1-out-of-Δ OTs, in which it is the receiver. -/
def clientDeltaOts :
    Option (List Block × List { b_prime : Zdelta // b_prime.toNat < DELTA }) := do
  let (blocks, choices) ← deltaOtReceive blake3 build delta.receive tau
  let choices ← inZdelta choices
  some (blocks, choices)

/-- The client's part of the OTs. -/
def clientOtsOf : Option ClientOts := do
  let ot_blocks ← clientBinaryOts build binary
  let (blocks, choices) ← clientDeltaOts blake3 build delta tau
  some ⟨ot_blocks, blocks, choices⟩

/-- The server's entries of the binary OTs, in which it is the receiver. -/
def serverBinaryOts : Option (Fin N → RsEntry) := do
  let (ot_blocks, choices) := binary.receive (← nextMultipleOf N build.BASE_OT_COUNT)
  let r_s := ((choices.zip ot_blocks).take N).map fun (c, ot_block) => receivedEntry c ot_block
  fromFn fun i : Fin N => r_s[i.val]?

/-- The server's part of the OTs: it is the sender in the τ 1-out-of-Δ OTs. -/
def serverOtsOf : Option ServerOts := do
  let r_s ← serverBinaryOts build binary
  let delta_ot_blocks ← deltaOtSend blake3 build delta.send tau
  some ⟨r_s, delta_ot_blocks⟩

end Ots

/-- The two parts of one OT outcome: the server has the block of its choice in each binary OT, the
client that of its choice in each 1-out-of-Δ OT, and there are `tau` of these. -/
structure OtsMatched (client : ClientOts) (server : ServerOts) (tau : ℕ) : Prop where
  /-- The server's block of each binary OT. -/
  ot_block : ∀ i, index (client.ot_blocks i) (server.r_s i).b.toNat =
    some (server.r_s i).ot_block
  blocks_length : client.blocks.length = tau
  choices_length : client.choices.length = tau
  delta_length : server.delta_ot_blocks.length = tau
  /-- The client's block of each 1-out-of-Δ OT. -/
  block : ∀ (j : ℕ) choice, client.choices[j]? = some choice →
    ∃ row block, server.delta_ot_blocks[j]? = some row ∧ client.blocks[j]? = some block ∧
      index row choice.1.toNat = some block

theorem inZdelta_ofFn {n : ℕ} (f : Fin n → { b_prime : Zdelta // b_prime.toNat < DELTA }) :
    inZdelta (List.ofFn fun j => (f j).1) = some (List.ofFn f) := by
  unfold inZdelta
  induction n with
  | zero => rfl
  | succ n ih =>
    rw [List.ofFn_succ, List.ofFn_succ, List.mapM_cons, dif_pos (f 0).2,
      ih fun j => f j.succ]
    rfl

section Ots

variable {blake3 : Blake3} {build : Build} {binary delta : BinaryOts} {tau entries n m : ℕ}

/-- The pairs beyond `N` do not count. -/
theorem clientBinaryOts_eq (hn : nextMultipleOf N build.BASE_OT_COUNT = some n) (hle : N ≤ n) :
    clientBinaryOts build binary = some fun i => (binary n (Fin.castLE hle i)).1 := by
  unfold clientBinaryOts BinaryOts.send
  rw [hn, Option.bind_eq_bind, Option.bind_some]
  refine fromFn_eq_some_iff.mpr fun i => ?_
  rw [List.getElem?_take_of_lt i.isLt, List.getElem?_ofFn, dif_pos (i.isLt.trans_le hle)]
  rfl

/-- The client's part of the OTs, with as many 1-out-of-Δ OTs as there are binary ones for. -/
theorem clientOtsOf_eq (hn : nextMultipleOf N build.BASE_OT_COUNT = some n) (hle : N ≤ n)
    (hm : requiredBinaryOtCount build tau = some m) (hle' : entries * LOG_DELTA ≤ m)
    (hentries : entries = min tau (m / LOG_DELTA)) :
    clientOtsOf blake3 build binary delta tau = some
      { ot_blocks := fun i => (binary n (Fin.castLE hle i)).1
        blocks := List.ofFn fun j => otOutput blake3 (otInput
          (fun i => otPairs delta hle' j i (side (otBits delta hle' j i)))
          (choiceFromBits (otBits delta hle' j)))
        choices := List.ofFn fun j =>
          ⟨choiceFromBits (otBits delta hle' j), choiceFromBits_lt _⟩ } := by
  unfold clientOtsOf clientDeltaOts
  rw [clientBinaryOts_eq hn hle, deltaOtReceive_eq blake3 delta hm hle' hentries]
  simp only [Option.bind_eq_bind, Option.bind_some]
  rw [inZdelta_ofFn fun j => ⟨choiceFromBits (otBits delta hle' j), choiceFromBits_lt _⟩]
  rfl

/-- The server's entries are those of the first `N` binary OTs. -/
theorem serverBinaryOts_eq (hn : nextMultipleOf N build.BASE_OT_COUNT = some n) (hle : N ≤ n) :
    serverBinaryOts build binary = some fun i => receivedEntry (binary n (Fin.castLE hle i)).2
      ((binary n (Fin.castLE hle i)).1 (side (binary n (Fin.castLE hle i)).2)) := by
  have hzip : (List.ofFn fun k => (binary n k).2).zip
      (List.ofFn fun k => (binary n k).1 (side (binary n k).2)) =
        List.ofFn fun k => ((binary n k).2, (binary n k).1 (side (binary n k).2)) := by
    rw [List.zip_eq_zipWith, zipWith_ofFn]
  unfold serverBinaryOts BinaryOts.receive
  rw [hn, Option.bind_eq_bind, Option.bind_some]
  refine fromFn_eq_some_iff.mpr fun i => ?_
  dsimp only
  rw [hzip, List.getElem?_map, List.getElem?_take_of_lt i.isLt, List.getElem?_ofFn,
    dif_pos (i.isLt.trans_le hle)]
  rfl

/-- The server's part of the OTs. -/
theorem serverOtsOf_eq (hn : nextMultipleOf N build.BASE_OT_COUNT = some n) (hle : N ≤ n)
    (hm : requiredBinaryOtCount build tau = some m) (hle' : entries * LOG_DELTA ≤ m)
    (hentries : entries = min tau (m / LOG_DELTA)) :
    serverOtsOf blake3 build binary delta tau = some
      { r_s := fun i => receivedEntry (binary n (Fin.castLE hle i)).2
          ((binary n (Fin.castLE hle i)).1 (side (binary n (Fin.castLE hle i)).2))
        delta_ot_blocks := List.ofFn fun j => fun c : Fin DELTA =>
          otOutput blake3 (otInput (selected (otPairs delta hle' j) (UInt8.ofNat c))
            (UInt8.ofNat c)) } := by
  unfold serverOtsOf
  rw [serverBinaryOts_eq hn hle, deltaOtSend_eq blake3 delta hm hle' hentries]
  rfl

/-- A client that has its part of the OTs asked for some of both kinds. -/
theorem clientOtsOf_counts {client : ClientOts}
    (h : clientOtsOf blake3 build binary delta tau = some client) :
    ∃ n m, nextMultipleOf N build.BASE_OT_COUNT = some n ∧ N ≤ n ∧
      requiredBinaryOtCount build tau = some m := by
  unfold clientOtsOf clientDeltaOts deltaOtReceive at h
  simp only [Option.bind_eq_bind, Option.bind_eq_some_iff] at h
  obtain ⟨ot_blocks, -, outputs, ⟨received, ⟨m, hm, -⟩, -⟩, -⟩ := h
  obtain ⟨n, hn, hle, -⟩ := nextMultipleOf_spec N build.base_pos
  exact ⟨n, m, hn, hle, hm⟩

/-- The parts that the two sides make of the same binary OTs fit, with as many 1-out-of-Δ OTs as
there are binary OTs for. -/
theorem otsMatched_of_binary {client : ClientOts} {server : ServerOts}
    (hclient : clientOtsOf blake3 build binary delta tau = some client)
    (hserver : serverOtsOf blake3 build binary delta tau = some server) :
    ∃ m, requiredBinaryOtCount build tau = some m ∧
      OtsMatched client server (min tau (m / LOG_DELTA)) := by
  obtain ⟨n, m, hn, hle, hm⟩ := clientOtsOf_counts hclient
  obtain ⟨entries, hentries⟩ : ∃ entries, entries = min tau (m / LOG_DELTA) := ⟨_, rfl⟩
  have hle' := entries_le hentries
  refine ⟨m, hm, ?_⟩
  rw [← hentries]
  rw [clientOtsOf_eq hn hle hm hle' hentries] at hclient
  rw [serverOtsOf_eq hn hle hm hle' hentries] at hserver
  obtain rfl := Option.some.inj hclient
  obtain rfl := Option.some.inj hserver
  refine ⟨fun i => index_toUInt8 _ _, List.length_ofFn, List.length_ofFn, List.length_ofFn, ?_⟩
  intro j choice hchoice
  obtain ⟨hlt, rfl⟩ := List.getElem?_eq_some_iff.mp hchoice
  rw [List.length_ofFn] at hlt
  have hget : ∀ {α : Type} (f : Fin entries → α), (List.ofFn f)[j]? = some (f ⟨j, hlt⟩) :=
    fun f => by rw [List.getElem?_ofFn, dif_pos hlt]
  refine ⟨_, _, hget _, hget _, ?_⟩
  -- The bits of the choice pick the blocks that the client received.
  rw [List.getElem_ofFn, index_of_lt _ (choiceFromBits_lt _)]
  simp only [UInt8.ofNat_toNat, selected_choiceFromBits]

/-- There are τ of them where their number fits. -/
theorem otsMatched_of_fits {client : ClientOts} {server : ServerOts} (hfits : build.Fits tau)
    (hclient : clientOtsOf blake3 build binary delta tau = some client)
    (hserver : serverOtsOf blake3 build binary delta tau = some server) :
    OtsMatched client server tau := by
  obtain ⟨m, hm, hots⟩ := otsMatched_of_binary hclient hserver
  rwa [Nat.min_eq_left ((requiredBinaryOtCount_eq_some hm).2.1.mpr hfits)] at hots

end Ots

/-! ## The two sides -/

/-- The client's preprocessing. -/
def preprocClient (blake3 : Blake3) (build : Build) (pk : Option (VerifiedKey S)) (tau : ℕ)
    (uid : Uid) (binary delta : BinaryOts) (received : ServerMessages S stark) :
    Option (Except (PreprocError stark) (ClientState S)) :=
  match clientOpening stark uid tau pk.isSome received.echoed with
  | .error error => some (.error error)
  | .ok _ => do
    let ots ← clientOtsOf blake3 build binary delta tau
    preprocClientWith blake3 pk tau uid ots received

/-- The server checks `c` before it asks for the 1-out-of-Δ OTs: where that panics, a bad `c` is
refused first. -/
def serverPanics {α : Type} (blake3 : Blake3) (build : Build) (tau : ℕ) (binary : BinaryOts)
    (opened : Opened) (masks : List (MasksMessage S)) : Option (Except (PreprocError stark) α) :=
  if opened.voprf then do
    let r_s ← serverBinaryOts build binary
    match ← receiveMasksCommitments stark blake3 r_s (evaluationsFor tau) masks with
    | .error error => some (.error error)
    | .ok _ => none
  else none

/-- The server's preprocessing: what it sends and its state. -/
def preprocServer (blake3 : Blake3) (build : Build) (coins : stark.Coins) (sk : SecretKey)
    (tau : ℕ) (binary delta : BinaryOts) (hello : Option (List UInt8))
    (masks : List (MasksMessage S)) :
    Option (Except (PreprocError stark) (ServerMessages S stark × ServerState)) := do
  let (echoed, opening) ← serverOpening stark tau hello
  match opening with
  | .error error => some (.error error)
  | .ok opened =>
    match serverOtsOf blake3 build binary delta tau with
    | none => serverPanics blake3 build tau binary opened masks
    | some ots =>
    if opened.voprf then do
      match ← preprocServerVoprf blake3 coins sk tau opened.uid ots masks with
      | .error error => some (.error error)
      | .ok (pads, b_bar, proof, state) =>
        some (.ok (⟨echoed, pads, some (List.ofFn b_bar), some proof⟩, state))
    else do
      let state ← ServerState.new ots.r_s (serverPads ots) opened.uid none
      some (.ok (⟨echoed, [], some (List.ofFn (maskedKeyBits sk ots.r_s)), none⟩, state))

/-! ## What a side that gets to its end holds -/

/-- A fresh state is made of what it is given, with no run spent. -/
theorem ClientState.new_eq_some {ot_blocks : Fin N → Fin 2 → Block} {bhat : Fin N → UInt8}
    {r_c : List RcEntry} {uid : Uid} {voprf : Option (ClientVoprf S)} {state : ClientState S}
    (h : ClientState.new ot_blocks bhat r_c uid voprf = some state) :
    state.ot_blocks = ot_blocks ∧ state.bhat = bhat ∧ state.r_c = r_c ∧ state.uid = uid ∧
      state.runs = Runs.new r_c.length ∧ state.voprf = voprf := by
  unfold ClientState.new at h
  split_ifs at h
  obtain rfl := Option.some.inj h
  exact ⟨rfl, rfl, rfl, rfl, rfl, rfl⟩

theorem ServerState.new_eq_some {r_s : Fin N → RsEntry} {s_s : List (Fin DELTA → Zp)} {uid : Uid}
    {voprf : Option ServerVoprf} {state : ServerState}
    (h : ServerState.new r_s s_s uid voprf = some state) :
    state.r_s = r_s ∧ state.s_s = s_s ∧ state.uid = uid ∧ state.runs = Runs.new s_s.length ∧
      state.voprf = voprf := by
  unfold ServerState.new at h
  split_ifs at h
  obtain rfl := Option.some.inj h
  exact ⟨rfl, rfl, rfl, rfl, rfl⟩

/-- What a client that gets to the end of a VOPRF's preprocessing has received and checked. -/
structure VoprfReceived (pk : VerifiedKey S) (blake3 : Blake3) (tau : ℕ) (ots : ClientOts)
    (received : ServerMessages S stark) (bhat : Fin N → UInt8) (voprf : ClientVoprf S) : Prop where
  pk_eq : voprf.pk = pk
  pads : receivePadsCommitments stark ots 0 (evaluationsFor tau) received.pads = some (.ok voprf.d)
  m_length : voprf.m.length = evaluationsFor tau
  proof : ∃ proof, received.proof = some ⟨voprf.m, proof⟩ ∧ PreprocessingAir.verify stark
    (clientStatement pk bhat (masksCommitments blake3 ots.ot_blocks (evaluationsFor tau)) voprf.m)
      proof = .ok ()

/-- What the client's verification of the preprocessing leaves. -/
theorem finish_eq_ok {pk : VerifiedKey S} {c : List (MasksCommitments S)}
    {d : List (PadsCommitments S)} {b_bar : Fin N → UInt8}
    {message : Option (PreprocessingProof S stark)} {voprf : ClientVoprf S}
    (h : finish pk c d b_bar message = .ok voprf) :
    voprf.pk = pk ∧ voprf.d = d ∧ voprf.m.length = c.length ∧
      ∃ proof, message = some ⟨voprf.m, proof⟩ ∧
        PreprocessingAir.verify stark (clientStatement pk b_bar c voprf.m) proof = .ok () := by
  unfold finish at h
  cases message with
  | none => cases h
  | some message =>
    dsimp only at h
    split_ifs at h with hlen
    cases hverify : PreprocessingAir.verify stark (clientStatement pk b_bar c message.m)
      message.proof with
    | error error =>
      rw [hverify] at h
      cases h
    | ok =>
      rw [hverify] at h
      cases h
      exact ⟨rfl, rfl, not_not.mp hlen, message.proof, rfl, hverify⟩

/-- The client's preprocessing from `b̄` on. -/
def clientEnd (blake3 : Blake3) (pk : Option (VerifiedKey S)) (tau : ℕ) (uid : Uid) (ots : ClientOts)
    (received : ServerMessages S stark) (d : List (PadsCommitments S)) :
    Option (Except (PreprocError stark) (ClientState S)) :=
  match received.bhat with
  | none => some (.error .UnexpectedClose)
  | some bhat =>
    if bhat.length ≠ N then some (.error (.Malformed "b_hat has wrong length"))
    else if ¬ bhat.all (fun b => b.toNat ≤ 1) then
      some (.error (.Malformed "b_hat entries must be bits"))
    else do
      let b_bar ← fromFn fun i : Fin N => bhat[i.val]?
      match pk with
      | none => do
        some (.ok (← ClientState.new ots.ot_blocks b_bar (rcEntries ots) uid none))
      | some pk =>
        match finish pk (masksCommitments blake3 ots.ot_blocks (evaluationsFor tau)) d b_bar
            received.proof with
        | .error error => some (.error error)
        | .ok voprf => do
          some (.ok (← ClientState.new ots.ot_blocks b_bar (rcEntries ots) uid (some voprf)))

section Client

variable {blake3 : Blake3} {tau : ℕ} {uid : Uid} {ots : ClientOts}
  {received : ServerMessages S stark}

/-- The client's preprocessing after its opening: the check of `d`, if a VOPRF, and `b̄`. -/
theorem preprocClientWith_of_opened {pk : Option (VerifiedKey S)} {opened : Opened}
    (h : clientOpening stark uid tau pk.isSome received.echoed = .ok opened) :
    preprocClientWith blake3 pk tau uid ots received =
      (if pk.isSome then receivePadsCommitments stark ots 0 (evaluationsFor tau) received.pads
        else some (.ok [])).bind fun pads =>
          match pads with
          | .error error => some (.error error)
          | .ok d => clientEnd blake3 pk tau uid ots received d := by
  obtain ⟨⟨hpos, hrows⟩, -, echoed, hechoed, hdecode⟩ := clientOpening_eq_ok.mp h
  have hsmall : ¬ (pk.isSome = true ∧ evaluationsFor tau = 0) := by
    rintro ⟨hvoprf, hzero⟩
    have hle := hrows hvoprf
    have hlt := evaluationsFor_eq_zero.mp hzero
    omega
  unfold preprocClientWith
  rw [if_neg (by omega), if_neg hsmall, hechoed]
  dsimp only
  rw [decodeTau_eq_ok.mpr hdecode]
  dsimp only
  rw [if_neg (not_not.mpr rfl)]
  cases pk <;> rfl

/-- A client that gets past `b̄` read it whole. -/
theorem clientEnd_eq_ok {pk : Option (VerifiedKey S)} {d : List (PadsCommitments S)}
    {state : ClientState S} (h : clientEnd blake3 pk tau uid ots received d = some (.ok state)) :
    ∃ b_bar, received.bhat = some (List.ofFn b_bar) ∧
      ((pk = none ∧ ClientState.new ots.ot_blocks b_bar (rcEntries ots) uid none = some state) ∨
        ∃ key voprf, pk = some key ∧
          finish key (masksCommitments blake3 ots.ot_blocks (evaluationsFor tau)) d b_bar
            received.proof = .ok voprf ∧
          ClientState.new ots.ot_blocks b_bar (rcEntries ots) uid (some voprf) = some state) := by
  unfold clientEnd at h
  cases hbhat : received.bhat with
  | none =>
    rw [hbhat] at h
    cases h
  | some bhat =>
    rw [hbhat] at h
    dsimp only at h
    -- `b̄` has an entry for each bit of the key, and each of them is a bit.
    by_cases hlen : bhat.length = N
    swap
    · rw [if_pos hlen] at h
      cases h
    rw [if_neg (not_not.mpr hlen)] at h
    by_cases hbits : bhat.all fun b => b.toNat ≤ 1
    swap
    · rw [if_pos hbits] at h
      cases h
    rw [if_neg (not_not.mpr hbits), Option.bind_eq_bind, Option.bind_eq_some_iff] at h
    obtain ⟨b_bar, hb_bar, h⟩ := h
    refine ⟨b_bar, by rw [eq_ofFn_of_fromFn hlen hb_bar], ?_⟩
    cases pk with
    | none =>
      obtain ⟨state', hnew, h⟩ := Option.bind_eq_some_iff.mp h
      cases h
      exact Or.inl ⟨rfl, hnew⟩
    | some key =>
      dsimp only at h
      -- A VOPRF's client verifies `π_preproc` before it makes its state.
      cases hfinish : finish key (masksCommitments blake3 ots.ot_blocks (evaluationsFor tau)) d
        b_bar received.proof with
      | error error =>
        rw [hfinish] at h
        cases h
      | ok voprf =>
        rw [hfinish] at h
        obtain ⟨state', hnew, h⟩ := Option.bind_eq_some_iff.mp h
        cases h
        exact Or.inr ⟨key, voprf, rfl, hfinish, hnew⟩

/-- Bits pass the check of `b̄`. -/
theorem all_le_one_ofFn {b_bar : Fin N → UInt8} (hle : ∀ i, (b_bar i).toNat ≤ 1) :
    ((List.ofFn b_bar).all fun b => b.toNat ≤ 1) = true := by
  rw [List.all_eq_true]
  intro b hb
  obtain ⟨i, rfl⟩ := List.mem_ofFn.mp hb
  exact decide_eq_true (hle i)

/-- A client with nothing to keep for a VOPRF ends with a fresh state once `b̄` is bits. -/
theorem clientEnd_plain (blake3 : Blake3) (tau : ℕ) (uid : Uid) (ots : ClientOts)
    (d : List (PadsCommitments S)) {b_bar : Fin N → UInt8}
    (hbhat : received.bhat = some (List.ofFn b_bar)) (hle : ∀ i, (b_bar i).toNat ≤ 1) :
    ∃ state, clientEnd blake3 none tau uid ots received d = some (.ok state) := by
  have hall := all_le_one_ofFn hle
  have hread : (fromFn fun i : Fin N => (List.ofFn b_bar)[i.val]?) = some b_bar :=
    fromFn_ofFn b_bar
  obtain ⟨state, hnew⟩ : ∃ state, ClientState.new (S := S) ots.ot_blocks b_bar (rcEntries ots) uid
      none = some state :=
    ⟨_, dif_pos ⟨hle, fun _ h => (by cases h), fun _ h => (by cases h)⟩⟩
  refine ⟨state, ?_⟩
  unfold clientEnd
  rw [hbhat]
  dsimp only
  rw [if_neg (not_not.mpr List.length_ofFn), if_neg (not_not.mpr hall), hread]
  simp only [Option.bind_eq_bind, Option.bind_some, hnew]

end Client

/-- What a client that gets to the end of the preprocessing holds. -/
structure ClientEstablished (blake3 : Blake3) (pk : Option (VerifiedKey S)) (tau : ℕ) (uid : Uid)
    (ots : ClientOts) (received : ServerMessages S stark) (state : ClientState S) : Prop where
  opened : clientOpening stark uid tau pk.isSome received.echoed = .ok ⟨uid, tau, pk.isSome⟩
  ot_blocks : state.ot_blocks = ots.ot_blocks
  r_c : state.r_c = rcEntries ots
  uid_eq : state.uid = uid
  runs : state.runs = Runs.new (rcEntries ots).length
  bhat : received.bhat = some (List.ofFn state.bhat)
  plain : pk = none → state.voprf = none
  voprf : ∀ key, pk = some key →
    ∃ voprf, state.voprf = some voprf ∧ VoprfReceived key blake3 tau ots received state.bhat voprf

theorem preprocClientWith_eq_ok {blake3 : Blake3} {pk : Option (VerifiedKey S)} {tau : ℕ} {uid : Uid}
    {ots : ClientOts} {received : ServerMessages S stark} {state : ClientState S}
    (h : preprocClientWith blake3 pk tau uid ots received = some (.ok state)) :
    ClientEstablished blake3 pk tau uid ots received state := by
  cases hopening : clientOpening stark uid tau pk.isSome received.echoed with
  | error error =>
    rw [preprocClientWith_of_opening blake3 pk ots received hopening] at h
    cases h
  | ok opened =>
    have hopened := (clientOpening_eq_ok.mp hopening).2.1
    rw [preprocClientWith_of_opened hopening, Option.bind_eq_some_iff] at h
    obtain ⟨pads, hpads, h⟩ := h
    cases pads with
    | error error => cases h
    | ok d =>
      obtain ⟨b_bar, hbhat, hnew⟩ := clientEnd_eq_ok h
      rw [hopened] at hopening
      -- Which of the two modes the end was in says what the new state keeps for the proofs.
      rcases hnew with ⟨rfl, hnew⟩ | ⟨key, voprf, rfl, hfinish, hnew⟩
      · obtain ⟨hblocks, hbar, hr_c, huid, hruns, hvoprf⟩ := ClientState.new_eq_some hnew
        exact ⟨hopening, hblocks, hr_c, huid, hruns, by rw [hbar]; exact hbhat, fun _ => hvoprf,
          fun key hkey => (by cases hkey)⟩
      · obtain ⟨hblocks, hbar, hr_c, huid, hruns, hvoprf⟩ := ClientState.new_eq_some hnew
        obtain ⟨hpk, hd, hm, hproof⟩ := finish_eq_ok hfinish
        refine ⟨hopening, hblocks, hr_c, huid, hruns, by rw [hbar]; exact hbhat,
          fun hnone => (by cases hnone), fun key' hkey => ?_⟩
        obtain rfl := Option.some.inj hkey
        refine ⟨voprf, hvoprf, hpk, ?_, ?_, by rw [hbar]; exact hproof⟩
        · rw [hd]
          exact hpads
        · rw [hm, masksCommitments, List.length_map, List.length_range]

/-- What a server that gets to the end of the preprocessing holds and sent. -/
structure ServerEstablished (S : Permutations) (blake3 : Blake3) (coins : stark.Coins)
    (sk : SecretKey) (tau : ℕ) (opened : Opened) (ots : ServerOts) (masks : List (MasksMessage S))
    (sent : ServerMessages S stark) (state : ServerState) : Prop where
  r_s : state.r_s = ots.r_s
  s_s : state.s_s = serverPads ots
  uid_eq : state.uid = opened.uid
  runs : state.runs = Runs.new (serverPads ots).length
  bhat : sent.bhat = some (List.ofFn (maskedKeyBits sk ots.r_s))
  plain : opened.voprf = false → state.voprf = none
  voprf : opened.voprf = true → state.voprf = some ⟨ots.delta_ot_blocks⟩ ∧ ∃ c proof,
    receiveMasksCommitments stark blake3 ots.r_s (evaluationsFor tau) masks = some (.ok c) ∧
    padsCommitments ots.delta_ot_blocks (evaluationsFor tau) = some sent.pads ∧
    sent.proof = some proof ∧
    proveServer blake3 coins sk ots (maskedKeyBits sk ots.r_s) c =
      some (.ok (proof, ⟨ots.delta_ot_blocks⟩))

/-- The server keeps the 1-out-of-Δ OT blocks. -/
theorem proveServer_voprf {blake3 : Blake3} {coins : stark.Coins} {sk : SecretKey} {ots : ServerOts}
    {b_bar : Fin N → UInt8} {c : List (MasksCommitments S)}
    {proof : PreprocessingProof S stark} {voprf : ServerVoprf}
    (h : proveServer blake3 coins sk ots b_bar c = some (.ok (proof, voprf))) :
    voprf = ⟨ots.delta_ot_blocks⟩ := by
  unfold proveServer at h
  rw [Option.bind_eq_bind, Option.bind_eq_some_iff] at h
  obtain ⟨⟨statement, witness⟩, -, h⟩ := h
  obtain ⟨result, -, h⟩ := Option.bind_eq_some_iff.mp h
  cases result with
  | error error => cases h
  | ok proof' =>
    cases h
    rfl

section Server

variable {blake3 : Blake3} {coins : stark.Coins} {sk : SecretKey} {tau : ℕ} {uid : Uid}
  {ots : ServerOts} {masks : List (MasksMessage S)}

theorem preprocServerMessages_eq_ok {c : List (MasksCommitments S)} {d : List (PadsMessage S)}
    {b_bar : Fin N → UInt8} :
    preprocServerMessages stark blake3 sk tau ots masks = some (.ok (c, d, b_bar)) ↔
      receiveMasksCommitments stark blake3 ots.r_s (evaluationsFor tau) masks = some (.ok c) ∧
        padsCommitments ots.delta_ot_blocks (evaluationsFor tau) = some d ∧
        b_bar = maskedKeyBits sk ots.r_s := by
  unfold preprocServerMessages
  rw [Option.bind_eq_bind, Option.bind_eq_some_iff]
  constructor
  · rintro ⟨result, hreceive, h⟩
    cases result with
    | error error => cases h
    | ok c' =>
      obtain ⟨d', hd, h⟩ := Option.bind_eq_some_iff.mp h
      cases h
      exact ⟨hreceive, hd, rfl⟩
  · rintro ⟨hreceive, hd, rfl⟩
    refine ⟨_, hreceive, ?_⟩
    simp only [hd, Option.bind_eq_bind, Option.bind_some]

end Server

theorem preprocServerVoprf_eq_ok {blake3 : Blake3} {coins : stark.Coins} {sk : SecretKey} {tau : ℕ}
    {uid : Uid} {ots : ServerOts} {masks : List (MasksMessage S)} {pads : List (PadsMessage S)}
    {b_bar : Fin N → UInt8} {proof : PreprocessingProof S stark} {state : ServerState}
    (h : preprocServerVoprf blake3 coins sk tau uid ots masks =
      some (.ok (pads, b_bar, proof, state))) :
    ∃ c, receiveMasksCommitments stark blake3 ots.r_s (evaluationsFor tau) masks = some (.ok c) ∧
      padsCommitments ots.delta_ot_blocks (evaluationsFor tau) = some pads ∧
      b_bar = maskedKeyBits sk ots.r_s ∧
      proveServer blake3 coins sk ots (maskedKeyBits sk ots.r_s) c =
        some (.ok (proof, ⟨ots.delta_ot_blocks⟩)) ∧
      ServerState.new ots.r_s (serverPads ots) uid (some ⟨ots.delta_ot_blocks⟩) = some state := by
  unfold preprocServerVoprf at h
  rw [Option.bind_eq_bind, Option.bind_eq_some_iff] at h
  obtain ⟨messages, hmessages, h⟩ := h
  cases messages with
  | error error => cases h
  | ok messages =>
    obtain ⟨c, d, b_bar'⟩ := messages
    -- The commitments are received and checked first, and `b̄` and `d` are made before the proof.
    obtain ⟨hreceive, hd, rfl⟩ := preprocServerMessages_eq_ok.mp hmessages
    obtain ⟨result, hprove, h⟩ := Option.bind_eq_some_iff.mp h
    cases result with
    | error error => cases h
    | ok result =>
      obtain ⟨proof', voprf⟩ := result
      obtain rfl := proveServer_voprf hprove
      obtain ⟨state', hnew, h⟩ := Option.bind_eq_some_iff.mp h
      cases h
      exact ⟨c, hreceive, hd, rfl, hprove, hnew⟩

theorem serverPanics_ne_ok {α : Type} {blake3 : Blake3} {build : Build} {tau : ℕ} {binary : BinaryOts}
    {opened : Opened} {masks : List (MasksMessage S)} (result : α) :
    (serverPanics blake3 build tau binary opened masks : Option (Except (PreprocError stark) α)) ≠
      some (.ok result) := by
  unfold serverPanics
  intro h
  split_ifs at h
  rw [Option.bind_eq_bind, Option.bind_eq_some_iff] at h
  obtain ⟨r_s, -, h⟩ := h
  obtain ⟨received, -, h⟩ := Option.bind_eq_some_iff.mp h
  cases received <;> cases h

/-- What a server that gets to the end of the preprocessing holds. -/
theorem preprocServer_eq_ok {blake3 : Blake3} {build : Build} {coins : stark.Coins}
    {sk : SecretKey} {tau : ℕ} {binary delta : BinaryOts} {hello : Option (List UInt8)}
    {masks : List (MasksMessage S)} {sent : ServerMessages S stark} {state : ServerState}
    (h : preprocServer blake3 build coins sk tau binary delta hello masks =
      some (.ok (sent, state))) :
    ∃ opened ots, serverOpening stark tau hello = some (sent.echoed, .ok opened) ∧
      serverOtsOf blake3 build binary delta tau = some ots ∧
      ServerEstablished S blake3 coins sk tau opened ots masks sent state := by
  unfold preprocServer at h
  rw [Option.bind_eq_bind, Option.bind_eq_some_iff] at h
  obtain ⟨⟨echoed, opening⟩, hopening, h⟩ := h
  cases opening with
  | error error => cases h
  | ok opened =>
    dsimp only at h
    cases hots : serverOtsOf blake3 build binary delta tau with
    | none =>
      rw [hots] at h
      exact absurd h (serverPanics_ne_ok _)
    | some ots =>
    rw [hots] at h
    dsimp only at h
    -- The client's hello says which of the two preprocessings the server runs.
    cases hvoprf : opened.voprf with
    | true =>
      rw [if_pos hvoprf, Option.bind_eq_bind, Option.bind_eq_some_iff] at h
      obtain ⟨result, hresult, h⟩ := h
      cases result with
      | error error => cases h
      | ok result =>
        obtain ⟨pads, b_bar, proof, state'⟩ := result
        cases h
        obtain ⟨c, hreceive, hd, rfl, hprove, hnew⟩ := preprocServerVoprf_eq_ok hresult
        obtain ⟨hr_s, hs_s, huid, hruns, hstate⟩ := ServerState.new_eq_some hnew
        refine ⟨opened, ots, hopening, rfl, hr_s, hs_s, huid, hruns, rfl, fun hfalse => ?_,
          fun _ => ⟨hstate, c, proof, hreceive, hd, rfl, hprove⟩⟩
        rw [hvoprf] at hfalse
        cases hfalse
    | false =>
      rw [if_neg (by rw [hvoprf]; exact Bool.false_ne_true), Option.bind_eq_bind,
        Option.bind_eq_some_iff] at h
      obtain ⟨state', hnew, h⟩ := h
      cases h
      obtain ⟨hr_s, hs_s, huid, hruns, hstate⟩ := ServerState.new_eq_some hnew
      refine ⟨opened, ots, hopening, rfl, hr_s, hs_s, huid, hruns, rfl, fun _ => hstate,
        fun htrue => ?_⟩
      rw [hvoprf] at htrue
      cases htrue

/-! ## Matching states -/

section Matching

variable {blake3 : Blake3} {pk : Option (VerifiedKey S)} {tau : ℕ} {uid : Uid} {client : ClientOts}
  {server : ServerOts} {sent : ServerMessages S stark}

theorem OtsMatched.rcEntries_length (h : OtsMatched client server tau) :
    (rcEntries client).length = tau := by
  unfold rcEntries
  rw [List.length_zipWith, h.blocks_length, h.choices_length, min_self]

theorem OtsMatched.serverPads_length (h : OtsMatched client server tau) :
    (serverPads server).length = tau := by
  unfold serverPads
  rw [List.length_map, h.delta_length]

/-- The client's pad of a run is the server's at the client's choice. -/
theorem OtsMatched.pads (h : OtsMatched client server tau) {j : ℕ} {rc : RcEntry}
    (hrc : (rcEntries client)[j]? = some rc) :
    ∃ pads, (serverPads server)[j]? = some pads ∧
      index pads rc.b_prime.toNat = some rc.r_prime := by
  unfold rcEntries at hrc
  obtain ⟨block, choice, hblock, hchoice, rfl⟩ := List.getElem?_zipWith_eq_some.mp hrc
  obtain ⟨row, block', hrow, hblock', hindex⟩ := h.block j choice hchoice
  obtain rfl := Option.some.inj (hblock.symm.trans hblock')
  refine ⟨fun k => rPrimeFromBlock (row k), ?_, ?_⟩
  · unfold serverPads
    rw [List.getElem?_map, hrow, Option.map_some]
  · rw [index_of_lt _ choice.2] at hindex ⊢
    rw [Option.some.inj hindex]

/-- A client and a server that get to the end over the same OTs, the client with what the server
sent, hold matching states. -/
theorem matched_of_established {coins : stark.Coins} {sk : SecretKey} {opened : Opened}
    {masks : List (MasksMessage S)} {state : ClientState S} {state' : ServerState} {entries : ℕ}
    (hots : OtsMatched client server entries)
    (hclient : ClientEstablished blake3 pk tau uid client sent state)
    (hserver : ServerEstablished S blake3 coins sk tau opened server masks sent state')
    (huid : opened.uid = uid) : Matched state state' sk where
  uid := by rw [hserver.uid_eq, hclient.uid_eq, huid]
  ot_block i := by
    rw [hclient.ot_blocks, hserver.r_s]
    exact hots.ot_block i
  bhat i := by
    have hlist := Option.some.inj (hclient.bhat.symm.trans hserver.bhat)
    rw [List.ofFn_injective hlist, hserver.r_s]
    rfl
  tau := by
    rw [hclient.runs, hserver.runs, hots.rcEntries_length, hots.serverPads_length]
  r_prime j rc hrc := by
    rw [hclient.r_c] at hrc
    rw [hserver.s_s]
    exact hots.pads hrc

/-- What an honest client's hello says. -/
theorem opened_of_hello {voprf : Bool} {hello : List UInt8} {echoed : Option (List UInt8)}
    {opened : Opened} {tau' : ℕ} (hhello : clientHello stark uid tau voprf = .ok hello)
    (hopening : serverOpening stark tau' (some hello) = some (echoed, .ok opened)) :
    opened.uid = uid ∧ opened.voprf = voprf := by
  obtain ⟨echoed', result, hopening', hok⟩ := serverOpening_eq_ok stark tau' (some hello)
  obtain ⟨rfl, rfl⟩ := Prod.mk.inj (Option.some.inj (hopening.symm.trans hopening'))
  obtain ⟨-, -, bytes, hbytes, hfrom⟩ := (hok opened).mp rfl
  obtain rfl := Option.some.inj hbytes
  obtain ⟨-, rfl⟩ := clientHello_eq_ok hhello
  have huid : (List.ofFn uid).length = 16 := List.length_ofFn
  have htau : (encodeTau tau).length = 8 := by
    unfold encodeTau u64ToLeBytes
    rw [List.length_map, List.length_range]
  -- The uid is the first of the three fields, and the flag is the last.
  constructor
  · funext i
    have hi : i.val < 16 := i.isLt
    have hbyte := hfrom.uid i
    rw [List.append_assoc, List.getElem?_append_left (by omega), List.getElem?_ofFn,
      dif_pos i.isLt] at hbyte
    exact (Option.some.inj hbyte).symm
  · have hflag := hfrom.flag
    rw [List.getElem?_append_right (by rw [List.length_append, huid, htau]; rfl),
      List.length_append, huid, htau] at hflag
    have hbyte : voprf.toUInt8 = opened.voprf.toUInt8 := Option.some.inj hflag
    revert hbyte
    cases voprf <;> cases opened.voprf <;> decide

end Matching

/-! ## Runs of both sides -/

theorem preprocClient_eq_ok {blake3 : Blake3} {build : Build} {pk : Option (VerifiedKey S)}
    {tau : ℕ} {uid : Uid} {binary delta : BinaryOts} {received : ServerMessages S stark}
    {state : ClientState S}
    (h : preprocClient blake3 build pk tau uid binary delta received = some (.ok state)) :
    ∃ ots, clientOtsOf blake3 build binary delta tau = some ots ∧
      ClientEstablished blake3 pk tau uid ots received state := by
  unfold preprocClient at h
  cases hopening : clientOpening stark uid tau pk.isSome received.echoed with
  | error error =>
    rw [hopening] at h
    cases h
  | ok opened =>
    rw [hopening] at h
    obtain ⟨ots, hots, h⟩ := Option.bind_eq_some_iff.mp h
    exact ⟨ots, hots, preprocClientWith_eq_ok h⟩

/-- What an honest client's hello opens at a server with the same τ. -/
theorem serverOpening_honest (stark : Stark Val) (uid : Uid) {tau : UInt64} {voprf : Bool}
    (h : TauAllowed tau.toNat voprf) :
    serverOpening stark tau.toNat (clientHello stark uid tau.toNat voprf).toOption =
      some (some (encodeTau tau.toNat), .ok ⟨uid, tau.toNat, voprf⟩) := by
  have hpos := h.1
  have hcheck : serverCheck stark tau.toNat ⟨uid, tau.toNat, voprf⟩ = .ok ⟨uid, tau.toNat, voprf⟩ :=
    serverCheck_eq_ok.mpr ⟨rfl, h.2, rfl⟩
  rw [clientHello_of_allowed h]
  unfold serverOpening
  rw [if_neg (by omega)]
  simp only [Except.toOption, readHello_clientHello, Option.bind_eq_bind, Option.bind_some, hcheck]

/-- And what the server's echo opens at the client. -/
theorem clientOpening_honest (stark : Stark Val) (uid : Uid) {tau : UInt64} {voprf : Bool}
    (h : TauAllowed tau.toNat voprf) :
    clientOpening stark uid tau.toNat voprf (some (encodeTau tau.toNat)) =
      .ok ⟨uid, tau.toNat, voprf⟩ :=
  clientOpening_eq_ok.mpr ⟨h, rfl, _, rfl, decodeTau_eq_ok.mp (decodeTau_encodeTau stark tau)⟩

/-- OTs that are asked for give both sides their parts. -/
theorem ots_exist (blake3 : Blake3) {build : Build} (binary delta : BinaryOts) {tau m : ℕ}
    (hm : requiredBinaryOtCount build tau = some m) :
    ∃ client server, clientOtsOf blake3 build binary delta tau = some client ∧
      serverOtsOf blake3 build binary delta tau = some server := by
  obtain ⟨n, hn, hle, -⟩ := nextMultipleOf_spec N build.base_pos
  exact ⟨_, _, clientOtsOf_eq hn hle hm (entries_le rfl) rfl,
    serverOtsOf_eq hn hle hm (entries_le rfl) rfl⟩

/-- A preprocessing in plain mode gets to its end on both sides. -/
theorem plain_preprocessing (blake3 : Blake3) {build : Build} (stark : Stark Val) (sk : SecretKey)
    (tau : UInt64) {m : ℕ} (hm : requiredBinaryOtCount build tau.toNat = some m) (uid : Uid)
    (binary delta : BinaryOts) (masks : List (MasksMessage S)) (coins : stark.Coins) :
    ∃ (sent : ServerMessages S stark) (server : ServerState) (client : ClientState S),
      preprocServer blake3 build coins sk tau.toNat binary delta
        (clientHello stark uid tau.toNat false).toOption masks = some (.ok (sent, server)) ∧
      preprocClient blake3 build none tau.toNat uid binary delta sent =
        some (.ok client) := by
  have hpos : 1 ≤ tau.toNat := (requiredBinaryOtCount_eq_some hm).1
  have hallowed : TauAllowed tau.toNat false := ⟨hpos, fun h => (by cases h)⟩
  obtain ⟨cots, sots, hcots, hsots⟩ := ots_exist blake3 binary delta hm
  obtain ⟨server, hserver⟩ : ∃ server,
      ServerState.new sots.r_s (serverPads sots) uid none = some server :=
    ⟨_, dif_pos fun _ h => (by cases h)⟩
  -- What the server sends is the count that it echoes and `b̄`: there are no pads and no proof.
  let sent : ServerMessages S stark :=
    ⟨some (encodeTau tau.toNat), [], some (List.ofFn (maskedKeyBits sk sots.r_s)), none⟩
  have hbhat : sent.bhat = some (List.ofFn (maskedKeyBits sk sots.r_s)) := rfl
  obtain ⟨client, hclient⟩ :=
    clientEnd_plain blake3 tau.toNat uid cots [] hbhat (maskedKeyBits_le sk sots.r_s)
  have hopening : clientOpening stark uid tau.toNat (none : Option (VerifiedKey S)).isSome
      sent.echoed = .ok ⟨uid, tau.toNat, false⟩ := clientOpening_honest stark uid hallowed
  refine ⟨sent, server, client, ?_, ?_⟩
  · unfold preprocServer
    rw [serverOpening_honest stark uid hallowed]
    simp only [Option.bind_eq_bind, Option.bind_some, hsots]
    rw [if_neg Bool.false_ne_true, hserver, Option.bind_some]
  · unfold preprocClient
    rw [hopening]
    simp only [Option.bind_eq_bind, hcots, Option.bind_some]
    rw [preprocClientWith_of_opened hopening]
    simp only [Option.isSome_none, Bool.false_eq_true, if_false, Option.bind_some]
    exact hclient

/-- When both sides get to the end with the same τ, each with what the other sent, the server opened
what the client asked for. -/
theorem both_established {blake3 : Blake3} {build : Build} {coins : stark.Coins} {sk : SecretKey}
    (pk : Option (VerifiedKey S)) {tau : ℕ} {uid : Uid} {binary delta : BinaryOts}
    {masks : List (MasksMessage S)} {sent : ServerMessages S stark} {client : ClientState S}
    {server : ServerState}
    (hserver : preprocServer blake3 build coins sk tau binary delta
      (clientHello stark uid tau pk.isSome).toOption masks = some (.ok (sent, server)))
    (hclient : preprocClient blake3 build pk tau uid binary delta sent =
      some (.ok client)) :
    ∃ opened cots sots m, requiredBinaryOtCount build tau = some m ∧
      OtsMatched cots sots (min tau (m / LOG_DELTA)) ∧ opened.uid = uid ∧ opened.voprf = pk.isSome ∧
      ClientEstablished blake3 pk tau uid cots sent client ∧
      ServerEstablished S blake3 coins sk tau opened sots masks sent server := by
  obtain ⟨opened, sots, hopening, hsots, hserver⟩ := preprocServer_eq_ok hserver
  obtain ⟨cots, hcots, hclient⟩ := preprocClient_eq_ok hclient
  -- A server that goes on has a hello, which the client sent.
  obtain ⟨huid, hvoprf⟩ : opened.uid = uid ∧ opened.voprf = pk.isSome := by
    cases hhello : clientHello stark uid tau pk.isSome with
    | ok hello =>
      rw [hhello] at hopening
      exact opened_of_hello hhello hopening
    | error error =>
      have hopened := hclient.opened
      unfold clientOpening at hopened
      rw [hhello] at hopened
      cases hopened
  obtain ⟨m, hm, hots⟩ := otsMatched_of_binary hcots hsots
  exact ⟨opened, cots, sots, m, hm, hots, huid, hvoprf, hclient, hserver⟩

/-- What the online phase relies on, of the states that a preprocessing leaves. -/
structure StatesMatch (sk : SecretKey) (voprf : Bool) (tau : ℕ) (uid : Uid) (client : ClientState S)
    (server : ServerState) : Prop where
  /-- One session. -/
  server_uid : server.uid = uid
  client_uid : client.uid = uid
  /-- One mode. -/
  server_voprf : server.voprf.isSome = voprf
  client_voprf : client.voprf.isSome = voprf
  /-- In each binary OT the server's block is the client's at the server's bit, and `b̄` is that bit
  masked by the key's. -/
  binary : ∀ i, (server.r_s i).b.toNat ≤ 1 ∧ (client.bhat i).toNat ≤ 1 ∧
    index (client.ot_blocks i) (server.r_s i).b.toNat = some (server.r_s i).ot_block ∧
    client.bhat i = (server.r_s i).b ^^^ sk.bits i
  /-- Each side has exactly τ entries. -/
  r_c_length : client.r_c.length = tau
  s_s_length : server.s_s.length = tau
  /-- The client's pad of each run is the server's at the client's choice, which is in `ℤ_Δ`. -/
  pads : ∀ j < tau, ∃ rc pads, client.r_c[j]? = some rc ∧ server.s_s[j]? = some pads ∧
    rc.b_prime.toNat < DELTA ∧ index pads rc.b_prime.toNat = some rc.r_prime
  /-- Nothing is spent. -/
  client_runs : client.runs = Runs.new tau
  server_runs : server.runs = Runs.new tau

/-- The states of two sides that get to their ends match if there are τ entries. -/
theorem statesMatch_of_established {blake3 : Blake3} {pk : Option (VerifiedKey S)} {tau : ℕ} {uid : Uid}
    {coins : stark.Coins} {sk : SecretKey} {opened : Opened} {cots : ClientOts} {sots : ServerOts}
    {masks : List (MasksMessage S)} {sent : ServerMessages S stark} {client : ClientState S}
    {server : ServerState} (hots : OtsMatched cots sots tau) (huid : opened.uid = uid)
    (hvoprf : opened.voprf = pk.isSome) (hclient : ClientEstablished blake3 pk tau uid cots sent client)
    (hserver : ServerEstablished S blake3 coins sk tau opened sots masks sent server) :
    StatesMatch sk pk.isSome tau uid client server := by
  have hmatched := matched_of_established hots hclient hserver huid
  have hr_c : client.r_c.length = tau := by rw [hclient.r_c, hots.rcEntries_length]
  have hs_s : server.s_s.length = tau := by rw [hserver.s_s, hots.serverPads_length]
  refine ⟨by rw [hserver.uid_eq, huid], hclient.uid_eq, ?_, ?_, fun i => ⟨(server.r_s i).b_le,
    client.bhat_le i, hmatched.ot_block i, hmatched.bhat i⟩, hr_c, hs_s, fun j hj => ?_, ?_, ?_⟩
  · -- The server's mode is the one of the hello, which the client sends for its key.
    cases hmode : opened.voprf with
    | true => rw [(hserver.voprf hmode).1, ← hvoprf, hmode]; rfl
    | false => rw [hserver.plain hmode, ← hvoprf, hmode]; rfl
  · cases pk with
    | none => rw [hclient.plain rfl]; rfl
    | some key =>
      obtain ⟨voprf, hstate, -⟩ := hclient.voprf key rfl
      rw [hstate]
      rfl
  · obtain ⟨rc, hrc⟩ : ∃ rc, client.r_c[j]? = some rc :=
      ⟨_, List.getElem?_eq_getElem (by rw [hr_c]; exact hj)⟩
    obtain ⟨pads, hpads, hindex⟩ := hmatched.r_prime j rc hrc
    exact ⟨rc, pads, hrc, hpads, rc.b_prime_lt, hindex⟩
  · rw [hclient.runs, hots.rcEntries_length]
  · rw [hserver.runs, hots.serverPads_length]

/-- When both sides get to the end, their states match exactly where τ fits. It does if overflows
panic, and in a VOPRF, whose server would have no blocks for the last of `d`. -/
theorem statesMatch_iff {blake3 : Blake3} {build : Build} {coins : stark.Coins} {sk : SecretKey}
    (pk : Option (VerifiedKey S)) {tau : ℕ} {uid : Uid} {binary delta : BinaryOts}
    {masks : List (MasksMessage S)} {sent : ServerMessages S stark} {client : ClientState S}
    {server : ServerState}
    (hserver : preprocServer blake3 build coins sk tau binary delta
      (clientHello stark uid tau pk.isSome).toOption masks = some (.ok (sent, server)))
    (hclient : preprocClient blake3 build pk tau uid binary delta sent = some (.ok client)) :
    (StatesMatch sk pk.isSome tau uid client server ↔ build.Fits tau) ∧
      (build.overflow_checks = true ∨ pk.isSome = true → build.Fits tau) := by
  obtain ⟨opened, cots, sots, m, hm, hots, huid, hvoprf, hclient, hserver⟩ :=
    both_established pk hserver hclient
  obtain ⟨-, henough, hchecks⟩ := requiredBinaryOtCount_eq_some hm
  refine ⟨⟨fun hmatch => ?_, fun hfits => ?_⟩, fun hcond => hcond.elim hchecks fun hmode => ?_⟩
  · have hlen := hmatch.r_c_length
    rw [hclient.r_c, hots.rcEntries_length] at hlen
    exact henough.mp (min_eq_left_iff.mp hlen)
  · rw [Nat.min_eq_left (henough.mpr hfits)] at hots
    exact statesMatch_of_established hots huid hvoprf hclient hserver
  -- A VOPRF server commits to the pads of all evaluations, which fewer OTs do not have.
  · by_contra hfits
    obtain ⟨-, hfewer⟩ := requiredBinaryOtCount_of_not_fits hfits hm
    obtain ⟨-, c, proof, -, hd, -⟩ := hserver.voprf (hvoprf.trans hmode)
    have hle := tauFor_le_of_padsCommitments hd
    rw [hots.delta_length] at hle
    have hle' : evaluationsFor tau * 16 ≤ m / 4 := hle.trans (Nat.min_le_right _ _)
    have hevaluations : evaluationsFor tau = tau / 16 := rfl
    have hproduct : LOG_DELTA * tau = 4 * tau := rfl
    omega

/-- The preprocessing establishes what the online phase relies on. When both sides get to the end
with the same τ, each with what the other sent, their states match. -/
def PreprocessingMatches (blake3 : Blake3) (build : Build) (coins : stark.Coins) (sk : SecretKey)
    (pk : Option (VerifiedKey S)) (tau : ℕ) (uid : Uid) (binary delta : BinaryOts)
    (masks : List (MasksMessage S)) : Prop :=
  ∀ (sent : ServerMessages S stark) (client : ClientState S) (server : ServerState),
    preprocServer blake3 build coins sk tau binary delta
      (clientHello stark uid tau pk.isSome).toOption masks = some (.ok (sent, server)) →
    preprocClient blake3 build pk tau uid binary delta sent = some (.ok client) →
    StatesMatch sk pk.isSome tau uid client server

/-- The preprocessing establishes what the online phase relies on if and only if the number of
binary OTs for τ fits, or overflows panic, or the mode is VOPRF: in the last two cases a side stops
where it does not fit. Whatever the OTs, the key and the mode are, in a run that both sides get to
the end of the states match exactly where it fits. -/
theorem preprocessing_matches (blake3 : Blake3) (build : Build) (coins : stark.Coins) (sk : SecretKey)
    (pk : Option (VerifiedKey S)) {tau : UInt64} (hpos : 1 ≤ tau.toNat) (uid : Uid)
    (binary delta : BinaryOts) (masks : List (MasksMessage S)) :
    (PreprocessingMatches blake3 build coins sk pk tau.toNat uid binary delta masks ↔
      build.Fits tau.toNat ∨ build.overflow_checks = true ∨ pk.isSome = true) ∧
    ∀ (sent : ServerMessages S stark) (client : ClientState S) (server : ServerState),
      preprocServer blake3 build coins sk tau.toNat binary delta
        (clientHello stark uid tau.toNat pk.isSome).toOption masks = some (.ok (sent, server)) →
      preprocClient blake3 build pk tau.toNat uid binary delta sent = some (.ok client) →
      (StatesMatch sk pk.isSome tau.toNat uid client server ↔ build.Fits tau.toNat) := by
  refine ⟨⟨fun hmatches => ?_, fun hcond sent client server hserver hclient => ?_⟩,
    fun sent client server hserver hclient => (statesMatch_iff pk hserver hclient).1⟩
  · by_contra hnot
    obtain ⟨hfits, hchecks, hmode⟩ : ¬ build.Fits tau.toNat ∧ ¬ build.overflow_checks = true ∧
        ¬ pk.isSome = true := by
      rwa [not_or, not_or] at hnot
    obtain rfl := Option.not_isSome_iff_eq_none.mp hmode
    -- A plain preprocessing without overflow checks gets to its end on both sides.
    obtain ⟨m, hm⟩ := requiredBinaryOtCount_wraps hpos (Bool.eq_false_iff.mpr hchecks)
    obtain ⟨sent, server, client, hserver, hclient⟩ :=
      plain_preprocessing (S := S) blake3 stark sk tau hm uid binary delta masks coins
    exact hfits ((statesMatch_iff none hserver hclient).1.mp
      (hmatches sent client server hserver hclient))
  · obtain ⟨hiff, hfits⟩ := statesMatch_iff pk hserver hclient
    exact hiff.mpr (hcond.elim id hfits)

/-- A key with its first bit set, and OTs with blocks and choices that differ. -/
theorem preprocessing_matches_three : ∃ (sent : ServerMessages Permutations.identity (Stark.transparent Val))
    (server : ServerState) (client : ClientState Permutations.identity),
    preprocServer (fun _ input k => input.getD k 0) (Build.cryprot false) ()
      (SecretKey.ofBool fun i => decide (i = 0)) 3
      (fun _ k => (fun b i => UInt8.ofNat (2 * k + b + i), k.val % 3 == 0))
      (fun _ k => (fun b i => UInt8.ofNat (k + 5 * b + i), k.val % 2 == 0))
      (clientHello (Stark.transparent Val) (fun _ => 7) 3 false).toOption [] = some (.ok (sent, server)) ∧
    preprocClient (fun _ input k => input.getD k 0) (Build.cryprot false) none 3 (fun _ => 7)
      (fun _ k => (fun b i => UInt8.ofNat (2 * k + b + i), k.val % 3 == 0))
      (fun _ k => (fun b i => UInt8.ofNat (k + 5 * b + i), k.val % 2 == 0)) sent = some (.ok client) ∧
    StatesMatch (SecretKey.ofBool fun i => decide (i = 0)) false 3 (fun _ => 7) client server := by
  have hfits : (Build.cryprot false).Fits (3 : UInt64).toNat := Build.fits_of_le _ (by decide)
  obtain ⟨m, hm, -⟩ := requiredBinaryOtCount_of_fits (by decide) hfits
  obtain ⟨sent, server, client, hserver, hclient⟩ := plain_preprocessing (S := Permutations.identity)
    (fun _ input k => input.getD k 0) (Stark.transparent Val)
    (SecretKey.ofBool fun i => decide (i = 0)) 3 hm (fun _ => 7)
    (fun _ k => (fun b i => UInt8.ofNat (2 * k + b + i), k.val % 3 == 0))
    (fun _ k => (fun b i => UInt8.ofNat (k + 5 * b + i), k.val % 2 == 0)) [] ()
  have hmatches := (preprocessing_matches (S := Permutations.identity) (fun _ input k => input.getD k 0)
    (Build.cryprot false) (show (Stark.transparent Val).Coins from ())
    (SecretKey.ofBool fun i => decide (i = 0)) none (show 1 ≤ (3 : UInt64).toNat by decide) (fun _ => 7)
    (fun _ k => (fun b i => UInt8.ofNat (2 * k + b + i), k.val % 3 == 0))
    (fun _ k => (fun b i => UInt8.ofNat (k + 5 * b + i), k.val % 2 == 0)) []).2
  exact ⟨sent, server, client, hserver, hclient, (hmatches sent client server hserver hclient).mpr hfits⟩

/-- Where overflows wrap, both sides end a preprocessing for `2^62 + 1` runs with the 32 of 128
binary OTs. -/
theorem preprocessing_wraps : ∃ (sent : ServerMessages Permutations.identity (Stark.transparent Val))
    (server : ServerState) (client : ClientState Permutations.identity),
    preprocServer (fun _ _ _ => 0) (Build.cryprot false) () zeroKey (2 ^ 62 + 1)
      (fun _ _ => (fun _ _ => 0, true)) (fun _ _ => (fun _ _ => 0, true))
      (clientHello (Stark.transparent Val) (fun _ => 0) (2 ^ 62 + 1) false).toOption [] =
        some (.ok (sent, server)) ∧
    preprocClient (fun _ _ _ => 0) (Build.cryprot false) none (2 ^ 62 + 1) (fun _ => 0)
      (fun _ _ => (fun _ _ => 0, true)) (fun _ _ => (fun _ _ => 0, true)) sent = some (.ok client) ∧
    client.r_c.length = 32 ∧ server.s_s.length = 32 ∧
    ¬ PreprocessingMatches (S := Permutations.identity) (fun _ _ _ => 0) (Build.cryprot false)
      (show (Stark.transparent Val).Coins from ()) zeroKey none (2 ^ 62 + 1) (fun _ => 0)
      (fun _ _ => (fun _ _ => 0, true)) (fun _ _ => (fun _ _ => 0, true)) [] := by
  have hm : requiredBinaryOtCount (Build.cryprot false) (4611686018427387905 : UInt64).toNat =
      some 128 := by decide
  obtain ⟨sent, server, client, hserver, hclient⟩ := plain_preprocessing (S := Permutations.identity)
    (fun _ _ _ => 0) (Stark.transparent Val) zeroKey 4611686018427387905 hm (fun _ => 0)
    (fun _ _ => (fun _ _ => 0, true)) (fun _ _ => (fun _ _ => 0, true)) [] ()
  obtain ⟨opened, cots, sots, m, hm', hots, -, -, hclient', hserver'⟩ :=
    both_established none hserver hclient
  obtain rfl := Option.some.inj (hm.symm.trans hm')
  have hr_c : client.r_c.length = 32 := by
    rw [hclient'.r_c, hots.rcEntries_length]
    decide
  have hs_s : server.s_s.length = 32 := by
    rw [hserver'.s_s, hots.serverPads_length]
    decide
  refine ⟨sent, server, client, hserver, hclient, hr_c, hs_s, fun hmatches => ?_⟩
  have hlen := (hmatches sent client server hserver hclient).r_c_length
  omega

end PoolOprf
