import PoolOprf.Oprf.Soundness
import PoolOprf.Plonky3.Setup

/-!
# One published key for all clients

`pool-oprf/src/voprf.rs` (`VerifiedKey`, `setup`) and `OprfServer::public_key`. A server publishes
`pk` with `π_setup`; a client takes `pk` only with a proof that verifies, and then uses it in as
many preprocessings as it likes.

The table behind `π_setup` opens `pk` to a key, before any preprocessing
(`KeyAir.exists_key_of_holds`). Each preprocessing that a client accepts under `pk` pins its state
to a key that `pk` opens to (`ClientEstablished.pinned`), and without a collision all of these are
the one of `π_setup`. So there is one key behind a published `pk`, for all clients, connections and
renewals: `published_key_sound`. An honest server's `pk` is accepted (`setup_verified`).
-/

namespace PoolOprf

open Panic Binding

variable {S : Permutations} {stark : Stark Val}

/-! ## Publishing a key -/

/-- Verify `π_setup` of `pk`. -/
def VerifiedKey.verify (stark : Stark Val) (pk : KeyCommitment S) (proof : stark.Proof) :
    Except (VerifyError stark) (VerifiedKey S) := do
  KeyAir.verify stark ⟨pk⟩ proof
  return ⟨pk⟩

/-- `pk` and `π_setup` of `sk`. -/
def setup (S : Permutations) (stark : Stark Val) (coins : stark.Coins) (sk : SecretKey) :
    Option (Except (ProveError stark) (KeyCommitment S × stark.Proof)) := do
  let statement := SetupStatement.forKey S sk
  match ← KeyAir.prove stark coins statement sk with
  | .error error => some (.error error)
  | .ok proof => some (.ok (statement.pk, proof))

/-- What a server keeps: its key. -/
structure OprfServer where
  /-- The key, shared by all sessions. -/
  sk : SecretKey

/-- `pk` and `π_setup` of this server's key, to publish. -/
def OprfServer.publicKey (self : OprfServer) (S : Permutations) (stark : Stark Val)
    (coins : stark.Coins) : Option (Except (ProveError stark) (KeyCommitment S × stark.Proof)) :=
  setup S stark coins self.sk

/-- A key is verified exactly when Plonky3 accepts its proof, and is then the `pk` that was
given. -/
theorem VerifiedKey.verify_eq_ok {pk : KeyCommitment S} {proof : stark.Proof}
    {verified : VerifiedKey S} : VerifiedKey.verify stark pk proof = .ok verified ↔
      verified = ⟨pk⟩ ∧ stark.verify (KeyAir.air S) (KeyAir.publicValues ⟨pk⟩) proof = some (.ok ()) := by
  rw [← Plonky3.verified_eq_ok, and_comm, eq_comm]
  unfold VerifiedKey.verify KeyAir.verify
  cases Plonky3.verified (stark.verify (KeyAir.air S) (KeyAir.publicValues ⟨pk⟩) proof) with
  | error error =>
    constructor
    · intro h
      cases h
    · rintro ⟨h, -⟩
      cases h
  | ok _ =>
    constructor
    · intro h
      exact ⟨rfl, Except.ok.inj h⟩
    · rintro ⟨-, h⟩
      exact congrArg Except.ok h

/-- What an honest server publishes is accepted, and commits to its key. -/
theorem setup_verified (hstark : stark.Complete) (coins : stark.Coins) (server : OprfServer) :
    ∃ proof, server.publicKey S stark coins = some (.ok (keyCommit server.sk, proof)) ∧
      VerifiedKey.verify stark (keyCommit server.sk : KeyCommitment S) proof =
        .ok ⟨keyCommit server.sk⟩ := by
  obtain ⟨proof, hprove, hverify⟩ := KeyAir.prove_of_complete hstark coins server.sk (S := S)
  refine ⟨proof, ?_, ?_⟩
  · unfold OprfServer.publicKey setup
    dsimp only
    rw [hprove]
    rfl
  · rw [VerifiedKey.verify_eq_ok]
    exact ⟨rfl, Plonky3.verified_eq_ok.mp hverify⟩

/-! ## The preprocessings under a key -/

/-- A preprocessing of a client with a server, and the exchanges that follow it. A renewal is
another. -/
structure ClientSession (S : Permutations) (stark : Stark Val) where
  /-- The number of runs. -/
  tau : ℕ
  uid : Uid
  /-- The client's outcome of the OTs. -/
  ots : ClientOts
  /-- What the server sent in the preprocessing. -/
  received : ServerMessages S stark
  /-- What the client kept of it. -/
  state : ClientState S
  /-- The requests that were answered. -/
  exchanges : Set (Exchange S stark)

/-- The client accepted the preprocessing under `pk`, and each of the responses. -/
structure ClientSession.Accepted (blake3 : Blake3) (pk : VerifiedKey S)
    (session : ClientSession S stark) : Prop where
  preprocessing : preprocClientVoprf blake3 pk session.tau session.uid session.ots session.received =
    some (.ok session.state)
  exchanges : ∀ x ∈ session.exchanges, session.state.Exchanged blake3 x

/-- What a table of the setup circuit opens. -/
def KeyAir.inputs (table : List (List Val)) : CommitmentInputs where
  key := KeyAir.keyOpenings table
  mask_sum := ∅
  masks := ∅
  pad := ∅

/-- What is hashed under a published key: by the table behind `π_setup`, and in each session. -/
inductive HashedUnder (blake3 : Blake3) (tables : Air Val → List Val → stark.Proof → List (List Val))
    (pk : VerifiedKey S) (proof : stark.Proof) (sessions : Set (ClientSession S stark)) :
    CommitmentInputs → Prop
  /-- `π_setup`'s. -/
  | setup : HashedUnder blake3 tables pk proof sessions
      (KeyAir.inputs (tables (KeyAir.air S) (KeyAir.publicValues ⟨pk.pk⟩) proof))
  /-- A session's. -/
  | session (session : ClientSession S stark) (hsession : session ∈ sessions) (inputs : CommitmentInputs)
      (hinputs : Hashed blake3 tables pk session.tau session.ots session.received session.state
        session.exchanges inputs) : HashedUnder blake3 tables pk proof sessions inputs

theorem CommitmentInputs.Subset.trans {inputs inputs' inputs'' : CommitmentInputs}
    (h : inputs.Subset inputs') (h' : inputs'.Subset inputs'') : inputs.Subset inputs'' where
  key := h.key.trans h'.key
  mask_sum := h.mask_sum.trans h'.mask_sum
  masks := h.masks.trans h'.masks
  pad := h.pad.trans h'.pad

section Sessions

variable {blake3 : Blake3} {tables : Air Val → List Val → stark.Proof → List (List Val)}
  {pk : VerifiedKey S} {session : ClientSession S stark} {inputs : CommitmentInputs}

/-- The setup's openings are hashed under the key. -/
theorem keyOpenings_subset (blake3 : Blake3) (tables : Air Val → List Val → stark.Proof → List (List Val))
    (pk : VerifiedKey S) (proof : stark.Proof) (sessions : Set (ClientSession S stark)) :
    KeyAir.keyOpenings (tables (KeyAir.air S) (KeyAir.publicValues ⟨pk.pk⟩) proof) ⊆
      (CommitmentInputs.union (HashedUnder blake3 tables pk proof sessions)).key :=
  fun _ hx => ⟨_, .setup, hx⟩

/-- What is hashed under a published key is among some inputs if `π_setup`'s and each session's
are. -/
theorem HashedUnder.subset {proof : stark.Proof} {sessions : Set (ClientSession S stark)}
    (hsetup : (KeyAir.inputs (tables (KeyAir.air S) (KeyAir.publicValues ⟨pk.pk⟩) proof)).Subset inputs)
    (hsessions : ∀ session ∈ sessions, (CommitmentInputs.union (Hashed blake3 tables pk session.tau
      session.ots session.received session.state session.exchanges)).Subset inputs) :
    (CommitmentInputs.union (HashedUnder blake3 tables pk proof sessions)).Subset inputs := by
  apply CommitmentInputs.union_subset
  intro part hpart
  cases hpart with
  | setup => exact hsetup
  | session session hsession _ hinputs =>
    exact (CommitmentInputs.subset_union hinputs).trans (hsessions session hsession)

/-- A client gets the PRF of every key that `pk` is known to open to. -/
theorem ClientSession.Accepted.outputs (h : session.Accepted blake3 pk) (htables : stark.Extracts tables)
    (hno : inputs.NoCollision S)
    (hhashed : ∀ part, Hashed blake3 tables pk session.tau session.ots session.received session.state
      session.exchanges part → part.Subset inputs)
    {sk : SecretKey} (hpk : pk.pk = keyCommit sk) (hmem : keyElements (packKey sk) ∈ inputs.key)
    {x : Exchange S stark} (hx : x ∈ session.exchanges) :
    x.outputs.map some = x.inputs.map (evaluate blake3 sk x.tag) := by
  have hestablished := preprocClientWith_eq_ok h.preprocessing
  obtain ⟨voprf, sk', hvoprf, hpinned⟩ := hestablished.pinned htables hno (hhashed _ .client)
    fun message statement hmessage hstatement =>
      hhashed _ (.preprocessing message statement hmessage hstatement)
  -- The key that the preprocessing is pinned to is the one that `pk` is known to open to.
  obtain rfl : sk = sk' := hpinned.key_eq hno hmem (by rw [hvoprf]; exact hpk)
  obtain ⟨⟨before, after, req, hreach, hrequest⟩, hresponse⟩ := h.exchanges x hx
  obtain ⟨n, hspent⟩ := spent_of_reachable hreach
  have haligned : H_ROWS ∣ before.runs.ctr := by
    rw [hspent.ctr, hestablished.runs]
    exact Dvd.intro_left n (Nat.zero_add _).symm
  apply (hpinned.spent hspent).outputs htables hno haligned hrequest hresponse
  intro statements v statement rows proof pub hstatements hstatement hrows hproof hpub
  exact hhashed _ (.online x hx statements v statement rows proof pub hstatements hstatement hrows
    hproof hpub)

end Sessions

/-- A published key is one key. If the `π_setup` of a `pk` verifies, then `pk` commits to a key that
does not depend on any session, and whatever sessions clients have under this `pk` (any clients, any
connections, any renewals, with any server), each response that any of them accepts gives the
outputs of the PRF under that key. Assumed are a table behind each proof that Plonky3 accepts, and
that no two different inputs of one kind of commitment that are hashed have equal digests. -/
theorem published_key_sound (blake3 : Blake3) (stark : Stark Val)
    (tables : Air Val → List Val → stark.Proof → List (List Val)) (htables : stark.Extracts tables)
    (pk : KeyCommitment S) (proof : stark.Proof) (verified : VerifiedKey S)
    (hverified : VerifiedKey.verify stark pk proof = .ok verified) :
    ∃ sk : SecretKey, pk = keyCommit sk ∧
      ∀ sessions : Set (ClientSession S stark),
        (∀ session ∈ sessions, session.Accepted blake3 verified) →
        (CommitmentInputs.union (HashedUnder blake3 tables verified proof sessions)).NoCollision S →
        ∀ session ∈ sessions, ∀ x ∈ session.exchanges,
          x.outputs.map some = x.inputs.map (evaluate blake3 sk x.tag) := by
  obtain ⟨rfl, haccepted⟩ := VerifiedKey.verify_eq_ok.mp hverified
  obtain ⟨sk, hpk, hmem⟩ := KeyAir.exists_key_of_holds (htables _ _ _ haccepted)
  refine ⟨sk, hpk, fun sessions haccept hno session hsession x hx => ?_⟩
  have hsetup := keyOpenings_subset blake3 tables ⟨pk⟩ proof sessions
  apply (haccept session hsession).outputs htables hno _ hpk (hsetup hmem) hx
  intro part hpart
  exact CommitmentInputs.subset_union (.session session hsession part hpart)

/-- Where proofs are tables, what an honest server proves in its setup is the row of its key, `ROWS`
times. -/
theorem setup_transparent {coins : (Stark.transparent Val).Coins} {sk : SecretKey} {pk : KeyCommitment S}
    {proof : (Stark.transparent Val).Proof}
    (h : setup S (Stark.transparent Val) coins sk = some (.ok (pk, proof))) :
    proof = List.replicate ROWS (KeyAir.honestRow S sk) := by
  have hpk : keyCommit sk = (SetupStatement.forKey S sk).pk := rfl
  unfold setup at h
  dsimp only at h
  rw [KeyAir.prove_eq, if_pos hpk] at h
  exact (Prod.mk.inj (Except.ok.inj (Option.some.inj h))).2.symm

theorem published_key_sound_zero :
    ∃ (proof : (Stark.transparent Val).Proof)
      (received : ServerMessages Permutations.identity (Stark.transparent Val))
      (state : ClientState Permutations.identity)
      (x : Exchange Permutations.identity (Stark.transparent Val)) (sk : SecretKey),
      setup Permutations.identity (Stark.transparent Val) () zeroKey =
        some (.ok (keyCommit zeroKey, proof)) ∧
      preprocClientVoprf (fun _ _ _ => 0) ⟨keyCommit zeroKey⟩ 16 (fun _ => 0) (zeroClientOts 16)
        received = some (.ok state) ∧
      state.Exchanged (fun _ _ _ => 0) x ∧ x.inputs = [[]] ∧
      (keyCommit zeroKey : KeyCommitment Permutations.identity) = keyCommit sk ∧
      x.outputs.map some = [evaluate (fun _ _ _ => 0) sk [] []] := by
  have htau : UInt64.toNat 16 = 16 := by simp
  have hle : H_ROWS ≤ UInt64.toNat 16 := by rw [htau]
  have hots : OtsMatched (zeroClientOts 16) (zeroServerOts 16) (UInt64.toNat 16) := by
    rw [htau]
    exact zero_otsMatched 16
  have hlen : ([] : List UInt8).length ≤ MAX_TAG_LEN := Nat.zero_le _
  obtain ⟨received, state, x, hpreproc, hexchanged, htag, hinputs, hsubset⟩ := hots.exchange hle
    (rfl : (⟨keyCommit zeroKey⟩ : VerifiedKey Permutations.identity).pk = keyCommit zeroKey)
    (fun _ _ _ => 0) (fun _ => 0) hlen (List.cons_ne_nil [] []) (by decide) (by rw [htau]; exact le_rfl)
  rw [htau] at hpreproc hsubset
  obtain ⟨proof, hpublished, hverified⟩ := setup_verified (S := Permutations.identity)
    (Stark.transparent_complete Val) () ⟨zeroKey⟩
  obtain ⟨sk, hpk, hsessions⟩ := published_key_sound (fun _ _ _ => 0) (Stark.transparent Val)
    (fun _ _ table => table) (Stark.transparent_extracts Val) _ proof _ hverified
  have hkeys : KeyAir.keyOpenings proof ⊆ {keyElements (packKey zeroKey)} := by
    rw [setup_transparent hpublished]
    exact KeyAir.keyOpenings_trace zeroKey
  have houtput : x.outputs.map some = x.inputs.map (evaluate (fun _ _ _ => 0) sk x.tag) := by
    refine hsessions {⟨16, fun _ => 0, zeroClientOts 16, received, state, {x}⟩} ?_ ?_ _
      (Set.mem_singleton _) x (Set.mem_singleton x)
    · rintro session rfl
      exact ⟨hpreproc, fun y hy => Set.mem_singleton_iff.mp hy ▸ hexchanged⟩
    · -- The table of `π_setup` and the session hash nothing but the honest inputs.
      apply honestInputs_zero.mono
      apply HashedUnder.subset
      · exact ⟨hkeys, Set.empty_subset _, Set.empty_subset _, Set.empty_subset _⟩
      · rintro session rfl
        exact hsubset
  rw [htag, hinputs] at houtput
  exact ⟨proof, received, state, x, sk, hpublished, hpreproc, hexchanged, hinputs, hpk, houtput⟩

end PoolOprf
