import PoolOprf.Oprf.Matching
import PoolOprf.Oprf.SelectiveFailure
import PoolOprf.Oprf.ServerProofs

/-!
# No message stops a preprocessing

What a side of the preprocessing indexes, unwraps or asserts does not depend on the other side. A
client that has its part of the OTs reads any `τ`, `d`, `b̄`, `m` and proof, and a server any hello
and `c`: each is refused or the side goes on. The client's blocks and choices are as many as its
runs, so the check of `d` finds the one of each run (`receivePadsCommitments_eq`), and the lengths
that were checked are those that a state asks for (`ClientState.new_isSome`). A server that has
accepted `c` can prove for it (`proveServer_isSome`).
-/

namespace PoolOprf

open Panic

variable {S : Permutations} {stark : Stark Val}

/-! ## The client -/

section Client

variable {blake3 : Blake3} {tau : ℕ} {ots : ClientOts}

/-- Receiving `d` ends, if the client has the runs. -/
theorem receivePadsCommitments_isSome (stark : Stark Val) (hchoices : ots.choices.length = tau)
    (hblocks : ots.blocks.length = tau) (messages : List (PadsMessage S)) :
    ∃ result, receivePadsCommitments stark ots 0 (evaluationsFor tau) messages = some result := by
  have hle : tauFor (0 + evaluationsFor tau) ≤ tau := by
    rw [Nat.zero_add]
    exact tauFor_evaluationsFor_le tau
  obtain ⟨hpass, hfail⟩ := receivePadsCommitments_eq stark hchoices.ge hblocks.ge (evaluationsFor tau) 0
    messages hle
  by_cases hchecked : ∀ (k : ℕ) d, (padsSeen (evaluationsFor tau) messages)[k]? = some d →
      PadChecked ots (firstRun 0 + k) d
  · exact ⟨_, hpass hchecked⟩
  · exact ⟨_, hfail hchecked⟩

/-- A state can be made of `b̄` that is bits and of what a VOPRF's client has checked. -/
theorem ClientState.new_isSome (ot_blocks : Fin N → Fin 2 → Block) {bhat : Fin N → UInt8}
    (hbhat : ∀ i, (bhat i).toNat ≤ 1) (r_c : List RcEntry) (uid : Uid)
    (voprf : Option (ClientVoprf S)) (hm : ∀ v ∈ voprf, v.m.length = evaluationsFor r_c.length)
    (hd : ∀ v ∈ voprf, v.d.length = tauFor (evaluationsFor r_c.length)) :
    ∃ state, ClientState.new ot_blocks bhat r_c uid voprf = some state :=
  ⟨_, dif_pos ⟨hbhat, hm, hd⟩⟩

/-- The client's preprocessing ends from `b̄` on. -/
theorem clientEnd_isSome (blake3 : Blake3) (pk : Option (VerifiedKey S)) (uid : Uid)
    (hchoices : ots.choices.length = tau) (hblocks : ots.blocks.length = tau)
    (received : ServerMessages S stark) {d : List (PadsCommitments S)}
    (hd : pk.isSome → d.length = tauFor (evaluationsFor tau)) :
    ∃ result, clientEnd blake3 pk tau uid ots received d = some result := by
  have hlen : (rcEntries ots).length = tau := by
    unfold rcEntries
    rw [List.length_zipWith, hblocks, hchoices, min_self]
  unfold clientEnd
  cases received.bhat with
  | none => exact ⟨_, rfl⟩
  | some bhat =>
    dsimp only
    by_cases hbhat : bhat.length ≠ N
    · exact ⟨_, if_pos hbhat⟩
    rw [if_neg hbhat]
    by_cases hbits : ¬ bhat.all fun b => b.toNat ≤ 1
    · exact ⟨_, if_pos hbits⟩
    rw [if_neg hbits]
    -- `b̄` is read whole, and each entry is a bit.
    have hN := not_not.mp hbhat
    have hall := not_not.mp hbits
    have hlt : ∀ i : Fin N, i.val < bhat.length := fun i => i.isLt.trans_eq hN.symm
    obtain ⟨b_bar, hread⟩ : ∃ b_bar, (fromFn fun i : Fin N => bhat[i.val]?) = some b_bar :=
      ⟨fun i => bhat.get ⟨i.val, hlt i⟩,
        fromFn_eq_some_iff.mpr fun i => List.getElem?_eq_getElem (hlt i)⟩
    have hle : ∀ i, (b_bar i).toNat ≤ 1 := by
      intro i
      have hget := fromFn_eq_some_iff.mp hread i
      exact of_decide_eq_true (List.all_eq_true.mp hall _ (List.mem_of_getElem? hget))
    rw [hread]
    cases pk with
    | none =>
      obtain ⟨state, hnew⟩ := ClientState.new_isSome (S := S) ots.ot_blocks hle (rcEntries ots) uid
        none (fun _ h => (by cases h)) fun _ h => (by cases h)
      exact ⟨.ok state, by simp [hnew]⟩
    | some pk =>
      simp only [Option.bind_eq_bind, Option.bind_some]
      cases hfinish : finish pk (masksCommitments blake3 ots.ot_blocks (evaluationsFor tau)) d b_bar
        received.proof with
      | error error => exact ⟨_, rfl⟩
      | ok voprf =>
        obtain ⟨-, hvd, hvm, -⟩ := finish_eq_ok hfinish
        obtain ⟨state, hnew⟩ := ClientState.new_isSome ots.ot_blocks hle (rcEntries ots) uid (some voprf)
          (fun v h => by
            obtain rfl := Option.mem_some.mp h
            rw [hvm, masksCommitments, List.length_map, List.length_range, hlen])
          (fun v h => by
            obtain rfl := Option.mem_some.mp h
            rw [hvd, hd rfl, hlen])
        exact ⟨.ok state, by simp [hnew]⟩

/-- The client's preprocessing ends, whatever it receives. -/
theorem preprocClientWith_isSome (blake3 : Blake3) (pk : Option (VerifiedKey S)) (uid : Uid)
    (hchoices : ots.choices.length = tau) (hblocks : ots.blocks.length = tau)
    (received : ServerMessages S stark) :
    ∃ result, preprocClientWith blake3 pk tau uid ots received = some result := by
  cases hopening : clientOpening stark uid tau pk.isSome received.echoed with
  | error error => exact ⟨_, preprocClientWith_of_opening blake3 pk ots received hopening⟩
  | ok opened =>
    rw [preprocClientWith_of_opened hopening]
    by_cases hvoprf : pk.isSome = true
    · rw [if_pos hvoprf]
      obtain ⟨pads, hpads⟩ := receivePadsCommitments_isSome stark hchoices hblocks received.pads
      rw [hpads, Option.bind_some]
      cases pads with
      | error error => exact ⟨_, rfl⟩
      | ok d =>
        obtain ⟨hd, -⟩ := receivePadsCommitments_eq_ok ots hpads
        exact clientEnd_isSome blake3 pk uid hchoices hblocks received fun _ => hd
    · rw [if_neg hvoprf, Option.bind_some]
      exact clientEnd_isSome blake3 pk uid hchoices hblocks received fun h => absurd h hvoprf

end Client

/-! ## The server -/

section Server

variable {build : Build} {tau : ℕ}

/-- A server gets its part of enough OTs, with the blocks of each run. -/
theorem serverOtsOf_isSome (blake3 : Blake3) (htau : 0 < tau) (hfits : build.Fits tau)
    (binary delta : BinaryOts) : ∃ ots, serverOtsOf blake3 build binary delta tau = some ots ∧
      ots.delta_ot_blocks.length = tau := by
  obtain ⟨n, hn, hle, -⟩ := nextMultipleOf_spec N build.base_pos
  obtain ⟨m, hm, henough⟩ := requiredBinaryOtCount_of_fits htau hfits
  have hentries : tau = min tau (m / LOG_DELTA) := (Nat.min_eq_left henough).symm
  exact ⟨_, serverOtsOf_eq hn hle hm (entries_le hentries) hentries, List.length_ofFn⟩

/-- And so does a client, with a block and a choice for each run. -/
theorem clientOtsOf_isSome (blake3 : Blake3) (htau : 0 < tau) (hfits : build.Fits tau)
    (binary delta : BinaryOts) : ∃ ots, clientOtsOf blake3 build binary delta tau = some ots ∧
      ots.choices.length = tau ∧ ots.blocks.length = tau := by
  obtain ⟨n, hn, hle, -⟩ := nextMultipleOf_spec N build.base_pos
  obtain ⟨m, hm, henough⟩ := requiredBinaryOtCount_of_fits htau hfits
  have hentries : tau = min tau (m / LOG_DELTA) := (Nat.min_eq_left henough).symm
  exact ⟨_, clientOtsOf_eq hn hle hm (entries_le hentries) hentries, List.length_ofFn,
    List.length_ofFn⟩

/-- A state can be made of the server's part of the OTs. -/
theorem ServerState.new_isSome (ots : ServerOts) (uid : Uid) (voprf : Option ServerVoprf)
    (h : ∀ v ∈ voprf, v = ⟨ots.delta_ot_blocks⟩) :
    ∃ state, ServerState.new ots.r_s (serverPads ots) uid voprf = some state := by
  refine ⟨_, dif_pos fun v hv => ?_⟩
  rw [h v hv]
  unfold serverPads
  rw [List.length_map]

/-- Receiving `c` ends. -/
theorem receiveMasksCommitments_isSome (stark : Stark Val) (blake3 : Blake3) (r_s : Fin N → RsEntry)
    (evaluations : ℕ) (messages : List (MasksMessage S)) :
    ∃ result, receiveMasksCommitments stark blake3 r_s evaluations messages = some result := by
  have hsome : (readMasksCommitments stark evaluations messages).isSome :=
    readMasksCommitments_isSome evaluations messages
  obtain ⟨read, hread⟩ := Option.isSome_iff_exists.mp hsome
  cases read with
  | error error => exact ⟨_, receiveMasksCommitments_unread blake3 r_s hread⟩
  | ok c =>
    by_cases hchecked : ∀ i, MasksChecked blake3 (r_s i) i 0 c
    · exact ⟨_, receiveMasksCommitments_eq_ok.mpr ⟨hread, hchecked⟩⟩
    · exact ⟨_, receiveMasksCommitments_mismatch blake3 r_s hread hchecked⟩

/-- A server that has accepted `c` proves for it, or its prover fails. -/
theorem proveServer_isSome (blake3 : Blake3) (coins : stark.Coins) (sk : SecretKey) {ots : ServerOts}
    (htau : H_ROWS ≤ tau) (hdelta : ots.delta_ot_blocks.length = tau)
    {received : List (MasksMessage S)} {c : List (MasksCommitments S)}
    (hreceive : receiveMasksCommitments stark blake3 ots.r_s (evaluationsFor tau) received =
      some (.ok c)) :
    ∃ result, proveServer blake3 coins sk ots (maskedKeyBits sk ots.r_s) c = some result := by
  obtain ⟨hread, hchecked⟩ := receiveMasksCommitments_eq_ok.mp hreceive
  have hlen : c.length = evaluationsFor tau := readMasksCommitments_length hread
  have hpos : 0 < c.length := by
    rw [hlen]
    exact Nat.div_pos htau (by norm_num)
  have hle : tauFor c.length ≤ ots.delta_ot_blocks.length := by
    rw [hlen, hdelta]
    exact tauFor_evaluationsFor_le tau
  obtain ⟨table, -, hproof⟩ := proveServer_eq stark coins sk (List.ne_nil_of_length_pos hpos) hle hchecked
  exact ⟨_, hproof⟩

/-- A VOPRF server's preprocessing ends, whatever commitments it receives. -/
theorem preprocServerVoprf_isSome (blake3 : Blake3) (coins : stark.Coins) (sk : SecretKey) (uid : Uid)
    {ots : ServerOts} (htau : H_ROWS ≤ tau) (hdelta : ots.delta_ot_blocks.length = tau)
    (received : List (MasksMessage S)) :
    ∃ result, preprocServerVoprf blake3 coins sk tau uid ots received = some result := by
  unfold preprocServerVoprf preprocServerMessages
  obtain ⟨result, hreceive⟩ := receiveMasksCommitments_isSome stark blake3 ots.r_s (evaluationsFor tau)
    received
  rw [hreceive]
  cases result with
  | error error => exact ⟨_, rfl⟩
  | ok c =>
    have hle : tauFor (evaluationsFor tau) ≤ ots.delta_ot_blocks.length := by
      rw [hdelta]
      exact tauFor_evaluationsFor_le tau
    obtain ⟨proof, hproof⟩ := proveServer_isSome blake3 coins sk htau hdelta hreceive
    simp only [Option.bind_eq_bind, Option.bind_some, padsCommitments_of_le hle, hproof]
    cases proof with
    | error error => exact ⟨_, rfl⟩
    | ok proof =>
      obtain ⟨message, voprf⟩ := proof
      dsimp only
      obtain rfl := proveServer_voprf hproof
      obtain ⟨state, hnew⟩ := ServerState.new_isSome ots uid (some ⟨ots.delta_ot_blocks⟩)
        fun v hv => (Option.mem_some.mp hv).symm
      exact ⟨_, by rw [hnew]; rfl⟩

/-- The server's preprocessing ends, whatever it receives. -/
theorem preprocServer_isSome (blake3 : Blake3) (hfits : build.Fits tau) (coins : stark.Coins)
    (sk : SecretKey) (binary delta : BinaryOts) (hello : Option (List UInt8))
    (masks : List (MasksMessage S)) :
    ∃ result, preprocServer blake3 build coins sk tau binary delta hello masks = some result := by
  obtain ⟨echoed, opening, hopening, hopened⟩ := serverOpening_eq_ok stark tau hello
  unfold preprocServer
  rw [hopening]
  cases opening with
  | error error => exact ⟨_, rfl⟩
  | ok opened =>
    obtain ⟨-, hallowed, -⟩ := (hopened opened).mp rfl
    obtain ⟨ots, hots, hdelta⟩ := serverOtsOf_isSome blake3 hallowed.1 hfits binary delta
    simp only [Option.bind_eq_bind, Option.bind_some, hots]
    by_cases hvoprf : opened.voprf = true
    · rw [if_pos hvoprf]
      obtain ⟨result, hresult⟩ := preprocServerVoprf_isSome blake3 coins sk opened.uid
        (hallowed.2 hvoprf) hdelta masks
      rw [hresult]
      cases result with
      | error error => exact ⟨_, rfl⟩
      | ok result => exact ⟨_, rfl⟩
    · rw [if_neg hvoprf]
      obtain ⟨state, hnew⟩ := ServerState.new_isSome ots opened.uid none fun _ h => (by cases h)
      rw [hnew]
      exact ⟨_, rfl⟩

/-- The client's preprocessing ends, over any binary OTs and whatever it receives. -/
theorem preprocClient_isSome (blake3 : Blake3) (hfits : build.Fits tau) (pk : Option (VerifiedKey S))
    (uid : Uid) (binary delta : BinaryOts) (received : ServerMessages S stark) :
    ∃ result, preprocClient blake3 build pk tau uid binary delta received = some result := by
  unfold preprocClient
  cases hopening : clientOpening stark uid tau pk.isSome received.echoed with
  | error error => exact ⟨_, rfl⟩
  | ok opened =>
    obtain ⟨hallowed, -⟩ := clientOpening_eq_ok.mp hopening
    obtain ⟨ots, hots, hchoices, hblocks⟩ := clientOtsOf_isSome blake3 hallowed.1 hfits binary delta
    dsimp only
    rw [Option.bind_eq_bind, hots, Option.bind_some]
    exact preprocClientWith_isSome blake3 pk uid hchoices hblocks received

end Server

/-- No message of the other side stops a preprocessing whose τ fits. A client has a result whatever
the server sends as `τ`, `d`, `b̄`, `m` and proof, over any binary OTs, and also for any part of the
OTs with a block and a choice for each run; a server has a result whatever the client sends as its
hello and `c`, whether they ask for a VOPRF or not. -/
theorem no_message_stops_preprocessing (blake3 : Blake3) (stark : Stark Val) (build : Build) :
    (∀ (pk : Option (VerifiedKey S)) (tau : ℕ) (uid : Uid) (received : ServerMessages S stark),
      (build.Fits tau → ∀ binary delta : BinaryOts, ∃ result,
        preprocClient blake3 build pk tau uid binary delta received = some result) ∧
      ∀ ots : ClientOts, ots.choices.length = tau → ots.blocks.length = tau → ∃ result,
        preprocClientWith blake3 pk tau uid ots received = some result) ∧
    ∀ (coins : stark.Coins) (sk : SecretKey) (tau : ℕ), build.Fits tau →
      ∀ (binary delta : BinaryOts) (hello : Option (List UInt8)) (masks : List (MasksMessage S)),
        ∃ result, preprocServer blake3 build coins sk tau binary delta hello masks = some result := by
  constructor
  · intro pk tau uid received
    constructor
    · exact fun hfits binary delta => preprocClient_isSome blake3 hfits pk uid binary delta received
    · exact fun ots hchoices hblocks => preprocClientWith_isSome blake3 pk uid hchoices hblocks received
  · exact fun coins sk tau hfits binary delta hello masks =>
      preprocServer_isSome blake3 hfits coins sk binary delta hello masks

/-- A VOPRF client and a VOPRF server that receive commitments to nothing they hold, the client also
a `b̄` of ones. -/
theorem no_message_stops_preprocessing_sixteen :
    (∃ result, preprocClient (fun _ _ _ => 0) (Build.cryprot true) (some ⟨keyCommit zeroKey⟩) 16 (fun _ => 0)
      (fun _ _ => (fun _ _ => 0, false)) (fun _ _ => (fun _ _ => 0, false))
      (⟨some (encodeTau 16), [List.replicate 16 fun _ => ⟨fun _ => 1⟩], some (List.replicate N 1), none⟩ :
        ServerMessages Permutations.identity (Stark.transparent Val)) = some result) ∧
    ∃ result, preprocServer (S := Permutations.identity) (fun _ _ _ => 0) (Build.cryprot true)
      (show (Stark.transparent Val).Coins from ()) zeroKey 16 (fun _ _ => (fun _ _ => 0, false))
      (fun _ _ => (fun _ _ => 0, false))
      (clientHello (Stark.transparent Val) (fun _ => 0) 16 true).toOption
      [List.replicate N fun _ => ⟨fun _ => 1⟩] = some result :=
  have h := no_message_stops_preprocessing (S := Permutations.identity) (fun _ _ _ => 0)
    (Stark.transparent Val) (Build.cryprot true)
  ⟨(h.1 (some ⟨keyCommit zeroKey⟩) 16 (fun _ => 0) _).1 (Build.fits_of_le _ (by norm_num)) _ _,
    h.2 () zeroKey 16 (Build.fits_of_le _ (by norm_num)) _ _ _ _⟩

end PoolOprf
