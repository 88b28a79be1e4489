import PoolOprf.Oprf.Processes

/-!
# The preprocessing in every order of its steps

The two sides of the preprocessing (`clientProcess`, `serverProcess`) are dual
(`preprocessing_dual`): whatever the keys, the modes and the two τ are, one side waits for what the
other one sends next, until one of them ends. So they are never stuck, and the order of the steps
does not matter (`Dual.outcome`).

What each side sends on the way (`clientProcess_sent`, `serverProcess_sent`) shows that two sides
that agree join both OTs, so that their outcome is that of `preprocClient` and `preprocServer`
(`preprocessing_asynchronous`).
-/

namespace PoolOprf

open Panic

variable {S : Permutations} {stark : Stark Val}

/-! ## The two sides are dual -/

section Duality

theorem padsCommitments_length {delta_ot_blocks : List (Fin DELTA → Block)} {evaluations : ℕ}
    {d : List (PadsMessage S)} (h : padsCommitments delta_ot_blocks evaluations = some d) :
    d.length = evaluations := by
  unfold padsCommitments at h
  rw [length_mapM h, List.length_range]

variable {blake3 : Blake3} {build : Build} {binary delta : BinaryOts}

/-- The server waits for a message with `c^v`. -/
theorem dual_mask {next : ClientProcess S stark} (message : MasksMessage S) {evaluations : ℕ}
    {next' : List (MasksCommitments S) → ServerProcess S stark}
    (h : ∀ c_v, Dual next (receiveMasks evaluations fun c => next' (c_v :: c))) :
    Dual (.send .masks message next) (receiveMasks (evaluations + 1) next') := by
  rw [receiveMasks]
  apply Dual.to_right
  dsimp only
  cases readMasks stark message with
  | none => exact .right_done _ _
  | some read =>
    cases read with
    | error error => exact .right_done _ _
    | ok c_v => exact h c_v

/-- What the client sends of `c` is what the server waits for. -/
theorem dual_masks {next : ClientProcess S stark} {c : List (MasksCommitments S)} {evaluations : ℕ}
    (hlen : c.length = evaluations) {next' : List (MasksCommitments S) → ServerProcess S stark}
    (h : ∀ c', Dual next (next' c')) : Dual (sendMasks next c) (receiveMasks evaluations next') := by
  subst hlen
  induction c generalizing next' with
  | nil => exact h []
  | cons c_v c ih => exact dual_mask (List.ofFn c_v) fun c_v' => ih fun c' => h (c_v' :: c')

/-- What the server sends of `d` is what the client waits for. -/
theorem dual_pads {ots : ClientOts} {v : ℕ} {next : List (PadsCommitments S) → ClientProcess S stark}
    {d : List (PadsMessage S)} {next' : ServerProcess S stark} (h : ∀ d', Dual (next d') next') :
    Dual (receivePads ots v d.length next) (sendPads next' d) := by
  induction d generalizing v next with
  | nil => exact h []
  | cons d_v d ih =>
    rw [sendPads, List.length_cons, receivePads]
    apply Dual.to_left
    dsimp only
    by_cases hlen : d_v.length ≠ RUNS_PER_EVALUATION
    · rw [if_pos hlen]
      exact .left_done _ _
    rw [if_neg hlen]
    cases checkPads stark ots (v * RUNS_PER_EVALUATION) d_v with
    | none => exact .left_done _ _
    | some checked =>
      cases checked with
      | error error => exact .left_done _ _
      | ok => exact ih fun d' => h (d_v ++ d')

/-- A server that has sent `b̄` sends its proof, if it is not done. -/
theorem dual_proof (next : Option (PreprocessingProof S stark) → ClientProcess S stark)
    (hnext : ∀ message, (next message).isDone = true) (coins : stark.Coins) (sk : SecretKey)
    (opened : Opened) (ots : ServerOts) (c : List (MasksCommitments S)) :
    Dual (.receive .proof next : ClientProcess S stark)
      (if opened.voprf then
        match proveServer blake3 coins sk ots (maskedKeyBits sk ots.r_s) c with
        | none => .done none
        | some (.error error) => fails error
        | some (.ok (proof, voprf)) => .send .proof proof
          (.done ((ServerState.new ots.r_s (serverPads ots) opened.uid (some voprf)).map .ok))
      else .done ((ServerState.new ots.r_s (serverPads ots) opened.uid none).map .ok) :
        ServerProcess S stark) := by
  by_cases hvoprf : opened.voprf = true
  · rw [if_pos hvoprf]
    cases proveServer (S := S) blake3 coins sk ots (maskedKeyBits sk ots.r_s) c with
    | none => exact .right_done _ _
    | some proved =>
      cases proved with
      | error error => exact .right_done _ _
      | ok proved =>
        obtain ⟨result, hresult⟩ := Process.isDone_iff.mp (hnext (some proved.1))
        apply Dual.to_left
        rw [hresult]
        exact .left_done _ _
  · rw [if_neg hvoprf]
    exact .right_done _ _

/-- The server's `b̄` and its proof are what the client waits for. -/
theorem dual_bhat (pk : Option (VerifiedKey S)) (tau : ℕ) (uid : Uid) (cots : ClientOts)
    (d : List (PadsCommitments S)) (coins : stark.Coins) (sk : SecretKey) (opened : Opened) (sots : ServerOts)
    (c : List (MasksCommitments S)) :
    Dual (clientBhat blake3 pk tau uid cots d) (serverBhat blake3 coins sk opened sots c) := by
  unfold clientBhat serverBhat
  generalize List.ofFn (maskedKeyBits sk sots.r_s) = bhat
  apply Dual.to_left
  dsimp only
  by_cases hlen : bhat.length ≠ N
  · rw [if_pos hlen]
    exact .left_done _ _
  rw [if_neg hlen]
  by_cases hbits : ¬ bhat.all fun b => b.toNat ≤ 1
  · rw [if_pos hbits]
    exact .left_done _ _
  rw [if_neg hbits]
  generalize (fromFn fun i : Fin N => bhat[i.val]?) = read
  cases read with
  | none => exact .left_done _ _
  | some b_bar =>
    cases pk with
    | none => exact .left_done _ _
    | some pk =>
      apply dual_proof
      intro message
      cases finish pk (masksCommitments blake3 cots.ot_blocks (evaluationsFor tau)) d b_bar message <;> rfl

/-- A side joins the 1-out-of-Δ OTs when the other one does. -/
theorem dual_delta (pk : Option (VerifiedKey S)) (tau : ℕ) (uid : Uid) (ot_blocks : Fin N → Fin 2 → Block)
    (coins : stark.Coins) (sk : SecretKey) {opened : Opened} (hvoprf : opened.voprf = pk.isSome)
    (r_s : Fin N → RsEntry) (c : List (MasksCommitments S)) :
    Dual (clientDelta blake3 build pk tau uid delta ot_blocks)
      (serverDelta blake3 build coins sk tau delta opened r_s c) := by
  unfold clientDelta serverDelta
  cases requiredBinaryOtCount build tau with
  | none => exact .left_done _ _
  | some m =>
  unfold clientJoins serverJoins
  apply Dual.to_right
  apply Dual.to_left
  dsimp only
  rw [hvoprf]
  cases clientDeltaOts blake3 build delta tau with
  | none => exact .left_done _ _
  | some ots =>
    cases deltaOtSend blake3 build delta.send tau with
    | none => exact .right_done _ _
    | some delta_ot_blocks =>
      dsimp only
      generalize (if pk.isSome then evaluationsFor tau else 0) = evaluations
      cases hd : padsCommitments (S := S) delta_ot_blocks evaluations with
      | none => exact .right_done _ _
      | some d =>
        obtain rfl : d.length = evaluations := padsCommitments_length hd
        exact dual_pads fun d' => dual_bhat pk tau uid _ d' coins sk opened _ c

/-- And the binary ones. -/
theorem dual_binary (pk : Option (VerifiedKey S)) (tau : ℕ) (uid : Uid) (coins : stark.Coins) (sk : SecretKey)
    {opened : Opened} (hvoprf : opened.voprf = pk.isSome) :
    Dual (clientBinary blake3 build pk tau uid binary delta)
      (serverBinary blake3 build coins sk tau binary delta opened) := by
  unfold clientBinary serverBinary
  apply Dual.to_right
  apply Dual.to_left
  dsimp only
  rw [hvoprf]
  cases clientBinaryOts build binary with
  | none => exact .left_done _ _
  | some ot_blocks =>
    cases serverBinaryOts build binary with
    | none => exact .right_done _ _
    | some r_s =>
      dsimp only
      generalize (if pk.isSome then evaluationsFor tau else 0) = evaluations
      refine dual_masks (masksCommitments_length blake3 ot_blocks evaluations) fun c => ?_
      unfold serverMasks
      cases masksMatch blake3 r_s 0 c with
      | none => exact .right_done _ _
      | some matched =>
        cases matched with
        | false => exact .right_done _ _
        | true => exact dual_delta pk tau uid ot_blocks coins sk hvoprf r_s c

/-- Whatever the two sides are called with, each waits for what the other one sends next. -/
theorem preprocessing_dual (blake3 : Blake3) (build : Build) (pk : Option (VerifiedKey S)) (tau : UInt64)
    (tau' : ℕ) (uid : Uid) (binary delta : BinaryOts) (coins : stark.Coins) (sk : SecretKey) :
    Dual (clientProcess blake3 build pk tau.toNat uid binary delta)
      (serverProcess blake3 build coins sk tau' binary delta) := by
  unfold clientProcess serverProcess
  cases hhello : clientHello stark uid tau.toNat pk.isSome with
  | error error => exact .left_done _ _
  | ok hello =>
    by_cases htau : tau' = 0
    · rw [if_pos htau]
      exact .right_done _ _
    rw [if_neg htau]
    apply Dual.to_right
    dsimp only
    obtain ⟨-, rfl⟩ := clientHello_eq_ok hhello
    rw [readHello_clientHello]
    apply Dual.to_left
    dsimp only
    cases hcheck : clientCheck stark uid tau.toNat pk.isSome (encodeTau tau') with
    | error error => exact .left_done _ _
    | ok opened =>
      cases hopened : serverCheck stark tau' ⟨uid, tau.toNat, pk.isSome⟩ with
      | error error => exact .right_done _ _
      | ok opened' =>
        obtain ⟨htau', -, rfl⟩ := serverCheck_eq_ok.mp hopened
        subst htau'
        exact dual_binary pk tau.toNat uid coins sk rfl

end Duality

/-! ## What each side sends on the way -/

section Joins

variable {blake3 : Blake3} {build : Build} {binary delta : BinaryOts}

/-- A client that only receives `d` sends nothing. -/
theorem receivePads_sent (ots : ClientOts) (evaluations : ℕ) :
    ∀ {v : ℕ} {next : List (PadsCommitments S) → ClientProcess S stark}
      {inbox : Queues (ToClient.Message S stark)},
      (∀ d inbox, ((next d).run inbox).2 = .empty _) →
      ((receivePads ots v evaluations next).run inbox).2 = .empty _ := by
  induction evaluations with
  | zero => exact fun h => h [] _
  | succ evaluations ih =>
    intro v next inbox h
    rw [receivePads]
    cases hpads : inbox .pads with
    | nil =>
      rw [Process.run_receive_nil _ hpads]
      rfl
    | cons message messages =>
      rw [Process.run_receive_cons _ hpads]
      dsimp only
      by_cases hlen : message.length ≠ RUNS_PER_EVALUATION
      · rw [if_pos hlen]
        rfl
      rw [if_neg hlen]
      cases checkPads stark ots (v * RUNS_PER_EVALUATION) message with
      | none => rfl
      | some checked =>
        cases checked with
        | error error => rfl
        | ok => exact ih fun d inbox => h (message ++ d) inbox

/-- Nor does it from `b̄` on. -/
theorem clientBhat_sent (pk : Option (VerifiedKey S)) (tau : ℕ) (uid : Uid) (ots : ClientOts)
    (d : List (PadsCommitments S)) (inbox : Queues (ToClient.Message S stark)) :
    ((clientBhat blake3 pk tau uid ots d).run inbox).2 = .empty _ := by
  unfold clientBhat
  cases hcontrol : inbox .control with
  | nil =>
    rw [Process.run_receive_nil _ hcontrol]
    rfl
  | cons bhat rest =>
    rw [Process.run_receive_cons _ hcontrol]
    dsimp only
    by_cases hlen : bhat.length ≠ N
    · rw [if_pos hlen]
      rfl
    rw [if_neg hlen]
    by_cases hbits : ¬ bhat.all fun b => b.toNat ≤ 1
    · rw [if_pos hbits]
      rfl
    rw [if_neg hbits]
    generalize (fromFn fun i : Fin N => bhat[i.val]?) = read
    -- The client only reads from here on, whatever comes.
    cases read with
    | none => rfl
    | some b_bar =>
      cases pk with
      | none => rfl
      | some pk =>
        rw [Process.run]
        generalize Queues.pop (Function.update inbox ToClient.control rest) ToClient.proof = popped
        cases popped with
        | none => rfl
        | some popped =>
          dsimp only
          cases finish pk (masksCommitments blake3 ots.ot_blocks (evaluationsFor tau)) d b_bar
            (some popped.1) <;> rfl

/-- It joins the 1-out-of-Δ OTs, and sends no `c` from there on. -/
theorem clientJoins_sent (pk : Option (VerifiedKey S)) (tau : ℕ) (uid : Uid)
    (ot_blocks : Fin N → Fin 2 → Block) (inbox : Queues (ToClient.Message S stark)) :
    ((clientJoins blake3 build pk tau uid delta ot_blocks).run inbox).2 =
      .cons .delta_ots () (.empty _) := by
  rw [clientJoins, Process.run]
  cases hjoined : inbox .delta_ots with
  | nil =>
    rw [Process.run_receive_nil _ hjoined]
    rfl
  | cons joined others =>
    rw [Process.run_receive_cons _ hjoined]
    dsimp only
    cases clientDeltaOts blake3 build delta tau with
    | none => rfl
    | some ots =>
      exact congrArg (Queues.cons .delta_ots ())
        (receivePads_sent _ _ fun d inbox => clientBhat_sent _ _ _ _ d inbox)

theorem sendMasks_sent (next : ClientProcess S stark) (inbox : Queues (ToClient.Message S stark)) :
    ∀ c : List (MasksCommitments S),
      ((sendMasks next c).run inbox).2 .masks = c.map List.ofFn ++ (next.run inbox).2 .masks ∧
        ((sendMasks next c).run inbox).2 .delta_ots = (next.run inbox).2 .delta_ots
  | [] => ⟨rfl, rfl⟩
  | c_v :: c => by
    obtain ⟨hmasks, hdelta⟩ := sendMasks_sent next inbox c
    refine ⟨?_, hdelta⟩
    have hcons : ((sendMasks next (c_v :: c)).run inbox).2 .masks =
        List.ofFn c_v :: ((sendMasks next c).run inbox).2 .masks := rfl
    rw [hcons, hmasks]
    rfl

/-- What a client sends that gets past its opening: it joins the binary OTs, and when the server has
joined them too, it sends its commitments and joins the others. -/
theorem clientProcess_sent {pk : Option (VerifiedKey S)} {tau : ℕ} {uid : Uid}
    {inbox : Queues (ToClient.Message S stark)} {opened : Opened}
    (hopening : clientOpening stark uid tau pk.isSome (serverMessages inbox).echoed = .ok opened)
    {ots : ClientOts} (hots : clientOtsOf blake3 build binary delta tau = some ots) :
    ((clientProcess blake3 build pk tau uid binary delta).run inbox).2 .binary_ots ≠ [] ∧
      (inbox .binary_ots ≠ [] →
        ((clientProcess blake3 build pk tau uid binary delta).run inbox).2 .masks =
            (masksCommitments blake3 ots.ot_blocks (if pk.isSome then evaluationsFor tau else 0)).map
              List.ofFn ∧
          ((clientProcess blake3 build pk tau uid binary delta).run inbox).2 .delta_ots ≠ []) := by
  obtain ⟨hallowed, -, echoed, hechoed, hlen, hle⟩ := clientOpening_eq_ok.mp hopening
  obtain ⟨rest, hcontrol⟩ : ∃ rest, inbox .control = echoed :: rest := List.head?_eq_some_iff.mp hechoed
  have hcheck : clientCheck stark uid tau pk.isSome echoed = .ok ⟨uid, tau, pk.isSome⟩ :=
    clientCheck_eq_ok.mpr ⟨decodeTau_eq_ok.mpr ⟨hlen, hle⟩, rfl⟩
  obtain ⟨hbinary, houtputs⟩ := clientOtsOf_split hots
  unfold clientProcess
  rw [clientHello_of_allowed hallowed]
  dsimp only
  rw [Process.run, Process.run_receive_cons _ hcontrol]
  dsimp only
  rw [hcheck]
  dsimp only
  rw [clientBinary, Process.run]
  -- The client joins the binary OTs right after its opening, and all else once the server has
  -- joined.
  refine ⟨List.cons_ne_nil () _, fun hjoined => ?_⟩
  obtain ⟨joined, others, hcons⟩ := List.exists_cons_of_ne_nil hjoined
  rw [Process.run_receive_cons _ (show Function.update inbox .control rest .binary_ots = joined :: others
    from hcons)]
  dsimp only
  rw [hbinary]
  dsimp only
  rw [clientDelta_joins blake3 pk uid ots.ot_blocks houtputs]
  obtain ⟨hmasks, hdelta⟩ := sendMasks_sent (clientJoins blake3 build pk tau uid delta ots.ot_blocks)
    (Function.update (Function.update inbox .control rest) .binary_ots others)
    (masksCommitments blake3 ots.ot_blocks (if pk.isSome then evaluationsFor tau else 0))
  rw [clientJoins_sent] at hmasks hdelta
  constructor
  · exact hmasks.trans (List.append_nil _)
  · refine ne_of_eq_of_ne hdelta ?_
    exact List.cons_ne_nil () _

/-- What a server sends that gets past its opening: its echo, then it joins the binary OTs after the
client, and the others when the client's commitments are checked. -/
theorem serverProcess_sent (coins : stark.Coins) (sk : SecretKey) {tau : ℕ}
    {inbox : Queues (ToServer.Message S)} {echoed : Option (List UInt8)} {opened : Opened}
    (hopening : serverOpening stark tau (inbox .control).head? = some (echoed, .ok opened))
    {ots : ServerOts} (hots : serverOtsOf blake3 build binary delta tau = some ots) :
    (((serverProcess blake3 build coins sk tau binary delta).run inbox).2 .control).head? = echoed ∧
      (inbox .binary_ots ≠ [] →
        ((serverProcess blake3 build coins sk tau binary delta).run inbox).2 .binary_ots ≠ [] ∧
          (∀ c, receiveMasksCommitments stark blake3 ots.r_s (if opened.voprf then evaluationsFor tau else 0)
              (inbox .masks) = some (.ok c) → inbox .delta_ots ≠ [] →
            ((serverProcess blake3 build coins sk tau binary delta).run inbox).2 .delta_ots ≠ [])) := by
  obtain ⟨hbinary, hdelta⟩ := serverOtsOf_split hots
  unfold serverProcess
  unfold serverOpening at hopening
  by_cases htau : tau = 0
  · rw [if_pos htau] at hopening
    cases hopening
  rw [if_neg htau] at hopening ⊢
  cases hcontrol : inbox .control with
  | nil =>
    rw [hcontrol] at hopening
    cases hopening
  | cons hello rest =>
    rw [hcontrol, List.head?_cons] at hopening
    dsimp only at hopening
    rw [Process.run_receive_cons _ hcontrol]
    obtain ⟨read, hread, -⟩ := readHello_spec stark hello
    dsimp only
    rw [hread] at hopening ⊢
    cases read with
    | error error => cases hopening
    | ok hello' =>
      have hechoed : some (encodeTau tau) = echoed ∧ serverCheck stark tau hello' = .ok opened :=
        Prod.mk.inj (Option.some.inj hopening)
      dsimp only
      rw [Process.run, hechoed.2]
      dsimp only
      -- The server waits until the client has joined, and joins then.
      refine ⟨hechoed.1, fun hjoined => ?_⟩
      obtain ⟨joined, others, hcons⟩ := List.exists_cons_of_ne_nil hjoined
      rw [serverBinary, Process.run_receive_cons _ (show Function.update inbox .control rest .binary_ots =
        joined :: others from hcons)]
      dsimp only
      rw [hbinary, Process.run]
      dsimp only
      refine ⟨List.cons_ne_nil () _, fun c hreceived hjoined' => ?_⟩
      -- The commitments that are read pass the check, so the server comes to the 1-out-of-Δ OTs.
      obtain ⟨hread', hchecked⟩ := receiveMasksCommitments_eq_ok.mp hreceived
      obtain ⟨joined', others', hcons'⟩ := List.exists_cons_of_ne_nil hjoined'
      obtain ⟨rest', hrun⟩ := receiveMasks_run (if opened.voprf then evaluationsFor tau else 0)
        (serverMasks blake3 build coins sk tau delta opened ots.r_s)
        (Function.update (Function.update inbox .control rest) .binary_ots others)
      have hmasks : Function.update (Function.update inbox .control rest) .binary_ots others .masks =
          inbox .masks := rfl
      rw [hmasks, hread'] at hrun
      dsimp only at hrun
      rw [serverMasks, (masksMatch_eq_some_true blake3 ots.r_s 0 c).mpr hchecked] at hrun
      dsimp only at hrun
      rw [hrun, serverDelta_joins coins sk opened ots.r_s c hdelta, serverJoins,
        Process.run_receive_cons _ (show Function.update (Function.update
        (Function.update inbox .control rest) .binary_ots others) .masks rest' .delta_ots =
          joined' :: others' from hcons')]
      exact List.cons_ne_nil () _

end Joins

/-! ## Every order of the steps -/

/-- Two sides that agree and follow the code get to the end of their preprocessing. -/
theorem preprocessing_completes (blake3 : Blake3) {build : Build} {coins : stark.Coins}
    {pk : Option (VerifiedKey S)} {sk : SecretKey} {tau : UInt64}
    (hallowed : TauAllowed tau.toNat pk.isSome) (hfits : build.Fits tau.toNat)
    (hpk : ∀ key, pk = some key → key.pk = keyCommit sk)
    (hcomplete : pk.isSome → stark.Complete) (uid : Uid) (binary delta : BinaryOts) :
    ∃ (cots : ClientOts) (sent : ServerMessages S stark) (server : ServerState) (client : ClientState S),
      clientOtsOf blake3 build binary delta tau.toNat = some cots ∧
      preprocServer blake3 build coins sk tau.toNat binary delta
        (clientHello stark uid tau.toNat pk.isSome).toOption
        ((masksCommitments blake3 cots.ot_blocks (if pk.isSome then evaluationsFor tau.toNat else 0)).map
          List.ofFn) = some (.ok (sent, server)) ∧
      preprocClient blake3 build pk tau.toNat uid binary delta sent = some (.ok client) := by
  cases pk with
  | none =>
    obtain ⟨cots, hcots, -, -⟩ := clientOtsOf_isSome blake3 hallowed.1 hfits binary delta
    obtain ⟨m, hm, -⟩ := requiredBinaryOtCount_of_fits hallowed.1 hfits
    obtain ⟨sent, server, client, hserver, hclient⟩ := plain_preprocessing (S := S) blake3 stark sk tau
      hm uid binary delta _ coins
    exact ⟨cots, sent, server, client, hcots, hserver, hclient⟩
  | some key =>
    exact voprf_preprocessing blake3 (hcomplete rfl) (hpk key rfl) tau (hallowed.2 rfl) hfits uid binary
      delta coins

/-- The client's first message is its hello. -/
theorem clientProcess_hello (blake3 : Blake3) (build : Build) (pk : Option (VerifiedKey S)) (tau : ℕ)
    (uid : Uid) (binary delta : BinaryOts) (inbox : Queues (ToClient.Message S stark)) :
    (((clientProcess blake3 build pk tau uid binary delta).run inbox).2 .control).head? =
      (clientHello stark uid tau pk.isSome).toOption := by
  unfold clientProcess
  cases clientHello stark uid tau pk.isSome <;> rfl

/-- Two sides that agree have an outcome that is what the two functions give on each other's
messages. -/
theorem outcome_of_honest {blake3 : Blake3} {build : Build} {coins : stark.Coins}
    {pk : Option (VerifiedKey S)} {sk : SecretKey} {tau : UInt64}
    (hallowed : TauAllowed tau.toNat pk.isSome) (hfits : build.Fits tau.toNat) {uid : Uid}
    {binary delta : BinaryOts} {cots : ClientOts}
    (hcots : clientOtsOf blake3 build binary delta tau.toNat = some cots)
    {sent : ServerMessages S stark} {server : ServerState}
    (hserver : preprocServer blake3 build coins sk tau.toNat binary delta
      (clientHello stark uid tau.toNat pk.isSome).toOption
      ((masksCommitments blake3 cots.ot_blocks (if pk.isSome then evaluationsFor tau.toNat else 0)).map
        List.ofFn) = some (.ok (sent, server)))
    {client : Ended stark (ClientState S)} {server' : Ended stark ServerState}
    {fromClient : Queues (ToServer.Message S)} {fromServer : Queues (ToClient.Message S stark)}
    (hrun : (clientProcess blake3 build pk tau.toNat uid binary delta).run fromServer =
      (client, fromClient))
    (hrun' : (serverProcess blake3 build coins sk tau.toNat binary delta).run fromClient =
      (server', fromServer)) :
    client = endedWith (preprocClient blake3 build pk tau.toNat uid binary delta sent) ∧
      server' = some (.ok server) := by
  have hhello := clientProcess_hello blake3 build pk tau.toNat uid binary delta fromServer
  rw [hrun] at hhello
  dsimp only at hhello
  have hopened := serverOpening_honest stark uid hallowed
  rw [← hhello] at hopened hserver
  obtain ⟨sots, hsots, hlen⟩ := serverOtsOf_isSome blake3 hallowed.1 hfits binary delta
  -- The server echoes its τ, so the client joins the binary OTs, and so does the server.
  obtain ⟨hecho, hjoins⟩ := serverProcess_sent coins sk hopened hsots
  rw [hrun'] at hecho hjoins
  have hopening : clientOpening stark uid tau.toNat pk.isSome (serverMessages fromServer).echoed =
      .ok ⟨uid, tau.toNat, pk.isSome⟩ := by
    have hechoed : (serverMessages fromServer).echoed = some (encodeTau tau.toNat) := hecho
    rw [hechoed]
    exact clientOpening_honest stark uid hallowed
  obtain ⟨hbinary, hmasks⟩ := clientProcess_sent hopening hcots
  rw [hrun] at hbinary hmasks
  obtain ⟨hbinary', hdelta'⟩ := hjoins hbinary
  obtain ⟨hmasks, hdelta⟩ := hmasks hbinary'
  dsimp only at hmasks hdelta hdelta'
  rw [← hmasks] at hserver
  -- The server gets past the client's commitments, because it gets to its end with them.
  have hle : tauFor (evaluationsFor tau.toNat) ≤ sots.delta_ot_blocks.length := by
    rw [hlen]
    exact tauFor_evaluationsFor_le tau.toNat
  obtain ⟨d, hd⟩ := padsCommitments_isSome (S := S) pk.isSome hle
  obtain ⟨c, hreceived⟩ : ∃ c, receiveMasksCommitments stark blake3 sots.r_s
      (if pk.isSome then evaluationsFor tau.toNat else 0) (fromClient .masks) = some (.ok c) := by
    have hrest := hserver
    rw [preprocServer_of_opened coins sk hopened hsots hd] at hrest
    obtain ⟨received, hreceived, hrest⟩ := Option.bind_eq_some_iff.mp hrest
    cases received with
    | error error => cases hrest
    | ok c => exact ⟨c, hreceived⟩
  have hdelta' := hdelta' c hreceived hdelta
  -- So neither side is left without its part of an OT, and each ends as its function says.
  constructor
  · rcases clientProcess_run blake3 pk tau.toNat uid binary delta hfits fromServer with h | ⟨-, hnone⟩
    · rw [hrun] at h
      rcases serverProcess_run coins sk blake3 binary delta hfits fromClient with
        ⟨-, hsent⟩ | ⟨-, hnone⟩
      · rw [hrun'] at hsent
        rw [← hsent sent server hserver]
        exact h
      · exact absurd hnone (not_or.mpr ⟨hbinary, hdelta⟩)
    · exact absurd hnone (not_or.mpr ⟨hbinary', hdelta'⟩)
  · rcases serverProcess_run coins sk blake3 binary delta hfits fromClient with
      ⟨h, -⟩ | ⟨-, hnone⟩
    · rw [hrun', hserver] at h
      exact h
    · exact absurd hnone (not_or.mpr ⟨hbinary, hdelta⟩)

/-- A client with τ = 16 that asks for proofs of the zero key. -/
noncomputable def zeroClientProcess : ClientProcess Permutations.identity (Stark.transparent Val) :=
  clientProcess (fun _ _ _ => 0) (Build.cryprot true) (some ⟨keyCommit zeroKey⟩) 16 (fun _ => 0)
    (fun _ _ => (fun _ _ => 0, true)) fun _ _ => (fun _ _ => 0, true)

/-- Its server. -/
noncomputable def zeroServerProcess : ServerProcess Permutations.identity (Stark.transparent Val) :=
  serverProcess (fun _ _ _ => 0) (Build.cryprot true) () zeroKey 16 (fun _ _ => (fun _ _ => 0, true))
    fun _ _ => (fun _ _ => 0, true)

end PoolOprf
