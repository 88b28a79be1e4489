import PoolOprf.Lib.Network
import PoolOprf.Oprf.Exchange
import PoolOprf.Oprf.PreprocessingPanicFree

/-!
# The preprocessing, message by message

`preproc_client` and `preproc_server` (`pool-oprf/src/preprocessing.rs`) as processes that send and
receive in the order of the code, over the control stream, those of `c`, `d` and `π_preproc`
(`voprf.rs`), and the two sub-connections of the OTs. An OT is ideal, but a side gets its part of it
only when the other side has joined (`PreprocFailure.Ot` otherwise).

As functions of all messages that come, the two processes are `preprocClient` and `preprocServer`
(`clientProcess_run`, `serverProcess_run`): the client reads its messages as `serverMessages` of the
streams, and the server sends those that `preprocServer` says.
-/

namespace PoolOprf

open Panic

variable {S : Permutations} {stark : Stark Val}

/-! ## Streams -/

/-- The client's streams to the server. -/
inductive ToServer where
  | control
  | masks
  /-- The sub-connection of the binary OTs. -/
  | binary_ots
  /-- The sub-connection of the 1-out-of-Δ OTs. -/
  | delta_ots
  deriving DecidableEq

/-- The server's streams to the client. -/
inductive ToClient where
  | control
  | pads
  | proof
  /-- The sub-connection of the binary OTs. -/
  | binary_ots
  /-- The sub-connection of the 1-out-of-Δ OTs. -/
  | delta_ots
  deriving DecidableEq

/-- What the client sends. -/
abbrev ToServer.Message (S : Permutations) : ToServer → Type
  | control => List UInt8
  | masks => MasksMessage S
  | binary_ots | delta_ots => Unit

/-- What the server sends. -/
abbrev ToClient.Message (S : Permutations) (stark : Stark Val) : ToClient → Type
  | control => List UInt8
  | pads => PadsMessage S
  | proof => PreprocessingProof S stark
  | binary_ots | delta_ots => Unit

/-- Why a side fails: the other one does not join an OT, or what the messages have in them. -/
inductive PreprocFailure (stark : Stark Val) where
  /-- OT extension failed -/
  | Ot
  | Preproc (error : PreprocError stark)

/-- How a side ends, `none` where it panics. -/
abbrev Ended (stark : Stark Val) (α : Type) : Type := Option (Except (PreprocFailure stark) α)

/-- A client. -/
abbrev ClientProcess (S : Permutations) (stark : Stark Val) : Type :=
  Process (ToServer.Message S) (ToClient.Message S stark) (Ended stark (ClientState S))

/-- A server. -/
abbrev ServerProcess (S : Permutations) (stark : Stark Val) : Type :=
  Process (ToClient.Message S stark) (ToServer.Message S) (Ended stark ServerState)

/-- A process that ends with an error. -/
def fails {A B : Type} {P : A → Type} {Q : B → Type} {α : Type} (error : PreprocError stark) :
    Process P Q (Ended stark α) := .done (some (.error (.Preproc error)))

/-- How a function of the messages ends. -/
def endedWith {α : Type} (result : Option (Except (PreprocError stark) α)) : Ended stark α :=
  result.map (·.mapError PreprocFailure.Preproc)

/-! ## The client -/

section Client

variable (blake3 : Blake3) (build : Build) (pk : Option (VerifiedKey S)) (tau : ℕ) (uid : Uid)
  (binary delta : BinaryOts)

/-- Send `c^v` of each evaluation `v`. -/
def sendMasks (next : ClientProcess S stark) : List (MasksCommitments S) → ClientProcess S stark
  | [] => next
  | c_v :: c => .send .masks (List.ofFn c_v) (sendMasks next c)

/-- Receive `d^{v, k}` of each run `k` of each evaluation from `v` on, and check them as they
come. -/
def receivePads (ots : ClientOts) :
    ℕ → ℕ → (List (PadsCommitments S) → ClientProcess S stark) → ClientProcess S stark
  | _, 0, next => next []
  | v, evaluations + 1, next => .receive .pads fun
    | none => fails .UnexpectedClose
    | some (message : PadsMessage S) =>
      if message.length ≠ RUNS_PER_EVALUATION then fails (.Malformed "d has wrong length")
      else
        match checkPads stark ots (v * RUNS_PER_EVALUATION) message with
        | none => .done none
        | some (.error error) => fails error
        | some (.ok ()) => receivePads ots (v + 1) evaluations fun d => next (message ++ d)

/-- From `b̄` on. -/
def clientBhat (ots : ClientOts) (d : List (PadsCommitments S)) : ClientProcess S stark :=
  .receive .control fun
  | none => fails .UnexpectedClose
  | some (bhat : List UInt8) =>
    if bhat.length ≠ N then fails (.Malformed "b_hat has wrong length")
    else if ¬ bhat.all (fun b => b.toNat ≤ 1) then fails (.Malformed "b_hat entries must be bits")
    else
      match fromFn fun i : Fin N => bhat[i.val]? with
      | none => .done none
      | some b_bar =>
        match pk with
        | none => .done ((ClientState.new ots.ot_blocks b_bar (rcEntries ots) uid none).map .ok)
        | some pk => .receive .proof fun message =>
          match finish pk (masksCommitments blake3 ots.ot_blocks (evaluationsFor tau)) d b_bar message with
          | .error error => fails error
          | .ok voprf =>
            .done ((ClientState.new ots.ot_blocks b_bar (rcEntries ots) uid (some voprf)).map .ok)

/-- In the 1-out-of-Δ OTs. -/
def clientJoins (ot_blocks : Fin N → Fin 2 → Block) : ClientProcess S stark :=
  .send .delta_ots () (.receive .delta_ots fun
  | none => .done (some (.error .Ot))
  | some () =>
    match clientDeltaOts blake3 build delta tau with
    | none => .done none
    | some (blocks, choices) =>
      receivePads ⟨ot_blocks, blocks, choices⟩ 0 (if pk.isSome then evaluationsFor tau else 0)
        (clientBhat blake3 pk tau uid ⟨ot_blocks, blocks, choices⟩))

/-- From the 1-out-of-Δ OTs on. Their number comes first. -/
def clientDelta (ot_blocks : Fin N → Fin 2 → Block) : ClientProcess S stark :=
  match requiredBinaryOtCount build tau with
  | none => .done none
  | some _ => clientJoins blake3 build pk tau uid delta ot_blocks

/-- From the binary OTs on. -/
def clientBinary : ClientProcess S stark :=
  .send .binary_ots () (.receive .binary_ots fun
  | none => .done (some (.error .Ot))
  | some () =>
    match clientBinaryOts build binary with
    | none => .done none
    | some ot_blocks =>
      sendMasks (clientDelta blake3 build pk tau uid delta ot_blocks)
        (masksCommitments blake3 ot_blocks (if pk.isSome then evaluationsFor tau else 0)))

/-- `preproc_client`, and `preproc_client_voprf` with a `pk`. -/
def clientProcess : ClientProcess S stark :=
  match clientHello stark uid tau pk.isSome with
  | .error error => fails error
  | .ok hello => .send .control hello (.receive .control fun
    | none => fails .UnexpectedClose
    | some echoed =>
      match clientCheck stark uid tau pk.isSome echoed with
      | .error error => fails error
      | .ok _ => clientBinary blake3 build pk tau uid binary delta)

end Client

/-! ## The server -/

section Server

variable (blake3 : Blake3) (build : Build) (coins : stark.Coins) (sk : SecretKey) (tau : ℕ)
  (binary delta : BinaryOts)

/-- `c^v` of a message. -/
def readMasks (stark : Stark Val) (message : MasksMessage S) :
    Option (Except (PreprocError stark) (MasksCommitments S)) :=
  if message.length ≠ N then some (.error (.Malformed "c has wrong length"))
  else (fromFn fun i : Fin N => message[i.val]?).map .ok

/-- Receive `c^v` of each evaluation. -/
def receiveMasks :
    ℕ → (List (MasksCommitments S) → ServerProcess S stark) → ServerProcess S stark
  | 0, next => next []
  | evaluations + 1, next => .receive .masks fun
    | none => fails .UnexpectedClose
    | some message =>
      match readMasks stark message with
      | none => .done none
      | some (.error error) => fails error
      | some (.ok c_v) => receiveMasks evaluations fun c => next (c_v :: c)

/-- Send `d` of each evaluation. -/
def sendPads (next : ServerProcess S stark) : List (PadsMessage S) → ServerProcess S stark
  | [] => next
  | d_v :: d => .send .pads d_v (sendPads next d)

/-- From `b̄` on. -/
def serverBhat (opened : Opened) (ots : ServerOts) (c : List (MasksCommitments S)) :
    ServerProcess S stark :=
  .send .control (List.ofFn (maskedKeyBits sk ots.r_s))
    (if opened.voprf then
      match proveServer blake3 coins sk ots (maskedKeyBits sk ots.r_s) c with
      | none => .done none
      | some (.error error) => fails error
      | some (.ok (proof, voprf)) =>
        .send .proof proof
          (.done ((ServerState.new ots.r_s (serverPads ots) opened.uid (some voprf)).map .ok))
    else .done ((ServerState.new ots.r_s (serverPads ots) opened.uid none).map .ok))

/-- In the 1-out-of-Δ OTs. -/
def serverJoins (opened : Opened) (r_s : Fin N → RsEntry) (c : List (MasksCommitments S)) :
    ServerProcess S stark :=
  .receive .delta_ots fun
  | none => .done (some (.error .Ot))
  | some () => .send .delta_ots ()
    (match deltaOtSend blake3 build delta.send tau with
    | none => .done none
    | some delta_ot_blocks =>
      match padsCommitments delta_ot_blocks (if opened.voprf then evaluationsFor tau else 0) with
      | none => .done none
      | some d => sendPads (serverBhat blake3 coins sk opened ⟨r_s, delta_ot_blocks⟩ c) d)

/-- From the 1-out-of-Δ OTs on. -/
def serverDelta (opened : Opened) (r_s : Fin N → RsEntry) (c : List (MasksCommitments S)) :
    ServerProcess S stark :=
  match requiredBinaryOtCount build tau with
  | none => .done none
  | some _ => serverJoins blake3 build coins sk tau delta opened r_s c

/-- From the check of the client's commitments on. -/
def serverMasks (opened : Opened) (r_s : Fin N → RsEntry) (c : List (MasksCommitments S)) :
    ServerProcess S stark :=
  match masksMatch blake3 r_s 0 c with
  | none => .done none
  | some false => fails .MasksMismatch
  | some true => serverDelta blake3 build coins sk tau delta opened r_s c

/-- From the binary OTs on. -/
def serverBinary (opened : Opened) : ServerProcess S stark :=
  .receive .binary_ots fun
  | none => .done (some (.error .Ot))
  | some () => .send .binary_ots ()
    (match serverBinaryOts build binary with
    | none => .done none
    | some r_s =>
      receiveMasks (if opened.voprf then evaluationsFor tau else 0)
        (serverMasks blake3 build coins sk tau delta opened r_s))

/-- `preproc_server`. -/
def serverProcess : ServerProcess S stark :=
  if tau = 0 then fails .ZeroTau
  else .receive .control fun
    | none => fails .UnexpectedClose
    | some hello =>
      match readHello stark hello with
      | none => .done none
      | some (.error error) => fails error
      | some (.ok hello) => .send .control (encodeTau tau)
        (match serverCheck stark tau hello with
        | .error error => fails error
        | .ok opened => serverBinary blake3 build coins sk tau binary delta opened)

end Server

/-! ## The processes as functions of the messages -/

/-- What the server has sent, as the client reads it. -/
def serverMessages (inbox : Queues (ToClient.Message S stark)) : ServerMessages S stark where
  echoed := (inbox .control).head?
  pads := inbox .pads
  bhat := (inbox .control).tail.head?
  proof := (inbox .proof).head?

section ClientRun

variable {blake3 : Blake3} {build : Build} {pk : Option (VerifiedKey S)} {tau : ℕ} {uid : Uid}
  {binary delta : BinaryOts}

/-- The client's part of the OTs is that of the binary ones and that of the others. -/
theorem clientOtsOf_split {ots : ClientOts} (h : clientOtsOf blake3 build binary delta tau = some ots) :
    clientBinaryOts build binary = some ots.ot_blocks ∧
      clientDeltaOts blake3 build delta tau = some (ots.blocks, ots.choices) := by
  unfold clientOtsOf at h
  obtain ⟨ot_blocks, hblocks, h⟩ := Option.bind_eq_some_iff.mp h
  obtain ⟨⟨blocks, choices⟩, hdelta, h⟩ := Option.bind_eq_some_iff.mp h
  obtain rfl := Option.some.inj h
  exact ⟨hblocks, hdelta⟩

/-- A client that has its outputs asked for the binary OTs that they take. -/
theorem clientDelta_joins (blake3 : Blake3) (pk : Option (VerifiedKey S)) (uid : Uid)
    (ot_blocks : Fin N → Fin 2 → Block)
    {outputs : List Block × List { b_prime : Zdelta // b_prime.toNat < DELTA }}
    (h : clientDeltaOts blake3 build delta tau = some outputs) :
    (clientDelta blake3 build pk tau uid delta ot_blocks : ClientProcess S stark) =
      clientJoins blake3 build pk tau uid delta ot_blocks := by
  unfold clientDeltaOts deltaOtReceive at h
  obtain ⟨received, hreceived, -⟩ := Option.bind_eq_some_iff.mp h
  obtain ⟨m, hm, -⟩ := Option.bind_eq_some_iff.mp hreceived
  unfold clientDelta
  rw [hm]

theorem sendMasks_run (next : ClientProcess S stark) (inbox : Queues (ToClient.Message S stark)) :
    ∀ c : List (MasksCommitments S), ((sendMasks next c).run inbox).1 = (next.run inbox).1
  | [] => rfl
  | _ :: c => sendMasks_run next inbox c

/-- The messages with `d` are checked as `receivePadsCommitments` does, and the other streams stay
as they are. -/
theorem receivePads_run (ots : ClientOts) :
    ∀ (evaluations v : ℕ) (next : List (PadsCommitments S) → ClientProcess S stark)
      (inbox : Queues (ToClient.Message S stark)), ∃ rest : List (PadsMessage S),
      ((receivePads ots v evaluations next).run inbox).1 =
        match receivePadsCommitments stark ots v evaluations (inbox .pads) with
        | none => none
        | some (.error error) => some (.error (.Preproc error))
        | some (.ok d) => ((next d).run (Function.update inbox .pads rest)).1
  | 0, v, next, inbox => by
    refine ⟨inbox .pads, ?_⟩
    rw [Function.update_eq_self]
    rfl
  | evaluations + 1, v, next, inbox => by
    rw [receivePads]
    cases hpads : inbox .pads with
    | nil =>
      rw [Process.run_receive_nil _ hpads]
      exact ⟨[], rfl⟩
    | cons message messages =>
      rw [Process.run_receive_cons _ hpads, receivePadsCommitments]
      dsimp only
      by_cases hlen : message.length ≠ RUNS_PER_EVALUATION
      · rw [if_pos hlen, if_pos hlen]
        exact ⟨[], rfl⟩
      rw [if_neg hlen, if_neg hlen]
      cases checkPads stark ots (v * RUNS_PER_EVALUATION) message with
      | none => exact ⟨[], rfl⟩
      | some checked =>
        cases checked with
        | error error => exact ⟨[], rfl⟩
        | ok =>
          -- The next message is checked on the runs after these, with these already read.
          obtain ⟨rest, hrest⟩ := receivePads_run ots evaluations (v + 1) (fun d => next (message ++ d))
            (Function.update inbox .pads messages)
          refine ⟨rest, ?_⟩
          rw [Function.update_self, Function.update_idem] at hrest
          simp only [Option.bind_eq_bind, Option.bind_some]
          rw [hrest]
          cases receivePadsCommitments stark ots (v + 1) evaluations messages with
          | none => rfl
          | some received => cases received <;> rfl

/-- What comes after the opening. -/
structure Brings (inbox : Queues (ToClient.Message S stark)) (received : ServerMessages S stark) : Prop where
  pads : received.pads = inbox .pads
  bhat : received.bhat = (inbox .control).head?
  proof : received.proof = (inbox .proof).head?

/-- From `b̄` on. -/
theorem clientBhat_run (ots : ClientOts) (d : List (PadsCommitments S))
    {inbox : Queues (ToClient.Message S stark)} {received : ServerMessages S stark}
    (hbhat : received.bhat = (inbox .control).head?) (hproof : received.proof = (inbox .proof).head?) :
    ((clientBhat blake3 pk tau uid ots d).run inbox).1 =
      endedWith (clientEnd blake3 pk tau uid ots received d) := by
  unfold clientBhat clientEnd
  rw [hbhat]
  cases hcontrol : inbox .control with
  | nil =>
    rw [Process.run_receive_nil _ hcontrol]
    rfl
  | cons bhat rest =>
    rw [Process.run_receive_cons _ hcontrol, List.head?_cons]
    dsimp only
    by_cases hlen : bhat.length ≠ N
    · rw [if_pos hlen, if_pos hlen]
      rfl
    rw [if_neg hlen, if_neg hlen]
    by_cases hbits : ¬ bhat.all fun b => b.toNat ≤ 1
    · rw [if_pos hbits, if_pos hbits]
      rfl
    rw [if_neg hbits, if_neg hbits]
    cases (fromFn fun i : Fin N => bhat[i.val]?) with
    | none => rfl
    | some b_bar =>
      rw [Option.bind_eq_bind, Option.bind_some]
      -- Only a VOPRF client waits for a proof.
      cases pk with
      | none =>
        dsimp only
        cases ClientState.new (S := S) ots.ot_blocks b_bar (rcEntries ots) uid none <;> rfl
      | some pk =>
        rw [hproof]
        cases hproof : inbox .proof with
        | nil =>
          rw [Process.run_receive_nil _ (by rw [Function.update_of_ne (by decide), hproof])]
          rfl
        | cons proof proofs =>
          rw [Process.run_receive_cons _ (by rw [Function.update_of_ne (by decide), hproof]),
            List.head?_cons]
          dsimp only
          cases finish pk (masksCommitments blake3 ots.ot_blocks (evaluationsFor tau)) d b_bar
            (some proof) with
          | error error => rfl
          | ok voprf =>
            dsimp only
            cases ClientState.new ots.ot_blocks b_bar (rcEntries ots) uid (some voprf) <;> rfl

/-- From the 1-out-of-Δ OTs on. -/
theorem clientDelta_run {ots : ClientOts}
    (hdelta : clientDeltaOts blake3 build delta tau = some (ots.blocks, ots.choices))
    {inbox : Queues (ToClient.Message S stark)} {received : ServerMessages S stark}
    (h : Brings inbox received) (hjoined : inbox .delta_ots ≠ []) :
    ((clientDelta blake3 build pk tau uid delta ots.ot_blocks).run inbox).1 = endedWith
      ((if pk.isSome then receivePadsCommitments stark ots 0 (evaluationsFor tau) received.pads
        else some (.ok [])).bind fun pads =>
          match pads with
          | .error error => some (.error error)
          | .ok d => clientEnd blake3 pk tau uid ots received d) := by
  obtain ⟨joined, others, hcons⟩ := List.exists_cons_of_ne_nil hjoined
  rw [clientDelta_joins blake3 pk uid ots.ot_blocks hdelta, clientJoins, Process.run,
    Process.run_receive_cons _ hcons]
  dsimp only
  rw [hdelta]
  obtain ⟨rest, hrest⟩ := receivePads_run ots (if pk.isSome then evaluationsFor tau else 0) 0
    (clientBhat blake3 pk tau uid ots) (Function.update inbox .delta_ots others)
  refine hrest.trans ?_
  have hpads : received.pads = Function.update inbox .delta_ots others .pads := h.pads
  have hend : ∀ d, ((clientBhat blake3 pk tau uid ots d).run
      (Function.update (Function.update inbox .delta_ots others) .pads rest)).1 =
        endedWith (clientEnd blake3 pk tau uid ots received d) :=
    fun d => clientBhat_run ots d h.bhat h.proof
  rw [← hpads]
  -- Without `pk` there are no pads to receive.
  by_cases hvoprf : pk.isSome = true
  · rw [if_pos hvoprf, if_pos hvoprf]
    cases receivePadsCommitments stark ots 0 (evaluationsFor tau) received.pads with
    | none => rfl
    | some pads =>
      cases pads with
      | error error => rfl
      | ok d => exact hend d
  · rw [if_neg hvoprf, if_neg hvoprf]
    exact hend []

/-- The client does with the messages that come what `preprocClient` does, but where the server does
not join an OT. -/
theorem clientProcess_run (blake3 : Blake3) (pk : Option (VerifiedKey S)) (tau : ℕ) (uid : Uid)
    (binary delta : BinaryOts) (hfits : build.Fits tau) (inbox : Queues (ToClient.Message S stark)) :
    ((clientProcess blake3 build pk tau uid binary delta).run inbox).1 =
        endedWith (preprocClient blake3 build pk tau uid binary delta (serverMessages inbox)) ∨
      ((clientProcess blake3 build pk tau uid binary delta).run inbox).1 = some (.error .Ot) ∧
        (inbox .binary_ots = [] ∨ inbox .delta_ots = []) := by
  unfold clientProcess preprocClient
  cases hopening : clientOpening stark uid tau pk.isSome (serverMessages inbox).echoed with
  | error error =>
    -- The client fails before it sends its hello, or at the echo.
    apply Or.inl
    unfold clientOpening at hopening
    cases hhello : clientHello stark uid tau pk.isSome with
    | error error' =>
      rw [hhello] at hopening
      cases hopening
      rfl
    | ok hello =>
      rw [hhello] at hopening
      dsimp only at hopening ⊢
      rw [Process.run]
      cases hcontrol : inbox .control with
      | nil =>
        rw [serverMessages, hcontrol] at hopening
        cases hopening
        rw [Process.run_receive_nil _ hcontrol]
        rfl
      | cons echoed rest =>
        rw [serverMessages, hcontrol] at hopening
        rw [List.head?_cons] at hopening
        rw [Process.run_receive_cons _ hcontrol]
        dsimp only at hopening ⊢
        rw [hopening]
        rfl
  | ok opened =>
    obtain ⟨hallowed, -, echoed, hechoed, hlen, hle⟩ := clientOpening_eq_ok.mp hopening
    obtain ⟨rest, hcontrol⟩ : ∃ rest, inbox .control = echoed :: rest := List.head?_eq_some_iff.mp hechoed
    -- Past the opening, what is left is whether the server joins the two OTs.
    have hcheck : clientCheck stark uid tau pk.isSome echoed = .ok ⟨uid, tau, pk.isSome⟩ :=
      clientCheck_eq_ok.mpr ⟨decodeTau_eq_ok.mpr ⟨hlen, hle⟩, rfl⟩
    obtain ⟨ots, hots, -, -⟩ := clientOtsOf_isSome blake3 hallowed.1 hfits binary delta
    obtain ⟨hbinary, hdelta⟩ := clientOtsOf_split hots
    rw [clientHello_of_allowed hallowed]
    dsimp only
    rw [Process.run, Process.run_receive_cons _ hcontrol]
    dsimp only
    rw [hcheck]
    dsimp only
    rw [clientBinary, Process.run, hots, Option.bind_eq_bind, Option.bind_some,
      preprocClientWith_of_opened hopening]
    cases hjoined : inbox .binary_ots with
    | nil =>
      rw [Process.run_receive_nil _ (by rw [Function.update_of_ne (by decide), hjoined])]
      exact .inr ⟨rfl, .inl rfl⟩
    | cons joined others =>
      rw [Process.run_receive_cons _ (by rw [Function.update_of_ne (by decide), hjoined])]
      dsimp only
      rw [hbinary]
      dsimp only
      rw [sendMasks_run]
      by_cases hdeltaJoined : inbox .delta_ots = []
      · rw [clientDelta_joins blake3 pk uid ots.ot_blocks hdelta, clientJoins, Process.run,
          Process.run_receive_nil _ (by
            rw [Function.update_of_ne (by decide), Function.update_of_ne (by decide), hdeltaJoined])]
        exact .inr ⟨rfl, .inr hdeltaJoined⟩
      · have hbrings : Brings (Function.update (Function.update inbox .control rest) .binary_ots others)
            (serverMessages inbox) := by
          refine ⟨rfl, ?_, rfl⟩
          rw [Function.update_of_ne (by decide), Function.update_self, serverMessages, hcontrol]
          rfl
        exact .inl (clientDelta_run hdelta hbrings hdeltaJoined)

end ClientRun

section ServerRun

variable {blake3 : Blake3} {build : Build} (coins : stark.Coins) (sk : SecretKey) {tau : ℕ}
  {binary delta : BinaryOts} {inbox : Queues (ToServer.Message S)}

/-- The server's part of the OTs is that of the binary ones and that of the others. -/
theorem serverOtsOf_split {ots : ServerOts} (h : serverOtsOf blake3 build binary delta tau = some ots) :
    serverBinaryOts build binary = some ots.r_s ∧
      deltaOtSend blake3 build delta.send tau = some ots.delta_ot_blocks := by
  unfold serverOtsOf at h
  obtain ⟨r_s, hr_s, h⟩ := Option.bind_eq_some_iff.mp h
  obtain ⟨delta_ot_blocks, hdelta, h⟩ := Option.bind_eq_some_iff.mp h
  obtain rfl := Option.some.inj h
  exact ⟨hr_s, hdelta⟩

/-- A server that has its outputs asked for the binary OTs that they take. -/
theorem serverDelta_joins (opened : Opened) (r_s : Fin N → RsEntry) (c : List (MasksCommitments S))
    {delta_ot_blocks : List (Fin DELTA → Block)}
    (h : deltaOtSend blake3 build delta.send tau = some delta_ot_blocks) :
    serverDelta blake3 build coins sk tau delta opened r_s c =
      serverJoins blake3 build coins sk tau delta opened r_s c := by
  unfold deltaOtSend at h
  obtain ⟨m, hm, -⟩ := Option.bind_eq_some_iff.mp h
  unfold serverDelta
  rw [hm]

/-- The messages with `c` are read as `readMasksCommitments` does, and the other streams stay as
they are. -/
theorem receiveMasks_run (evaluations : ℕ) (next : List (MasksCommitments S) → ServerProcess S stark)
    (inbox : Queues (ToServer.Message S)) : ∃ rest : List (MasksMessage S),
      (receiveMasks evaluations next).run inbox =
        match readMasksCommitments stark evaluations (inbox .masks) with
        | none => (none, .empty _)
        | some (.error error) => (some (.error (.Preproc error)), .empty _)
        | some (.ok c) => (next c).run (Function.update inbox .masks rest) := by
  induction evaluations generalizing next inbox with
  | zero =>
    refine ⟨inbox .masks, ?_⟩
    rw [Function.update_eq_self]
    rfl
  | succ evaluations ih =>
    rw [receiveMasks]
    cases hmasks : inbox .masks with
    | nil =>
      rw [Process.run_receive_nil _ hmasks]
      exact ⟨[], rfl⟩
    | cons message messages =>
      rw [Process.run_receive_cons _ hmasks, readMasksCommitments]
      dsimp only
      unfold readMasks
      by_cases hlen : message.length ≠ N
      · rw [if_pos hlen, if_pos hlen]
        exact ⟨[], rfl⟩
      rw [if_neg hlen, if_neg hlen]
      -- Both read the message the same way, so how it reads does not matter.
      generalize (fromFn fun i : Fin N => message[i.val]?) = read
      cases read with
      | none => exact ⟨[], rfl⟩
      | some c_v =>
        obtain ⟨rest, hrest⟩ := ih (fun c => next (c_v :: c)) (Function.update inbox .masks messages)
        refine ⟨rest, ?_⟩
        rw [Function.update_self, Function.update_idem] at hrest
        simp only [Option.bind_eq_bind, Option.bind_some, Option.map_some]
        rw [hrest]
        cases readMasksCommitments stark evaluations messages with
        | none => rfl
        | some c => cases c <;> rfl

/-- The messages with `d` are sent before what comes next. -/
theorem sendPads_run (next : ServerProcess S stark) (inbox : Queues (ToServer.Message S)) :
    ∀ d : List (PadsMessage S),
    ((sendPads next d).run inbox).1 = (next.run inbox).1 ∧
      ((sendPads next d).run inbox).2 .pads = d ++ (next.run inbox).2 .pads ∧
      ((sendPads next d).run inbox).2 .control = (next.run inbox).2 .control ∧
      ((sendPads next d).run inbox).2 .proof = (next.run inbox).2 .proof
  | [] => ⟨rfl, rfl, rfl, rfl⟩
  | d_v :: d => by
    obtain ⟨hresult, hpads, hcontrol, hproof⟩ := sendPads_run next inbox d
    refine ⟨hresult, ?_, hcontrol, hproof⟩
    have hcons : ((sendPads next (d_v :: d)).run inbox).2 .pads =
        d_v :: ((sendPads next d).run inbox).2 .pads := rfl
    rw [hcons, hpads]
    rfl

/-- How a server that has sent `b̄` ends: with the proof that it sends, in a VOPRF, and with its
state. -/
def serverEnd (blake3 : Blake3) (coins : stark.Coins) (sk : SecretKey) (opened : Opened)
    (ots : ServerOts) (c : List (MasksCommitments S)) :
    Option (Except (PreprocError stark) (Option (PreprocessingProof S stark) × ServerState)) :=
  if opened.voprf then do
    match ← proveServer blake3 coins sk ots (maskedKeyBits sk ots.r_s) c with
    | .error error => some (.error error)
    | .ok (proof, voprf) => do
      some (.ok (some proof, ← ServerState.new ots.r_s (serverPads ots) opened.uid (some voprf)))
  else do
    some (.ok (none, ← ServerState.new ots.r_s (serverPads ots) opened.uid none))

/-- There are the pads of every evaluation that a side asks for. -/
theorem padsCommitments_isSome {delta_ot_blocks : List (Fin DELTA → Block)} {evaluations : ℕ} (voprf : Bool)
    (h : tauFor evaluations ≤ delta_ot_blocks.length) : ∃ d : List (PadsMessage S),
      padsCommitments delta_ot_blocks (if voprf then evaluations else 0) = some d := by
  cases voprf with
  | true => exact ⟨_, padsCommitments_of_le h⟩
  | false => exact ⟨[], rfl⟩

/-- A run ends as a function says, with `d`, `b̄` and the proof sent where it ends well. -/
structure EndsAs (ran : Ended stark ServerState × Queues (ToClient.Message S stark)) (sk : SecretKey)
    (r_s : Fin N → RsEntry) (d : List (PadsMessage S))
    (how : Option (Except (PreprocError stark) (Option (PreprocessingProof S stark) × ServerState))) :
    Prop where
  result : ran.1 = endedWith (how.map (·.map Prod.snd))
  sent : ∀ proof state, how = some (.ok (proof, state)) → ran.2 .pads = d ∧
    ran.2 .control = [List.ofFn (maskedKeyBits sk r_s)] ∧ (ran.2 .proof).head? = proof

/-- From `b̄` on. -/
theorem serverBhat_run (opened : Opened) (ots : ServerOts) (c : List (MasksCommitments S)) :
    EndsAs ((serverBhat blake3 coins sk opened ots c).run inbox) sk ots.r_s []
      (serverEnd blake3 coins sk opened ots c) := by
  unfold serverBhat serverEnd
  rw [Process.run]
  by_cases hvoprf : opened.voprf = true
  · rw [if_pos hvoprf, if_pos hvoprf]
    cases proveServer (S := S) blake3 coins sk ots (maskedKeyBits sk ots.r_s) c with
    | none => exact ⟨rfl, fun _ _ h => (by cases h)⟩
    | some proved =>
      cases proved with
      | error error => exact ⟨rfl, fun _ _ h => (by cases h)⟩
      | ok proved =>
        obtain ⟨proof, voprf⟩ := proved
        rw [Option.bind_eq_bind, Option.bind_some]
        dsimp only
        cases ServerState.new ots.r_s (serverPads ots) opened.uid (some voprf) with
        | none => exact ⟨rfl, fun _ _ h => (by cases h)⟩
        | some state => exact ⟨rfl, fun _ _ h => (by cases h; exact ⟨rfl, rfl, rfl⟩)⟩
  · rw [if_neg hvoprf, if_neg hvoprf]
    cases ServerState.new ots.r_s (serverPads ots) opened.uid none with
    | none => exact ⟨rfl, fun _ _ h => (by cases h)⟩
    | some state => exact ⟨rfl, fun _ _ h => (by cases h; exact ⟨rfl, rfl, rfl⟩)⟩

/-- From the 1-out-of-Δ OTs on. -/
theorem serverDelta_run (opened : Opened) {ots : ServerOts}
    (hdelta : deltaOtSend blake3 build delta.send tau = some ots.delta_ot_blocks)
    {d : List (PadsMessage S)} (hd : padsCommitments ots.delta_ot_blocks
      (if opened.voprf then evaluationsFor tau else 0) = some d)
    (c : List (MasksCommitments S)) (hjoined : inbox .delta_ots ≠ []) :
    EndsAs ((serverDelta blake3 build coins sk tau delta opened ots.r_s c).run inbox) sk ots.r_s d
      (serverEnd blake3 coins sk opened ots c) := by
  obtain ⟨joined, others, hcons⟩ := List.exists_cons_of_ne_nil hjoined
  rw [serverDelta_joins coins sk opened ots.r_s c hdelta, serverJoins, Process.run_receive_cons _ hcons]
  dsimp only
  rw [hdelta, Process.run]
  dsimp only
  rw [hd]
  obtain ⟨hresult, hpads, hcontrol, hproof⟩ := sendPads_run (serverBhat blake3 coins sk opened ots c)
    (Function.update inbox .delta_ots others) d
  have hend : EndsAs ((serverBhat blake3 coins sk opened ots c).run
      (Function.update inbox .delta_ots others)) sk ots.r_s [] (serverEnd blake3 coins sk opened ots c) :=
    serverBhat_run coins sk opened ots c
  refine ⟨hresult.trans hend.result, fun proof state hhow => ?_⟩
  obtain ⟨hnone, hbhat, hlast⟩ := hend.sent proof state hhow
  refine ⟨?_, hcontrol.trans hbhat, ?_⟩
  · refine hpads.trans ?_
    rw [hnone]
    exact List.append_nil d
  · exact (congrArg List.head? hproof).trans hlast

/-- What the server has sent, when its echo comes before the rest. -/
theorem serverMessages_cons {outbox : Queues (ToClient.Message S stark)} {pads : List (PadsMessage S)}
    {echoed bhat : List UInt8} {proof : Option (PreprocessingProof S stark)} (hpads : outbox .pads = pads)
    (hbhat : outbox .control = [bhat]) (hproof : (outbox .proof).head? = proof) :
    serverMessages (Queues.cons .control echoed outbox) = ⟨some echoed, pads, some bhat, proof⟩ := by
  have hcontrol : Queues.cons (M := ToClient.Message S stark) .control echoed outbox .control =
      echoed :: outbox .control := rfl
  have hrest : serverMessages (Queues.cons .control echoed outbox) =
      ⟨some echoed, outbox .pads, (outbox .control).head?, (outbox .proof).head?⟩ := by
    unfold serverMessages
    rw [hcontrol]
    rfl
  rw [hrest, hpads, hbhat, hproof]
  rfl

/-- From the binary OTs on. -/
theorem serverBinary_run (opened : Opened) {ots : ServerOts}
    (hbinary : serverBinaryOts build binary = some ots.r_s)
    (hdelta : deltaOtSend blake3 build delta.send tau = some ots.delta_ot_blocks)
    {d : List (PadsMessage S)} (hd : padsCommitments ots.delta_ot_blocks
      (if opened.voprf then evaluationsFor tau else 0) = some d)
    (hjoined : inbox .binary_ots ≠ []) :
    match receiveMasksCommitments stark blake3 ots.r_s (if opened.voprf then evaluationsFor tau else 0)
        (inbox .masks) with
    | none => ((serverBinary blake3 build coins sk tau binary delta opened).run inbox).1 = none
    | some (.error error) =>
      ((serverBinary blake3 build coins sk tau binary delta opened).run inbox).1 =
        some (.error (.Preproc error))
    | some (.ok c) =>
      if inbox .delta_ots = [] then
        ((serverBinary blake3 build coins sk tau binary delta opened).run inbox).1 = some (.error .Ot)
      else
        EndsAs ((serverBinary blake3 build coins sk tau binary delta opened).run inbox) sk ots.r_s d
          (serverEnd blake3 coins sk opened ots c) := by
  obtain ⟨joined, others, hcons⟩ := List.exists_cons_of_ne_nil hjoined
  rw [serverBinary, Process.run_receive_cons _ hcons]
  dsimp only
  rw [hbinary, Process.run]
  dsimp only
  generalize (if opened.voprf then evaluationsFor tau else 0) = evaluations
  obtain ⟨rest, hrest⟩ := receiveMasks_run evaluations
    (serverMasks blake3 build coins sk tau delta opened ots.r_s)
    (Function.update inbox .binary_ots others)
  rw [hrest, receiveMasksCommitments]
  have hmasks : Function.update inbox .binary_ots others .masks = inbox .masks := rfl
  rw [hmasks]
  cases readMasksCommitments stark evaluations (inbox .masks) with
  | none => rfl
  | some read =>
    cases read with
    | error error => rfl
    | ok c =>
      rw [Option.bind_eq_bind, Option.bind_some]
      dsimp only
      unfold serverMasks
      -- The server compares `c` with its own masks before it goes on to the other OTs.
      cases masksMatch blake3 ots.r_s 0 c with
      | none => rfl
      | some matched =>
        cases matched with
        | false => rfl
        | true =>
          rw [Option.bind_eq_bind, Option.bind_some, if_pos rfl]
          dsimp only
          split_ifs with hnone
          · rw [serverDelta_joins coins sk opened ots.r_s c hdelta, serverJoins, Process.run_receive_nil _ (by
              rw [Function.update_of_ne (by decide), Function.update_of_ne (by decide), hnone])]
            rfl
          · have hend : EndsAs ((serverDelta blake3 build coins sk tau delta opened ots.r_s c).run
                (Function.update (Function.update inbox .binary_ots others) .masks rest)) sk ots.r_s d
                  (serverEnd blake3 coins sk opened ots c) :=
              serverDelta_run coins sk opened hdelta hd c hnone
            exact ⟨hend.result, hend.sent⟩

/-- A server whose opening fails ends so. -/
theorem preprocServer_of_refused {hello echoed : Option (List UInt8)} {masks : List (MasksMessage S)}
    {error : PreprocError stark} (h : serverOpening stark tau hello = some (echoed, .error error)) :
    preprocServer blake3 build coins sk tau binary delta hello masks = some (.error error) := by
  unfold preprocServer
  rw [h]
  rfl

/-- The rest of `preprocServer` after its opening, with what it sends in the order in which it sends
it. -/
theorem preprocServer_of_opened {opened : Opened} {ots : ServerOts} {hello echoed : Option (List UInt8)}
    (h : serverOpening stark tau hello = some (echoed, .ok opened))
    (hots : serverOtsOf blake3 build binary delta tau = some ots) {d : List (PadsMessage S)}
    (hd : padsCommitments ots.delta_ot_blocks (if opened.voprf then evaluationsFor tau else 0) = some d)
    (masks : List (MasksMessage S)) :
    preprocServer blake3 build coins sk tau binary delta hello masks =
    (receiveMasksCommitments stark blake3 ots.r_s (if opened.voprf then evaluationsFor tau else 0)
      masks).bind fun
        | .error error => some (.error error)
        | .ok c => (serverEnd blake3 coins sk opened ots c).map (·.map fun ended =>
          (⟨echoed, d, some (List.ofFn (maskedKeyBits sk ots.r_s)), ended.1⟩, ended.2)) := by
  unfold preprocServer
  rw [h, hots]
  simp only [Option.bind_eq_bind, Option.bind_some]
  by_cases hvoprf : opened.voprf = true
  · rw [if_pos hvoprf] at hd
    rw [if_pos hvoprf, if_pos hvoprf, preprocServerVoprf, preprocServerMessages]
    cases receiveMasksCommitments stark blake3 ots.r_s (evaluationsFor tau) masks with
    | none => rfl
    | some received =>
      cases received with
      | error error => rfl
      | ok c =>
        simp only [Option.bind_eq_bind, Option.bind_some, hd]
        unfold serverEnd
        rw [if_pos hvoprf]
        cases proveServer (S := S) blake3 coins sk ots (maskedKeyBits sk ots.r_s) c with
        | none => rfl
        | some proved =>
          cases proved with
          | error error => rfl
          | ok proved =>
            obtain ⟨proof, voprf⟩ := proved
            simp only [Option.bind_eq_bind, Option.bind_some]
            cases ServerState.new ots.r_s (serverPads ots) opened.uid (some voprf) <;> rfl
  · rw [if_neg hvoprf] at hd
    rw [if_neg hvoprf, if_neg hvoprf]
    obtain rfl := Option.some.inj hd
    -- A plain client sends no commitments, and none are read.
    have hnone : receiveMasksCommitments stark blake3 ots.r_s 0 masks = some (.ok []) := rfl
    rw [hnone, Option.bind_some]
    dsimp only
    unfold serverEnd
    rw [if_neg hvoprf]
    cases ServerState.new ots.r_s (serverPads ots) opened.uid none <;> rfl

/-- A run ends as a function of the messages says, and has sent what the function says that is
sent. -/
structure RunsAs (ran : Ended stark ServerState × Queues (ToClient.Message S stark))
    (how : Option (Except (PreprocError stark) (ServerMessages S stark × ServerState))) : Prop where
  result : ran.1 = endedWith (how.map (·.map Prod.snd))
  sent : ∀ sent state, how = some (.ok (sent, state)) → serverMessages ran.2 = sent

/-- A run after the echo that ends as `serverEnd` says is one of the whole server. -/
theorem EndsAs.runsAs {opened : Opened} {ots : ServerOts} {c : List (MasksCommitments S)}
    {d : List (PadsMessage S)} {ran : Ended stark ServerState × Queues (ToClient.Message S stark)}
    (h : EndsAs ran sk ots.r_s d (serverEnd blake3 coins sk opened ots c)) (echoed : List UInt8) :
    RunsAs (ran.1, Queues.cons .control echoed ran.2)
      ((serverEnd blake3 coins sk opened ots c).map (·.map fun ended =>
        (⟨some echoed, d, some (List.ofFn (maskedKeyBits sk ots.r_s)), ended.1⟩, ended.2))) := by
  cases hended : serverEnd blake3 coins sk opened ots c with
  | none =>
    rw [hended] at h
    exact ⟨h.result, fun _ _ hsent => (by cases hsent)⟩
  | some ended =>
    rw [hended] at h
    cases ended with
    | error error => exact ⟨h.result, fun _ _ hsent => (by cases hsent)⟩
    | ok ended =>
      refine ⟨h.result, fun sent state hsent => ?_⟩
      cases hsent
      obtain ⟨hpads, hbhat, hproof⟩ := h.sent ended.1 ended.2 rfl
      exact serverMessages_cons hpads hbhat hproof

/-- From the echo on, with the hello read. -/
theorem serverOpened_run (hfits : build.Fits tau) (htau : 0 < tau) {opened : Opened}
    {hello : Option (List UInt8)} {echoed : List UInt8}
    (hopening : serverOpening stark tau hello = some (some echoed, .ok opened))
    (inbox : Queues (ToServer.Message S)) :
    RunsAs (((serverBinary blake3 build coins sk tau binary delta opened).run inbox).1,
        Queues.cons .control echoed
          ((serverBinary blake3 build coins sk tau binary delta opened).run inbox).2)
      (preprocServer blake3 build coins sk tau binary delta hello (inbox .masks)) ∨
    ((serverBinary (S := S) blake3 build coins sk tau binary delta opened).run inbox).1 =
        some (.error .Ot) ∧ (inbox .binary_ots = [] ∨ inbox .delta_ots = []) := by
  obtain ⟨ots, hots, hlen⟩ := serverOtsOf_isSome blake3 htau hfits binary delta
  obtain ⟨hbinary, hdelta⟩ := serverOtsOf_split hots
  by_cases hjoined : inbox .binary_ots = []
  · rw [serverBinary, Process.run_receive_nil _ hjoined]
    exact .inr ⟨rfl, .inl hjoined⟩
  obtain ⟨d, hd⟩ := padsCommitments_isSome (S := S) opened.voprf
    ((tauFor_evaluationsFor_le tau).trans_eq hlen.symm)
  have hrun := serverBinary_run coins sk opened hbinary hdelta hd hjoined
  rw [preprocServer_of_opened coins sk hopening hots hd]
  -- What the client's `c` leads to decides how the run goes on.
  cases hreceived : receiveMasksCommitments stark blake3 ots.r_s
    (if opened.voprf then evaluationsFor tau else 0) (inbox .masks) with
  | none =>
    rw [hreceived] at hrun
    exact .inl ⟨hrun, fun _ _ h => (by cases h)⟩
  | some received =>
    rw [hreceived] at hrun
    cases received with
    | error error => exact .inl ⟨hrun, fun _ _ h => (by cases h)⟩
    | ok c =>
      dsimp only at hrun
      by_cases hnone : inbox .delta_ots = []
      · rw [if_pos hnone] at hrun
        exact .inr ⟨hrun, .inr hnone⟩
      · rw [if_neg hnone] at hrun
        exact .inl (hrun.runsAs coins sk echoed)

/-- The server does with the messages that come what `preprocServer` does, and has sent what it says
that it sends, but where the client does not join an OT. -/
theorem serverProcess_run (blake3 : Blake3) (binary delta : BinaryOts) (hfits : build.Fits tau)
    (inbox : Queues (ToServer.Message S)) :
    RunsAs ((serverProcess blake3 build coins sk tau binary delta).run inbox)
      (preprocServer blake3 build coins sk tau binary delta (inbox .control).head? (inbox .masks)) ∨
    ((serverProcess (S := S) blake3 build coins sk tau binary delta).run inbox).1 =
        some (.error .Ot) ∧ (inbox .binary_ots = [] ∨ inbox .delta_ots = []) := by
  -- An opening that fails ends the process with the same error.
  have hrefused : ∀ {ran : Ended stark ServerState × Queues (ToClient.Message S stark)}
      {echoed : Option (List UInt8)} {error : PreprocError stark},
      serverOpening stark tau (inbox .control).head? = some (echoed, .error error) →
      ran.1 = some (.error (.Preproc error)) →
      RunsAs ran (preprocServer (S := S) blake3 build coins sk tau binary delta (inbox .control).head?
        (inbox .masks)) := by
    intro ran echoed error hopening hran
    rw [preprocServer_of_refused coins sk hopening]
    exact ⟨hran, fun _ _ h => (by cases h)⟩
  unfold serverProcess
  by_cases htau : tau = 0
  · rw [if_pos htau]
    exact .inl (hrefused (if_pos htau) rfl)
  rw [if_neg htau]
  cases hcontrol : inbox .control with
  | nil =>
    have hopening : serverOpening stark tau (inbox .control).head? =
        some (none, .error .UnexpectedClose) := by
      rw [hcontrol]
      exact if_neg htau
    rw [Process.run_receive_nil _ hcontrol, ← hcontrol]
    exact .inl (hrefused hopening rfl)
  | cons hello rest =>
    rw [Process.run_receive_cons _ hcontrol]
    dsimp only
    obtain ⟨read, hread, -⟩ := readHello_spec stark hello
    cases read with
    | error error =>
      have hopening : serverOpening stark tau (inbox .control).head? = some (none, .error error) := by
        rw [hcontrol, List.head?_cons]
        refine (if_neg htau).trans ?_
        dsimp only
        rw [hread]
        rfl
      rw [hread, ← hcontrol]
      exact .inl (hrefused hopening rfl)
    | ok hello' =>
      have hopening : serverOpening stark tau (inbox .control).head? =
          some (some (encodeTau tau), serverCheck stark tau hello') := by
        rw [hcontrol, List.head?_cons]
        refine (if_neg htau).trans ?_
        dsimp only
        rw [hread]
        rfl
      rw [hread, ← hcontrol]
      dsimp only
      rw [Process.run]
      -- The echo is sent before the two sides' values are compared.
      cases hcheck : serverCheck stark tau hello' with
      | error error =>
        rw [hcheck] at hopening
        exact .inl (hrefused hopening rfl)
      | ok opened =>
        rw [hcheck] at hopening
        exact serverOpened_run coins sk hfits (Nat.pos_of_ne_zero htau) hopening
          (Function.update inbox .control rest)

end ServerRun

end PoolOprf
