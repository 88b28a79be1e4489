import PoolOprf.Psi.Exact

/-!
# What the PSI server refuses up front

Of what an honest client refuses, the size of the masked set is checked by `serve_masked` before
anything is sent. The length of the tag is not: `sendRequest` is the first to look at it. A run
whose tag is within its limit keeps `PsiInvariant` and so gets to its end. With a longer tag the two
sides preprocess, the masked set is sent, and the client's first request is an error
(`not_refusesUpFront`). An announced size that is out of range ends the run before there is a
session (`NoSession`). The three meet in `refuses_up_front_iff`.
-/

namespace PoolOprf

open Panic

variable {S : Permutations} {stark : Stark Val}

/-- An honest client of a server with a key that it publishes. The size that is announced may be
any, and so may the tag and what is served. -/
structure PsiConfig.Session (cfg : PsiConfig S) (stark : Stark Val) : Prop where
  /-- The client announces its set's size. -/
  set_size : cfg.set_size = cfg.set.length
  pk : ∀ key, cfg.pk = some key → key.pk = keyCommit cfg.sk
  complete : cfg.pk.isSome → stark.Complete
  coins : Nonempty stark.Coins

/-- Neither side has failed, and the run goes on until both are done. -/
def Completes (cfg : PsiConfig S) (call : ServeCall) (run : PsiRun S stark) : Prop :=
  run.client.broken = false ∧ run.server.broken = false ∧
    ((∃ run', ServeStep cfg call run run') ∨ ∃ oprf oprf' indices,
      run.client = .finished oprf indices ∧ run.server = .finished oprf')

/-- Whenever the server of a run is called, it returns an error and has sent nothing, or it sends
the tag and the masked set, and from there on the run completes. -/
def RefusesUpFront (cfg : PsiConfig S) (stark : Stark Val) (call : ServeCall) : Prop :=
  (NoEndlessRun fun run run' : PsiRun S stark => ServeStep cfg call run run') ∧
  ∀ (run : PsiRun S stark) (oprf : ServerState) (set_size : ℕ),
    Reachable (fun run run' => ServeStep cfg call run run') (.new S stark) run →
    run.server = .preprocessed oprf set_size →
      (∃ error, call.send cfg oprf set_size run = { run with server := .failed error }) ∨
      (∃ set, set.tag = cfg.tag ∧ call.masked cfg = some set.elements ∧
          (call.send cfg oprf set_size run).sets = run.sets ++ [set]) ∧
        ∀ run', Reachable (fun run run' => ServeStep cfg call run run')
          (call.send cfg oprf set_size run) run' → Completes cfg call run'

section

variable {cfg : PsiConfig S} {call : ServeCall} {masked : List MaskedElement}

/-- With a size that may be announced, the two are parties to a session. -/
theorem PsiConfig.Session.parties (hcfg : cfg.Session stark) (hpos : cfg.set_size ≠ 0)
    (hle : cfg.set_size ≤ MAX_CLIENT_SET) : cfg.Parties stark := by
  rw [hcfg.set_size] at hpos hle
  exact ⟨hcfg.set_size, Nat.one_le_iff_ne_zero.mpr hpos, hle, hcfg.pk, hcfg.complete, hcfg.coins⟩

/-! ## No session -/

/-- The client has announced nothing, and no side is past that. -/
structure NoSession (run : PsiRun S stark) : Prop where
  client : run.client = .connected ∨ ∃ error, run.client = .failed error
  server : run.server = .connected ∨ ∃ error, run.server = .failed error
  sizes : run.sizes = []

/-- A client does not announce a size that is out of range. -/
theorem NoSession.step (hsize : cfg.set_size = 0 ∨ MAX_CLIENT_SET < cfg.set_size)
    {run run' : PsiRun S stark} (h : NoSession run) (hstep : ServeStep cfg call run run') :
    NoSession run' := by
  cases hstep with
  | client _ hmove =>
    unfold clientMove at hmove
    rcases h.client with hclient | ⟨error, hclient⟩
    · rw [hclient] at hmove
      obtain rfl := Option.some.inj hmove
      unfold announceSetSize
      by_cases hzero : cfg.set_size = 0
      · rw [if_pos hzero]
        exact ⟨.inr ⟨_, rfl⟩, h.server, h.sizes⟩
      · rw [if_neg hzero, if_pos (hsize.resolve_left hzero)]
        exact ⟨.inr ⟨_, rfl⟩, h.server, h.sizes⟩
    · rw [hclient] at hmove
      cases hmove
  | server _ coins hmove =>
    unfold ServeCall.move serverMove at hmove
    rcases h.server with hserver | ⟨error, hserver⟩
    · rw [hserver, h.sizes] at hmove
      dsimp only at hmove
      split_ifs at hmove
      obtain rfl := Option.some.inj hmove
      exact ⟨h.client, .inr ⟨_, rfl⟩, rfl⟩
    · rw [hserver] at hmove
      cases hmove
  | preprocess set_size oprf oprf' hclient =>
    rcases h.client with hclient' | ⟨error, hclient'⟩
    · rw [hclient'] at hclient
      cases hclient
    · rw [hclient'] at hclient
      cases hclient

/-- So the server is never called. -/
theorem noSession_of_reachable (hsize : cfg.set_size = 0 ∨ MAX_CLIENT_SET < cfg.set_size)
    {run : PsiRun S stark}
    (h : Reachable (fun run run' => ServeStep cfg call run run') (.new S stark) run)
    (oprf : ServerState) (set_size : ℕ) : run.server ≠ .preprocessed oprf set_size := by
  have hnone : NoSession run := by
    apply h.invariant
    · exact ⟨.inl rfl, .inl rfl, rfl⟩
    · intro s s' _ hs hstep
      exact hs.step hsize hstep
  intro hserver
  rcases hnone.server with hserver' | ⟨error, hserver'⟩
  · rw [hserver'] at hserver
    cases hserver
  · rw [hserver'] at hserver
    cases hserver

/-! ## What may be sent -/

/-- A masked set that is too large is refused, and nothing is sent. -/
theorem ServeCall.send_tooLarge (hmasked : call.masked cfg = some masked)
    (hlarge : MAX_SERVER_SET < masked.length) (oprf : ServerState) (set_size : ℕ) (run : PsiRun S stark) :
    call.send cfg oprf set_size run =
      { run with server := .failed (.ServerSetTooLarge masked.length MAX_SERVER_SET) } := by
  rw [ServeCall.send_eq hmasked]
  unfold serveMasked
  exact if_pos hlarge

/-- Any other is sent. -/
theorem ServeCall.send_sets (hmasked : call.masked cfg = some masked)
    (hle : masked.length ≤ MAX_SERVER_SET) (oprf : ServerState) (set_size : ℕ) (run : PsiRun S stark) :
    (call.send cfg oprf set_size run).sets = run.sets ++ [⟨cfg.tag, masked⟩] := by
  rw [ServeCall.send_eq hmasked]
  unfold serveMasked
  rw [if_neg hle.not_gt]

/-- A call is a step of the run. -/
theorem ServeStep.send (hcfg : cfg.Session stark) {run : PsiRun S stark} {oprf : ServerState}
    {set_size : ℕ} (hserver : run.server = .preprocessed oprf set_size) :
    ServeStep cfg call run (call.send cfg oprf set_size run) := by
  obtain ⟨coins⟩ := hcfg.coins
  apply ServeStep.server run _ (fun _ => coins)
  unfold ServeCall.move
  rw [hserver]

/-- With a tag that the client takes, a masked set within the limit is served to the end. -/
theorem PsiConfig.Parties.completes (hcfg : cfg.Parties stark) (htag : cfg.tag.length ≤ MAX_TAG_LEN)
    (hmasked : call.masked cfg = some masked) (hle : masked.length ≤ MAX_SERVER_SET)
    {run : PsiRun S stark}
    (h : Reachable (fun run run' => ServeStep cfg call run run') (.new S stark) run) :
    Completes cfg call run := by
  obtain ⟨total, htotal, -⟩ := divCeil_spec cfg.set_size (maxBatch_pos cfg.pk.isSome)
  have hinv : PsiInvariant cfg masked total run := by
    apply h.invariant
    · exact .connected
    · intro s s' _ hs hstep
      exact hs.step hcfg htag hmasked hle htotal hstep
  obtain ⟨hclient, hserver⟩ := hinv.not_broken
  refine ⟨hclient, hserver, ?_⟩
  rcases hinv.progress call hcfg with hstep | ⟨oprf, oprf', -, rfl⟩
  · exact .inl hstep
  · exact .inr ⟨oprf, oprf', _, rfl, rfl⟩

/-! ## A tag that is too long -/

/-- Two parties get through the preprocessing. -/
theorem PsiConfig.Parties.reachable_preprocessed (hcfg : cfg.Parties stark) (call : ServeCall) :
    ∃ oprf oprf', PsiAligned cfg oprf oprf' cfg.set.length ∧
      Reachable (fun run run' => ServeStep cfg call run run') (.new S stark)
        (⟨.preprocessed oprf, .preprocessed oprf' cfg.set_size, [], [], [], [], 0⟩ : PsiRun S stark) := by
  obtain ⟨coins⟩ := hcfg.coins
  have hpos := hcfg.set_pos
  have hzero : ¬ cfg.set_size = 0 := by rw [hcfg.set_size]; omega
  have hlarge : ¬ cfg.set_size > MAX_CLIENT_SET := by rw [hcfg.set_size]; exact hcfg.set_le.not_gt
  obtain ⟨sent, oprf, oprf', hserver, hclient⟩ := hcfg.preprocesses (fun _ => 0)
    (fun _ _ => (fun _ _ => 0, true)) (fun _ _ => (fun _ _ => 0, true)) coins
  have hpreproc : cfg.Preprocesses stark cfg.set_size oprf oprf' :=
    ⟨_, _, _, _, sent, hserver, hclient⟩
  have hannounce : clientMove cfg (.new S stark) =
      some ⟨.announced, .connected, [cfg.set_size], [], [], [], 0⟩ := by
    apply congrArg some
    unfold announceSetSize
    rw [if_neg hzero, if_neg hlarge]
    rfl
  have haccept : call.move cfg (fun _ => coins)
      (⟨.announced, .connected, [cfg.set_size], [], [], [], 0⟩ : PsiRun S stark) =
        some ⟨.announced, .accepted cfg.set_size, [], [], [], [], 0⟩ := by
    apply congrArg some
    unfold receiveSetSize
    rw [if_neg hzero, if_neg hlarge]
  refine ⟨oprf, oprf', hcfg.aligned hpreproc, ?_⟩
  exact (((Reachable.refl _ _).tail (.client _ _ hannounce)).tail (.server _ _ _ haccept)).tail
    (.preprocess _ _ oprf oprf' rfl rfl hpreproc)

/-- A client that has a set with a tag that is too long cuts its set into batches and fails at the
first. -/
theorem PsiAligned.reachable_failed {oprf : ClientState S} {oprf' : ServerState}
    (h : PsiAligned cfg oprf oprf' cfg.set.length) (hcfg : cfg.Parties stark)
    (hle : masked.length ≤ MAX_SERVER_SET) (htag : MAX_TAG_LEN < cfg.tag.length)
    (call : ServeCall) (server : PsiServerPhase stark) :
    ∃ run : PsiRun S stark, run.client = .failed (.Oprf (.Request (.TagTooLong cfg.tag.length))) ∧
      Reachable (fun run run' => ServeStep cfg call run run')
        ⟨.preprocessed oprf, server, [], [⟨cfg.tag, masked⟩], [], [], 0⟩ run := by
  obtain ⟨batches, hchunks, -, hflatten, -⟩ := chunks_spec (maxBatch_pos cfg.pk.isSome) cfg.set
  have hreceive : clientMove cfg
      (⟨.preprocessed oprf, server, [], [⟨cfg.tag, masked⟩], [], [], 0⟩ : PsiRun S stark) =
        some ⟨.requesting oprf ⟨cfg.tag, masked⟩ batches [], server, [], [], [], [], 0⟩ := by
    unfold clientMove receiveSet
    dsimp only
    rw [if_neg (not_not.mpr hcfg.set_size.symm), if_neg hle.not_gt, h.client_limit, hchunks]
  -- The set has an element, so there is a first batch.
  cases batches with
  | nil =>
    have hpos := hcfg.set_pos
    rw [← hflatten] at hpos
    cases hpos
  | cons batch batches =>
    have hrefuse : clientMove cfg
        (⟨.requesting oprf ⟨cfg.tag, masked⟩ (batch :: batches) [], server, [], [], [], [], 0⟩ :
          PsiRun S stark) =
        some ⟨.failed (.Oprf (.Request (.TagTooLong cfg.tag.length))), server, [], [], [], [], 0⟩ := by
      apply congrArg some
      unfold sendRequest requestBatch
      dsimp only
      rw [if_pos htag]
    have hreach := ((Reachable.refl (fun run run' => ServeStep cfg call run run') _).tail
      (.client _ _ hreceive)).tail (.client _ _ hrefuse)
    exact ⟨_, rfl, hreach⟩

/-- A tag that is too long is not refused up front. -/
theorem not_refusesUpFront (hcfg : cfg.Parties stark) (hmasked : call.masked cfg = some masked)
    (hle : masked.length ≤ MAX_SERVER_SET) (htag : MAX_TAG_LEN < cfg.tag.length) :
    ¬ RefusesUpFront cfg stark call := by
  intro hrefuses
  obtain ⟨oprf, oprf', haligned, hreach⟩ := hcfg.reachable_preprocessed call
  obtain ⟨total, htotal, -⟩ := divCeil_spec cfg.set_size (maxBatch_pos cfg.pk.isSome)
  have hsend : call.send cfg oprf' cfg.set_size
      (⟨.preprocessed oprf, .preprocessed oprf' cfg.set_size, [], [], [], [], 0⟩ : PsiRun S stark) =
        ⟨.preprocessed oprf, .serving oprf' total, [], [⟨cfg.tag, masked⟩], [], [], 0⟩ := by
    rw [ServeCall.send_eq hmasked]
    unfold serveMasked
    rw [if_neg hle.not_gt, haligned.server_limit]
    unfold requestsFor
    rw [htotal]
    rfl
  rcases hrefuses.2 _ oprf' cfg.set_size hreach rfl with ⟨error, herror⟩ | ⟨-, hcompletes⟩
  · rw [hsend] at herror
    cases herror
  · rw [hsend] at hcompletes
    obtain ⟨run, hfailed, hreach'⟩ :=
      haligned.reachable_failed hcfg hle htag call (.serving oprf' total)
    obtain ⟨hbroken, -⟩ := hcompletes run hreach'
    rw [hfailed] at hbroken
    cases hbroken

end

/-- The PSI server refuses up front what an honest client would refuse, whatever the size that is
announced, the tag and the set, if and only if there is no session, or the masked set is too large,
or the tag is within the client's limit. -/
theorem refuses_up_front_iff (cfg : PsiConfig S) (stark : Stark Val) (hcfg : cfg.Session stark)
    (call : ServeCall) :
    ∃ masked, call.masked cfg = some masked ∧
      (RefusesUpFront cfg stark call ↔
        cfg.set_size = 0 ∨ MAX_CLIENT_SET < cfg.set_size ∨ MAX_SERVER_SET < masked.length ∨
          cfg.tag.length ≤ MAX_TAG_LEN) := by
  obtain ⟨masked, hmasked⟩ := call.masked_isSome cfg
  refine ⟨masked, hmasked, ?_, ?_⟩
  · intro hrefuses
    by_contra hnot
    push Not at hnot
    obtain ⟨hzero, hlarge, hle, htag⟩ := hnot
    exact not_refusesUpFront (hcfg.parties hzero hlarge) hmasked hle htag hrefuses
  · intro hcond
    refine ⟨serve_noEndlessRun cfg stark call, fun run oprf set_size hreach hserver => ?_⟩
    -- A server that is called has a client with a size in range.
    have hsize : ¬ (cfg.set_size = 0 ∨ MAX_CLIENT_SET < cfg.set_size) := fun hsize =>
      noSession_of_reachable hsize hreach oprf set_size hserver
    rw [not_or, Nat.not_lt] at hsize
    obtain ⟨hzero, hlarge⟩ := hsize
    by_cases hle : masked.length ≤ MAX_SERVER_SET
    · have htag : cfg.tag.length ≤ MAX_TAG_LEN := by
        rcases hcond with hzero' | hlarge' | hle' | htag
        · exact absurd hzero' hzero
        · exact absurd hlarge' hlarge.not_gt
        · exact absurd hle' hle.not_gt
        · exact htag
      refine .inr ⟨⟨_, rfl, hmasked, ServeCall.send_sets hmasked hle oprf set_size run⟩, ?_⟩
      intro run' hrun'
      have hsend : Reachable (fun run run' => ServeStep cfg call run run') (.new S stark)
          (call.send cfg oprf set_size run) := hreach.tail (ServeStep.send hcfg hserver)
      exact (hcfg.parties hzero hlarge).completes htag hmasked hle (hsend.trans hrun')
    · exact .inl ⟨_, ServeCall.send_tooLarge hmasked (Nat.lt_of_not_le hle) oprf set_size run⟩

/-- A plain run with a tag of a byte more than the client takes. -/
def longTagConfig : PsiConfig Permutations.identity :=
  { oneElementConfig with
    pk := none
    tag := List.replicate (MAX_TAG_LEN + 1) 0 }

/-- It is a session of an honest client. -/
theorem longTagConfig_session : longTagConfig.Session (Stark.transparent Val) where
  set_size := rfl
  pk := fun key hkey => by cases hkey
  complete := fun hvoprf => by cases hvoprf
  coins := ⟨()⟩

theorem longTag_not_refused :
    longTagConfig.Session (Stark.transparent Val) ∧
      ¬ RefusesUpFront longTagConfig (Stark.transparent Val) (.serve_masked []) := by
  refine ⟨longTagConfig_session, ?_⟩
  have hparties : longTagConfig.Parties (Stark.transparent Val) :=
    longTagConfig_session.parties Nat.one_ne_zero (show 1 ≤ MAX_CLIENT_SET by decide)
  have htag : MAX_TAG_LEN < longTagConfig.tag.length := by
    unfold longTagConfig
    rw [List.length_replicate]
    exact Nat.lt_succ_self _
  exact not_refusesUpFront hparties rfl (Nat.zero_le _) htag

/-- With a short tag it is refused up front, or the run completes. -/
theorem refuses_up_front_one :
    RefusesUpFront oneElementConfig (Stark.transparent Val) .serve := by
  have hcfg : oneElementConfig.Session (Stark.transparent Val) :=
    { set_size := rfl
      pk := fun key hkey => by cases hkey; rfl
      complete := fun _ => Stark.transparent_complete Val
      coins := ⟨()⟩ }
  obtain ⟨masked, -, hiff⟩ :=
    refuses_up_front_iff oneElementConfig (Stark.transparent Val) hcfg .serve
  exact hiff.mpr (.inr (.inr (.inr (Nat.zero_le _))))

end PoolOprf
