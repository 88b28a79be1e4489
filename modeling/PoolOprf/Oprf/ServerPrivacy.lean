import PoolOprf.Oprf.ResponsePrivacy
import PoolOprf.Oprf.Correctness

/-!
# What a session with a server shows

A client that sends whatever it likes, each request chosen from all replies so far, against a server
that keeps answering (`blindEvalSession`). The client knows one pad of each run, so a row that is
answered shows it one rounding. `simulatedSession` is a server with no key, no masks, and no hash
function that is told that one rounding for each row that it answers, and nothing else:
`session_shows_roundings` says that the session with the real server is the session with this one,
up to a bijection of the pads that the client does not know.

A run is in one row only, so the replies tell which row asked for which run (`askedIn`), and with it
by what the run's pads are moved.
-/

namespace PoolOprf

open Panic
open scoped UInt8.CommRing

variable {S : Permutations} {stark : Stark Val}

/-! ## A session -/

/-- What a client gets for a request. -/
abbrev Reply (stark : Stark Val) := Except (BlindEvalError stark) (ResponseMessage stark)

/-- BlindEvals on one state for a client that chooses each request from the replies so far. -/
def blindEvalSession (S : Permutations) (blake3 : Blake3) (stark : Stark Val)
    (coins : ℕ → stark.Coins) (sk : SecretKey) (client : List (Reply stark) → RequestMessage) :
    ℕ → ServerState → List (Reply stark) → Option (List (Reply stark))
  | 0, _, _ => some []
  | calls + 1, state, seen => do
    let (state, _, reply) ← blindEval S blake3 stark coins state sk (client seen)
    let replies ← blindEvalSession S blake3 stark coins sk client calls state (seen ++ [reply])
    some (reply :: replies)

/-! ## A session, given its rows -/

/-- Why a server with no proofs refuses a request. It depends on the session, the request, and the
number of runs left. -/
def refusal (stark : Stark Val) (uid : Uid) (remaining : ℕ) (req : RequestMessage) :
    Option (BlindEvalError stark) :=
  if req.uid ≠ uid then
    some (.UnknownSession req.uid)
  else if req.tag.length > MAX_TAG_LEN then
    some (.Malformed "tag is longer than MAX_TAG_LEN")
  else if req.rows.isEmpty ∨ ¬ H_ROWS ∣ req.rows.length then
    some (.Malformed "row count is not a whole number of evaluations")
  else if req.evaluations > MAX_BATCH_EVALUATIONS then
    some (.Malformed "batch is larger than MAX_BATCH_EVALUATIONS")
  else
    match req.rows.findSome? RowRequest.malformed with
    | some what => some (.Malformed what)
    | none => if remaining < req.rows.length then
        some (.Exhausted req.rows.length remaining)
      else none

/-- A server with no proofs refuses for `refusal`. -/
theorem blindEval_refusal (S : Permutations) (blake3 : Blake3) (coins : ℕ → stark.Coins)
    {state : ServerState} (hplain : state.voprf = none) (sk : SecretKey) {req : RequestMessage}
    {error : BlindEvalError stark}
    (h : refusal stark state.uid state.runs.remaining req = some error) :
    blindEval S blake3 stark coins state sk req = some (state, [], .error error) := by
  have hvoprf : ¬ (state.voprf.isSome ∧ req.evaluations > MAX_VOPRF_BATCH_EVALUATIONS) := by
    rw [hplain]
    rintro ⟨hsome, -⟩
    cases hsome
  unfold refusal at h
  unfold blindEval
  rw [if_neg hvoprf]
  cases hmalformed : req.rows.findSome? RowRequest.malformed with
  | some what =>
    rw [hmalformed] at h
    simp only [] at h ⊢
    split_ifs at h ⊢
    all_goals rw [Option.some.inj h]
  | none =>
    rw [hmalformed] at h
    simp only [] at h ⊢
    split_ifs at h ⊢
    all_goals rw [Option.some.inj h]

/-- A request that is not refused is of the session, well formed, and of runs that are left. -/
theorem refusal_eq_none {uid : Uid} {remaining : ℕ} {req : RequestMessage}
    (h : refusal stark uid remaining req = none) :
    req.uid = uid ∧ req.WellFormed false ∧ req.rows.length ≤ remaining := by
  unfold refusal at h
  cases hmalformed : req.rows.findSome? RowRequest.malformed with
  | some what =>
    rw [hmalformed] at h
    simp only [] at h
    split_ifs at h
  | none =>
    rw [hmalformed] at h
    simp only [] at h
    split_ifs at h with huid htag hwhole hbatch hruns
    push Not at hwhole
    refine ⟨not_not.mp huid, ⟨by omega, ?_, hwhole.2, by omega, (fun h => nomatch h), ?_⟩, by omega⟩
    · exact fun hempty => hwhole.1 (List.isEmpty_iff.mpr hempty)
    · exact fun row hrow =>
        RowRequest.malformed_eq_none.mp (List.findSome?_eq_none_iff.mp hmalformed row hrow)

/-- The rows of consecutive runs. -/
def rowsFrom (row : ℕ → RowRequest → RowResponse) : ℕ → List RowRequest → List RowResponse
  | _, [] => []
  | ctr, req :: reqs => row ctr req :: rowsFrom row (ctr + 1) reqs

/-- A session whose rows are given: of each run `ctr ..` and the request's row on it. -/
def sessionWith (stark : Stark Val) (uid : Uid) (tau : ℕ) (client : List (Reply stark) → RequestMessage)
    (row : ℕ → RowRequest → RowResponse) : ℕ → ℕ → List (Reply stark) → List (Reply stark)
  | 0, _, _ => []
  | calls + 1, ctr, seen =>
    let req := client seen
    match refusal stark uid (tau - ctr) req with
    | some error =>
      .error error :: sessionWith stark uid tau client row calls ctr (seen ++ [.error error])
    | none =>
      let resp : ResponseMessage stark := ⟨uid, rowsFrom row ctr req.rows, []⟩
      .ok resp ::
        sessionWith stark uid tau client row calls (ctr + req.rows.length) (seen ++ [.ok resp])

/-- The request's row on a run, read off the replies from `ctr` on. -/
def askedIn (stark : Stark Val) (uid : Uid) (tau : ℕ) (client : List (Reply stark) → RequestMessage)
    (run : ℕ) : ℕ → List (Reply stark) → List (Reply stark) → Option RowRequest
  | _, _, [] => none
  | ctr, seen, reply :: replies =>
    let req := client seen
    match refusal stark uid (tau - ctr) req with
    | some _ => askedIn stark uid tau client run ctr (seen ++ [reply]) replies
    | none =>
      if run < ctr + req.rows.length then
        if ctr ≤ run then req.rows[run - ctr]? else none
      else askedIn stark uid tau client run (ctr + req.rows.length) (seen ++ [reply]) replies

/-- The rows of a server's runs. -/
theorem rowsFrom_answers (state : ServerState) (blake3 : Blake3) (sk : SecretKey) :
    ∀ (reqs : List RowRequest) (ctr : ℕ),
      rowsFrom (fun run req => state.rowResponse blake3 sk req run) ctr reqs =
        state.answers blake3 sk ctr reqs
  | [], _ => rfl
  | req :: reqs, ctr => by
    rw [rowsFrom, ServerState.answers, rowsFrom_answers state blake3 sk reqs]

/-- A session with a server that has no proofs is given by its rows. -/
theorem blindEvalSession_eq (S : Permutations) (blake3 : Blake3) (coins : ℕ → stark.Coins)
    (sk : SecretKey) (client : List (Reply stark) → RequestMessage) :
    ∀ (calls : ℕ) (state : ServerState) (seen : List (Reply stark)), state.voprf = none →
      blindEvalSession S blake3 stark coins sk client calls state seen =
        some (sessionWith stark state.uid state.runs.tau client
          (fun run req => state.rowResponse blake3 sk req run) calls state.runs.ctr seen)
  | 0, _, _, _ => rfl
  | calls + 1, state, seen, hplain => by
    have ih := blindEvalSession_eq S blake3 coins sk client calls
    rw [blindEvalSession, sessionWith]
    cases hrefusal : refusal stark state.uid (state.runs.tau - state.runs.ctr) (client seen) with
    | some error =>
      rw [blindEval_refusal S blake3 coins hplain sk hrefusal]
      simp only [Option.bind_eq_bind, Option.bind_some]
      rw [ih state _ hplain]
      rfl
    | none =>
      obtain ⟨huid, hwell, hruns⟩ := refusal_eq_none hrefusal
      -- A plain server checks what `refusal` does, and answers what passes.
      have haccepted : BlindEvalAccepted state (client seen) :=
        blindEvalAccepted_iff.mpr ⟨huid, by rw [hplain]; exact hwell, hruns⟩
      rcases blindEval_cases S blake3 stark coins state sk (client seen) with
        ⟨hrefused, -⟩ | ⟨-, state', m, result, hm, hspent, hcall, hall, hok⟩
      · exact absurd haccepted hrefused
      · obtain rfl := hok hplain
        obtain ⟨rfl, -⟩ := hall _ rfl
        rw [haccepted.tauFor_evaluations] at hspent
        rw [hcall]
        simp only [Option.bind_eq_bind, Option.bind_some]
        rw [ih state' _ (hspent.voprf.trans hplain), hspent.uid, hspent.tau, hspent.ctr,
          hspent.rowResponse, rowsFrom_answers]
        rfl

/-! ## What was asked -/

section Asked

variable {uid : Uid} {tau : ℕ} {client : List (Reply stark) → RequestMessage}

/-- A run that was asked for is one of those from `ctr` on, and its row is in range. -/
theorem askedIn_spec {run : ℕ} {req : RowRequest} :
    ∀ {ctr : ℕ} {seen replies : List (Reply stark)},
      askedIn stark uid tau client run ctr seen replies = some req →
        ctr ≤ run ∧ run < tau ∧ req.InRange
  | ctr, seen, [], h => by cases h
  | ctr, seen, reply :: replies, h => by
    rw [askedIn] at h
    cases hrefusal : refusal stark uid (tau - ctr) (client seen) with
    | some error =>
      rw [hrefusal] at h
      exact askedIn_spec h
    | none =>
      obtain ⟨-, hwell, hruns⟩ := refusal_eq_none hrefusal
      have hpos : 0 < (client seen).rows.length := List.length_pos_of_ne_nil hwell.nonempty
      rw [hrefusal] at h
      simp only [] at h
      split_ifs at h with hrun hctr
      · exact ⟨hctr, by omega, hwell.rows _ (List.mem_of_getElem? h)⟩
      · obtain ⟨hle, hlt, hrange⟩ := askedIn_spec h
        exact ⟨by omega, hlt, hrange⟩

/-- Rows that agree where they are asked for are the same. -/
theorem rowsFrom_congr {row row' : ℕ → RowRequest → RowResponse} :
    ∀ {reqs : List RowRequest} {ctr : ℕ},
      (∀ k req, reqs[k]? = some req → row (ctr + k) req = row' (ctr + k) req) →
      rowsFrom row ctr reqs = rowsFrom row' ctr reqs
  | [], _, _ => rfl
  | req :: reqs, ctr, h => by
    have hhead : row ctr req = row' ctr req := h 0 req rfl
    rw [rowsFrom, rowsFrom, hhead, rowsFrom_congr]
    intro k req' hreq
    rw [Nat.add_assoc, Nat.add_comm 1 k]
    exact h (k + 1) req' hreq

/-- A session depends on a run's row only for the request's row that asked for it. -/
theorem sessionWith_congr {row row' : ℕ → RowRequest → RowResponse} :
    ∀ {calls ctr : ℕ} {seen : List (Reply stark)},
      (∀ run req, askedIn stark uid tau client run ctr seen
        (sessionWith stark uid tau client row calls ctr seen) = some req →
          row run req = row' run req) →
      sessionWith stark uid tau client row calls ctr seen =
        sessionWith stark uid tau client row' calls ctr seen
  | 0, _, _, _ => rfl
  | calls + 1, ctr, seen, h => by
    rw [sessionWith] at h ⊢
    rw [sessionWith]
    cases hrefusal : refusal stark uid (tau - ctr) (client seen) with
    | some error =>
      rw [hrefusal] at h
      simp only [] at h ⊢
      congr 1
      refine sessionWith_congr fun run req hasked => h run req ?_
      rw [askedIn, hrefusal]
      exact hasked
    | none =>
      rw [hrefusal] at h
      simp only [] at h ⊢
      have hrows : rowsFrom row ctr (client seen).rows = rowsFrom row' ctr (client seen).rows := by
        refine rowsFrom_congr fun k req hreq => h (ctr + k) req ?_
        have hk : k < (client seen).rows.length := (List.getElem?_eq_some_iff.mp hreq).1
        rw [askedIn, hrefusal]
        simp only []
        rw [if_pos (by omega), if_pos (by omega), Nat.add_sub_cancel_left]
        exact hreq
      rw [← hrows]
      congr 1
      refine sessionWith_congr fun run req hasked => h run req ?_
      -- A run of the later requests is past those of this one.
      obtain ⟨hle, -, -⟩ := askedIn_spec hasked
      rw [askedIn, hrefusal]
      simp only []
      rw [if_neg (by omega)]
      exact hasked

end Asked

/-! ## A server that is told one rounding for each row -/

/-- The position of a row whose pad is `b′`. -/
def shownAt (b_prime : Fin DELTA) (b_bar_prime : Zdelta) : Fin DELTA :=
  ⟨(b_prime.val + b_bar_prime.toNat) % DELTA, Nat.mod_lt _ (by norm_num)⟩

/-- A row with one rounding in it, masked with the pads of its run. -/
def simulatedRow (s_s : List (Fin DELTA → Zp)) (b_prime : ℕ → Fin DELTA)
    (rounding : ℕ → RowRequest → Zp) (ctr : ℕ) (req : RowRequest) : RowResponse where
  y j := (if j = shownAt (b_prime ctr) req.b_bar_prime then rounding ctr req else 0) +
    s_s.getD ctr (fun _ => 0) (padPosition j req.b_bar_prime)
  ctr := ctr

/-- A session with a server that has no key and no masks. Of each row that it answers it is told one
rounding. -/
def simulatedSession (stark : Stark Val) (uid : Uid) (runs : Runs) (s_s : List (Fin DELTA → Zp))
    (b_prime : ℕ → Fin DELTA) (rounding : ℕ → RowRequest → Zp)
    (client : List (Reply stark) → RequestMessage) (calls : ℕ) : List (Reply stark) :=
  sessionWith stark uid runs.tau client (simulatedRow s_s b_prime rounding) calls runs.ctr []

/-- A server with other pads. -/
def ServerState.withPads (state : ServerState) (pads : Fin state.runs.tau → Fin DELTA → Zp) :
    ServerState where
  r_s := state.r_s
  s_s := List.ofFn pads
  uid := state.uid
  runs := state.runs
  voprf := state.voprf
  s_s_length := List.length_ofFn
  delta_length := state.delta_length

/-- The pads that the client does not know. -/
abbrev UnknownPads (tau : ℕ) (b_prime : ℕ → Fin DELTA) : Type :=
  (run : Fin tau) → { i // i ≠ b_prime run } → Zp

/-- The pads of all runs, from the one of each that the client knows and the others. -/
def padsWith {tau : ℕ} {b_prime : ℕ → Fin DELTA} (known : ℕ → Zp)
    (others : UnknownPads tau b_prime) : Fin tau → Fin DELTA → Zp :=
  fun run => Pads.withKnown (b_prime run) (known run) (others run)

/-- The rounding that the real server's row shows. -/
def ServerState.shownRounding (state : ServerState) (blake3 : Blake3) (sk : SecretKey)
    (b_prime : ℕ → Fin DELTA) (ctr : ℕ) (req : RowRequest) : Zp :=
  roundedPart (reduceQ (aSigmaNat sk (state.rSigmaSumAt blake3 sk ctr) req.e))
    (shownAt (b_prime ctr) req.b_bar_prime)

/-! ## Up to the pads that the client does not know -/

section Move

variable {b_prime : ℕ → Fin DELTA} {known : ℕ → Zp}

/-- The pads of a run that exists. -/
theorem getD_padsWith {tau run : ℕ} (hrun : run < tau)
    (others : UnknownPads tau b_prime) :
    (List.ofFn (padsWith known others)).getD run (fun _ => 0) =
      Pads.withKnown (b_prime run) (known run) (others ⟨run, hrun⟩) := by
  rw [List.getD_eq_getElem?_getD, List.getElem?_ofFn, dif_pos hrun, Option.getD_some]
  rfl

/-- One run: the pads that the client does not know are moved by something that the request's row
tells. -/
theorem exists_rowMove (state : ServerState) (blake3 : Blake3) (sk : SecretKey) (b_prime : ℕ → Fin DELTA)
    (known : ℕ → Zp) (run : ℕ) (req : RowRequest) (hrange : req.InRange) :
    ∃ move : Equiv.Perm ({ i // i ≠ b_prime run } → Zp), ∀ others j,
      responseEntry (reduceQ (aSigmaNat sk (state.rSigmaSumAt blake3 sk run) req.e))
          (Pads.withKnown (b_prime run) (known run) others) req.b_bar_prime j =
        (if j = shownAt (b_prime run) req.b_bar_prime then
          state.shownRounding blake3 sk b_prime run req else 0) +
          Pads.withKnown (b_prime run) (known run) (move others) (padPosition j req.b_bar_prime) := by
  have hb := hrange.b_bar_prime
  have hposition : (padEquiv req.b_bar_prime hb).symm (b_prime run) =
      shownAt (b_prime run) req.b_bar_prime := rfl
  obtain ⟨move, hmove⟩ := Pads.exists_perm (padEquiv req.b_bar_prime hb)
    (roundedPart (reduceQ (aSigmaNat sk (state.rSigmaSumAt blake3 sk run) req.e)))
    (fun j => if j = shownAt (b_prime run) req.b_bar_prime then
      state.shownRounding blake3 sk b_prime run req else 0)
    (k := b_prime run) (by rw [hposition, if_pos rfl]; rfl)
  refine ⟨move, fun others j => ?_⟩
  have hmasked := congrFun (hmove (known run) others) j
  have hrespond := respond_eq_masked (reduceQ_lt (aSigmaNat sk (state.rSigmaSumAt blake3 sk run) req.e))
    (Pads.withKnown (b_prime run) (known run) others) hb
  rw [respond_of_lt _ (reduceQ_lt _) hb] at hrespond
  rw [congrFun (Option.some.inj hrespond) j, hmasked]
  rfl

end Move

/-- What a client sees of a session with a plain server, however it chooses its requests, is what it
sees of a server that is told one rounding for each row that it answers, up to a bijection of the
pads that the client does not know. -/
theorem session_shows_roundings (S : Permutations) (blake3 : Blake3) (stark : Stark Val)
    (coins : ℕ → stark.Coins) {state : ServerState} (hplain : state.voprf = none) (sk : SecretKey)
    (client : List (Reply stark) → RequestMessage) (calls : ℕ) (b_prime : ℕ → Fin DELTA)
    (known : ℕ → Zp) :
    ∃ move : Equiv.Perm (UnknownPads state.runs.tau b_prime), ∀ others,
      blindEvalSession S blake3 stark coins sk client calls
          (state.withPads (padsWith known others)) [] =
        some (simulatedSession stark state.uid state.runs
          (List.ofFn (padsWith known (move others))) b_prime
          (state.shownRounding blake3 sk b_prime) client calls) := by
  -- What a row of a run moves, and nothing where no row asked for the run.
  choose! rowMove hrowMove using exists_rowMove state blake3 sk b_prime known
  let move : List (Reply stark) → ∀ run : Fin state.runs.tau,
      Equiv.Perm ({ i // i ≠ b_prime run } → Zp) := fun replies run =>
    (askedIn stark state.uid state.runs.tau client run state.runs.ctr [] replies).elim
      (Equiv.refl _) (rowMove run)
  have hrow : ∀ (others : UnknownPads state.runs.tau b_prime) replies run req,
      askedIn stark state.uid state.runs.tau client run state.runs.ctr [] replies = some req →
      (state.withPads (padsWith known others)).rowResponse blake3 sk req run =
        simulatedRow (List.ofFn (padsWith known fun i => move replies i (others i))) b_prime
          (state.shownRounding blake3 sk b_prime) run req := by
    intro others replies run req hasked
    obtain ⟨-, hrun, hrange⟩ := askedIn_spec hasked
    have hmove : move replies ⟨run, hrun⟩ = rowMove run req := by
      change Option.elim _ _ _ = _
      rw [hasked]
      rfl
    rw [ServerState.rowResponse, simulatedRow, ServerState.padsAt]
    congr 1
    funext j
    rw [getD_padsWith hrun, hmove]
    refine (?_ : _ = _).trans (hrowMove run req hrange (others ⟨run, hrun⟩) j)
    congr 1
    exact getD_padsWith hrun others
  let real : UnknownPads state.runs.tau b_prime → List (Reply stark) := fun others =>
    sessionWith stark state.uid state.runs.tau client
      (fun run req => (state.withPads (padsWith known others)).rowResponse blake3 sk req run)
      calls state.runs.ctr []
  let simulated : UnknownPads state.runs.tau b_prime → List (Reply stark) := fun others =>
    simulatedSession stark state.uid state.runs (List.ofFn (padsWith known others)) b_prime
      (state.shownRounding blake3 sk b_prime) client calls
  have hforth : ∀ others, simulated (fun run => move (real others) run (others run)) = real others :=
    fun others => (sessionWith_congr (hrow others (real others))).symm
  -- Back: the simulated replies tell the same moves, and undoing them gives the real rows.
  have hback : ∀ others,
      real (fun run => (move (simulated others) run).symm (others run)) = simulated others := by
    intro others
    refine (sessionWith_congr fun run req hasked => ?_).symm
    have h := hrow (fun run => (move (simulated others) run).symm (others run)) (simulated others)
      run req hasked
    simp only [Equiv.apply_symm_apply] at h
    exact h.symm
  obtain ⟨moved, hmoved⟩ := Pads.exists_perm_of_views move hforth hback
  refine ⟨moved, fun others => ?_⟩
  have hsession := blindEvalSession_eq S blake3 coins sk client calls
    (state.withPads (padsWith known others)) [] hplain
  rw [hsession]
  exact congrArg some (hmoved others)

theorem session_shows_roundings_zero :
    ∃ move : Equiv.Perm (UnknownPads 16 fun _ => 0), ∀ others,
      blindEvalSession Permutations.identity (fun _ _ _ => 0) (Stark.transparent Val) (fun _ => ())
          zeroKey (fun _ => ⟨fun _ => 0, [], List.replicate 16 ⟨fun _ => 0, 0⟩⟩) 2
          ((zeroServer 16).withPads (padsWith (fun _ => 0) others)) [] =
        some (simulatedSession (Stark.transparent Val) (fun _ => 0) (Runs.new 16)
          (List.ofFn (padsWith (fun _ => 0) (move others))) (fun _ => 0)
          ((zeroServer 16).shownRounding (fun _ _ _ => 0) zeroKey fun _ => 0)
          (fun _ => ⟨fun _ => 0, [], List.replicate 16 ⟨fun _ => 0, 0⟩⟩) 2) :=
  session_shows_roundings Permutations.identity (fun _ _ _ => 0) (Stark.transparent Val) _
    (show (zeroServer 16).voprf = none from rfl) zeroKey _ 2 (fun _ => 0) fun _ => 0

end PoolOprf
