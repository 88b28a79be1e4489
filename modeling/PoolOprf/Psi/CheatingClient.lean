import PoolOprf.Oprf.Budget
import PoolOprf.Oprf.PreprocessingPanicFree
import PoolOprf.Psi.Exact

/-!
# A PSI server and a cheating client

A server of `PsiServer::session` and `serve_masked` (or `serve`), and a client that does whatever it
likes: it announces any set size, sends any messages of the preprocessing and any requests, in any
order, and closes the streams when it likes (`ServedRun.Step`). A run records what the server does
for the client (`ServedRun`): the state of the preprocessing, the masked sets, the BlindEvals and
the responses.

In every phase the BlindEvals are ones on the state of the preprocessing, one after the other, and
with the requests that the server still waits for they are the `requests_for` of the announced set
size (`Served`, kept by each step: `Served.step`). `psi_server_bounded` is what a client gets at
most: one masked set, and answers for as many evaluations as it announced, each from its own runs.
-/

namespace PoolOprf

open Panic

variable {S : Permutations} {stark : Stark Val}

/-! ## A run with any client -/

/-- A server's run, with what it has done for the client. -/
structure ServedRun (S : Permutations) (stark : Stark Val) where
  run : PsiRun S stark
  /-- The state of the preprocessing, and the set size it is for. -/
  prepared : Option (ServerState × ℕ)
  /-- The masked sets that were sent. -/
  sets : List MaskedServerSet
  /-- The requests that were taken. -/
  calls : List (BlindEvalCall stark)
  /-- The responses that were sent. -/
  responses : List (ResponseMessage stark)

/-- The responses of some BlindEvals. -/
def responsesOf (records : List (BlindEvalRecord stark)) : List (ResponseMessage stark) :=
  records.filterMap fun record => record.2.toOption

namespace ServedRun

/-- A server that has not read a set size. -/
def new (S : Permutations) (stark : Stark Val) : ServedRun S stark := ⟨.new S stark, none, [], [], []⟩

/-- The request that the server takes next, if it does. -/
def taken (cfg : PsiConfig S) (coins : ℕ → stark.Coins) (run : PsiRun S stark) :
    List (BlindEvalCall stark) :=
  match run.server, run.requests with
  | .serving _ (_ + 1), req :: _ => [⟨cfg.sk, req, coins⟩]
  | _, _ => []

/-- What the server records of its next move, which leads to `run`: what it takes and what it puts
on the streams. -/
def moved (cfg : PsiConfig S) (coins : ℕ → stark.Coins) (record : ServedRun S stark)
    (run : PsiRun S stark) : ServedRun S stark where
  run := run
  prepared := record.prepared
  sets := record.sets ++ run.sets.drop record.run.sets.length
  calls := record.calls ++ taken cfg coins record.run
  responses := record.responses ++ run.responses.drop record.run.responses.length

/-- A step: the server moves, or its preprocessing ends or panics, over any OTs and with any
messages of the client, or anything happens that is not the server's. -/
inductive Step (cfg : PsiConfig S) (call : ServeCall) : ServedRun S stark → ServedRun S stark → Prop
  /-- The server moves. -/
  | server (record : ServedRun S stark) (coins : ℕ → stark.Coins) (run : PsiRun S stark)
      (hmove : call.move cfg coins record.run = some run) :
      Step cfg call record (record.moved cfg coins run)
  /-- The server gets to the end of the preprocessing. -/
  | preprocess (record : ServedRun S stark) (set_size : ℕ) (coins : stark.Coins)
      (binary delta : BinaryOts) (hello : Option (List UInt8)) (masks : List (MasksMessage S))
      (sent : ServerMessages S stark) (oprf : ServerState)
      (hserver : record.run.server = .accepted set_size)
      (hpreproc : preprocServer cfg.blake3 cfg.build coins cfg.sk (tauFor set_size) binary delta
        hello masks = some (.ok (sent, oprf))) : Step cfg call record
        { record with
          run := { record.run with server := .preprocessed oprf set_size }
          prepared := some (oprf, set_size) }
  /-- The server's preprocessing panics. -/
  | panic (record : ServedRun S stark) (set_size : ℕ) (coins : stark.Coins) (binary delta : BinaryOts)
      (hello : Option (List UInt8)) (masks : List (MasksMessage S))
      (hserver : record.run.server = .accepted set_size)
      (hpreproc : preprocServer cfg.blake3 cfg.build coins cfg.sk (tauFor set_size) binary delta
        hello masks = none) :
      Step cfg call record { record with run := { record.run with server := .stopped } }
  /-- The client takes and sends what it likes. -/
  | client (record : ServedRun S stark) (client : PsiClientPhase S stark) (sizes : List ℕ)
      (sets : List MaskedServerSet) (requests : List RequestMessage)
      (responses : List (ResponseMessage stark)) (sent : ℕ) : Step cfg call record
        { record with run := ⟨client, record.run.server, sizes, sets, requests, responses, sent⟩ }

end ServedRun

/-! ## What the server has done -/

/-- A session that was prepared for `set_size` elements: what was taken and sent in it. -/
structure SessionOf (cfg : PsiConfig S) (masked : List MaskedElement) (record : ServedRun S stark)
    (oprf : ServerState) (set_size requests : ℕ) (oprf' : ServerState) : Prop where
  prepared : record.prepared = some (oprf, set_size)
  size_pos : 0 < set_size
  size_le : set_size ≤ MAX_CLIENT_SET
  runs : oprf.runs = Runs.new (tauFor set_size)
  requests_eq : requestsFor set_size oprf.maxBatchEvaluations = some requests
  calls_le : record.calls.length ≤ requests
  calls_sk : ∀ call ∈ record.calls, call.sk = cfg.sk
  sets : record.sets = [] ∧ record.calls = [] ∨
    record.sets = [⟨cfg.tag, masked⟩] ∧ masked.length ≤ MAX_SERVER_SET
  answers : ∃ records, blindEvalAll S cfg.blake3 stark record.calls oprf = some (oprf', records) ∧
    record.responses = responsesOf records

/-- Nothing was taken or sent. -/
structure Untouched (record : ServedRun S stark) : Prop where
  prepared : record.prepared = none
  sets : record.sets = []
  calls : record.calls = []
  responses : record.responses = []

/-- What was done in each phase of the server, which is never stopped. -/
inductive Served (cfg : PsiConfig S) (masked : List MaskedElement) (record : ServedRun S stark) :
    PsiServerPhase stark → Prop
  | connected (h : Untouched record) : Served cfg masked record .connected
  | accepted (set_size : ℕ) (h : Untouched record) (hpos : 0 < set_size)
      (hle : set_size ≤ MAX_CLIENT_SET) : Served cfg masked record (.accepted set_size)
  /-- No set is sent yet. -/
  | preprocessed (oprf : ServerState) (set_size requests : ℕ)
      (h : SessionOf cfg masked record oprf set_size requests oprf) (hsets : record.sets = [])
      (hcalls : record.calls = []) : Served cfg masked record (.preprocessed oprf set_size)
  /-- All requests so far are answered. -/
  | serving (oprf oprf' : ServerState) (set_size requests left : ℕ)
      (h : SessionOf cfg masked record oprf set_size requests oprf')
      (hset : record.sets = [⟨cfg.tag, masked⟩] ∧ masked.length ≤ MAX_SERVER_SET)
      (hleft : record.calls.length + left = requests)
      (hanswered : record.responses.length = record.calls.length) :
      Served cfg masked record (.serving oprf' left)
  | finished (oprf oprf' : ServerState) (set_size requests : ℕ)
      (h : SessionOf cfg masked record oprf set_size requests oprf')
      (hanswered : record.responses.length = requests) : Served cfg masked record (.finished oprf')
  | refused (error : PsiError stark) (h : Untouched record) : Served cfg masked record (.failed error)
  | failed (error : PsiError stark) (oprf oprf' : ServerState) (set_size requests : ℕ)
      (h : SessionOf cfg masked record oprf set_size requests oprf') :
      Served cfg masked record (.failed error)

/-! ### BlindEvals one after the other -/

/-- One more BlindEval, after the others. -/
theorem blindEvalAll_concat {blake3 : Blake3} {call : BlindEvalCall stark} {state'' : ServerState}
    {record : BlindEvalRecord stark} :
    ∀ {calls : List (BlindEvalCall stark)} {state state' : ServerState}
      {records : List (BlindEvalRecord stark)},
      blindEvalAll S blake3 stark calls state = some (state', records) →
      blindEval S blake3 stark call.coins state' call.sk call.req = some (state'', record) →
      blindEvalAll S blake3 stark (calls ++ [call]) state = some (state'', records ++ [record])
  | [], state, state', records, hcalls, hcall => by
    obtain ⟨rfl, rfl⟩ := Prod.mk.inj (Option.some.inj hcalls)
    exact blindEvalAll_cons hcall rfl
  | first :: calls, state, state', records, hcalls, hcall => by
    rw [blindEvalAll, Option.bind_eq_bind, Option.bind_eq_some_iff] at hcalls
    obtain ⟨⟨state₁, record₁⟩, hfirst, hcalls⟩ := hcalls
    obtain ⟨⟨state₂, records₂⟩, hothers, hcalls⟩ := Option.bind_eq_some_iff.mp hcalls
    obtain ⟨rfl, rfl⟩ := Prod.mk.inj (Option.some.inj hcalls)
    exact blindEvalAll_cons hfirst (blindEvalAll_concat hothers hcall)

theorem responsesOf_append (records records' : List (BlindEvalRecord stark)) :
    responsesOf (records ++ records') = responsesOf records ++ responsesOf records' :=
  List.filterMap_append

/-- The rows of the responses are among those that were computed. -/
theorem responsesOf_rows :
    ∀ {records : List (BlindEvalRecord stark)},
      (∀ record ∈ records, ∀ resp, record.2 = .ok resp → resp.rows = record.1) →
      ((responsesOf records).flatMap ResponseMessage.rows).Sublist (rowsComputed records)
  | [], _ => List.Sublist.refl []
  | (rows, .error error) :: records, h => by
    have ih := responsesOf_rows fun record hrecord => h record (List.mem_cons_of_mem _ hrecord)
    exact ih.trans (List.sublist_append_right rows _)
  | (rows, .ok resp) :: records, h => by
    have ih := responsesOf_rows fun record hrecord => h record (List.mem_cons_of_mem _ hrecord)
    have hrows : resp.rows = rows := h (rows, .ok resp) List.mem_cons_self resp rfl
    have happend := List.Sublist.append (List.Sublist.refl rows) ih
    rw [← hrows] at happend ⊢
    exact happend

/-- The runs of the responses, in the order in which they were sent, are different ones of the
session's. -/
theorem responsesOf_runs {blake3 : Blake3} {calls : List (BlindEvalCall stark)} {oprf oprf' : ServerState}
    {records : List (BlindEvalRecord stark)} {tau : ℕ} (hruns : oprf.runs = Runs.new tau)
    (h : blindEvalAll S blake3 stark calls oprf = some (oprf', records)) :
    (((responsesOf records).flatMap ResponseMessage.rows).map RowResponse.ctr).Sublist
      (List.range tau) := by
  obtain ⟨state', records', hall, history⟩ := blindEvalAll_spec S blake3 stark calls oprf
  obtain ⟨rfl, rfl⟩ := Prod.mk.inj (Option.some.inj (hall.symm.trans h))
  have haccepted : ∀ record ∈ records', ∀ resp, record.2 = .ok resp → resp.rows = record.1 := by
    intro record hrecord resp hresp
    obtain ⟨k, hk, rfl⟩ := List.mem_iff_getElem.mp hrecord
    have hlen := history.length
    have hcall : k < calls.length := by omega
    have hpair : (calls[k], records'[k]) ∈ calls.zip records' := by
      rw [← List.getElem_zip (h := by rw [List.length_zip]; omega)]
      exact List.getElem_mem _
    exact (history.accepted _ hpair resp hresp).1
  have hbudget := state'.runs.ctr_add_remaining
  have hspent := history.spent.ctr
  have htau := history.spent.tau
  rw [hruns] at hspent htau
  -- As many rows as runs spent, which are at most all.
  have hlen : (rowsComputed records').length ≤ tau := by
    change state'.runs.ctr = 0 + _ at hspent
    change state'.runs.tau = tau at htau
    omega
  refine ((responsesOf_rows haccepted).map RowResponse.ctr).trans ?_
  rw [history.ctr, hruns, List.range_eq_range']
  exact List.range'_sublist_right.mpr hlen

section Steps

variable {cfg : PsiConfig S} {call : ServeCall} {masked : List MaskedElement}
  {record record' : ServedRun S stark} {oprf oprf' : ServerState} {set_size requests : ℕ}

theorem SessionOf.congr (h : SessionOf cfg masked record oprf set_size requests oprf')
    (hprepared : record'.prepared = record.prepared) (hsets : record'.sets = record.sets)
    (hcalls : record'.calls = record.calls) (hresponses : record'.responses = record.responses) :
    SessionOf cfg masked record' oprf set_size requests oprf' where
  prepared := hprepared.trans h.prepared
  size_pos := h.size_pos
  size_le := h.size_le
  runs := h.runs
  requests_eq := h.requests_eq
  calls_le := hcalls ▸ h.calls_le
  calls_sk := hcalls ▸ h.calls_sk
  sets := by
    rw [hsets, hcalls]
    exact h.sets
  answers := by
    rw [hcalls, hresponses]
    exact h.answers

theorem Untouched.congr (h : Untouched record) (hprepared : record'.prepared = record.prepared)
    (hsets : record'.sets = record.sets) (hcalls : record'.calls = record.calls)
    (hresponses : record'.responses = record.responses) : Untouched record' :=
  ⟨hprepared.trans h.prepared, hsets.trans h.sets, hcalls.trans h.calls,
    hresponses.trans h.responses⟩

/-- What was done does not depend on the streams. -/
theorem Served.congr {phase : PsiServerPhase stark} (h : Served cfg masked record phase)
    (hprepared : record'.prepared = record.prepared) (hsets : record'.sets = record.sets)
    (hcalls : record'.calls = record.calls) (hresponses : record'.responses = record.responses) :
    Served cfg masked record' phase := by
  cases h with
  | connected h => exact .connected (h.congr hprepared hsets hcalls hresponses)
  | accepted set_size h hpos hle =>
    exact .accepted set_size (h.congr hprepared hsets hcalls hresponses) hpos hle
  | preprocessed oprf set_size requests h hnone hempty =>
    exact .preprocessed oprf set_size requests (h.congr hprepared hsets hcalls hresponses)
      (hsets.trans hnone) (hcalls.trans hempty)
  | serving oprf oprf' set_size requests left h hset hleft hanswered =>
    refine .serving oprf oprf' set_size requests left (h.congr hprepared hsets hcalls hresponses) ?_ ?_ ?_
    · rw [hsets]
      exact hset
    · rw [hcalls]
      exact hleft
    · rw [hresponses, hcalls]
      exact hanswered
  | finished oprf oprf' set_size requests h hanswered =>
    exact .finished oprf oprf' set_size requests (h.congr hprepared hsets hcalls hresponses)
      (hresponses ▸ hanswered)
  | refused error h => exact .refused error (h.congr hprepared hsets hcalls hresponses)
  | failed error oprf oprf' set_size requests h =>
    exact .failed error oprf oprf' set_size requests (h.congr hprepared hsets hcalls hresponses)

/-- A server that has taken a request, whatever comes of it. -/
theorem SessionOf.taken (h : SessionOf cfg masked record oprf set_size requests oprf')
    (hset : record.sets = [⟨cfg.tag, masked⟩] ∧ masked.length ≤ MAX_SERVER_SET)
    (hlt : record.calls.length < requests) {coins : ℕ → stark.Coins} {req : RequestMessage}
    {oprf'' : ServerState} {rows : List RowResponse}
    {result : Except (BlindEvalError stark) (ResponseMessage stark)}
    (hcall : blindEval S cfg.blake3 stark coins oprf' cfg.sk req = some (oprf'', rows, result))
    (hprepared : record'.prepared = record.prepared) (hsets : record'.sets = record.sets)
    (hcalls : record'.calls = record.calls ++ [⟨cfg.sk, req, coins⟩])
    (hresponses : record'.responses = record.responses ++ responsesOf [(rows, result)]) :
    SessionOf cfg masked record' oprf set_size requests oprf'' where
  prepared := hprepared.trans h.prepared
  size_pos := h.size_pos
  size_le := h.size_le
  runs := h.runs
  requests_eq := h.requests_eq
  calls_le := by
    rw [hcalls, List.length_append, List.length_singleton]
    exact hlt
  calls_sk call hcall := by
    rw [hcalls] at hcall
    rcases List.mem_append.mp hcall with hcall | hcall
    · exact h.calls_sk call hcall
    · rw [List.mem_singleton.mp hcall]
  sets := by
    rw [hsets]
    exact .inr hset
  answers := by
    obtain ⟨records, hall, hanswers⟩ := h.answers
    refine ⟨records ++ [(rows, result)], ?_, ?_⟩
    · rw [hcalls]
      exact blindEvalAll_concat hall hcall
    · rw [hresponses, hanswers, responsesOf_append]

/-- A server that has sent its masked set. -/
theorem SessionOf.sent (h : SessionOf cfg masked record oprf set_size requests oprf')
    (hle : masked.length ≤ MAX_SERVER_SET) (hprepared : record'.prepared = record.prepared)
    (hsets : record'.sets = [⟨cfg.tag, masked⟩]) (hcalls : record'.calls = record.calls)
    (hresponses : record'.responses = record.responses) :
    SessionOf cfg masked record' oprf set_size requests oprf' where
  prepared := hprepared.trans h.prepared
  size_pos := h.size_pos
  size_le := h.size_le
  runs := h.runs
  requests_eq := h.requests_eq
  calls_le := hcalls ▸ h.calls_le
  calls_sk := hcalls ▸ h.calls_sk
  sets := .inr ⟨hsets, hle⟩
  answers := by
    rw [hcalls, hresponses]
    exact h.answers

/-- The server's moves before its preprocessing. -/
theorem served_receiveSetSize (h : Untouched record) (announced : ℕ) :
    Served cfg masked record (receiveSetSize announced) := by
  unfold receiveSetSize
  by_cases hzero : announced = 0
  · rw [if_pos hzero]
    exact .refused _ h
  rw [if_neg hzero]
  by_cases hlarge : announced > MAX_CLIENT_SET
  · rw [if_pos hlarge]
    exact .refused _ h
  rw [if_neg hlarge]
  exact .accepted announced h (Nat.pos_of_ne_zero hzero) (not_lt.mp hlarge)

/-- What was done stays what it is in a move that takes no request and sends nothing. -/
theorem Served.quiet {phase : PsiServerPhase stark} (h : Served cfg masked record phase)
    {coins : ℕ → stark.Coins} {run : PsiRun S stark}
    (htaken : ServedRun.taken cfg coins record.run = []) (hsets : run.sets = record.run.sets)
    (hresponses : run.responses = record.run.responses) :
    Served cfg masked (record.moved cfg coins run) phase := by
  apply h.congr
  · rfl
  · unfold ServedRun.moved
    rw [hsets, List.drop_length, List.append_nil]
  · unfold ServedRun.moved
    rw [htaken, List.append_nil]
  · unfold ServedRun.moved
    rw [hresponses, List.drop_length, List.append_nil]

/-- A server that does not wait for requests takes none. -/
theorem ServedRun.taken_eq_nil {coins : ℕ → stark.Coins} {run : PsiRun S stark}
    (h : ∀ oprf' left, run.server ≠ .serving oprf' (left + 1)) : ServedRun.taken cfg coins run = [] := by
  unfold taken
  split
  · rename_i hserver _
    exact absurd hserver (h _ _)
  · rfl

/-- A server that is prepared sends its masked set, if it is not too large. -/
theorem SessionOf.serveMasked (h : SessionOf cfg masked record oprf set_size requests oprf)
    (hsets : record.sets = []) (hcalls : record.calls = []) {coins : ℕ → stark.Coins}
    (htaken : ServedRun.taken cfg coins record.run = []) :
    Served cfg masked
      (record.moved cfg coins (PoolOprf.serveMasked cfg masked oprf set_size record.run))
      (PoolOprf.serveMasked cfg masked oprf set_size record.run).server := by
  unfold PoolOprf.serveMasked
  by_cases hlarge : masked.length > MAX_SERVER_SET
  · rw [if_pos hlarge]
    exact (Served.failed _ oprf oprf set_size requests h).quiet htaken rfl rfl
  rw [if_neg hlarge, h.requests_eq]
  have hle := not_lt.mp hlarge
  -- No request was taken before, so that nothing was answered.
  obtain ⟨records, hall, hanswers⟩ := h.answers
  rw [hcalls] at hall
  obtain ⟨-, rfl⟩ := Prod.mk.inj (Option.some.inj hall)
  have hnone : record.responses = [] := hanswers
  have hsent : (record.moved cfg coins { record.run with
      sets := record.run.sets ++ [⟨cfg.tag, masked⟩]
      server := .serving oprf requests }).sets = [⟨cfg.tag, masked⟩] := by
    unfold ServedRun.moved
    rw [hsets, List.nil_append, List.drop_left]
  have hcalls' : record.calls ++ ServedRun.taken cfg coins record.run = record.calls := by
    rw [htaken, List.append_nil]
  have hresponses : record.responses ++ record.run.responses.drop record.run.responses.length =
      record.responses := by
    rw [List.drop_length, List.append_nil]
  refine .serving oprf oprf set_size requests requests (h.sent hle rfl hsent hcalls' hresponses)
    ⟨hsent, hle⟩ ?_ ?_
  · unfold ServedRun.moved
    rw [hcalls', hcalls]
    exact Nat.zero_add requests
  · unfold ServedRun.moved
    rw [hcalls', hresponses, hnone, hcalls]
    rfl

/-- A server that takes a request answers it, or fails. -/
theorem SessionOf.serveNext {left : ℕ} (h : SessionOf cfg masked record oprf set_size requests oprf')
    (hset : record.sets = [⟨cfg.tag, masked⟩] ∧ masked.length ≤ MAX_SERVER_SET)
    (hleft : record.calls.length + (left + 1) = requests)
    (hanswered : record.responses.length = record.calls.length) {coins : ℕ → stark.Coins}
    {req : RequestMessage} (rest : List RequestMessage)
    (htaken : ServedRun.taken cfg coins record.run = [⟨cfg.sk, req, coins⟩]) :
    Served cfg masked (record.moved cfg coins
        (PoolOprf.serveNext cfg coins oprf' left req { record.run with requests := rest }))
      (PoolOprf.serveNext cfg coins oprf' left req { record.run with requests := rest }).server := by
  have hlt : record.calls.length < requests := by omega
  obtain ⟨oprf'', n, result, -, -, hcall, -⟩ :=
    blindEval_spec S cfg.blake3 stark coins oprf' cfg.sk req
  unfold PoolOprf.serveNext
  rw [hcall]
  have hsets' : record.sets ++ record.run.sets.drop record.run.sets.length = record.sets := by
    rw [List.drop_length, List.append_nil]
  cases result with
  | error error =>
    -- The request counts as taken, and nothing is sent for it.
    refine .failed _ oprf oprf'' set_size requests (h.taken hset hlt hcall rfl hsets' ?_ ?_)
    · unfold ServedRun.moved
      rw [htaken]
    · exact congrArg (record.responses ++ ·) List.drop_length
  | ok resp =>
    have hresponses : record.responses ++
        (record.run.responses ++ [resp]).drop record.run.responses.length =
          record.responses ++ [resp] := by
      rw [List.drop_left]
    refine .serving oprf oprf'' set_size requests left (h.taken hset hlt hcall rfl hsets' ?_ hresponses)
      ?_ ?_ ?_
    · unfold ServedRun.moved
      rw [htaken]
    · rw [← hset.1]
      exact ⟨hsets', hset.2⟩
    · unfold ServedRun.moved
      rw [htaken, List.length_append, List.length_singleton]
      omega
    · unfold ServedRun.moved
      dsimp only
      rw [htaken, hresponses, List.length_append, List.length_append, hanswered]
      rfl

/-- The server's moves keep what it has done right. -/
theorem Served.move (hmasked : call.masked cfg = some masked)
    (h : Served cfg masked record record.run.server) {coins : ℕ → stark.Coins} {run : PsiRun S stark}
    (hmove : call.move cfg coins record.run = some run) :
    Served cfg masked (record.moved cfg coins run) run.server := by
  -- Only a server with a request to wait for takes one.
  have hquiet : ∀ {phase : PsiServerPhase stark}, record.run.server = phase →
      (∀ oprf' left, phase ≠ .serving oprf' (left + 1)) →
      ServedRun.taken cfg coins record.run = [] := by
    rintro phase rfl hphase
    exact ServedRun.taken_eq_nil hphase
  generalize hserver : record.run.server = phase at h
  cases h with
  | connected h =>
    have htaken := hquiet hserver fun _ _ hne => (by cases hne)
    unfold ServeCall.move serverMove at hmove
    rw [hserver] at hmove
    dsimp only at hmove
    cases hsizes : record.run.sizes with
    | nil =>
      rw [hsizes] at hmove
      dsimp only at hmove
      split_ifs at hmove
      obtain rfl := Option.some.inj hmove
      exact (Served.refused _ h).quiet htaken rfl rfl
    | cons announced sizes =>
      rw [hsizes] at hmove
      obtain rfl := Option.some.inj hmove
      exact (served_receiveSetSize h announced).quiet htaken rfl rfl
  | preprocessed oprf set_size requests h hsets hcalls =>
    have htaken := hquiet hserver fun _ _ hne => (by cases hne)
    unfold ServeCall.move at hmove
    rw [hserver] at hmove
    obtain rfl := Option.some.inj hmove
    rw [call.send_eq hmasked]
    exact h.serveMasked hsets hcalls htaken
  | serving oprf oprf' set_size requests left h hset hleft hanswered =>
    rw [call.move_of_serving cfg coins hserver] at hmove
    unfold serverMove at hmove
    rw [hserver] at hmove
    cases left with
    | zero =>
      have htaken := hquiet hserver fun _ _ hne => (by cases hne)
      obtain rfl := Option.some.inj hmove
      exact (Served.finished oprf oprf' set_size requests h (hanswered.trans hleft)).quiet htaken rfl rfl
    | succ left =>
      cases hrequests : record.run.requests with
      | nil =>
        have htaken : ServedRun.taken cfg coins record.run = [] := by
          unfold ServedRun.taken
          rw [hserver, hrequests]
        rw [hrequests] at hmove
        dsimp only at hmove
        split_ifs at hmove
        obtain rfl := Option.some.inj hmove
        exact (Served.failed _ oprf oprf' set_size requests h).quiet htaken rfl rfl
      | cons req rest =>
        have htaken : ServedRun.taken cfg coins record.run = [⟨cfg.sk, req, coins⟩] := by
          unfold ServedRun.taken
          rw [hserver, hrequests]
        rw [hrequests] at hmove
        obtain rfl := Option.some.inj hmove
        exact h.serveNext hset hleft hanswered rest htaken
  -- A server that preprocesses waits for that, and one that has ended does not move.
  | accepted | finished | refused | failed =>
    unfold ServeCall.move serverMove at hmove
    rw [hserver] at hmove
    cases hmove

/-- A preprocessing that ends leaves a session of the announced set size. -/
theorem SessionOf.ofPreproc (record : ServedRun S stark) {coins : stark.Coins}
    {binary delta : BinaryOts} {hello : Option (List UInt8)} {masks : List (MasksMessage S)}
    {sent : ServerMessages S stark} (hpos : 0 < set_size) (hle : set_size ≤ MAX_CLIENT_SET)
    (h : preprocServer cfg.blake3 cfg.build coins cfg.sk (tauFor set_size) binary delta hello
      masks = some (.ok (sent, oprf)))
    (hprepared : record.prepared = some (oprf, set_size)) (hsets : record.sets = [])
    (hcalls : record.calls = []) (hresponses : record.responses = []) :
    ∃ requests, SessionOf cfg masked record oprf set_size requests oprf := by
  obtain ⟨opened, ots, -, hots, hestablished⟩ := preprocServer_eq_ok h
  obtain ⟨requests, hrequests, -⟩ := divCeil_spec set_size oprf.maxBatchEvaluations_pos
  -- A set size is small enough for all its OTs, so the state has all its runs.
  have hruns : oprf.runs = Runs.new (tauFor set_size) := by
    have htau : 0 < tauFor set_size := Nat.mul_pos hpos (by norm_num)
    obtain ⟨ots', hots', hdelta⟩ :=
      serverOtsOf_isSome cfg.blake3 htau (cfg.build.fits_of_setSize hle) binary delta
    obtain rfl := Option.some.inj (hots.symm.trans hots')
    rw [hestablished.runs]
    unfold serverPads
    rw [List.length_map, hdelta]
  refine ⟨requests, hprepared, hpos, hle, hruns, hrequests, ?_, ?_, .inl ⟨hsets, hcalls⟩, [], ?_, ?_⟩
  · rw [hcalls]
    exact Nat.zero_le requests
  · intro call hcall
    rw [hcalls] at hcall
    cases hcall
  · rw [hcalls]
    rfl
  · exact hresponses

/-- Every step keeps what the server has done right. -/
theorem Served.step (hmasked : call.masked cfg = some masked)
    (h : Served cfg masked record record.run.server) (hstep : ServedRun.Step cfg call record record') :
    Served cfg masked record' record'.run.server := by
  cases hstep with
  | server coins run hmove => exact h.move hmasked hmove
  | preprocess set_size coins binary delta hello masks sent oprf hserver hpreproc =>
    rw [hserver] at h
    cases h with
    | accepted _ h hpos hle =>
      obtain ⟨requests, hsession⟩ := SessionOf.ofPreproc
        { record with
          run := { record.run with server := .preprocessed oprf set_size }
          prepared := some (oprf, set_size) } hpos hle hpreproc rfl h.sets h.calls h.responses
      exact .preprocessed oprf set_size requests hsession h.sets h.calls
  | panic set_size coins binary delta hello masks hserver hpreproc =>
    rw [hserver] at h
    cases h with
    | accepted _ h hpos hle =>
      obtain ⟨result, hresult⟩ := preprocServer_isSome cfg.blake3 (cfg.build.fits_of_setSize hle) coins
        cfg.sk binary delta hello masks
      rw [hpreproc] at hresult
      cases hresult
  | client client sizes sets requests responses sent => exact h.congr rfl rfl rfl rfl

end Steps

/-- What was done is right for the server's phase. -/
def ServedRun.Right (cfg : PsiConfig S) (masked : List MaskedElement) (record : ServedRun S stark) : Prop :=
  Served cfg masked record record.run.server

/-- What was done is right in every run with any client. -/
theorem served_of_reachable {cfg : PsiConfig S} {call : ServeCall} {masked : List MaskedElement}
    {record : ServedRun S stark} (hmasked : call.masked cfg = some masked)
    (h : Reachable (ServedRun.Step cfg call) (ServedRun.new S stark) record) :
    record.Right cfg masked := by
  have hnew : (ServedRun.new S stark).Right cfg masked := .connected ⟨rfl, rfl, rfl, rfl⟩
  apply h.invariant hnew
  intro before after _ hbefore hstep
  exact Served.step hmasked hbefore hstep

/-- A phase with a session behind it. -/
theorem Served.session {cfg : PsiConfig S} {masked : List MaskedElement} {record : ServedRun S stark}
    (h : Served cfg masked record record.run.server) :
    Untouched record ∨ ∃ oprf oprf' set_size requests,
      SessionOf cfg masked record oprf set_size requests oprf' ∧
      ∀ state, record.run.server = .finished state → record.responses.length = requests := by
  generalize hserver : record.run.server = phase at h
  cases h with
  | connected h => exact .inl h
  | accepted set_size h hpos hle => exact .inl h
  | preprocessed oprf set_size requests h hsets hcalls =>
    exact .inr ⟨oprf, oprf, set_size, requests, h, fun _ hne => (by cases hne)⟩
  | serving oprf oprf' set_size requests left h hset hleft hanswered =>
    exact .inr ⟨oprf, oprf', set_size, requests, h, fun _ hne => (by cases hne)⟩
  | finished oprf oprf' set_size requests h hanswered =>
    exact .inr ⟨oprf, oprf', set_size, requests, h, fun _ _ => hanswered⟩
  | refused error h => exact .inl h
  | failed error oprf oprf' set_size requests h =>
    exact .inr ⟨oprf, oprf', set_size, requests, h, fun _ hne => (by cases hne)⟩

/-- What a client gets of a PSI server, whatever it does. The server does not panic. Before the
client has announced a set size in the limits and got through a preprocessing, it gets nothing of
the online phase. Then it gets at most one masked set, the one of the server's set and tag, and
responses of BlindEval under the server's key on the state of the preprocessing, one after the
other, to at most as many requests as the announced set size takes, and to exactly as many if the
server finishes. All rows that it gets are of different runs of the session, which has those of as
many evaluations as it announced. -/
theorem psi_server_bounded (cfg : PsiConfig S) (stark : Stark Val) (call : ServeCall) :
    ∃ masked, call.masked cfg = some masked ∧ ∀ record : ServedRun S stark,
      Reachable (ServedRun.Step cfg call) (.new S stark) record →
      record.run.server ≠ .stopped ∧
      (record.prepared = none → record.sets = [] ∧ record.responses = []) ∧
      ∀ oprf set_size, record.prepared = some (oprf, set_size) →
        0 < set_size ∧ set_size ≤ MAX_CLIENT_SET ∧
        (record.sets = [] ∧ record.responses = [] ∨
          record.sets = [⟨cfg.tag, masked⟩] ∧ masked.length ≤ MAX_SERVER_SET) ∧
        (∃ calls oprf' records, (∀ call ∈ calls, call.sk = cfg.sk) ∧
          blindEvalAll S cfg.blake3 stark calls oprf = some (oprf', records) ∧
          record.responses = responsesOf records ∧
          ∃ requests, requestsFor set_size oprf.maxBatchEvaluations = some requests ∧
            calls.length ≤ requests ∧
            ∀ state, record.run.server = .finished state → record.responses.length = requests) ∧
        ((record.responses.flatMap ResponseMessage.rows).map RowResponse.ctr).Sublist
          (List.range (tauFor set_size)) := by
  obtain ⟨masked, hmasked⟩ := call.masked_isSome cfg
  refine ⟨masked, hmasked, fun record hreach => ?_⟩
  have hserved : Served cfg masked record record.run.server := served_of_reachable hmasked hreach
  constructor
  · intro hstopped
    rw [hstopped] at hserved
    cases hserved
  -- Before the preprocessing there is nothing to bound.
  rcases hserved.session with h | ⟨oprf, oprf', set_size, requests, h, hfinished⟩
  · refine ⟨fun _ => ⟨h.sets, h.responses⟩, fun oprf set_size hprepared => ?_⟩
    rw [h.prepared] at hprepared
    cases hprepared
  · constructor
    · intro hnone
      rw [h.prepared] at hnone
      cases hnone
    · intro oprf₁ set_size₁ hprepared
      rw [h.prepared] at hprepared
      obtain ⟨rfl, rfl⟩ := Prod.mk.inj (Option.some.inj hprepared)
      obtain ⟨records, hall, hanswers⟩ := h.answers
      refine ⟨h.size_pos, h.size_le, ?_, ⟨record.calls, oprf', records, h.calls_sk, hall, hanswers, requests,
        h.requests_eq, h.calls_le, hfinished⟩, ?_⟩
      · rcases h.sets with ⟨hsets, hcalls⟩ | hsets
        · rw [hcalls] at hall
          obtain ⟨-, rfl⟩ := Prod.mk.inj (Option.some.inj hall)
          exact .inl ⟨hsets, hanswers⟩
        · exact .inr hsets
      · rw [hanswers]
        exact responsesOf_runs h.runs hall

theorem psi_server_bounded_one : ∃ masked, ServeCall.serve.masked oneElementConfig = some masked ∧
    ∀ record : ServedRun Permutations.identity (Stark.transparent Val),
      Reachable (ServedRun.Step oneElementConfig .serve) (.new _ _) record →
      record.run.server ≠ .stopped ∧
      ∀ oprf set_size, record.prepared = some (oprf, set_size) → set_size ≤ MAX_CLIENT_SET ∧
        ((record.responses.flatMap ResponseMessage.rows).map RowResponse.ctr).Sublist
          (List.range (tauFor set_size)) := by
  obtain ⟨masked, hmasked, h⟩ :=
    psi_server_bounded oneElementConfig (Stark.transparent Val) .serve
  refine ⟨masked, hmasked, fun record hreach => ?_⟩
  obtain ⟨hstopped, -, hsession⟩ := h record hreach
  refine ⟨hstopped, fun oprf set_size hprepared => ?_⟩
  obtain ⟨-, hle, -, -, hrows⟩ := hsession oprf set_size hprepared
  exact ⟨hle, hrows⟩

end PoolOprf
