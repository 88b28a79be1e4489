import PoolOprf.Oprf.Preprocessing

/-!
# What the preprocessing's checks accept

`PadChecked` is what the client checks of `d` in one run, and `MasksChecked` what the server checks
of `c` at one binary OT. `receivePadsCommitments_eq_ok` and `receiveMasksCommitments_eq_ok` say that
the loops over the messages check just that. `serverStatement_eq` is the statement that the server
proves, and it holds for its witness whenever the server's check passed, whoever made `c`
(`serverStatement_holds`).
-/

namespace PoolOprf

open Panic

variable {S : Permutations} {stark : Stark Val}

/-! ## The client's check -/

/-- What the client checks of `d` in one run. -/
def PadChecked (ots : ClientOts) (run : ℕ) (d : PadsCommitments S) : Prop :=
  ∃ choice ot_block, ots.choices[run]? = some choice ∧ ots.blocks[run]? = some ot_block ∧
    index d choice.1.toNat = some (padCommitment ot_block)

/-- The check of one evaluation is the check of each of its runs. -/
theorem checkPads_eq_ok (ots : ClientOts) :
    ∀ {message : PadsMessage S} {run : ℕ},
      checkPads stark ots run message = some (.ok ()) ↔
        ∀ (k : ℕ) d, message[k]? = some d → PadChecked ots (run + k) d
  | [], run => by simp [checkPads]
  | d :: ds, run => by
    have ih := @checkPads_eq_ok ots ds (run + 1)
    rw [checkPads]
    simp only [Option.bind_eq_bind, Option.bind_eq_some_iff]
    constructor
    · rintro ⟨choice, hchoice, ot_block, hblock, d_choice, hd, h⟩
      split_ifs at h with hne
      · simp at h
      rw [not_not.mp hne] at hd
      rintro (_ | k) d' hd'
      · obtain rfl := Option.some.inj hd'
        exact ⟨choice, ot_block, hchoice, hblock, hd⟩
      · rw [Nat.add_comm k 1, ← Nat.add_assoc]
        exact ih.mp h k d' hd'
    · intro h
      obtain ⟨choice, ot_block, hchoice, hblock, hd⟩ := h 0 d rfl
      refine ⟨choice, hchoice, ot_block, hblock, _, hd, ?_⟩
      rw [if_neg (not_not.mpr rfl)]
      refine ih.mpr fun k d' hd' => ?_
      rw [Nat.add_assoc, Nat.add_comm 1 k]
      exact h (k + 1) d' hd'

/-- What the client accepts as `d`: one for each run, each checked. -/
theorem receivePadsCommitments_eq_ok (ots : ClientOts) :
    ∀ {evaluations v : ℕ} {messages : List (PadsMessage S)} {d : List (PadsCommitments S)},
      receivePadsCommitments stark ots v evaluations messages = some (.ok d) →
      d.length = tauFor evaluations ∧
        ∀ (r : ℕ) d', d[r]? = some d' → PadChecked ots (v * RUNS_PER_EVALUATION + r) d'
  | 0, v, messages, d, h => by
    obtain rfl : [] = d := by simpa [receivePadsCommitments] using h
    exact ⟨rfl, fun r d' h => by simp at h⟩
  | evaluations + 1, v, [], d, h => by simp [receivePadsCommitments] at h
  | evaluations + 1, v, message :: messages, d, h => by
    rw [receivePadsCommitments] at h
    split_ifs at h with hlen
    · simp at h
    simp only [Option.bind_eq_bind, Option.bind_eq_some_iff] at h
    obtain ⟨checked, hchecked, h⟩ := h
    cases checked with
    | error error => simp at h
    | ok =>
      simp only [Option.bind_eq_some_iff] at h
      obtain ⟨rest, hrest, h⟩ := h
      cases rest with
      | error error => simp at h
      | ok d' =>
        obtain rfl : message ++ d' = d := by simpa using h
        obtain ⟨hd', hall⟩ := receivePadsCommitments_eq_ok ots hrest
        have hmessage : message.length = 16 := not_not.mp hlen
        -- A run of this evaluation, or one of the others, whose runs start 16 later.
        refine ⟨?_, fun r pads hr => ?_⟩
        · rw [List.length_append, hd', hmessage, tauFor_succ]
        · by_cases hlt : r < message.length
          · rw [List.getElem?_append_left hlt] at hr
            exact (checkPads_eq_ok ots).mp hchecked r pads hr
          · rw [List.getElem?_append_right (by omega), hmessage] at hr
            have hrun : v * RUNS_PER_EVALUATION + r =
                (v + 1) * RUNS_PER_EVALUATION + (r - 16) := by
              show v * 16 + r = (v + 1) * 16 + (r - 16)
              omega
            rw [hrun]
            exact hall (r - 16) pads hr

/-- Messages that the client accepts. -/
theorem receivePadsCommitments_of_checked (ots : ClientOts) :
    ∀ {messages : List (PadsMessage S)} {v : ℕ},
      (∀ message ∈ messages, message.length = RUNS_PER_EVALUATION) →
      (∀ (r : ℕ) d, messages.flatten[r]? = some d →
        PadChecked ots (v * RUNS_PER_EVALUATION + r) d) →
      receivePadsCommitments stark ots v messages.length messages =
        some (.ok messages.flatten)
  | [], v, _, _ => rfl
  | message :: messages, v, hlen, hchecked => by
    rw [List.forall_mem_cons] at hlen
    have hmessage : checkPads stark ots (v * RUNS_PER_EVALUATION) message =
        some (.ok ()) := (checkPads_eq_ok ots).mpr fun k d hd => by
      refine hchecked k d ?_
      rw [List.flatten_cons, List.getElem?_append_left (List.getElem?_eq_some_iff.mp hd).1]
      exact hd
    -- The runs of the others are those after the first message.
    have hrest := @receivePadsCommitments_of_checked ots messages (v + 1) hlen.2
      fun r d hd => by
        have hrun : (v + 1) * RUNS_PER_EVALUATION + r =
            v * RUNS_PER_EVALUATION + (message.length + r) := by
          rw [hlen.1]
          ring
        rw [hrun]
        refine hchecked (message.length + r) d ?_
        rw [List.flatten_cons, List.getElem?_append_right (Nat.le_add_right _ _),
          Nat.add_sub_cancel_left]
        exact hd
    rw [List.length_cons, receivePadsCommitments, if_neg (not_not.mpr hlen.1)]
    simp only [Option.bind_eq_bind, hmessage, Option.bind_some, hrest, List.flatten_cons]

/-! ## The server's check -/

/-- What the server checks of `c` at one binary OT: the commitment of its choice in each evaluation
from `v` on. -/
def MasksChecked (blake3 : Blake3) (entry : RsEntry) (i : Fin N) (v : ℕ)
    (cs : List (MasksCommitments S)) : Prop :=
  ∀ (n : ℕ) c_v, cs[n]? = some c_v →
    index (c_v i) entry.b.toNat = some (masksCommitment blake3 entry.ot_block (v + n))

/-- A choice is a side of its pair. -/
theorem RsEntry.index_isSome {α : Type} (entry : RsEntry) (pair : Fin 2 → α) :
    (index pair entry.b.toNat).isSome := by
  have hle := entry.b_le
  rw [index_of_lt pair (by omega)]
  rfl

theorem masksMatch_isSome (blake3 : Blake3) (r_s : Fin N → RsEntry) :
    ∀ (v : ℕ) (c : List (MasksCommitments S)), (masksMatch blake3 r_s v c).isSome
  | _, [] => rfl
  | v, c_v :: c => by
    refine and_isSome (allM_isSome fun i _ => ?_) fun _ => masksMatch_isSome blake3 r_s (v + 1) c
    obtain ⟨c_i, hc_i⟩ := Option.isSome_iff_exists.mp ((r_s i).index_isSome (c_v i))
    rw [hc_i]
    rfl

/-- The check of all evaluations is the check at each binary OT. -/
theorem masksMatch_eq_some_true (blake3 : Blake3) (r_s : Fin N → RsEntry) :
    ∀ (v : ℕ) (c : List (MasksCommitments S)), masksMatch blake3 r_s v c = some true ↔
      ∀ i, MasksChecked blake3 (r_s i) i v c
  | v, [] => by simp [masksMatch, MasksChecked]
  | v, c_v :: c => by
    rw [masksMatch, and_eq_some_true, allM_finRange_eq_some_true,
      masksMatch_eq_some_true blake3 r_s (v + 1) c, ← forall_and]
    refine forall_congr' fun i => ?_
    -- The choice is a bit, so the pair has the entry that is compared.
    have hfirst : ((index (c_v i) (r_s i).b.toNat).bind fun c_i =>
        some (c_i == masksCommitment blake3 (r_s i).ot_block v)) = some true ↔
          index (c_v i) (r_s i).b.toNat = some (masksCommitment blake3 (r_s i).ot_block v) := by
      obtain ⟨c_i, hc_i⟩ := Option.isSome_iff_exists.mp ((r_s i).index_isSome (c_v i))
      rw [hc_i]
      simp
    simp only [Option.bind_eq_bind]
    rw [hfirst]
    constructor
    · rintro ⟨hzero, hsucc⟩ (_ | n) c_n hn
      · obtain rfl := Option.some.inj hn
        exact hzero
      · rw [Nat.add_comm n 1, ← Nat.add_assoc]
        exact hsucc n c_n hn
    · intro h
      refine ⟨h 0 c_v rfl, fun n c_n hn => ?_⟩
      rw [Nat.add_assoc, Nat.add_comm 1 n]
      exact h (n + 1) c_n hn

theorem masksCommitments_length (blake3 : Blake3) (ot_blocks : Fin N → Fin 2 → Block)
    (evaluations : ℕ) : (masksCommitments (S := S) blake3 ot_blocks evaluations).length = evaluations := by
  unfold masksCommitments
  rw [List.length_map, List.length_range]

/-- The client's commitments of an evaluation. -/
theorem masksCommitments_getElem? {blake3 : Blake3} {ot_blocks : Fin N → Fin 2 → Block}
    {evaluations v : ℕ} {c_v : MasksCommitments S}
    (h : (masksCommitments blake3 ot_blocks evaluations)[v]? = some c_v) :
    c_v = fun i b => masksCommitment blake3 (ot_blocks i b) v := by
  rw [masksCommitments, List.getElem?_map] at h
  obtain ⟨v', hv', rfl⟩ := Option.map_eq_some_iff.mp h
  obtain ⟨hlt, rfl⟩ := List.getElem?_eq_some_iff.mp hv'
  rw [List.getElem_range]

/-- The commitments of a client that has the server's block in its pair pass the server's check. -/
theorem masksChecked_masksCommitments (blake3 : Blake3) {entry : RsEntry}
    {ot_blocks : Fin N → Fin 2 → Block} {i : Fin N}
    (h : index (ot_blocks i) entry.b.toNat = some entry.ot_block) (evaluations : ℕ) :
    MasksChecked (S := S) blake3 entry i 0 (masksCommitments blake3 ot_blocks evaluations) := by
  intro v c_v hc_v
  have hlt : entry.b.toNat < 2 := by
    have hle := entry.b_le
    omega
  rw [index_of_lt _ hlt] at h
  rw [masksCommitments_getElem? hc_v, index_of_lt _ hlt, ← Option.some.inj h, Nat.zero_add]

/-- What is read from the stream has the length that was asked for. -/
theorem readMasksCommitments_length {c : List (MasksCommitments S)} :
    ∀ {evaluations : ℕ} {messages : List (MasksMessage S)},
      readMasksCommitments stark evaluations messages = some (.ok c) → c.length = evaluations := by
  intro evaluations
  induction evaluations generalizing c with
  | zero =>
    intro messages h
    obtain rfl : [] = c := by simpa [readMasksCommitments] using h
    rfl
  | succ evaluations ih =>
    intro messages h
    cases messages with
    | nil => simp [readMasksCommitments] at h
    | cons message messages =>
      rw [readMasksCommitments] at h
      split_ifs at h
      · simp at h
      simp only [Option.bind_eq_bind, Option.bind_eq_some_iff] at h
      obtain ⟨c_v, -, rest, hrest, h⟩ := h
      cases rest with
      | error error => simp at h
      | ok c' =>
        obtain rfl : c_v :: c' = c := by simpa using h
        rw [List.length_cons, ih hrest]

/-- Reading does not stop. -/
theorem readMasksCommitments_isSome :
    ∀ (evaluations : ℕ) (messages : List (MasksMessage S)),
      (readMasksCommitments stark evaluations messages).isSome
  | 0, _ => rfl
  | _ + 1, [] => rfl
  | evaluations + 1, message :: messages => by
    rw [readMasksCommitments]
    split_ifs with hlen
    · rfl
    obtain ⟨result, hresult⟩ := Option.isSome_iff_exists.mp
      (readMasksCommitments_isSome evaluations messages)
    have hrow : (fromFn fun i : Fin N => message[i.val]?) =
        some fun i : Fin N => message.get ⟨i, by rw [not_not.mp hlen]; exact i.isLt⟩ :=
      fromFn_eq_some_iff.mpr fun i => List.getElem?_eq_getElem _
    simp only [Option.bind_eq_bind, hrow, Option.bind_some, hresult]
    cases result <;> rfl

/-- Well-formed messages are read as they are. -/
theorem readMasksCommitments_map (c : List (MasksCommitments S)) :
    readMasksCommitments stark c.length (c.map List.ofFn) = some (.ok c) := by
  induction c with
  | nil => rfl
  | cons c_v c ih =>
    have hrow : (fromFn fun i : Fin N => (List.ofFn c_v)[i.val]?) = some c_v :=
      fromFn_ofFn c_v
    rw [List.length_cons, List.map_cons, readMasksCommitments,
      if_neg (not_not.mpr List.length_ofFn)]
    simp only [Option.bind_eq_bind, hrow, Option.bind_some, ih]

/-- What the server accepts as `c`: one for each evaluation, checked at each binary OT. -/
theorem receiveMasksCommitments_eq_ok {blake3 : Blake3} {r_s : Fin N → RsEntry} {evaluations : ℕ}
    {messages : List (MasksMessage S)} {c : List (MasksCommitments S)} :
    receiveMasksCommitments stark blake3 r_s evaluations messages = some (.ok c) ↔
      readMasksCommitments stark evaluations messages = some (.ok c) ∧
        ∀ i, MasksChecked blake3 (r_s i) i 0 c := by
  unfold receiveMasksCommitments
  simp only [Option.bind_eq_bind, Option.bind_eq_some_iff]
  constructor
  · rintro ⟨result, hread, h⟩
    cases result with
    | error error => simp at h
    | ok c' =>
      simp only [Option.bind_eq_some_iff] at h
      obtain ⟨ok, hok, h⟩ := h
      cases ok with
      | false => simp at h
      | true =>
        obtain rfl : c' = c := by simpa using h
        exact ⟨hread, (masksMatch_eq_some_true blake3 r_s 0 c').mp hok⟩
  · rintro ⟨hread, hchecked⟩
    refine ⟨_, hread, ?_⟩
    simp only [(masksMatch_eq_some_true blake3 r_s 0 c).mpr hchecked, Option.bind_some, if_true]

/-- The server refuses `c` that it can read and that do not pass its check. -/
theorem receiveMasksCommitments_mismatch (blake3 : Blake3) (r_s : Fin N → RsEntry) {evaluations : ℕ}
    {messages : List (MasksMessage S)} {c : List (MasksCommitments S)}
    (hread : readMasksCommitments stark evaluations messages = some (.ok c))
    (h : ¬ ∀ i, MasksChecked blake3 (r_s i) i 0 c) :
    receiveMasksCommitments stark blake3 r_s evaluations messages =
      some (.error .MasksMismatch) := by
  obtain ⟨ok, hok⟩ := Option.isSome_iff_exists.mp (masksMatch_isSome blake3 r_s 0 c)
  have hfalse : ok = false := by
    rw [← masksMatch_eq_some_true blake3 r_s 0 c, hok] at h
    simpa using h
  unfold receiveMasksCommitments
  simp only [Option.bind_eq_bind, hread, Option.bind_some, hok, hfalse]
  rfl

/-- The server refuses `c` that it cannot read, whatever its choices are. -/
theorem receiveMasksCommitments_unread (blake3 : Blake3) (r_s : Fin N → RsEntry) {evaluations : ℕ}
    {messages : List (MasksMessage S)} {error : PreprocError stark}
    (hread : readMasksCommitments stark evaluations messages = some (.error error)) :
    receiveMasksCommitments stark blake3 r_s evaluations messages = some (.error error) := by
  unfold receiveMasksCommitments
  simp only [Option.bind_eq_bind, hread, Option.bind_some]

/-! ## What the server sends -/

/-- `d` of evaluation `v`. -/
def padsMessage (delta_ot_blocks : List (Fin DELTA → Block)) (v : ℕ) : PadsMessage S :=
  ((delta_ot_blocks.drop (v * RUNS_PER_EVALUATION)).take RUNS_PER_EVALUATION).map
    fun ot_blocks j => padCommitment (ot_blocks j)

/-- The server has the pads of every evaluation. -/
theorem padsCommitments_of_le {delta_ot_blocks : List (Fin DELTA → Block)} {evaluations : ℕ}
    (h : tauFor evaluations ≤ delta_ot_blocks.length) :
    padsCommitments (S := S) delta_ot_blocks evaluations =
      some ((List.range evaluations).map (padsMessage delta_ot_blocks)) := by
  refine mapM_eq_some_map fun v hv => ?_
  have hlt : v < evaluations := List.mem_range.mp hv
  have hle : (v + 1) * RUNS_PER_EVALUATION ≤ delta_ot_blocks.length :=
    (Nat.mul_le_mul_right _ hlt).trans h
  rw [if_pos hle]
  rfl

/-- And a server that has made `d` has them. -/
theorem tauFor_le_of_padsCommitments {delta_ot_blocks : List (Fin DELTA → Block)} {evaluations : ℕ}
    {d : List (PadsMessage S)} (h : padsCommitments delta_ot_blocks evaluations = some d) :
    tauFor evaluations ≤ delta_ot_blocks.length := by
  cases evaluations with
  | zero => rw [tauFor_zero]; exact Nat.zero_le _
  | succ v =>
    obtain ⟨message, hmessage⟩ := exists_of_mapM h v (List.mem_range.mpr (Nat.lt_succ_self v))
    by_contra hle
    have hshort : ¬ (v + 1) * RUNS_PER_EVALUATION ≤ delta_ot_blocks.length := hle
    rw [if_neg hshort] at hmessage
    cases hmessage

/-! ## The server's proof -/

/-- The server's masks of evaluation `v` and their sums, as the proof opens them. -/
def evaluationWitnessAt (blake3 : Blake3) (sk : SecretKey) (ots : ServerOts) (v : ℕ) :
    EvaluationWitness where
  masks i := expand blake3 (ots.r_s i).ot_block (firstRun v)
  r_sigma_sums k :=
    reduceQ (rSigmaNat sk fun i => expand blake3 (ots.r_s i).ot_block (firstRun v) k)
  m_randomness := maskSumRandomness blake3 (ots.delta_ot_blocks.getD (v * RUNS_PER_EVALUATION)
    fun _ _ => 0)

/-- The witness of the preprocessing. -/
def serverWitness (blake3 : Blake3) (sk : SecretKey) (ots : ServerOts) (evaluations : ℕ) :
    PreprocessingWitness where
  sk := sk
  ot_blocks i := randomness (ots.r_s i).ot_block
  evaluations := (List.range evaluations).map (evaluationWitnessAt blake3 sk ots)

/-- The statement of the preprocessing. -/
def provedStatement (blake3 : Blake3) (sk : SecretKey) (ots : ServerOts)
    (c : List (MasksCommitments S)) : Preprocessing S :=
  PreprocessingStatement.honest (serverWitness blake3 sk ots c.length)
    (maskedKeyBits sk ots.r_s) c

/-- The statement that the server proves, of evaluations whose runs exist. -/
theorem serverStatement_eq {ots : ServerOts} {c : List (MasksCommitments S)}
    (hle : tauFor c.length ≤ ots.delta_ot_blocks.length) (blake3 : Blake3) (sk : SecretKey) :
    serverStatement blake3 sk ots (maskedKeyBits sk ots.r_s) c =
      some (provedStatement blake3 sk ots c, serverWitness blake3 sk ots c.length) := by
  have hevaluations : ((List.range c.length).mapM fun v => do
      let ot_blocks ← ots.delta_ot_blocks[v * RUNS_PER_EVALUATION]?
      evaluationWitness blake3 sk ots.r_s v (maskSumRandomness blake3 ot_blocks)) =
        some ((List.range c.length).map (evaluationWitnessAt blake3 sk ots)) := by
    refine mapM_eq_some_map fun v hv => ?_
    have hlt : v < c.length := List.mem_range.mp hv
    have hrun : v * 16 < ots.delta_ot_blocks.length := by
      have hle' : c.length * 16 ≤ ots.delta_ot_blocks.length := hle
      omega
    have hsums : (fromFn fun k : Fin RUNS_PER_EVALUATION => rSigmaSum sk fun i =>
        expand blake3 (ots.r_s i).ot_block (firstRun v) k) =
          some (evaluationWitnessAt blake3 sk ots v).r_sigma_sums :=
      fromFn_eq_some_iff.mpr fun k => rSigmaSum_of_lt sk fun i => expand_lt blake3 _ _ k
    rw [List.getElem?_eq_getElem hrun]
    simp only [Option.bind_eq_bind, Option.bind_some, evaluationWitness]
    rw [hsums, Option.bind_some, evaluationWitnessAt, List.getD_eq_getElem _ _ hrun]
  unfold serverStatement
  simp only [Option.bind_eq_bind] at hevaluations ⊢
  rw [hevaluations]
  rfl

/-- A key bit and `b̄` cancel to the server's choice. -/
theorem maskedKeyBits_xor (sk : SecretKey) (r_s : Fin N → RsEntry) (i : Fin N) :
    maskedKeyBits sk r_s i ^^^ sk.bits i = (r_s i).b := by
  rw [maskedKeyBits, UInt8.xor_assoc, UInt8.xor_self, UInt8.xor_zero]

theorem maskedKeyBits_le (sk : SecretKey) (r_s : Fin N → RsEntry) (i : Fin N) :
    (maskedKeyBits sk r_s i).toNat ≤ 1 := by
  have hlt := xor_toNat_lt_two (r_s i).b_le (sk.binary i)
  rw [maskedKeyBits]
  omega

/-- Whoever made `c`: if it passes the server's check, the statement that the server proves holds
for its witness. -/
theorem serverStatement_holds {blake3 : Blake3} (sk : SecretKey) {ots : ServerOts}
    {c : List (MasksCommitments S)} (hne : c ≠ [])
    (hchecked : ∀ i, MasksChecked blake3 (ots.r_s i) i 0 c) :
    (provedStatement blake3 sk ots c).Holds (serverWitness blake3 sk ots c.length) := by
  have hlength : (serverWitness blake3 sk ots c.length).evaluations.length = c.length := by
    rw [serverWitness, List.length_map, List.length_range]
  refine ⟨rfl, fun hempty => hne ?_, ?_, fun pair hpair => ?_⟩
  · have hzero := congrArg List.length hempty
    rw [provedStatement, PreprocessingStatement.honest, List.length_zipWith, hlength, min_self] at hzero
    exact List.length_eq_zero_iff.mp hzero
  · rw [provedStatement, PreprocessingStatement.honest, List.length_zipWith, hlength, min_self]
  · -- The evaluation's place gives its commitments and its witness.
    obtain ⟨v, hv⟩ := List.mem_iff_getElem?.mp hpair
    obtain ⟨hstatement, hwitness⟩ := List.getElem?_zip_eq_some.mp hv
    obtain ⟨c_v, witness, hc_v, hwitness', hpair'⟩ := List.getElem?_zipWith_eq_some.mp hstatement
    obtain rfl : witness = pair.2 := Option.some.inj (hwitness'.symm.trans hwitness)
    rw [serverWitness, List.getElem?_map] at hwitness
    obtain ⟨v', hv', hwitness⟩ := Option.map_eq_some_iff.mp hwitness
    obtain ⟨hlt, rfl⟩ := List.getElem?_eq_some_iff.mp hv'
    rw [List.getElem_range] at hwitness
    rw [← hpair', ← hwitness]
    refine ⟨maskedKeyBits_le sk ots.r_s, fun i => ?_, fun i k => expand_lt blake3 _ _ k,
      fun k => rfl, rfl⟩
    have hopened := hchecked i v c_v hc_v
    rw [Nat.zero_add] at hopened
    change index (c_v i) (maskedKeyBits sk ots.r_s i ^^^ sk.bits i).toNat = _
    rw [maskedKeyBits_xor]
    exact hopened

/-- Proving the preprocessing hands Plonky3 a table that passes every rule. -/
theorem proveServer_eq (stark : Stark Val) {blake3 : Blake3} (coins : stark.Coins) (sk : SecretKey)
    {ots : ServerOts} {c : List (MasksCommitments S)} (hne : c ≠ [])
    (hle : tauFor c.length ≤ ots.delta_ot_blocks.length)
    (hchecked : ∀ i, MasksChecked blake3 (ots.r_s i) i 0 c) :
    ∃ table,
      (PreprocessingAir.air S (PreprocessingAir.new (provedStatement blake3 sk ots c))).Holds table
        (PreprocessingAir.new (provedStatement blake3 sk ots c)).public_values ∧
      proveServer blake3 coins sk ots (maskedKeyBits sk ots.r_s) c =
        some (((Plonky3.proved (stark.prove coins
          (PreprocessingAir.air S (PreprocessingAir.new (provedStatement blake3 sk ots c))) table
          (PreprocessingAir.new (provedStatement blake3 sk ots c)).public_values)).mapError
            PreprocError.Prove).map fun proof =>
              (⟨(provedStatement blake3 sk ots c).evaluations.map EvaluationStatement.m, proof⟩,
                ⟨ots.delta_ot_blocks⟩)) := by
  have hholds := PreprocessingStatement.holdsFor_eq_some_true.mpr
    (serverStatement_holds sk hne hchecked)
  rcases PreprocessingAir.prove_cases stark coins (provedStatement blake3 sk ots c)
    (serverWitness blake3 sk ots c.length) with ⟨hfalse, -⟩ | ⟨table, -, htable, hprove⟩
  · rw [hholds] at hfalse
    cases hfalse
  · refine ⟨table, htable, ?_⟩
    rw [proveServer, serverStatement_eq hle]
    simp only [Option.bind_eq_bind, Option.bind_some, hprove]
    cases Plonky3.proved (stark.prove coins
      (PreprocessingAir.air S (PreprocessingAir.new (provedStatement blake3 sk ots c))) table
      (PreprocessingAir.new (provedStatement blake3 sk ots c)).public_values) <;> rfl

end PoolOprf
