import PoolOprf.Oprf.PreprocessingSpec

/-!
# Selective failure

The client of a VOPRF checks only commitment `d^{v, k}_{b′^{v, k}}`, so a server that commits to
wrong pads at some positions learns that `b′^{v, k}` is none of them when the client goes on
(`docs/voprf.md`, known issues). Here is how much: `rightPads` are the positions of a run whose
commitment is right, and a client goes on exactly if the choice of every run is one of them; what it
does then does not depend on the choices (`selective_failure`). The choices that go on are a product
of sets, one for each run, so the server learns nothing of how the choices of different runs go
together, and their number is the product of the numbers of right positions: what is learnt by
chance `p` is `log (1 / p)` bits.
-/

namespace PoolOprf

open Panic

variable {S : Permutations} {stark : Stark Val} {tau : ℕ}

/-! ## The client's choices -/

/-- A client's part of the OTs if it chooses `c` and the server has these blocks. -/
def otsFor (ot_blocks : Fin N → Fin 2 → Block) (blocks : Fin tau → Fin DELTA → Block)
    (c : Fin tau → Fin DELTA) : ClientOts where
  ot_blocks := ot_blocks
  blocks := List.ofFn fun run => blocks run (c run)
  choices := List.ofFn fun run => ⟨UInt8.ofNat (c run), by
    rw [ofNat_toNat_of_lt_delta (c run).isLt]
    exact (c run).isLt⟩

theorem otsFor_ot_blocks (ot_blocks : Fin N → Fin 2 → Block) (blocks : Fin tau → Fin DELTA → Block)
    (c : Fin tau → Fin DELTA) : (otsFor ot_blocks blocks c).ot_blocks = ot_blocks := rfl

theorem rcEntries_otsFor_length (ot_blocks : Fin N → Fin 2 → Block)
    (blocks : Fin tau → Fin DELTA → Block) (c : Fin tau → Fin DELTA) :
    (rcEntries (otsFor ot_blocks blocks c)).length = tau := by
  simp [rcEntries, otsFor]

/-- The client's check of a run is the check of the commitment at its choice. -/
theorem padChecked_otsFor (ot_blocks : Fin N → Fin 2 → Block) (blocks : Fin tau → Fin DELTA → Block)
    (c : Fin tau → Fin DELTA) (run : Fin tau) (d : PadsCommitments S) :
    PadChecked (otsFor ot_blocks blocks c) run d ↔
      d (c run) = padCommitment (blocks run (c run)) := by
  have hindex : index d (UInt8.ofNat (c run)).toNat = some (d (c run)) := by
    rw [ofNat_toNat_of_lt_delta (c run).isLt]
    exact index_of_lt d (c run).isLt
  unfold PadChecked otsFor
  simp only [List.getElem?_ofFn, run.isLt, dite_true, Option.some.injEq, exists_eq_left', exists_and_left]
  rw [hindex, Option.some.injEq]

/-! ## What is read, and what is checked -/

/-- `d` of each evaluation as the stream has it. -/
def padsRead (stark : Stark Val) :
    ℕ → List (PadsMessage S) → Except (PreprocError stark) (List (PadsCommitments S))
  | 0, _ => .ok []
  | _ + 1, [] => .error .UnexpectedClose
  | evaluations + 1, message :: messages =>
    if message.length ≠ RUNS_PER_EVALUATION then .error (.Malformed "d has wrong length")
    else (padsRead stark evaluations messages).map (message ++ ·)

/-- The commitments of the runs before one that cannot be read. -/
def padsSeen : ℕ → List (PadsMessage S) → List (PadsCommitments S)
  | 0, _ => []
  | _ + 1, [] => []
  | evaluations + 1, message :: messages =>
    if message.length ≠ RUNS_PER_EVALUATION then [] else message ++ padsSeen evaluations messages

theorem padsSeen_length_le :
    ∀ (evaluations : ℕ) (messages : List (PadsMessage S)),
      (padsSeen evaluations messages).length ≤ tauFor evaluations
  | 0, _ => Nat.zero_le _
  | _ + 1, [] => Nat.zero_le _
  | evaluations + 1, message :: messages => by
    have ih := padsSeen_length_le evaluations messages
    rw [padsSeen]
    by_cases hlen : message.length ≠ RUNS_PER_EVALUATION
    · rw [if_pos hlen]
      exact Nat.zero_le _
    · rw [if_neg hlen, List.length_append, not_not.mp hlen, tauFor_succ]
      exact Nat.add_le_add_left ih _

/-- The check of one evaluation passes or fails, if the client has the runs. -/
theorem checkPads_cases (stark : Stark Val) {ots : ClientOts} (hchoices : tau ≤ ots.choices.length)
    (hblocks : tau ≤ ots.blocks.length) :
    ∀ {message : PadsMessage S} {run : ℕ}, run + message.length ≤ tau →
      checkPads stark ots run message = some (.ok ()) ∨
        checkPads stark ots run message = some (.error .PadsMismatch)
  | [], _, _ => .inl rfl
  | d :: ds, run, hle => by
    rw [List.length_cons] at hle
    have hlt : run < ots.choices.length := by omega
    have hchoice := List.getElem?_eq_getElem hlt
    have hblock := List.getElem?_eq_getElem (show run < ots.blocks.length by omega)
    have hindex := index_of_lt d ots.choices[run].2
    rw [checkPads, hchoice, hblock]
    simp only [Option.bind_eq_bind, Option.bind_some, hindex]
    split_ifs with hne
    · exact .inr rfl
    · exact checkPads_cases stark hchoices hblocks (by omega)

/-- Receiving `d` checks the runs before one that cannot be read, and reads. -/
theorem receivePadsCommitments_eq (stark : Stark Val) {ots : ClientOts}
    (hchoices : tau ≤ ots.choices.length) (hblocks : tau ≤ ots.blocks.length) :
    ∀ (evaluations v : ℕ) (messages : List (PadsMessage S)), tauFor (v + evaluations) ≤ tau →
      ((∀ (k : ℕ) d, (padsSeen evaluations messages)[k]? = some d → PadChecked ots (firstRun v + k) d) →
        receivePadsCommitments stark ots v evaluations messages =
          some (padsRead stark evaluations messages)) ∧
      ((¬ ∀ (k : ℕ) d, (padsSeen evaluations messages)[k]? = some d →
          PadChecked ots (firstRun v + k) d) →
        receivePadsCommitments stark ots v evaluations messages = some (.error .PadsMismatch))
  | 0, _, _, _ => ⟨fun _ => rfl, fun h => absurd (fun k d hd => by simp [padsSeen] at hd) h⟩
  | _ + 1, _, [], _ => ⟨fun _ => rfl, fun h => absurd (fun k d hd => by simp [padsSeen] at hd) h⟩
  | evaluations + 1, v, message :: messages, hle => by
    rw [receivePadsCommitments, padsRead, padsSeen]
    by_cases hlen : message.length ≠ RUNS_PER_EVALUATION
    · rw [if_pos hlen, if_pos hlen, if_pos hlen]
      exact ⟨fun _ => rfl, fun h => absurd (fun k d hd => by simp at hd) h⟩
    rw [if_neg hlen, if_neg hlen, if_neg hlen]
    have hmessage : message.length = 16 := not_not.mp hlen
    have hnext : v + 1 + evaluations = v + (evaluations + 1) := by ring
    obtain ⟨hpass, hfail⟩ := receivePadsCommitments_eq stark hchoices hblocks evaluations (v + 1)
      messages (by rw [hnext]; exact hle)
    have hrun : ∀ k, firstRun (v + 1) + k = firstRun v + (message.length + k) := by
      intro k
      rw [hmessage, firstRun, firstRun]
      ring
    -- The runs of this evaluation, and those of the others.
    have hsplit : (∀ (k : ℕ) d, (message ++ padsSeen evaluations messages)[k]? = some d →
        PadChecked ots (firstRun v + k) d) ↔
          (∀ (k : ℕ) d, message[k]? = some d → PadChecked ots (firstRun v + k) d) ∧
          ∀ (k : ℕ) d, (padsSeen evaluations messages)[k]? = some d →
            PadChecked ots (firstRun (v + 1) + k) d := by
      constructor
      · intro h
        constructor
        · intro k d hd
          refine h k d ?_
          rw [List.getElem?_append_left (List.getElem?_eq_some_iff.mp hd).1]
          exact hd
        · intro k d hd
          rw [hrun]
          refine h (message.length + k) d ?_
          rw [List.getElem?_append_right (Nat.le_add_right _ _), Nat.add_sub_cancel_left]
          exact hd
      · rintro ⟨hhere, hothers⟩ k d hd
        by_cases hk : k < message.length
        · rw [List.getElem?_append_left hk] at hd
          exact hhere k d hd
        · rw [List.getElem?_append_right (by omega)] at hd
          have hindex : message.length + (k - message.length) = k := by omega
          rw [← hindex, ← hrun]
          exact hothers _ d hd
    have hbound : firstRun v + message.length ≤ tau := by
      refine le_trans ?_ hle
      rw [hmessage, firstRun, tauFor]
      change v * 16 + 16 ≤ (v + (evaluations + 1)) * 16
      omega
    rw [hsplit]
    -- The first evaluation decides if its own check fails; otherwise the others do.
    rcases checkPads_cases stark hchoices hblocks hbound with hok | herror
    · have hhere := (checkPads_eq_ok ots).mp hok
      constructor
      · rintro ⟨-, hothers⟩
        have hrest := hpass hothers
        rw [firstRun] at hok
        simp only [Option.bind_eq_bind, hok, Option.bind_some, hrest]
        cases padsRead stark evaluations messages <;> rfl
      · intro h
        have hrest := hfail fun hothers => h ⟨hhere, hothers⟩
        rw [firstRun] at hok
        simp only [Option.bind_eq_bind, hok, Option.bind_some, hrest]
    · have hnot : ¬ ∀ (k : ℕ) d, message[k]? = some d → PadChecked ots (firstRun v + k) d := by
        intro hhere
        rw [(checkPads_eq_ok ots).mpr hhere] at herror
        cases herror
      rw [firstRun] at herror
      simp only [Option.bind_eq_bind, herror, Option.bind_some]
      exact ⟨fun h => absurd h.1 hnot, fun _ => trivial⟩

/-! ## What the server learns -/

/-- The positions of a run whose commitment is right: all, if no commitments of it are read. -/
def rightPads (blocks : Fin tau → Fin DELTA → Block) (seen : List (PadsCommitments S)) (run : Fin tau) :
    Finset (Fin DELTA) :=
  match seen[run.val]? with
  | some d => Finset.univ.filter fun j => d j = padCommitment (blocks run j)
  | none => Finset.univ

/-- The checks of a VOPRF client before it reads `d`. -/
def beforePads (stark : Stark Val) (tau : ℕ) (echoed : Option (List UInt8)) :
    Except (PreprocError stark) Unit :=
  if tau = 0 then .error .ZeroTau
  else if evaluationsFor tau = 0 then .error (.VoprfTauTooSmall tau)
  else
    match echoed with
    | none => .error .UnexpectedClose
    | some echoed =>
      match decodeTau stark echoed with
      | .error error => .error error
      | .ok theirs => if theirs ≠ tau then .error (.TauMismatch tau theirs) else .ok ()

/-- How a preprocessing of the client ends: what the server can see of it. -/
def shownBy (result : Option (Except (PreprocError stark) (ClientState S))) :
    Option (Except (PreprocError stark) Unit) :=
  result.map (Except.map fun _ => ())

theorem shownBy_bind_congr {α : Type} (x : Option α)
    {f g : α → Option (Except (PreprocError stark) (ClientState S))}
    (h : ∀ a, shownBy (f a) = shownBy (g a)) : shownBy (x.bind f) = shownBy (x.bind g) := by
  cases x with
  | none => rfl
  | some a => exact h a

theorem shownBy_bind_ne {α : Type} (x : Option α)
    {f : α → Option (Except (PreprocError stark) (ClientState S))} {error : PreprocError stark}
    (h : ∀ a, shownBy (f a) ≠ some (.error error)) : shownBy (x.bind f) ≠ some (.error error) := by
  cases x with
  | none => exact fun hnone => by cases hnone
  | some a => exact h a

/-- The choices that pass the check are those of right positions. -/
theorem forall_padChecked_iff (ot_blocks : Fin N → Fin 2 → Block) (blocks : Fin tau → Fin DELTA → Block)
    (c : Fin tau → Fin DELTA) {seen : List (PadsCommitments S)} (hseen : seen.length ≤ tau) :
    (∀ (k : ℕ) d, seen[k]? = some d → PadChecked (otsFor ot_blocks blocks c) k d) ↔
      ∀ run, c run ∈ rightPads blocks seen run := by
  constructor
  · intro h run
    unfold rightPads
    cases hd : seen[run.val]? with
    | none => exact Finset.mem_univ _
    | some d =>
      refine Finset.mem_filter.mpr ⟨Finset.mem_univ _, ?_⟩
      exact (padChecked_otsFor ot_blocks blocks c run d).mp (h run d hd)
  · intro h k d hd
    have hk : k < tau := (List.getElem?_eq_some_iff.mp hd).1.trans_le hseen
    have hright := h ⟨k, hk⟩
    unfold rightPads at hright
    rw [hd] at hright
    exact (padChecked_otsFor ot_blocks blocks c ⟨k, hk⟩ d).mpr (Finset.mem_filter.mp hright).2

/-- Whether a state can be built does not depend on its entries. -/
theorem ClientState.new_shown (ot_blocks : Fin N → Fin 2 → Block) (bhat : Fin N → UInt8)
    {r_c r_c' : List RcEntry} (h : r_c'.length = r_c.length) (uid : Uid)
    (voprf : Option (ClientVoprf S)) :
    (ClientState.new ot_blocks bhat r_c' uid voprf).map (fun _ => ()) =
      (ClientState.new ot_blocks bhat r_c uid voprf).map fun _ => () := by
  unfold ClientState.new
  simp only [h]
  split_ifs <;> rfl

/-- What is left of the client's preprocessing after `d`, from what is read of it. -/
def afterPads (blake3 : Blake3) (pk : VerifiedKey S) (tau : ℕ) (uid : Uid) (ots : ClientOts)
    (received : ServerMessages S stark) :
    Except (PreprocError stark) (List (PadsCommitments S)) →
      Option (Except (PreprocError stark) (ClientState S))
  | .error error => some (.error error)
  | .ok d =>
    match received.bhat with
    | none => some (.error .UnexpectedClose)
    | some bhat =>
    if bhat.length ≠ N then some (.error (.Malformed "b_hat has wrong length"))
    else if ¬ bhat.all (fun b => b.toNat ≤ 1) then
      some (.error (.Malformed "b_hat entries must be bits"))
    else do
      let b_bar ← fromFn fun i : Fin N => bhat[i.val]?
      match finish pk (masksCommitments blake3 ots.ot_blocks (evaluationsFor tau)) d b_bar
        received.proof with
      | .error error => some (.error error)
      | .ok voprf => do
        some (.ok (← ClientState.new ots.ot_blocks b_bar (rcEntries ots) uid (some voprf)))

/-- The client's preprocessing: the opening, `d`, and what is after it. -/
theorem preprocClientVoprf_eq (blake3 : Blake3) (pk : VerifiedKey S) (tau : ℕ) (uid : Uid)
    (ots : ClientOts) (received : ServerMessages S stark) :
    preprocClientVoprf blake3 pk tau uid ots received =
      match beforePads stark tau received.echoed with
      | .error error => some (.error error)
      | .ok () => (receivePadsCommitments stark ots 0 (evaluationsFor tau) received.pads).bind
          (afterPads blake3 pk tau uid ots received) := by
  unfold preprocClientVoprf preprocClientWith beforePads
  by_cases hzero : tau = 0
  · rw [if_pos hzero, if_pos hzero]
  rw [if_neg hzero, if_neg hzero]
  by_cases hsmall : evaluationsFor tau = 0
  · rw [if_pos hsmall, if_pos ⟨rfl, hsmall⟩]
  rw [if_neg hsmall, if_neg (fun h => hsmall h.2)]
  cases received.echoed with
  | none => rfl
  | some echoed =>
    dsimp only
    cases decodeTau stark echoed with
    | error error => rfl
    | ok theirs =>
      dsimp only
      by_cases htau : theirs ≠ tau
      · rw [if_pos htau, if_pos htau]
      rw [if_neg htau, if_neg htau]
      -- The opening does not read the OTs; the pads are the first that do.
      refine congrArg (Option.bind _) (funext fun pads => ?_)
      cases pads with
      | error error => rfl
      | ok d => rfl

/-- What is left shows nothing of the client's choices. -/
theorem afterPads_shown (blake3 : Blake3) (pk : VerifiedKey S) (tau : ℕ) (uid : Uid) {ots ots' : ClientOts}
    (hpairs : ots'.ot_blocks = ots.ot_blocks)
    (hlen : (rcEntries ots').length = (rcEntries ots).length) (received : ServerMessages S stark)
    (d : Except (PreprocError stark) (List (PadsCommitments S))) :
    shownBy (afterPads blake3 pk tau uid ots' received d) =
      shownBy (afterPads blake3 pk tau uid ots received d) := by
  -- After the pads the choices go into the entries of the state only, and of these the length is
  -- all that is asked.
  cases d with
  | error error => rfl
  | ok d =>
    unfold afterPads
    rw [hpairs]
    cases received.bhat with
    | none => rfl
    | some bhat =>
      dsimp only
      by_cases hlength : bhat.length ≠ N
      · rw [if_pos hlength, if_pos hlength]
      rw [if_neg hlength, if_neg hlength]
      by_cases hbits : ¬ bhat.all (fun b => b.toNat ≤ 1)
      · rw [if_pos hbits, if_pos hbits]
      rw [if_neg hbits, if_neg hbits]
      refine shownBy_bind_congr _ fun b_bar => ?_
      cases finish pk (masksCommitments blake3 ots.ot_blocks (evaluationsFor tau)) d b_bar
          received.proof with
      | error error => rfl
      | ok voprf =>
        have hnew := ClientState.new_shown ots.ot_blocks b_bar hlen uid (some voprf)
        dsimp only
        generalize ClientState.new ots.ot_blocks b_bar (rcEntries ots') uid (some voprf) = state at hnew ⊢
        generalize ClientState.new ots.ot_blocks b_bar (rcEntries ots) uid (some voprf) = state' at hnew ⊢
        cases state with
        | none =>
          cases state' with
          | none => rfl
          | some _ => cases hnew
        | some _ =>
          cases state' with
          | none => cases hnew
          | some _ => rfl

/-- Reading `d` does not fail as its check does. -/
theorem padsRead_ne (stark : Stark Val) :
    ∀ (evaluations : ℕ) (messages : List (PadsMessage S)),
      padsRead stark evaluations messages ≠ .error .PadsMismatch
  | 0, _ => fun h => by cases h
  | _ + 1, [] => fun h => by cases h
  | evaluations + 1, message :: messages => by
    have ih := padsRead_ne stark evaluations messages
    rw [padsRead]
    by_cases hlen : message.length ≠ RUNS_PER_EVALUATION
    · rw [if_pos hlen]
      exact fun h => by cases h
    · rw [if_neg hlen]
      cases hread : padsRead stark evaluations messages with
      | error error =>
        rw [hread] at ih
        exact fun h => ih (by rw [Except.error.inj h])
      | ok d => exact fun h => by cases h

/-- Nor does the check of the proof. -/
theorem finish_ne {pk : VerifiedKey S} {c : List (MasksCommitments S)} {d : List (PadsCommitments S)}
    {b_bar : Fin N → UInt8} {proof : Option (PreprocessingProof S stark)} :
    finish pk c d b_bar proof ≠ .error .PadsMismatch := by
  cases proof with
  | none => exact fun h => by cases h
  | some message =>
    unfold finish
    dsimp only
    split_ifs
    · exact fun h => by cases h
    · cases PreprocessingAir.verify stark (clientStatement pk b_bar c message.m) message.proof with
      | error error => exact fun h => by cases h
      | ok => exact fun h => by cases h

/-- Nor does what is left. -/
theorem afterPads_ne (blake3 : Blake3) (pk : VerifiedKey S) (tau : ℕ) (uid : Uid) (ots : ClientOts)
    (received : ServerMessages S stark) {d : Except (PreprocError stark) (List (PadsCommitments S))}
    (hd : d ≠ .error .PadsMismatch) :
    shownBy (afterPads blake3 pk tau uid ots received d) ≠ some (.error .PadsMismatch) := by
  cases d with
  | error error =>
    intro h
    exact hd (by rw [Except.error.inj (Option.some.inj h)])
  | ok d =>
    unfold afterPads
    cases received.bhat with
    | none => exact fun h => by cases h
    | some bhat =>
      dsimp only
      by_cases hlength : bhat.length ≠ N
      · rw [if_pos hlength]
        exact fun h => by cases h
      rw [if_neg hlength]
      by_cases hbits : ¬ bhat.all (fun b => b.toNat ≤ 1)
      · rw [if_pos hbits]
        exact fun h => by cases h
      rw [if_neg hbits]
      refine shownBy_bind_ne _ fun b_bar => ?_
      -- The only `PadsMismatch` is that of the check of the pads.
      cases hfinish : finish pk (masksCommitments blake3 ots.ot_blocks (evaluationsFor tau)) d b_bar
          received.proof with
      | error error =>
        intro h
        obtain rfl := Except.error.inj (Option.some.inj h)
        exact finish_ne hfinish
      | ok voprf => exact shownBy_bind_ne _ fun state h => by cases h

/-- A cheating server and the choices `b′` of a VOPRF client. Whatever it sends, a preprocessing
that gets to the commitments `d` goes on exactly if every choice is a position whose commitment is
right, and stops with `PadsMismatch` otherwise; how it goes on is the same for all choices. So what
the server learns is that each choice is one of those positions, and as many choices go on as the
product of the numbers of them. -/
theorem selective_failure (blake3 : Blake3) (pk : VerifiedKey S) (tau : ℕ) (uid : Uid)
    (ot_blocks : Fin N → Fin 2 → Block) (blocks : Fin tau → Fin DELTA → Block)
    (received : ServerMessages S stark) :
    let right := rightPads blocks (padsSeen (evaluationsFor tau) received.pads)
    (∃ goesOn, goesOn ≠ some (.error .PadsMismatch) ∧ ∀ c : Fin tau → Fin DELTA,
      shownBy (preprocClientVoprf blake3 pk tau uid (otsFor ot_blocks blocks c) received) =
        match beforePads stark tau received.echoed with
        | .error error => some (.error error)
        | .ok () =>
          if ∀ run, c run ∈ right run then goesOn else some (.error .PadsMismatch)) ∧
    {c : Fin tau → Fin DELTA | ∀ run, c run ∈ right run}.ncard = ∏ run, (right run).card := by
  intro right
  have hseen : (padsSeen (evaluationsFor tau) received.pads).length ≤ tau :=
    (padsSeen_length_le _ _).trans (tauFor_evaluationsFor_le tau)
  constructor
  -- What the client does when it goes on is the same for all choices, so any will do.
  · refine ⟨shownBy (afterPads blake3 pk tau uid (otsFor ot_blocks blocks fun _ => 0) received
      (padsRead stark (evaluationsFor tau) received.pads)),
      afterPads_ne blake3 pk tau uid _ received (padsRead_ne stark _ _), fun c => ?_⟩
    rw [preprocClientVoprf_eq]
    cases beforePads stark tau received.echoed with
    | error error => rfl
    | ok =>
      dsimp only
      have hchoices : tau ≤ (otsFor ot_blocks blocks c).choices.length := List.length_ofFn.ge
      have hblocks : tau ≤ (otsFor ot_blocks blocks c).blocks.length := List.length_ofFn.ge
      obtain ⟨hpass, hfail⟩ := receivePadsCommitments_eq stark hchoices hblocks (evaluationsFor tau) 0
        received.pads (by rw [Nat.zero_add]; exact tauFor_evaluationsFor_le tau)
      have hfirst : firstRun 0 = 0 := Nat.zero_mul _
      simp only [hfirst, Nat.zero_add, forall_padChecked_iff ot_blocks blocks c hseen] at hpass hfail
      by_cases hright : ∀ run, c run ∈ right run
      · rw [if_pos hright, hpass hright, Option.bind_some]
        refine afterPads_shown blake3 pk tau uid ?_ ?_ received _
        · rw [otsFor_ot_blocks, otsFor_ot_blocks]
        · rw [rcEntries_otsFor_length, rcEntries_otsFor_length]
      · rw [if_neg hright, hfail hright]
        rfl
  · -- The choices are those of a product of sets.
    have hset : {c : Fin tau → Fin DELTA | ∀ run, c run ∈ right run} = ↑(Fintype.piFinset right) := by
      ext c
      rw [Set.mem_ofPred_eq, Finset.mem_coe, Fintype.mem_piFinset]
    rw [hset, Set.ncard_coe_finset, Fintype.card_piFinset]

end PoolOprf
