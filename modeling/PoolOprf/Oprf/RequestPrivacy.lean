import PoolOprf.Lib.Pads
import PoolOprf.Oprf.RequestSpec

/-!
# What a request shows

`requestWithMasks` is `request_evaluation` of `pool-oprf/src/online.rs` with the masks and the
entries of its runs as arguments, in place of what the state expands
(`requestEvaluation_eq_withMasks`), so that they can be free. The server holds one mask of each
pair, and not the other nor the client's choice `b′` (`requestWithHidden`). In every `e_i` is the
sum of both masks, so the other mask is a pad for the input; `b̄′` has the masks that `b̄` picks,
which moving that pad changes, and `b′` is a pad for it. Both pads are moved at once by
`Pads.shear`, with `r_Σ` for the function (`request_hides_input`).
-/

namespace PoolOprf

open Panic

variable {S : Permutations}

/-- The masks of both blocks of each pair, for the runs of an evaluation. -/
abbrev RunMasks := Fin N → Fin 2 → Fin H_ROWS → Zq

/-- The `H_ROWS` base runs of Request for one evaluation, with the masks and the entries of its
runs. -/
def requestWithMasks (masks : RunMasks) (bhat : Fin N → UInt8) (r_c : Fin H_ROWS → RcEntry)
    (first_run : ℕ) (m : ZqMatrix) : Option (List RowRequest × List RowFinalizeState) := do
  let r_bhats ← fromFn fun i => index (masks i) (bhat i).toNat
  let r_not_bhats ← fromFn fun i => do
    let position ← if (bhat i).toNat ≤ 1 then some (1 - (bhat i).toNat) else none
    index (masks i) position
  let rows ← fromFn fun k : Fin H_ROWS => do
    let e ← fromFn fun i => do
      let sum ← checkedSum ACCUM
        [(m k i).toNat, (r_bhats i k).toNat, (r_not_bhats i k).toNat]
      some (reduceQ sum)
    let r_sigma_acc ← checkedSum ACCUM (List.ofFn fun i => (r_bhats i k).toNat)
    let ctr := first_run + k
    let r_sigma := reduceQ r_sigma_acc
    let b_bar_prime ← subDelta (reduceDelta r_sigma) (r_c k).b_prime
    some
      ((⟨e, b_bar_prime⟩ : RowRequest), (⟨ctr, r_sigma, (r_c k).r_prime⟩ : RowFinalizeState))
  some (List.ofFn fun k => (rows k).1, List.ofFn fun k => (rows k).2)

/-- An evaluation of a state is that with the masks that its blocks expand to. -/
theorem requestEvaluation_eq_withMasks (blake3 : Blake3) {state : ClientState S} {first_run : ℕ}
    (h : first_run + H_ROWS ≤ state.runs.tau) (m : ZqMatrix) :
    requestEvaluation blake3 state first_run m =
      requestWithMasks (fun i b => expand blake3 (state.ot_blocks i b) first_run) state.bhat
        (fun k => state.rcAt (first_run + k)) first_run m := by
  have hindex : ∀ (i : Fin N) (position : ℕ),
      (index (state.ot_blocks i) position).bind (fun ot_block =>
        some (expand blake3 ot_block first_run)) =
          index (fun b => expand blake3 (state.ot_blocks i b) first_run) position := by
    intro i position
    unfold index
    split_ifs <;> rfl
  -- The code expands the block that it picks, which is to pick from both blocks expanded.
  have hbhat : ∀ i, state.rBhat blake3 i first_run =
      index (fun b => expand blake3 (state.ot_blocks i b) first_run) (state.bhat i).toNat :=
    fun i => hindex i _
  have hnot : ∀ i, state.rNotBhat blake3 i first_run =
      index (fun b => expand blake3 (state.ot_blocks i b) first_run) (1 - (state.bhat i).toNat) := by
    intro i
    unfold ClientState.rNotBhat
    rw [if_pos (state.bhat_le i)]
    exact hindex i _
  have hrc : ∀ k : Fin H_ROWS, state.r_c[first_run + k.val]? = some (state.rcAt (first_run + k)) := by
    intro k
    have hk : k.val < 16 := k.isLt
    have hle : first_run + 16 ≤ state.runs.tau := h
    exact ClientState.r_c_getElem? (by omega)
  unfold requestEvaluation requestWithMasks
  simp only [hbhat, hnot, hrc, state.bhat_le, if_true, Option.bind_eq_bind, Option.bind_some]

/-! ## The classes of the rows -/

/-- The element of `ℤ_q` of a class. -/
def zqOf (x : ZMod Q) : Zq := UInt16.ofNat x.val

/-- The element of `ℤ_Δ` of a class. -/
def zdeltaOf (x : ZMod DELTA) : Zdelta := UInt8.ofNat x.val

theorem zqOf_natCast (x : ℕ) : zqOf x = reduceQ x := by
  unfold zqOf reduceQ
  rw [ZMod.val_natCast]

@[simp]
theorem zqOf_cast (x : ZMod Q) : ((zqOf x).toNat : ZMod Q) = x := by
  have hx : x = ((x.val : ℕ) : ZMod Q) := (ZMod.natCast_zmod_val x).symm
  rw [hx, zqOf_natCast, reduceQ_cast]

theorem zdeltaOf_natCast (x : ℕ) : zdeltaOf x = UInt8.ofNat (x % DELTA) := by
  unfold zdeltaOf
  rw [ZMod.val_natCast]

theorem zdeltaOf_lt (x : ZMod DELTA) : (zdeltaOf x).toNat < DELTA := by
  have hlt : x.val < DELTA := ZMod.val_lt x
  unfold zdeltaOf
  rw [ofNat_toNat_of_lt_delta hlt]
  exact hlt

@[simp]
theorem zdeltaOf_cast (x : ZMod DELTA) : ((zdeltaOf x).toNat : ZMod DELTA) = x := by
  have hlt : x.val < DELTA := ZMod.val_lt x
  unfold zdeltaOf
  rw [ofNat_toNat_of_lt_delta hlt, ZMod.natCast_zmod_val]

/-- The difference mod `Δ`, as a class. -/
theorem zdeltaOf_sub (x : ℕ) {y : ℕ} (hy : y < DELTA) :
    UInt8.ofNat ((x % DELTA + DELTA - y) % DELTA) = zdeltaOf ((x : ZMod DELTA) - y) := by
  have hle : y ≤ x % DELTA + DELTA := by omega
  have hclass : ((x % DELTA + DELTA - y : ℕ) : ZMod DELTA) = (x : ZMod DELTA) - y := by
    rw [Nat.cast_sub hle, Nat.cast_add, ZMod.natCast_mod, ZMod.natCast_self, add_zero]
  rw [← hclass, zdeltaOf_natCast]

/-! ## The value of an evaluation -/

section Value

variable (masks : RunMasks) (b_bar : Fin N → Bool)

/-- `r_Σ` of a run: the sum of the masks that `b̄` picks. -/
def rSigmaOf (k : Fin H_ROWS) : Zq := reduceQ (∑ i, (masks i (side (b_bar i)) k).toNat)

/-- The row of a request for a run with these masks. -/
def rowOf (r_c : Fin H_ROWS → RcEntry) (m : ZqMatrix) (k : Fin H_ROWS) : RowRequest where
  e i := zqOf (((m k i).toNat : ZMod Q) + (masks i (side (b_bar i)) k).toNat +
    (masks i (side !b_bar i) k).toNat)
  b_bar_prime := zdeltaOf (((rSigmaOf masks b_bar k).toNat : ZMod DELTA) - (r_c k).b_prime.toNat)

/-- The rows of a request are those of its runs, whatever the masks are. -/
theorem requestWithMasks_eq (r_c : Fin H_ROWS → RcEntry) (first_run : ℕ) (m : ZqMatrix) :
    requestWithMasks masks (fun i => (b_bar i).toUInt8) r_c first_run m =
      some (List.ofFn (rowOf masks b_bar r_c m),
        List.ofFn fun k => ⟨first_run + k, rSigmaOf masks b_bar k, (r_c k).r_prime⟩) := by
  have hbhat : (fromFn fun i => index (masks i) (b_bar i).toUInt8.toNat) =
      some fun i => masks i (side (b_bar i)) :=
    fromFn_eq_some_iff.mpr fun i => index_toUInt8 _ _
  have hnot : (fromFn fun i => do
      let position ← if (b_bar i).toUInt8.toNat ≤ 1 then some (1 - (b_bar i).toUInt8.toNat) else none
      index (masks i) position) = some fun i => masks i (side !b_bar i) := by
    refine fromFn_eq_some_iff.mpr fun i => ?_
    cases b_bar i <;> rfl
  have hrows : (fromFn fun k : Fin H_ROWS => do
      let e ← fromFn fun i => do
        let sum ← checkedSum ACCUM [(m k i).toNat, (masks i (side (b_bar i)) k).toNat,
          (masks i (side !b_bar i) k).toNat]
        some (reduceQ sum)
      let r_sigma_acc ← checkedSum ACCUM (List.ofFn fun i => (masks i (side (b_bar i)) k).toNat)
      let b_bar_prime ← subDelta (reduceDelta (reduceQ r_sigma_acc)) (r_c k).b_prime
      some ((⟨e, b_bar_prime⟩ : RowRequest),
        (⟨first_run + k, reduceQ r_sigma_acc, (r_c k).r_prime⟩ : RowFinalizeState))) =
      some fun k => (rowOf masks b_bar r_c m k,
        ⟨first_run + k, rSigmaOf masks b_bar k, (r_c k).r_prime⟩) := by
    refine fromFn_eq_some_iff.mpr fun k => ?_
    -- Neither accumulator overflows.
    have he : (fromFn fun i => (checkedSum ACCUM [(m k i).toNat,
        (masks i (side (b_bar i)) k).toNat, (masks i (side !b_bar i) k).toNat]).bind
          fun sum => some (reduceQ sum)) = some (rowOf masks b_bar r_c m k).e := by
      refine fromFn_eq_some_iff.mpr fun i => ?_
      have h₁ := (m k i).toNat_lt
      have h₂ := (masks i (side (b_bar i)) k).toNat_lt
      have h₃ := (masks i (side !b_bar i) k).toNat_lt
      have hlt : (m k i).toNat + ((masks i (side (b_bar i)) k).toNat +
          ((masks i (side !b_bar i) k).toNat + 0)) < 2 ^ 32 := by omega
      rw [checkedSum_of_lt (by simpa only [List.sum_cons, List.sum_nil] using hlt), Option.bind_some]
      simp only [List.sum_cons, List.sum_nil, Nat.add_zero, ← Nat.add_assoc]
      unfold rowOf
      rw [← zqOf_natCast, Nat.cast_add, Nat.cast_add]
    have hsum : checkedSum ACCUM (List.ofFn fun i => (masks i (side (b_bar i)) k).toNat) =
        some (∑ i, (masks i (side (b_bar i)) k).toNat) :=
      checkedSum_ofFn _ (2 ^ 16) (fun i => (masks i (side (b_bar i)) k).toNat_lt.le) (by norm_num)
    simp only [Option.bind_eq_bind]
    rw [he, hsum]
    simp only [Option.bind_some]
    rw [subDelta_of_lt (reduceDelta_lt _) (r_c k).b_prime_lt, Option.bind_some, reduceDelta_toNat,
      zdeltaOf_sub _ (r_c k).b_prime_lt]
    rfl
  unfold requestWithMasks
  rw [hbhat, hnot]
  simp only [Option.bind_eq_bind, Option.bind_some] at hrows ⊢
  rw [hrows]
  rfl

end Value

/-! ## What the server does not hold -/

/-- What the server does not hold of the runs of an evaluation: the other mask of each pair, in
`ℤ_q`, and the client's choices `b′`, in `ℤ_Δ`. -/
abbrev Hidden := (Fin N → Fin H_ROWS → ZMod Q) × (Fin H_ROWS → ZMod DELTA)

section Privacy

variable (b b_bar : Fin N → Bool) (known : Fin N → Fin H_ROWS → ZMod Q)

/-- All masks: the server's at its choice `b_i`, the other on the other side. -/
def masksOf (others : Fin N → Fin H_ROWS → ZMod Q) : RunMasks := fun i s k =>
  zqOf (if s = side (b i) then known i k else others i k)

/-- The client's entries: its choices, each with its pad. -/
def entriesOf (pads : Fin H_ROWS → Fin DELTA → Zp) (choices : Fin H_ROWS → ZMod DELTA) :
    Fin H_ROWS → RcEntry := fun k =>
  { b_prime := zdeltaOf (choices k)
    r_prime := pads k ⟨(choices k).val, ZMod.val_lt _⟩
    b_prime_lt := zdeltaOf_lt _ }

/-- Request for one evaluation, from what the server holds and what it does not. -/
def requestWithHidden (pads : Fin H_ROWS → Fin DELTA → Zp) (first_run : ℕ) (m : ZqMatrix)
    (hidden : Hidden) : Option (List RowRequest × List RowFinalizeState) :=
  requestWithMasks (masksOf b known hidden.1) (fun i => (b_bar i).toUInt8)
    (entriesOf pads hidden.2) first_run m

/-- Both masks of a pair, in either order, add up to the server's and the other. -/
theorem masksOf_add (others : Fin N → Fin H_ROWS → ZMod Q) (i : Fin N) (k : Fin H_ROWS) :
    ((masksOf b known others i (side (b_bar i)) k).toNat : ZMod Q) +
      (masksOf b known others i (side !b_bar i) k).toNat = known i k + others i k := by
  unfold masksOf
  rw [zqOf_cast, zqOf_cast]
  cases b i <;> cases b_bar i <;> simp [side, add_comm]

/-- `r_Σ mod Δ` of each run, as the other masks decide it. -/
def rSigmaClass (others : Fin N → Fin H_ROWS → ZMod Q) : Fin H_ROWS → ZMod DELTA :=
  fun k => ((rSigmaOf (masksOf b known others) b_bar k).toNat : ZMod DELTA)

/-- Each row as classes: the input padded with the other masks, `r_Σ` padded with the choice. -/
theorem rowOf_masksOf (pads : Fin H_ROWS → Fin DELTA → Zp) (m : ZqMatrix) (hidden : Hidden)
    (k : Fin H_ROWS) :
    rowOf (masksOf b known hidden.1) b_bar (entriesOf pads hidden.2) m k =
      { e := fun i => zqOf (((m k i).toNat : ZMod Q) + (known i k + hidden.1 i k))
        b_bar_prime := zdeltaOf (rSigmaClass b b_bar known hidden.1 k - hidden.2 k) } := by
  refine congrArg₂ RowRequest.mk (funext fun i => ?_) ?_
  · rw [add_assoc, masksOf_add]
  · unfold rSigmaClass entriesOf
    rw [zdeltaOf_cast]

/-- The difference of two inputs, which moves the other masks. -/
def matrixDifference (m m' : ZqMatrix) : Fin N → Fin H_ROWS → ZMod Q :=
  fun i k => ((m k i).toNat : ZMod Q) - (m' k i).toNat

/-- Moving what is hidden by the difference of two inputs, the rows stay. -/
theorem rowOf_shear (pads : Fin H_ROWS → Fin DELTA → Zp) (m m' : ZqMatrix) (hidden : Hidden) :
    rowOf (masksOf b known hidden.1) b_bar (entriesOf pads hidden.2) m =
      rowOf (masksOf b known (Pads.shear (matrixDifference m m') (rSigmaClass b b_bar known)
        hidden).1) b_bar (entriesOf pads (Pads.shear (matrixDifference m m')
          (rSigmaClass b b_bar known) hidden).2) m' := by
  funext k
  have hb := congrFun (Pads.shear_snd (matrixDifference m m') (rSigmaClass b b_bar known) hidden) k
  rw [Pi.sub_apply, Pi.sub_apply] at hb
  rw [rowOf_masksOf, rowOf_masksOf, hb]
  refine congrArg₂ RowRequest.mk (funext fun i => congrArg zqOf ?_) rfl
  rw [Pads.shear_fst]
  unfold matrixDifference
  rw [Pi.add_apply, Pi.add_apply]
  ring

end Privacy

/-- A request hides its input. Whatever the server holds (its choices and masks, and all pads) and
whatever `b̄` it sent, for every two inputs a bijection of what it does not hold makes their rows
the same: all `e` and all `b̄′`. So each list of rows comes from as many hidden values for one input
as for the other. And an evaluation of a state is one with the masks that its blocks expand to. -/
theorem request_hides_input (b b_bar : Fin N → Bool) (known : Fin N → Fin H_ROWS → ZMod Q)
    (pads : Fin H_ROWS → Fin DELTA → Zp) (first_run : ℕ) (m m' : ZqMatrix) :
    (∃ move : Equiv.Perm Hidden, ∀ hidden, ∃ rows fin fin',
      requestWithHidden b b_bar known pads first_run m hidden = some (rows, fin) ∧
      requestWithHidden b b_bar known pads first_run m' (move hidden) = some (rows, fin')) ∧
    (∀ rows : Option (List RowRequest),
      {hidden | (requestWithHidden b b_bar known pads first_run m hidden).map Prod.fst =
        rows}.ncard =
      {hidden | (requestWithHidden b b_bar known pads first_run m' hidden).map Prod.fst =
        rows}.ncard) ∧
    ∀ (blake3 : Blake3) (state : ClientState S) (run : ℕ), run + H_ROWS ≤ state.runs.tau →
      requestEvaluation blake3 state run m =
        requestWithMasks (fun i s => expand blake3 (state.ot_blocks i s) run) state.bhat
          (fun k => state.rcAt (run + k)) run m := by
  have hrows : ∀ (m : ZqMatrix) (hidden : Hidden), ∃ fin,
      requestWithHidden b b_bar known pads first_run m hidden =
        some (List.ofFn (rowOf (masksOf b known hidden.1) b_bar (entriesOf pads hidden.2) m), fin) :=
    fun m hidden => ⟨_, requestWithMasks_eq _ _ _ _ m⟩
  have hmove := rowOf_shear b b_bar known pads m m'
  refine ⟨⟨Pads.shear (matrixDifference m m') (rSigmaClass b b_bar known), fun hidden => ?_⟩, ?_,
    fun blake3 state run hle => requestEvaluation_eq_withMasks blake3 hle m⟩
  · -- The shear moves the masks by the difference of the two inputs' matrices, so the rows stay.
    obtain ⟨fin, hfin⟩ := hrows m hidden
    obtain ⟨fin', hfin'⟩ :=
      hrows m' (Pads.shear (matrixDifference m m') (rSigmaClass b b_bar known) hidden)
    rw [← hmove hidden] at hfin'
    exact ⟨_, fin, fin', hfin, hfin'⟩
  · -- A permutation carries the hidden values behind one request onto those behind the other.
    refine Pads.ncard_eq_of_perm (Pads.shear (matrixDifference m m')
      (rSigmaClass b b_bar known)) fun hidden => ?_
    obtain ⟨fin, hfin⟩ := hrows m hidden
    obtain ⟨fin', hfin'⟩ :=
      hrows m' (Pads.shear (matrixDifference m m') (rSigmaClass b b_bar known) hidden)
    rw [hfin, hfin', Option.map_some, Option.map_some, hmove hidden]

end PoolOprf
