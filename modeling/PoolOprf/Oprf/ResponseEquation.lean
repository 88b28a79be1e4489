import PoolOprf.Oprf.BlindEvalSpec

/-!
# The response is the paper's

The paper's BlindEval adds up `r_i` where `sk_i = 0` and `e_i - r_i mod q` where `sk_i = 1`. The
code splits that sum in two, so that the half without `e` can be proved in the preprocessing.
`paperSum_eq` says that the two halves are the paper's sum, and `response_is_paper` that a row of a
response is the paper's, in the integers, for every request and not only for an honest one.
-/

namespace PoolOprf

open Panic

/-! ## The paper's row -/

/-- `a_Σ` of the paper. -/
def paperSum (sk : SecretKey) (r e : Fin N → Zq) : ℤ :=
  (∑ i, if sk.bits i = 0 then ((r i).toNat : ℤ) else ((e i).toNat - (r i).toNat : ℤ) % Q) % Q

/-- `n` is the nearest integer to `v / Δ`, the lower one on a tie. -/
def IsNearest (v n : ℤ) : Prop := 2 * (v - DELTA * n) ≤ DELTA ∧ -DELTA < 2 * (v - DELTA * n)

/-- `(j - b̄′) mod Δ`. -/
def paperPosition (j : Fin DELTA) (b_bar_prime : Zdelta) : Fin DELTA :=
  ⟨((j.val - b_bar_prime.toNat : ℤ) % DELTA).toNat, by
    change ((j.val - b_bar_prime.toNat : ℤ) % (16 : ℕ)).toNat < 16
    omega⟩

/-- `y_j` of the paper: `⌈(a_Σ - j) mod q⌋ + r′_{(j - b̄′) mod Δ} mod p`. -/
def PaperEntry (sk : SecretKey) (r e : Fin N → Zq) (pads : Fin DELTA → Zp) (b_bar_prime : Zdelta)
    (j : Fin DELTA) (y : Zp) : Prop :=
  ∃ n, IsNearest ((paperSum sk r e - j) % Q) n ∧
    (y.toNat : ℤ) = (n + (pads (paperPosition j b_bar_prime)).toNat) % P

/-! ## The code's row -/

/-- The nearest integer is one integer. -/
theorem IsNearest.unique {v n n' : ℤ} (h : IsNearest v n) (h' : IsNearest v n') : n = n' := by
  unfold IsNearest at h h'
  have hdelta : ((DELTA : ℕ) : ℤ) = 16 := rfl
  rw [hdelta] at h h'
  omega

theorem isNearest_nearest (v : ℕ) : IsNearest v (Lwr.nearest DELTA v) := by
  obtain ⟨hle, hlt⟩ := (Lwr.nearest_eq_iff (Δ := 16) (v := v) (by norm_num) (by norm_num)).mp rfl
  change 2 * ((v : ℤ) - (16 : ℕ) * (Lwr.nearest 16 v : ℕ)) ≤ (16 : ℕ) ∧
    -((16 : ℕ) : ℤ) < 2 * ((v : ℤ) - (16 : ℕ) * (Lwr.nearest 16 v : ℕ))
  constructor
  · push_cast
    omega
  · push_cast
    omega

/-- The two halves of the sum are the paper's. -/
theorem paperSum_eq (sk : SecretKey) {r : Fin N → Zq} (hr : ∀ i, (r i).toNat < Q)
    (e : Fin N → Zq) :
    ((reduceQ (aSigmaNat sk (reduceQ (rSigmaNat sk r)) e)).toNat : ℤ) = paperSum sk r e := by
  rw [reduceQ_toNat, Int.natCast_mod, paperSum, ← ZMod.intCast_eq_intCast_iff']
  rw [Int.cast_natCast, aSigmaNat_cast, reduceQ_cast, rSigmaNat_cast sk hr, ← Finset.sum_add_distrib,
    Int.cast_sum]
  refine Finset.sum_congr rfl fun i _ => ?_
  simp only [sk.bits_eq_zero_iff]
  cases sk.bit i with
  | false => simp
  | true =>
    rw [if_neg (by simp), ZMod.intCast_mod]
    push_cast
    rw [Lwr.bit_true]
    ring

theorem paperPosition_eq (j : Fin DELTA) {b_bar_prime : Zdelta} (hb : b_bar_prime.toNat < DELTA) :
    padPosition j b_bar_prime = paperPosition j b_bar_prime := by
  have hj : j.val < 16 := j.isLt
  have hb' : b_bar_prime.toNat < 16 := hb
  apply Fin.ext
  change (j.val + 16 - b_bar_prime.toNat) % 16 =
    ((j.val - b_bar_prime.toNat : ℤ) % (16 : ℕ)).toNat
  omega

/-- An entry of a response is the paper's. -/
theorem paperEntry_responseEntry (sk : SecretKey) {r : Fin N → Zq} (hr : ∀ i, (r i).toNat < Q)
    (e : Fin N → Zq) (pads : Fin DELTA → Zp) {b_bar_prime : Zdelta}
    (hb : b_bar_prime.toNat < DELTA) (j : Fin DELTA) :
    PaperEntry sk r e pads b_bar_prime j
      (responseEntry (reduceQ (aSigmaNat sk (reduceQ (rSigmaNat sk r)) e)) pads b_bar_prime j) := by
  have hsum := paperSum_eq sk hr e
  have hlt := reduceQ_lt (aSigmaNat sk (reduceQ (rSigmaNat sk r)) e)
  generalize reduceQ (aSigmaNat sk (reduceQ (rSigmaNat sk r)) e) = a at hsum hlt
  have hj : j.val < 16 := j.isLt
  -- The code adds `q` before it subtracts `j`, which the paper's integers do not need.
  have hdifference : (paperSum sk r e - j) % Q = ((a.toNat + Q - j) % Q : ℕ) := by
    rw [← hsum, Int.natCast_mod, Nat.cast_sub (by change j.val ≤ a.toNat + 4096; omega), Nat.cast_add]
    rw [← Int.add_mul_emod_self_right (a.toNat - j.val : ℤ) 1 Q]
    ring_nf
  refine ⟨Lwr.nearest DELTA ((a.toNat + Q - j) % Q), ?_, ?_⟩
  · rw [hdifference]
    exact isNearest_nearest _
  · rw [responseEntry, ← paperPosition_eq j hb, reduceP_toNat, reduceP_toNat, Int.natCast_mod,
      Nat.cast_add, Int.natCast_mod, Int.emod_add_emod]

/-- The split BlindEval is the paper's. For every key, masks, request, and pads, the functions of a
row do not stop, no accumulator overflows, and the row is the paper's; and so is each row that
BlindEval answers. -/
theorem response_is_paper (blake3 : Blake3) (sk : SecretKey) :
    (∀ (r e : Fin N → Zq) (pads : Fin DELTA → Zp) (b_bar_prime : Zdelta),
      (∀ i, (r i).toNat < Q) → b_bar_prime.toNat < DELTA →
      ∃ r_sigma_sum a_sigma_sum y, rSigmaSum sk r = some r_sigma_sum ∧
        aSigmaSum sk r_sigma_sum e = some a_sigma_sum ∧
        respond a_sigma_sum pads b_bar_prime = some y ∧
        ∀ j, PaperEntry sk r e pads b_bar_prime j (y j)) ∧
    ∀ (state : ServerState) (rows : Fin H_ROWS → RowRequest) (first_run : ℕ),
      (∀ k, (rows k).InRange) → first_run + H_ROWS ≤ state.runs.tau →
      ∃ (y : Fin H_ROWS → Fin DELTA → Zp) (r_sigma_sums : Fin H_ROWS → Zq),
        blindEvalOne blake3 state sk (List.ofFn rows) first_run =
          some (List.ofFn fun k : Fin H_ROWS => ⟨y k, first_run + k⟩, r_sigma_sums) ∧
        ∀ (k : Fin H_ROWS) pads, state.s_s[first_run + k.val]? = some pads → ∀ j,
          PaperEntry sk (fun i => state.r blake3 i first_run k) (rows k).e pads
            (rows k).b_bar_prime j (y k j) := by
  constructor
  · intro r e pads b_bar_prime hr hb
    exact ⟨_, _, _, rSigmaSum_of_lt sk hr, aSigmaSum_eq sk _ e,
      respond_of_lt pads (reduceQ_lt _) hb, paperEntry_responseEntry sk hr e pads hb⟩
  · intro state rows first_run hrows hle
    refine ⟨fun k => (state.rowResponse blake3 sk (rows k) (first_run + k)).y, _,
      (blindEvalOne_of_le blake3 sk hrows hle).trans (by rw [state.answers_ofFn]; rfl),
      fun k pads hpads j => ?_⟩
    have hk : k.val < 16 := k.isLt
    have hle' : first_run + 16 ≤ state.runs.tau := hle
    rw [ServerState.s_s_getElem? (by omega)] at hpads
    obtain rfl := Option.some.inj hpads
    have hentry := paperEntry_responseEntry sk
      (r := fun i => state.r blake3 i first_run k)
      (fun i => expand_lt blake3 _ first_run k) (rows k).e (state.padsAt (first_run + k))
      (hrows k).b_bar_prime j
    -- The mask that a run keeps is the one that its seed expands to.
    have hmask : (fun i => state.r blake3 i first_run k) = state.maskAt blake3 (first_run + k) :=
      funext fun i => expand_apply blake3 _ first_run k
    rw [hmask] at hentry ⊢
    exact hentry

end PoolOprf
