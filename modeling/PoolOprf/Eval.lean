import PoolOprf.Prf.Evaluate

/-!
# The server's equations

The equations of BlindEval in `pool-eval/src/lib.rs`. Each function stops (`none`) where the source
asserts or indexes out of bounds, and each has a lemma for the value that it returns when its
operands are reduced: `rSigmaSum_of_lt`, `aSigmaSum_eq`, `rounded_of_lt`, `pad_of_lt`, and
`respond_of_lt`, with the classes mod `q` of the two sums in `rSigmaNat_cast` and `aSigmaNat_cast`.
-/

namespace PoolOprf

open Panic

/-! ## The functions -/

/-- `r̃_Σ = Σ_i (1 - 2·sk_i)·r_{b_i, i} mod q`. -/
def rSigmaSum (sk : SecretKey) (masks : Fin N → Zq) : Option Zq := do
  let terms ← fromFn fun i => if sk.bits i = 0 then some (masks i) else subQ 0 (masks i)
  let sum ← checkedSum ACCUM (List.ofFn fun i => (terms i).toNat)
  some (reduceQ sum)

/-- `ã_Σ = Σ_i sk_i·e_i + r̃_Σ mod q`. -/
def aSigmaSum (sk : SecretKey) (r_sigma_sum : Zq) (e : Fin N → Zq) : Option Zq := do
  let sum ← checkedSum ACCUM (List.ofFn fun i => if sk.bits i = 0 then 0 else (e i).toNat)
  let total ← checkedSum ACCUM [sum, r_sigma_sum.toNat]
  some (reduceQ total)

/-- `⌈(ã_Σ - j) mod q⌋`, the rounded part of entry `j`. -/
def rounded (a_sigma_sum : Zq) (j : ℕ) : Option Zp := do
  let difference ← subQ a_sigma_sum (UInt16.ofNat j)
  roundZqToZp difference

/-- `r′_{(j - b̄′) mod Δ}`. -/
def pad (pads : Fin DELTA → Zp) (j : ℕ) (b_bar_prime : Zdelta) : Option Zp := do
  let position ← subDelta (UInt8.ofNat j) b_bar_prime
  index pads position.toNat

/-- The server's response: `y_j = ⌈(ã_Σ - j) mod q⌋ + r′_{(j - b̄′) mod Δ} mod p`. -/
def respond (a_sigma_sum : Zq) (pads : Fin DELTA → Zp) (b_bar_prime : Zdelta) :
    Option (Fin DELTA → Zp) :=
  fromFn fun j => do
    addP (← rounded a_sigma_sum j) (← pad pads j b_bar_prime)

/-! ## Their values -/

/-- The sum of the masks, before its reduction: a mask that is subtracted counts as `q` less it. -/
def rSigmaNat (sk : SecretKey) (masks : Fin N → Zq) : ℕ :=
  ∑ i, if sk.bit i then (Q - (masks i).toNat) % Q else (masks i).toNat

theorem rSigmaNat_cast (sk : SecretKey) {masks : Fin N → Zq} (h : ∀ i, (masks i).toNat < Q) :
    (rSigmaNat sk masks : ZMod Q) =
      ∑ i, (1 - 2 * Lwr.bit (sk.bit i)) * ((masks i).toNat : ZMod Q) := by
  unfold rSigmaNat
  rw [Nat.cast_sum]
  refine Finset.sum_congr rfl fun i _ => ?_
  cases sk.bit i
  · simp
  · rw [if_pos rfl, ZMod.natCast_mod, Nat.cast_sub (h i).le, ZMod.natCast_self]
    simp only [Lwr.bit_true]
    ring

/-- The sum of reduced masks fits its accumulator. -/
theorem rSigmaSum_of_lt (sk : SecretKey) {masks : Fin N → Zq} (h : ∀ i, (masks i).toNat < Q) :
    rSigmaSum sk masks = some (reduceQ (rSigmaNat sk masks)) := by
  let term : Fin N → Zq := fun i =>
    if sk.bit i then reduceQ (Q - (masks i).toNat) else masks i
  have hfrom : fromFn (fun i => if sk.bits i = 0 then some (masks i) else subQ 0 (masks i)) =
      some term := by
    refine fromFn_eq_some_iff.mpr fun i => ?_
    simp only [sk.bits_eq_zero_iff]
    rcases hbit : sk.bit i with _ | _
    · simp [term, hbit]
    · rw [if_neg (by simp), subQ_of_lt (by decide) (h i)]
      simp [term, hbit]
  have hterm : ∀ i, (term i).toNat =
      if sk.bit i then (Q - (masks i).toNat) % Q else (masks i).toNat := by
    intro i
    simp only [term]
    split_ifs <;> simp
  have hle : ∀ i, (term i).toNat ≤ Q := by
    intro i
    simp only [term]
    split_ifs
    · exact (reduceQ_lt _).le
    · exact (h i).le
  rw [rSigmaSum, hfrom, Option.bind_eq_bind, Option.bind_some,
    checkedSum_ofFn _ Q hle (by norm_num)]
  simp only [Option.bind_eq_bind, Option.bind_some, hterm]
  rfl

/-- `ã_Σ` before its reduction. -/
def aSigmaNat (sk : SecretKey) (r_sigma_sum : Zq) (e : Fin N → Zq) : ℕ :=
  innerSum e sk + r_sigma_sum.toNat

theorem aSigmaNat_cast {R : Type*} [CommRing R] (sk : SecretKey) (r_sigma_sum : Zq)
    (e : Fin N → Zq) :
    (aSigmaNat sk r_sigma_sum e : R) =
      ∑ i, Lwr.bit (sk.bit i) * ((e i).toNat : R) + (r_sigma_sum.toNat : R) := by
  rw [aSigmaNat, Nat.cast_add, innerSum_cast]

/-- The two accumulators of `ã_Σ` do not overflow, whatever the request. -/
theorem aSigmaSum_accum (sk : SecretKey) (r_sigma_sum : Zq) (e : Fin N → Zq) :
    ∃ first_sum sum,
      checkedSum ACCUM (List.ofFn fun i => if sk.bits i = 0 then 0 else (e i).toNat) =
        some first_sum ∧
      checkedSum ACCUM [first_sum, r_sigma_sum.toNat] = some sum ∧
      sum = aSigmaNat sk r_sigma_sum e := by
  have hterm : ∀ i, (if sk.bits i = 0 then 0 else (e i).toNat) =
      (e i).toNat * (sk.bits i).toNat := by
    intro i
    simp only [sk.bits_toNat, sk.bits_eq_zero_iff]
    cases sk.bit i <;> simp
  have hle : ∀ i, (e i).toNat * (sk.bits i).toNat ≤ 65535 := by
    intro i
    calc (e i).toNat * (sk.bits i).toNat ≤ (e i).toNat * 1 := Nat.mul_le_mul_left _ (sk.binary i)
      _ ≤ 65535 := by have := (e i).toNat_lt; omega
  have hsum : innerSum e sk ≤ N * 65535 := by
    calc innerSum e sk ≤ ∑ _i : Fin N, 65535 := Finset.sum_le_sum fun i _ => hle i
      _ = N * 65535 := by simp
  have hr := r_sigma_sum.toNat_lt
  have htotal : [innerSum e sk, r_sigma_sum.toNat].sum < ACCUM := by
    simp only [List.sum_cons, List.sum_nil]
    grind
  refine ⟨innerSum e sk, _, ?_, checkedSum_of_lt htotal, ?_⟩
  · simp only [hterm]
    exact checkedSum_ofFn _ 65535 hle (by norm_num)
  · simp [aSigmaNat]

/-- `ã_Σ` reduced mod `q`. -/
theorem aSigmaSum_eq (sk : SecretKey) (r_sigma_sum : Zq) (e : Fin N → Zq) :
    aSigmaSum sk r_sigma_sum e = some (reduceQ (aSigmaNat sk r_sigma_sum e)) := by
  obtain ⟨first_sum, sum, hfirst, hsum, rfl⟩ := aSigmaSum_accum sk r_sigma_sum e
  rw [aSigmaSum, hfirst, Option.bind_eq_bind, Option.bind_some, hsum]
  rfl

/-- Entry `j`'s rounded part. -/
theorem rounded_of_lt {a_sigma_sum : Zq} {j : ℕ} (ha : a_sigma_sum.toNat < Q) (hj : j < DELTA) :
    rounded a_sigma_sum j =
      some (reduceP (Lwr.nearest DELTA ((a_sigma_sum.toNat + Q - j) % Q))) := by
  have hjq : (UInt16.ofNat j).toNat = j := ofNat_toNat_zq_of_lt_delta hj
  rw [rounded, subQ_of_lt ha (by rw [hjq]; grind), Option.bind_eq_bind, Option.bind_some,
    roundZqToZp_of_lt (reduceQ_lt _), reduceQ_toNat, hjq]

/-- Position `(j - b̄′) mod Δ` of the pads. -/
def padPosition (j : Fin DELTA) (b_bar_prime : Zdelta) : Fin DELTA :=
  ⟨(j.val + DELTA - b_bar_prime.toNat) % DELTA, Nat.mod_lt _ (by norm_num)⟩

/-- Entry `j`'s pad. -/
theorem pad_of_lt (pads : Fin DELTA → Zp) (j : Fin DELTA) {b_bar_prime : Zdelta}
    (hb : b_bar_prime.toNat < DELTA) :
    pad pads j b_bar_prime = some (pads (padPosition j b_bar_prime)) := by
  have hj : (UInt8.ofNat j.val).toNat = j.val := ofNat_toNat_of_lt_delta j.isLt
  rw [pad, subDelta_of_lt (by rw [hj]; exact j.isLt) hb, Option.bind_eq_bind, Option.bind_some,
    ofNat_mod_delta_toNat, hj]
  exact index_val pads (padPosition j b_bar_prime)

/-- Entry `j` of a response. -/
def responseEntry (a_sigma_sum : Zq) (pads : Fin DELTA → Zp) (b_bar_prime : Zdelta)
    (j : Fin DELTA) : Zp :=
  reduceP ((reduceP (Lwr.nearest DELTA ((a_sigma_sum.toNat + Q - j) % Q))).toNat +
    (pads (padPosition j b_bar_prime)).toNat)

/-- A response does not stop when the sum is reduced mod `q` and `b̄′` mod `Δ`. -/
theorem respond_of_lt {a_sigma_sum : Zq} (pads : Fin DELTA → Zp) {b_bar_prime : Zdelta}
    (ha : a_sigma_sum.toNat < Q) (hb : b_bar_prime.toNat < DELTA) :
    respond a_sigma_sum pads b_bar_prime =
      some (responseEntry a_sigma_sum pads b_bar_prime) := by
  refine fromFn_eq_some_iff.mpr fun j => ?_
  rw [rounded_of_lt ha j.isLt, pad_of_lt pads j hb]
  simp [responseEntry]

end PoolOprf
