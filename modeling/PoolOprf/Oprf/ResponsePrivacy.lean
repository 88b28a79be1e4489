import PoolOprf.Eval
import PoolOprf.Lib.Pads

/-!
# What a row of a response shows

An entry of a response is a rounded part with a pad, and `j ↦ (j - b̄′) mod Δ` permutes the pads
(`padEquiv`), so a row is a vector of rounded parts masked with pads (`respond_eq_masked`). The
client knows pad `b′` only, which is the pad of position `j_0 = (b′ + b̄′) mod Δ`:
`response_shows_one_rounding` follows from the general facts about pads.
-/

namespace PoolOprf

open Panic
open scoped UInt8.CommRing

/-- The pads' positions are permuted. -/
def padEquiv (b_bar_prime : Zdelta) (hb : b_bar_prime.toNat < DELTA) : Fin DELTA ≃ Fin DELTA where
  toFun j := padPosition j b_bar_prime
  invFun i := ⟨(i.val + b_bar_prime.toNat) % DELTA, Nat.mod_lt _ (by norm_num)⟩
  left_inv j := by
    have hj : j.val < 16 := j.isLt
    have hb' : b_bar_prime.toNat < 16 := hb
    apply Fin.ext
    change ((j.val + 16 - b_bar_prime.toNat) % 16 + b_bar_prime.toNat) % 16 = j.val
    omega
  right_inv i := by
    have hi : i.val < 16 := i.isLt
    have hb' : b_bar_prime.toNat < 16 := hb
    apply Fin.ext
    change ((i.val + b_bar_prime.toNat) % 16 + 16 - b_bar_prime.toNat) % 16 = i.val
    omega

instance : Nontrivial Zp := ⟨0, 1, by decide⟩

/-- The rounded part of an entry, in `ℤ_p`. -/
def roundedPart (a_sigma_sum : Zq) (j : Fin DELTA) : Zp :=
  reduceP (Lwr.nearest DELTA ((a_sigma_sum.toNat + Q - j) % Q))

/-- A row is its rounded parts, masked with the pads. -/
theorem respond_eq_masked {a_sigma_sum : Zq} (ha : a_sigma_sum.toNat < Q)
    (pads : Fin DELTA → Zp) {b_bar_prime : Zdelta} (hb : b_bar_prime.toNat < DELTA) :
    respond a_sigma_sum pads b_bar_prime =
      some (Pads.masked (padEquiv b_bar_prime hb) (roundedPart a_sigma_sum) pads) := by
  rw [respond_of_lt pads ha hb]
  congr 1
  funext j
  rw [responseEntry, Pads.masked, ← UInt8.toNat_inj, reduceP_toNat, UInt8.toNat_add]
  rfl

/-- The sum of a row is reduced. -/
theorem aSigmaSum_lt {sk : SecretKey} {r_sigma_sum a_sigma_sum : Zq} {e : Fin N → Zq}
    (h : aSigmaSum sk r_sigma_sum e = some a_sigma_sum) : a_sigma_sum.toNat < Q := by
  rw [aSigmaSum_eq] at h
  rw [← Option.some.inj h]
  exact reduceQ_lt _

/-- The sum of a row whose `e` and masks are 9 and 5 at position 0 and zero elsewhere, for the two
keys that are zero elsewhere: the mask is subtracted where the bit is set and added where it is
not. -/
theorem row_sum_zero (b : Bool) :
    (rSigmaSum (SecretKey.ofBool fun i => decide (i = 0) && b) fun i => if i = 0 then 5 else 0).bind
      (fun r_sigma_sum => aSigmaSum (SecretKey.ofBool fun i => decide (i = 0) && b) r_sigma_sum
        fun i => if i = 0 then 9 else 0) = some (if b then 4 else 5) := by
  have hmasks : ∀ i : Fin N, (if i = 0 then (5 : Zq) else 0).toNat < Q := fun i => by
    split_ifs <;> decide
  have hr : rSigmaNat (SecretKey.ofBool fun i => decide (i = 0) && b)
      (fun i => if i = 0 then 5 else 0) = if b then 4091 else 5 := by
    rw [rSigmaNat, Finset.sum_eq_single 0 (fun i _ hi => by simp [hi]) (by simp)]
    cases b
    · simp
    · rw [if_pos rfl]
      rfl
  have ha : innerSum (fun i : Fin N => if i = 0 then (9 : Zq) else 0)
      (SecretKey.ofBool fun i => decide (i = 0) && b) = if b then 9 else 0 := by
    rw [innerSum, Finset.sum_eq_single 0 (fun i _ hi => by simp [hi]) (by simp), SecretKey.bits_toNat]
    cases b <;> simp
  rw [rSigmaSum_of_lt _ hmasks, Option.bind_some, aSigmaSum_eq, aSigmaNat, ha, hr]
  cases b <;> decide

/-- A row of a response shows at most one rounding. Two keys and masks whose sums round to the same
at `j_0 = (b′ + b̄′) mod Δ` give the same row, with the pads other than `r′_{b′}` moved by a
bijection; and `j_0` is the only position whose entry `r′_{b′}` determines. -/
theorem response_shows_one_rounding {e : Fin N → Zq} {b_bar_prime : Zdelta}
    (hb : b_bar_prime.toNat < DELTA) (b_prime j₀ : Fin DELTA)
    (hj₀ : j₀.val = (b_prime.val + b_bar_prime.toNat) % DELTA) {sk sk' : SecretKey}
    {masks masks' : Fin N → Zq} {a a' : Zq}
    (ha : (rSigmaSum sk masks).bind (fun r_sigma_sum => aSigmaSum sk r_sigma_sum e) = some a)
    (ha' : (rSigmaSum sk' masks').bind (fun r_sigma_sum => aSigmaSum sk' r_sigma_sum e) = some a')
    (hround : rounded a j₀ = rounded a' j₀) :
    (∃ move : Equiv.Perm ({ i // i ≠ b_prime } → Zp), ∀ r_prime others, ∃ y,
      respond a (Pads.withKnown b_prime r_prime others) b_bar_prime = some y ∧
      respond a' (Pads.withKnown b_prime r_prime (move others)) b_bar_prime = some y) ∧
    ∀ r_prime j, (∃ v, ∀ others y,
      respond a (Pads.withKnown b_prime r_prime others) b_bar_prime = some y → y j = v) ↔
        j = j₀ := by
  obtain ⟨r_sigma_sum, -, hsum⟩ := Option.bind_eq_some_iff.mp ha
  obtain ⟨r_sigma_sum', -, hsum'⟩ := Option.bind_eq_some_iff.mp ha'
  have hlt := aSigmaSum_lt hsum
  have hlt' := aSigmaSum_lt hsum'
  -- `j₀` is the position of the known pad.
  have hposition : (padEquiv b_bar_prime hb).symm b_prime = j₀ := Fin.ext hj₀.symm
  have hpart : roundedPart a j₀ = roundedPart a' j₀ := by
    rw [rounded_of_lt hlt j₀.isLt, rounded_of_lt hlt' j₀.isLt] at hround
    exact Option.some.inj hround
  constructor
  · have hknown : roundedPart a ((padEquiv b_bar_prime hb).symm b_prime) =
        roundedPart a' ((padEquiv b_bar_prime hb).symm b_prime) := by
      rw [hposition]
      exact hpart
    obtain ⟨move, hmove⟩ := Pads.exists_perm _ (roundedPart a) (roundedPart a') hknown
    refine ⟨move, fun r_prime others => ⟨_, respond_eq_masked hlt _ hb, ?_⟩⟩
    rw [respond_eq_masked hlt' _ hb, hmove]
  · intro r_prime j
    have hdetermined := Pads.determined_iff (padEquiv b_bar_prime hb) (roundedPart a) b_prime r_prime j
    simp only [respond_eq_masked hlt _ hb, Option.some.injEq, forall_eq']
    rw [hdetermined, ← hposition, Equiv.eq_symm_apply]

theorem response_shows_one_rounding_three :
    (∃ move : Equiv.Perm ({ i : Fin DELTA // i ≠ 1 } → Zp), ∀ r_prime others, ∃ y,
      respond 4 (Pads.withKnown 1 r_prime others) 2 = some y ∧
      respond 5 (Pads.withKnown 1 r_prime (move others)) 2 = some y) ∧
    (∀ r_prime j, (∃ v, ∀ others y,
      respond 4 (Pads.withKnown 1 r_prime others) 2 = some y → y j = v) ↔ j = 3) ∧
    rounded 4 12 ≠ rounded 5 12 := by
  obtain ⟨hmove, hposition⟩ := response_shows_one_rounding (by decide : (2 : Zdelta).toNat < DELTA) 1 3 rfl
    (row_sum_zero true) (row_sum_zero false) (by decide)
  exact ⟨hmove, hposition, by decide⟩

end PoolOprf
