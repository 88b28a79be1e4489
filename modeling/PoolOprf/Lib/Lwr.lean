import Mathlib.Data.ZMod.Basic
import Mathlib.Algebra.BigOperators.Ring.Finset
import Mathlib.Tactic

/-!
# Rounding, and an inner product blinded by pairs of masks

Learning with rounding maps a number modulo `q = Δ * p` to the nearest multiple of `Δ`, counted
modulo `p`. `nearest` is that rounding on natural numbers, with a tie rounded down; it commutes
with adding a multiple of `Δ` (`nearest_add_mul`) and, modulo `p`, with reduction modulo `q`
(`nearest_mod`). `unblind` puts the two together: from the rounded sum of a value and a mask,
shifted by the mask's remainder, the mask's quotient comes off and the rounded value is left.

`blinded_sum` is the identity by which one party sums the selected entries of a blinded vector and
the other party takes the blinding off: with a pair of masks for each entry, the vector blinded by
both masks of each pair, and one mask of each pair on the summing side, the sum is the inner
product plus the masks that the other side selects.
-/

namespace Lwr

/-! ## Rounding -/

/-- The nearest integer to `v / Δ`, and the lower one on a tie. -/
def nearest (Δ v : ℕ) : ℕ := v / Δ + if Δ / 2 < v % Δ then 1 else 0

/-- Adding a multiple of `Δ` adds to the nearest integer. -/
theorem nearest_add_mul {Δ : ℕ} (hΔ : 0 < Δ) (v t : ℕ) :
    nearest Δ (v + Δ * t) = nearest Δ v + t := by
  unfold nearest
  rw [Nat.add_mul_div_left _ _ hΔ, Nat.add_mul_mod_self_left]
  omega

/-- Rounding commutes with reduction modulo `q = Δ * p`, counted modulo `p`. -/
theorem nearest_mod {Δ : ℕ} (hΔ : 0 < Δ) (p v : ℕ) :
    nearest Δ (v % (Δ * p)) % p = nearest Δ v % p := by
  have hsplit : v = v % (Δ * p) + Δ * (p * (v / (Δ * p))) := by
    rw [← Nat.mul_assoc, Nat.mod_add_div]
  conv_rhs => rw [hsplit, nearest_add_mul hΔ, Nat.add_mul_mod_self_left]

/-- Below `Δ * p`, the nearest integer is at most `p`. -/
theorem nearest_le {Δ p v : ℕ} (h : v < Δ * p) : nearest Δ v ≤ p := by
  have hdiv : v / Δ < p := Nat.div_lt_of_lt_mul h
  unfold nearest
  split_ifs <;> omega

/-- The nearest integer is the one whose multiple of an even `Δ` is at most `Δ / 2` below `v` and
less than `Δ / 2` above it. -/
theorem nearest_eq_iff {Δ v n : ℕ} (hΔ : 0 < Δ) (heven : 2 ∣ Δ) :
    nearest Δ v = n ↔ v ≤ Δ * n + Δ / 2 ∧ Δ * n < v + Δ / 2 := by
  obtain ⟨h, rfl⟩ := heven
  have hdiv := Nat.div_add_mod v (2 * h)
  have hmod := Nat.mod_lt v hΔ
  have hh : 2 * h / 2 = h := by omega
  unfold nearest
  rw [hh]
  generalize v / (2 * h) = k at hdiv ⊢
  generalize v % (2 * h) = r at hdiv hmod ⊢
  subst hdiv
  constructor
  · rintro rfl
    split_ifs with hr
    · rw [Nat.mul_add]; omega
    · rw [Nat.add_zero]; omega
  · rintro ⟨hle, hlt⟩
    -- The integer is within one of the quotient, so its multiple is one of three.
    have hup : n < k + 2 := by
      by_contra hn
      have : 2 * h * (k + 2) ≤ 2 * h * n := Nat.mul_le_mul_left _ (by omega)
      rw [Nat.mul_add] at this
      omega
    have hlow : k < n + 1 := by
      by_contra hn
      have : 2 * h * (n + 1) ≤ 2 * h * k := Nat.mul_le_mul_left _ (by omega)
      rw [Nat.mul_add] at this
      omega
    obtain rfl | rfl : n = k ∨ n = k + 1 := by omega
    · rw [if_neg (by omega), Nat.add_zero]
    · rw [Nat.mul_add] at hle hlt
      rw [if_pos (by omega)]

/-- The blinding comes off: a rounded sum of `a` and a mask `s`, both counted modulo `q = Δ * p`
and shifted down by `s % Δ`, is the rounded `a` plus `s / Δ`. -/
theorem unblind {Δ p a s : ℕ} (hΔ : 0 < Δ) :
    nearest Δ (((a + s) % (Δ * p) + Δ * p - s % Δ) % (Δ * p)) % p = (nearest Δ a + s / Δ) % p := by
  have hs := Nat.div_add_mod s Δ
  rcases Nat.eq_zero_or_pos p with rfl | hp
  · have hmod : s % Δ ≤ a + s := le_trans (Nat.mod_le s Δ) (Nat.le_add_left s a)
    have hval : a + s - s % Δ = a + Δ * (s / Δ) := by omega
    simp [hval, nearest_add_mul hΔ]
  have hlt : s % Δ < Δ * p := lt_of_lt_of_le (Nat.mod_lt s hΔ) (Nat.le_mul_of_pos_right Δ hp)
  have hval : ((a + s) % (Δ * p) + Δ * p - s % Δ) % (Δ * p) = (a + Δ * (s / Δ)) % (Δ * p) := by
    have hadd : (a + s) % (Δ * p) + Δ * p - s % Δ + s % Δ ≡ a + Δ * (s / Δ) + s % Δ
        [MOD Δ * p] := by
      rw [Nat.sub_add_cancel (by omega), show a + Δ * (s / Δ) + s % Δ = a + s by omega]
      calc (a + s) % (Δ * p) + Δ * p ≡ (a + s) + 0 [MOD Δ * p] :=
            (Nat.mod_modEq _ _).add (Nat.modEq_zero_iff_dvd.mpr dvd_rfl)
        _ = a + s := Nat.add_zero _
    exact Nat.ModEq.add_right_cancel' _ hadd
  rw [hval, nearest_mod hΔ, nearest_add_mul hΔ]

/-! ## The blinded inner product -/

section Blinding

variable {R ι : Type*} [CommRing R]

/-- A bit as a number: 1 for true, 0 for false. -/
def bit (b : Bool) : R := if b then 1 else 0

@[simp] theorem bit_true : (bit true : R) = 1 := rfl

@[simp] theorem bit_false : (bit false : R) = 0 := rfl

/-- One entry: where the key bit is set, the summing side's mask comes off the blinded entry and
leaves the other mask; where it is not, the summing side's mask is the other side's. -/
theorem blinded_term (a : R) (r : Bool → R) (s b : Bool) :
    bit s * (a + r (b ^^ s) + r (!(b ^^ s))) + (1 - 2 * bit s) * r b =
      bit s * a + r (b ^^ s) := by
  cases s
  · simp
  · cases b <;> simp <;> ring

/-- The sum of the selected entries of the blinded vector, with the summing side's masks added
where the key bit is 0 and taken off where it is 1, is the inner product plus the masks that the
other side selects. -/
theorem blinded_sum (t : Finset ι) (a : ι → R) (r : ι → Bool → R) (s b : ι → Bool) :
    ∑ i ∈ t, bit (s i) * (a i + r i (b i ^^ s i) + r i (!(b i ^^ s i))) +
        ∑ i ∈ t, (1 - 2 * bit (s i)) * r i (b i) =
      ∑ i ∈ t, bit (s i) * a i + ∑ i ∈ t, r i (b i ^^ s i) := by
  rw [← Finset.sum_add_distrib, ← Finset.sum_add_distrib]
  exact Finset.sum_congr rfl fun i _ => blinded_term (a i) (r i) (s i) (b i)

end Blinding

end Lwr
