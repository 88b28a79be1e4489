import Mathlib.Data.Set.Card
import Mathlib.Tactic

/-!
# A secret masked by tested choices

One party masks a secret bit vector with choice bits that it keeps, and sends the masked vector;
before that the choices are tested, bit by bit, and the party stops if one fails. What is seen
(`observe`) is that stop or the masked vector. Without a test the choices are a one-time pad. With
one, a masked vector that is seen says that its choices passed: two secrets are seen equally often
exactly when some bit fails on both sides, or both sides pass at every bit where the secrets differ
(`ncard_eq_iff`).
-/

namespace Masking

variable {ι : Type*}

open Classical in
/-- What is seen of secret `s` masked by choices `b`: nothing if a choice is not `good`. -/
noncomputable def observe (good : ι → Bool → Prop) (s b : ι → Bool) : Option (ι → Bool) :=
  if ∀ i, good i (b i) then some fun i => b i ^^ s i else none

variable {good : ι → Bool → Prop}

theorem observe_eq_none {s b : ι → Bool} : observe good s b = none ↔ ¬ ∀ i, good i (b i) := by
  unfold observe
  split_ifs with h <;> simp [h]

/-- A masked vector is seen for one choice at most: the one that unmasks it to the secret. -/
theorem observe_eq_some {s b y : ι → Bool} :
    observe good s b = some y ↔ (b = fun i => y i ^^ s i) ∧ ∀ i, good i (y i ^^ s i) := by
  unfold observe
  constructor
  · intro h
    split_ifs at h with hgood
    have hb : b = fun i => y i ^^ s i := by
      funext i
      rw [← Option.some.inj h, Bool.xor_assoc, Bool.xor_self, Bool.xor_false]
    refine ⟨hb, fun i => ?_⟩
    have hi := hgood i
    rwa [hb] at hi
  · rintro ⟨rfl, hgood⟩
    rw [if_pos hgood]
    congr 1
    funext i
    rw [Bool.xor_assoc, Bool.xor_self, Bool.xor_false]

open Classical in
/-- How many choices a masked vector is seen for. -/
theorem ncard_observe_eq_some (good : ι → Bool → Prop) (s y : ι → Bool) :
    {b | observe good s b = some y}.ncard = if ∀ i, good i (y i ^^ s i) then 1 else 0 := by
  split_ifs with hgood
  · have hset : {b | observe good s b = some y} = {fun i => y i ^^ s i} := by
      ext b
      rw [Set.mem_ofPred_eq, observe_eq_some, Set.mem_singleton_iff]
      exact and_iff_left hgood
    rw [hset, Set.ncard_singleton]
  · have hset : {b | observe good s b = some y} = ∅ := by
      ext b
      rw [Set.mem_ofPred_eq, observe_eq_some]
      exact iff_of_false (fun h => hgood h.2) (Set.notMem_empty b)
    rw [hset, Set.ncard_empty]

/-- Counting what is seen and counting what it is shown as are the same. -/
theorem ncard_map_iff {α β γ : Type*} {show_ : α → β} (h : Function.Injective show_)
    (f g : γ → α) :
    (∀ o, {b | show_ (f b) = o}.ncard = {b | show_ (g b) = o}.ncard) ↔
      ∀ o, {b | f b = o}.ncard = {b | g b = o}.ncard := by
  constructor
  · intro hcount o
    have ho := hcount (show_ o)
    simpa only [h.eq_iff] using ho
  · intro hcount o
    by_cases ho : ∃ a, show_ a = o
    · obtain ⟨a, rfl⟩ := ho
      simpa only [h.eq_iff] using hcount a
    · -- What is never shown is shown for no choice.
      have hempty : ∀ f : γ → α, {b | show_ (f b) = o} = ∅ := fun f =>
        Set.eq_empty_of_forall_notMem fun b hb => ho ⟨f b, hb⟩
      rw [hempty f, hempty g]

/-- Two secrets are seen equally often exactly when no choice passes, or the test is the same on
both sides of every bit where they differ. -/
theorem ncard_eq_iff (good : ι → Bool → Prop) (s s' : ι → Bool) :
    (∀ o, {b | observe good s b = o}.ncard = {b | observe good s' b = o}.ncard) ↔
      (∃ i, ∀ x, ¬ good i x) ∨ ∀ i, s i ≠ s' i → ∀ x, good i x := by
  constructor
  · intro h
    by_contra hnot
    push Not at hnot
    obtain ⟨hsome, i, hi, x, hx⟩ := hnot
    -- Some choice passes; with it, the bit where the test is one-sided tells the secrets apart.
    choose b hb using hsome
    have hcount := h (some fun i => b i ^^ s i)
    have hpass : ∀ j, good j ((b j ^^ s j) ^^ s j) := fun j => by
      rw [Bool.xor_assoc, Bool.xor_self, Bool.xor_false]
      exact hb j
    rw [ncard_observe_eq_some, ncard_observe_eq_some, if_pos hpass] at hcount
    split_ifs at hcount with hpass'
    have hflip := hpass' i
    have hother : ((b i ^^ s i) ^^ s' i) = !b i := by
      cases hbi : b i <;> cases hsi : s i <;> cases hsi' : s' i <;> simp_all
    rw [hother] at hflip
    rcases Bool.eq_or_eq_not x (b i) with hxb | hxb
    · exact hx (hxb ▸ hb i)
    · exact hx (hxb ▸ hflip)
  · intro h o
    cases o with
    | none => simp only [observe_eq_none]
    | some y =>
      rw [ncard_observe_eq_some, ncard_observe_eq_some]
      have hiff : (∀ i, good i (y i ^^ s i)) ↔ ∀ i, good i (y i ^^ s' i) := by
        rcases h with ⟨i, hi⟩ | hsame
        · exact iff_of_false (fun hall => hi _ (hall i)) fun hall => hi _ (hall i)
        · refine forall_congr' fun i => ?_
          by_cases hi : s i = s' i
          · rw [hi]
          · exact iff_of_true (hsame i hi _) (hsame i hi _)
      split_ifs <;> tauto

end Masking
