import Mathlib.Tactic

/-!
# Values masked with pads

A vector of values is masked with one pad each, at permuted positions (`masked`). Someone who knows
one pad sees the value under it and nothing else: `exists_perm` maps the other pads so that two
vectors with the same value there are masked to the same, and `determined_iff` says that no other
value is determined.
-/

namespace Pads

variable {ι κ G : Type*} [DecidableEq κ] [AddCommGroup G]

/-- All pads, from one that is known and the others. -/
def withKnown (k : κ) (known : G) (others : { i // i ≠ k } → G) : κ → G :=
  fun i => if h : i = k then known else others ⟨i, h⟩

/-- The values, each with its pad. -/
def masked (position : ι ≃ κ) (values : ι → G) (pads : κ → G) : ι → G :=
  fun j => values j + pads (position j)

omit [AddCommGroup G] in
theorem withKnown_self (k : κ) (known : G) (others : { i // i ≠ k } → G) :
    withKnown k known others k = known := dif_pos rfl

omit [AddCommGroup G] in
theorem withKnown_of_ne {k i : κ} (h : i ≠ k) (known : G) (others : { i // i ≠ k } → G) :
    withKnown k known others i = others ⟨i, h⟩ := dif_neg h

/-- Vectors with the same value under the known pad are masked to the same, with the other pads
moved by their differences. -/
theorem exists_perm (position : ι ≃ κ) (values values' : ι → G) {k : κ}
    (h : values (position.symm k) = values' (position.symm k)) :
    ∃ move : Equiv.Perm ({ i // i ≠ k } → G), ∀ known others,
      masked position values (withKnown k known others) =
        masked position values' (withKnown k known (move others)) := by
  refine ⟨Equiv.addRight fun i =>
    values (position.symm i) - values' (position.symm i), fun known others => ?_⟩
  funext j
  unfold masked
  by_cases hj : position j = k
  · have hj' : j = position.symm k := by rw [← hj, Equiv.symm_apply_apply]
    rw [hj, withKnown_self, withKnown_self, hj', h]
  · rw [withKnown_of_ne hj, withKnown_of_ne hj]
    simp only [Equiv.coe_addRight, Pi.add_apply, Equiv.symm_apply_apply]
    abel

/-- Only the value under the known pad is determined by it. -/
theorem determined_iff [Nontrivial G] (position : ι ≃ κ) (values : ι → G) (k : κ) (known : G)
    (j : ι) :
    (∃ v, ∀ others, masked position values (withKnown k known others) j = v) ↔
      position j = k := by
  constructor
  · rintro ⟨v, hv⟩
    by_contra hj
    obtain ⟨g, hg⟩ := exists_ne (0 : G)
    have hzero := hv fun _ => 0
    have hone := hv fun _ => g
    unfold masked at hzero hone
    rw [withKnown_of_ne hj] at hzero hone
    exact hg (add_left_cancel (hone.trans hzero.symm))
  · intro hj
    refine ⟨values j + known, fun others => ?_⟩
    rw [masked, hj, withKnown_self]

/-! ## Two pads, one behind the other -/

section Shear

variable {α β : Type*} [AddGroup α] [AddCommGroup β]

/-- Move a pad by `c`, and a second pad by what that changes `f` of the first. -/
def shear (c : α) (f : α → β) : Equiv.Perm (α × β) :=
  Equiv.prodShear (Equiv.addRight c) fun pad => Equiv.addRight (f (pad + c) - f pad)

theorem shear_fst (c : α) (f : α → β) (x : α × β) : (shear c f x).1 = x.1 + c := rfl

/-- What the second pad hides does not change. -/
theorem shear_snd (c : α) (f : α → β) (x : α × β) :
    f (shear c f x).1 - (shear c f x).2 = f x.1 - x.2 := by
  change f (x.1 + c) - (x.2 + (f (x.1 + c) - f x.1)) = f x.1 - x.2
  abel

end Shear

/-! ## Views of many pads -/

section Views

variable {ι V : Type*} {P : ι → Type*}

/-- Two views of many pads are the same up to a bijection of the pads, where each pad is moved by
something that the view itself tells: the moved pads then give the other view, and moving back gives
the first. -/
theorem exists_perm_of_views {view view' : (∀ i, P i) → V} (move : V → ∀ i, Equiv.Perm (P i))
    (h : ∀ pads, view' (fun i => move (view pads) i (pads i)) = view pads)
    (h' : ∀ pads, view (fun i => (move (view' pads) i).symm (pads i)) = view' pads) :
    ∃ moved : Equiv.Perm (∀ i, P i), ∀ pads, view pads = view' (moved pads) := by
  refine ⟨⟨fun pads i => move (view pads) i (pads i),
    fun pads i => (move (view' pads) i).symm (pads i), fun pads => ?_, fun pads => ?_⟩,
    fun pads => (h pads).symm⟩
  · funext i
    simp only [h, Equiv.symm_apply_apply]
  · funext i
    simp only [h', Equiv.apply_symm_apply]

end Views

/-- What two views have in common under a bijection of what is hidden is seen equally often in
both. -/
theorem ncard_eq_of_perm {α γ : Type*} {view view' : α → γ} (move : Equiv.Perm α)
    (h : ∀ x, view x = view' (move x)) (y : γ) :
    {x | view x = y}.ncard = {x | view' x = y}.ncard := by
  have himage : {x | view' x = y} = move '' {x | view x = y} := by
    ext x
    rw [Equiv.image_eq_preimage_symm, Set.mem_preimage, Set.mem_ofPred_eq, Set.mem_ofPred_eq, h,
      Equiv.apply_symm_apply]
  rw [himage, Set.ncard_image_of_injective _ move.injective]

end Pads
