import Mathlib.Data.Set.Subsingleton
import Mathlib.Tactic

/-!
# Collisions

A commitment is a digest of its opening, and it binds as far as no two different openings that
occur have one digest. `Collision` says that two such openings occur; where none do, whoever
opens one digest twice opens it to one value (`eq_of_digest_eq`).
-/

namespace Binding

variable {α β : Type*}

/-- Two different openings in `s` have one digest. -/
def Collision (digest : α → β) (s : Set α) : Prop :=
  ∃ x ∈ s, ∃ y ∈ s, x ≠ y ∧ digest x = digest y

/-- Without a collision, a digest has one opening. -/
theorem eq_of_digest_eq {digest : α → β} {s : Set α} (h : ¬ Collision digest s) {x y : α}
    (hx : x ∈ s) (hy : y ∈ s) (hxy : digest x = digest y) : x = y := by
  by_contra hne
  exact h ⟨x, hx, y, hy, hne, hxy⟩

/-- Fewer openings have fewer collisions. -/
theorem Collision.mono {digest : α → β} {s t : Set α} (hst : s ⊆ t) (h : Collision digest s) :
    Collision digest t := by
  obtain ⟨x, hx, y, hy, hne, hxy⟩ := h
  exact ⟨x, hst hx, y, hst hy, hne, hxy⟩

/-- A single opening has no collision. -/
theorem not_collision_of_subsingleton {digest : α → β} {s : Set α} (h : s.Subsingleton) :
    ¬ Collision digest s := by
  rintro ⟨x, hx, y, hy, hne, -⟩
  exact hne (h hx hy)

end Binding
