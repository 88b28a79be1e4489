import Mathlib.Logic.Relation
import Mathlib.Order.WellFounded
import Mathlib.Tactic

/-!
# Reachable states

The states that the runs of a step relation reach, and the two rules that say something of every
run. What holds at the start and is kept by each step holds in every reachable state
(`Reachable.invariant`), where the step may use that it starts in a reachable state. A relation each
step of which lessens a number has no run without end (`noEndlessRun_of_measure`).
-/

/-- A run of `step` from `start` reaches `state`. -/
def Reachable {α : Type*} (step : α → α → Prop) (start state : α) : Prop :=
  Relation.ReflTransGen step start state

/-- No run goes on for ever. -/
def NoEndlessRun {α : Type*} (step : α → α → Prop) : Prop :=
  ¬ ∃ run : ℕ → α, ∀ n, step (run n) (run (n + 1))

namespace Reachable

variable {α : Type*} {step : α → α → Prop} {start state : α}

theorem refl (step : α → α → Prop) (start : α) : Reachable step start start :=
  Relation.ReflTransGen.refl

theorem tail {next : α} (h : Reachable step start state) (hstep : step state next) :
    Reachable step start next :=
  Relation.ReflTransGen.tail h hstep

theorem trans {last : α} (h : Reachable step start state) (hlast : Reachable step state last) :
    Reachable step start last :=
  Relation.ReflTransGen.trans h hlast

/-- An invariant holds in every reachable state. -/
theorem invariant {inv : α → Prop} (hstart : inv start)
    (hstep : ∀ s s', Reachable step start s → inv s → step s s' → inv s')
    (h : Reachable step start state) : inv state := by
  unfold Reachable at h
  induction h with
  | refl => exact hstart
  | tail hprefix hlast ih => exact hstep _ _ hprefix ih hlast

end Reachable

/-- Where no run goes on for ever, one from each start comes to a state that has no next one. -/
theorem NoEndlessRun.exists_last {α : Type*} {step : α → α → Prop} (h : NoEndlessRun step) (start : α) :
    ∃ last, Reachable step start last ∧ ∀ next, ¬ step last next := by
  by_contra hnone
  push Not at hnone
  -- Otherwise each reachable state has a next one, and these make a run.
  choose! next hnext using hnone
  have hreach : ∀ n, Reachable step start (next^[n] start) := by
    intro n
    induction n with
    | zero => exact Reachable.refl step start
    | succ n ih =>
      rw [Function.iterate_succ_apply']
      exact ih.tail (hnext _ ih)
  refine h ⟨fun n => next^[n] start, fun n => ?_⟩
  change step (next^[n] start) (next^[n + 1] start)
  rw [Function.iterate_succ_apply']
  exact hnext _ (hreach n)

/-- Where each step lessens a number, no run goes on for ever. -/
theorem noEndlessRun_of_measure {α : Type*} {step : α → α → Prop} (measure : α → ℕ)
    (h : ∀ s s', step s s' → measure s' < measure s) : NoEndlessRun step := by
  rintro ⟨run, hrun⟩
  -- After `n` steps the number is at least `n` less than at the start.
  have hle : ∀ n, measure (run n) + n ≤ measure (run 0) := by
    intro n
    induction n with
    | zero => exact Nat.le_refl _
    | succ n ih =>
      have hlt := h _ _ (hrun n)
      omega
  have hlast := hle (measure (run 0) + 1)
  omega
