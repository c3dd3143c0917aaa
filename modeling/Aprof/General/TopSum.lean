import Mathlib.Algebra.BigOperators.Intervals
import Mathlib.Algebra.BigOperators.Group.Finset.Basic

/-! Sums over the top of a stack: the entries from an index up to the height.
Partial values kept per entry, with each popped entry added to the one below,
leave these sums as they are. -/
namespace Aprof

open Finset

section
variable {M : Type} [AddCommGroup M]

def topSum (f : Nat → M) (d n : Nat) : M := ∑ i ∈ Ico d n, f i

theorem topSum_empty (f : Nat → M) (n : Nat) : topSum f n n = 0 := by
  simp [topSum]

theorem topSum_succ (f : Nat → M) {d n : Nat} (le : d ≤ n) : topSum f d (n + 1) = topSum f d n + f n :=
  sum_Ico_succ_top le f

theorem topSum_congr {f g : Nat → M} {d n : Nat} (same : ∀ i, d ≤ i → i < n → f i = g i) :
    topSum f d n = topSum g d n := by
  apply sum_congr rfl
  intro i member
  rw [mem_Ico] at member
  exact same i member.1 member.2

/-- One entry changes by `x`. -/
theorem topSum_change {f g : Nat → M} {i : Nat} {x : M} (changed : g i = f i + x)
    (same : ∀ j, j ≠ i → g j = f j) (d n : Nat) :
    topSum g d n = topSum f d n + if d ≤ i ∧ i < n then x else 0 := by
  have split : topSum g d n = ∑ j ∈ Ico d n, (f j + if j = i then x else 0) := by
    apply sum_congr rfl
    intro j _
    by_cases here : j = i
    · rw [here,changed,if_pos rfl]
    · rw [same j here,if_neg here,add_zero]
  rw [split,sum_add_distrib,sum_ite_eq']
  simp only [topSum,mem_Ico]

theorem topSum_fold {f g : Nat → M} {d n : Nat} (below : d ≤ n) (folded : g n = f n + f (n + 1))
    (same : ∀ j, j ≠ n → g j = f j) : topSum g d (n + 1) = topSum f d (n + 2) := by
  rw [topSum_change folded same,if_pos ⟨below,Nat.lt_succ_self n⟩,topSum_succ f (Nat.le_succ_of_le below)]

end

end Aprof
