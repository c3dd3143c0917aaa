import Mathlib.Algebra.BigOperators.Group.List.Basic
import Mathlib.Algebra.Order.BigOperators.Group.List
import Mathlib.Algebra.Ring.Nat
import Mathlib.Order.Bounds.Basic

/-! Sums and extremes of the values met so far. A running minimum starts at a
sentinel that no value exceeds, and is the least value once there is one; a running
maximum is the same in the dual order. -/
namespace Aprof

section
variable {α : Type} [LinearOrder α]

structure Lowest (sentinel : α) (values : List α) (value : α) : Prop where
  below : ∀ other ∈ values, value ≤ other
  attained : value ∈ values ∨ value = sentinel

theorem Lowest.empty (sentinel : α) : Lowest sentinel [] sentinel := ⟨nofun,.inr rfl⟩

theorem Lowest.add {sentinel : α} {values : List α} {value : α} (lowest : Lowest sentinel values value) (new : α) :
    Lowest sentinel (values ++ [new]) (min new value) := by
  constructor
  · intro other member
    rcases List.mem_append.mp member with old | last
    · exact (min_le_right new value).trans (lowest.below other old)
    · rw [List.mem_singleton.mp last]
      exact min_le_left new value
  · rcases min_choice new value with first | second
    · rw [first]
      exact .inl (by simp)
    · rw [second]
      exact lowest.attained.imp_left fun inside => List.mem_append_left _ inside

theorem Lowest.isLeast_of_le {sentinel : α} {values : List α} {value other : α} (lowest : Lowest sentinel values value)
    (member : other ∈ values) (bounded : other ≤ sentinel) : IsLeast {other | other ∈ values} value := by
  refine ⟨?_,lowest.below⟩
  rcases lowest.attained with inside | initial
  · exact inside
  · have same : value = other := le_antisymm (lowest.below other member) (initial ▸ bounded)
    rw [same]
    exact member

theorem Lowest.isLeast {sentinel : α} {values : List α} {value : α} (lowest : Lowest sentinel values value)
    (bounded : ∀ other ∈ values, other ≤ sentinel) (nonempty : values ≠ []) :
    IsLeast {other | other ∈ values} value := by
  obtain ⟨other,member⟩ := List.exists_mem_of_ne_nil values nonempty
  exact lowest.isLeast_of_le member (bounded other member)

/-- The dual of `Lowest`. -/
def Highest (sentinel : α) (values : List α) (value : α) : Prop := Lowest (α := αᵒᵈ) sentinel values value

theorem Highest.empty (sentinel : α) : Highest sentinel [] sentinel := Lowest.empty (α := αᵒᵈ) sentinel

theorem Highest.add {sentinel : α} {values : List α} {value : α} (highest : Highest sentinel values value) (new : α) :
    Highest sentinel (values ++ [new]) (max new value) := Lowest.add highest new

theorem Highest.isGreatest_of_le {sentinel : α} {values : List α} {value other : α} (highest : Highest sentinel values value)
    (member : other ∈ values) (bounded : sentinel ≤ other) : IsGreatest {other | other ∈ values} value :=
  Lowest.isLeast_of_le highest member bounded

theorem Highest.isGreatest {sentinel : α} {values : List α} {value : α} (highest : Highest sentinel values value)
    (bounded : ∀ other ∈ values, sentinel ≤ other) (nonempty : values ≠ []) :
    IsGreatest {other | other ∈ values} value := Lowest.isLeast highest bounded nonempty

end

section
variable {α : Type}

theorem sum_counted_iff (f : α → Nat) (counted : α → Prop) [DecidablePred counted] (values : List α) :
    (values.map fun value => if counted value then f value else 0).sum = (values.map f).sum ↔
      ∀ value ∈ values, ¬counted value → f value = 0 := by
  have split : (values.map f).sum = (values.map fun value => if counted value then f value else 0).sum +
      (values.map fun value => if counted value then 0 else f value).sum := by
    rw [← List.sum_map_add]
    congr 1
    apply List.map_congr_left
    intro value _
    split <;> omega
  rw [split,left_eq_add,List.sum_eq_zero_iff_forall_eq_nat]
  simp only [List.mem_map,forall_exists_index,and_imp,forall_apply_eq_imp_iff₂]
  refine forall₂_congr fun value _ => ?_
  split
  · next holds => simp [holds]
  · next fails => simp [fails]

end

end Aprof
