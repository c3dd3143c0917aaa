import Mathlib.Data.List.Sort

/-! Stable sorting by a key. -/
namespace Aprof

variable {α κ : Type} [LinearOrder κ] {key : α → κ} {values : List α}

def stableSort (key : α → κ) (values : List α) : List α := values.insertionSort fun a b => key a ≤ key b

theorem stableSort_perm (key : α → κ) (values : List α) : (stableSort key values).Perm values :=
  List.perm_insertionSort _ values

theorem stableSort_pairwise (key : α → κ) (values : List α) : (stableSort key values).Pairwise fun a b => key a ≤ key b := by
  have : IsTrans α fun a b => key a ≤ key b := ⟨fun _ _ _ first second => first.trans second⟩
  have : Std.Total fun a b : α => key a ≤ key b := ⟨fun a b => le_total (key a) (key b)⟩
  exact List.pairwise_insertionSort _ values

theorem stableSort_filter (k : κ) (values : List α) :
    (stableSort key values).filter (fun a => key a = k) = values.filter fun a => key a = k := by
  have equal : ∀ a ∈ values.filter (fun a => key a = k), key a = k :=
    fun a member => of_decide_eq_true (List.mem_filter.mp member).2
  have ordered : (values.filter fun a => key a = k).Pairwise fun a b => key a ≤ key b := by
    apply List.pairwise_of_forall_mem_list
    intro a first b second
    rw [equal a first,equal b second]
  have sublist := (List.sublist_insertionSort ordered List.filter_sublist).filter fun a => decide (key a = k)
  rw [List.filter_filter] at sublist
  simp only [Bool.and_self] at sublist
  have lengths := ((stableSort_perm key values).filter fun a => decide (key a = k)).length_eq
  exact (sublist.eq_of_length lengths.symm).symm

end Aprof
