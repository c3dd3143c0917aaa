import Mathlib.Algebra.BigOperators.Group.List.Basic
import Mathlib.Algebra.Group.Nat.Defs
import Mathlib.Data.List.Basic
import Mathlib.Logic.Function.Basic
import Mathlib.Order.Nat

/-! Windows over a list: stretches of it, those centred at a place, and a circular array that
is filled with the list. -/
namespace Aprof

section
variable {α : Type}

/-- The elements from `a` on and before `h`. -/
def span (l : List α) (a h : Nat) : List α := (l.take h).drop a

variable {l : List α} {a h : Nat}

theorem span_empty (l : List α) (a : Nat) : span l a a = [] := by
  rw [span,List.drop_eq_nil_iff]
  exact List.length_take_le a l

theorem span_push (le : a ≤ h) (small : h < l.length) : span l a (h + 1) = span l a h ++ [l[h]] := by
  rw [span,List.take_succ_eq_append_getElem small,List.drop_append_of_le_length]
  · rfl
  · rw [List.length_take]
    omega

theorem span_pop (lt : a < h) (small : h ≤ l.length) : span l a h = l[a] :: span l (a + 1) h := by
  have inside : a < (l.take h).length := by
    rw [List.length_take]
    omega
  rw [span,List.drop_eq_getElem_cons inside,List.getElem_take]
  rfl

theorem span_length (small : h ≤ l.length) : (span l a h).length = h - a := by
  rw [span,List.length_drop,List.length_take,Nat.min_eq_left small]

/-- How far a window at `k` reaches to both sides when it is cut at the nearer end. -/
def reach (r m k : Nat) : Nat := min r (min k (m - 1 - k))

/-- The elements at most `r` places from the one at `k`, as many before it as after it. -/
def centred (r : Nat) (l : List α) (k : Nat) : List α :=
  (l.drop (k - reach r l.length k)).take (2 * reach r l.length k + 1)

theorem centred_span (r : Nat) (l : List α) (k : Nat) :
    centred r l k = span l (k - reach r l.length k) (k + reach r l.length k + 1) := by
  have le : reach r l.length k ≤ k := (Nat.min_le_right _ _).trans (Nat.min_le_left _ _)
  rw [centred,span,List.drop_take]
  congr 1
  omega

end

section
variable {α : Type} {length : Nat} {slots : Nat → Option α} {l : List α} {head : Nat}

/-- The first `head` elements were stored one after the other; the last `length` of them are still there. -/
structure Circular (length : Nat) (slots : Nat → Option α) (l : List α) (head : Nat) : Prop where
  stored : ∀ i, i < head → head ≤ i + length → slots (i % length) = l[i]?
  unused : ∀ i, head ≤ i → i < length → slots i = none

theorem Circular.empty (length : Nat) (l : List α) : Circular length (fun _ => none) l 0 where
  stored i lt := absurd lt (Nat.not_lt_zero i)
  unused _ _ _ := rfl

theorem Circular.push (circular : Circular length slots l head) :
    Circular length (Function.update slots (head % length) l[head]?) l (head + 1) where
  stored i lt near := by
    rcases Nat.lt_succ_iff_lt_or_eq.mp lt with before | rfl
    · have apart : i % length ≠ head % length := by
        intro same
        have whole := Nat.sub_mod_eq_zero_of_mod_eq same.symm
        rw [Nat.mod_eq_of_lt (by omega)] at whole
        omega
      rw [Function.update_of_ne apart]
      exact circular.stored i before (by omega)
    · exact Function.update_self ..
  unused i le lt := by
    have apart : i ≠ head % length := by
      rw [Nat.mod_eq_of_lt (by omega)]
      omega
    rw [Function.update_of_ne apart]
    exact circular.unused i (by omega) lt

end

end Aprof
