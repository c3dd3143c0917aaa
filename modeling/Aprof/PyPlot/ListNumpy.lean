import Aprof.General.Doubles
import Aprof.PyPlot.ReportReader

/-! What the reader relies on holds of lists of rows. -/
namespace Aprof.PyPlot

def listNumpy : Numpy where
  NDArray := List (List Int) × Bool
  array rows := (rows,false)
  vstack a row :=
    if ∃ other ∈ a.1, other.length ≠ row.length then .error "ValueError"
    else if a.2 = false ∧ ∀ n ∈ row, -2 ^ 63 ≤ n ∧ n < 2 ^ 63 then .ok (a.1 ++ [row],false)
    else .ok ((a.1 ++ [row]).map (List.map fun n => n.sign * nearestDouble n.natAbs),true)
  tolist a := a.1
  float64 a := a.2
  double n := n.sign * nearestDouble n.natAbs

theorem isDouble_nat {m e : Nat} (short : m < 2 ^ 53) : IsDouble (m * 2 ^ e : Nat) := by
  refine ⟨m,e,?_,short⟩
  rw [Nat.cast_mul,Nat.cast_pow]
  rfl

theorem nearestDouble_isDouble (n : Nat) : IsDouble (nearestDouble n) := by
  obtain ⟨m,e,form,short⟩ := nearestDouble_form n
  rw [form]
  exact isDouble_nat short

theorem same_widths {rows : List (List Int)} {row : List Int} (widths : ∀ other ∈ rows, other.length = row.length) :
    ¬ ∃ other ∈ rows, other.length ≠ row.length := by
  rintro ⟨other,inside,wide⟩
  exact wide (widths other inside)

theorem listNumpy_documented : listNumpy.Documented where
  array_int64 := ⟨rfl,rfl⟩
  vstack_adds := by
    intro a b row stacked
    dsimp only [listNumpy] at stacked
    split at stacked
    · cases stacked
    split at stacked
    · cases stacked
      exact List.length_append
    · cases stacked
      exact (List.length_map _).trans List.length_append
  vstack_widths wide := ⟨_,if_pos wide⟩
  vstack_int64 := by
    intro a row widths int64 range
    exact ⟨_,(if_neg (same_widths widths)).trans (if_pos ⟨int64,range⟩),rfl,rfl⟩
  vstack_float64 := by
    intro a row widths range large
    have double : ¬ (a.2 = false ∧ ∀ n ∈ row, -2 ^ 63 ≤ n ∧ n < 2 ^ 63) := by
      rintro ⟨int64,small⟩
      rcases large with float64 | ⟨n,inside,more⟩
      · exact Bool.false_ne_true (int64.symm.trans float64)
      · exact absurd (small n inside).2 (not_lt.mpr more)
    exact ⟨_,(if_neg (same_widths widths)).trans (if_neg double),rfl,rfl⟩
  double_exact := by
    rintro _ ⟨m,e,rfl,short⟩
    have positive : (m * 2 ^ e).natAbs = m.natAbs * 2 ^ e := by
      rw [Int.natAbs_mul,Int.natAbs_pow]
      rfl
    show (m * 2 ^ e).sign * nearestDouble (m * 2 ^ e).natAbs = m * 2 ^ e
    rw [positive,nearestDouble_exact short,← positive,Int.sign_mul_natAbs]
  double_isDouble := by
    intro n least _
    show IsDouble (n.sign * nearestDouble n.natAbs)
    rcases least.eq_or_lt with rfl | more
    · exact ⟨0,0,rfl,by decide⟩
    · rw [Int.sign_eq_one_of_pos more,one_mul]
      exact nearestDouble_isDouble _

end Aprof.PyPlot
