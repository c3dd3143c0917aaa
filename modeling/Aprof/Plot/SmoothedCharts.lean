import Aprof.Plot.Smoothing

/-! When smoothing shows one centred average for every tuple. -/
namespace Aprof.Plot

namespace ThresholdPanel

section
variable (java : Java) (mode : CostType) (panel : ThresholdPanel)

/-- The window adds up the y values as doubles: of up to `2 * r + 1` first or last tuples that
pass, and of so many or one more in a row. -/
def Summable (r : Nat) (shown : List Input) : Prop :=
  ∀ i j, Window.Visited (2 * r + 1) shown.length i j →
    IsDouble ((span shown i j).map (panel.val mode)).sum.1 ∧ IsDouble ((span shown i j).map (panel.val mode)).sum.2.1 ∧
      IsDouble ((span shown i j).map (panel.val mode)).sum.2.2

end

section
variable {java : Java} {mode : CostType} {panel : ThresholdPanel} {largest : Int} {level count : Nat}

section
variable {r : Nat} {list : List Input}

theorem Summable.kept {shown : List Input} (summable : panel.Summable mode r shown) (i j : Nat)
    (visited : Window.Visited (2 * r + 1) shown.length i j) : Window.Kept .java (panel.val mode) shown i j := by
  obtain ⟨first,second,third⟩ := summable i j visited
  exact Prod.ext (roundDouble_exact first) (Prod.ext (roundDouble_exact second) (roundDouble_exact third))

end

end

end ThresholdPanel

end Aprof.Plot
