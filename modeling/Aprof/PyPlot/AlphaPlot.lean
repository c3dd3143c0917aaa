import Mathlib.Algebra.Order.Archimedean.Basic
import Mathlib.Algebra.Order.BigOperators.Group.List
import Mathlib.Data.Rat.Floor
import Mathlib.Tactic.Linarith
import Mathlib.Tactic.NormNum
import Mathlib.Tactic.Positivity

/-! The search of `AlphaPlot` in `functionSet.py`, over exact rationals. A pass goes over
the total costs with a budget: a cost below the budget is paid and counted, any other one
adds alpha times itself to the budget. Alpha grows until all costs but the first are paid. -/
namespace Aprof.PyPlot

def pass (alpha : ℚ) : List ℚ → ℚ → Nat → Nat
  | [],_,count => count
  | y :: rest,budget,count =>
    if y < budget then pass alpha rest (budget - y) (count + 1) else pass alpha rest (budget + alpha * y) count

/-- `pred` is the count of the pass before; `points` are the pairs of `z` and `p`. -/
structure AlphaSearch where
  alpha : ℚ
  pred : Nat
  count : Nat
  points : List (ℚ × Int)
  deriving DecidableEq

namespace AlphaSearch

def turn (y : List ℚ) (search : AlphaSearch) : AlphaSearch where
  alpha := search.alpha * (3 / 2)
  pred := search.count
  count := pass (search.alpha * (3 / 2)) y 0 0
  points := if search.count > search.pred then search.points ++ [(search.alpha,(y.length : Int) - search.count)] else search.points

def run (y : List ℚ) : Nat → AlphaSearch → Option AlphaSearch
  | 0,_ => none
  | fuel + 1,search => if (search.count : Int) ≠ y.length - 1 then run y fuel (search.turn y) else some search

def start : AlphaSearch := ⟨1,0,0,[(0,0)]⟩

end AlphaSearch

/-- The plotted points; `none` when the turns run out. -/
def alphaPlot (fuel : Nat) (y : List ℚ) : Option (List (ℚ × Int)) :=
  (AlphaSearch.start.run y fuel).map AlphaSearch.points

/-- A plotted point after the first stands for a count. -/
def recordedCounts (y : List ℚ) (points : List (ℚ × Int)) : List Int := points.tail.map fun point => y.length - point.2

/-- The count that pass `k` ends with, 0 before the first one. -/
def passCount (y : List ℚ) (k : Nat) : Nat := if k = 0 then 0 else pass ((3 / 2) ^ k) y 0 0

/-- The points of the passes before `last` that count more than the pass before them. -/
def risingPoints (y : List ℚ) (last : Nat) : List (ℚ × Int) :=
  ((List.range last).filter fun k => passCount y (k - 1) < passCount y k).map fun k =>
    ((3 / 2) ^ k,(y.length : Int) - passCount y k)

section
variable {alpha : ℚ} {y : List ℚ}

theorem pass_le (alpha : ℚ) (y : List ℚ) (budget : ℚ) (count : Nat) : pass alpha y budget count ≤ count + y.length := by
  induction y generalizing budget count with
  | nil => exact Nat.le_refl count
  | cons c rest ih =>
    unfold pass
    rw [List.length_cons]
    split
    · exact (ih _ _).trans (by omega)
    · exact (ih _ _).trans (by omega)

theorem pass_first {c : ℚ} (cost : 0 ≤ c) (rest : List ℚ) : pass alpha (c :: rest) 0 0 = pass alpha rest (alpha * c) 0 := by
  rw [pass,if_neg (not_lt.mpr cost),zero_add]

theorem passCount_le (costs : ∀ c ∈ y, 0 ≤ c) (k : Nat) : passCount y k ≤ y.length - 1 := by
  unfold passCount
  split
  · exact Nat.zero_le _
  · cases y with
    | nil => exact Nat.le_refl 0
    | cons c rest =>
      rw [pass_first (costs c List.mem_cons_self)]
      exact (pass_le _ rest _ 0).trans (by rw [Nat.zero_add]; rfl)

theorem pass_all (costs : ∀ c ∈ y, 0 ≤ c) {budget : ℚ} (large : y.sum < budget) (count : Nat) :
    pass alpha y budget count = count + y.length := by
  induction y generalizing budget count with
  | nil => rfl
  | cons c rest ih =>
    have others : ∀ c ∈ rest, 0 ≤ c := fun c member => costs c (List.mem_cons_of_mem _ member)
    have positive := List.sum_nonneg others
    rw [List.sum_cons] at large
    rw [pass,if_pos (by linarith),ih others (by linarith),List.length_cons]
    omega

theorem passCount_reaches (costs : ∀ c ∈ y, 0 ≤ c) (nonempty : y ≠ []) (first : 0 < y.head nonempty) :
    ∃ k, passCount y k = y.length - 1 := by
  cases y with
  | nil => exact absurd rfl nonempty
  | cons c rest =>
    have positive : 0 < c := first
    obtain ⟨n,large⟩ := pow_unbounded_of_one_lt (rest.sum / c) (show (1 : ℚ) < 3 / 2 by norm_num)
    have larger : (3 / 2 : ℚ) ^ n ≤ (3 / 2) ^ (n + 1) := pow_le_pow_right₀ (by norm_num) (Nat.le_succ n)
    have budget : rest.sum < (3 / 2) ^ (n + 1) * c := (div_lt_iff₀ positive).mp (large.trans_le larger)
    refine ⟨n + 1,?_⟩
    unfold passCount
    rw [if_neg (Nat.succ_ne_zero n),pass_first positive.le,
      pass_all (fun c member => costs c (List.mem_cons_of_mem _ member)) budget,Nat.zero_add]
    rfl

/-- The state before turn `k`. -/
def stateAt (y : List ℚ) (k : Nat) : AlphaSearch := ⟨(3 / 2) ^ k,passCount y (k - 1),passCount y k,(0,0) :: risingPoints y k⟩

theorem stateAt_zero (y : List ℚ) : stateAt y 0 = .start := by
  unfold stateAt
  rw [pow_zero]
  rfl

theorem stateAt_turn (y : List ℚ) (k : Nat) : (stateAt y k).turn y = stateAt y (k + 1) := by
  have counted : passCount y (k + 1) = pass ((3 / 2) ^ (k + 1)) y 0 0 := if_neg (Nat.succ_ne_zero k)
  have points : risingPoints y (k + 1) = risingPoints y k ++
      if passCount y (k - 1) < passCount y k then [((3 / 2) ^ k,(y.length : Int) - passCount y k)] else [] := by
    unfold risingPoints
    rw [List.range_succ,List.filter_append,List.map_append,List.filter_singleton]
    split
    · next rises => rw [decide_eq_true rises]; rfl
    · next falls => rw [decide_eq_false falls]; rfl
  unfold AlphaSearch.turn stateAt
  rw [points,counted,pow_succ,Nat.add_sub_cancel]
  congr 1
  dsimp only
  split
  · rfl
  · rw [List.append_nil]

theorem run_stateAt (nonempty : y ≠ []) {last : Nat} (done : passCount y last = y.length - 1)
    (earlier : ∀ k < last, passCount y k ≠ y.length - 1) (left : Nat) : left ≤ last →
    (stateAt y (last - left)).run y (left + 1) = some (stateAt y last) := by
  have positive := List.length_pos_of_ne_nil nonempty
  induction left with
  | zero =>
    intro _
    unfold AlphaSearch.run
    refine if_neg (not_not.mpr ?_)
    show (passCount y last : Int) = y.length - 1
    omega
  | succ left ih =>
    intro inside
    have more : ((stateAt y (last - (left + 1))).count : Int) ≠ y.length - 1 := by
      have other := earlier (last - (left + 1)) (by omega)
      show (passCount y (last - (left + 1)) : Int) ≠ y.length - 1
      omega
    have next : last - (left + 1) + 1 = last - left := by omega
    rw [AlphaSearch.run,if_pos more,stateAt_turn,next]
    exact ih (by omega)

theorem run_forever (nonempty : y ≠ []) (never : ∀ k, passCount y k ≠ y.length - 1) (fuel k : Nat) :
    (stateAt y k).run y fuel = none := by
  have positive := List.length_pos_of_ne_nil nonempty
  induction fuel generalizing k with
  | zero => rfl
  | succ fuel ih =>
    have more : ((stateAt y k).count : Int) ≠ y.length - 1 := by
      have other := never k
      show (passCount y k : Int) ≠ y.length - 1
      omega
    rw [AlphaSearch.run,if_pos more,stateAt_turn]
    exact ih (k + 1)

theorem run_unique {fuel fuel' : Nat} {search left right : AlphaSearch} (first : search.run y fuel = some left)
    (second : search.run y fuel' = some right) : left = right := by
  induction fuel generalizing fuel' search with
  | zero => cases first
  | succ fuel ih =>
    cases fuel' with
    | zero => cases second
    | succ fuel' =>
      unfold AlphaSearch.run at first second
      split at first
      · next more =>
        rw [if_pos more] at second
        exact ih first second
      · next done =>
        rw [if_neg done] at second
        exact Option.some.inj (first.symm.trans second)

end

theorem alphaPlot_ends {y : List ℚ} (nonempty : y ≠ []) {k : Nat} (reached : passCount y k = y.length - 1) :
    ∃ last, passCount y last = y.length - 1 ∧ alphaPlot (last + 1) y = some ((0,0) :: risingPoints y last) := by
  have found : ∃ k, passCount y k = y.length - 1 := ⟨k,reached⟩
  refine ⟨Nat.find found,Nat.find_spec found,?_⟩
  have ran := run_stateAt nonempty (Nat.find_spec found) (fun k below => Nat.find_min found below) (Nat.find found) le_rfl
  rw [Nat.sub_self,stateAt_zero] at ran
  unfold alphaPlot
  exact congrArg (Option.map AlphaSearch.points) ran

theorem alphaPlot_stuck {c : ℚ} {rest : List ℚ} (costs : ∀ d ∈ c :: rest, 0 ≤ d) (fuel : Nat) :
    alphaPlot fuel (0 :: c :: rest) = none := by
  have never : ∀ k, passCount (0 :: c :: rest) k ≠ (0 :: c :: rest).length - 1 := by
    intro k
    unfold passCount
    split
    · rw [List.length_cons,List.length_cons]
      omega
    · rw [pass_first le_rfl,mul_zero,pass_first (costs c List.mem_cons_self)]
      have bound := pass_le ((3 / 2 : ℚ) ^ k) rest ((3 / 2) ^ k * c) 0
      rw [List.length_cons,List.length_cons]
      omega
  have stuck := run_forever (List.cons_ne_nil 0 (c :: rest)) never fuel 0
  rw [stateAt_zero] at stuck
  exact congrArg (Option.map AlphaSearch.points) stuck

/-- The loop ends, the recorded counts are strictly increasing and leave out one tuple. -/
def SearchEnds (y : List ℚ) : Prop :=
  ∃ fuel points, alphaPlot fuel y = some points ∧ (recordedCounts y points).Pairwise (· < ·) ∧
    ∀ count ∈ recordedCounts y points, count ≤ y.length - 1

/-- From a positive first cost the loop ends, and it records the passes that count more than the pass
before them. -/
theorem alpha_search_ends (y : List ℚ) (nonempty : y ≠ []) (costs : ∀ c ∈ y, 0 ≤ c)
    (first : y.length = 1 ∨ 0 < y.head nonempty) :
    ∃ fuel points, alphaPlot fuel y = some points ∧ ∀ count ∈ recordedCounts y points,
      count ≤ y.length - 1 ∧ ∃ k, count = passCount y k ∧ passCount y (k - 1) < passCount y k := by
  have reached : ∃ k, passCount y k = y.length - 1 := by
    rcases first with single | positive
    · exact ⟨0,by rw [single]; rfl⟩
    · exact passCount_reaches costs nonempty positive
  obtain ⟨k,reached⟩ := reached
  obtain ⟨last,-,ended⟩ := alphaPlot_ends nonempty reached
  refine ⟨last + 1,_,ended,fun count member => ?_⟩
  obtain ⟨point,inside,rfl⟩ := List.mem_map.mp member
  obtain ⟨k,rising,rfl⟩ := List.mem_map.mp inside
  have rises := of_decide_eq_true (List.mem_filter.mp rising).2
  have bound := passCount_le costs k
  have positive := List.length_pos_of_ne_nil nonempty
  dsimp only
  refine ⟨?_,k,by omega,rises⟩
  omega

theorem alpha_search_four : ∃ fuel points, alphaPlot fuel [3,6,2,6] = some points ∧ recordedCounts [3,6,2,6] points = [2,2] ∧
    ∀ count ∈ recordedCounts [3,6,2,6] points, count ≤ ([3,6,2,6] : List ℚ).length - 1 ∧
      ∃ k, count = passCount [3,6,2,6] k ∧ passCount [3,6,2,6] (k - 1) < passCount [3,6,2,6] k := by
  obtain ⟨fuel,points,ended,rising⟩ :=
    alpha_search_ends [3,6,2,6] (List.cons_ne_nil 3 [6,2,6]) (by simp) (.inr (by norm_num))
  have ran : alphaPlot 5 [3,6,2,6] = some [(0,0),(3 / 2,2),(27 / 8,2)] := by decide +kernel
  obtain ⟨last,stopped,rfl⟩ := Option.map_eq_some_iff.mp ended
  obtain ⟨last',stopped',same⟩ := Option.map_eq_some_iff.mp ran
  have points := congrArg AlphaSearch.points (run_unique stopped stopped')
  refine ⟨fuel,_,ended,?_,rising⟩
  rw [points,same]
  decide +kernel

/-- A count that falls and rises again is recorded twice, and after a first cost of 0 the loop does
not end. -/
theorem alpha_counts_repeat : ¬ SearchEnds [3,6,2,6] ∧ ¬ SearchEnds [0,5] := by
  constructor
  · rintro ⟨fuel,points,ended,increasing,-⟩
    have ran : alphaPlot 5 [3,6,2,6] = some [(0,0),(3 / 2,2),(27 / 8,2)] := by decide +kernel
    obtain ⟨last,stopped,rfl⟩ := Option.map_eq_some_iff.mp ended
    obtain ⟨last',stopped',same⟩ := Option.map_eq_some_iff.mp ran
    rw [run_unique stopped stopped',same] at increasing
    exact absurd increasing (by decide)
  · rintro ⟨fuel,points,ended,-⟩
    rw [alphaPlot_stuck (by simp)] at ended
    cases ended

end Aprof.PyPlot
