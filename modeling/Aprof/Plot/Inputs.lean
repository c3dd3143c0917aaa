import Aprof.General.Doubles
import Aprof.SquareSums
import Mathlib.Algebra.BigOperators.Group.List.Basic
import Mathlib.Data.Rat.Cast.Order
import Mathlib.Order.Bounds.Basic
import Mathlib.Tactic.FieldSimp
import Mathlib.Tactic.Linarith
import Mathlib.Tactic.Ring

/-! The tuples of aprof-plot, `Input.java`; `mode` is `Main.getChartCostMode`. -/
namespace Aprof.Plot

structure Input where
  size : Int
  minCumulativeCost : ℚ
  maxCumulativeCost : ℚ
  sumCumulativeCost : ℚ
  sqrCumulativeCost : ℚ
  sumCumulativeRealCost : ℚ
  minSelfCost : ℚ
  maxSelfCost : ℚ
  sumSelfCost : ℚ
  sqrSelfCost : ℚ
  calls : Int
  sumCumulativeSyscallInput : Int
  sumCumulativeThreadInput : Int
  sumSelfSyscallInput : Int
  sumSelfThreadInput : Int
  amortizedIndex : Int := -1
  deriving DecidableEq

def unitInput : Input :=
  { size := 1, minCumulativeCost := 1, maxCumulativeCost := 1, sumCumulativeCost := 1, sqrCumulativeCost := 1,
    sumCumulativeRealCost := 1, minSelfCost := 1, maxSelfCost := 1, sumSelfCost := 1, sqrSelfCost := 1, calls := 1,
    sumCumulativeSyscallInput := 0, sumCumulativeThreadInput := 0, sumSelfSyscallInput := 0, sumSelfThreadInput := 0 }

/-- Numbers as such, or as Java computes with its longs and doubles. A quotient by 0 calls, which no
report has, is 0 here, and NaN or an infinity in Java. -/
inductive Numbers where
  | exact
  | java

namespace Numbers

def long : Numbers → Int → Int
  | .exact,n => n
  | .java,n => n.bmod (2 ^ 64)

def double : Numbers → ℚ → ℚ
  | .exact,q => q
  | .java,q => roundDouble q

@[simp] theorem exact_long (n : Int) : exact.long n = n := rfl

@[simp] theorem exact_double (q : ℚ) : exact.double q = q := rfl

/-- Numbers that are added to the first one after another -/
def addLongs (numbers : Numbers) (start : Int) (terms : List Int) : Int :=
  terms.foldl (fun sum term => numbers.long (sum + term)) start

def addDoubles (numbers : Numbers) (start : ℚ) (terms : List ℚ) : ℚ :=
  terms.foldl (fun sum term => numbers.double (sum + term)) start

theorem exact_addLongs (terms : List Int) (start : Int) : exact.addLongs start terms = start + terms.sum := by
  induction terms generalizing start with
  | nil => exact (add_zero start).symm
  | cons term terms ih => exact (ih (start + term)).trans (by rw [List.sum_cons,add_assoc])

theorem exact_addDoubles (terms : List ℚ) (start : ℚ) : exact.addDoubles start terms = start + terms.sum := by
  induction terms generalizing start with
  | nil => exact (add_zero start).symm
  | cons term terms ih => exact (ih (start + term)).trans (by rw [List.sum_cons,add_assoc])

theorem java_addLongs (terms : List Int) (term start : Int) :
    java.addLongs start (term :: terms) = (start + (term :: terms).sum).bmod (2 ^ 64) := by
  induction terms generalizing term start with
  | nil => rw [List.sum_singleton]; rfl
  | cons next terms ih =>
    refine (ih next (java.long (start + term))).trans ?_
    rw [long,Int.bmod_add_bmod,List.sum_cons (a := term),add_assoc]

end Numbers

namespace Input

def getSumCost (mode : CostType) (tuple : Input) : ℚ :=
  match mode with
  | .cumulative => tuple.sumCumulativeCost
  | .self => tuple.sumSelfCost

def getSqrCost (mode : CostType) (tuple : Input) : ℚ :=
  match mode with
  | .cumulative => tuple.sqrCumulativeCost
  | .self => tuple.sqrSelfCost

def getAvgCost (numbers : Numbers) (mode : CostType) (tuple : Input) : ℚ :=
  numbers.double (tuple.getSumCost mode / numbers.double tuple.calls)

theorem getAvgCost_exact (mode : CostType) (tuple : Input) :
    tuple.getAvgCost .exact mode = tuple.getSumCost mode / tuple.calls := rfl

def getSumCumulativeRealCost (mode : CostType) (tuple : Input) : ℚ :=
  if tuple.sumCumulativeRealCost = 0 ∧ tuple.sumSelfCost = 0 then tuple.getSumCost mode
  else tuple.sumCumulativeRealCost

def getVar (numbers : Numbers) (mode : CostType) (tuple : Input) : Except String ℚ :=
  let calls := numbers.double tuple.calls
  let square := numbers.double
    (numbers.double (tuple.getSumCost mode / calls) * numbers.double (tuple.getSumCost mode / calls))
  let variance := numbers.double (numbers.double (tuple.getSqrCost mode / calls) - square)
  if variance < 0 then .error "Invalid variance" else .ok variance

theorem getVar_exact (mode : CostType) (tuple : Input) : tuple.getVar .exact mode =
    if tuple.getSqrCost mode / tuple.calls -
        tuple.getSumCost mode / tuple.calls * (tuple.getSumCost mode / tuple.calls) < 0 then .error "Invalid variance"
    else .ok (tuple.getSqrCost mode / tuple.calls -
      tuple.getSumCost mode / tuple.calls * (tuple.getSumCost mode / tuple.calls)) := rfl

/-- Four calls of 42443314 blocks and one of 42443315: the doubles lose the variance. -/
example : ({ unitInput with calls := 5, sumSelfCost := 212216571, sqrSelfCost := 4 * 42443314 ^ 2 + 42443315 ^ 2 } : Input).getVar
      .exact .self = .ok (4 / 25) ∧
    ({ unitInput with calls := 5, sumSelfCost := 212216571, sqrSelfCost := 4 * 42443314 ^ 2 + 42443315 ^ 2 } : Input).getVar
      .java .self = .error "Invalid variance" := by
  decide +kernel

/-- What `merge` leaves in a tuple of the size of the other. -/
def combined (numbers : Numbers) (mode : CostType) (this te : Input) : Input :=
  { this with
    minCumulativeCost := min this.minCumulativeCost te.minCumulativeCost
    maxCumulativeCost := max this.maxCumulativeCost te.maxCumulativeCost
    sumCumulativeCost := numbers.double (this.sumCumulativeCost + te.sumCumulativeCost)
    -- the square sum of the self costs goes here too, `sqr_self_cost` gets nothing
    sqrCumulativeCost := numbers.double (numbers.double (this.sqrCumulativeCost + te.sqrCumulativeCost) + te.sqrSelfCost)
    sumCumulativeRealCost := numbers.double (this.sumCumulativeRealCost + te.getSumCumulativeRealCost mode)
    minSelfCost := min te.minSelfCost this.minSelfCost
    maxSelfCost := max te.maxSelfCost this.maxSelfCost
    sumSelfCost := numbers.double (this.sumSelfCost + te.sumSelfCost)
    sumCumulativeSyscallInput := numbers.long (this.sumCumulativeSyscallInput + te.sumCumulativeSyscallInput)
    sumCumulativeThreadInput := numbers.long (this.sumCumulativeThreadInput + te.sumCumulativeThreadInput)
    sumSelfSyscallInput := numbers.long (this.sumSelfSyscallInput + te.sumSelfSyscallInput)
    sumSelfThreadInput := numbers.long (this.sumSelfThreadInput + te.sumSelfThreadInput)
    calls := numbers.long (this.calls + te.calls) }

/-- `merge`: its answer and `this` after it. -/
def merge (numbers : Numbers) (mode : CostType) (this te : Input) : Bool × Input :=
  if this.size ≠ te.size then (false,this) else (true,this.combined numbers mode te)

theorem merge_of_size {numbers : Numbers} {mode : CostType} {this te : Input} (equal : te.size = this.size) :
    this.merge numbers mode te = (true,this.combined numbers mode te) := by
  rw [merge,if_neg fun different => different equal.symm]

theorem merge_size (numbers : Numbers) (mode : CostType) (this te : Input) :
    (this.merge numbers mode te).2.size = this.size := by
  unfold merge
  split <;> rfl

/-- What the getter reads of `te` beyond its field. -/
def excess (mode : CostType) (te : Input) : ℚ := te.getSumCumulativeRealCost mode - te.sumCumulativeRealCost

end Input

/-- The fields that `merge` always aggregates. -/
def plainSums : List (Input → ℚ) := [Input.sumCumulativeCost,Input.sumSelfCost]

def counts : List (Input → Int) :=
  [Input.calls,Input.sumCumulativeSyscallInput,Input.sumCumulativeThreadInput,Input.sumSelfSyscallInput,
    Input.sumSelfThreadInput]

def minima : List (Input → ℚ) := [Input.minCumulativeCost,Input.minSelfCost]

def maxima : List (Input → ℚ) := [Input.maxCumulativeCost,Input.maxSelfCost]

structure Extremes (inputs : List Input) (result : Input) : Prop where
  least : ∀ field ∈ minima, IsLeast {value | ∃ input ∈ inputs, field input = value} (field result)
  greatest : ∀ field ∈ maxima, IsGreatest {value | ∃ input ∈ inputs, field input = value} (field result)

structure Gathers (inputs : List Input) (result : Input) : Prop extends Extremes inputs result where
  sums : ∀ field ∈ plainSums, field result = (inputs.map field).sum
  counts : ∀ field ∈ counts, field result = (inputs.map field).sum

/-- The tuple has every field of the others aggregated. -/
structure Aggregates (inputs : List Input) (result : Input) : Prop extends Gathers inputs result where
  sqrCumulative : result.sqrCumulativeCost = (inputs.map Input.sqrCumulativeCost).sum
  sqrSelf : result.sqrSelfCost = (inputs.map Input.sqrSelfCost).sum
  real : result.sumCumulativeRealCost = (inputs.map Input.sumCumulativeRealCost).sum

section
variable {inputs others : List Input} {result other : Input}

theorem Extremes.single (input : Input) : Extremes [input] input := by
  refine ⟨fun field _ => ?_,fun field _ => ?_⟩
  · refine ⟨⟨input,List.mem_singleton_self input,rfl⟩,?_⟩
    rintro _ ⟨same,member,rfl⟩
    rw [List.mem_singleton.mp member]
  · refine ⟨⟨input,List.mem_singleton_self input,rfl⟩,?_⟩
    rintro _ ⟨same,member,rfl⟩
    rw [List.mem_singleton.mp member]

theorem Gathers.single (input : Input) : Gathers [input] input := by
  refine ⟨.single input,fun field _ => ?_,fun field _ => ?_⟩ <;> rw [List.map_singleton,List.sum_singleton]

theorem Aggregates.single (input : Input) : Aggregates [input] input := by
  refine ⟨.single input,?_,?_,?_⟩ <;> rw [List.map_singleton,List.sum_singleton]

private theorem mem_append_values {α : Type} (field : Input → α) (inputs others : List Input) :
    {value | ∃ input ∈ inputs ++ others, field input = value} =
      {value | ∃ input ∈ inputs, field input = value} ∪ {value | ∃ input ∈ others, field input = value} := by
  ext value
  simp only [List.mem_append,Set.mem_ofPred_eq,Set.mem_union,or_and_right,exists_or]

theorem Extremes.combined (extremes : Extremes inputs result) (also : Extremes others other) (numbers : Numbers)
    (mode : CostType) : Extremes (inputs ++ others) (result.combined numbers mode other) := by
  refine ⟨fun field member => ?_,fun field member => ?_⟩
  · have union := (extremes.least field member).union (also.least field member)
    rw [mem_append_values]
    simp only [minima,List.mem_cons,List.not_mem_nil,or_false] at member
    rcases member with rfl | rfl
    · exact union
    · rw [min_comm] at union
      exact union
  · have union := (extremes.greatest field member).union (also.greatest field member)
    rw [mem_append_values]
    simp only [maxima,List.mem_cons,List.not_mem_nil,or_false] at member
    rcases member with rfl | rfl
    · exact union
    · rw [max_comm] at union
      exact union

theorem Gathers.combined (gathers : Gathers inputs result) (also : Gathers others other) (mode : CostType) :
    Gathers (inputs ++ others) (result.combined .exact mode other) := by
  refine ⟨gathers.toExtremes.combined also.toExtremes .exact mode,fun field member => ?_,fun field member => ?_⟩
  · rw [List.map_append,List.sum_append,← gathers.sums field member,← also.sums field member]
    simp only [plainSums,List.mem_cons,List.not_mem_nil,or_false] at member
    rcases member with rfl | rfl <;> rfl
  · rw [List.map_append,List.sum_append,← gathers.counts field member,← also.counts field member]
    simp only [Plot.counts,List.mem_cons,List.not_mem_nil,or_false] at member
    rcases member with rfl | rfl | rfl | rfl | rfl <;> rfl

/-- `merge` aggregates when `te` has no square sum of self costs and is read as it is. -/
theorem Aggregates.combined (aggregates : Aggregates inputs result) (also : Aggregates others other) {mode : CostType}
    (sqr : other.sqrSelfCost = 0) (read : other.excess mode = 0) :
    Aggregates (inputs ++ others) (result.combined .exact mode other) := by
  refine ⟨aggregates.toGathers.combined also.toGathers mode,?_,?_,?_⟩
  · rw [List.map_append,List.sum_append,← aggregates.sqrCumulative,← also.sqrCumulative]
    show result.sqrCumulativeCost + other.sqrCumulativeCost + other.sqrSelfCost = _
    rw [sqr,add_zero]
  · rw [List.map_append,List.sum_append,← aggregates.sqrSelf,← also.sqrSelf,sqr,add_zero]
    rfl
  · rw [List.map_append,List.sum_append,← aggregates.real,← also.real]
    rw [Input.excess,sub_eq_zero] at read
    rw [← read]
    rfl

end

/-- The tuple `first` after the others are merged into it. -/
def mergeAll (numbers : Numbers) (mode : CostType) (first : Input) (rest : List Input) : Input :=
  rest.foldl (fun this te => (this.merge numbers mode te).2) first

section
variable {numbers : Numbers} {mode : CostType}

theorem mergeAll_cons (numbers : Numbers) {te first : Input} (rest : List Input) (equal : te.size = first.size) :
    mergeAll numbers mode first (te :: rest) = mergeAll numbers mode (first.combined numbers mode te) rest := by
  rw [mergeAll,List.foldl_cons,Input.merge_of_size equal]
  rfl

theorem mergeAll_append (numbers : Numbers) (first te : Input) (rest : List Input) :
    mergeAll numbers mode first (rest ++ [te]) = ((mergeAll numbers mode first rest).merge numbers mode te).2 := by
  rw [mergeAll,List.foldl_append]
  rfl

theorem Extremes.mergeAll (rest : List Input) {gathered : List Input} {first : Input} (extremes : Extremes gathered first)
    (equal : ∀ te ∈ rest, te.size = first.size) : Extremes (gathered ++ rest) (mergeAll numbers mode first rest) := by
  induction rest generalizing gathered first with
  | nil =>
    rw [List.append_nil]
    exact extremes
  | cons te rest ih =>
    rw [mergeAll_cons numbers rest (equal te List.mem_cons_self),List.append_cons]
    exact ih (extremes.combined (.single te) numbers mode) fun other member => equal other (List.mem_cons_of_mem te member)

/-- What `merge` adds to the square sum of the cumulative costs -/
def Input.squares (te : Input) : List ℚ := [te.sqrCumulativeCost,te.sqrSelfCost]

theorem mergeAll_fields (numbers : Numbers) (mode : CostType) (rest : List Input) (first : Input)
    (equal : ∀ te ∈ rest, te.size = first.size) :
    (∀ field ∈ plainSums, field (mergeAll numbers mode first rest) = numbers.addDoubles (field first) (rest.map field)) ∧
      (∀ field ∈ counts, field (mergeAll numbers mode first rest) = numbers.addLongs (field first) (rest.map field)) ∧
      (mergeAll numbers mode first rest).sqrSelfCost = first.sqrSelfCost ∧
      (mergeAll numbers mode first rest).sqrCumulativeCost =
        numbers.addDoubles first.sqrCumulativeCost (rest.flatMap Input.squares) ∧
      (mergeAll numbers mode first rest).sumCumulativeRealCost =
        numbers.addDoubles first.sumCumulativeRealCost (rest.map (Input.getSumCumulativeRealCost mode)) := by
  induction rest generalizing first with
  | nil => exact ⟨fun _ _ => rfl,fun _ _ => rfl,rfl,rfl,rfl⟩
  | cons te rest ih =>
    rw [mergeAll_cons numbers rest (equal te List.mem_cons_self)]
    obtain ⟨sums,totals,sqrSelf,sqr,real⟩ := ih (first.combined numbers mode te)
      fun other member => equal other (List.mem_cons_of_mem te member)
    refine ⟨fun field member => (sums field member).trans ?_,fun field member => (totals field member).trans ?_,sqrSelf,sqr,real⟩
    · simp only [plainSums,List.mem_cons,List.not_mem_nil,or_false] at member
      rcases member with rfl | rfl <;> rfl
    · simp only [counts,List.mem_cons,List.not_mem_nil,or_false] at member
      rcases member with rfl | rfl | rfl | rfl | rfl <;> rfl

/-- Merging one after another aggregates exactly when no addition goes wrong and the square
sums of the self costs of the others come to 0. -/
theorem mergeAll_aggregates_iff (numbers : Numbers) (mode : CostType) (first : Input) (rest : List Input)
    (equal : ∀ te ∈ rest, te.size = first.size) :
    Aggregates (first :: rest) (mergeAll numbers mode first rest) ↔
      (rest.map Input.sqrSelfCost).sum = 0 ∧
      (∀ field ∈ plainSums, numbers.addDoubles (field first) (rest.map field) = field first + (rest.map field).sum) ∧
      (∀ field ∈ counts, numbers.addLongs (field first) (rest.map field) = field first + (rest.map field).sum) ∧
      numbers.addDoubles first.sqrCumulativeCost (rest.flatMap Input.squares) =
        first.sqrCumulativeCost + (rest.map Input.sqrCumulativeCost).sum ∧
      numbers.addDoubles first.sumCumulativeRealCost (rest.map (Input.getSumCumulativeRealCost mode)) =
        first.sumCumulativeRealCost + (rest.map Input.sumCumulativeRealCost).sum := by
  obtain ⟨sums,totals,sqrSelf,sqr,real⟩ := mergeAll_fields numbers mode rest first equal
  rw [← sqr,← real]
  constructor
  · intro aggregates
    have self := aggregates.sqrSelf
    rw [sqrSelf,List.map_cons,List.sum_cons] at self
    refine ⟨left_eq_add.mp self,fun field member => ?_,fun field member => ?_,?_,?_⟩
    · rw [← sums field member,← List.sum_cons,← List.map_cons]
      exact aggregates.sums field member
    · rw [← totals field member,← List.sum_cons,← List.map_cons]
      exact aggregates.counts field member
    · rw [← List.sum_cons,← List.map_cons]
      exact aggregates.sqrCumulative
    · rw [← List.sum_cons,← List.map_cons]
      exact aggregates.real
  · rintro ⟨self,doubles,longs,squares,read⟩
    refine ⟨⟨Extremes.mergeAll rest (.single first) equal,fun field member => ?_,fun field member => ?_⟩,?_,?_,?_⟩
    · rw [sums field member,doubles field member,List.map_cons,List.sum_cons]
    · rw [totals field member,longs field member,List.map_cons,List.sum_cons]
    · rw [squares,List.map_cons,List.sum_cons]
    · rw [sqrSelf,List.map_cons,List.sum_cons,self,add_zero]
    · rw [read,List.map_cons,List.sum_cons]

theorem sum_read (mode : CostType) (inputs : List Input) : (inputs.map (Input.getSumCumulativeRealCost mode)).sum =
    (inputs.map Input.sumCumulativeRealCost).sum + (inputs.map (Input.excess mode)).sum := by
  rw [← List.sum_map_add]
  congr 1
  exact List.map_congr_left fun te _ => by rw [Input.excess,add_sub_cancel]

theorem mergeAll_exact_iff (first : Input) (rest : List Input) (equal : ∀ te ∈ rest, te.size = first.size) :
    Aggregates (first :: rest) (mergeAll .exact mode first rest) ↔
      (rest.map Input.sqrSelfCost).sum = 0 ∧ (rest.map (Input.excess mode)).sum = 0 := by
  have squares : (rest.flatMap Input.squares).sum = (rest.map Input.sqrCumulativeCost).sum + (rest.map Input.sqrSelfCost).sum := by
    rw [List.flatMap_def,List.sum_flatten,List.map_map,← List.sum_map_add]
    congr 1
    exact List.map_congr_left fun te _ => List.sum_pair
  rw [mergeAll_aggregates_iff .exact mode first rest equal]
  simp only [Numbers.exact_addDoubles,Numbers.exact_addLongs,implies_true,true_and,squares,sum_read,add_right_inj,add_eq_left]
  exact ⟨fun both => ⟨both.1,both.2.2⟩,fun both => ⟨both.1,both.1,both.2⟩⟩

end

end Aprof.Plot
