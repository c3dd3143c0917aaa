import Aprof.Plot.Inputs

/-! Tuples of one size merged in any order and grouping. -/
namespace Aprof.Plot

/-- A way to merge tuples: `node` merges the second result into the first. -/
inductive MergeTree where
  | leaf (input : Input)
  | node (this te : MergeTree)

namespace MergeTree

def leaves : MergeTree → List Input
  | .leaf input => [input]
  | .node this te => this.leaves ++ te.leaves

def run (numbers : Numbers) (mode : CostType) : MergeTree → Input
  | .leaf input => input
  | .node this te => ((this.run numbers mode).merge numbers mode (te.run numbers mode)).2

/-- The tree that merges the inputs one after another into a tree. -/
def comb (first : MergeTree) (rest : List Input) : MergeTree :=
  rest.foldl (fun tree input => .node tree (.leaf input)) first

section
variable {numbers : Numbers} {mode : CostType}

theorem comb_leaves (rest : List Input) (first : MergeTree) : (first.comb rest).leaves = first.leaves ++ rest := by
  induction rest generalizing first with
  | nil => rw [List.append_nil]; rfl
  | cons input rest ih =>
    rw [comb,List.foldl_cons]
    exact (ih _).trans (List.append_assoc first.leaves [input] rest)

theorem comb_run (rest : List Input) (first : MergeTree) :
    (first.comb rest).run numbers mode = mergeAll numbers mode (first.run numbers mode) rest := by
  induction rest generalizing first with
  | nil => rfl
  | cons input rest ih => exact ih (.node first (.leaf input))

theorem leaves_ne_nil (tree : MergeTree) : tree.leaves ≠ [] := by
  induction tree with
  | leaf input => exact List.cons_ne_nil input []
  | node this te left right => exact List.append_ne_nil_of_left_ne_nil left te.leaves

theorem run_size {size : Int} (tree : MergeTree) (equal : ∀ input ∈ tree.leaves, input.size = size) :
    (tree.run numbers mode).size = size := by
  induction tree with
  | leaf input => exact equal input (List.mem_singleton_self input)
  | node this te left right =>
    rw [run,Input.merge_size]
    exact left fun input member => equal input (List.mem_append_left te.leaves member)

end

end MergeTree

/-- No proper part of the tuples has real and self costs 0 but a cumulative cost. -/
def NoOldPart (mode : CostType) (inputs : List Input) : Prop :=
  mode = .cumulative → ∀ part rest, part ≠ [] → rest ≠ [] → (part ++ rest).Perm inputs →
    (part.map Input.sumCumulativeRealCost).sum = 0 → (part.map Input.sumSelfCost).sum = 0 →
    (part.map Input.sumCumulativeCost).sum = 0

section
variable {mode : CostType} {inputs part rest : List Input}

theorem NoOldPart.within (proper : NoOldPart mode inputs) (split : (part ++ rest).Perm inputs) : NoOldPart mode part := by
  intro cumulative inner outer nonempty inhabited inside
  refine proper cumulative inner (outer ++ rest) nonempty ?_ ?_
  · exact List.append_ne_nil_of_left_ne_nil inhabited rest
  · rw [← List.append_assoc]
    exact (inside.append_right rest).trans split

theorem Aggregates.excess_eq_zero_iff {result : Input} (aggregates : Aggregates inputs result) :
    result.excess mode = 0 ↔ (mode = .cumulative → (inputs.map Input.sumCumulativeRealCost).sum = 0 →
      (inputs.map Input.sumSelfCost).sum = 0 → (inputs.map Input.sumCumulativeCost).sum = 0) := by
  have cumulative := aggregates.sums Input.sumCumulativeCost (by simp [plainSums])
  have self := aggregates.sums Input.sumSelfCost (by simp [plainSums])
  rw [← cumulative,← self,← aggregates.real,Input.excess,Input.getSumCumulativeRealCost]
  by_cases old : result.sumCumulativeRealCost = 0 ∧ result.sumSelfCost = 0
  · rw [if_pos old,old.1,old.2,sub_zero]
    cases mode with
    | cumulative => simp [Input.getSumCost]
    | self => simp [Input.getSumCost,old.2]
  · rw [if_neg old,sub_self]
    refine iff_of_true rfl fun _ real self => absurd ⟨real,self⟩ old

theorem MergeTree.aggregates {size : Int} (tree : MergeTree) (equal : ∀ input ∈ tree.leaves, input.size = size)
    (sqr : ∀ input ∈ tree.leaves, input.sqrSelfCost = 0) (proper : NoOldPart mode tree.leaves) :
    Aggregates tree.leaves (tree.run .exact mode) := by
  induction tree with
  | leaf input => exact .single input
  | node this te left right =>
    have equalThis := fun input member => equal input (List.mem_append_left te.leaves member)
    have equalTe := fun input member => equal input (List.mem_append_right this.leaves member)
    have swapped : (te.leaves ++ this.leaves).Perm (this.leaves ++ te.leaves) := List.perm_append_comm
    have first := left equalThis (fun input member => sqr input (List.mem_append_left te.leaves member))
      (proper.within (.refl _))
    have second := right equalTe (fun input member => sqr input (List.mem_append_right this.leaves member))
      (proper.within swapped)
    rw [run,Input.merge_of_size ((te.run_size equalTe).trans (this.run_size equalThis).symm),leaves]
    apply first.combined second
    · rw [second.sqrSelf]
      apply List.sum_eq_zero
      intro value member
      obtain ⟨input,inside,rfl⟩ := List.mem_map.mp member
      exact sqr input (List.mem_append_right this.leaves inside)
    · rw [second.excess_eq_zero_iff]
      exact fun cumulative => proper cumulative te.leaves this.leaves te.leaves_ne_nil this.leaves_ne_nil swapped

theorem eq_zero_of_eq_sum (values : List ℚ) (several : 2 ≤ values.length) (whole : ∀ value ∈ values, value = values.sum) :
    ∀ value ∈ values, value = 0 := by
  have total : values.sum = values.length * values.sum := by
    have equal := List.eq_replicate_of_mem whole
    conv_lhs => rw [equal]
    rw [List.sum_replicate,nsmul_eq_mul]
  have two : (2 : ℚ) ≤ values.length := by exact_mod_cast several
  have zero : values.sum = 0 := by
    have product : (values.length - 1 : ℚ) * values.sum = 0 := by linarith
    rcases mul_eq_zero.mp product with one | zero
    · linarith
    · exact zero
  intro value member
  exact (whole value member).trans zero

end

section
variable {mode : CostType} {inputs others : List Input} {result : Input}

theorem Aggregates.perm (aggregates : Aggregates inputs result) (same : inputs.Perm others) : Aggregates others result := by
  have values : ∀ field : Input → ℚ, {value | ∃ input ∈ others, field input = value} =
      {value | ∃ input ∈ inputs, field input = value} := by
    intro field
    ext value
    simp only [Set.mem_ofPred_eq,same.mem_iff]
  refine ⟨⟨⟨fun field member => ?_,fun field member => ?_⟩,fun field member => ?_,fun field member => ?_⟩,?_,?_,?_⟩
  · rw [values]
    exact aggregates.least field member
  · rw [values]
    exact aggregates.greatest field member
  · rw [aggregates.sums field member,(same.map field).sum_eq]
  · rw [aggregates.counts field member,(same.map field).sum_eq]
  · rw [aggregates.sqrCumulative,(same.map _).sum_eq]
  · rw [aggregates.sqrSelf,(same.map _).sum_eq]
  · rw [aggregates.real,(same.map _).sum_eq]

/-- When merging one after another aggregates in every order, what `merge` loses is 0. -/
theorem merged_first {size : Int} (equal : ∀ input ∈ inputs, input.size = size) (several : 2 ≤ inputs.length)
    (all : ∀ tree : MergeTree, tree.leaves.Perm inputs → Aggregates inputs (tree.run .exact mode)) :
    ∀ input ∈ inputs, input.sqrSelfCost = 0 ∧ input.excess mode = 0 := by
  have orders : ∀ input ∈ inputs, input.sqrSelfCost = (inputs.map Input.sqrSelfCost).sum ∧
      input.excess mode = (inputs.map (Input.excess mode)).sum := by
    intro input member
    have order := List.perm_cons_erase member
    have aggregates := all ((MergeTree.leaf input).comb (inputs.erase input)) (by rw [MergeTree.comb_leaves]; exact order.symm)
    rw [MergeTree.comb_run] at aggregates
    have sizes : ∀ te ∈ inputs.erase input, te.size = input.size :=
      fun te inside => (equal te (List.mem_of_mem_erase inside)).trans (equal input member).symm
    obtain ⟨sqr,read⟩ := (mergeAll_exact_iff input _ sizes).mp (aggregates.perm order)
    rw [(order.map Input.sqrSelfCost).sum_eq,(order.map (Input.excess mode)).sum_eq,List.map_cons,List.sum_cons,sqr,
      List.map_cons,List.sum_cons,read,add_zero,add_zero]
    exact ⟨rfl,rfl⟩
  have zero : ∀ field : Input → ℚ, (∀ input ∈ inputs, field input = (inputs.map field).sum) →
      ∀ input ∈ inputs, field input = 0 := by
    intro field whole input member
    refine eq_zero_of_eq_sum (inputs.map field) (by rw [List.length_map]; exact several) ?_ _ (List.mem_map_of_mem member)
    intro value inside
    obtain ⟨other,known,rfl⟩ := List.mem_map.mp inside
    exact whole other known
  exact fun input member => ⟨zero _ (fun other inside => (orders other inside).1) input member,
    zero _ (fun other inside => (orders other inside).2) input member⟩

theorem merged_part {size : Int} (nonempty : inputs ≠ []) (equal : ∀ input ∈ inputs, input.size = size)
    (sqr : ∀ input ∈ inputs, input.sqrSelfCost = 0) (proper : NoOldPart mode inputs) :
    ∃ tree : MergeTree, tree.leaves = inputs ∧ Aggregates inputs (tree.run .exact mode) ∧
      (tree.run .exact mode).size = size := by
  obtain ⟨first,more,rfl⟩ := List.exists_cons_of_ne_nil nonempty
  have leaves : ((MergeTree.leaf first).comb more).leaves = first :: more := MergeTree.comb_leaves more _
  refine ⟨(MergeTree.leaf first).comb more,leaves,?_,?_⟩
  · rw [← leaves] at equal sqr proper
    have aggregates := MergeTree.aggregates _ equal sqr proper
    rw [leaves] at aggregates
    exact aggregates
  · rw [← leaves] at equal
    exact MergeTree.run_size _ equal

theorem merged_parts {size : Int} (equal : ∀ input ∈ inputs, input.size = size)
    (all : ∀ tree : MergeTree, tree.leaves.Perm inputs → Aggregates inputs (tree.run .exact mode))
    (alone : ∀ input ∈ inputs, input.sqrSelfCost = 0 ∧ input.excess mode = 0) : NoOldPart mode inputs := by
  intro cumulative part
  -- larger parts rest on the smaller ones, which make the merged part exact
  induction long : part.length using Nat.strong_induction_on generalizing part with
  | _ n ih =>
    intro rest nonempty inhabited split
    obtain ⟨last,others,rfl⟩ := List.exists_cons_of_ne_nil inhabited
    have inside : ∀ input ∈ part, input ∈ inputs := fun input member => split.subset (List.mem_append_left _ member)
    have outside : ∀ input ∈ last :: others, input ∈ inputs := fun input member => split.subset (List.mem_append_right _ member)
    have proper : NoOldPart mode part := by
      intro _ inner outer some other within
      refine ih inner.length ?_ inner rfl (outer ++ last :: others) some (List.append_ne_nil_of_left_ne_nil other _) ?_
      · have lengths := within.length_eq
        rw [List.length_append] at lengths
        have positive := List.length_pos_of_ne_nil other
        omega
      · rw [← List.append_assoc]
        exact (within.append_right _).trans split
    obtain ⟨tree,leaves,merged,sized⟩ := merged_part nonempty (fun input member => equal input (inside input member))
      (fun input member => (alone input (inside input member)).1) proper
    have order : (last :: part ++ others).Perm inputs := by
      refine List.Perm.trans ?_ split
      rw [List.cons_append]
      exact List.perm_middle.symm
    have aggregates := all ((MergeTree.node (.leaf last) tree).comb others) (by
      rw [MergeTree.comb_leaves,MergeTree.leaves,leaves]
      exact order)
    have apart := sized.trans (equal last (outside last List.mem_cons_self)).symm
    rw [MergeTree.comb_run,MergeTree.run,MergeTree.run,Input.merge_of_size apart] at aggregates
    have sizes : ∀ te ∈ others, te.size = (last.combined .exact mode (tree.run .exact mode)).size :=
      fun te member => (equal te (outside te (List.mem_cons_of_mem last member))).trans
        (equal last (outside last List.mem_cons_self)).symm
    obtain ⟨-,-,-,-,real⟩ := mergeAll_fields .exact mode others _ sizes
    rw [Numbers.exact_addDoubles,sum_read] at real
    have zero : (others.map (Input.excess mode)).sum = 0 := by
      apply List.sum_eq_zero
      intro value member
      obtain ⟨input,known,rfl⟩ := List.mem_map.mp member
      exact (alone input (outside input (List.mem_cons_of_mem last known))).2
    have total := (aggregates.perm order.symm).real
    rw [List.map_append,List.sum_append,List.map_cons,List.sum_cons,← merged.real] at total
    have read : (tree.run .exact mode).excess mode = 0 := by
      rw [Input.excess]
      have own : (last.combined .exact mode (tree.run .exact mode)).sumCumulativeRealCost =
        last.sumCumulativeRealCost + (tree.run .exact mode).getSumCumulativeRealCost mode := rfl
      rw [own] at real
      dsimp only at total
      linarith
    exact merged.excess_eq_zero_iff.mp read cumulative

end

def variance (costs : List ℚ) : ℚ :=
  (costs.map fun cost => (cost - costs.sum / costs.length) ^ 2).sum / costs.length

theorem sum_deviations (costs : List ℚ) (mean : ℚ) :
    (costs.map fun cost => (cost - mean) ^ 2).sum =
      (costs.map (· ^ 2)).sum - 2 * mean * costs.sum + costs.length * mean ^ 2 := by
  induction costs with
  | nil => simp
  | cons cost costs ih =>
    rw [List.map_cons,List.sum_cons,ih,List.map_cons,List.sum_cons,List.sum_cons,List.length_cons,Nat.cast_succ]
    ring

theorem variance_nonneg (costs : List ℚ) : 0 ≤ variance costs := by
  apply div_nonneg
  · apply List.sum_nonneg
    intro value member
    obtain ⟨cost,-,rfl⟩ := List.mem_map.mp member
    exact sq_nonneg _
  · exact Nat.cast_nonneg _

/-- The tuple of some calls, whose costs in the mode are known. -/
structure Records (mode : CostType) (tuple : Input) (costs : List ℚ) : Prop where
  called : costs ≠ []
  calls : tuple.calls = costs.length
  sum : tuple.getSumCost mode = costs.sum
  sqr : tuple.getSqrCost mode = (costs.map (· ^ 2)).sum

section
variable {mode : CostType} {inputs : List Input} {tuple result : Input} {costs : List ℚ}

theorem Records.getVar (records : Records mode tuple costs) : tuple.getVar .exact mode = .ok (variance costs) := by
  have positive : (0 : ℚ) < costs.length := by exact_mod_cast List.length_pos_of_ne_nil records.called
  have formula : tuple.getSqrCost mode / tuple.calls -
      tuple.getSumCost mode / tuple.calls * (tuple.getSumCost mode / tuple.calls) = variance costs := by
    rw [records.calls,records.sum,records.sqr,variance,sum_deviations,Int.cast_natCast]
    field_simp
    ring
  rw [Input.getVar_exact,formula]
  exact if_neg (not_lt.mpr (variance_nonneg costs))

private theorem records_sums {lists : List (List ℚ)} (records : List.Forall₂ (Records mode) inputs lists) :
    (inputs.map Input.calls).sum = lists.flatten.length ∧
      (inputs.map (Input.getSumCost mode)).sum = lists.flatten.sum ∧
      (inputs.map (Input.getSqrCost mode)).sum = (lists.flatten.map (· ^ 2)).sum := by
  induction records with
  | nil => exact ⟨rfl,rfl,rfl⟩
  | cons first rest ih =>
    obtain ⟨calls,sum,sqr⟩ := ih
    simp only [List.map_cons,List.sum_cons,List.flatten_cons,List.length_append,Nat.cast_add,List.map_append,List.sum_append]
    exact ⟨by rw [first.calls,calls],by rw [first.sum,sum],by rw [first.sqr,sqr]⟩

theorem Aggregates.records (aggregates : Aggregates inputs result) (nonempty : inputs ≠ []) {lists : List (List ℚ)}
    (records : List.Forall₂ (Records mode) inputs lists) : Records mode result lists.flatten := by
  obtain ⟨calls,sum,sqr⟩ := records_sums records
  refine ⟨?_,?_,?_,?_⟩
  · cases records with
    | nil => exact absurd rfl nonempty
    | cons first rest =>
      rw [List.flatten_cons]
      exact List.append_ne_nil_of_left_ne_nil first.called _
  · rw [← calls]
    exact aggregates.counts Input.calls (by simp [counts])
  · rw [← sum]
    cases mode with
    | cumulative => exact aggregates.sums Input.sumCumulativeCost (by simp [plainSums])
    | self => exact aggregates.sums Input.sumSelfCost (by simp [plainSums])
  · rw [← sqr]
    cases mode with
    | cumulative => exact aggregates.sqrCumulative
    | self => exact aggregates.sqrSelf

theorem Aggregates.unique (aggregates : Aggregates inputs result) (also : Aggregates inputs tuple)
    (equal : result.size = tuple.size) : result = { tuple with amortizedIndex := result.amortizedIndex } := by
  have sums := fun field member => (aggregates.sums field member).trans (also.sums field member).symm
  have totals := fun field member => (aggregates.counts field member).trans (also.counts field member).symm
  have least := fun field member => (aggregates.least field member).unique (also.least field member)
  have greatest := fun field member => (aggregates.greatest field member).unique (also.greatest field member)
  simp only [plainSums,counts,minima,maxima,List.forall_mem_cons] at sums totals least greatest
  obtain ⟨minCumulative,minSelf,-⟩ := least
  obtain ⟨maxCumulative,maxSelf,-⟩ := greatest
  obtain ⟨sumCumulative,sumSelf,-⟩ := sums
  obtain ⟨calls,cumulativeSyscall,cumulativeThread,selfSyscall,selfThread,-⟩ := totals
  have sqrCumulative := aggregates.sqrCumulative.trans also.sqrCumulative.symm
  have sqrSelf := aggregates.sqrSelf.trans also.sqrSelf.symm
  have real := aggregates.real.trans also.real.symm
  cases result
  cases tuple
  simp_all

end

/-- Tuples of one size merged in any order and grouping come to one tuple with every
field aggregated, whose variance is that of all calls, exactly when there is one tuple or
none has a square sum of self costs and no part reads as a tuple of an old report. -/
theorem merge_aggregates_iff (mode : CostType) (inputs : List Input) {size : Int}
    (equal : ∀ input ∈ inputs, input.size = size) :
    (∀ tree : MergeTree, tree.leaves.Perm inputs → Aggregates inputs (tree.run .exact mode) ∧
      (∀ reader lists, List.Forall₂ (Records reader) inputs lists →
        (tree.run .exact mode).getVar .exact reader = .ok (variance lists.flatten)) ∧
      ∀ other : MergeTree, other.leaves.Perm inputs → other.run .exact mode =
        { tree.run .exact mode with amortizedIndex := (other.run .exact mode).amortizedIndex }) ↔
      inputs.length ≤ 1 ∨ (∀ input ∈ inputs, input.sqrSelfCost = 0) ∧ NoOldPart mode inputs := by
  constructor
  · intro all
    by_cases several : 2 ≤ inputs.length
    · have exact := fun tree leaves => (all tree leaves).1
      have alone := merged_first equal several exact
      exact .inr ⟨fun input member => (alone input member).1,merged_parts equal exact alone⟩
    · exact .inl (by omega)
  · intro condition
    have exact : ∀ tree : MergeTree, tree.leaves.Perm inputs → Aggregates inputs (tree.run .exact mode) := by
      intro tree leaves
      rcases condition with few | ⟨sqr,proper⟩
      · cases tree with
        | leaf input => exact (Aggregates.single input).perm leaves
        | node this te =>
          have lengths := leaves.length_eq
          rw [MergeTree.leaves,List.length_append] at lengths
          have first := List.length_pos_of_ne_nil this.leaves_ne_nil
          have second := List.length_pos_of_ne_nil te.leaves_ne_nil
          omega
      · have inner : NoOldPart mode tree.leaves := by
          refine proper.within (?_ : (tree.leaves ++ []).Perm inputs)
          rw [List.append_nil]
          exact leaves
        exact (tree.aggregates (fun input member => equal input (leaves.subset member))
          (fun input member => sqr input (leaves.subset member)) inner).perm leaves
    have sized := fun (tree : MergeTree) (leaves : tree.leaves.Perm inputs) =>
      @MergeTree.run_size .exact mode size tree fun input member => equal input (leaves.subset member)
    intro tree leaves
    refine ⟨exact tree leaves,fun reader lists records => ?_,fun other also => ?_⟩
    · have nonempty : inputs ≠ [] := fun none => tree.leaves_ne_nil (by rw [none] at leaves; exact leaves.eq_nil)
      exact ((exact tree leaves).records nonempty records).getVar
    · exact (exact other also).unique (exact tree leaves) ((sized other also).trans (sized tree leaves).symm)

/-- The tuple of one call of a routine that leaves its cost to those it calls. -/
def callerInput : Input :=
  { unitInput with
    sumCumulativeRealCost := 1
    minSelfCost := 0
    maxSelfCost := 0
    sumSelfCost := 0
    sqrSelfCost := 0 }

theorem merge_aggregates_iff_callers : Aggregates [callerInput,callerInput]
    ((MergeTree.node (.leaf callerInput) (.leaf callerInput)).run .exact .cumulative) := by
  have equal : ∀ input ∈ [callerInput,callerInput], input.size = 1 := by decide
  refine ((merge_aggregates_iff .cumulative _ equal).mpr (.inr ⟨by decide,?_⟩) _ (.refl _)).1
  intro _ part rest nonempty _ split real _
  obtain ⟨first,more,rfl⟩ := List.exists_cons_of_ne_nil nonempty
  have old : ∀ input ∈ first :: more, input.sumCumulativeRealCost = 1 := by
    intro input member
    have inside := split.subset (List.mem_append_left rest member)
    simp only [List.mem_cons,List.not_mem_nil,or_false,or_self] at inside
    rw [inside]
    rfl
  have ones : ((first :: more).map Input.sumCumulativeRealCost).sum = ((first :: more).map fun _ => (1 : ℚ)).sum := by
    rw [List.map_congr_left old]
  rw [ones,List.map_const',List.sum_replicate,nsmul_eq_mul,List.length_cons,Nat.cast_succ] at real
  have positive : (0 : ℚ) ≤ more.length := Nat.cast_nonneg _
  linarith

/-- Two calls of cost 1: the merged square sums are 3 and 1, and the variance in self mode is negative. -/
theorem merged_square_sums_crossed :
    ¬Aggregates [unitInput,unitInput] ((MergeTree.node (.leaf unitInput) (.leaf unitInput)).run .exact .cumulative) ∧
      ((MergeTree.node (.leaf unitInput) (.leaf unitInput)).run .exact .cumulative).getVar .exact .self =
        .error "Invalid variance" := by
  constructor
  · intro aggregates
    have sqr := aggregates.sqrSelf
    revert sqr
    decide +kernel
  · decide +kernel

end Aprof.Plot
