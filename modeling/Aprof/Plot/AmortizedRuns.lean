import Aprof.Plot.Amortized

/-! The amortized charges over the changes of the cost mode. -/
namespace Aprof.Plot

section
variable {java : Java} {mode : CostType} {routine : RoutineTuples} {inputs : List Input}

theorem Balanced.reordered (balanced : Balanced java mode routine) (cached : 0 ≤ routine.amortizedCutIndex)
    {other : RoutineTuples} (objects : other.objects = routine.objects) (same : other.inputTuples.Perm routine.inputTuples)
    (cut : other.amortizedCutIndex = routine.amortizedCutIndex)
    (constant : other.amortizedConstant = routine.amortizedConstant) : Balanced java mode other := by
  have values : ∀ i, (other.getAmortizedValue java .exact mode i).1 = (routine.getAmortizedValue java .exact mode i).1 := by
    intro i
    by_cases charged : (routine.objects i).amortizedIndex ≤ routine.amortizedCutIndex
    · rw [RoutineTuples.getAmortizedValue_charged cached charged,
        RoutineTuples.getAmortizedValue_charged (cut ▸ cached) (by rw [objects,cut]; exact charged),objects,constant]
    · rw [RoutineTuples.getAmortizedValue_free cached (not_le.mp charged),
        RoutineTuples.getAmortizedValue_free (cut ▸ cached) (by rw [objects,cut]; exact not_le.mp charged)]
  constructor
  · simp only [values,objects]
    rw [(same.map _).sum_eq,(same.map _).sum_eq]
    exact balanced.paid
  · intro i first j second
    rw [objects,cut]
    exact balanced.cheapest i (same.subset first) j (same.subset second)

/-- The tuples of a routine after some calls, with the charges balanced once the cut is there. -/
structure Kept (java : Java) (inputs : List Input) (state : CostType × RoutineTuples) : Prop where
  reindexed : Reindexed (RoutineTuples.ofInputs inputs).objects state.2.objects
  perm : state.2.inputTuples.Perm (List.range inputs.length)
  balanced : 0 ≤ state.2.amortizedCutIndex → Balanced java state.1 state.2

theorem Kept.start (java : Java) (mode : CostType) (inputs : List Input) : Kept java inputs (mode,.ofInputs inputs) :=
  ⟨.refl _,.refl _,fun cached => absurd cached (show ¬(0 : Int) ≤ -1 by decide)⟩

theorem map_ofInputs (inputs : List Input) : (List.range inputs.length).map (RoutineTuples.ofInputs inputs).objects = inputs := by
  apply List.ext_getElem
  · rw [List.length_map,List.length_range]
  · intro i inside inside'
    rw [List.getElem_map,List.getElem_range]
    show inputs[i]?.getD unitInput = _
    rw [List.getElem?_eq_getElem inside']
    rfl

theorem Kept.countable (kept : Kept java inputs (mode,routine)) (whole : WholeCosts inputs) {other : RoutineTuples}
    (objects : other.objects = routine.objects) (same : other.inputTuples.Perm routine.inputTuples)
    (sorted : other.inputTuples.Pairwise fun i j => (other.objects i).getAvgCost .exact mode ≤ (other.objects j).getAvgCost .exact mode) :
    RoutineTuples.Countable mode other := by
  have order := same.trans kept.perm
  have inside : ∀ i ∈ other.inputTuples, (RoutineTuples.ofInputs inputs).objects i ∈ inputs := by
    intro i member
    have listed := List.mem_map_of_mem (f := (RoutineTuples.ofInputs inputs).objects) (order.subset member)
    rw [map_ofInputs] at listed
    exact listed
  have reindexed : Reindexed (RoutineTuples.ofInputs inputs).objects other.objects := objects ▸ kept.reindexed
  refine ⟨order.nodup_iff.mpr List.nodup_range,fun i member => ?_,fun i member => ?_,?_,sorted⟩
  · rw [reindexed.calls]
    exact whole.called _ (inside i member)
  · rw [reindexed.getSumCost]
    exact whole.whole mode _ (inside i member)
  · simp only [reindexed.getSumCost]
    rw [(order.map _).sum_eq]
    have bounded := whole.bounded mode
    conv at bounded => lhs; rw [← map_ofInputs inputs,List.map_map]
    exact bounded

theorem Kept.compute_charges (kept : Kept java inputs (mode,routine)) (whole : WholeCosts inputs)
    (ordered : routine.sortStatus = .byAvgCost →
      routine.inputTuples.Pairwise fun i j => (routine.objects i).getAvgCost .exact mode ≤ (routine.objects j).getAvgCost .exact mode) :
    0 ≤ (routine.computeAmortizedCutIndex java .exact mode).amortizedCutIndex ∧
      Kept java inputs (mode,routine.computeAmortizedCutIndex java .exact mode) := by
  obtain ⟨objects,same⟩ := RoutineTuples.sortInputTuplesByAvgCost_keeps java .exact mode routine
  have sorted : (routine.sortInputTuplesByAvgCost java .exact mode).inputTuples.Pairwise fun i j =>
      ((routine.sortInputTuplesByAvgCost java .exact mode).objects i).getAvgCost .exact mode ≤
        ((routine.sortInputTuplesByAvgCost java .exact mode).objects j).getAvgCost .exact mode := by
    unfold RoutineTuples.sortInputTuplesByAvgCost
    split
    · next status => exact ordered status
    · exact stableSort_pairwise _ _
  have countable := kept.countable whole objects same sorted
  rw [RoutineTuples.computeAmortizedCutIndex_eq]
  refine ⟨countable.cutIndex_nonneg,?_,same.trans kept.perm,fun _ => countable.withCut_balanced.2⟩
  refine (objects ▸ kept.reindexed : Reindexed _ (routine.sortInputTuplesByAvgCost java .exact mode).objects).trans ?_
  exact RoutineTuples.setAmortizedIndexes_reindexed _ _ 0

theorem run_getAmortizedValue (i : Nat) : AmortizedCall.run java (mode,routine) (.getAmortizedValue i) =
    (mode,if routine.amortizedCutIndex < 0 then routine.computeAmortizedCutIndex java .exact mode else routine) :=
  Prod.ext rfl (routine.getAmortizedValue_routine java .exact mode i)

/-- After `getAmortizedValue` there is a cut. -/
theorem Kept.charged (kept : Kept java inputs (mode,routine)) (whole : WholeCosts inputs) {i : Nat}
    (ordered : AmortizedCall.Ordered (mode,routine) (.getAmortizedValue i)) :
    0 ≤ (AmortizedCall.run java (mode,routine) (.getAmortizedValue i)).2.amortizedCutIndex := by
  rw [run_getAmortizedValue]
  split
  · next cold => exact (kept.compute_charges whole (ordered cold)).1
  · next cached => exact not_lt.mp cached

theorem run_cached {state : CostType × RoutineTuples} (cached : 0 ≤ state.2.amortizedCutIndex) {call : AmortizedCall}
    (same : ∀ mode, call ≠ .changeMode mode) : (call.run java state).2.amortizedCutIndex = state.2.amortizedCutIndex := by
  obtain ⟨mode,routine⟩ := state
  cases call with
  | changeMode other => exact absurd rfl (same other)
  | getAmortizedValue i => rw [run_getAmortizedValue,if_neg (not_lt.mpr cached)]
  | getInputTuplesIterator => exact (RoutineTuples.sortInputTuplesByInput_keeps java routine).2.2.1

theorem runAmortized_cached {state : CostType × RoutineTuples} (cached : 0 ≤ state.2.amortizedCutIndex) :
    ∀ calls : List AmortizedCall, (∀ mode, .changeMode mode ∉ calls) →
      0 ≤ (runAmortized java calls state).2.amortizedCutIndex := by
  intro calls
  induction calls generalizing state with
  | nil => exact fun _ => cached
  | cons call calls ih =>
    intro same
    refine ih ?_ fun mode later => same mode (List.mem_cons_of_mem _ later)
    rw [run_cached cached fun mode changed => same mode (changed ▸ List.mem_cons_self)]
    exact cached

theorem Kept.run {state : CostType × RoutineTuples} (kept : Kept java inputs state) (whole : WholeCosts inputs)
    {call : AmortizedCall} (ordered : call.Ordered state) : Kept java inputs (call.run java state) := by
  obtain ⟨mode,routine⟩ := state
  cases call with
  | changeMode other => exact ⟨kept.reindexed,kept.perm,fun cached => absurd cached (show ¬(0 : Int) ≤ -1 by decide)⟩
  | getAmortizedValue i =>
    rw [run_getAmortizedValue]
    split
    · next cold => exact (kept.compute_charges whole (ordered cold)).2
    · exact kept
  | getInputTuplesIterator =>
    obtain ⟨objects,same,cut,constant⟩ := RoutineTuples.sortInputTuplesByInput_keeps java routine
    refine ⟨?_,same.trans kept.perm,fun cached => ?_⟩
    · show Reindexed _ (routine.sortInputTuplesByInput java).objects
      rw [objects]
      exact kept.reindexed
    · change 0 ≤ (routine.sortInputTuplesByInput java).amortizedCutIndex at cached
      rw [cut] at cached
      exact (kept.balanced cached).reordered cached objects same cut constant

theorem Kept.runs (whole : WholeCosts inputs) (calls : List AmortizedCall)
    (ordered : ∀ before call later, calls = before ++ call :: later → call.Ordered (runAmortized java before (mode,.ofInputs inputs))) :
    Kept java inputs (runAmortized java calls (mode,.ofInputs inputs)) := by
  induction calls using List.reverseRecOn with
  | nil => exact .start java mode inputs
  | append_singleton calls last ih =>
    rw [runAmortized,List.foldl_append]
    refine Kept.run (ih fun before call later split => ordered before call (later ++ [last]) ?_) whole (ordered calls last [] rfl)
    rw [split,List.append_assoc]
    rfl

end

/-- Whatever happens to a routine with whole costs, computing the cut only in the order of
the current mode: `getAmortizedValue` leaves a cut until the mode changes, and while there
is one the charges are balanced and the cheapest tuples pay. -/
theorem charges_balanced (java : Java) (inputs : List Input) (whole : WholeCosts inputs) (mode : CostType)
    (calls : List AmortizedCall)
    (ordered : ∀ before call later, calls = before ++ call :: later → call.Ordered (runAmortized java before (mode,.ofInputs inputs))) :
    (∀ before i later, calls = before ++ .getAmortizedValue i :: later → (∀ other, .changeMode other ∉ later) →
      0 ≤ (runAmortized java calls (mode,.ofInputs inputs)).2.amortizedCutIndex) ∧
    (0 ≤ (runAmortized java calls (mode,.ofInputs inputs)).2.amortizedCutIndex →
      Balanced java (runAmortized java calls (mode,.ofInputs inputs)).1 (runAmortized java calls (mode,.ofInputs inputs)).2) := by
  constructor
  · intro before i later split same
    have kept := Kept.runs whole before fun first call rest front =>
      ordered first call (rest ++ .getAmortizedValue i :: later) (by rw [split,front,List.append_assoc]; rfl)
    have cached := kept.charged whole (ordered before (.getAmortizedValue i) later split)
    rw [split,runAmortized,List.foldl_append,List.foldl_cons]
    exact runAmortized_cached cached later same
  · exact (Kept.runs whole calls ordered).balanced

/-- Tuples whose order by the average cumulative cost is not the one by the average self cost. -/
def crossedInputs : List Input :=
  [{ unitInput with size := 1, minCumulativeCost := 20, maxCumulativeCost := 20, sumCumulativeCost := 20, sumSelfCost := 10 },
    { unitInput with size := 2, minCumulativeCost := 30, maxCumulativeCost := 30, sumCumulativeCost := 300, sumSelfCost := 1, calls := 10 },
    { unitInput with size := 3, minCumulativeCost := 40, maxCumulativeCost := 40, sumCumulativeCost := 40, sumSelfCost := 5 }]

/-- An iteration by input between the modes makes the second analysis sort again. -/
theorem charges_balanced_first :
    0 ≤ (runAmortized .from8 [.getAmortizedValue 0,.getInputTuplesIterator,.changeMode .self,.getAmortizedValue 1]
      (.cumulative,.ofInputs crossedInputs)).2.amortizedCutIndex ∧
    Balanced .from8 .self (runAmortized .from8 [.getAmortizedValue 0,.getInputTuplesIterator,.changeMode .self,
      .getAmortizedValue 1] (.cumulative,.ofInputs crossedInputs)).2 := by
  have charges := charges_balanced .from8 crossedInputs ⟨by decide,fun mode => ?_,fun mode => ?_⟩ .cumulative
    [.getAmortizedValue 0,.getInputTuplesIterator,.changeMode .self,.getAmortizedValue 1] fun before call later split => ?_
  · have cached := charges.1 [.getAmortizedValue 0,.getInputTuplesIterator,.changeMode .self] 1 [] rfl
      fun _ => List.not_mem_nil
    exact ⟨cached,charges.2 cached⟩
  · unfold crossedInputs
    simp only [List.forall_mem_cons]
    cases mode with
    | cumulative => exact ⟨⟨20,rfl⟩,⟨300,rfl⟩,⟨40,rfl⟩,fun _ none => absurd none List.not_mem_nil⟩
    | self => exact ⟨⟨10,rfl⟩,⟨1,rfl⟩,⟨5,rfl⟩,fun _ none => absurd none List.not_mem_nil⟩
  · cases mode <;> decide +kernel
  · rcases before with _ | ⟨first,_ | ⟨second,_ | ⟨third,_ | ⟨fourth,before⟩⟩⟩⟩
    · cases split
      exact fun _ status => absurd status (by decide)
    · cases split
      exact trivial
    · cases split
      exact trivial
    · cases split
      exact fun _ status => absurd status (by decide +kernel)
    · exact absurd (congrArg List.length split) (by simp only [List.length_append,List.length_cons,List.length_nil]; omega)

/-- After a change of the mode the list keeps the old order: the tuple of average 10 is
charged and the one of average 5 is not. -/
theorem stale_order_charges :
    ¬Balanced .from8 .self
      (runAmortized .from8 [.getAmortizedValue 0,.changeMode .self,.getAmortizedValue 0] (.cumulative,.ofInputs crossedInputs)).2 := by
  intro balanced
  have cheapest := balanced.cheapest 0 (by decide +kernel) 2 (by decide +kernel) (by decide +kernel) (by decide +kernel)
  revert cheapest
  decide +kernel

end Aprof.Plot
