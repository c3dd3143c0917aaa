import Aprof.General.Aggregation
import Aprof.Plot.Inputs
import Mathlib.Data.Prod.Lex

/-! A routine of aprof-plot and what `addInput` of `Routine.java` keeps about its tuples. -/
namespace Aprof.Plot

/-- `Double.MAX_VALUE`. -/
def maxDouble : ℚ := (2 ^ 53 - 1) * 2 ^ 971

/-- `Integer.MAX_VALUE`. -/
def maxInt : Int := 2 ^ 31 - 1

@[ext] structure Statistics where
  minCumulativeCost : ℚ := maxDouble
  maxCumulativeCost : ℚ := 0
  maxAvgCumulativeCost : ℚ := 0
  totalCumulativeCost : ℚ := 0
  totalCumulativeRealCost : ℚ := 0
  minSelfCost : ℚ := maxDouble
  maxSelfCost : ℚ := 0
  maxAvgSelfCost : ℚ := 0
  totalSelfCost : ℚ := 0
  totalCalls : Int := 0
  minInput : Int := maxInt
  maxInput : Int := 0
  totalInput : Int := 0
  totalCumulativeSyscallInput : Int := 0
  totalCumulativeThreadInput : Int := 0
  totalSelfSyscallInput : Int := 0
  totalSelfThreadInput : Int := 0
  deriving DecidableEq

def Statistics.addInput (numbers : Numbers) (mode : CostType) (statistics : Statistics) (i : Input) : Statistics where
  minCumulativeCost :=
    if i.minCumulativeCost < statistics.minCumulativeCost then i.minCumulativeCost else statistics.minCumulativeCost
  maxCumulativeCost :=
    if statistics.maxCumulativeCost < i.maxCumulativeCost then i.maxCumulativeCost else statistics.maxCumulativeCost
  maxAvgCumulativeCost :=
    if statistics.maxAvgCumulativeCost < i.getAvgCost numbers .cumulative then i.getAvgCost numbers .cumulative
    else statistics.maxAvgCumulativeCost
  totalCumulativeCost := numbers.double (statistics.totalCumulativeCost + i.sumCumulativeCost)
  minSelfCost := if i.minSelfCost < statistics.minSelfCost then i.minSelfCost else statistics.minSelfCost
  maxSelfCost := if statistics.maxSelfCost < i.maxSelfCost then i.maxSelfCost else statistics.maxSelfCost
  maxAvgSelfCost :=
    if statistics.maxAvgSelfCost < i.getAvgCost numbers .self then i.getAvgCost numbers .self
    else statistics.maxAvgSelfCost
  totalSelfCost := numbers.double (statistics.totalSelfCost + i.sumSelfCost)
  totalCumulativeRealCost := numbers.double (statistics.totalCumulativeRealCost + i.getSumCumulativeRealCost mode)
  maxInput := if statistics.maxInput < i.size then i.size else statistics.maxInput
  minInput := if i.size < statistics.minInput then i.size else statistics.minInput
  totalInput := numbers.long (statistics.totalInput + numbers.long (i.size * i.calls))
  totalCalls := numbers.long (statistics.totalCalls + i.calls)
  totalCumulativeSyscallInput := numbers.long (statistics.totalCumulativeSyscallInput + i.sumCumulativeSyscallInput)
  totalCumulativeThreadInput := numbers.long (statistics.totalCumulativeThreadInput + i.sumCumulativeThreadInput)
  totalSelfSyscallInput := numbers.long (statistics.totalSelfSyscallInput + i.sumSelfSyscallInput)
  totalSelfThreadInput := numbers.long (statistics.totalSelfThreadInput + i.sumSelfThreadInput)

inductive SortOrder where
  | none
  | byInput
  | byCumulativeCost
  | bySelfCost
  | byAvgCost
  deriving DecidableEq

/-- The key of the comparator of `sortInputTuplesByInput`: more calls come first. -/
def Input.inputKey (input : Input) : Int ×ₗ Int := toLex (input.size,-input.calls)

structure Routine where
  statistics : Statistics := {}
  inputTuples : List Input := []
  sortStatus : SortOrder := .none
  amortizedCutIndex : Int := -1
  amortizedConstant : ℚ := 1

def Routine.addInput (numbers : Numbers) (mode : CostType) (routine : Routine) (i : Input) : Routine :=
  { routine with
    inputTuples := routine.inputTuples ++ [i]
    statistics := routine.statistics.addInput numbers mode i
    sortStatus := .none }

/-- A new routine after some calls of `addInput`. -/
def Routine.ofInputs (numbers : Numbers) (mode : CostType) (inputs : List Input) : Routine :=
  inputs.foldl (·.addInput numbers mode) {}

def Input.charged (input : Input) : Int := input.size * input.calls

structure Matches (inputs : List Input) (statistics : Statistics) : Prop where
  minInput : IsLeast {size | size ∈ inputs.map Input.size} statistics.minInput
  maxInput : IsGreatest {size | size ∈ inputs.map Input.size} statistics.maxInput
  totalInput : statistics.totalInput = (inputs.map Input.charged).sum
  totalCalls : statistics.totalCalls = (inputs.map Input.calls).sum
  totalCumulativeSyscallInput :
    statistics.totalCumulativeSyscallInput = (inputs.map Input.sumCumulativeSyscallInput).sum
  totalCumulativeThreadInput : statistics.totalCumulativeThreadInput = (inputs.map Input.sumCumulativeThreadInput).sum
  totalSelfSyscallInput : statistics.totalSelfSyscallInput = (inputs.map Input.sumSelfSyscallInput).sum
  totalSelfThreadInput : statistics.totalSelfThreadInput = (inputs.map Input.sumSelfThreadInput).sum
  minCumulativeCost : IsLeast {cost | cost ∈ inputs.map Input.minCumulativeCost} statistics.minCumulativeCost
  maxCumulativeCost : IsGreatest {cost | cost ∈ inputs.map Input.maxCumulativeCost} statistics.maxCumulativeCost
  minSelfCost : IsLeast {cost | cost ∈ inputs.map Input.minSelfCost} statistics.minSelfCost
  maxSelfCost : IsGreatest {cost | cost ∈ inputs.map Input.maxSelfCost} statistics.maxSelfCost

/-- The fields that `addInput` adds up in longs. -/
def totals : List (Input → Int) :=
  [Input.charged,Input.calls,Input.sumCumulativeSyscallInput,Input.sumCumulativeThreadInput,
    Input.sumSelfSyscallInput,Input.sumSelfThreadInput]

structure Input.Regular (input : Input) : Prop where
  size : 0 ≤ input.size ∧ input.size ≤ Plot.maxInt
  minCumulativeCost : input.minCumulativeCost ≤ maxDouble
  maxCumulativeCost : 0 ≤ input.maxCumulativeCost
  minSelfCost : input.minSelfCost ≤ maxDouble
  maxSelfCost : 0 ≤ input.maxSelfCost

@[simp] theorem Numbers.long_add_long (numbers : Numbers) (m n : Int) :
    numbers.long (m + numbers.long n) = numbers.long (m + n) := by
  cases numbers with
  | exact => rfl
  | java => exact Int.add_bmod_bmod

@[simp] theorem Numbers.long_long_add (numbers : Numbers) (m n : Int) :
    numbers.long (numbers.long m + n) = numbers.long (m + n) := by
  cases numbers with
  | exact => rfl
  | java => exact Int.bmod_add_bmod

@[simp] theorem Numbers.long_zero (numbers : Numbers) : numbers.long 0 = 0 := by cases numbers <;> rfl

def FitsLong (n : Int) : Prop := -2 ^ 63 ≤ n ∧ n < 2 ^ 63

instance (n : Int) : Decidable (FitsLong n) := inferInstanceAs (Decidable (_ ∧ _))

theorem Numbers.java_eq_iff (n : Int) : Numbers.java.long n = n ↔ FitsLong n := by
  rw [Numbers.long,Int.bmod,FitsLong]
  omega

/-- The statistics as sums and extremes from the sentinels on. -/
structure Tracks (numbers : Numbers) (inputs : List Input) (statistics : Statistics) : Prop where
  minInput : Lowest Plot.maxInt (inputs.map Input.size) statistics.minInput
  maxInput : Highest 0 (inputs.map Input.size) statistics.maxInput
  minCumulativeCost : Lowest maxDouble (inputs.map Input.minCumulativeCost) statistics.minCumulativeCost
  maxCumulativeCost : Highest 0 (inputs.map Input.maxCumulativeCost) statistics.maxCumulativeCost
  minSelfCost : Lowest maxDouble (inputs.map Input.minSelfCost) statistics.minSelfCost
  maxSelfCost : Highest 0 (inputs.map Input.maxSelfCost) statistics.maxSelfCost
  totalInput : statistics.totalInput = numbers.long (inputs.map Input.charged).sum
  totalCalls : statistics.totalCalls = numbers.long (inputs.map Input.calls).sum
  totalCumulativeSyscallInput :
    statistics.totalCumulativeSyscallInput = numbers.long (inputs.map Input.sumCumulativeSyscallInput).sum
  totalCumulativeThreadInput :
    statistics.totalCumulativeThreadInput = numbers.long (inputs.map Input.sumCumulativeThreadInput).sum
  totalSelfSyscallInput : statistics.totalSelfSyscallInput = numbers.long (inputs.map Input.sumSelfSyscallInput).sum
  totalSelfThreadInput : statistics.totalSelfThreadInput = numbers.long (inputs.map Input.sumSelfThreadInput).sum

section
variable {numbers : Numbers} {mode : CostType} {inputs : List Input} {statistics : Statistics}

private theorem lowest_step {α : Type} [LinearOrder α] {sentinel value : α} {field : Input → α} (i : Input)
    (lowest : Lowest sentinel (inputs.map field) value) :
    Lowest sentinel ((inputs ++ [i]).map field) (if field i < value then field i else value) := by
  rw [← min_def_lt,List.map_append]
  exact lowest.add (field i)

private theorem highest_step {α : Type} [LinearOrder α] {sentinel value : α} {field : Input → α} (i : Input)
    (highest : Highest sentinel (inputs.map field) value) :
    Highest sentinel ((inputs ++ [i]).map field) (if value < field i then field i else value) := by
  rw [← max_def_lt,max_comm,List.map_append]
  exact highest.add (field i)

private theorem total_step {field : Input → Int} {value : Int} (i : Input) (total : value = numbers.long (inputs.map field).sum) :
    numbers.long (value + field i) = numbers.long ((inputs ++ [i]).map field).sum := by
  rw [total,Numbers.long_long_add,List.map_append,List.sum_append,List.map_singleton,List.sum_singleton]

theorem Tracks.empty (numbers : Numbers) : Tracks numbers [] {} := by
  refine ⟨.empty _,.empty _,.empty _,.empty _,.empty _,.empty _,?_,?_,?_,?_,?_,?_⟩ <;> exact numbers.long_zero.symm

theorem Tracks.addInput (tracks : Tracks numbers inputs statistics) (mode : CostType) (i : Input) :
    Tracks numbers (inputs ++ [i]) (statistics.addInput numbers mode i) where
  minInput := lowest_step i tracks.minInput
  maxInput := highest_step i tracks.maxInput
  minCumulativeCost := lowest_step i tracks.minCumulativeCost
  maxCumulativeCost := highest_step i tracks.maxCumulativeCost
  minSelfCost := lowest_step i tracks.minSelfCost
  maxSelfCost := highest_step i tracks.maxSelfCost
  totalInput := (numbers.long_add_long _ _).trans (total_step i tracks.totalInput)
  totalCalls := total_step i tracks.totalCalls
  totalCumulativeSyscallInput := total_step i tracks.totalCumulativeSyscallInput
  totalCumulativeThreadInput := total_step i tracks.totalCumulativeThreadInput
  totalSelfSyscallInput := total_step i tracks.totalSelfSyscallInput
  totalSelfThreadInput := total_step i tracks.totalSelfThreadInput

theorem Routine.ofInputs_append (numbers : Numbers) (mode : CostType) (inputs : List Input) (i : Input) :
    ofInputs numbers mode (inputs ++ [i]) = (ofInputs numbers mode inputs).addInput numbers mode i := by
  rw [ofInputs,List.foldl_append]
  rfl

theorem Routine.ofInputs_tracks (numbers : Numbers) (mode : CostType) (inputs : List Input) :
    Tracks numbers inputs (ofInputs numbers mode inputs).statistics := by
  induction inputs using List.reverseRecOn with
  | nil => exact .empty numbers
  | append_singleton inputs i ih =>
    rw [ofInputs_append]
    exact ih.addInput mode i

end

section
variable {mode : CostType} {inputs : List Input} {statistics : Statistics}

theorem Tracks.statistics_match (tracks : Tracks .java inputs statistics) {first : Input} (member : first ∈ inputs)
    (regular : first.Regular) (fits : ∀ field ∈ totals, FitsLong (inputs.map field).sum) : Matches inputs statistics := by
  have exact : ∀ field ∈ totals, Numbers.java.long (inputs.map field).sum = (inputs.map field).sum :=
    fun field inside => (Numbers.java_eq_iff _).mpr (fits field inside)
  simp only [totals,List.forall_mem_cons] at exact
  obtain ⟨input,calls,cumulativeSyscall,cumulativeThread,selfSyscall,selfThread,-⟩ := exact
  exact {
    minInput := tracks.minInput.isLeast_of_le (List.mem_map_of_mem member) regular.size.2
    maxInput := tracks.maxInput.isGreatest_of_le (List.mem_map_of_mem member) regular.size.1
    totalInput := tracks.totalInput.trans input
    totalCalls := tracks.totalCalls.trans calls
    totalCumulativeSyscallInput := tracks.totalCumulativeSyscallInput.trans cumulativeSyscall
    totalCumulativeThreadInput := tracks.totalCumulativeThreadInput.trans cumulativeThread
    totalSelfSyscallInput := tracks.totalSelfSyscallInput.trans selfSyscall
    totalSelfThreadInput := tracks.totalSelfThreadInput.trans selfThread
    minCumulativeCost := tracks.minCumulativeCost.isLeast_of_le (List.mem_map_of_mem member) regular.minCumulativeCost
    maxCumulativeCost := tracks.maxCumulativeCost.isGreatest_of_le (List.mem_map_of_mem member) regular.maxCumulativeCost
    minSelfCost := tracks.minSelfCost.isLeast_of_le (List.mem_map_of_mem member) regular.minSelfCost
    maxSelfCost := tracks.maxSelfCost.isGreatest_of_le (List.mem_map_of_mem member) regular.maxSelfCost }

theorem Matches.regular {first : Input} (right : Matches [first] (Routine.ofInputs .java mode [first]).statistics) :
    first.Regular := by
  have below : ∀ {α : Type} [LinearOrder α] {field sentinel : α},
      (if field < sentinel then field else sentinel) ∈ [field] → field ≤ sentinel := by
    intro α _ field sentinel member
    rw [← min_def_lt,List.mem_singleton] at member
    exact min_eq_left_iff.mp member
  have above : ∀ {α : Type} [LinearOrder α] {field sentinel : α},
      (if sentinel < field then field else sentinel) ∈ [field] → sentinel ≤ field := by
    intro α _ field sentinel member
    rw [← max_def_lt,List.mem_singleton] at member
    exact max_eq_right_iff.mp member
  exact ⟨⟨above right.maxInput.1,below right.minInput.1⟩,below right.minCumulativeCost.1,above right.maxCumulativeCost.1,
    below right.minSelfCost.1,above right.maxSelfCost.1⟩

theorem Matches.fits (right : Matches inputs statistics) (tracks : Tracks .java inputs statistics) :
    ∀ field ∈ totals, FitsLong (inputs.map field).sum := by
  have exact : ∀ {value sum : Int}, value = sum → value = Numbers.java.long sum → FitsLong sum :=
    fun same wrapped => (Numbers.java_eq_iff _).mp (wrapped.symm.trans same)
  simp only [totals,List.forall_mem_cons]
  exact ⟨exact right.totalInput tracks.totalInput,exact right.totalCalls tracks.totalCalls,
    exact right.totalCumulativeSyscallInput tracks.totalCumulativeSyscallInput,
    exact right.totalCumulativeThreadInput tracks.totalCumulativeThreadInput,
    exact right.totalSelfSyscallInput tracks.totalSelfSyscallInput,
    exact right.totalSelfThreadInput tracks.totalSelfThreadInput,nofun⟩

end

/-- The statistics match the tuples after each call of `addInput` exactly when no sentinel
undercuts the first tuple and no sum leaves the longs. -/
theorem statistics_match_iff (mode : CostType) (inputs : List Input) :
    (∀ added, added <+: inputs → added ≠ [] → Matches added (Routine.ofInputs .java mode added).statistics) ↔
      (∀ first ∈ inputs.head?, first.Regular) ∧
        ∀ added, added <+: inputs → ∀ field ∈ totals, FitsLong (added.map field).sum := by
  constructor
  · intro all
    refine ⟨fun first head => ?_,fun added early => ?_⟩
    · obtain ⟨rest,rfl⟩ := List.head?_eq_some_iff.mp head
      exact (all [first] ⟨rest,rfl⟩ (List.cons_ne_nil first [])).regular
    · cases added with
      | nil => exact fun field _ => show FitsLong 0 from ⟨by decide,by decide⟩
      | cons first added =>
        exact (all _ early (List.cons_ne_nil first added)).fits (Routine.ofInputs_tracks .java mode _)
  · rintro ⟨regular,fits⟩ added early nonempty
    obtain ⟨first,rest,rfl⟩ := List.exists_cons_of_ne_nil nonempty
    obtain ⟨later,rfl⟩ := early
    exact (Routine.ofInputs_tracks .java mode _).statistics_match List.mem_cons_self (regular first rfl)
      (fits _ ⟨later,rfl⟩)

/-- A first tuple of size 2^32 - 1: the minimum stays at the sentinel. -/
theorem min_input_undercut :
    (Routine.ofInputs .java .cumulative [{ unitInput with size := 2 ^ 32 - 1 }]).statistics.minInput = 2 ^ 31 - 1 ∧
      ¬Matches [{ unitInput with size := 2 ^ 32 - 1 }]
        (Routine.ofInputs .java .cumulative [{ unitInput with size := 2 ^ 32 - 1 }]).statistics := by
  refine ⟨rfl,fun right => ?_⟩
  have member := right.minInput.1
  revert member
  decide

theorem Routine.ofInputs_fields (numbers : Numbers) (mode : CostType) (inputs : List Input) :
    (ofInputs numbers mode inputs).statistics = inputs.foldl (·.addInput numbers mode) {} ∧
      (ofInputs numbers mode inputs).inputTuples = inputs := by
  induction inputs using List.reverseRecOn with
  | nil => exact ⟨rfl,rfl⟩
  | append_singleton inputs i ih =>
    rw [ofInputs_append,List.foldl_append,← ih.1]
    exact ⟨rfl,congrArg (· ++ [i]) ih.2⟩

end Aprof.Plot
