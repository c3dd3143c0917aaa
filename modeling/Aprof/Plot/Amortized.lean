import Aprof.General.StableSort
import Aprof.Plot.Routines
import Mathlib.Data.Rat.Floor

/-! The amortized analysis of `Routine.java`. The tuple list holds references, since the
index in the analysis is kept in the tuples. -/
namespace Aprof.Plot

/-- From Java 8 on, sorting an `ArrayList` counts as a modification. -/
inductive Java where
  | upTo7
  | from8
  deriving DecidableEq

structure RoutineTuples where
  objects : Nat → Input
  inputTuples : List Nat
  modCount : Nat := 0
  sortStatus : SortOrder := .none
  amortizedCutIndex : Int := -1
  amortizedConstant : ℚ := 1

def truncate (d : ℚ) : Int := if d < 0 then ⌈d⌉ else ⌊d⌋

/-- `(long) d` -/
def toLong (d : ℚ) : Int := max (-2 ^ 63) (min (2 ^ 63 - 1) (truncate d))

namespace RoutineTuples

/-- `Collections.sort` -/
def sort {κ : Type} [LinearOrder κ] (java : Java) (key : Input → κ) (routine : RoutineTuples) : RoutineTuples :=
  { routine with
    inputTuples := stableSort (fun i => key (routine.objects i)) routine.inputTuples
    modCount := if java = .from8 then routine.modCount + 1 else routine.modCount }

def sortInputTuplesByInput (java : Java) (routine : RoutineTuples) : RoutineTuples :=
  if routine.sortStatus = .byInput then routine
  else { routine.sort java Input.inputKey with sortStatus := .byInput }

/-- The order is by the current mode, the status does not say which. -/
def sortInputTuplesByAvgCost (java : Java) (numbers : Numbers) (mode : CostType) (routine : RoutineTuples) : RoutineTuples :=
  if routine.sortStatus = .byAvgCost then routine
  else { routine.sort java (Input.getAvgCost numbers mode) with sortStatus := .byAvgCost }

/-- The variables of `computeAmortizedCutIndex`. -/
structure Cut where
  sumLower : ℚ := 0
  sumUpper : ℚ
  minCharge : ℚ := maxDouble
  minAlpha : ℚ := maxDouble
  cutIndex : Int := 2 ^ 63 - 1

def Cut.next (numbers : Numbers) (mode : CostType) (cut : Cut) (i : Input) : Cut :=
  let cut := { cut with
    sumLower := numbers.double (cut.sumLower + i.getSumCost mode)
    sumUpper := numbers.double (cut.sumUpper - i.getSumCost mode) }
  -- the quotient is infinite or not a number: no comparison lets the tuple through
  if cut.sumLower = 0 then cut
  else
    let alpha := numbers.double (cut.sumUpper / cut.sumLower)
    if alpha > 2 then cut
    else
      let charge := numbers.double (numbers.double (1 + alpha) * i.getAvgCost numbers mode)
      if charge < cut.minCharge then { cut with minCharge := charge, minAlpha := alpha, cutIndex := i.amortizedIndex }
      else cut

/-- `long total_cost`, to which doubles are added. -/
def totalCost (numbers : Numbers) (mode : CostType) (tuples : List Input) : Int :=
  tuples.foldl (fun total i => toLong (numbers.double (numbers.double total + i.getSumCost mode))) 0

/-- `i.setAmortizedIndex(index++)` along the list. -/
def setAmortizedIndexes (objects : Nat → Input) (index : Nat) : List Nat → Nat → Input
  | [] => objects
  | i :: list => setAmortizedIndexes (Function.update objects i { objects i with amortizedIndex := index }) (index + 1) list

def computeAmortizedCutIndex (java : Java) (numbers : Numbers) (mode : CostType) (routine : RoutineTuples) : RoutineTuples :=
  let routine := if routine.sortStatus ≠ .byAvgCost then routine.sortInputTuplesByAvgCost java numbers mode else routine
  let total := totalCost numbers mode (routine.inputTuples.map routine.objects)
  let objects := setAmortizedIndexes routine.objects 0 routine.inputTuples
  let cut := (routine.inputTuples.map objects).foldl (Cut.next numbers mode) { sumUpper := numbers.double total }
  { routine with objects := objects, amortizedCutIndex := cut.cutIndex, amortizedConstant := cut.minAlpha }

def getAmortizedValue (java : Java) (numbers : Numbers) (mode : CostType) (routine : RoutineTuples) (i : Nat) : ℚ × RoutineTuples :=
  let routine := if routine.amortizedCutIndex < 0 then routine.computeAmortizedCutIndex java numbers mode else routine
  if (routine.objects i).amortizedIndex > routine.amortizedCutIndex then (0,routine)
  else (numbers.double (numbers.double (1 + routine.amortizedConstant) * (routine.objects i).getAvgCost numbers mode),routine)

def invalidAmortizedCache (routine : RoutineTuples) : RoutineTuples := { routine with amortizedCutIndex := -1 }

/-- The tuples of a new routine after some calls of `addInput`. -/
def ofInputs (inputs : List Input) : RoutineTuples :=
  { objects := fun i => inputs[i]?.getD unitInput, inputTuples := List.range inputs.length, modCount := inputs.length }

end RoutineTuples

/-- What happens to a routine; `changeMode` also drops the cached cut. The charges are
those of exact numbers. -/
inductive AmortizedCall where
  | changeMode (mode : CostType)
  | getAmortizedValue (i : Nat)
  | getInputTuplesIterator

def AmortizedCall.run (java : Java) : CostType × RoutineTuples → AmortizedCall → CostType × RoutineTuples
  | (_,routine),.changeMode mode => (mode,routine.invalidAmortizedCache)
  | (mode,routine),.getAmortizedValue i => (mode,(routine.getAmortizedValue java .exact mode i).2)
  | (mode,routine),.getInputTuplesIterator => (mode,routine.sortInputTuplesByInput java)

def runAmortized (java : Java) (calls : List AmortizedCall) (state : CostType × RoutineTuples) : CostType × RoutineTuples :=
  calls.foldl (AmortizedCall.run java) state

/-- The charges pay the total cost, and no tuple that is not charged is cheaper. -/
structure Balanced (java : Java) (mode : CostType) (routine : RoutineTuples) : Prop where
  paid : (routine.inputTuples.map fun i => (routine.objects i).calls * (routine.getAmortizedValue java .exact mode i).1).sum =
    (routine.inputTuples.map fun i => (routine.objects i).getSumCost mode).sum
  cheapest : ∀ i ∈ routine.inputTuples, ∀ j ∈ routine.inputTuples,
    (routine.objects i).amortizedIndex ≤ routine.amortizedCutIndex →
    routine.amortizedCutIndex < (routine.objects j).amortizedIndex →
    (routine.objects i).getAvgCost .exact mode ≤ (routine.objects j).getAvgCost .exact mode

/-- Where the cut is computed without sorting, the list is in the order of the current mode. -/
def AmortizedCall.Ordered : CostType × RoutineTuples → AmortizedCall → Prop
  | (mode,routine),.getAmortizedValue _ => routine.amortizedCutIndex < 0 → routine.sortStatus = .byAvgCost →
      routine.inputTuples.Pairwise fun i j => (routine.objects i).getAvgCost .exact mode ≤ (routine.objects j).getAvgCost .exact mode
  | _,_ => True

/-- Costs as reports have them: whole numbers whose total is a long. -/
structure WholeCosts (inputs : List Input) : Prop where
  called : ∀ i ∈ inputs, 0 < i.calls
  whole : ∀ mode, ∀ i ∈ inputs, ∃ cost : Nat, i.getSumCost mode = cost
  bounded : ∀ mode, (inputs.map (Input.getSumCost mode)).sum < 2 ^ 63

theorem RoutineTuples.sortInputTuplesByInput_keeps (java : Java) (routine : RoutineTuples) :
    (routine.sortInputTuplesByInput java).objects = routine.objects ∧
      (routine.sortInputTuplesByInput java).inputTuples.Perm routine.inputTuples ∧
      (routine.sortInputTuplesByInput java).amortizedCutIndex = routine.amortizedCutIndex ∧
      (routine.sortInputTuplesByInput java).amortizedConstant = routine.amortizedConstant := by
  unfold sortInputTuplesByInput
  split
  · exact ⟨rfl,.refl _,rfl,rfl⟩
  · exact ⟨rfl,stableSort_perm _ _,rfl,rfl⟩

theorem RoutineTuples.sortInputTuplesByAvgCost_keeps (java : Java) (numbers : Numbers) (mode : CostType) (routine : RoutineTuples) :
    (routine.sortInputTuplesByAvgCost java numbers mode).objects = routine.objects ∧
      (routine.sortInputTuplesByAvgCost java numbers mode).inputTuples.Perm routine.inputTuples := by
  unfold sortInputTuplesByAvgCost
  split
  · exact ⟨rfl,.refl _⟩
  · exact ⟨rfl,stableSort_perm _ _⟩

theorem RoutineTuples.getAmortizedValue_routine (java : Java) (numbers : Numbers) (mode : CostType) (routine : RoutineTuples) (i : Nat) :
    (routine.getAmortizedValue java numbers mode i).2 =
      if routine.amortizedCutIndex < 0 then routine.computeAmortizedCutIndex java numbers mode else routine := by
  unfold getAmortizedValue
  generalize (if routine.amortizedCutIndex < 0 then routine.computeAmortizedCutIndex java numbers mode else routine) = after
  dsimp only
  split <;> rfl

section
variable {mode : CostType} {tuples : List Input}

theorem toLong_natCast {n : Nat} (below : (n : ℚ) < 2 ^ 63) : toLong n = n := by
  have small : (n : Int) < 2 ^ 63 := by exact_mod_cast below
  have positive : ¬(n : ℚ) < 0 := not_lt.mpr (Nat.cast_nonneg n)
  rw [toLong,truncate,if_neg positive,Int.floor_natCast]
  omega

theorem totalCost_foldl (whole : ∀ i ∈ tuples, ∃ cost : Nat, i.getSumCost mode = cost) : ∀ start : Nat,
    (start : ℚ) + (tuples.map (Input.getSumCost mode)).sum < 2 ^ 63 →
    ((tuples.foldl (fun total i => toLong (Numbers.exact.double (Numbers.exact.double total + i.getSumCost mode))) (start : Int) : Int) : ℚ) =
      start + (tuples.map (Input.getSumCost mode)).sum := by
  induction tuples with
  | nil => intro start _; simp
  | cons i tuples ih =>
    intro start bounded
    obtain ⟨cost,value⟩ := whole i List.mem_cons_self
    have rest : 0 ≤ (tuples.map (Input.getSumCost mode)).sum := by
      apply List.sum_nonneg
      intro q member
      obtain ⟨j,inside,rfl⟩ := List.mem_map.mp member
      obtain ⟨n,equal⟩ := whole j (List.mem_cons_of_mem i inside)
      rw [equal]
      exact Nat.cast_nonneg n
    rw [List.map_cons,List.sum_cons,value] at bounded ⊢
    have below : ((start + cost : Nat) : ℚ) < 2 ^ 63 := by
      rw [Nat.cast_add]
      linarith
    have next : toLong (Numbers.exact.double (Numbers.exact.double (start : Int) + i.getSumCost mode)) =
        ((start + cost : Nat) : Int) := by
      rw [Numbers.exact_double,Numbers.exact_double,value,Int.cast_natCast,← Nat.cast_add]
      exact toLong_natCast below
    rw [List.foldl_cons,next]
    have later := ih (fun j member => whole j (List.mem_cons_of_mem i member)) (start + cost) (by
      rw [Nat.cast_add]
      linarith)
    rw [later,Nat.cast_add,add_assoc]

theorem totalCost_eq (whole : ∀ i ∈ tuples, ∃ cost : Nat, i.getSumCost mode = cost)
    (bounded : (tuples.map (Input.getSumCost mode)).sum < 2 ^ 63) :
    (RoutineTuples.totalCost .exact mode tuples : ℚ) = (tuples.map (Input.getSumCost mode)).sum := by
  have total := totalCost_foldl whole 0 (by rw [Nat.cast_zero,zero_add]; exact bounded)
  simp only [Nat.cast_zero,zero_add] at total
  exact total

end

/-- The tuples are the same but for their indexes in the analysis. -/
def Reindexed (base objects : Nat → Input) : Prop := ∀ i, ∃ index, objects i = { base i with amortizedIndex := index }

section
variable {base objects : Nat → Input} {list : List Nat}

theorem Reindexed.refl (base : Nat → Input) : Reindexed base base := fun i => ⟨(base i).amortizedIndex,rfl⟩

theorem Reindexed.trans {others : Nat → Input} (first : Reindexed base objects) (second : Reindexed objects others) :
    Reindexed base others := by
  intro i
  obtain ⟨index,later⟩ := second i
  obtain ⟨_,before⟩ := first i
  rw [before] at later
  exact ⟨index,later⟩

theorem Reindexed.getSumCost (reindexed : Reindexed base objects) (mode : CostType) (i : Nat) :
    (objects i).getSumCost mode = (base i).getSumCost mode := by
  obtain ⟨index,same⟩ := reindexed i
  rw [same]
  cases mode <;> rfl

theorem Reindexed.calls (reindexed : Reindexed base objects) (i : Nat) : (objects i).calls = (base i).calls := by
  obtain ⟨index,same⟩ := reindexed i
  rw [same]

theorem Reindexed.getAvgCost (reindexed : Reindexed base objects) (numbers : Numbers) (mode : CostType) (i : Nat) :
    (objects i).getAvgCost numbers mode = (base i).getAvgCost numbers mode := by
  rw [Input.getAvgCost,Input.getAvgCost,reindexed.getSumCost,reindexed.calls]

namespace RoutineTuples

theorem setAmortizedIndexes_reindexed (list : List Nat) : ∀ (objects : Nat → Input) (index : Nat),
    Reindexed objects (setAmortizedIndexes objects index list) := by
  induction list with
  | nil => exact fun objects _ => .refl objects
  | cons i list ih =>
    intro objects index
    refine .trans (fun j => ?_) (ih _ (index + 1))
    by_cases same : j = i
    · subst same
      exact ⟨index,Function.update_self ..⟩
    · exact ⟨_,Function.update_of_ne same ..⟩

theorem setAmortizedIndexes_other {i : Nat} (list : List Nat) (other : i ∉ list) :
    ∀ (objects : Nat → Input) (index : Nat), setAmortizedIndexes objects index list i = objects i := by
  induction list with
  | nil => exact fun _ _ => rfl
  | cons j list ih =>
    intro objects index
    rw [setAmortizedIndexes,ih fun member => other (List.mem_cons_of_mem j member)]
    exact Function.update_of_ne (fun same : i = j => other (same ▸ List.mem_cons_self)) ..

theorem setAmortizedIndexes_index {i : Nat} {before : List Nat} : ∀ {list after : List Nat} (objects : Nat → Input) (index : Nat),
    list.Nodup → list = before ++ i :: after →
    (setAmortizedIndexes objects index list i).amortizedIndex = index + before.length := by
  induction before with
  | nil =>
    intro list after objects index distinct split
    rw [split] at distinct ⊢
    rw [List.nil_append,setAmortizedIndexes,setAmortizedIndexes_other after (List.nodup_cons.mp distinct).1,
      Function.update_self]
    exact (Int.add_zero _).symm
  | cons j before ih =>
    intro list after objects index distinct split
    rw [split] at distinct ⊢
    have later := @ih (before ++ i :: after) after (Function.update objects j { objects j with amortizedIndex := index })
      (index + 1) (List.nodup_cons.mp distinct).2 rfl
    rw [List.cons_append,setAmortizedIndexes,later,List.length_cons]
    push_cast
    ring

end RoutineTuples

end

namespace RoutineTuples

/-- The cut is at the end of some first tuples, and balances them against the rest. -/
structure Cut.Found (mode : CostType) (total : ℚ) (tuples first : List Input) (cut : Cut) : Prop where
  early : first <+: tuples
  cutIndex : cut.cutIndex + 1 = first.length
  paying : (first.map (Input.getSumCost mode)).sum ≠ 0
  minAlpha : cut.minAlpha =
    (total - (first.map (Input.getSumCost mode)).sum) / (first.map (Input.getSumCost mode)).sum

structure Cut.After (mode : CostType) (total : ℚ) (done : List Input) (cut : Cut) : Prop where
  sumLower : cut.sumLower = (done.map (Input.getSumCost mode)).sum
  sumUpper : cut.sumUpper = total - (done.map (Input.getSumCost mode)).sum
  found : cut.minCharge = maxDouble ∧ cut.cutIndex = 2 ^ 63 - 1 ∨ ∃ first, cut.Found mode total done first

section
variable {mode : CostType} {total : ℚ} {done : List Input} {cut : Cut} {i : Input}

theorem Cut.Found.later {first : List Input} (found : cut.Found mode total done first) {other : Cut}
    (index : other.cutIndex = cut.cutIndex) (alpha : other.minAlpha = cut.minAlpha) :
    other.Found mode total (done ++ [i]) first :=
  ⟨found.early.trans (List.prefix_append done [i]),index ▸ found.cutIndex,found.paying,alpha ▸ found.minAlpha⟩

theorem Cut.After.next (after : cut.After mode total done) (index : i.amortizedIndex = done.length) :
    (cut.next .exact mode i).After mode total (done ++ [i]) := by
  obtain ⟨sumLower,sumUpper,found⟩ := after
  have whole : ((done ++ [i]).map (Input.getSumCost mode)).sum = (done.map (Input.getSumCost mode)).sum + i.getSumCost mode := by
    rw [List.map_append,List.sum_append,List.map_singleton,List.sum_singleton]
  have lower : cut.sumLower + i.getSumCost mode = ((done ++ [i]).map (Input.getSumCost mode)).sum := by rw [whole,sumLower]
  have upper : cut.sumUpper - i.getSumCost mode = total - ((done ++ [i]).map (Input.getSumCost mode)).sum := by
    rw [whole,sumUpper]
    ring
  have kept : ∀ other : Cut, other.minCharge = cut.minCharge → other.cutIndex = cut.cutIndex → other.minAlpha = cut.minAlpha →
      (other.minCharge = maxDouble ∧ other.cutIndex = 2 ^ 63 - 1 ∨ ∃ first, other.Found mode total (done ++ [i]) first) := by
    intro other charge cutIndex alpha
    rcases found with ⟨none,sentinel⟩ | ⟨first,found⟩
    · exact .inl ⟨charge.trans none,cutIndex.trans sentinel⟩
    · exact .inr ⟨first,found.later cutIndex alpha⟩
  unfold Cut.next
  dsimp only
  split
  · exact ⟨lower,upper,kept _ rfl rfl rfl⟩
  · next paying =>
    split
    · exact ⟨lower,upper,kept _ rfl rfl rfl⟩
    · split
      · refine ⟨lower,upper,.inr ⟨done ++ [i],List.prefix_refl _,?_,?_,?_⟩⟩
        · rw [List.length_append,List.length_singleton,Nat.cast_add,← index]
          rfl
        · rw [← lower]
          exact paying
        · show (cut.sumUpper - i.getSumCost mode) / (cut.sumLower + i.getSumCost mode) = _
          rw [upper,lower]
      · exact ⟨lower,upper,kept _ rfl rfl rfl⟩

theorem Cut.next_last (sumLower : cut.sumLower + i.getSumCost mode ≠ 0) (sumUpper : cut.sumUpper - i.getSumCost mode = 0)
    (cheap : i.getAvgCost .exact mode < maxDouble) : (cut.next .exact mode i).minCharge < maxDouble := by
  have lower : Numbers.exact.double (cut.sumLower + i.getSumCost mode) ≠ 0 := sumLower
  have upper : Numbers.exact.double (cut.sumUpper - i.getSumCost mode) = 0 := sumUpper
  have charge : Numbers.exact.double (Numbers.exact.double (1 + Numbers.exact.double 0) * i.getAvgCost .exact mode) =
      i.getAvgCost .exact mode := by simp only [Numbers.exact_double,add_zero,one_mul]
  unfold Cut.next
  dsimp only
  rw [if_neg lower,upper,zero_div,charge,Numbers.exact_double]
  rw [if_neg (by norm_num)]
  split
  · exact cheap
  · next more => exact lt_of_le_of_lt (not_lt.mp more) cheap

theorem Cut.After.foldl {rest : List Input} : ∀ {done : List Input} {cut : Cut}, cut.After mode total done →
    (∀ before i after, done ++ rest = before ++ i :: after → i.amortizedIndex = before.length) →
    (rest.foldl (Cut.next .exact mode) cut).After mode total (done ++ rest) := by
  induction rest with
  | nil =>
    intro done cut after _
    rw [List.append_nil]
    exact after
  | cons i rest ih =>
    intro done cut after indexes
    rw [List.append_cons] at indexes ⊢
    exact ih (after.next (indexes done i rest (List.append_assoc done [i] rest))) indexes

end

end RoutineTuples

namespace RoutineTuples

section
variable {java : Java} {mode : CostType} {routine : RoutineTuples}

theorem getAmortizedValue_charged (cached : 0 ≤ routine.amortizedCutIndex) {i : Nat}
    (charged : (routine.objects i).amortizedIndex ≤ routine.amortizedCutIndex) :
    (routine.getAmortizedValue java .exact mode i).1 = (1 + routine.amortizedConstant) * (routine.objects i).getAvgCost .exact mode := by
  rw [getAmortizedValue,if_neg (not_lt.mpr cached),if_neg (not_lt.mpr charged)]
  rfl

theorem getAmortizedValue_free (cached : 0 ≤ routine.amortizedCutIndex) {i : Nat}
    (free : routine.amortizedCutIndex < (routine.objects i).amortizedIndex) :
    (routine.getAmortizedValue java .exact mode i).1 = 0 := by
  rw [getAmortizedValue,if_neg (not_lt.mpr cached),if_pos free]

theorem balanced_of_free (cached : 0 ≤ routine.amortizedCutIndex)
    (free : ∀ i ∈ routine.inputTuples, (routine.objects i).getSumCost mode = 0) : Balanced java mode routine := by
  have average : ∀ i ∈ routine.inputTuples, (routine.objects i).getAvgCost .exact mode = 0 := by
    intro i member
    rw [Input.getAvgCost_exact,free i member,zero_div]
  constructor
  · apply congrArg List.sum
    apply List.map_congr_left
    intro i member
    rw [free i member]
    by_cases charged : (routine.objects i).amortizedIndex ≤ routine.amortizedCutIndex
    · rw [getAmortizedValue_charged cached charged,average i member,mul_zero,mul_zero]
    · rw [getAmortizedValue_free cached (not_le.mp charged),mul_zero]
  · intro i first j second _ _
    rw [average i first,average j second]

theorem balanced_of_cut {front back : List Nat} (cached : 0 ≤ routine.amortizedCutIndex)
    (split : routine.inputTuples = front ++ back) (called : ∀ i ∈ routine.inputTuples, 0 < (routine.objects i).calls)
    (charged : ∀ i ∈ front, (routine.objects i).amortizedIndex ≤ routine.amortizedCutIndex)
    (free : ∀ i ∈ back, routine.amortizedCutIndex < (routine.objects i).amortizedIndex)
    (paying : (front.map fun i => (routine.objects i).getSumCost mode).sum ≠ 0)
    (alpha : routine.amortizedConstant = (back.map fun i => (routine.objects i).getSumCost mode).sum /
      (front.map fun i => (routine.objects i).getSumCost mode).sum)
    (sorted : routine.inputTuples.Pairwise fun i j => (routine.objects i).getAvgCost .exact mode ≤ (routine.objects j).getAvgCost .exact mode) :
    Balanced java mode routine := by
  constructor
  · have first : front.map (fun i => (routine.objects i).calls * (routine.getAmortizedValue java .exact mode i).1) =
        (front.map fun i => (routine.objects i).getSumCost mode).map ((1 + routine.amortizedConstant) * ·) := by
      rw [List.map_map]
      apply List.map_congr_left
      intro i member
      have positive : ((routine.objects i).calls : ℚ) ≠ 0 := by
        exact_mod_cast (called i (by rw [split]; exact List.mem_append_left back member)).ne'
      rw [getAmortizedValue_charged cached (charged i member),Input.getAvgCost_exact,Function.comp_apply]
      field_simp
    have second : back.map (fun i => (routine.objects i).calls * (routine.getAmortizedValue java .exact mode i).1) =
        back.map fun _ => (0 : ℚ) := by
      apply List.map_congr_left
      intro i member
      rw [getAmortizedValue_free cached (free i member),mul_zero]
    rw [split,List.map_append,List.sum_append,List.map_append,List.sum_append,first,second,List.sum_map_mul_left,
      List.map_id',alpha,List.map_const',List.sum_replicate,smul_zero,add_zero]
    field_simp
  · intro i member j other cheap dear
    rw [split] at member other sorted
    have inFront : i ∈ front := by
      rcases List.mem_append.mp member with inside | outside
      · exact inside
      · exact absurd (free i outside) (not_lt.mpr cheap)
    have inBack : j ∈ back := by
      rcases List.mem_append.mp other with inside | outside
      · exact absurd (charged j inside) (not_le.mpr dear)
      · exact outside
    exact (List.pairwise_append.mp sorted).2.2 i inFront j inBack

end

/-- What the computation of the cut needs of the list it walks along. -/
structure Countable (mode : CostType) (routine : RoutineTuples) : Prop where
  distinct : routine.inputTuples.Nodup
  called : ∀ i ∈ routine.inputTuples, 0 < (routine.objects i).calls
  whole : ∀ i ∈ routine.inputTuples, ∃ cost : Nat, (routine.objects i).getSumCost mode = cost
  bounded : (routine.inputTuples.map fun i => (routine.objects i).getSumCost mode).sum < 2 ^ 63
  sorted : routine.inputTuples.Pairwise fun i j => (routine.objects i).getAvgCost .exact mode ≤ (routine.objects j).getAvgCost .exact mode

def cutOf (numbers : Numbers) (mode : CostType) (routine : RoutineTuples) : Cut :=
  (routine.inputTuples.map (setAmortizedIndexes routine.objects 0 routine.inputTuples)).foldl (Cut.next numbers mode)
    { sumUpper := numbers.double (totalCost numbers mode (routine.inputTuples.map routine.objects)) }

/-- The routine with the cut computed along its list as it is. -/
def withCut (numbers : Numbers) (mode : CostType) (routine : RoutineTuples) : RoutineTuples :=
  { routine with
    objects := setAmortizedIndexes routine.objects 0 routine.inputTuples
    amortizedCutIndex := (cutOf numbers mode routine).cutIndex
    amortizedConstant := (cutOf numbers mode routine).minAlpha }

theorem computeAmortizedCutIndex_eq (java : Java) (numbers : Numbers) (mode : CostType) (routine : RoutineTuples) :
    routine.computeAmortizedCutIndex java numbers mode = (routine.sortInputTuplesByAvgCost java numbers mode).withCut numbers mode := by
  rw [computeAmortizedCutIndex]
  by_cases same : routine.sortStatus = .byAvgCost
  · rw [if_neg (not_not.mpr same),sortInputTuplesByAvgCost,if_pos same]
    rfl
  · rw [if_pos same]
    rfl

end RoutineTuples

namespace RoutineTuples

section
variable {java : Java} {mode : CostType} {routine : RoutineTuples}

theorem sum_costs_nonneg {list : List Nat} {objects : Nat → Input}
    (whole : ∀ i ∈ list, ∃ cost : Nat, (objects i).getSumCost mode = cost) :
    ∀ cost ∈ list.map (fun i => (objects i).getSumCost mode), 0 ≤ cost := by
  intro cost member
  obtain ⟨i,inside,rfl⟩ := List.mem_map.mp member
  obtain ⟨n,equal⟩ := whole i inside
  rw [equal]
  exact Nat.cast_nonneg n

theorem Countable.cheap (countable : Countable mode routine) {i : Nat} (member : i ∈ routine.inputTuples) :
    (routine.objects i).getAvgCost .exact mode < maxDouble := by
  have least : (routine.objects i).getSumCost mode ≤ (routine.inputTuples.map fun i => (routine.objects i).getSumCost mode).sum :=
    List.single_le_sum (sum_costs_nonneg countable.whole) _ (List.mem_map_of_mem member)
  have calls : (1 : ℚ) ≤ (routine.objects i).calls := by exact_mod_cast countable.called i member
  obtain ⟨n,equal⟩ := countable.whole i member
  have average : (routine.objects i).getAvgCost .exact mode ≤ (routine.objects i).getSumCost mode := by
    apply div_le_self
    · rw [equal]
      exact Nat.cast_nonneg n
    · exact calls
  have large : (2 : ℚ) ^ 63 < maxDouble :=
    lt_of_le_of_lt (pow_le_pow_right₀ one_le_two (by decide)) (lt_mul_of_one_lt_left (by positivity) (by norm_num))
  linarith [countable.bounded]

theorem Countable.total (countable : Countable mode routine) :
    (totalCost .exact mode (routine.inputTuples.map routine.objects) : ℚ) =
      (routine.inputTuples.map fun i => (routine.objects i).getSumCost mode).sum := by
  have mapped : (routine.inputTuples.map routine.objects).map (Input.getSumCost mode) =
      routine.inputTuples.map fun i => (routine.objects i).getSumCost mode := List.map_map
  rw [totalCost_eq,mapped]
  · intro input member
    obtain ⟨i,inside,rfl⟩ := List.mem_map.mp member
    exact countable.whole i inside
  · rw [mapped]
    exact countable.bounded

theorem renumbered_index (distinct : routine.inputTuples.Nodup) {before after : List Input} {input : Input}
    (split : routine.inputTuples.map (setAmortizedIndexes routine.objects 0 routine.inputTuples) = before ++ input :: after) :
    input.amortizedIndex = before.length := by
  obtain ⟨front,rest,whole,rfl,second⟩ := List.map_eq_append_iff.mp split
  obtain ⟨i,back,rfl,rfl,-⟩ := List.map_eq_cons_iff.mp second
  have index := setAmortizedIndexes_index routine.objects 0 distinct whole
  rw [List.length_map,index]
  exact Int.zero_add _

theorem renumbered_costs (routine : RoutineTuples) (list : List Nat) :
    (list.map (setAmortizedIndexes routine.objects 0 routine.inputTuples)).map (Input.getSumCost mode) =
      list.map fun i => (routine.objects i).getSumCost mode := by
  rw [List.map_map]
  apply List.map_congr_left
  intro i _
  exact (setAmortizedIndexes_reindexed routine.inputTuples routine.objects 0).getSumCost mode i

theorem Countable.cut_after (countable : Countable mode routine) {done rest : List Input}
    (split : routine.inputTuples.map (setAmortizedIndexes routine.objects 0 routine.inputTuples) = done ++ rest) :
    (done.foldl (Cut.next .exact mode) { sumUpper := totalCost .exact mode (routine.inputTuples.map routine.objects) }).After mode
      (routine.inputTuples.map fun i => (routine.objects i).getSumCost mode).sum done := by
  have start : Cut.After mode (routine.inputTuples.map fun i => (routine.objects i).getSumCost mode).sum []
      { sumUpper := totalCost .exact mode (routine.inputTuples.map routine.objects) } := by
    refine ⟨rfl,?_,.inl ⟨rfl,rfl⟩⟩
    rw [countable.total]
    exact (sub_zero _).symm
  refine start.foldl fun before i after later => ?_
  rw [List.nil_append] at later
  rw [later,List.append_assoc] at split
  exact renumbered_index countable.distinct split

theorem Cut.found_of_paying {tuples : List Input} {start : Cut} {total : ℚ}
    (after : ∀ done rest, tuples = done ++ rest → (done.foldl (Cut.next .exact mode) start).After mode total done)
    (sum : (tuples.map (Input.getSumCost mode)).sum = total) (paying : total ≠ 0)
    (cheap : ∀ i ∈ tuples, i.getAvgCost .exact mode < maxDouble) :
    ∃ first, (tuples.foldl (Cut.next .exact mode) start).Found mode total tuples first := by
  refine (after tuples [] (List.append_nil _).symm).found.resolve_left fun none => ?_
  obtain ⟨front,i,rfl⟩ := List.eq_nil_or_concat' tuples |>.resolve_left fun empty => paying (by rw [← sum,empty]; rfl)
  obtain ⟨sumLower,sumUpper,-⟩ := after front [i] rfl
  rw [List.map_append,List.sum_append,List.map_singleton,List.sum_singleton] at sum
  rw [List.foldl_append] at none
  have less : (Cut.next .exact mode (front.foldl (Cut.next .exact mode) start) i).minCharge < maxDouble := by
    apply Cut.next_last
    · rw [sumLower,sum]
      exact paying
    · rw [sumUpper,← sum]
      ring
    · exact cheap i (List.mem_append_right front (List.mem_singleton_self i))
  exact less.ne none.1

theorem Countable.cutIndex_nonneg (countable : Countable mode routine) : 0 ≤ (routine.withCut .exact mode).amortizedCutIndex := by
  have whole := countable.cut_after (List.append_nil _).symm
  rcases whole.found with ⟨-,sentinel⟩ | ⟨first,found⟩
  · have index : (cutOf .exact mode routine).cutIndex = 2 ^ 63 - 1 := sentinel
    show 0 ≤ (cutOf .exact mode routine).cutIndex
    omega
  · have nonempty : 0 < first.length := by
      apply List.length_pos_of_ne_nil
      intro empty
      exact found.paying (by rw [empty]; rfl)
    have index : (cutOf .exact mode routine).cutIndex + 1 = first.length := found.cutIndex
    show 0 ≤ (cutOf .exact mode routine).cutIndex
    omega

theorem Countable.withCut_balanced (countable : Countable mode routine) :
    0 ≤ (routine.withCut .exact mode).amortizedCutIndex ∧ Balanced java mode (routine.withCut .exact mode) := by
  have renumbered := setAmortizedIndexes_reindexed routine.inputTuples routine.objects 0
  have after := fun done rest split => @Countable.cut_after mode routine countable done rest split
  have costs := @renumbered_costs mode routine
  have cached := countable.cutIndex_nonneg
  refine ⟨cached,?_⟩
  by_cases paying : (routine.inputTuples.map fun i => (routine.objects i).getSumCost mode).sum = 0
  · apply balanced_of_free cached
    intro i member
    have zero := (List.all_zero_of_le_zero_le_of_sum_eq_zero (sum_costs_nonneg countable.whole) paying)
      (List.mem_map_of_mem member)
    exact (renumbered.getSumCost mode i).trans zero
  · have cheap : ∀ input ∈ routine.inputTuples.map (setAmortizedIndexes routine.objects 0 routine.inputTuples),
        input.getAvgCost .exact mode < maxDouble := by
      intro input member
      obtain ⟨i,inside,rfl⟩ := List.mem_map.mp member
      rw [renumbered.getAvgCost]
      exact countable.cheap inside
    obtain ⟨first,early,index,pays,alpha⟩ := Cut.found_of_paying after (by rw [costs]) paying cheap
    change (cutOf .exact mode routine).cutIndex + 1 = first.length at index
    rw [List.prefix_iff_eq_take,← List.map_take] at early
    have split := (List.take_append_drop first.length routine.inputTuples).symm
    generalize routine.inputTuples.take first.length = front at early split
    generalize routine.inputTuples.drop first.length = back at split
    subst early
    rw [List.length_map] at index
    rw [costs] at pays alpha
    have places := fun {i : Nat} {before behind : List Nat} (whole : routine.inputTuples = before ++ i :: behind) =>
      setAmortizedIndexes_index routine.objects 0 countable.distinct whole
    refine balanced_of_cut cached split (fun i member => ?_) (fun i member => ?_) (fun i member => ?_) ?_ ?_ ?_
    · exact (renumbered.calls i).symm ▸ countable.called i member
    · obtain ⟨before,behind,rfl⟩ := List.append_of_mem member
      rw [List.append_assoc,List.cons_append] at split
      show (setAmortizedIndexes routine.objects 0 routine.inputTuples i).amortizedIndex ≤ (cutOf .exact mode routine).cutIndex
      rw [places split]
      rw [List.length_append,List.length_cons] at index
      omega
    · obtain ⟨before,behind,rfl⟩ := List.append_of_mem member
      rw [← List.append_assoc] at split
      show (cutOf .exact mode routine).cutIndex < (setAmortizedIndexes routine.objects 0 routine.inputTuples i).amortizedIndex
      rw [places split,List.length_append]
      omega
    · rw [← costs,List.map_map] at pays
      exact pays
    · have rest : (routine.inputTuples.map fun i => (routine.objects i).getSumCost mode).sum -
          (front.map fun i => (routine.objects i).getSumCost mode).sum =
          (back.map fun i => (routine.objects i).getSumCost mode).sum := by
        rw [split,List.map_append,List.sum_append,add_sub_cancel_left]
      rw [rest,← costs,← costs,List.map_map,List.map_map] at alpha
      exact alpha
    · refine countable.sorted.imp fun {i j} less => ?_
      show (setAmortizedIndexes routine.objects 0 routine.inputTuples i).getAvgCost .exact mode ≤
        (setAmortizedIndexes routine.objects 0 routine.inputTuples j).getAvgCost .exact mode
      rw [renumbered.getAvgCost,renumbered.getAvgCost]
      exact less

end

end RoutineTuples

end Aprof.Plot
