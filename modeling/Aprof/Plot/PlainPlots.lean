import Aprof.Plot.AmortizedRuns

/-! The charts of one routine without grouping and smoothing, `populateChart` of `GraphPanel.java`. -/
namespace Aprof.Plot

inductive GraphType where
  | costPlot
  | ratioPlot
  | freqPlot
  | mmmPlot
  | totalcostPlot
  | varPlot
  | amortizedPlot
  deriving DecidableEq

inductive CostKind where
  | best
  | avg
  | worst

/-- The texts of the filters as parsed: `none` for null, `some none` for one that does not parse. -/
structure Filters where
  cost : Option (Option ℚ)
  input : Option (Option Int)
  calls : Option (Option Int)

namespace Input

def getMinCost (mode : CostType) (tuple : Input) : ℚ :=
  match mode with
  | .cumulative => tuple.minCumulativeCost
  | .self => tuple.minSelfCost

def getMaxCost (mode : CostType) (tuple : Input) : ℚ :=
  match mode with
  | .cumulative => tuple.maxCumulativeCost
  | .self => tuple.maxSelfCost

def getCost (mode : CostType) (kind : CostKind) (tuple : Input) : ℚ :=
  match kind with
  | .worst => tuple.getMaxCost mode
  | .avg => tuple.getAvgCost .java mode
  | .best => tuple.getMinCost mode

end Input

/-- A panel with thresholds 1. `ratioCost` is `getRatioCost(cost_type)` and `seriesOf` the
series for a number of calls, both computed with `java.lang.Math`. -/
structure GraphPanel where
  graphType : GraphType
  costType : CostKind
  filters : Option Filters
  ratioCost : Input → ℚ
  seriesOf : Int → Nat

structure Point where
  series : Nat
  x : ℚ
  y : ℚ
  deriving DecidableEq

/-- `filterRms`; a text that does not parse lets the tuple through at once. -/
def GraphPanel.filterRms (panel : GraphPanel) (mode : CostType) (t : Input) : Bool :=
  match panel.filters with
  | none => true
  | some filters =>
    match filters.cost with
    | some none => true
    | some (some time) => if t.getMaxCost mode < time then false else filterSize filters
    | none => filterSize filters
where
  filterSize (filters : Filters) : Bool :=
    match filters.input with
    | some none => true
    | some (some rms) => if t.size < rms then false else filterCalls filters
    | none => filterCalls filters
  filterCalls (filters : Filters) : Bool :=
    match filters.calls with
    | some none => true
    | some (some freq) => if t.calls < freq then false else true
    | none => true

section
variable (java : Java) (mode : CostType) (panel : GraphPanel)

def GraphPanel.getY (routine : RoutineTuples) (te : Nat) (slot : Nat) : Except String (ℚ × RoutineTuples) :=
  match panel.graphType with
  | .costPlot => .ok ((routine.objects te).getCost mode panel.costType,routine)
  | .ratioPlot => .ok (panel.ratioCost (routine.objects te),routine)
  | .totalcostPlot => .ok ((routine.objects te).getSumCost mode,routine)
  | .varPlot => do
    let y ← (routine.objects te).getVar .java mode
    .ok (y,routine)
  | .mmmPlot =>
    match slot with
    | 0 => .ok ((routine.objects te).getMinCost mode,routine)
    | 1 => .ok ((routine.objects te).getAvgCost .java mode,routine)
    | 2 => .ok ((routine.objects te).getMaxCost mode,routine)
    | _ => .ok (0,routine)
  | .amortizedPlot => .ok (routine.getAmortizedValue java .java mode te)
  | .freqPlot => .ok (Numbers.java.double (routine.objects te).calls,routine)

/-- The points that `addPoint` adds, and the routine after it. -/
def GraphPanel.addPoint (routine : RoutineTuples) (te : Nat) : Except String (List Point × RoutineTuples) :=
  let x := Numbers.java.double (routine.objects te).size
  if panel.filterRms mode (routine.objects te) then
    match panel.graphType with
    | .mmmPlot => do
      let (best,routine) ← panel.getY java mode routine te 0
      let (avg,routine) ← panel.getY java mode routine te 1
      let (worst,routine) ← panel.getY java mode routine te 2
      .ok ([⟨11,x,best⟩,⟨5,x,avg⟩,⟨0,x,worst⟩],routine)
    | .freqPlot | .amortizedPlot | .ratioPlot => do
      let (y,routine) ← panel.getY java mode routine te 0
      .ok ([⟨11,x,y⟩],routine)
    | .costPlot | .totalcostPlot | .varPlot => do
      let (y,routine) ← panel.getY java mode routine te 0
      .ok ([⟨panel.seriesOf (routine.objects te).calls,x,y⟩],routine)
  else .ok ([],routine)

/-- The iteration from `cursor` on, with `remaining` elements to come: nothing here changes
the size of the list. `next` checks for modifications, `hasNext` does not. -/
def GraphPanel.plotFrom (expectedModCount : Nat) : Nat → Nat → RoutineTuples → Except String (List Point)
  | _,0,_ => .ok []
  | cursor,remaining + 1,routine =>
    if routine.modCount ≠ expectedModCount then .error "ConcurrentModificationException"
    else
      match routine.inputTuples[cursor]? with
      | none => .error "NoSuchElementException"
      | some te => do
        let (points,routine) ← panel.addPoint java mode routine te
        let more ← plotFrom expectedModCount (cursor + 1) remaining routine
        .ok (points ++ more)

def GraphPanel.populateChart (routine : RoutineTuples) : Except String (List Point) :=
  if routine.inputTuples.length = 0 then .ok []
  else
    let routine := routine.sortInputTuplesByInput java
    panel.plotFrom java mode routine.modCount 0 routine.inputTuples.length routine

/-- One point for each tuple that passes the filter, at its size. -/
def GraphPanel.ShowsOnce (routine : RoutineTuples) : Prop :=
  ∃ points, panel.populateChart java mode routine = .ok points ∧
    (points.map Point.x).Perm
      (((routine.inputTuples.map routine.objects).filter (panel.filterRms mode)).map fun t => (t.size : ℚ))

/-- What the first y value of an amortized plot does to the rest of the iteration: nothing
is left, or sorting goes unnoticed and the same sizes are still to come. -/
def GraphPanel.Undisturbed (routine : RoutineTuples) : Prop :=
  ∀ before te after, (routine.sortInputTuplesByInput java).inputTuples = before ++ te :: after →
    (∀ i ∈ before, panel.filterRms mode (routine.objects i) = false) → panel.filterRms mode (routine.objects te) = true →
    after = [] ∨ java = .upTo7 ∧
      ((((stableSort (fun i => (routine.objects i).getAvgCost .java mode) (before ++ te :: after)).drop (before.length + 1)).filter
        fun i => panel.filterRms mode (routine.objects i)).map fun i => (routine.objects i).size).Perm
      ((after.filter fun i => panel.filterRms mode (routine.objects i)).map fun i => (routine.objects i).size)

end

section
variable {java : Java} {mode : CostType} {panel : GraphPanel} {routine : RoutineTuples} {te : Nat}

namespace GraphPanel

def Quiet (panel : GraphPanel) (routine : RoutineTuples) : Prop :=
  panel.graphType = .amortizedPlot → 0 ≤ routine.amortizedCutIndex

def Defined (mode : CostType) (panel : GraphPanel) (t : Input) : Prop :=
  panel.graphType = .varPlot → ∃ y, t.getVar .java mode = .ok y

/-- The sizes of the tuples that pass are doubles. -/
def Sized (mode : CostType) (panel : GraphPanel) (routine : RoutineTuples) : Prop :=
  ∀ i ∈ routine.inputTuples, panel.filterRms mode (routine.objects i) = true → IsDouble (routine.objects i).size

theorem Sized.sizes (sized : panel.Sized mode routine) {list : List Nat} (inside : list ⊆ routine.inputTuples) :
    ((list.filter fun i => panel.filterRms mode (routine.objects i)).map fun i =>
        Numbers.java.double (routine.objects i).size) =
      (list.filter fun i => panel.filterRms mode (routine.objects i)).map fun i => ((routine.objects i).size : ℚ) := by
  refine List.map_congr_left fun i member => ?_
  obtain ⟨listed,passes⟩ := List.mem_filter.mp member
  exact roundDouble_exact (sized i (inside listed) passes)

theorem addPoint_double {points : List Point} {after : RoutineTuples}
    (added : panel.addPoint java mode routine te = .ok (points,after)) : ∀ point ∈ points, IsDouble point.x := by
  have x := roundDouble_isDouble (routine.objects te).size
  unfold addPoint at added
  cases passes : panel.filterRms mode (routine.objects te) with
  | false =>
    rw [passes] at added
    cases added
    exact fun _ member => absurd member List.not_mem_nil
  | true =>
    rw [passes] at added
    unfold getY at added
    cases kind : panel.graphType with
    | varPlot =>
      rw [kind] at added
      cases value : (routine.objects te).getVar .java mode with
      | error message =>
        rw [value] at added
        cases added
      | ok y =>
        rw [value] at added
        cases added
        exact List.forall_mem_singleton.mpr x
    | mmmPlot =>
      rw [kind] at added
      cases added
      exact List.forall_mem_cons.mpr ⟨x,List.forall_mem_cons.mpr ⟨x,List.forall_mem_singleton.mpr x⟩⟩
    | costPlot | ratioPlot | freqPlot | totalcostPlot | amortizedPlot =>
      rw [kind] at added
      cases added
      exact List.forall_mem_singleton.mpr x

theorem addPoint_hidden (hidden : panel.filterRms mode (routine.objects te) = false) :
    panel.addPoint java mode routine te = .ok ([],routine) := by
  rw [addPoint,hidden]
  rfl

theorem addPoint_shown (plain : panel.graphType ≠ .mmmPlot) (quiet : panel.Quiet routine)
    (shown : panel.filterRms mode (routine.objects te) = true) (defined : panel.Defined mode (routine.objects te)) :
    ∃ point, panel.addPoint java mode routine te = .ok ([point],routine) ∧ point.x = Numbers.java.double (routine.objects te).size := by
  have cached : panel.graphType = .amortizedPlot → (routine.getAmortizedValue java .java mode te).2 = routine := by
    intro amortized
    rw [RoutineTuples.getAmortizedValue_routine,if_neg (not_lt.mpr (quiet amortized))]
  unfold addPoint getY
  rw [shown]
  cases kind : panel.graphType with
  | mmmPlot => exact absurd kind plain
  | varPlot =>
    obtain ⟨y,value⟩ := defined kind
    simp only [value]
    exact ⟨_,rfl,rfl⟩
  | amortizedPlot => exact ⟨_,congrArg Except.ok (Prod.ext rfl (cached kind)),rfl⟩
  | costPlot => exact ⟨_,rfl,rfl⟩
  | ratioPlot => exact ⟨_,rfl,rfl⟩
  | freqPlot => exact ⟨_,rfl,rfl⟩
  | totalcostPlot => exact ⟨_,rfl,rfl⟩

theorem addPoint_first (amortized : panel.graphType = .amortizedPlot) (cold : routine.amortizedCutIndex < 0)
    (shown : panel.filterRms mode (routine.objects te) = true) :
    ∃ point, panel.addPoint java mode routine te = .ok ([point],routine.computeAmortizedCutIndex java .java mode) ∧
      point.x = Numbers.java.double (routine.objects te).size := by
  have computed : (routine.getAmortizedValue java .java mode te).2 = routine.computeAmortizedCutIndex java .java mode := by
    rw [RoutineTuples.getAmortizedValue_routine,if_pos cold]
  unfold addPoint getY
  rw [shown,amortized]
  exact ⟨_,congrArg Except.ok (Prod.ext rfl computed),rfl⟩

theorem plotFrom_double {expected : Nat} : ∀ {remaining cursor : Nat} {routine : RoutineTuples} {points : List Point},
    panel.plotFrom java mode expected cursor remaining routine = .ok points → ∀ point ∈ points, IsDouble point.x := by
  intro remaining
  induction remaining with
  | zero =>
    intro cursor routine points plotted
    rw [plotFrom] at plotted
    cases plotted
    exact fun _ member => absurd member List.not_mem_nil
  | succ remaining ih =>
    intro cursor routine points plotted
    rw [plotFrom] at plotted
    by_cases modified : routine.modCount ≠ expected
    · rw [if_pos modified] at plotted
      cases plotted
    · rw [if_neg modified] at plotted
      cases found : routine.inputTuples[cursor]? with
      | none =>
        rw [found] at plotted
        cases plotted
      | some te =>
        rw [found] at plotted
        cases added : panel.addPoint java mode routine te with
        | error message =>
          simp only [added] at plotted
          cases plotted
        | ok result =>
          obtain ⟨first,after⟩ := result
          cases later : panel.plotFrom java mode expected (cursor + 1) remaining after with
          | error message =>
            simp only [added] at plotted
            change (panel.plotFrom java mode expected (cursor + 1) remaining after >>= _) = _ at plotted
            rw [later] at plotted
            cases plotted
          | ok more =>
            simp only [added] at plotted
            change (panel.plotFrom java mode expected (cursor + 1) remaining after >>= _) = _ at plotted
            rw [later] at plotted
            cases plotted
            intro point member
            exact (List.mem_append.mp member).elim (addPoint_double added point) (ih later point)

theorem found_at {front rest : List Nat} (split : routine.inputTuples = front ++ te :: rest) :
    routine.inputTuples[front.length]? = some te := by
  rw [split,List.getElem?_append_right le_rfl,Nat.sub_self]
  rfl

theorem plotFrom_next {cursor remaining : Nat} (found : routine.inputTuples[cursor]? = some te) :
    panel.plotFrom java mode routine.modCount cursor (remaining + 1) routine =
      (panel.addPoint java mode routine te >>= fun (points,after) => do
        let more ← panel.plotFrom java mode routine.modCount (cursor + 1) remaining after
        .ok (points ++ more)) := by
  rw [plotFrom,if_neg (not_not.mpr rfl),found]

theorem plotFrom_hidden {before : List Nat} (hidden : ∀ i ∈ before, panel.filterRms mode (routine.objects i) = false) :
    ∀ {front : List Nat} {rest : List Nat}, routine.inputTuples = front ++ (before ++ rest) →
    panel.plotFrom java mode routine.modCount front.length (before ++ rest).length routine =
      panel.plotFrom java mode routine.modCount (front ++ before).length rest.length routine := by
  induction before with
  | nil =>
    intro front rest _
    rw [List.nil_append,List.append_nil]
  | cons i before ih =>
    intro front rest split
    have found := found_at split
    have later := @ih (fun j member => hidden j (List.mem_cons_of_mem i member)) (front ++ [i]) rest
      (by rw [split,List.append_assoc]; rfl)
    rw [List.cons_append,List.length_cons,plotFrom_next found,addPoint_hidden (hidden i List.mem_cons_self)]
    rw [List.length_append,List.length_singleton,List.append_assoc,List.singleton_append] at later
    show (panel.plotFrom java mode routine.modCount (front.length + 1) (before ++ rest).length routine >>= _) = _
    rw [later]
    cases panel.plotFrom java mode routine.modCount (front ++ i :: before).length rest.length routine <;> rfl

theorem plotFrom_quiet (plain : panel.graphType ≠ .mmmPlot) (quiet : panel.Quiet routine) {rest : List Nat} :
    ∀ {front : List Nat}, routine.inputTuples = front ++ rest →
    (∀ i ∈ rest, panel.filterRms mode (routine.objects i) = true → panel.Defined mode (routine.objects i)) →
    ∃ points, panel.plotFrom java mode routine.modCount front.length rest.length routine = .ok points ∧
      points.map Point.x =
        (rest.filter fun i => panel.filterRms mode (routine.objects i)).map fun i => Numbers.java.double (routine.objects i).size := by
  induction rest with
  | nil => exact fun _ _ => ⟨[],rfl,rfl⟩
  | cons i rest ih =>
    intro front split defined
    have found := found_at split
    obtain ⟨points,plotted,sizes⟩ := @ih (front ++ [i]) (by rw [split,List.append_assoc]; rfl)
      fun j member => defined j (List.mem_cons_of_mem i member)
    rw [List.length_append,List.length_singleton] at plotted
    rw [List.length_cons,plotFrom_next found]
    cases shown : panel.filterRms mode (routine.objects i) with
    | false =>
      refine ⟨points,?_,?_⟩
      · rw [addPoint_hidden shown]
        show (panel.plotFrom java mode routine.modCount (front.length + 1) rest.length routine >>= _) = _
        rw [plotted]
        rfl
      · rw [sizes,List.filter_cons,shown]
        rfl
    | true =>
      obtain ⟨point,added,x⟩ := @addPoint_shown java mode panel routine i plain quiet shown (defined i List.mem_cons_self shown)
      refine ⟨point :: points,?_,?_⟩
      · rw [added]
        show (panel.plotFrom java mode routine.modCount (front.length + 1) rest.length routine >>= _) = _
        rw [plotted]
        rfl
      · rw [List.map_cons,sizes,x,List.filter_cons,shown]
        rfl

theorem plotFrom_defined (kind : panel.graphType = .varPlot) {rest : List Nat} :
    ∀ {front : List Nat} {points : List Point}, routine.inputTuples = front ++ rest →
    panel.plotFrom java mode routine.modCount front.length rest.length routine = .ok points →
    ∀ i ∈ rest, panel.filterRms mode (routine.objects i) = true → panel.Defined mode (routine.objects i) := by
  induction rest with
  | nil => exact fun _ _ i member => absurd member List.not_mem_nil
  | cons i rest ih =>
    intro front points split plotted j member shown
    have found := found_at split
    have quiet : panel.Quiet routine := fun amortized => absurd (kind.symm.trans amortized) nofun
    rw [List.length_cons,plotFrom_next found] at plotted
    have tail := @ih (front ++ [i])
    rw [List.length_append,List.length_singleton] at tail
    cases passes : panel.filterRms mode (routine.objects i) with
    | false =>
      rw [addPoint_hidden passes] at plotted
      change (panel.plotFrom java mode routine.modCount (front.length + 1) rest.length routine >>= _) = _ at plotted
      cases later : panel.plotFrom java mode routine.modCount (front.length + 1) rest.length routine with
      | error message =>
        rw [later] at plotted
        cases plotted
      | ok more =>
        rcases List.mem_cons.mp member with same | inside
        · rw [same,passes] at shown
          cases shown
        · exact tail (by rw [split,List.append_assoc]; rfl) later j inside shown
    | true =>
      cases value : (routine.objects i).getVar .java mode with
      | error message =>
        unfold addPoint getY at plotted
        rw [passes,kind,value] at plotted
        cases plotted
      | ok y =>
        have defined : panel.Defined mode (routine.objects i) := fun _ => ⟨y,value⟩
        obtain ⟨point,added,-⟩ := @addPoint_shown java mode panel routine i (by rw [kind]; nofun) quiet passes defined
        rw [added] at plotted
        change (panel.plotFrom java mode routine.modCount (front.length + 1) rest.length routine >>= _) = _ at plotted
        cases later : panel.plotFrom java mode routine.modCount (front.length + 1) rest.length routine with
        | error message =>
          rw [later] at plotted
          cases plotted
        | ok more =>
          rcases List.mem_cons.mp member with same | inside
          · rw [same]
            exact defined
          · exact tail (by rw [split,List.append_assoc]; rfl) later j inside shown

end GraphPanel

end

namespace RoutineTuples

theorem setAmortizedIndexes_nonneg (list : List Nat) : ∀ (objects : Nat → Input) (index : Nat),
    ∀ i ∈ list, 0 ≤ (setAmortizedIndexes objects index list i).amortizedIndex := by
  induction list with
  | nil => exact fun _ _ i member => absurd member List.not_mem_nil
  | cons j list ih =>
    intro objects index i member
    by_cases later : i ∈ list
    · exact ih _ (index + 1) i later
    · have same : i = j := (List.mem_cons.mp member).resolve_right later
      rw [setAmortizedIndexes,setAmortizedIndexes_other list later,same,Function.update_self]
      exact Int.natCast_nonneg index

theorem Cut.foldl_nonneg (numbers : Numbers) (mode : CostType) (tuples : List Input) : ∀ cut : Cut, 0 ≤ cut.cutIndex →
    (∀ i ∈ tuples, 0 ≤ i.amortizedIndex) → 0 ≤ (tuples.foldl (Cut.next numbers mode) cut).cutIndex := by
  induction tuples with
  | nil => exact fun _ cached _ => cached
  | cons i tuples ih =>
    intro cut cached indexes
    refine ih _ ?_ fun j member => indexes j (List.mem_cons_of_mem i member)
    unfold Cut.next
    dsimp only
    split_ifs
    · exact cached
    · exact cached
    · exact indexes i List.mem_cons_self
    · exact cached

theorem withCut_cached (numbers : Numbers) (mode : CostType) (routine : RoutineTuples) :
    0 ≤ (routine.withCut numbers mode).amortizedCutIndex := by
  refine Cut.foldl_nonneg numbers mode _ _ (by decide : (0 : Int) ≤ 2 ^ 63 - 1) fun input member => ?_
  obtain ⟨i,inside,rfl⟩ := List.mem_map.mp member
  exact setAmortizedIndexes_nonneg routine.inputTuples routine.objects 0 i inside

end RoutineTuples

section
variable {java : Java} {mode : CostType} {panel : GraphPanel} {routine : RoutineTuples}

theorem RoutineTuples.compute_fields (java : Java) (mode : CostType) (unsorted : routine.sortStatus ≠ .byAvgCost) :
    (routine.computeAmortizedCutIndex java .java mode).inputTuples =
        stableSort (fun i => (routine.objects i).getAvgCost .java mode) routine.inputTuples ∧
      (routine.computeAmortizedCutIndex java .java mode).modCount =
        (if java = .from8 then routine.modCount + 1 else routine.modCount) ∧
      Reindexed routine.objects (routine.computeAmortizedCutIndex java .java mode).objects ∧
      0 ≤ (routine.computeAmortizedCutIndex java .java mode).amortizedCutIndex := by
  have sorted : routine.sortInputTuplesByAvgCost java .java mode =
      { routine.sort java (Input.getAvgCost .java mode) with sortStatus := .byAvgCost } := if_neg unsorted
  rw [computeAmortizedCutIndex_eq,sorted]
  exact ⟨rfl,rfl,setAmortizedIndexes_reindexed _ _ 0,withCut_cached .java mode _⟩

theorem Reindexed.filterRms {base objects : Nat → Input} (reindexed : Reindexed base objects) (i : Nat) :
    panel.filterRms mode (objects i) = panel.filterRms mode (base i) := by
  obtain ⟨index,same⟩ := reindexed i
  rw [same]
  cases mode <;> rfl

theorem Reindexed.size {base objects : Nat → Input} (reindexed : Reindexed base objects) (i : Nat) :
    (objects i).size = (base i).size := by
  obtain ⟨index,same⟩ := reindexed i
  rw [same]

theorem RoutineTuples.sortInputTuplesByInput_status (java : Java) (routine : RoutineTuples) :
    (routine.sortInputTuplesByInput java).sortStatus = .byInput := by
  unfold sortInputTuplesByInput
  split
  · assumption
  · rfl

namespace GraphPanel

theorem plot_cold (amortized : panel.graphType = .amortizedPlot) (cold : routine.amortizedCutIndex < 0)
    (unsorted : routine.sortStatus ≠ .byAvgCost) (sized : panel.Sized mode routine) {before after : List Nat} {te : Nat}
    (split : routine.inputTuples = before ++ te :: after)
    (hidden : ∀ i ∈ before, panel.filterRms mode (routine.objects i) = false)
    (shown : panel.filterRms mode (routine.objects te) = true) :
    (∃ points, panel.plotFrom java mode routine.modCount 0 routine.inputTuples.length routine = .ok points ∧
      (points.map Point.x).Perm (((routine.inputTuples.filter fun i => panel.filterRms mode (routine.objects i)).map
        fun i => ((routine.objects i).size : ℚ)))) ↔
    (after = [] ∨ java = .upTo7 ∧
      ((((stableSort (fun i => (routine.objects i).getAvgCost .java mode) (before ++ te :: after)).drop (before.length + 1)).filter
        fun i => panel.filterRms mode (routine.objects i)).map fun i => (routine.objects i).size).Perm
      ((after.filter fun i => panel.filterRms mode (routine.objects i)).map fun i => (routine.objects i).size)) := by
  have hiddenAll : before.filter (fun i => panel.filterRms mode (routine.objects i)) = [] :=
    List.filter_eq_nil_iff.mpr fun i member passes => absurd passes (by rw [hidden i member]; exact Bool.false_ne_true)
  have target : (routine.inputTuples.filter fun i => panel.filterRms mode (routine.objects i)).map
      (fun i => ((routine.objects i).size : ℚ)) = ((routine.objects te).size : ℚ) ::
        (after.filter fun i => panel.filterRms mode (routine.objects i)).map fun i => ((routine.objects i).size : ℚ) := by
    rw [split,List.filter_append,hiddenAll,List.nil_append,List.filter_cons,if_pos shown,List.map_cons]
  have found := found_at split
  obtain ⟨point,added,x⟩ := @addPoint_first java mode panel routine te amortized cold shown
  have listed : te ∈ routine.inputTuples := by
    rw [split]
    exact List.mem_append_right before List.mem_cons_self
  rw [Numbers.double,roundDouble_exact (sized te listed shown)] at x
  have reached : panel.plotFrom java mode routine.modCount 0 routine.inputTuples.length routine =
      (panel.plotFrom java mode routine.modCount (before.length + 1) after.length
        (routine.computeAmortizedCutIndex java .java mode) >>= fun more => .ok (point :: more)) := by
    have skipped := @plotFrom_hidden java mode panel routine before hidden [] (te :: after) split
    rw [List.nil_append] at skipped
    rw [split]
    rw [← split] at skipped ⊢
    refine skipped.trans ?_
    rw [List.length_cons,plotFrom_next found,added]
    rfl
  obtain ⟨list,modified,reindexed,cached⟩ := RoutineTuples.compute_fields java mode unsorted
  rw [reached,target]
  cases after with
  | nil => exact iff_of_true ⟨[point],rfl,by rw [List.map_singleton,x]; rfl⟩ (.inl rfl)
  | cons next after =>
    cases java with
    | from8 =>
      have changed : (routine.computeAmortizedCutIndex .from8 .java mode).modCount ≠ routine.modCount := by
        rw [modified]
        exact Nat.succ_ne_self _
      have thrown : panel.plotFrom .from8 mode routine.modCount (before.length + 1) (next :: after).length
          (routine.computeAmortizedCutIndex .from8 .java mode) = .error "ConcurrentModificationException" := by
        rw [List.length_cons,plotFrom,if_pos changed]
      rw [thrown]
      refine iff_of_false ?_ ?_
      · rintro ⟨points,plotted,-⟩
        cases plotted
      · rintro (empty | ⟨old,-⟩)
        · cases empty
        · cases old
    | upTo7 =>
      have same : (routine.computeAmortizedCutIndex .upTo7 .java mode).modCount = routine.modCount := modified
      have whole := (stableSort_perm (fun i => (routine.objects i).getAvgCost .java mode) routine.inputTuples).length_eq
      rw [split] at list whole
      have inside : (stableSort (fun i => (routine.objects i).getAvgCost .java mode) (before ++ te :: next :: after)).drop
          (before.length + 1) ⊆ routine.inputTuples := by
        intro i member
        rw [split]
        exact (stableSort_perm _ _).subset (List.drop_subset _ _ member)
      have halves := (List.take_append_drop (before.length + 1)
        (stableSort (fun i => (routine.objects i).getAvgCost .java mode) (before ++ te :: next :: after))).symm
      have lengths : ((stableSort (fun i => (routine.objects i).getAvgCost .java mode) (before ++ te :: next :: after)).take
          (before.length + 1)).length = before.length + 1 := by
        rw [List.length_take,whole,List.length_append,List.length_cons]
        omega
      have rest : ((stableSort (fun i => (routine.objects i).getAvgCost .java mode) (before ++ te :: next :: after)).drop
          (before.length + 1)).length = (next :: after).length := by
        rw [List.length_drop,whole,List.length_append,List.length_cons]
        omega
      have defined : ∀ t, panel.Defined mode t := fun t kind => absurd (amortized.symm.trans kind) nofun
      obtain ⟨more,plotted,sizes⟩ := @plotFrom_quiet .upTo7 mode panel (routine.computeAmortizedCutIndex .upTo7 .java mode)
        (by rw [amortized]; nofun) (fun _ => cached) _ _ (list.trans halves) fun i _ _ => defined _
      rw [lengths,rest,same] at plotted
      simp only [reindexed.filterRms,reindexed.size] at sizes
      rw [sized.sizes inside] at sizes
      rw [plotted]
      constructor
      · rintro ⟨points,ended,perm⟩
        cases ended
        rw [List.map_cons,x,sizes,List.perm_cons] at perm
        refine .inr ⟨rfl,(List.map_perm_map_iff (f := ((↑) : Int → ℚ)) Int.cast_injective).mp ?_⟩
        rw [List.map_map,List.map_map]
        exact perm
      · rintro (empty | ⟨-,perm⟩)
        · cases empty
        · refine ⟨point :: more,rfl,?_⟩
          rw [List.map_cons,x,sizes,List.perm_cons]
          have casts := perm.map ((↑) : Int → ℚ)
          rw [List.map_map,List.map_map] at casts
          exact casts

end GraphPanel

end

theorem GraphPanel.showsOnce_iff (java : Java) (mode : CostType) (panel : GraphPanel) (routine : RoutineTuples) :
    panel.ShowsOnce java mode routine ↔
      ∃ points, panel.plotFrom java mode (routine.sortInputTuplesByInput java).modCount 0
          (routine.sortInputTuplesByInput java).inputTuples.length (routine.sortInputTuplesByInput java) = .ok points ∧
        (points.map Point.x).Perm (((routine.sortInputTuplesByInput java).inputTuples.filter fun i =>
          panel.filterRms mode ((routine.sortInputTuplesByInput java).objects i)).map
            fun i => (((routine.sortInputTuplesByInput java).objects i).size : ℚ)) := by
  obtain ⟨objects,same,-,-⟩ := RoutineTuples.sortInputTuplesByInput_keeps java routine
  have targets : (((routine.inputTuples.map routine.objects).filter (panel.filterRms mode)).map fun t => (t.size : ℚ)).Perm
      (((routine.sortInputTuplesByInput java).inputTuples.filter fun i => panel.filterRms mode (routine.objects i)).map
        fun i => ((routine.objects i).size : ℚ)) := by
    rw [List.filter_map,List.map_map]
    exact ((same.filter _).map _).symm
  rw [objects]
  unfold ShowsOnce populateChart
  by_cases empty : routine.inputTuples.length = 0
  · rw [if_pos empty]
    have none := List.length_eq_zero_iff.mp empty
    rw [none] at same
    rw [none,same.eq_nil]
    refine iff_of_true ⟨[],rfl,.refl _⟩ ⟨[],rfl,.refl _⟩
  · rw [if_neg empty]
    dsimp only
    rw [same.length_eq]
    constructor
    · rintro ⟨points,plotted,perm⟩
      exact ⟨points,plotted,perm.trans targets⟩
    · rintro ⟨points,plotted,perm⟩
      exact ⟨points,plotted,perm.trans targets.symm⟩

theorem GraphPanel.ShowsOnce.sized {java : Java} {mode : CostType} {panel : GraphPanel} {routine : RoutineTuples}
    (shows : panel.ShowsOnce java mode routine) : panel.Sized mode routine := by
  intro i member passes
  obtain ⟨points,plotted,perm⟩ := (panel.showsOnce_iff java mode routine).mp shows
  obtain ⟨objects,same,-,-⟩ := RoutineTuples.sortInputTuplesByInput_keeps java routine
  rw [objects] at perm
  have shown : i ∈ (routine.sortInputTuplesByInput java).inputTuples.filter fun i => panel.filterRms mode (routine.objects i) :=
    List.mem_filter.mpr ⟨same.mem_iff.mpr member,passes⟩
  have shown := List.mem_map_of_mem (f := fun i => ((routine.objects i).size : ℚ)) shown
  obtain ⟨point,added,x⟩ := List.mem_map.mp (perm.mem_iff.mpr shown)
  rw [← x]
  exact plotFrom_double plotted point added

theorem GraphPanel.Sized.showsOnce_iff {java : Java} {mode : CostType} {panel : GraphPanel} {routine : RoutineTuples}
    (sized : panel.Sized mode routine) (plain : panel.graphType ≠ .mmmPlot) :
    panel.ShowsOnce java mode routine ↔
      (panel.graphType = .varPlot → ∀ i ∈ routine.inputTuples, panel.filterRms mode (routine.objects i) = true →
        ∃ y, (routine.objects i).getVar .java mode = .ok y) ∧
      (panel.graphType = .amortizedPlot → routine.amortizedCutIndex < 0 → panel.Undisturbed java mode routine) := by
  obtain ⟨objects,same,cut,-⟩ := RoutineTuples.sortInputTuplesByInput_keeps java routine
  have unsorted : (routine.sortInputTuplesByInput java).sortStatus ≠ .byAvgCost := by
    rw [routine.sortInputTuplesByInput_status java]
    nofun
  have sorted : panel.Sized mode (routine.sortInputTuplesByInput java) := by
    intro i member
    rw [objects]
    exact sized i (same.mem_iff.mp member)
  rw [GraphPanel.showsOnce_iff]
  by_cases cold : panel.graphType = .amortizedPlot ∧ routine.amortizedCutIndex < 0
  · obtain ⟨amortized,cold⟩ := cold
    have free : panel.graphType = .varPlot → ∀ i ∈ routine.inputTuples, panel.filterRms mode (routine.objects i) = true →
        ∃ y, (routine.objects i).getVar .java mode = .ok y := fun kind => absurd (amortized.symm.trans kind) nofun
    have split := fun {before after : List Nat} {te : Nat} => @GraphPanel.plot_cold java mode panel
      (routine.sortInputTuplesByInput java) amortized (by rw [cut]; exact cold) unsorted sorted before after te
    rw [objects] at split ⊢
    constructor
    · intro shows
      refine ⟨free,fun _ _ before te after whole hidden shown => ?_⟩
      exact (split whole hidden shown).mp shows
    · rintro ⟨-,undisturbed⟩
      cases first : (routine.sortInputTuplesByInput java).inputTuples.find? fun i => panel.filterRms mode (routine.objects i) with
      | some te =>
        obtain ⟨shown,before,after,whole,hidden⟩ := List.find?_eq_some_iff_append.mp first
        have unseen : ∀ i ∈ before, panel.filterRms mode (routine.objects i) = false :=
          fun i member => Bool.eq_false_of_not_eq_true' (hidden i member)
        exact (split whole unseen shown).mpr (undisturbed amortized cold before te after whole unseen shown)
      | none =>
        have unseen : ∀ i ∈ (routine.sortInputTuplesByInput java).inputTuples,
            panel.filterRms mode (routine.objects i) = false := by
          intro i member
          exact Bool.eq_false_iff.mpr (List.find?_eq_none.mp first i member)
        have skipped := @GraphPanel.plotFrom_hidden java mode panel (routine.sortInputTuplesByInput java)
          (routine.sortInputTuplesByInput java).inputTuples (by rw [objects]; exact unseen) [] [] (List.append_nil _).symm
        rw [List.append_nil] at skipped
        refine ⟨[],skipped,?_⟩
        rw [List.filter_eq_nil_iff.mpr fun i member passes => absurd passes (by rw [unseen i member]; exact Bool.false_ne_true)]
        exact .refl _
  · have quiet : panel.Quiet (routine.sortInputTuplesByInput java) := by
      intro amortized
      rw [cut]
      exact not_lt.mp fun below => cold ⟨amortized,below⟩
    have warm : panel.graphType = .amortizedPlot → routine.amortizedCutIndex < 0 → panel.Undisturbed java mode routine :=
      fun amortized below => absurd ⟨amortized,below⟩ cold
    constructor
    · rintro ⟨points,plotted,-⟩
      refine ⟨fun kind i member shown => ?_,warm⟩
      have defined := @GraphPanel.plotFrom_defined java mode panel (routine.sortInputTuplesByInput java) kind
        (routine.sortInputTuplesByInput java).inputTuples [] points rfl plotted i (same.mem_iff.mpr member)
      rw [objects] at defined
      exact defined shown kind
    · rintro ⟨defined,-⟩
      obtain ⟨points,plotted,sizes⟩ := @GraphPanel.plotFrom_quiet java mode panel (routine.sortInputTuplesByInput java) plain
        quiet (routine.sortInputTuplesByInput java).inputTuples [] rfl (fun i member shown kind => by
          rw [objects] at shown ⊢
          exact defined kind i (same.subset member) shown)
      rw [sorted.sizes (List.Subset.refl _)] at sizes
      exact ⟨points,plotted,List.Perm.of_eq sizes⟩

/-- A plain chart other than the three-curve one shows every tuple once exactly when the sizes
are doubles, its y values exist and, where an amortized plot computes the cut, the iteration
is undisturbed. -/
theorem shows_once_iff (java : Java) (mode : CostType) (panel : GraphPanel) (routine : RoutineTuples)
    (plain : panel.graphType ≠ .mmmPlot) :
    panel.ShowsOnce java mode routine ↔
      (∀ i ∈ routine.inputTuples, panel.filterRms mode (routine.objects i) = true → IsDouble (routine.objects i).size) ∧
      (panel.graphType = .varPlot → ∀ i ∈ routine.inputTuples, panel.filterRms mode (routine.objects i) = true →
        ∃ y, (routine.objects i).getVar .java mode = .ok y) ∧
      (panel.graphType = .amortizedPlot → routine.amortizedCutIndex < 0 → panel.Undisturbed java mode routine) :=
  ⟨fun shows => ⟨shows.sized,(shows.sized.showsOnce_iff plain).mp shows⟩,fun ⟨sized,rest⟩ =>
    (GraphPanel.Sized.showsOnce_iff sized plain).mpr rest⟩

def amortizedPanel : GraphPanel :=
  { graphType := .amortizedPlot, costType := .worst, filters := none, ratioCost := fun _ => 0, seriesOf := fun _ => 11 }

/-- Once the cut is there, an amortized plot shows the three tuples. -/
theorem shows_once_iff_warm :
    amortizedPanel.ShowsOnce .from8 .self ((RoutineTuples.ofInputs crossedInputs).getAmortizedValue .from8 .java .self 0).2 := by
  refine (shows_once_iff .from8 .self amortizedPanel _ (by decide)).mpr
    ⟨fun i member _ => ?_,fun kind => absurd kind (by decide),fun _ cold => absurd cold (by decide +kernel)⟩
  have short : ∀ i ∈ ((RoutineTuples.ofInputs crossedInputs).getAmortizedValue .from8 .java .self 0).2.inputTuples,
      (((RoutineTuples.ofInputs crossedInputs).getAmortizedValue .from8 .java .self 0).2.objects i).size.natAbs < 2 ^ 53 := by
    decide +kernel
  exact isDouble_intCast (short i member).le

/-- A first amortized plot of three tuples throws at the second. -/
theorem first_plot_disturbed :
    amortizedPanel.populateChart .from8 .self (.ofInputs crossedInputs) = .error "ConcurrentModificationException" ∧
      ¬amortizedPanel.ShowsOnce .from8 .self (.ofInputs crossedInputs) := by
  have thrown : amortizedPanel.populateChart .from8 .self (.ofInputs crossedInputs) =
      .error "ConcurrentModificationException" := by decide +kernel
  refine ⟨thrown,?_⟩
  rintro ⟨points,plotted,-⟩
  rw [thrown] at plotted
  cases plotted

end Aprof.Plot
