import Aprof.Plot.PlainPlots
import Mathlib.Data.Nat.Log

/-! The charts of `GraphPanel.java` with a grouping or a smoothing threshold above 1. -/
namespace Aprof.Plot

/-- `(int) d` for a whole number -/
def toInt (d : Int) : Int := max (-2 ^ 31) (min (2 ^ 31 - 1) d)

/-- `(int) Math.log10(max) + 1`; the logarithm of 0 is cast to the least int. -/
def thresholdBase (max : Int) : Int := if max = 0 then -2 ^ 31 + 1 else Nat.log 10 max.toNat + 1

/-- What `addInput` has kept. -/
def RoutineTuples.maxInput (routine : RoutineTuples) : Int :=
  (routine.inputTuples.map fun i => (routine.objects i).size).foldl max 0

/-- A panel and its thresholds; those of an amortized plot stay 1. -/
structure ThresholdPanel extends GraphPanel where
  groupThresholdBase : Int := 1
  groupThreshold : Int := 1
  smoothThresholdBase : Int := 1
  smoothThreshold : Int := 1
  plain : graphType = .amortizedPlot → groupThreshold = 1 ∧ smoothThreshold = 1

namespace ThresholdPanel

def setRoutine (panel : ThresholdPanel) (routine : RoutineTuples) : ThresholdPanel :=
  { panel with
    groupThresholdBase := thresholdBase routine.maxInput
    smoothThresholdBase := thresholdBase routine.maxInput
    groupThreshold := 1
    smoothThreshold := 1
    plain := fun _ => ⟨rfl,rfl⟩ }

end ThresholdPanel

/-- A point of a grouped or smoothed chart; a coordinate is `none` after a division by zero. -/
structure Dot where
  series : Nat
  x : Option ℚ
  y : Option ℚ
  deriving DecidableEq

def Point.toDot (point : Point) : Dot := ⟨point.series,some point.x,some point.y⟩

def quotient (sum : ℚ) (n : Int) : Option ℚ := if n = 0 then none else some (Numbers.java.double (sum / n))

/-- The y values of the slots 0, 1 and 2 of `getY`, as `populateChart` also computes them;
an amortized plot has none. -/
def GraphPanel.ys (mode : CostType) (panel : GraphPanel) (te : Input) : Except String (ℚ × ℚ × ℚ) :=
  match panel.graphType with
  | .costPlot => .ok (te.getCost mode panel.costType,0,0)
  | .ratioPlot => .ok (panel.ratioCost te,0,0)
  | .totalcostPlot => .ok (te.getSumCost mode,0,0)
  | .varPlot => do
    let y ← te.getVar .java mode
    .ok (y,0,0)
  | .freqPlot => .ok (Numbers.java.double te.calls,0,0)
  | .mmmPlot => .ok (te.getMinCost mode,te.getAvgCost .java mode,te.getMaxCost mode)
  | .amortizedPlot => .ok (0,0,0)

def Numbers.doubles (numbers : Numbers) (y : ℚ × ℚ × ℚ) : ℚ × ℚ × ℚ :=
  (numbers.double y.1,numbers.double y.2.1,numbers.double y.2.2)

/-- `x % t` for doubles, which is exact -/
def remainder (x : ℚ) (t : Int) : ℚ := x - t * truncate (x / t)

/-- The variables of a slot in `populateChart`, and the fields of the panel for `addPoint`. -/
structure Slot where
  start : ℚ := 0
  elems : Nat := 0
  sumX : ℚ := 0
  sumY : ℚ × ℚ × ℚ := 0
  sumOcc : Int := 0

def Slot.add (slot : Slot) (te : Input) (y : ℚ × ℚ × ℚ) : Slot :=
  { slot with
    elems := slot.elems + 1
    sumX := Numbers.java.double (slot.sumX + Numbers.java.double te.size)
    sumY := Numbers.java.doubles (slot.sumY + y)
    sumOcc := Numbers.java.long (slot.sumOcc + te.calls) }

/-- The points of a slot; `best` and `worst` are the series for the least and the greatest costs. -/
def GraphPanel.slotDots (panel : GraphPanel) (best worst : Nat) (slot : Slot) : List Dot :=
  let x := quotient slot.sumX slot.elems
  match panel.graphType with
  | .freqPlot => [⟨11,x,some slot.sumY.1⟩]
  | .mmmPlot =>
    [⟨best,x,quotient slot.sumY.1 slot.elems⟩,⟨5,x,quotient slot.sumY.2.1 slot.elems⟩,⟨worst,x,quotient slot.sumY.2.2 slot.elems⟩]
  | _ => [⟨panel.seriesOf slot.sumOcc,x,quotient slot.sumY.1 slot.elems⟩]

namespace ThresholdPanel
variable (mode : CostType) (panel : ThresholdPanel)

/-- `current_slot` in the grouped branch of `populateChart` -/
def groupSlot (size : Int) : ℚ :=
  let x := Numbers.java.double size
  Numbers.java.double (x - remainder x panel.groupThreshold)

/-- A tuple in the grouped branch of `populateChart`. -/
def groupTuple (state : List Dot × Slot) (te : Input) : Except String (List Dot × Slot) :=
  if panel.filterRms mode te then do
    let y ← panel.ys mode te
    let currentSlot := panel.groupSlot te.size
    if currentSlot = state.2.start then .ok (state.1,state.2.add te y)
    else if 0 < state.2.elems then
      -- `sum_y = y` is `0 + y`, as `y` is a double
      .ok (state.1 ++ panel.slotDots 11 0 state.2,({ start := currentSlot } : Slot).add te y)
    -- the tuple is not added
    else .ok (state.1,{ state.2 with start := currentSlot })
  else .ok state

def groupedChart (tuples : List Input) : Except String (List Dot) := do
  let (points,slot) ← tuples.foldlM (panel.groupTuple mode) ([],{})
  .ok (if 0 < slot.elems then points ++ panel.slotDots 11 0 slot else points)

/-- `current_slot` in `addPoint`, where the size is also cast to an int. -/
def currentSlot (size : Int) : Int :=
  let x := Numbers.java.double size
  toInt (truncate (Numbers.java.double (toInt (truncate x) - remainder x panel.groupThreshold)))

/-- The start of another slot in `addPoint`. -/
def changeSlot (state : List Dot × Slot) (size : Int) : List Dot × Slot :=
  if panel.currentSlot size ≠ state.2.start then
    if 0 < state.2.elems then (state.1 ++ panel.slotDots 0 11 state.2,{ start := panel.currentSlot size })
    else (state.1,{ state.2 with start := panel.currentSlot size })
  else state

/-- `addPoint` with a grouping threshold above 1; `add_group_point` keeps `slot_start`. -/
def addGrouped (maxInput : Int) (state : List Dot × Slot) (te : Input) : Except String (List Dot × Slot) := do
  let changed := panel.changeSlot state te.size
  let slot ← if panel.filterRms mode te then do
      let y ← panel.ys mode te
      .ok (changed.2.add te y)
    else .ok changed.2
  if te.size = maxInput then .ok (changed.1 ++ panel.slotDots 0 11 slot,{ start := slot.start })
  else .ok (changed.1,slot)

/-- `addPoint` for one tuple after the other, after `setRoutine`. -/
def addPoints (maxInput : Int) (tuples : List Input) : Except String (List Dot) := do
  let (points,_) ← tuples.foldlM (panel.addGrouped mode maxInput) ([],{})
  .ok points

end ThresholdPanel

/-- The variables of the smoothed branch of `populateChart`; `list` is what the iterator has left. -/
structure Window where
  list : List Input
  slots : Nat → Option Input := fun _ => none
  tail : Nat := 0
  current : Nat := 0
  head : Nat := 0
  n : Int := 0
  sum : ℚ × ℚ × ℚ := 0
  points : List Dot := []

/-- The points at `x` of the sums of a window -/
def GraphPanel.dotsAt (panel : GraphPanel) (x : ℚ) (te : Input) (window : Window) : List Dot :=
  match panel.graphType with
  | .mmmPlot =>
    [⟨11,some x,quotient window.sum.1 window.n⟩,⟨5,some x,quotient window.sum.2.1 window.n⟩,
      ⟨0,some x,quotient window.sum.2.2 window.n⟩]
  | _ => [⟨panel.seriesOf te.calls,some x,quotient window.sum.1 window.n⟩]

def GraphPanel.windowDots (panel : GraphPanel) (te : Input) (window : Window) : List Dot :=
  panel.dotsAt (Numbers.java.double te.size) te window

namespace Window

/-- The last tuple that the search for a valid one has read, and what is left. -/
def extract (shown : Input → Bool) : Option Input → List Input → Option Input × List Input
  | te,[] => (te,[])
  | _,te :: list => if shown te then (some te,list) else extract shown (some te) list

section
variable (numbers : Numbers) (shown : Input → Bool) (ys : Input → Except String (ℚ × ℚ × ℚ))
  (missing : Except String (ℚ × ℚ × ℚ)) (length : Nat)

/-- Add up to `add` tuples to the `c` added before; the answer has what `add` and `c` end with. -/
def addTuples : Nat → Nat → Window → Except String (Nat × Nat × Window)
  | 0,c,window => .ok (0,c,window)
  | add + 1,c,window =>
    match extract shown none window.list with
    | (none,list) => .ok (add + 1,c,{ window with list := list })
    | (some te,list) => do
      let y ← ys te
      addTuples add (c + 1)
        { window with
          list := list
          slots := Function.update window.slots (window.head % length) (some te)
          head := window.head + 1
          sum := numbers.doubles (window.sum + y) }

/-- `missing` is `getY` for an empty slot. -/
def removeTuple (window : Window) : Except String Window := do
  let y ← match window.slots (window.tail % length) with
    | none => missing
    | some removed => ys removed
  .ok { window with tail := window.tail + 1, sum := numbers.doubles (window.sum - y), n := window.n - 1 }

/-- One turn of the loop for a window of the width `t`; the answer also says whether it is the last. -/
def turn (dots : Input → Window → List Dot) (t : Int) (window : Window) : Except String (Window × Bool) := do
  let (add,c,window) ← window.addTuples numbers shown ys length (if window.n = t ∨ window.n = 0 then 1 else 2) 0
  let window ← if t ≤ window.n ∨ c = 0 then do
      let window ← window.removeTuple numbers ys missing length
      if 0 < add then window.removeTuple numbers ys missing length else .ok window
    else .ok window
  let window := { window with n := window.n + c }
  match window.slots (window.current % length) with
  | none => .error "NullPointerException"
  | some te =>
    .ok ({ window with points := window.points ++ dots te window, current := window.current + 1 },
      window.current ≠ 0 ∧ window.n = 1)

/-- The loop; `none` when the turns run out. -/
def run (dots : Input → Window → List Dot) (t : Int) : Nat → Window → Option (Except String (List Dot))
  | 0,_ => none
  | fuel + 1,window =>
    match window.turn numbers shown ys missing length dots t with
    | .error message => some (.error message)
    | .ok (window,true) => some (.ok window.points)
    | .ok (window,false) => run dots t fuel window

end

end Window

namespace ThresholdPanel
variable (java : Java) (mode : CostType) (panel : ThresholdPanel)

/-- The width of the window for `count` tuples. -/
def windowWidth (count : Nat) : Int :=
  let t := toInt (panel.smoothThresholdBase ^ (panel.smoothThreshold - 1).toNat)
  let t := if count ≤ t then (count : Int) - 1 else t
  if t % 2 = 0 then t + 1 else t

/-- The smoothed branch of `populateChart`, where `missing` is 0. -/
def smoothedChart (missing : Except String (ℚ × ℚ × ℚ)) (fuel : Nat) (tuples : List Input) :
    Option (Except String (List Dot)) :=
  let t := panel.windowWidth tuples.length
  if t + 2 < 0 then some (.error "NegativeArraySizeException")
  else Window.run .java (panel.filterRms mode) (panel.ys mode) missing (t + 2).toNat panel.windowDots t fuel { list := tuples }

/-- The tuples in the order of `getInputTuplesIterator`. -/
def tuples (routine : RoutineTuples) : List Input :=
  (routine.sortInputTuplesByInput java).inputTuples.map routine.objects

/-- `populateChart`; `none` when the turns of the smoothed branch run out. -/
def populateChart (fuel : Nat) (routine : RoutineTuples) : Option (Except String (List Dot)) :=
  if routine.inputTuples.length = 0 then some (.ok [])
  else if panel.groupThreshold = 1 ∧ panel.smoothThreshold = 1 then
    some ((panel.toGraphPanel.populateChart java mode routine).map (·.map Point.toDot))
  else if 1 < panel.groupThreshold ∧ panel.smoothThreshold = 1 then some (panel.groupedChart mode (tuples java routine))
  else if 1 < panel.smoothThreshold ∧ panel.groupThreshold = 1 then panel.smoothedChart mode (.ok 0) fuel (tuples java routine)
  else some (.error "Smooth and group threshold cannot be both greater than 1")

end ThresholdPanel

end Aprof.Plot
