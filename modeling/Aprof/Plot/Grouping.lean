import Aprof.General.Runs
import Aprof.Plot.Thresholds

/-! Both ways to group the tuples of a chart by slots of input sizes. -/
namespace Aprof.Plot

namespace GraphPanel
section
variable {mode : CostType} {panel : GraphPanel} {te : Input}

def val (mode : CostType) (panel : GraphPanel) (te : Input) : ℚ × ℚ × ℚ :=
  match panel.ys mode te with
  | .ok y => y
  | .error _ => 0

theorem ys_val (defined : panel.Defined mode te) : panel.ys mode te = .ok (panel.val mode te) := by
  have exists_ys : ∃ y, panel.ys mode te = .ok y := by
    unfold ys
    cases kind : panel.graphType with
    | varPlot =>
      obtain ⟨y,value⟩ := defined kind
      simp only [value]
      exact ⟨_,rfl⟩
    | _ => exact ⟨_,rfl⟩
  obtain ⟨y,value⟩ := exists_ys
  rw [val,value]

theorem defined_of_ys {y : ℚ × ℚ × ℚ} (value : panel.ys mode te = .ok y) : panel.Defined mode te := by
  intro kind
  unfold ys at value
  rw [kind] at value
  cases var : te.getVar .java mode with
  | error message =>
    rw [var] at value
    cases value
  | ok y => exact ⟨y,rfl⟩

/-- The variables of a slot after the tuples of `piece`. -/
def collect (mode : CostType) (panel : GraphPanel) (start : ℚ) (piece : List Input) : Slot :=
  piece.foldl (fun slot te => slot.add te (panel.val mode te)) { start := start }

theorem collect_add (start : ℚ) (piece : List Input) (te : Input) :
    (panel.collect mode start piece).add te (panel.val mode te) = panel.collect mode start (piece ++ [te]) := by
  rw [collect,collect,List.foldl_append]
  rfl

theorem collect_start (start : ℚ) (piece : List Input) :
    panel.collect mode start piece = { panel.collect mode 0 piece with start := start } := by
  induction piece using List.reverseRecOn with
  | nil => rfl
  | append_singleton piece te ih =>
    rw [← collect_add,ih,← collect_add]
    rfl

theorem collect_elems (start : ℚ) (piece : List Input) : (panel.collect mode start piece).elems = piece.length := by
  induction piece using List.reverseRecOn with
  | nil => rfl
  | append_singleton piece te ih =>
    rw [← collect_add,List.length_append,List.length_singleton,← ih]
    rfl

/-- The points of a slot with the tuples of `piece`. -/
def pieceDots (mode : CostType) (panel : GraphPanel) (best worst : Nat) (piece : List Input) : List Dot :=
  panel.slotDots best worst (panel.collect mode 0 piece)

theorem slotDots_collect (best worst : Nat) (start : ℚ) (piece : List Input) :
    panel.slotDots best worst (panel.collect mode start piece) = panel.pieceDots mode best worst piece := by
  rw [collect_start]
  rfl

end
end GraphPanel

/-- What is left of the tuples from the first on that lies in the slot of the one before it. -/
def late {α κ : Type} [DecidableEq κ] (key : α → κ) : κ → List α → List α
  | _,[] => []
  | start,a :: rest => if key a = start then a :: rest else late key (key a) rest

/-- The slot `[j * t,(j + 1) * t)` of a tuple -/
def slotOf (t : Int) (te : Input) : Int := te.size / t

def Small (te : Input) : Prop := 0 ≤ te.size ∧ te.size < 2 ^ 31

theorem double_int {n : Int} (natural : 0 ≤ n) (small : n < 2 ^ 31) : Numbers.java.double n = n :=
  roundDouble_exact (isDouble_intCast (by omega))

theorem truncate_intCast (n : Int) : truncate n = n := by
  unfold truncate
  split
  · exact Int.ceil_intCast n
  · exact Int.floor_intCast n

theorem sub_remainder {n t : Int} (natural : 0 ≤ n) (width : 0 < t) : (n : ℚ) - remainder n t = (t * (n / t) : Int) := by
  obtain ⟨t,rfl⟩ := Int.eq_ofNat_of_zero_le width.le
  have nonneg : ¬(n : ℚ) / ((t : Int) : ℚ) < 0 :=
    not_lt.mpr (div_nonneg (Int.cast_nonneg natural) (Int.cast_nonneg width.le))
  rw [remainder,sub_sub_cancel,truncate,if_neg nonneg,Int.cast_natCast,Rat.floor_intCast_div_natCast]
  push_cast
  rfl

theorem slot_start {te : Input} {t : Int} (small : Small te) (width : 0 < t) :
    Numbers.java.double te.size = te.size ∧ 0 ≤ t * slotOf t te ∧ t * slotOf t te < 2 ^ 31 ∧
      (te.size : ℚ) - remainder te.size t = (t * slotOf t te : Int) := by
  obtain ⟨natural,small⟩ := small
  have upper : t * slotOf t te ≤ te.size := Int.mul_ediv_self_le width.ne'
  exact ⟨double_int natural small,Int.mul_nonneg width.le (Int.ediv_nonneg natural width.le),lt_of_le_of_lt upper small,
    sub_remainder natural width⟩

namespace ThresholdPanel
section
variable {mode : CostType} {panel : ThresholdPanel}

theorem groupSlot_small {te : Input} (small : Small te) (width : 0 < panel.groupThreshold) :
    panel.groupSlot te.size = (panel.groupThreshold * slotOf panel.groupThreshold te : Int) := by
  obtain ⟨x,natural,less,start⟩ := @slot_start te panel.groupThreshold small width
  rw [groupSlot,x,start,double_int natural less]

theorem add_start (slot : Slot) (te : Input) (y : ℚ × ℚ × ℚ) : (slot.add te y).start = slot.start := rfl

theorem ok_bind {ε α β : Type} (a : α) (next : α → Except ε β) : (Except.ok a >>= next) = next a := rfl

theorem groupTuple_eq (state : List Dot × Slot) {te : Input} (shown : panel.filterRms mode te = true)
    (defined : panel.Defined mode te) : panel.groupTuple mode state te = .ok (
      if panel.groupSlot te.size = state.2.start then (state.1,state.2.add te (panel.val mode te))
      else if 0 < state.2.elems then
        (state.1 ++ panel.slotDots 11 0 state.2,({ start := panel.groupSlot te.size } : Slot).add te (panel.val mode te))
      else (state.1,{ state.2 with start := panel.groupSlot te.size })) := by
  unfold groupTuple
  rw [if_pos shown,GraphPanel.ys_val defined,ok_bind]
  dsimp only
  split
  · rfl
  · split <;> rfl

theorem groupTuple_shown (width : 0 < panel.groupThreshold) {points : List Dot} {k : Int} {piece : List Input} {te : Input}
    (small : Small te) (shown : panel.filterRms mode te = true) (defined : panel.Defined mode te) :
    panel.groupTuple mode (points,panel.collect mode (panel.groupThreshold * k : Int) piece) te = .ok (
      if slotOf panel.groupThreshold te = k then (points,panel.collect mode (panel.groupThreshold * k : Int) (piece ++ [te]))
      else if piece = [] then (points,panel.collect mode (panel.groupThreshold * slotOf panel.groupThreshold te : Int) [])
      else (points ++ panel.pieceDots mode 11 0 piece,
        panel.collect mode (panel.groupThreshold * slotOf panel.groupThreshold te : Int) [te])) := by
  have start : (panel.collect mode (panel.groupThreshold * k : Int) piece).start = (panel.groupThreshold * k : Int) := by
    rw [GraphPanel.collect_start]
  have slot : ((panel.groupThreshold * slotOf panel.groupThreshold te : Int) : ℚ) = (panel.groupThreshold * k : Int) ↔
      slotOf panel.groupThreshold te = k := by
    rw [Int.cast_inj]
    exact ⟨Int.eq_of_mul_eq_mul_left width.ne',congrArg _⟩
  have single (start : ℚ) : ({ start := start } : Slot).add te (panel.val mode te) = panel.collect mode start [te] :=
    GraphPanel.collect_add start [] te
  rw [groupTuple_eq _ shown defined]
  dsimp only
  rw [start,GraphPanel.collect_add,GraphPanel.collect_elems,GraphPanel.slotDots_collect,single,groupSlot_small small width]
  by_cases here : slotOf panel.groupThreshold te = k
  · rw [if_pos (slot.mpr here),if_pos here]
  · rw [if_neg fun equal => here (slot.mp equal),if_neg here]
    cases piece with
    | nil => rfl
    | cons a rest => rfl

theorem groupTuple_hidden (state : List Dot × Slot) {te : Input} (hidden : panel.filterRms mode te = false) :
    panel.groupTuple mode state te = .ok state := by
  rw [groupTuple,if_neg (by rw [hidden]; exact Bool.false_ne_true)]

theorem foldlM_filter {α σ ε : Type} {step : σ → α → Except ε σ} {shown : α → Bool}
    (hidden : ∀ state a, shown a = false → step state a = .ok state) (l : List α) (state : σ) :
    l.foldlM step state = (l.filter shown).foldlM step state := by
  induction l generalizing state with
  | nil => rfl
  | cons a rest ih =>
    rw [List.foldlM_cons,List.filter_cons]
    cases passes : shown a with
    | false =>
      rw [hidden state a passes,if_neg Bool.false_ne_true]
      exact ih state
    | true =>
      rw [if_pos rfl,List.foldlM_cons]
      exact bind_congr ih

def closeSlot (panel : ThresholdPanel) (state : List Dot × Slot) : List Dot :=
  if 0 < state.2.elems then state.1 ++ panel.slotDots 11 0 state.2 else state.1

theorem groupTuples_runs (width : 0 < panel.groupThreshold) (tuples : List Input) {points : List Dot} {k : Int}
    {piece : List Input} (nonempty : piece ≠ []) (one : ∀ te ∈ piece, slotOf panel.groupThreshold te = k)
    (small : ∀ te ∈ tuples, Small te)
    (shown : ∀ te ∈ tuples, panel.filterRms mode te = true ∧ panel.Defined mode te) :
    (tuples.foldlM (panel.groupTuple mode) (points,panel.collect mode (panel.groupThreshold * k : Int) piece)).map panel.closeSlot =
      .ok (points ++ (runs (slotOf panel.groupThreshold) (piece ++ tuples)).flatMap (panel.pieceDots mode 11 0)) := by
  induction tuples generalizing points k piece with
  | nil =>
    rw [List.append_nil,runs_of_one nonempty one,List.flatMap_singleton]
    refine congrArg Except.ok ?_
    rw [closeSlot,GraphPanel.collect_elems,if_pos (List.length_pos_iff.mpr nonempty),GraphPanel.slotDots_collect]
  | cons te rest ih =>
    obtain ⟨passes,defined⟩ := shown te List.mem_cons_self
    have later := fun te member => small te (List.mem_cons_of_mem _ member)
    have shown' := fun te member => shown te (List.mem_cons_of_mem _ member)
    rw [List.foldlM_cons,groupTuple_shown width (small te List.mem_cons_self) passes defined]
    by_cases same : slotOf panel.groupThreshold te = k
    · rw [if_pos same]
      have grown := @ih points k (piece ++ [te]) (by simp)
        (by simpa [or_imp,forall_and] using ⟨one,same⟩) later shown'
      rw [List.append_assoc,List.singleton_append] at grown
      exact grown
    · rw [if_neg same,if_neg nonempty]
      have next := @ih (points ++ panel.pieceDots mode 11 0 piece) (slotOf panel.groupThreshold te) [te]
        (List.cons_ne_nil te []) (by simp) later shown'
      rw [runs_append rest one same,runs_of_one nonempty one,List.singleton_append,List.flatMap_cons,← List.append_assoc]
      exact next

theorem groupTuples_late (width : 0 < panel.groupThreshold) (tuples : List Input) {k : Int}
    (small : ∀ te ∈ tuples, Small te)
    (shown : ∀ te ∈ tuples, panel.filterRms mode te = true ∧ panel.Defined mode te) :
    (tuples.foldlM (panel.groupTuple mode) ([],panel.collect mode (panel.groupThreshold * k : Int) [])).map panel.closeSlot =
      .ok ((runs (slotOf panel.groupThreshold) (late (slotOf panel.groupThreshold) k tuples)).flatMap
        (panel.pieceDots mode 11 0)) := by
  induction tuples generalizing k with
  | nil => rfl
  | cons te rest ih =>
    obtain ⟨passes,defined⟩ := shown te List.mem_cons_self
    have later := fun te member => small te (List.mem_cons_of_mem _ member)
    have shown' := fun te member => shown te (List.mem_cons_of_mem _ member)
    rw [List.foldlM_cons,groupTuple_shown width (small te List.mem_cons_self) passes defined,late]
    by_cases same : slotOf panel.groupThreshold te = k
    · rw [if_pos same,if_pos same]
      exact groupTuples_runs width rest (List.cons_ne_nil te []) (by simpa using same) later shown'
    · rw [if_neg same,if_pos rfl,if_neg same]
      exact ih later shown'

def passing (mode : CostType) (panel : ThresholdPanel) (tuples : List Input) : List Input :=
  tuples.filter (panel.filterRms mode)

theorem groupedChart_eq (width : 0 < panel.groupThreshold) {tuples : List Input} (small : ∀ te ∈ tuples, Small te)
    (defined : ∀ te ∈ passing mode panel tuples, panel.Defined mode te) :
    panel.groupedChart mode tuples = .ok ((runs (slotOf panel.groupThreshold)
      (late (slotOf panel.groupThreshold) 0 (passing mode panel tuples))).flatMap (panel.pieceDots mode 11 0)) := by
  have whole : panel.groupedChart mode tuples = (tuples.foldlM (panel.groupTuple mode) ([],{})).map panel.closeSlot := by
    unfold groupedChart
    cases tuples.foldlM (panel.groupTuple mode) ([],{}) <;> rfl
  have plotted := @groupTuples_late mode panel width (passing mode panel tuples) 0
    (fun te member => small te (List.mem_filter.mp member).1)
    fun te member => ⟨(List.mem_filter.mp member).2,defined te member⟩
  rw [Int.mul_zero] at plotted
  rw [whole,foldlM_filter (fun state te => groupTuple_hidden state)]
  exact plotted

theorem foldlM_step {α σ ε : Type} {step : σ → α → Except ε σ} {l : List α} {state final : σ}
    (done : l.foldlM step state = .ok final) : ∀ a ∈ l, ∃ before after, step before a = .ok after := by
  induction l generalizing state with
  | nil => exact fun a member => absurd member List.not_mem_nil
  | cons first rest ih =>
    rw [List.foldlM_cons] at done
    cases stepped : step state first with
    | error e =>
      rw [stepped] at done
      cases done
    | ok next =>
      rw [stepped] at done
      intro a member
      rcases List.mem_cons.mp member with rfl | inside
      · exact ⟨state,next,stepped⟩
      · exact ih done a inside

theorem defined_of_groupedChart {tuples : List Input} {points : List Dot} (plotted : panel.groupedChart mode tuples = .ok points) :
    ∀ te ∈ passing mode panel tuples, panel.Defined mode te := by
  unfold groupedChart at plotted
  cases done : tuples.foldlM (panel.groupTuple mode) ([],{}) with
  | error message =>
    rw [done] at plotted
    cases plotted
  | ok state =>
    intro te member
    obtain ⟨inside,passes⟩ := List.mem_filter.mp member
    obtain ⟨before,after,stepped⟩ := foldlM_step done te inside
    rw [groupTuple,if_pos passes] at stepped
    cases value : panel.ys mode te with
    | error message =>
      rw [value] at stepped
      cases stepped
    | ok y => exact GraphPanel.defined_of_ys value

end
/-- The tuple after `a` is added to what is there. -/
def stays (panel : ThresholdPanel) (largest : Int) (a b : Input) : Bool :=
  panel.currentSlot a.size = panel.currentSlot b.size ∧ a.size ≠ largest

/-- A piece has a point when some tuple passes, and in any case after the largest size. -/
def plotted (mode : CostType) (panel : ThresholdPanel) (largest : Int) (piece : List Input) : List (List Input) :=
  if ∃ te ∈ piece, panel.filterRms mode te = true ∨ te.size = largest then [passing mode panel piece] else []

/-- The tuples cut where `current_slot` changes and after every tuple of the largest size. -/
def cuts (mode : CostType) (panel : ThresholdPanel) (largest : Int) (tuples : List Input) : List (List Input) :=
  (tuples.splitBy (panel.stays largest)).flatMap (plotted mode panel largest)

section
variable {mode : CostType} {panel : ThresholdPanel} {largest : Int}

theorem passing_append (piece : List Input) (rest : List Input) :
    passing mode panel (piece ++ rest) = passing mode panel piece ++ passing mode panel rest := List.filter_append ..

theorem plotted_inner {piece : List Input} (inner : ∀ te ∈ piece, te.size ≠ largest) :
    plotted mode panel largest piece = if passing mode panel piece = [] then [] else [passing mode panel piece] := by
  unfold plotted
  by_cases empty : passing mode panel piece = []
  · rw [if_pos empty,if_neg]
    rintro ⟨te,member,passes | large⟩
    · have inside : te ∈ passing mode panel piece := List.mem_filter.mpr ⟨member,passes⟩
      rw [empty] at inside
      exact List.not_mem_nil inside
    · exact inner te member large
  · obtain ⟨te,member⟩ := List.exists_mem_of_ne_nil _ empty
    obtain ⟨inside,passes⟩ := List.mem_filter.mp member
    rw [if_neg empty,if_pos ⟨te,inside,.inl passes⟩]

theorem splitBy_piece {piece : List Input} {a : Input} (rest : List Input) {s : Int} (nonempty : piece ≠ [])
    (one : ∀ te ∈ piece, panel.currentSlot te.size = s ∧ te.size ≠ largest)
    (changed : panel.currentSlot a.size ≠ s) :
    (piece ++ a :: rest).splitBy (panel.stays largest) = piece :: (a :: rest).splitBy (panel.stays largest) := by
  rw [List.splitBy_append_cons,List.splitBy_of_isChain nonempty,List.singleton_append]
  · apply List.Pairwise.isChain
    exact List.pairwise_of_forall_mem_list fun a inside b inside' =>
      decide_eq_true ⟨(one a inside).1.trans (one b inside').1.symm,(one a inside).2⟩
  · intro last found
    exact decide_eq_false fun ⟨same,_⟩ => changed (same.symm.trans (one last (List.mem_of_mem_getLast? found)).1)

theorem splitBy_largest {piece : List Input} {a : Input} (rest : List Input)
    (one : ∀ te ∈ piece, panel.currentSlot te.size = panel.currentSlot a.size ∧ te.size ≠ largest) (large : a.size = largest) :
    (piece ++ a :: rest).splitBy (panel.stays largest) = (piece ++ [a]) :: rest.splitBy (panel.stays largest) := by
  have whole : (piece ++ [a]).splitBy (panel.stays largest) = [piece ++ [a]] := by
    apply List.splitBy_of_isChain (by simp)
    apply List.Pairwise.isChain
    rw [List.pairwise_append]
    refine ⟨?_,List.pairwise_singleton _ _,?_⟩
    · exact List.pairwise_of_forall_mem_list fun a inside b inside' =>
        decide_eq_true ⟨(one a inside).1.trans (one b inside').1.symm,(one a inside).2⟩
    · intro b inside c last
      rw [List.mem_singleton.mp last]
      exact decide_eq_true (one b inside)
  rw [← List.singleton_append,← List.append_assoc,List.splitBy_append,whole,List.singleton_append]
  intro last found b _
  have same : last = a := by simpa using found.symm
  rw [same]
  exact decide_eq_false fun ⟨_,small⟩ => small large

theorem changeSlot_eq (points : List Dot) (s : Int) (acc : List Input) (size : Int) :
    panel.changeSlot (points,panel.collect mode s acc) size =
      if panel.currentSlot size = s then (points,panel.collect mode s acc)
      else if acc = [] then (points,panel.collect mode (panel.currentSlot size) [])
      else (points ++ panel.pieceDots mode 0 11 acc,panel.collect mode (panel.currentSlot size) []) := by
  have start : (panel.collect mode s acc).start = s := by rw [GraphPanel.collect_start]
  unfold changeSlot
  dsimp only
  rw [start,GraphPanel.collect_elems,GraphPanel.slotDots_collect]
  by_cases same : panel.currentSlot size = s
  · rw [if_neg (not_not.mpr (Int.cast_inj.mpr same)),if_pos same]
  · rw [if_pos (Int.cast_inj.not.mpr same),if_neg same]
    cases acc with
    | nil => rfl
    | cons a rest => rfl

theorem addGrouped_shown (state : List Dot × Slot) {te : Input} (shown : panel.filterRms mode te = true)
    (defined : panel.Defined mode te) : panel.addGrouped mode largest state te = .ok (
      if te.size = largest then ((panel.changeSlot state te.size).1 ++
          panel.slotDots 0 11 ((panel.changeSlot state te.size).2.add te (panel.val mode te)),
        { start := (panel.changeSlot state te.size).2.start })
      else ((panel.changeSlot state te.size).1,(panel.changeSlot state te.size).2.add te (panel.val mode te))) := by
  unfold addGrouped
  dsimp only
  rw [if_pos shown,GraphPanel.ys_val defined,ok_bind,ok_bind]
  by_cases last : te.size = largest
  · rw [if_pos last,if_pos last,add_start]
  · rw [if_neg last,if_neg last]

theorem addGrouped_hidden (state : List Dot × Slot) {te : Input} (hidden : panel.filterRms mode te = false) :
    panel.addGrouped mode largest state te = .ok (
      if te.size = largest then ((panel.changeSlot state te.size).1 ++ panel.slotDots 0 11 (panel.changeSlot state te.size).2,
        { start := (panel.changeSlot state te.size).2.start })
      else ((panel.changeSlot state te.size).1,(panel.changeSlot state te.size).2)) := by
  unfold addGrouped
  dsimp only
  rw [if_neg (by rw [hidden]; exact Bool.false_ne_true),ok_bind]
  by_cases last : te.size = largest
  · rw [if_pos last,if_pos last]
  · rw [if_neg last,if_neg last]

theorem addGrouped_eq {state : List Dot × Slot} {points : List Dot} {s : Int} {acc : List Input} {te : Input}
    (changed : panel.changeSlot state te.size = (points,panel.collect mode s acc))
    (defined : panel.filterRms mode te = true → panel.Defined mode te) :
    panel.addGrouped mode largest state te = .ok (
      if te.size = largest then
        (points ++ panel.pieceDots mode 0 11 (acc ++ passing mode panel [te]),panel.collect mode s [])
      else (points,panel.collect mode s (acc ++ passing mode panel [te]))) := by
  have start : (panel.collect mode s acc).start = s := by rw [GraphPanel.collect_start]
  cases passes : panel.filterRms mode te with
  | false =>
    have hidden : passing mode panel [te] = [] := by simp [passing,passes]
    rw [addGrouped_hidden state passes,changed,hidden,List.append_nil]
    dsimp only
    rw [GraphPanel.slotDots_collect,start]
    rfl
  | true =>
    have shown : passing mode panel [te] = [te] := by simp [passing,passes]
    rw [addGrouped_shown state passes (defined passes),changed,shown]
    dsimp only
    rw [GraphPanel.collect_add,GraphPanel.slotDots_collect,start]
    rfl

/-- The tuples from `piece` on are plotted by pieces when the last one is of the largest size. -/
theorem addGrouped_cuts (tuples : List Input) {points : List Dot} {s : Int} {piece : List Input}
    (one : ∀ te ∈ piece, panel.currentSlot te.size = s ∧ te.size ≠ largest)
    (ends : ∀ last ∈ (piece ++ tuples).getLast?, last.size = largest)
    (defined : ∀ te ∈ passing mode panel tuples, panel.Defined mode te) :
    (tuples.foldlM (panel.addGrouped mode largest) (points,panel.collect mode s (passing mode panel piece))).map Prod.fst =
      .ok (points ++ (cuts mode panel largest (piece ++ tuples)).flatMap (panel.pieceDots mode 0 11)) := by
  induction tuples generalizing points s piece with
  | nil =>
    have empty : piece = [] := by
      by_contra nonempty
      rw [List.append_nil] at ends
      exact (one _ (List.getLast_mem nonempty)).2 (ends _ (List.getLast?_eq_some_getLast nonempty))
    rw [empty]
    simp [cuts,Except.map,pure,Except.pure]
  | cons te rest ih =>
    have here : panel.filterRms mode te = true → panel.Defined mode te :=
      fun passes => defined te (List.mem_filter.mpr ⟨List.mem_cons_self,passes⟩)
    have later : ∀ other ∈ passing mode panel rest, panel.Defined mode other := by
      intro other member
      obtain ⟨inside,passes⟩ := List.mem_filter.mp member
      exact defined other (List.mem_filter.mpr ⟨List.mem_cons_of_mem _ inside,passes⟩)
    -- the change of the slot closes the piece, or the piece goes on
    obtain ⟨points',piece',changed,one',ends',cut⟩ : ∃ points' piece',
        panel.changeSlot (points,panel.collect mode s (passing mode panel piece)) te.size =
          (points',panel.collect mode (panel.currentSlot te.size) (passing mode panel piece')) ∧
        (∀ other ∈ piece', panel.currentSlot other.size = panel.currentSlot te.size ∧ other.size ≠ largest) ∧
        (∀ last ∈ (piece' ++ te :: rest).getLast?, last.size = largest) ∧
        points ++ (cuts mode panel largest (piece ++ te :: rest)).flatMap (panel.pieceDots mode 0 11) =
          points' ++ (cuts mode panel largest (piece' ++ te :: rest)).flatMap (panel.pieceDots mode 0 11) := by
      by_cases same : panel.currentSlot te.size = s
      · refine ⟨points,piece,?_,?_,ends,rfl⟩
        · rw [changeSlot_eq,if_pos same,same]
        · rw [same]
          exact one
      · refine ⟨points ++ (plotted mode panel largest piece).flatMap (panel.pieceDots mode 0 11),[],?_,?_,?_,?_⟩
        · rw [changeSlot_eq,if_neg same,plotted_inner fun other member => (one other member).2]
          split <;> simp [passing]
        · exact fun other member => absurd member List.not_mem_nil
        · rw [List.getLast?_append_cons] at ends
          exact ends
        · cases piece with
          | nil => simp [plotted]
          | cons first others =>
            rw [cuts,splitBy_piece rest (List.cons_ne_nil first others) one same,List.flatMap_cons,List.flatMap_append,
              List.append_assoc]
            rfl
    rw [cut,List.foldlM_cons,addGrouped_eq changed here,← passing_append]
    by_cases large : te.size = largest
    · have after := @ih (points' ++ panel.pieceDots mode 0 11 (passing mode panel (piece' ++ [te])))
        (panel.currentSlot te.size) [] (fun other member => absurd member List.not_mem_nil)
        (fun last found => by
          rw [List.getLast?_append_cons] at ends'
          exact ends' last (List.mem_getLast?_cons found)) later
      have split : cuts mode panel largest (piece' ++ te :: rest) =
          passing mode panel (piece' ++ [te]) :: cuts mode panel largest rest := by
        rw [cuts,splitBy_largest rest one' large,List.flatMap_cons]
        exact congrArg (· ++ _) (if_pos ⟨te,by simp,.inr large⟩)
      rw [if_pos large,split,List.flatMap_cons,← List.append_assoc]
      exact after
    · have after := @ih points' (panel.currentSlot te.size) (piece' ++ [te])
        (by simpa [or_imp,forall_and,large] using one') (by simpa using ends') later
      rw [List.append_assoc,List.singleton_append] at after
      rw [if_neg large]
      exact after

theorem addPoints_eq {tuples : List Input} (ends : ∀ last ∈ tuples.getLast?, last.size = largest)
    (defined : ∀ te ∈ passing mode panel tuples, panel.Defined mode te) :
    panel.addPoints mode largest tuples = .ok ((cuts mode panel largest tuples).flatMap (panel.pieceDots mode 0 11)) := by
  have whole : panel.addPoints mode largest tuples =
      (tuples.foldlM (panel.addGrouped mode largest) ([],panel.collect mode 0 (passing mode panel []))).map Prod.fst := by
    unfold addPoints
    change (tuples.foldlM (panel.addGrouped mode largest) ([],panel.collect mode 0 (passing mode panel [])) >>= _) = _
    cases tuples.foldlM (panel.addGrouped mode largest) ([],panel.collect mode 0 (passing mode panel [])) <;> rfl
  have start := @addGrouped_cuts mode panel largest tuples [] 0 [] (fun other member => absurd member List.not_mem_nil) ends defined
  rw [Int.cast_zero] at start
  rw [whole,start]
  rfl

end

end ThresholdPanel

end Aprof.Plot
