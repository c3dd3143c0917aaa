import Aprof.Plot.Grouping

/-! When grouping shows every slot once, and both ways alike. -/
namespace Aprof.Plot

namespace ThresholdPanel

def slots (t : Int) (tuples : List Input) : List (List Input) :=
  (tuples.map (slotOf t)).dedup.map fun j => tuples.filter fun te => slotOf t te = j

section
variable (java : Java) (mode : CostType) (panel : ThresholdPanel)

/-- Every slot with a tuple that passes has its point, of just those tuples, in the chart and
from `addPoint`; in a frequency plot the y values are all the calls. -/
def GroupsAlike (routine : RoutineTuples) : Prop :=
  ∃ points added, (∀ fuel, panel.populateChart java mode fuel routine = some (.ok points)) ∧
    panel.addPoints mode routine.maxInput (tuples java routine) = .ok added ∧
    points.Perm ((slots panel.groupThreshold (passing mode panel (tuples java routine))).flatMap (panel.pieceDots mode 11 0)) ∧
    added.Perm points ∧
    (panel.graphType = .freqPlot →
      (points.filterMap Dot.y).sum = ((passing mode panel (tuples java routine)).map fun te => (te.calls : ℚ)).sum)

/-- Exactly one tuple has the largest size, and its slot holds a tuple that passes. -/
def LargestShown (largest : Int) (tuples : List Input) : Prop :=
  tuples ≠ [] → (tuples.filter fun te => te.size = largest).length = 1 ∧
    ∃ te ∈ passing mode panel tuples, slotOf panel.groupThreshold te = largest / panel.groupThreshold

/-- What grouping needs of the tuples of a routine. -/
structure Groupable (largest : Int) (tuples : List Input) : Prop where
  /-- `addPoint` casts the sizes to ints. -/
  small : ∀ te ∈ tuples, te.size < 2 ^ 31
  defined : ∀ te ∈ passing mode panel tuples, panel.Defined mode te
  first : ∀ te ∈ (passing mode panel tuples).head?, slotOf panel.groupThreshold te = 0
  /-- `addPoint` swaps the series of the least and the greatest costs. -/
  swapped : panel.graphType = .mmmPlot → ∀ te ∈ passing mode panel tuples, te.getMinCost mode = te.getMaxCost mode
  /-- `addPoint` adds a point at every tuple of the largest size, also when nothing passes there. -/
  last : panel.LargestShown mode largest tuples
  /-- The calls of a slot are added up as doubles. -/
  counted : panel.graphType = .freqPlot → (∀ te ∈ passing mode panel tuples, 0 ≤ te.calls) ∧
    ∀ piece ∈ slots panel.groupThreshold (passing mode panel tuples), (piece.map Input.calls).sum ≤ 2 ^ 53

end

section
variable {java : Java} {mode : CostType} {panel : ThresholdPanel} {routine : RoutineTuples} {t : Int}

theorem mem_tuples {te : Input} : te ∈ tuples java routine ↔ ∃ i ∈ routine.inputTuples, routine.objects i = te := by
  obtain ⟨objects,perm,-,-⟩ := routine.sortInputTuplesByInput_keeps java
  rw [tuples,List.mem_map]
  exact exists_congr fun i => and_congr_left' perm.mem_iff

theorem tuples_sorted (sorted : routine.sortStatus = .byInput →
    routine.inputTuples.Pairwise fun i j => (routine.objects i).size ≤ (routine.objects j).size) :
    (tuples java routine).Pairwise fun a b => a.size ≤ b.size := by
  rw [tuples,List.pairwise_map]
  unfold RoutineTuples.sortInputTuplesByInput
  split
  · next status => exact sorted status
  · refine (stableSort_pairwise (fun i => (routine.objects i).inputKey) routine.inputTuples).imp ?_
    intro i j le
    rcases Prod.Lex.le_iff.mp le with lt | ⟨same,-⟩
    · exact lt.le
    · exact same.le

theorem maxInput_highest (routine : RoutineTuples) :
    Highest 0 (routine.inputTuples.map fun i => (routine.objects i).size) routine.maxInput := by
  unfold RoutineTuples.maxInput
  generalize routine.inputTuples.map (fun i => (routine.objects i).size) = sizes
  induction sizes using List.reverseRecOn with
  | nil => exact .empty 0
  | append_singleton sizes size ih =>
    rw [List.foldl_append,List.foldl_cons,List.foldl_nil,max_comm]
    exact ih.add size

theorem largest_last (natural : ∀ te ∈ tuples java routine, 0 ≤ te.size)
    (ordered : (tuples java routine).Pairwise fun a b => a.size ≤ b.size) :
    (∀ te ∈ tuples java routine, te.size ≤ routine.maxInput) ∧
      ∀ last ∈ (tuples java routine).getLast?, last.size = routine.maxInput := by
  have highest := maxInput_highest routine
  have below : ∀ te ∈ tuples java routine, te.size ≤ routine.maxInput := by
    intro te member
    obtain ⟨i,inside,rfl⟩ := mem_tuples.mp member
    exact highest.below _ (List.mem_map_of_mem inside)
  refine ⟨below,fun last found => ?_⟩
  have member := List.mem_of_mem_getLast? found
  rcases highest.attained with attained | zero
  · obtain ⟨i,inside,same⟩ := List.mem_map.mp attained
    have le := ordered.rel_getLast (mem_tuples.mpr ⟨i,inside,rfl⟩ : routine.objects i ∈ tuples java routine)
    rw [List.getLast_of_mem_getLast? found] at le
    exact le_antisymm (below last member) (same ▸ le)
  · exact le_antisymm (below last member) (zero ▸ natural last member)

theorem slotOf_mono (width : 0 < t) {a b : Input} (le : a.size ≤ b.size) : slotOf t a ≤ slotOf t b :=
  Int.ediv_le_ediv width le

theorem slots_eq_runs (width : 0 < t) {tuples : List Input} (ordered : tuples.Pairwise fun a b => a.size ≤ b.size) :
    slots t tuples = runs (slotOf t) tuples :=
  (runs_eq_filter (ordered.imp fun le => slotOf_mono width le)).symm

end

def marked (panel : GraphPanel) (dot : Dot) : Bool := panel.graphType ≠ .mmmPlot ∨ dot.series = 5

theorem pieceDots_marked {mode : CostType} {panel : GraphPanel} {best worst : Nat} (apart : best ≠ 5 ∧ worst ≠ 5)
    (piece : List Input) : ((panel.pieceDots mode best worst piece).filter (marked panel)).length = 1 := by
  unfold GraphPanel.pieceDots GraphPanel.slotDots marked
  cases kind : panel.graphType with
  | mmmPlot => simp [apart]
  | _ => simp

theorem flatMap_marked {mode : CostType} {panel : GraphPanel} {best worst : Nat} (apart : best ≠ 5 ∧ worst ≠ 5)
    (pieces : List (List Input)) :
    ((pieces.flatMap (panel.pieceDots mode best worst)).filter (marked panel)).length = pieces.length := by
  induction pieces with
  | nil => rfl
  | cons piece pieces ih =>
    rw [List.flatMap_cons,List.filter_append,List.length_append,pieceDots_marked apart,ih,List.length_cons,Nat.add_comm]

theorem length_of_perm {mode : CostType} {panel : GraphPanel} {pieces others : List (List Input)} {best worst best' worst' : Nat}
    (apart : best ≠ 5 ∧ worst ≠ 5) (apart' : best' ≠ 5 ∧ worst' ≠ 5)
    (same : (pieces.flatMap (panel.pieceDots mode best worst)).Perm (others.flatMap (panel.pieceDots mode best' worst'))) :
    pieces.length = others.length := by
  rw [← @flatMap_marked mode panel _ _ apart pieces,← @flatMap_marked mode panel _ _ apart' others]
  exact (same.filter _).length_eq

section
variable {mode : CostType} {panel : ThresholdPanel} {shown : List Input}

theorem runs_length_fresh {α κ : Type} [DecidableEq κ] {key : α → κ} {a : α} {rest : List α}
    (fresh : ∀ b ∈ rest, key b ≠ key a) : (runs key (a :: rest)).length = (runs key rest).length + 1 := by
  have single : runs key [a] = [[a]] := runs_of_one (List.cons_ne_nil a []) (k := key a) (by simp)
  cases rest with
  | nil => rw [single]; rfl
  | cons b rest =>
    have split := runs_append (l := [a]) (k := key a) rest (by simp) (fresh b List.mem_cons_self)
    rw [List.singleton_append,single] at split
    rw [split]
    rfl

theorem runs_length_tail {α κ : Type} [DecidableEq κ] (key : α → κ) (a : α) (rest : List α) :
    (runs key rest).length ≤ (runs key (a :: rest)).length := by
  cases rest with
  | nil => exact Nat.zero_le _
  | cons b rest =>
    by_cases same : key a = key b
    · obtain ⟨piece,pieces,split,split'⟩ := @runs_cons _ _ _ key a b rest same
      rw [split,split']
      exact le_rfl
    · have split := runs_append (l := [a]) (k := key a) rest (by simp) fun equal => same equal.symm
      rw [List.singleton_append] at split
      rw [split,List.length_append]
      exact Nat.le_add_left _ _

theorem runs_length_late {α κ : Type} [DecidableEq κ] (key : α → κ) (k : κ) (l : List α) :
    (runs key (late key k l)).length ≤ (runs key l).length := by
  induction l generalizing k with
  | nil => exact le_rfl
  | cons a rest ih =>
    rw [late]
    split
    · exact le_rfl
    · exact (ih (key a)).trans (runs_length_tail key a rest)

theorem late_of_first {t k : Int} (first : ∀ te ∈ shown.head?, slotOf t te = k) : late (slotOf t) k shown = shown := by
  cases shown with
  | nil => rfl
  | cons te rest => rw [late,if_pos (first te rfl)]

theorem first_of_length (width : 0 < panel.groupThreshold) (ordered : shown.Pairwise fun a b => a.size ≤ b.size)
    (same : (runs (slotOf panel.groupThreshold) (late (slotOf panel.groupThreshold) 0 shown)).length =
      (slots panel.groupThreshold shown).length) : ∀ te ∈ shown.head?, slotOf panel.groupThreshold te = 0 ∨
        ∃ other ∈ shown.tail, slotOf panel.groupThreshold other = slotOf panel.groupThreshold te := by
  intro te found
  cases shown with
  | nil => cases found
  | cons first rest =>
    cases found
    by_contra lost
    rw [List.tail_cons] at lost
    obtain ⟨outside,alone⟩ := not_or.mp lost
    rw [late,if_neg outside,slots_eq_runs width ordered,runs_length_fresh fun other member equal => alone ⟨other,member,equal⟩]
      at same
    have fewer := runs_length_late (slotOf panel.groupThreshold) (slotOf panel.groupThreshold te) rest
    omega

end

section
variable {mode : CostType} {panel : ThresholdPanel} {largest : Int} {tuples : List Input}

theorem collect_swapped (kind : panel.graphType = .mmmPlot) {piece : List Input}
    (flat : ∀ te ∈ piece, te.getMinCost mode = te.getMaxCost mode) (start : ℚ) :
    (panel.collect mode start piece).sumY.1 = (panel.collect mode start piece).sumY.2.2 := by
  induction piece using List.reverseRecOn with
  | nil => rfl
  | append_singleton piece te ih =>
    have value : (panel.val mode te).1 = (panel.val mode te).2.2 := by
      unfold GraphPanel.val GraphPanel.ys
      rw [kind]
      exact flat te (List.mem_append_right piece (List.mem_singleton_self te))
    have before := ih fun other member => flat other (List.mem_append_left [te] member)
    rw [← GraphPanel.collect_add]
    show Numbers.java.double (_ + _) = Numbers.java.double (_ + _)
    rw [before,value]

theorem pieceDots_swap {piece : List Input}
    (flat : panel.graphType = .mmmPlot → ∀ te ∈ piece, te.getMinCost mode = te.getMaxCost mode) :
    (panel.pieceDots mode 0 11 piece).Perm (panel.pieceDots mode 11 0 piece) := by
  rw [GraphPanel.pieceDots,GraphPanel.pieceDots,GraphPanel.slotDots,GraphPanel.slotDots]
  cases kind : panel.graphType with
  | mmmPlot =>
    dsimp only
    rw [collect_swapped kind (flat kind)]
    exact List.reverse_perm [_,_,_]
  | _ => exact List.Perm.refl _

end

section
variable {mode : CostType} {panel : ThresholdPanel} {largest : Int} {tuples : List Input}

theorem currentSlot_small {te : Input} (small : Small te) (width : 0 < panel.groupThreshold) :
    panel.currentSlot te.size = panel.groupThreshold * slotOf panel.groupThreshold te := by
  have fits : ∀ d : Int, 0 ≤ d → d < 2 ^ 31 → toInt d = d := by
    intro d positive bound
    unfold toInt
    omega
  obtain ⟨x,natural,less,start⟩ := @slot_start te panel.groupThreshold small width
  rw [currentSlot,x,truncate_intCast,fits te.size small.1 small.2,start,double_int natural less,truncate_intCast,
    fits _ natural less]

theorem currentSlot_inj {a b : Input} (small : Small a) (small' : Small b) (width : 0 < panel.groupThreshold) : panel.currentSlot a.size = panel.currentSlot b.size ↔
      slotOf panel.groupThreshold a = slotOf panel.groupThreshold b := by
  rw [currentSlot_small small width,currentSlot_small small' width]
  exact ⟨Int.eq_of_mul_eq_mul_left width.ne',congrArg _⟩

theorem splitBy_slots (width : 0 < panel.groupThreshold) {front : List Input} {last : Input}
    (small : ∀ te ∈ front ++ [last], Small te) (alone : ∀ te ∈ front, te.size ≠ largest) :
    (front ++ [last]).splitBy (panel.stays largest) = runs (slotOf panel.groupThreshold) (front ++ [last]) := by
  apply splitBy_congr
  apply List.Pairwise.isChain
  have agree : ∀ a ∈ front, ∀ b ∈ front ++ [last], panel.stays largest a b =
      decide (slotOf panel.groupThreshold a = slotOf panel.groupThreshold b) := by
    intro a inside b inside'
    have inside := List.mem_append_left [last] inside
    rw [stays,decide_eq_decide,currentSlot_inj (small a inside) (small b inside') width]
    exact and_iff_left (alone a ‹_›)
  refine List.pairwise_append.mpr ⟨?_,List.pairwise_singleton _ _,fun a inside b inside' => agree a inside b
    (List.mem_append_right _ inside')⟩
  exact List.pairwise_of_forall_mem_list fun a inside b inside' => agree a inside b (List.mem_append_left _ inside')

theorem mem_passing {te : Input} : te ∈ passing mode panel tuples ↔ te ∈ tuples ∧ panel.filterRms mode te = true :=
  List.mem_filter

theorem passing_slot (j : Int) : passing mode panel (tuples.filter fun te => slotOf panel.groupThreshold te = j) =
    (passing mode panel tuples).filter fun te => slotOf panel.groupThreshold te = j := by
  rw [passing,passing,List.filter_filter,List.filter_filter]
  exact List.filter_congr fun te _ => Bool.and_comm _ _

theorem cuts_alone (width : 0 < panel.groupThreshold) {front : List Input} {last : Input}
    (small : ∀ te ∈ front ++ [last], Small te) (ordered : (front ++ [last]).Pairwise fun a b => a.size ≤ b.size)
    (large : last.size = largest) (alone : ∀ te ∈ front, te.size ≠ largest) :
    cuts mode panel largest (front ++ [last]) = (((front ++ [last]).map (slotOf panel.groupThreshold)).dedup.filter fun j =>
      j ∈ (passing mode panel (front ++ [last])).map (slotOf panel.groupThreshold) ∨ j = largest / panel.groupThreshold).map
        fun j => (passing mode panel (front ++ [last])).filter fun te => slotOf panel.groupThreshold te = j := by
  have holds : ∀ j ∈ ((front ++ [last]).map (slotOf panel.groupThreshold)).dedup,
      plotted mode panel largest ((front ++ [last]).filter fun te => slotOf panel.groupThreshold te = j) =
        if j ∈ (passing mode panel (front ++ [last])).map (slotOf panel.groupThreshold) ∨ j = largest / panel.groupThreshold then
          [(passing mode panel (front ++ [last])).filter fun te => slotOf panel.groupThreshold te = j] else [] := by
    intro j _
    rw [plotted,passing_slot]
    refine if_congr ⟨?_,?_⟩ rfl rfl
    · rintro ⟨other,inner,passes | equal⟩
      · obtain ⟨inner,same⟩ := List.mem_filter.mp inner
        exact .inl (List.mem_map.mpr ⟨other,mem_passing.mpr ⟨inner,passes⟩,of_decide_eq_true same⟩)
      · have same := of_decide_eq_true (List.mem_filter.mp inner).2
        exact .inr (by rw [← same,slotOf,equal])
    · rintro (member | rfl)
      · obtain ⟨other,inner,same⟩ := List.mem_map.mp member
        obtain ⟨inside,passes⟩ := mem_passing.mp inner
        exact ⟨other,List.mem_filter.mpr ⟨inside,decide_eq_true same⟩,.inl passes⟩
      · exact ⟨last,List.mem_filter.mpr ⟨List.mem_append_right _ (List.mem_singleton_self last),
          decide_eq_true (by rw [slotOf,large])⟩,.inr large⟩
  rw [cuts,splitBy_slots width small alone,← slots_eq_runs width ordered,slots,List.flatMap_map,List.flatMap_congr holds,flatMap_if]

theorem cuts_slots (width : 0 < panel.groupThreshold) {front : List Input} {last : Input}
    (small : ∀ te ∈ front ++ [last], Small te) (ordered : (front ++ [last]).Pairwise fun a b => a.size ≤ b.size)
    (large : last.size = largest) (alone : ∀ te ∈ front, te.size ≠ largest)
    (shown : ∃ te ∈ passing mode panel (front ++ [last]), slotOf panel.groupThreshold te = largest / panel.groupThreshold) :
    cuts mode panel largest (front ++ [last]) = slots panel.groupThreshold (passing mode panel (front ++ [last])) := by
  obtain ⟨te,inside,slot⟩ := shown
  have keys : (((front ++ [last]).map (slotOf panel.groupThreshold)).dedup.filter fun j =>
      j ∈ (passing mode panel (front ++ [last])).map (slotOf panel.groupThreshold) ∨ j = largest / panel.groupThreshold) =
      ((passing mode panel (front ++ [last])).map (slotOf panel.groupThreshold)).dedup := by
    have within : ((passing mode panel (front ++ [last])).map (slotOf panel.groupThreshold)).Sublist
        ((front ++ [last]).map (slotOf panel.groupThreshold)) := List.filter_sublist.map _
    rw [← dedup_filter (List.pairwise_map.mpr (ordered.imp fun le => slotOf_mono width le)) within]
    refine List.filter_congr fun j _ => ?_
    rw [decide_eq_decide]
    exact or_iff_left_of_imp fun same => List.mem_map.mpr ⟨te,inside,slot.trans same.symm⟩
  rw [cuts_alone width small ordered large alone,keys,slots]

theorem cuts_largest {others : List Input} (large : ∀ te ∈ others, te.size = largest) :
    (cuts mode panel largest others).length = others.length := by
  induction others with
  | nil => rfl
  | cons te rest ih =>
    have apart := @splitBy_largest panel largest [] te rest (fun _ member => absurd member List.not_mem_nil)
      (large te List.mem_cons_self)
    rw [List.nil_append,List.nil_append] at apart
    have piece : plotted mode panel largest [te] = [passing mode panel [te]] :=
      if_pos ⟨te,List.mem_singleton_self te,.inr (large te List.mem_cons_self)⟩
    rw [cuts,apart,List.flatMap_cons,piece,List.length_append,List.length_cons]
    exact (Nat.add_comm _ _).trans (congrArg (· + 1) (ih fun other member => large other (List.mem_cons_of_mem te member)))

/-- As many pieces as slots: one tuple has the largest size, and its slot a tuple that passes. -/
theorem largest_of_length (width : 0 < panel.groupThreshold) (small : ∀ te ∈ tuples, Small te)
    (ordered : tuples.Pairwise fun a b => a.size ≤ b.size) (bounded : ∀ te ∈ tuples, te.size ≤ largest)
    (ends : ∀ last ∈ tuples.getLast?, last.size = largest)
    (same : (cuts mode panel largest tuples).length = (slots panel.groupThreshold (passing mode panel tuples)).length) :
    panel.LargestShown mode largest tuples := by
  intro nonempty
  obtain ⟨first,found⟩ : ∃ first, tuples.find? (fun te => te.size = largest) = some first := by
    rw [← Option.isSome_iff_exists,List.find?_isSome]
    exact ⟨_,List.getLast_mem nonempty,decide_eq_true (ends _ (List.getLast?_eq_some_getLast nonempty))⟩
  obtain ⟨large,front,others,rfl,before⟩ := List.find?_eq_some_iff_append.mp found
  have large := of_decide_eq_true large
  have alone : ∀ te ∈ front, te.size ≠ largest := fun te member equal => by
    have differs := before te member
    rw [decide_eq_true equal] at differs
    cases differs
  have after : ∀ te ∈ others, te.size = largest := fun te member => le_antisymm
    (bounded te (List.mem_append_right front (List.mem_cons_of_mem first member)))
    (large ▸ (List.pairwise_cons.mp (List.pairwise_append.mp ordered).2.1).1 te member)
  have one : ((front ++ first :: others).filter fun te => te.size = largest) = first :: others := by
    rw [List.filter_append,List.filter_eq_nil_iff.mpr fun te member equal => alone te member (of_decide_eq_true equal),
      List.nil_append,List.filter_eq_self]
    intro te member
    exact decide_eq_true ((List.mem_cons.mp member).elim (fun equal => equal ▸ large) (after te))
  rw [List.append_cons] at small ordered same ⊢
  have parts : cuts mode panel largest (front ++ [first] ++ others) =
      cuts mode panel largest (front ++ [first]) ++ cuts mode panel largest others := by
    rw [cuts,List.splitBy_append,List.flatMap_append]
    · rfl
    · intro last found b _
      rw [List.getLast?_concat,Option.mem_some_iff] at found
      exact decide_eq_false fun next => next.2 (found ▸ large)
  have kept : (front ++ [first]).Sublist (front ++ [first] ++ others) := List.sublist_append_left _ _
  rw [parts,List.length_append,cuts_largest after,cuts_alone width (fun te member => small te (kept.subset member))
    (ordered.sublist kept) large alone,List.length_map,slots,List.length_map] at same
  -- the slots that are shown are among those with a piece, and so is the last one
  have mine : largest / panel.groupThreshold ∈ ((front ++ [first]).map (slotOf panel.groupThreshold)).dedup :=
    List.mem_dedup.mpr (List.mem_map.mpr ⟨first,List.mem_append_right _ (List.mem_singleton_self first),by rw [slotOf,large]⟩)
  have within : ∀ j ∈ ((passing mode panel (front ++ [first] ++ others)).map (slotOf panel.groupThreshold)).dedup,
      j ∈ (((front ++ [first]).map (slotOf panel.groupThreshold)).dedup.filter fun j =>
        j ∈ (passing mode panel (front ++ [first])).map (slotOf panel.groupThreshold) ∨ j = largest / panel.groupThreshold) := by
    intro j member
    obtain ⟨te,inner,slot⟩ := List.mem_map.mp (List.mem_dedup.mp member)
    obtain ⟨inside,passes⟩ := mem_passing.mp inner
    rcases List.mem_append.mp inside with early | late
    · have inside := mem_passing.mpr ⟨early,passes⟩
      exact List.mem_filter.mpr ⟨List.mem_dedup.mpr (List.mem_map.mpr ⟨te,early,slot⟩),
        decide_eq_true (.inl (List.mem_map.mpr ⟨te,inside,slot⟩))⟩
    · rw [slotOf,after te late] at slot
      rw [← slot]
      exact List.mem_filter.mpr ⟨mine,decide_eq_true (.inr rfl)⟩
  have fewer := (List.subperm_of_subset (List.nodup_dedup _) within).length_le
  have none : others = [] := List.length_eq_zero_iff.mp (by omega)
  subst none
  refine ⟨?_,?_⟩
  · rw [← List.append_cons,one]
    rfl
  · by_contra hidden
    have fresh : largest / panel.groupThreshold ∉
        ((passing mode panel (front ++ [first] ++ [])).map (slotOf panel.groupThreshold)).dedup := by
      intro member
      obtain ⟨te,inside,slot⟩ := List.mem_map.mp (List.mem_dedup.mp member)
      exact hidden ⟨te,inside,slot⟩
    have more := (List.subperm_of_subset (List.nodup_cons.mpr ⟨fresh,List.nodup_dedup _⟩) (List.cons_subset.mpr
      ⟨List.mem_filter.mpr ⟨mine,decide_eq_true (.inr rfl)⟩,within⟩)).length_le
    rw [List.length_cons] at more
    omega

end

section
variable {mode : CostType} {panel : ThresholdPanel}

theorem collect_freq (kind : panel.graphType = .freqPlot) {piece : List Input} (natural : ∀ te ∈ piece, 0 ≤ te.calls)
    (short : (piece.map Input.calls).sum ≤ 2 ^ 53) (start : ℚ) :
    (panel.collect mode start piece).sumY.1 = (piece.map Input.calls).sum := by
  induction piece using List.reverseRecOn with
  | nil => rfl
  | append_singleton piece te ih =>
    have before := fun other member => natural other (List.mem_append_left [te] member)
    have calls := natural te (List.mem_append_right piece (List.mem_singleton_self te))
    have rest : 0 ≤ (piece.map Input.calls).sum := by
      apply List.sum_nonneg
      intro n member
      obtain ⟨other,inside,rfl⟩ := List.mem_map.mp member
      exact before other inside
    rw [List.map_append,List.sum_append,List.map_singleton,List.sum_singleton] at short ⊢
    have value : (panel.val mode te).1 = te.calls := by
      unfold GraphPanel.val GraphPanel.ys
      rw [kind]
      exact roundDouble_exact (isDouble_intCast (by omega))
    rw [← GraphPanel.collect_add]
    show Numbers.java.double ((panel.collect mode start piece).sumY.1 + (panel.val mode te).1) = _
    rw [ih before (by omega),value,← Int.cast_add]
    exact roundDouble_exact (isDouble_intCast (by omega))

theorem freq_sum (kind : panel.graphType = .freqPlot) {pieces : List (List Input)}
    (natural : ∀ piece ∈ pieces, ∀ te ∈ piece, 0 ≤ te.calls) (short : ∀ piece ∈ pieces, (piece.map Input.calls).sum ≤ 2 ^ 53) :
    ((pieces.flatMap (panel.pieceDots mode 11 0)).filterMap Dot.y).sum = (pieces.flatten.map fun te => (te.calls : ℚ)).sum := by
  induction pieces with
  | nil => rfl
  | cons piece pieces ih =>
    have dots : (panel.pieceDots mode 11 0 piece).filterMap Dot.y = [(piece.map fun te => (te.calls : ℚ)).sum] := by
      rw [GraphPanel.pieceDots,GraphPanel.slotDots,kind]
      dsimp only
      rw [collect_freq kind (natural piece List.mem_cons_self) (short piece List.mem_cons_self),Int.cast_list_sum,List.map_map]
      rfl
    rw [List.flatMap_cons,List.filterMap_append,List.sum_append,dots,List.sum_singleton,List.flatten_cons,List.map_append,
      List.sum_append,ih (fun other member => natural other (List.mem_cons_of_mem piece member))
        fun other member => short other (List.mem_cons_of_mem piece member)]

theorem populateChart_grouped (java : Java) (grouped : 1 < panel.groupThreshold) (unsmoothed : panel.smoothThreshold = 1)
    (fuel : Nat) (routine : RoutineTuples) :
    panel.populateChart java mode fuel routine = some (panel.groupedChart mode (tuples java routine)) := by
  unfold populateChart
  split
  · next empty =>
    have none : tuples java routine = [] := by
      rw [List.eq_nil_iff_forall_not_mem]
      intro te member
      obtain ⟨i,inside,-⟩ := mem_tuples.mp member
      rw [List.length_eq_zero_iff.mp empty] at inside
      exact List.not_mem_nil inside
    rw [none]
    rfl
  · rw [if_neg (by omega),if_pos ⟨grouped,unsmoothed⟩]

theorem mem_slots {t : Int} {tuples piece : List Input} (member : piece ∈ slots t tuples) {te : Input} (inside : te ∈ piece) :
    te ∈ tuples := by
  obtain ⟨j,-,rfl⟩ := List.mem_map.mp member
  exact (List.mem_filter.mp inside).1

theorem cuts_of_shown (width : 0 < panel.groupThreshold) {largest : Int} {tuples : List Input} (small : ∀ te ∈ tuples, Small te)
    (ordered : tuples.Pairwise fun a b => a.size ≤ b.size) (ends : ∀ last ∈ tuples.getLast?, last.size = largest)
    (shown : panel.LargestShown mode largest tuples) :
    cuts mode panel largest tuples = slots panel.groupThreshold (passing mode panel tuples) := by
  rcases List.eq_nil_or_concat' tuples with rfl | ⟨front,last,rfl⟩
  · rfl
  · have large : last.size = largest := ends last (by rw [List.getLast?_concat]; rfl)
    obtain ⟨one,slot⟩ := shown (List.append_ne_nil_of_right_ne_nil _ (List.cons_ne_nil last []))
    refine cuts_slots width small ordered large (fun te inner equal => ?_) slot
    have mine : ([last].filter fun te => te.size = largest) = [last] := List.filter_eq_self.mpr fun te member => by
      rw [List.mem_singleton.mp member]
      exact decide_eq_true large
    rw [List.filter_append,List.length_append,mine,List.length_singleton,Nat.add_eq_right,List.length_eq_zero_iff,
      List.filter_eq_nil_iff] at one
    exact one te inner (decide_eq_true equal)

/-- Grouping loses nothing and both ways agree when all sizes are ints, the first tuple lies in
slot 0, the largest size is there once and its slot shown, no costs are swapped and no calls
rounded; where the sizes are ints, not without y values, with a first slot lost or with more or
fewer tuples of the largest size. -/
theorem groups_alike (java : Java) (mode : CostType) (panel : ThresholdPanel) (routine : RoutineTuples)
    (grouped : 1 < panel.groupThreshold) (unsmoothed : panel.smoothThreshold = 1)
    (natural : ∀ i ∈ routine.inputTuples, 0 ≤ (routine.objects i).size)
    (sorted : routine.sortStatus = .byInput →
      routine.inputTuples.Pairwise fun i j => (routine.objects i).size ≤ (routine.objects j).size) :
    (panel.Groupable mode routine.maxInput (tuples java routine) → panel.GroupsAlike java mode routine) ∧
    ((∀ te ∈ tuples java routine, te.size < 2 ^ 31) → panel.GroupsAlike java mode routine →
      (∀ te ∈ passing mode panel (tuples java routine), panel.Defined mode te) ∧
      (∀ te ∈ (passing mode panel (tuples java routine)).head?, slotOf panel.groupThreshold te = 0 ∨
        ∃ other ∈ (passing mode panel (tuples java routine)).tail,
          slotOf panel.groupThreshold other = slotOf panel.groupThreshold te) ∧
      panel.LargestShown mode routine.maxInput (tuples java routine)) := by
  have width : 0 < panel.groupThreshold := by omega
  have ordered := @tuples_sorted java routine sorted
  have natural : ∀ te ∈ tuples java routine, 0 ≤ te.size := by
    intro te member
    obtain ⟨i,inside,rfl⟩ := mem_tuples.mp member
    exact natural i inside
  obtain ⟨bounded,ends⟩ := largest_last natural ordered
  have ordered' : (passing mode panel (tuples java routine)).Pairwise fun a b => a.size ≤ b.size := ordered.filter _
  constructor
  · rintro ⟨small,defined,first,flat,last,counted⟩
    have small : ∀ te ∈ tuples java routine, Small te := fun te member => ⟨natural te member,small te member⟩
    have cut := cuts_of_shown width small ordered ends last
    have chart : panel.groupedChart mode (tuples java routine) =
        .ok ((slots panel.groupThreshold (passing mode panel (tuples java routine))).flatMap (panel.pieceDots mode 11 0)) := by
      rw [groupedChart_eq width small defined,late_of_first first,slots_eq_runs width ordered']
    refine ⟨_,_,fun fuel => ?_,addPoints_eq ends defined,List.Perm.refl _,?_,fun kind => ?_⟩
    · rw [populateChart_grouped java grouped unsmoothed,chart]
    · rw [cut]
      exact List.Perm.flatMap_left _ fun piece member => pieceDots_swap fun kind te inside => flat kind te (mem_slots member inside)
    · obtain ⟨calls,short⟩ := counted kind
      rw [freq_sum kind (fun piece member te inside => calls te (mem_slots member inside)) short,slots_eq_runs width ordered',
        runs_flatten]
  · rintro small ⟨points,added,chart,fed,perm,alike,-⟩
    have small : ∀ te ∈ tuples java routine, Small te := fun te member => ⟨natural te member,small te member⟩
    have plotted : panel.groupedChart mode (tuples java routine) = .ok points :=
      Option.some.inj ((populateChart_grouped java grouped unsmoothed 0 routine).symm.trans (chart 0))
    have defined := defined_of_groupedChart plotted
    rw [groupedChart_eq width small defined] at plotted
    rw [addPoints_eq ends defined] at fed
    obtain rfl := Except.ok.inj plotted
    obtain rfl := Except.ok.inj fed
    exact ⟨defined,first_of_length width ordered' (length_of_perm (by decide) (by decide) perm),
      largest_of_length width small ordered bounded ends (length_of_perm (by decide) (by decide) (alike.trans perm))⟩

end

def tensPanel : ThresholdPanel :=
  { amortizedPanel with graphType := .costPlot, groupThreshold := 10, plain := fun kind => absurd kind (by decide) }

def sizedInputs (sizes : List Int) : RoutineTuples := .ofInputs (sizes.map fun size => { unitInput with size := size })

/-- Tuples of the sizes 1 and 12 have their two slots, and one of the size 12 alone has none. -/
theorem groups_alike_pair : tensPanel.GroupsAlike .from8 .self (sizedInputs [12,1]) ∧
    ¬tensPanel.GroupsAlike .from8 .self (sizedInputs [12]) := by
  constructor
  · refine (groups_alike .from8 .self tensPanel (sizedInputs [12,1]) (by decide) rfl (by decide +kernel)
      fun status => absurd status (by decide)).1 ?_
    have listed : tuples .from8 (sizedInputs [12,1]) = [{ unitInput with size := 1 },{ unitInput with size := 12 }] := by
      decide +kernel
    have shown : passing .self tensPanel [{ unitInput with size := 1 },{ unitInput with size := 12 }] =
        [{ unitInput with size := 1 },{ unitInput with size := 12 }] := rfl
    rw [listed]
    refine ⟨by decide +kernel,fun te _ kind => absurd kind (by decide),fun te found => ?_,fun kind => absurd kind (by decide),
      fun _ => ?_,fun kind => absurd kind (by decide)⟩
    · rw [shown] at found
      cases found
      decide +kernel
    · refine ⟨by decide +kernel,{ unitInput with size := 12 },?_,by decide +kernel⟩
      rw [shown]
      exact List.mem_cons_of_mem _ List.mem_cons_self
  · intro alike
    have listed : tuples .from8 (sizedInputs [12]) = [{ unitInput with size := 12 }] := by decide +kernel
    obtain ⟨-,first,-⟩ := (groups_alike .from8 .self tensPanel (sizedInputs [12]) (by decide) rfl (by decide +kernel)
      fun status => absurd status (by decide)).2 (by rw [listed]; decide +kernel) alike
    rw [listed] at first
    rcases first _ rfl with zero | ⟨other,member,-⟩
    · exact absurd zero (by decide +kernel)
    · exact absurd member List.not_mem_nil

/-- A tuple of the size 12 alone has no point. -/
theorem first_slot_lost : tensPanel.populateChart .from8 .self 0 (sizedInputs [12]) = some (.ok []) ∧
    ¬tensPanel.GroupsAlike .from8 .self (sizedInputs [12]) := by
  have lost : tensPanel.populateChart .from8 .self 0 (sizedInputs [12]) = some (.ok []) := by decide +kernel
  refine ⟨lost,?_⟩
  rintro ⟨points,-,chart,-,perm,-⟩
  have none : points = [] := Except.ok.inj (Option.some.inj ((chart 0).symm.trans lost))
  rw [none] at perm
  exact absurd perm.nil_eq.symm (by decide +kernel)

end ThresholdPanel

end Aprof.Plot
