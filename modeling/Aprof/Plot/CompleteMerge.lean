import Aprof.Plot.LazyGroups

/-! The whole merge on the tuples of a report, and when it is complete. -/
namespace Aprof.Plot

namespace ContextualizedRoutineInfo

section
variable {mode : CostType} {tuples contexts : List Input}

theorem addInputs (mode : CostType) (news : List Nat) (routine : ContextualizedRoutineInfo) :
    (news.foldl (addInput mode) routine).objects = routine.objects ∧
      (news.foldl (addInput mode) routine).inputTuples = routine.inputTuples ++ news ∧
      (news.foldl (addInput mode) routine).statistics =
        (news.map routine.objects).foldl (·.addInput .java mode) routine.statistics := by
  induction news generalizing routine with
  | nil => exact ⟨rfl,(List.append_nil _).symm,rfl⟩
  | cons i news ih =>
    obtain ⟨objects,inputTuples,statistics⟩ := ih (routine.addInput mode i)
    rw [List.foldl_cons]
    refine ⟨objects,?_,statistics⟩
    rw [inputTuples,List.append_cons]
    rfl

/-- The tuples of the routine in the order of the iterator. -/
def sorted (mode : CostType) (tuples contexts : List Input) : List Nat :=
  (ofReport mode tuples contexts).sortInputTuplesByInput.inputTuples

def start (mode : CostType) (tuples contexts : List Input) : Loop :=
  { objects := (ofReport mode tuples contexts).objects
    fresh := tuples.length + contexts.length
    lazy := stableSort (fun i => ((ofReport mode tuples contexts).objects i).size) (ofReport mode tuples contexts).lazyList
    list := sorted mode tuples contexts }

theorem sorted_perm (mode : CostType) (tuples contexts : List Input) :
    (sorted mode tuples contexts).Perm (List.range tuples.length) := stableSort_perm _ _

theorem start_lazy_perm (mode : CostType) (tuples contexts : List Input) :
    (start mode tuples contexts).lazy.Perm ((List.range contexts.length).map (tuples.length + ·)) := stableSort_perm _ _

def finish (mode : CostType) (tuples contexts : List Input) (last : Loop) : ContextualizedRoutineInfo :=
  { last.newTuples.foldl (addInput mode)
      { (ofReport mode tuples contexts).sortInputTuplesByInput with objects := last.objects, fresh := last.fresh } with
    lazyList := [] }

theorem merge_eq (fuel : Nat) (nonempty : contexts ≠ []) :
    mergeInputTupleLazyList mode fuel (ofReport mode tuples contexts) =
      ((start mode tuples contexts).run mode fuel).map (finish mode tuples contexts) := by
  have some : (ofReport mode tuples contexts).lazyList ≠ [] := by
    rw [ofReport]
    simpa using nonempty
  rw [mergeInputTupleLazyList,if_neg some]
  show ((start mode tuples contexts).run mode fuel).bind _ = _
  cases (start mode tuples contexts).run mode fuel <;> rfl

theorem finish_fields (mode : CostType) (tuples contexts : List Input) (last : Loop) :
    (finish mode tuples contexts last).objects = last.objects ∧
      (finish mode tuples contexts last).tuples =
        (sorted mode tuples contexts).map last.objects ++ last.newTuples.map last.objects ∧
      (finish mode tuples contexts last).statistics =
        (Routine.ofInputs .java mode (tuples ++ last.newTuples.map last.objects)).statistics := by
  obtain ⟨objects,inputTuples,statistics⟩ := addInputs mode last.newTuples
    { (ofReport mode tuples contexts).sortInputTuplesByInput with objects := last.objects, fresh := last.fresh }
  refine ⟨objects,?_,statistics.trans ?_⟩
  · rw [← List.map_append]
    exact congrArg₂ List.map objects inputTuples
  · rw [(Routine.ofInputs_fields .java mode _).1,List.foldl_append,← (Routine.ofInputs_fields .java mode tuples).1]
    rfl

end

end ContextualizedRoutineInfo

namespace ContextualizedRoutineInfo

section
variable {mode : CostType} {tuples contexts : List Input}

theorem objects_tuple (mode : CostType) (contexts : List Input) {i : Nat} (inside : i < tuples.length) :
    (ofReport mode tuples contexts).objects i = tuples[i] := by
  show (tuples ++ contexts)[i]?.getD unitInput = _
  rw [List.getElem?_append_left inside,List.getElem?_eq_getElem inside]
  rfl

theorem objects_context (mode : CostType) (tuples : List Input) {i : Nat} (inside : i < contexts.length) :
    (ofReport mode tuples contexts).objects (tuples.length + i) = contexts[i] := by
  show (tuples ++ contexts)[tuples.length + i]?.getD unitInput = _
  rw [List.getElem?_append_right (Nat.le_add_right _ _),Nat.add_sub_cancel_left,List.getElem?_eq_getElem inside]
  rfl

theorem map_range (mode : CostType) (tuples contexts : List Input) :
    (List.range tuples.length).map (ofReport mode tuples contexts).objects = tuples := by
  apply List.ext_getElem
  · rw [List.length_map,List.length_range]
  · intro i inside inside'
    rw [List.getElem_map,List.getElem_range,objects_tuple mode contexts inside']

theorem map_lazyList (mode : CostType) (tuples contexts : List Input) :
    (ofReport mode tuples contexts).lazyList.map (ofReport mode tuples contexts).objects = contexts := by
  have references : (ofReport mode tuples contexts).lazyList = (List.range contexts.length).map (tuples.length + ·) := rfl
  rw [references,List.map_map]
  apply List.ext_getElem
  · rw [List.length_map,List.length_range]
  · intro i inside inside'
    rw [List.getElem_map,List.getElem_range]
    exact objects_context mode tuples inside'

theorem lazy_inside {i : Nat} (member : i ∈ (start mode tuples contexts).lazy) :
    tuples.length ≤ i ∧ i < tuples.length + contexts.length ∧ (ofReport mode tuples contexts).objects i ∈ contexts := by
  have inside := (start_lazy_perm mode tuples contexts).subset member
  obtain ⟨j,below,rfl⟩ := List.mem_map.mp inside
  have bound := List.mem_range.mp below
  refine ⟨Nat.le_add_right _ _,Nat.add_lt_add_left bound _,?_⟩
  rw [objects_context mode tuples bound]
  exact List.getElem_mem bound

theorem list_inside {i : Nat} (member : i ∈ sorted mode tuples contexts) :
    i < tuples.length ∧ (ofReport mode tuples contexts).objects i ∈ tuples := by
  have bound := List.mem_range.mp ((sorted_perm mode tuples contexts).subset member)
  refine ⟨bound,?_⟩
  rw [objects_tuple mode contexts bound]
  exact List.getElem_mem bound

theorem groups_of_lazy {news : List Input}
    (groups : Groups mode ((start mode tuples contexts).lazy.map (ofReport mode tuples contexts).objects) news) :
    Groups mode contexts news := by
  have filters : ∀ size, ((start mode tuples contexts).lazy.map (ofReport mode tuples contexts).objects).filter
      (fun i => i.size = size) = contexts.filter fun i => i.size = size := by
    intro size
    rw [List.filter_map]
    show ((stableSort _ _).filter fun i => decide (((ofReport mode tuples contexts).objects i).size = size)).map _ = _
    rw [@stableSort_filter _ _ _ fun i => ((ofReport mode tuples contexts).objects i).size]
    conv_rhs => rw [← map_lazyList mode tuples contexts,List.filter_map]
    rfl
  have same := ((stableSort_perm (fun i => ((ofReport mode tuples contexts).objects i).size)
    (ofReport mode tuples contexts).lazyList).map (ofReport mode tuples contexts).objects)
  rw [map_lazyList] at same
  refine ⟨groups.increasing,fun tuple member => ?_,fun i member => groups.covered i (same.mem_iff.mpr member)⟩
  rw [← filters]
  exact groups.group tuple member

theorem merge_empty (mode : CostType) (fuel : Nat) (tuples : List Input) :
    mergeInputTupleLazyList mode fuel (ofReport mode tuples []) = some (ofReport mode tuples []) := by
  rw [mergeInputTupleLazyList]
  exact if_pos rfl

theorem start_gathering (mode : CostType) (ordered : ∀ context ∈ contexts, ∀ tuple ∈ tuples, tuple.size < context.size) :
    Gathering mode (tuples.length + contexts.length) (ofReport mode tuples contexts).objects []
      (start mode tuples contexts) where
  a := rfl
  b := rfl
  list := fun _ member => Nat.lt_add_right _ (list_inside member).1
  lazy := fun _ member => (lazy_inside member).2.1
  below := fun _ first _ second => ordered _ (lazy_inside second).2.2 _ (list_inside first).2
  old := fun _ _ => rfl
  fresh := le_rfl
  clones := nofun
  distinct := List.nodup_nil
  last := rfl
  groups := .nil

/-- When the contexts' tuples are all larger, the loop ends and the new tuples are their groups. -/
theorem merge_ordered (ordered : ∀ context ∈ contexts, ∀ tuple ∈ tuples, tuple.size < context.size) :
    ∃ fuel merged news, mergeInputTupleLazyList mode fuel (ofReport mode tuples contexts) = some merged ∧
      Groups mode contexts news ∧ merged.tuples.Perm (tuples ++ news) ∧
      merged.statistics = (Routine.ofInputs .java mode (tuples ++ news)).statistics ∧
      ∀ i (inside : i < contexts.length), merged.objects (tuples.length + i) = contexts[i] := by
  by_cases empty : contexts = []
  · subst empty
    refine ⟨0,_,[],merge_empty mode 0 tuples,.nil,?_,?_,nofun⟩
    · rw [List.append_nil]
      exact List.Perm.of_eq (map_range mode tuples [])
    · rw [List.append_nil]
      rfl
  · have gathering := start_gathering mode ordered
    obtain ⟨fuel,last,ran,-,gathered⟩ := gathering.run _ rfl (stableSort_pairwise _ _)
    obtain ⟨objects,whole,statistics⟩ := finish_fields mode tuples contexts last
    refine ⟨fuel,_,last.newTuples.map last.objects,?_,groups_of_lazy gathered.groups,?_,statistics,fun i inside => ?_⟩
    · rw [merge_eq fuel empty,ran]
      rfl
    · rw [whole]
      apply List.Perm.append_right
      have old : (sorted mode tuples contexts).map last.objects =
          (sorted mode tuples contexts).map (ofReport mode tuples contexts).objects :=
        List.map_congr_left fun i member => gathered.old i (Nat.lt_add_right _ (list_inside member).1)
      have same := (sorted_perm mode tuples contexts).map (ofReport mode tuples contexts).objects
      rw [map_range] at same
      rw [old]
      exact same
    · rw [objects,gathered.old _ (Nat.add_lt_add_left inside _),objects_context mode tuples inside]

end

end ContextualizedRoutineInfo

namespace ContextualizedRoutineInfo

section
variable {mode : CostType} {tuples contexts : List Input}

theorem start_owned (mode : CostType) (tuples contexts : List Input) :
    Owned tuples.length contexts.length (ofReport mode tuples contexts).objects (start mode tuples contexts) where
  list := fun _ member => (list_inside member).1
  b := nofun
  lazy := fun _ member => ⟨(lazy_inside member).1,(lazy_inside member).2.1⟩
  a := nofun
  prev := nofun
  fresh := le_rfl
  contexts := fun _ _ _ => rfl
  kept := fun _ _ => rfl

/-- The first turn when the routine has a tuple that is not smaller than the smallest of the contexts. -/
theorem first_turn {a : Nat} {lazy : List Nat} (first : (start mode tuples contexts).lazy = a :: lazy)
    (reached : ∃ i ∈ sorted mode tuples contexts,
      ((ofReport mode tuples contexts).objects a).size ≤ ((ofReport mode tuples contexts).objects i).size) :
    ∃ b rest, b ∈ sorted mode tuples contexts ∧
      ((ofReport mode tuples contexts).objects a).size ≤ ((ofReport mode tuples contexts).objects b).size ∧
      (start mode tuples contexts).fetch.seek a =
        { start mode tuples contexts with a := some a, b := some b, lazy := lazy, list := rest } := by
  obtain ⟨b,rest,found,inside,least,-⟩ := nextNotBelow_some reached
  refine ⟨b,rest,inside,least,?_⟩
  have fetched : (start mode tuples contexts).fetch = { start mode tuples contexts with a := some a, lazy := lazy } := by
    rw [Loop.fetch,first]
    rfl
  have sought : nextNotBelow (start mode tuples contexts).objects ((start mode tuples contexts).objects a).size
      (start mode tuples contexts).list = (some b,rest) := found
  have free : (start mode tuples contexts).b = none := rfl
  rw [fetched,Loop.seek]
  dsimp only
  rw [free,Option.filter_none]
  dsimp only
  rw [sought]

theorem stuck_turn {loop : Loop} {a b : Nat} (working : loop.a = some a) (pending : loop.b = some b)
    (less : (loop.objects a).size < (loop.objects b).size) : loop.turn mode = some loop := by
  have fetched : loop.fetch = loop := by rw [Loop.fetch,working]
  have kept : Option.filter (fun b => decide ¬(loop.objects b).size < (loop.objects a).size) (some b) = some b :=
    Option.filter_some_pos (decide_eq_true (not_lt.mpr less.le))
  have sought : loop.seek a = loop := by
    rw [Loop.seek,pending,kept]
    dsimp only
    rw [← pending]
  rw [Loop.turn,fetched,working]
  dsimp only
  rw [sought,pending]
  exact if_neg less.ne

theorem start_stuck {a b : Nat} {lazy rest : List Nat} (fetched : (start mode tuples contexts).fetch.a = some a)
    (sought : (start mode tuples contexts).fetch.seek a =
      { start mode tuples contexts with a := some a, b := some b, lazy := lazy, list := rest })
    (less : ((ofReport mode tuples contexts).objects a).size < ((ofReport mode tuples contexts).objects b).size)
    (fuel : Nat) : (start mode tuples contexts).run mode fuel = none := by
  have stuck : ((start mode tuples contexts).fetch.seek a).turn mode = some ((start mode tuples contexts).fetch.seek a) := by
    rw [sought]
    exact stuck_turn rfl rfl less
  have turned : (start mode tuples contexts).turn mode = some ((start mode tuples contexts).fetch.seek a) := by
    rw [Loop.turn,fetched]
    dsimp only
    rw [sought]
    exact if_neg less.ne
  cases ran : (start mode tuples contexts).run mode fuel with
  | none => rfl
  | some last =>
    obtain ⟨fuel,ran⟩ := Loop.run_turn turned ran
    rw [Loop.run_stuck stuck] at ran
    cases ran

theorem lazy_first_le {a : Nat} {lazy : List Nat} (first : (start mode tuples contexts).lazy = a :: lazy) {context : Input}
    (member : context ∈ contexts) : ((ofReport mode tuples contexts).objects a).size ≤ context.size := by
  rw [← map_lazyList mode tuples contexts] at member
  obtain ⟨j,listed,rfl⟩ := List.mem_map.mp member
  have ordered := stableSort_pairwise (fun i => ((ofReport mode tuples contexts).objects i).size)
    (ofReport mode tuples contexts).lazyList
  have inside := (stableSort_perm (fun i => ((ofReport mode tuples contexts).objects i).size)
    (ofReport mode tuples contexts).lazyList).mem_iff.mpr listed
  change (start mode tuples contexts).lazy.Pairwise _ at ordered
  change j ∈ (start mode tuples contexts).lazy at inside
  rw [first] at ordered inside
  rcases List.mem_cons.mp inside with same | later
  · rw [same]
  · exact (List.pairwise_cons.mp ordered).1 j later

/-- When the loop ends although a tuple of the contexts is not larger than all of the routine,
it has merged one into a tuple of the routine. -/
theorem unordered_merges (unordered : ∃ context ∈ contexts, ∃ tuple ∈ tuples, context.size ≤ tuple.size) {fuel : Nat}
    {last : Loop} (ran : (start mode tuples contexts).run mode fuel = some last) :
    ∃ b ∈ sorted mode tuples contexts, ∃ context ∈ contexts,
      context.size = ((ofReport mode tuples contexts).objects b).size := by
  obtain ⟨context,member,tuple,known,reaches⟩ := unordered
  have inhabited : (start mode tuples contexts).lazy ≠ [] := by
    intro none
    have lengths := (start_lazy_perm mode tuples contexts).length_eq
    rw [none,List.length_map,List.length_range] at lengths
    exact List.ne_nil_of_mem member (List.length_eq_zero_iff.mp lengths.symm)
  obtain ⟨a,lazy,first⟩ := List.exists_cons_of_ne_nil inhabited
  obtain ⟨-,-,contextual⟩ := lazy_inside (by rw [first]; exact List.mem_cons_self)
  have least := lazy_first_le first member
  have reached : ∃ i ∈ sorted mode tuples contexts,
      ((ofReport mode tuples contexts).objects a).size ≤ ((ofReport mode tuples contexts).objects i).size := by
    rw [← map_range mode tuples contexts] at known
    obtain ⟨i,listed,rfl⟩ := List.mem_map.mp known
    exact ⟨i,(sorted_perm mode tuples contexts).mem_iff.mpr listed,least.trans reaches⟩
  obtain ⟨b,rest,inside,notBelow,sought⟩ := first_turn first reached
  have fetched : (start mode tuples contexts).fetch.a = some a := by rw [Loop.fetch,first]; rfl
  rcases notBelow.lt_or_eq with less | equal
  · rw [start_stuck fetched sought less] at ran
    cases ran
  · exact ⟨b,inside,_,contextual,equal⟩

end

end ContextualizedRoutineInfo

section
variable {inputs : List Input}

private theorem sum_calls_nonneg (called : ∀ i ∈ inputs, 0 ≤ i.calls) : 0 ≤ (inputs.map Input.calls).sum := by
  apply List.sum_nonneg
  intro value member
  obtain ⟨i,inside,rfl⟩ := List.mem_map.mp member
  exact called i inside

theorem sum_groups_le (called : ∀ i ∈ inputs, 0 ≤ i.calls) {sizes : List Int} (distinct : sizes.Nodup) :
    (sizes.map fun size => ((inputs.filter fun i => i.size = size).map Input.calls).sum).sum ≤ (inputs.map Input.calls).sum := by
  induction sizes generalizing inputs with
  | nil => exact sum_calls_nonneg called
  | cons size sizes ih =>
    obtain ⟨other,distinct⟩ := List.nodup_cons.mp distinct
    have parts := ((List.filter_append_perm (fun i : Input => decide (i.size = size)) inputs).map Input.calls).sum_eq
    rw [List.map_append,List.sum_append] at parts
    have rest := @ih (inputs.filter fun i => !decide (i.size = size))
      (fun i member => called i (List.mem_filter.mp member).1) distinct
    have same : (sizes.map fun size' => (((inputs.filter fun i => !decide (i.size = size)).filter fun i => i.size = size').map
        Input.calls).sum) = sizes.map fun size' => ((inputs.filter fun i => i.size = size').map Input.calls).sum := by
      refine List.map_congr_left fun size' member => ?_
      rw [List.filter_filter]
      congr 2
      refine List.filter_congr fun i _ => ?_
      by_cases own : i.size = size'
      · have differs : i.size ≠ size := fun equal => other (equal ▸ own ▸ member)
        rw [decide_eq_true own,decide_eq_false differs]
        rfl
      · rw [decide_eq_false own,Bool.false_and]
    rw [same] at rest
    rw [List.map_cons,List.sum_cons,← parts]
    exact add_le_add_right rest _

theorem calls_le_group (called : ∀ i ∈ inputs, 0 ≤ i.calls) {tuple : Input} (member : tuple ∈ inputs) :
    tuple.calls ≤ ((inputs.filter fun i => i.size = tuple.size).map Input.calls).sum := by
  apply List.single_le_sum
  · intro value inside
    obtain ⟨i,inner,rfl⟩ := List.mem_map.mp inside
    exact called i (List.mem_filter.mp inner).1
  · exact List.mem_map_of_mem (List.mem_filter.mpr ⟨member,decide_eq_true rfl⟩)

end

namespace ContextualizedRoutineInfo

section
variable {mode : CostType} {tuples contexts : List Input}

theorem unordered_fails (called : ∀ i ∈ tuples ++ contexts, 0 < i.calls)
    (fits : FitsLong ((tuples ++ contexts).map Input.calls).sum)
    (unordered : ∃ context ∈ contexts, ∃ tuple ∈ tuples, context.size ≤ tuple.size) {fuel : Nat}
    {merged : ContextualizedRoutineInfo}
    (ended : mergeInputTupleLazyList mode fuel (ofReport mode tuples contexts) = some merged) :
    ¬Complete mode tuples contexts merged := by
  intro complete
  have inhabited : contexts ≠ [] := by
    obtain ⟨known,member,-⟩ := unordered
    exact List.ne_nil_of_mem member
  rw [merge_eq fuel inhabited] at ended
  obtain ⟨last,ran,rfl⟩ := Option.map_eq_some_iff.mp ended
  obtain ⟨b,inside,context,member,equal⟩ := unordered_merges unordered ran
  have kept := (Owned.run (start_owned mode tuples contexts) ran).kept
  have nonneg := fun i member => (called i member).le
  obtain ⟨-,whole,statistics⟩ := finish_fields mode tuples contexts last
  -- a tuple of the routine has at least the calls it had, and the one at `b` has more
  have groups : ∀ tuple ∈ (finish mode tuples contexts last).tuples,
      tuple.calls = (((tuples ++ contexts).filter fun i => i.size = tuple.size).map Input.calls).sum :=
    fun tuple held => (complete.aggregated tuple held).counts Input.calls (by simp [counts])
  have own : ∀ i ∈ sorted mode tuples contexts, (last.objects i).calls =
      (((tuples ++ contexts).filter fun j => j.size = ((ofReport mode tuples contexts).objects i).size).map Input.calls).sum := by
    intro i listed
    rw [← kept i (list_inside listed).1]
    exact groups _ (by rw [whole]; exact List.mem_append_left _ (List.mem_map_of_mem listed))
  have grown : ∀ i ∈ sorted mode tuples contexts, ((ofReport mode tuples contexts).objects i).calls ≤ (last.objects i).calls := by
    intro i listed
    rw [own i listed]
    exact calls_le_group nonneg (List.mem_append_left contexts (list_inside listed).2)
  have more : ((ofReport mode tuples contexts).objects b).calls < (last.objects b).calls := by
    rw [own b inside,List.filter_append,List.map_append,List.sum_append]
    have first := @calls_le_group tuples (fun i held => nonneg i (List.mem_append_left contexts held)) _ (list_inside inside).2
    have second := @calls_le_group contexts (fun i held => nonneg i (List.mem_append_right tuples held)) _ member
    have positive := called context (List.mem_append_right tuples member)
    rw [equal] at second
    omega
  have less := List.sum_lt_sum (Input.calls ∘ (ofReport mode tuples contexts).objects) (Input.calls ∘ last.objects) grown
    ⟨b,inside,more⟩
  have before : (tuples.map Input.calls).sum =
      ((sorted mode tuples contexts).map (Input.calls ∘ (ofReport mode tuples contexts).objects)).sum := by
    conv_lhs => rw [← map_range mode tuples contexts,List.map_map]
    exact ((sorted_perm mode tuples contexts).map _).sum_eq.symm
  -- both totals are longs
  have total : ((finish mode tuples contexts last).tuples.map Input.calls).sum ≤ ((tuples ++ contexts).map Input.calls).sum := by
    rw [List.map_congr_left groups]
    have bound := sum_groups_le nonneg complete.distinct
    rw [List.map_map] at bound
    exact bound
  have news : 0 ≤ ((last.newTuples.map last.objects).map Input.calls).sum := by
    refine sum_calls_nonneg fun tuple held => ?_
    rw [groups tuple (by rw [whole]; exact List.mem_append_right _ held)]
    exact sum_calls_nonneg fun i inner => nonneg i (List.mem_filter.mp inner).1
  have old : 0 ≤ (tuples.map Input.calls).sum :=
    sum_calls_nonneg fun i held => nonneg i (List.mem_append_left contexts held)
  obtain ⟨added,order,recomputed⟩ := complete.statistics
  have totals := congrArg Statistics.totalCalls recomputed
  rw [statistics,(Routine.ofInputs_tracks .java mode _).totalCalls,(Routine.ofInputs_tracks .java mode _).totalCalls,
    (order.map Input.calls).sum_eq] at totals
  rw [whole] at totals total
  simp only [List.map_append,List.sum_append,List.map_map] at totals total news fits old before less
  rw [(Numbers.java_eq_iff _).mpr,(Numbers.java_eq_iff _).mpr] at totals
  · omega
  · unfold FitsLong at fits ⊢
    omega
  · unfold FitsLong at fits ⊢
    omega

end

end ContextualizedRoutineInfo

section
variable {mode : CostType} {tuples contexts news : List Input}

theorem filter_alone (distinct : (tuples.map Input.size).Nodup) {tuple : Input} (member : tuple ∈ tuples) :
    tuples.filter (fun i => i.size = tuple.size) = [tuple] := by
  induction tuples with
  | nil => cases member
  | cons first rest ih =>
    rw [List.map_cons,List.nodup_cons] at distinct
    obtain ⟨apart,distinct⟩ := distinct
    rcases List.mem_cons.mp member with rfl | later
    · rw [List.filter_cons,if_pos (decide_eq_true rfl),List.filter_eq_nil_iff.mpr]
      intro i inside equal
      exact apart (List.mem_map.mpr ⟨i,inside,of_decide_eq_true equal⟩)
    · have other : first.size ≠ tuple.size := fun same => apart (same ▸ List.mem_map_of_mem later)
      rw [List.filter_cons,if_neg fun same => other (of_decide_eq_true same)]
      exact ih distinct later

theorem Groups.from_input (groups : Groups mode contexts news) {tuple : Input} (member : tuple ∈ news) :
    ∃ context ∈ contexts, context.size = tuple.size := by
  obtain ⟨first,rest,whole,-⟩ := groups.group tuple member
  have inside : first ∈ contexts.filter fun i => i.size = tuple.size := by rw [whole]; exact List.mem_cons_self
  obtain ⟨known,equal⟩ := List.mem_filter.mp inside
  exact ⟨first,known,of_decide_eq_true equal⟩

theorem Groups.aggregates_iff (groups : Groups mode contexts news) {tuple : Input} (member : tuple ∈ news) :
    Aggregates (contexts.filter fun i => i.size = tuple.size) tuple ↔
      MergesExactly mode (contexts.filter fun i => i.size = tuple.size) := by
  obtain ⟨first,rest,whole,value⟩ := groups.group tuple member
  have sizes : ∀ i ∈ first :: rest, i.size = tuple.size := by
    rw [← whole]
    exact fun i inside => of_decide_eq_true (List.mem_filter.mp inside).2
  have equal : ∀ te ∈ rest, te.size = first.size :=
    fun te inside => (sizes te (List.mem_cons_of_mem first inside)).trans (sizes first List.mem_cons_self).symm
  rw [whole,← mergesExactly_iff equal,← value]

theorem complete_iff (ordered : ∀ context ∈ contexts, ∀ tuple ∈ tuples, tuple.size < context.size)
    (groups : Groups mode contexts news) {merged : ContextualizedRoutineInfo} (whole : merged.tuples.Perm (tuples ++ news))
    (statistics : merged.statistics = (Routine.ofInputs .java mode (tuples ++ news)).statistics)
    (unchanged : ∀ i (inside : i < contexts.length), merged.objects (tuples.length + i) = contexts[i]) :
    Complete mode tuples contexts merged ↔
      (tuples.map Input.size).Nodup ∧ ∀ size, MergesExactly mode (contexts.filter fun i => i.size = size) := by
  have sizes := whole.map Input.size
  rw [List.map_append] at sizes
  have newSizes : ∀ size, size ∈ news.map Input.size ↔ size ∈ contexts.map Input.size := by
    intro size
    constructor
    · intro member
      obtain ⟨tuple,inside,rfl⟩ := List.mem_map.mp member
      exact List.mem_map.mpr (groups.from_input inside)
    · intro member
      obtain ⟨i,inside,rfl⟩ := List.mem_map.mp member
      exact List.mem_map.mpr (groups.covered i inside)
  have larger : ∀ {context : Input}, context ∈ contexts → tuples.filter (fun i => i.size = context.size) = [] := by
    intro context known
    apply List.filter_eq_nil_iff.mpr
    exact fun tuple member equal => (ordered context known tuple member).ne (of_decide_eq_true equal)
  constructor
  · intro complete
    refine ⟨(List.nodup_append.mp (sizes.nodup_iff.mp complete.distinct)).1,fun size => ?_⟩
    cases group : contexts.filter fun i => i.size = size with
    | nil => exact trivial
    | cons first rest =>
      have inside : first ∈ contexts.filter fun i => i.size = size := by rw [group]; exact List.mem_cons_self
      obtain ⟨known,equal⟩ := List.mem_filter.mp inside
      obtain ⟨tuple,member,same⟩ := groups.covered first known
      have total : tuple.size = size := same.trans (of_decide_eq_true equal)
      have aggregated := complete.aggregated tuple (whole.mem_iff.mpr (List.mem_append_right tuples member))
      rw [List.filter_append,same,larger known,List.nil_append,← same,groups.aggregates_iff member,total,group] at aggregated
      exact aggregated
  · rintro ⟨distinct,exactly⟩
    refine ⟨?_,fun size => ?_,fun tuple member => ?_,?_,unchanged⟩
    · rw [sizes.nodup_iff,List.nodup_append]
      refine ⟨distinct,List.pairwise_map.mpr (groups.increasing.imp ne_of_lt),fun size old other new same => ?_⟩
      obtain ⟨tuple,member,rfl⟩ := List.mem_map.mp old
      obtain ⟨context,known,equal⟩ := List.mem_map.mp ((newSizes other).mp new)
      exact (ordered context known tuple member).ne (same.trans equal.symm)
    · rw [sizes.mem_iff,List.map_append,List.mem_append,List.mem_append,newSizes]
    · rw [List.filter_append]
      rcases List.mem_append.mp (whole.mem_iff.mp member) with old | new
      · have none : contexts.filter (fun i => i.size = tuple.size) = [] := by
          apply List.filter_eq_nil_iff.mpr
          exact fun context known equal => (ordered context known tuple old).ne' (of_decide_eq_true equal)
        rw [filter_alone distinct old,none]
        exact .single tuple
      · obtain ⟨context,known,equal⟩ := groups.from_input new
        have none := larger known
        rw [equal] at none
        rw [none,List.nil_append]
        exact (groups.aggregates_iff new).mpr (exactly tuple.size)
    · exact ⟨_,whole.symm,statistics⟩

end

theorem ContextualizedRoutineInfo.merge_unique {mode : CostType} {tuples contexts : List Input} {fuel other : Nat}
    {first second : ContextualizedRoutineInfo}
    (ended : mergeInputTupleLazyList mode fuel (ofReport mode tuples contexts) = some first)
    (also : mergeInputTupleLazyList mode other (ofReport mode tuples contexts) = some second) : first = second := by
  by_cases empty : contexts = []
  · subst empty
    rw [merge_empty] at ended also
    exact (Option.some.inj ended).symm.trans (Option.some.inj also)
  · rw [merge_eq _ empty] at ended also
    obtain ⟨last,ran,rfl⟩ := Option.map_eq_some_iff.mp ended
    obtain ⟨last',ran',rfl⟩ := Option.map_eq_some_iff.mp also
    rw [Loop.run_unique ran ran']

/-- The merge of the contexts' tuples ends with one aggregated tuple per size and matching
statistics when no two tuples of the routine have one size, all tuples of the contexts are
larger and those of one size merge exactly; as long as all calls together are a long, not
otherwise. -/
theorem lazy_merge_complete_iff (mode : CostType) (tuples contexts : List Input) :
    ((tuples.map Input.size).Nodup ∧ (∀ context ∈ contexts, ∀ tuple ∈ tuples, tuple.size < context.size) ∧
        (∀ size, MergesExactly mode (contexts.filter fun i => i.size = size)) →
      ∃ fuel merged, ContextualizedRoutineInfo.mergeInputTupleLazyList mode fuel (.ofReport mode tuples contexts) =
        some merged ∧ Complete mode tuples contexts merged) ∧
    ((∀ i ∈ tuples ++ contexts, 0 < i.calls) → FitsLong ((tuples ++ contexts).map Input.calls).sum →
      (∃ fuel merged, ContextualizedRoutineInfo.mergeInputTupleLazyList mode fuel (.ofReport mode tuples contexts) =
        some merged ∧ Complete mode tuples contexts merged) →
      (tuples.map Input.size).Nodup ∧ (∀ context ∈ contexts, ∀ tuple ∈ tuples, tuple.size < context.size) ∧
        ∀ size, MergesExactly mode (contexts.filter fun i => i.size = size)) := by
  constructor
  · rintro ⟨distinct,ordered,exactly⟩
    obtain ⟨fuel,merged,news,ended,groups,whole,statistics,unchanged⟩ :=
      @ContextualizedRoutineInfo.merge_ordered mode tuples contexts ordered
    exact ⟨fuel,merged,ended,(complete_iff ordered groups whole statistics unchanged).mpr ⟨distinct,exactly⟩⟩
  · rintro called fits ⟨fuel,merged,ended,complete⟩
    have ordered : ∀ context ∈ contexts, ∀ tuple ∈ tuples, tuple.size < context.size := by
      intro context member tuple known
      refine not_le.mp fun reaches => ?_
      exact ContextualizedRoutineInfo.unordered_fails called fits ⟨context,member,tuple,known,reaches⟩ ended complete
    obtain ⟨other,result,news,also,groups,whole,statistics,unchanged⟩ :=
      @ContextualizedRoutineInfo.merge_ordered mode tuples contexts ordered
    have same := ContextualizedRoutineInfo.merge_unique ended also
    subst same
    obtain ⟨distinct,exactly⟩ := (complete_iff ordered groups whole statistics unchanged).mp complete
    exact ⟨distinct,ordered,exactly⟩

private theorem exactly_of_sizes {mode : CostType} {contexts : List Input} {sizes : List Int}
    (known : ∀ i ∈ contexts, i.size ∈ sizes)
    (exactly : ∀ size ∈ sizes, MergesExactly mode (contexts.filter fun i => i.size = size)) (size : Int) :
    MergesExactly mode (contexts.filter fun i => i.size = size) := by
  by_cases own : size ∈ sizes
  · exact exactly size own
  · rw [List.filter_eq_nil_iff.mpr]
    · exact trivial
    · intro i member same
      rw [← of_decide_eq_true same] at own
      exact own (known i member)

/-- Two tuples of size 2 and one of size 3; with a tuple of size 2 in the routine the merge fails. -/
theorem lazy_merge_complete_iff_larger :
    (∃ fuel merged, ContextualizedRoutineInfo.mergeInputTupleLazyList .cumulative fuel
      (.ofReport .cumulative [unitInput] [{ unitInput with size := 2 },{ unitInput with size := 2, sqrSelfCost := 0 },
        { unitInput with size := 3 }]) = some merged ∧
      Complete .cumulative [unitInput] [{ unitInput with size := 2 },{ unitInput with size := 2, sqrSelfCost := 0 },
        { unitInput with size := 3 }] merged) ∧
    ¬∃ fuel merged, ContextualizedRoutineInfo.mergeInputTupleLazyList .cumulative fuel
      (.ofReport .cumulative [unitInput,{ unitInput with size := 2 }] [{ unitInput with size := 2 }]) = some merged ∧
      Complete .cumulative [unitInput,{ unitInput with size := 2 }] [{ unitInput with size := 2 }] merged := by
  constructor
  · refine (lazy_merge_complete_iff .cumulative _ _).1 ⟨by decide,by decide,@exactly_of_sizes _ _ [2,3] (by decide) ?_⟩
    intro size member
    rw [List.mem_cons,List.mem_singleton] at member
    rcases member with rfl | rfl
    · exact ⟨by decide +kernel,by decide +kernel,.inr (by decide),by decide +kernel,by decide +kernel⟩
    · exact ⟨by decide +kernel,by decide +kernel,.inl rfl,by decide +kernel,by decide +kernel⟩
  · intro complete
    obtain ⟨-,larger,-⟩ := (lazy_merge_complete_iff .cumulative _ _).2 (by decide) (by decide) complete
    exact absurd (larger { unitInput with size := 2 } (by decide) { unitInput with size := 2 } (by decide)) (by decide)

/-- A context's tuple that is smaller than the routine's: the loop never ends. -/
theorem lazy_merge_diverges : ¬∃ fuel merged, ContextualizedRoutineInfo.mergeInputTupleLazyList .cumulative fuel
    (.ofReport .cumulative [{ unitInput with size := 2 }] [unitInput]) = some merged := by
  rintro ⟨fuel,merged,ended⟩
  rw [ContextualizedRoutineInfo.merge_eq fuel (List.cons_ne_nil _ [])] at ended
  obtain ⟨b,rest,inside,-,sought⟩ := @ContextualizedRoutineInfo.first_turn .cumulative [{ unitInput with size := 2 }]
    [unitInput] 1 [] rfl ⟨0,by decide +kernel,by decide⟩
  have zero : b = 0 := List.mem_singleton.mp inside
  subst zero
  rw [ContextualizedRoutineInfo.start_stuck rfl sought (by decide) fuel] at ended
  cases ended

end Aprof.Plot
