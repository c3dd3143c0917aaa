import Aprof.Costs
import Aprof.Routines

/-! The total that `generate_report` prints for a thread, and the costs of the
routines in the same report. The outermost calls of a routine do not overlap, so
their costs fit in the time of the thread. -/
namespace Aprof

/-- The cost of `generate_report` for a report of the thread alone. -/
def reportCost (tdata : ThreadData) : UInt64 := time tdata - tdata.skipCost

/-- The sum of `sum_cumul_real_cost` over the tuples of a routine. -/
def realCost (inputMap : HashTable (Input UInt64)) : Nat :=
  (inputMap.nodes.map fun tuple => tuple.sumCumulRealCost.toNat).sum

section
variable {cfg : Config} {tdata after : ThreadData} {log : ThreadLog}

/-- Every pending activation has its routine in the table. -/
structure RoutineTable (tdata : ThreadData) : Prop where
  keyed : tdata.rtnHt.Keyed
  registered : ∀ i, i < tdata.stackDepth → (htFind tdata.rtnHt (tdata.stack i).routineInfo fun _ => true).isSome = true

theorem enterContext_routines (tdata : ThreadData) : (enterContext tdata).rtnHt = tdata.rtnHt := by
  unfold enterContext
  dsimp only
  split <;> rfl

theorem enterRecorded_rtnHt (cfg : Config) (tdata : ThreadData) : (enterRecorded cfg tdata).rtnHt =
    (tdata.setRecursion tdata.top.routineInfo (· + 1)).rtnHt := by
  unfold enterRecorded
  dsimp only
  split
  · rw [enterContext_routines]
    rfl
  · rfl

theorem enterRecorded_routine (cfg : Config) (keyed : tdata.rtnHt.Keyed)
    (known : (htFind tdata.rtnHt tdata.top.routineInfo fun _ => true).isSome = true) :
    RoutinesKept tdata (enterRecorded cfg tdata) ∧ ∀ g, (enterRecorded cfg tdata).routine g =
      if g = tdata.top.routineInfo then
        {tdata.routine tdata.top.routineInfo with
          recursionPending := (tdata.routine tdata.top.routineInfo).recursionPending + 1}
      else tdata.routine g := by
  have same := enterRecorded_rtnHt cfg tdata
  have pending : RoutinesKept tdata (tdata.setRecursion tdata.top.routineInfo (· + 1)) :=
    routinesKept_setRoutine _ _ _ _ fun _ => rfl
  refine ⟨pending.trans (.same same),fun g => ?_⟩
  rw [← routine_setRecursion keyed known (· + 1) g]
  simp only [ThreadData.routine,same]

/-- The parts of a routine that its costs are kept in. -/
structure SameCosts (first second : RoutineInfo) : Prop where
  pending : second.recursionPending = first.recursionPending
  inputMap : second.inputMap = first.inputMap

/-- The parts of the routines that the tuples depend on; with a single report the
maps are kept elsewhere. -/
structure SameTables (cfg : Config) (tdata after : ThreadData) : Prop where
  pending : ∀ g, (after.routine g).recursionPending = (tdata.routine g).recursionPending
  inputMap : cfg.singleReport = false → ∀ g, (after.routine g).inputMap = (tdata.routine g).inputMap

theorem pushFrame_tables (keyed : tdata.rtnHt.Keyed) {pushed : ThreadData} {sp : UInt64} {f : FnPtr}
    (ok : pushFrame cfg tdata sp f = .ok pushed) : SameTables cfg tdata pushed := by
  obtain ⟨grown,fits,ok⟩ := bind_ok.mp ok
  obtain ⟨size,rfl,-⟩ := getActivation_ok fits
  cases found : htFind tdata.rtnHt f fun _ => true with
  | some rtnInfo =>
    simp only [found] at ok
    cases ok
    exact ⟨fun _ => rfl,fun _ _ => rfl⟩
  | none =>
    simp only [found] at ok
    cases ok
    have absent := htFind_absent found
    have added : ∃ rtnInfo : RoutineInfo, rtnInfo.key = f ∧ rtnInfo.recursionPending = 0 ∧
        (cfg.singleReport = false → rtnInfo.inputMap = htConstruct) ∧ (newRoutineInfo cfg
        {tdata with stackDepth := tdata.stackDepth + 1, maxStackSize := size} f).rtnHt = htAddNode tdata.rtnHt rtnInfo := by
      unfold newRoutineInfo
      split
      · exact ⟨⟨f,0,f,0,htConstruct⟩,rfl,rfl,fun _ => rfl,rfl⟩
      · split
        · next single => exact ⟨⟨f,(cfg.fn f).functionId,f,0,(cfg.fn f).inputMap⟩,rfl,rfl,
            fun separate => absurd (single.symm.trans separate) nofun,rfl⟩
        · exact ⟨⟨f,tdata.nextRoutineId,f,0,htConstruct⟩,rfl,rfl,fun _ => rfl,rfl⟩
    obtain ⟨rtnInfo,rfl,none,empty,table⟩ := added
    have routine : ∀ g, (newRoutineInfo cfg {tdata with stackDepth := tdata.stackDepth + 1, maxStackSize := size}
        rtnInfo.key).routine g = if g = rtnInfo.key then rtnInfo else tdata.routine g := by
      intro g
      have look := @htAddNode_project _ _ _ _ keyed rtnInfo absent id g
      simp only [Option.map_id,id_eq] at look
      rw [ThreadData.routine,table,look]
      have key : HashNode.key rtnInfo = rtnInfo.key := rfl
      rw [key]
      split <;> rfl
    have missing : tdata.routine rtnInfo.key = emptyRoutine := by
      rw [ThreadData.routine,found]
      rfl
    refine ⟨fun g => ?_,fun separate g => ?_⟩
    · change ((newRoutineInfo cfg _ _).routine g).recursionPending = _
      rw [routine]
      split
      · next own => rw [own,missing,none,emptyRoutine]
      · rfl
    · change ((newRoutineInfo cfg _ _).routine g).inputMap = _
      rw [routine]
      split
      · next own => rw [own,missing,empty separate,emptyRoutine]
      · rfl

theorem functionExit_routine (table : RoutineTable tdata) (nonempty : 0 < tdata.stackDepth) (g : FnPtr) :
    (functionExit cfg tdata).routine g = if tdata.skip = 0 ∧ g = tdata.top.routineInfo then
        exitRoutine cfg {tdata with cost := exitTicks cfg tdata} (tdata.routine tdata.top.routineInfo)
      else tdata.routine g := by
  have look : ∀ {first second : ThreadData}, first.rtnHt = second.rtnHt → first.routine g = second.routine g := by
    intro first second same
    simp only [ThreadData.routine,same]
  unfold functionExit
  dsimp only
  rw [dope_eq]
  split
  · next skipping =>
    rw [if_neg fun both => Nat.pos_iff_ne_zero.mp skipping both.1]
    unfold exitSkipped
    split <;> rfl
  · next recorded =>
    have exited : ∀ base : ThreadData, (exitRecorded cfg base).rtnHt = (recordExit cfg base).rtnHt := by
      intro base
      unfold exitRecorded
      split <;> rfl
    have known := table.registered (tdata.stackDepth - 1) (by omega)
    rw [look (exited _),@recordExit_routine cfg {tdata with cost := exitTicks cfg tdata} table.keyed known g]
    have free : tdata.skip = 0 := Nat.eq_zero_of_not_pos recorded
    by_cases same : g = tdata.top.routineInfo
    · exact (if_pos same).trans (if_pos ⟨free,same⟩).symm
    · exact (if_neg same).trans (if_neg fun both => same both.2).symm

theorem attach_table (cfg : Config) (table : RoutineTable tdata) (nonempty : 0 < tdata.stackDepth) (shared : Shared) :
    RoutineTable (attach cfg shared tdata) ∧ ∀ g, (attach cfg shared tdata).routine g =
      if cfg.singleReport = true ∧ g = tdata.top.routineInfo then
        {tdata.routine tdata.top.routineInfo with inputMap := shared.inputMaps tdata.top.routineInfo}
      else tdata.routine g := by
  unfold attach
  split
  · next single =>
    have known : (htFind tdata.rtnHt tdata.top.routineInfo fun _ => true).isSome = true :=
      table.registered (tdata.stackDepth - 1) (by omega)
    obtain ⟨keyed,others⟩ := setInputMap_known table.keyed tdata.top.routineInfo
      fun _ => shared.inputMaps tdata.top.routineInfo
    refine ⟨⟨keyed,fun i below => (others _).trans (table.registered i below)⟩,fun g => ?_⟩
    refine (routine_setInputMap table.keyed known (fun _ => shared.inputMaps tdata.top.routineInfo) g).trans ?_
    by_cases own : g = tdata.top.routineInfo
    · rw [if_pos own,if_pos ⟨single,own⟩]
    · rw [if_neg own,if_neg fun both => own both.2]
  · next separate =>
    exact ⟨table,fun g => (if_neg fun both => separate both.1).symm⟩

theorem popShared_inputMaps (cfg : Config) (shared : Shared) (tdata : ThreadData) : (popShared cfg shared tdata).1.inputMaps =
    if cfg.singleReport = true then Function.update shared.inputMaps tdata.top.routineInfo
      ((functionExit cfg (attach cfg shared tdata)).routine tdata.top.routineInfo).inputMap
    else shared.inputMaps := by
  unfold popShared exitShared attach
  by_cases single : cfg.singleReport = true
  · simp only [if_pos single]
  · simp only [if_neg single]

theorem popShared_look (cfg : Config) (shared : Shared) (tdata : ThreadData) (g : FnPtr) :
    (popShared cfg shared tdata).2.routine g = (functionExit cfg (attach cfg shared tdata)).routine g := by
  have table : (popShared cfg shared tdata).2.rtnHt = (functionExit cfg (attach cfg shared tdata)).rtnHt := by
    unfold popShared
    dsimp only
    rw [exitShared_eq]
  simp only [ThreadData.routine,table]

/-- What a return does to the routines; with a single report it finds the shared tuples
of its function. -/
theorem popShared_found (table : RoutineTable tdata) (shared : Shared) (nonempty : 0 < tdata.stackDepth) (g : FnPtr) :
    (popShared cfg shared tdata).2.routine g = if tdata.skip = 0 ∧ g = tdata.top.routineInfo then
        exitRoutine cfg {attach cfg shared tdata with cost := exitTicks cfg tdata}
          ((attach cfg shared tdata).routine tdata.top.routineInfo)
      else (attach cfg shared tdata).routine g := by
  have attached := (attach_table cfg table nonempty shared).1
  rw [popShared_look]
  obtain ⟨loaded,root,same⟩ := attach_eq cfg shared tdata
  have height : (attach cfg shared tdata).stackDepth = tdata.stackDepth := by rw [same]
  rw [functionExit_routine attached (height ▸ nonempty) g]
  rw [same]
  rfl

theorem popShared_routine (separate : cfg.singleReport = false) (table : RoutineTable tdata) (shared : Shared)
    (nonempty : 0 < tdata.stackDepth) (g : FnPtr) : (popShared cfg shared tdata).2.routine g =
      if tdata.skip = 0 ∧ g = tdata.top.routineInfo then
        exitRoutine cfg {tdata with cost := exitTicks cfg tdata} (tdata.routine tdata.top.routineInfo)
      else tdata.routine g := by
  have own : attach cfg shared tdata = tdata := if_neg (by simp [separate])
  rw [popShared_found table shared nonempty g,own]

theorem RoutineTable.kept (table : RoutineTable tdata) (kept : RoutinesKept tdata after)
    (depth : after.stackDepth ≤ tdata.stackDepth)
    (routines : ∀ i, i < after.stackDepth → (after.stack i).routineInfo = (tdata.stack i).routineInfo) :
    RoutineTable after := by
  obtain ⟨keyed,same⟩ := kept table.keyed
  refine ⟨keyed,fun i below => ?_⟩
  have known := table.registered i (by omega)
  have stays := congrArg Option.isSome (same (tdata.stack i).routineInfo)
  rw [Option.isSome_map,Option.isSome_map,known] at stays
  rw [routines i below]
  exact stays

theorem RoutineTable.push (table : RoutineTable tdata) {pushed : ThreadData} {sp : UInt64} {f : FnPtr}
    (push : pushFrame cfg tdata sp f = .ok pushed) : RoutineTable (enterStart pushed) := by
  obtain ⟨keyed,found,others⟩ := pushFrame_routines table.keyed push
  have opened := pushFrame_opened push
  have top := pushFrame_routine push
  refine ⟨keyed,fun i below => ?_⟩
  rw [opened.more.depth] at below
  rcases Nat.lt_succ_iff_lt_or_eq.mp below with lower | rfl
  · have known := table.registered i lower
    have stays := congrArg Option.isSome (others _ known)
    rw [Option.isSome_map,Option.isSome_map,known] at stays
    rw [opened.more.below i lower]
    exact stays
  · rw [ThreadData.top,opened.more.depth,Nat.add_sub_cancel] at top
    rw [top]
    exact found

/-- What a call does to the routines: one more call of a recorded function is pending. -/
structure RoutinesEntered (cfg : Config) (tdata after : ThreadData) (f : FnPtr) : Prop where
  called : (after.stack tdata.stackDepth).routineInfo = f
  table : RoutineTable after
  inputMap : ∀ g, (after.routine g).inputMap = (tdata.routine g).inputMap
  pending : ∀ g, (after.routine g).recursionPending = (tdata.routine g).recursionPending +
    if after.skip = 0 ∧ g = f then 1 else 0

theorem enterShared_routines (cfg : Config) (shared : Shared) (tdata : ThreadData) :
    (enterShared cfg shared tdata).2.rtnHt = (enterRecorded cfg tdata).rtnHt := by
  rw [enterRecorded_rtnHt]
  unfold enterShared
  split
  · exact enterRecorded_rtnHt _ _
  · exact enterRecorded_rtnHt _ _

theorem functionEnter_tables (table : RoutineTable tdata) (shared : Shared) {pushed : ThreadData} {sp : UInt64}
    {f : FnPtr} (push : pushFrame cfg tdata sp f = .ok pushed) :
    let after := (Levels.functionEnter cfg shared pushed).2
    (after.stack tdata.stackDepth).routineInfo = f ∧ RoutineTable after ∧
      (cfg.singleReport = false → ∀ g, (after.routine g).inputMap = (tdata.routine g).inputMap) ∧
      ∀ g, (after.routine g).recursionPending = (tdata.routine g).recursionPending +
        if after.skip = 0 ∧ g = f then 1 else 0 := by
  have costs := pushFrame_tables table.keyed push
  have called : (enterStart pushed).top.routineInfo = f := pushFrame_routine push
  have table' := table.push push
  have height := (pushFrame_opened push).more.depth
  have top : ((enterStart pushed).stack tdata.stackDepth).routineInfo = f := by
    rwa [ThreadData.top,height,Nat.add_sub_cancel] at called
  unfold Levels.functionEnter
  dsimp only
  rw [called]
  by_cases skipped : (cfg.fn f).skip = true
  · rw [if_pos skipped]
    refine ⟨top,⟨table'.keyed,table'.registered⟩,fun separate g => costs.inputMap separate g,fun g => ?_⟩
    rw [if_neg (show ¬ ((enterStart pushed).skip + 1 = 0 ∧ g = f) by omega)]
    exact costs.pending g
  · rw [if_neg skipped]
    by_cases skipping : (enterStart pushed).skip > 0
    · rw [if_pos skipping]
      refine ⟨top,table',fun separate g => costs.inputMap separate g,fun g => ?_⟩
      rw [if_neg (show ¬ ((enterStart pushed).skip = 0 ∧ g = f) by omega)]
      exact costs.pending g
    · rw [if_neg skipping]
      have known := table'.registered ((enterStart pushed).stackDepth - 1) (by omega)
      obtain ⟨kept,routine⟩ := enterRecorded_routine cfg table'.keyed known
      have same := enterShared_routines cfg shared (enterStart pushed)
      have look : ∀ g, (enterShared cfg shared (enterStart pushed)).2.routine g =
          (enterRecorded cfg (enterStart pushed)).routine g := by
        intro g
        simp only [ThreadData.routine,same]
      have frames := enterShared_frames cfg shared (enterStart pushed)
      have free : (enterShared cfg shared (enterStart pushed)).2.skip = 0 :=
        frames.skip.trans (Nat.eq_zero_of_not_pos skipping)
      refine ⟨(frames.routines _).trans top,?_,?_,?_⟩
      · exact table'.kept (kept.trans (.same same)) (Nat.le_of_eq frames.depth) fun i _ => frames.routines i
      · intro separate g
        rw [look,routine g,called]
        split
        · next equal =>
          rw [equal]
          exact costs.inputMap separate f
        · exact costs.inputMap separate g
      · intro g
        rw [look,routine g,called]
        by_cases equal : g = f
        · rw [if_pos equal,if_pos ⟨free,equal⟩,equal]
          exact congrArg (· + 1) (costs.pending f)
        · rw [if_neg equal,if_neg fun both => equal both.2]
          exact costs.pending g

theorem functionEnter_routines (separate : cfg.singleReport = false) (table : RoutineTable tdata) (shared : Shared)
    {pushed : ThreadData} {sp : UInt64} {f : FnPtr} (push : pushFrame cfg tdata sp f = .ok pushed) :
    RoutinesEntered cfg tdata (Levels.functionEnter cfg shared pushed).2 f := by
  obtain ⟨called,table,inputMap,pending⟩ := functionEnter_tables table shared push
  exact ⟨called,table,inputMap separate,pending⟩

theorem realCost_accumulate (act : Activation) (cumul self : UInt64) (outermost : Bool) (tuple : Input UInt64) :
    (accumulate act cumul self outermost tuple).sumCumulRealCost.toNat ≤
      tuple.sumCumulRealCost.toNat + if outermost then cumul.toNat else 0 := by
  cases outermost with
  | false => exact Nat.le_add_right _ _
  | true =>
    change (tuple.sumCumulRealCost + cumul).toNat ≤ _
    rw [UInt64.toNat_add]
    exact Nat.mod_le _ _

theorem realCost_record (cfg : Config) (act : Activation) (context : UInt32) (cumul self : UInt64) (outermost : Bool)
    (inputMap : HashTable (Input UInt64)) : realCost (recordTuple cfg act context cumul self outermost inputMap) ≤
      realCost inputMap + if outermost then cumul.toNat else 0 := by
  unfold recordTuple
  dsimp only
  split
  · unfold realCost
    rw [((htAddNode_perm _ _).map _).sum_eq,List.map_cons,List.sum_cons]
    have first := realCost_accumulate act cumul self outermost (newTuple
      (if cfg.collectCCT then (hash act.inputSize context).toUInt64 else act.inputSize.toUInt64)
      act.inputSize.toUInt64 (if cfg.collectCCT then context.toUInt64 else 0))
    have zero : ∀ key size context, (newTuple key size context).sumCumulRealCost.toNat = 0 := fun _ _ _ => rfl
    rw [zero] at first
    omega
  · next tuple found =>
    obtain ⟨before,after,split,changed⟩ :=
      @htUpdate_split _ _ _ _ _ (accumulate act cumul self outermost) (fun _ => rfl) _ found
    have more := realCost_accumulate act cumul self outermost tuple
    unfold realCost
    rw [split,changed]
    simp only [List.map_append,List.map_cons,List.sum_append,List.sum_cons]
    omega

/-- The pending calls of a function among the lowest `n`. -/
def pendingCalls (tdata : ThreadData) (f : FnPtr) (n : Nat) : Nat :=
  Nat.count (fun i => ((tdata.stack i).routineInfo == f) = true) n

theorem pendingCalls_congr {f : FnPtr} {n : Nat}
    (same : ∀ i, i < n → (after.stack i).routineInfo = (tdata.stack i).routineInfo) :
    pendingCalls after f n = pendingCalls tdata f n :=
  Floor.count_congr fun i below => by rw [same i below]

theorem pendingCalls_succ (tdata : ThreadData) (f : FnPtr) (n : Nat) :
    pendingCalls tdata f (n + 1) = pendingCalls tdata f n + if (tdata.stack n).routineInfo = f then 1 else 0 := by
  rw [pendingCalls,Nat.count_succ,← pendingCalls]
  simp only [beq_iff_eq]

theorem pendingCalls_none {f : FnPtr} {n : Nat} (none : pendingCalls tdata f n = 0) {i : Nat} (below : i < n) :
    (tdata.stack i).routineInfo ≠ f := by
  intro called
  have upTo : pendingCalls tdata f (i + 1) ≤ pendingCalls tdata f n := Nat.count_monotone _ below
  rw [pendingCalls_succ,if_pos called] at upTo
  omega

/-- The outermost pending call of a routine began after all that is recorded of
the routine, and that is no more than the time of the thread. -/
structure RealCosts (cfg : Config) (tdata : ThreadData) (now : Nat) : Prop where
  table : RoutineTable tdata
  pending : ∀ f, (tdata.routine f).recursionPending = pendingCalls tdata f (recordedDepth cfg tdata)
  before : ∀ i, i < recordedDepth cfg tdata →
    realCost (tdata.routine (tdata.stack i).routineInfo).inputMap ≤ starts tdata i
  total : ∀ f, realCost (tdata.routine f).inputMap ≤ now

theorem newThread_routine (cfg : Config) (tid : Nat) (shadow : LookupTable Nat) (f : FnPtr) :
    (newThread cfg tid shadow).routine f = emptyRoutine := by
  have none : htFind (newThread cfg tid shadow).rtnHt f (fun _ => true) = none := by
    cases found : htFind (newThread cfg tid shadow).rtnHt f fun _ => true with
    | none => rfl
    | some rtnInfo =>
      have member := (htFind_some found).1
      rw [show (newThread cfg tid shadow).rtnHt = htConstruct from rfl,htConstruct_nodes] at member
      cases member
  rw [ThreadData.routine,none]
  rfl

theorem realCost_empty : realCost emptyRoutine.inputMap = 0 := by
  unfold realCost
  rw [show emptyRoutine.inputMap = htConstruct from rfl,htConstruct_nodes]
  rfl

theorem RealCosts.fresh (tid : Nat) (shadow : LookupTable Nat) : RealCosts cfg (newThread cfg tid shadow) 0 := by
  have missing := newThread_routine cfg tid shadow
  have none : recordedDepth cfg (newThread cfg tid shadow) = 0 := rfl
  refine ⟨⟨htConstruct_keyed,nofun⟩,fun f => ?_,fun i below => ?_,fun f => ?_⟩
  · rw [missing,none]
    rfl
  · rw [none] at below
    exact absurd below (Nat.not_lt_zero i)
  · rw [missing,realCost_empty]

theorem RealCosts.still {now later : Nat} (costs : RealCosts cfg tdata now) (le : now ≤ later)
    (table : RoutineTable after) (recorded : recordedDepth cfg after = recordedDepth cfg tdata)
    (same : ∀ f, SameCosts (tdata.routine f) (after.routine f))
    (slots : ∀ i, i < recordedDepth cfg tdata →
      (after.stack i).routineInfo = (tdata.stack i).routineInfo ∧ (after.stack i).start = (tdata.stack i).start) :
    RealCosts cfg after later := by
  refine ⟨table,fun f => ?_,fun i below => ?_,fun f => ?_⟩
  · rw [(same f).pending,recorded,costs.pending f,pendingCalls_congr fun i below => (slots i below).1]
  · rw [recorded] at below
    obtain ⟨routine,start⟩ := slots i below
    rw [(same _).inputMap,routine,starts,start]
    exact costs.before i below
  · rw [(same f).inputMap]
    exact Nat.le_trans (costs.total f) le

theorem RealCosts.enter (costs : RealCosts cfg tdata (outsideTicks cfg log)) (clock : Clock cfg log tdata)
    (few : outsideTicks cfg log < 2 ^ 64) {f : FnPtr} (entered : CostsEntered cfg tdata after f)
    (routines : RoutinesEntered cfg tdata after f) :
    RealCosts cfg after (outsideTicks cfg log) := by
  have le := recordedDepth_le cfg tdata
  by_cases hidden : (cfg.fn f).skip = true ∨ 0 < tdata.skip
  · obtain ⟨pending,recorded⟩ := entered.hidden hidden
    refine costs.still (Nat.le_refl _) routines.table recorded (fun g => ⟨?_,routines.inputMap g⟩) fun i below => ?_
    · rw [routines.pending g,if_neg fun both => Nat.pos_iff_ne_zero.mp pending both.1]
      rfl
    · rw [entered.slots i (by omega)]
      exact ⟨rfl,rfl⟩
  · have plain : (cfg.fn f).skip = false := by
      by_contra skipped
      exact hidden (Or.inl (by simpa using skipped))
    have running : tdata.skip = 0 := Nat.eq_zero_of_not_pos fun pending => hidden (Or.inr pending)
    have running' := (entered.recorded plain running).1
    have all := clock.counted.recorded_iff.mp running
    have all' : recordedDepth cfg after = tdata.stackDepth + 1 :=
      (entered.counted.recorded_iff.mp running').trans entered.depth
    have now : starts after tdata.stackDepth = outsideTicks cfg log := by
      rw [starts,entered.start]
      exact toNat_ticks (clock.running running) few
    refine ⟨routines.table,fun g => ?_,fun i below => ?_,fun g => ?_⟩
    · have lower : pendingCalls after g tdata.stackDepth = pendingCalls tdata g tdata.stackDepth :=
        pendingCalls_congr fun i below => by rw [entered.slots i (Nat.ne_of_lt below)]
      rw [routines.pending g,costs.pending g,all,all',pendingCalls_succ,lower,routines.called]
      simp only [running',true_and,eq_comm]
    · rw [routines.inputMap]
      rw [all'] at below
      rcases Nat.lt_succ_iff_lt_or_eq.mp below with lower | rfl
      · rw [starts,entered.slots i (Nat.ne_of_lt lower)]
        exact costs.before i (by omega)
      · rw [now]
        exact costs.total _
    · rw [routines.inputMap]
      exact costs.total g

theorem realCost_exit (cfg : Config) (tdata : ThreadData) (rtnInfo : RoutineInfo) :
    realCost (exitRoutine cfg {tdata with cost := exitTicks cfg tdata} rtnInfo).inputMap ≤ realCost rtnInfo.inputMap +
      if rtnInfo.recursionPending - 1 < 1 then (exitCumul cfg tdata).toNat else 0 := by
  unfold exitRoutine
  split
  · exact Nat.le_add_right _ _
  · refine (realCost_record ..).trans (Nat.le_of_eq ?_)
    simp only [decide_eq_true_eq]
    rfl

theorem RealCosts.exitRecorded (separate : cfg.singleReport = false)
    (costs : RealCosts cfg tdata (outsideTicks cfg log)) (accounts : Accounts cfg log tdata) (clock : Clock cfg log tdata)
    (shared : Shared) (nonempty : 0 < tdata.stackDepth) (running : tdata.skip = 0)
    (few : outsideTicks cfg ((.exit,tdata) :: log) < 2 ^ 64) :
    RealCosts cfg (popShared cfg shared tdata).2 (outsideTicks cfg ((.exit,tdata) :: log)) := by
  obtain ⟨began,cumul⟩ := clock.exitCost accounts.nested nonempty running few
  have later : outsideTicks cfg log ≤ outsideTicks cfg ((.exit,tdata) :: log) := Nat.le_add_left _ _
  obtain ⟨n,height⟩ : ∃ n, tdata.stackDepth = n + 1 := ⟨tdata.stackDepth - 1,by omega⟩
  have all := clock.counted.recorded_iff.mp running
  have lower : recordedDepth cfg (popShared cfg shared tdata).2 = n := by
    rw [popShared_recordedDepth clock.counted shared nonempty,if_pos running,height,Nat.add_sub_cancel]
  have top : tdata.top = tdata.stack n := by rw [ThreadData.top,height,Nat.add_sub_cancel]
  have routine := popShared_routine separate costs.table shared nonempty
  have routines := popShared_routines cfg shared tdata
  have same : ∀ i, starts (popShared cfg shared tdata).2 i = starts tdata i := fun i =>
    congrArg UInt64.toNat (popShared_starts cfg shared tdata i)
  have pending := costs.pending tdata.top.routineInfo
  have top' := costs.before n (by omega)
  rw [all,height,pendingCalls_succ,top,if_pos rfl] at pending
  rw [height,Nat.add_sub_cancel] at cumul began
  have own := realCost_exit cfg tdata (tdata.routine tdata.top.routineInfo)
  rw [top,pending,Nat.add_sub_cancel,cumul] at own
  refine ⟨costs.table.kept (popShared_kept cfg shared tdata) (by rw [popShared_depth]; omega) fun i _ => routines i,
    fun g => ?_,fun i below => ?_,fun g => ?_⟩
  · have others := costs.pending g
    rw [all,height,pendingCalls_succ] at others
    rw [lower,pendingCalls_congr fun i _ => routines i,routine g,top]
    split
    · next returned =>
      rw [returned.2]
      unfold exitRoutine
      split <;> exact congrArg (· - 1) pending
    · next other =>
      rw [others,if_neg fun equal => other ⟨running,equal.symm⟩]
      rfl
  · rw [lower] at below
    have early := costs.before i (by omega)
    rw [same,routine,routines,top]
    split
    · next returned =>
      -- a call of the same function is pending below, so this one adds nothing
      have inner : pendingCalls tdata (tdata.stack n).routineInfo n ≠ 0 := fun none =>
        pendingCalls_none none below returned.2
      rw [if_neg (show ¬ pendingCalls tdata (tdata.stack n).routineInfo n < 1 by omega),Nat.add_zero] at own
      rw [returned.2] at early
      exact own.trans early
    · exact early
  · rw [routine g,top]
    split
    · refine own.trans ?_
      split
      · omega
      · have whole := costs.total (tdata.stack n).routineInfo
        omega
    · exact (costs.total g).trans later

theorem RealCosts.exit (separate : cfg.singleReport = false) (costs : RealCosts cfg tdata (outsideTicks cfg log))
    (accounts : Accounts cfg log tdata) (clock : Clock cfg log tdata) (shared : Shared)
    (nonempty : 0 < tdata.stackDepth) (few : outsideTicks cfg ((.exit,tdata) :: log) < 2 ^ 64) :
    RealCosts cfg (popShared cfg shared tdata).2 (outsideTicks cfg ((.exit,tdata) :: log)) := by
  rcases Nat.eq_zero_or_pos tdata.skip with running | stopped
  · exact costs.exitRecorded separate accounts clock shared nonempty running few
  · have depth := popShared_recordedDepth clock.counted shared nonempty
    rw [if_neg (Nat.pos_iff_ne_zero.mp stopped)] at depth
    have routines := popShared_routines cfg shared tdata
    refine costs.still (Nat.le_add_left _ _) (costs.table.kept (popShared_kept cfg shared tdata)
      (by rw [popShared_depth]; omega) fun i _ => routines i) depth (fun f => ?_)
      fun i _ => ⟨routines i,popShared_starts cfg shared tdata i⟩
    rw [popShared_routine separate costs.table shared nonempty f,
      if_neg fun both => Nat.pos_iff_ne_zero.mp stopped both.1]
    exact ⟨rfl,rfl⟩

theorem ThreadRun.realCosts (separate : cfg.singleReport = false) {entry : ThreadData → FnPtr → Prop} {tid : Nat}
    (life : ThreadRun cfg entry tid log tdata) (few : outsideTicks cfg log < 2 ^ 64) :
    RealCosts cfg tdata (outsideTicks cfg log) := by
  have before : ∀ (op : ThreadOp) (tdata : ThreadData) (log : ThreadLog),
      outsideTicks cfg log ≤ outsideTicks cfg ((op,tdata) :: log) := fun _ _ _ => Nat.le_add_left _ _
  induction life with
  | fresh shadow => exact .fresh tid shadow
  | @tick log tdata life ih =>
    have costs := ih (lt_of_le_of_lt (before _ _ _) few)
    exact costs.still (before _ _ _) ⟨costs.table.keyed,costs.table.registered⟩ rfl (fun _ => ⟨rfl,rfl⟩)
      fun _ _ => ⟨rfl,rfl⟩
  | @enter log tdata pushed life shared sp f permitted push ih =>
    have earlier := lt_of_le_of_lt (before _ _ _) few
    have costs := ih earlier
    have entered := functionEnter_costs life.clock.counted shared push
    have still : outsideTicks cfg ((.enter sp f,tdata) :: log) = outsideTicks cfg log := by
      rcases Nat.eq_zero_or_pos tdata.skip with running | stopped
      · rw [outside_running _ running,Aprof.ticks,Nat.zero_add]
      · exact outside_stopped _ stopped
    rw [still]
    exact costs.enter life.clock earlier entered (functionEnter_routines separate costs.table shared push)
  | @exit log tdata life shared nonempty ih =>
    have earlier := lt_of_le_of_lt (before _ _ _) few
    exact (ih earlier).exit separate (life.accounts earlier) life.clock shared nonempty few
  | @access log tdata after life same ih =>
    have fields := control_fields same
    have costs := ih few
    have slots : ∀ f, after.routine f = tdata.routine f := by
      intro f
      rw [ThreadData.routine,ThreadData.routine,fields.routines]
    refine costs.still (Nat.le_refl _) (costs.table.kept (.same fields.routines) (Nat.le_of_eq fields.depth)
      fun i _ => fields.routineInfo i) (fields.counted life.clock.counted).2 (fun f => ?_)
      fun i _ => ⟨fields.routineInfo i,fields.start i⟩
    rw [slots f]
    exact ⟨rfl,rfl⟩

theorem unwindShared_depth (cfg : Config) (n : Nat) (state : Shared × ThreadData) :
    (unwindShared cfg n state).2.stackDepth = state.2.stackDepth - n := by
  induction n generalizing state with
  | zero => rfl
  | succ n ih =>
    refine (ih (popShared cfg state.1 state.2)).trans ?_
    rw [popShared_depth]
    omega

/-- The skipped cost is taken off once by `time` and once by `generate_report`. -/
theorem ThreadRun.reportCost {entry : ThreadData → FnPtr → Prop} {tid : Nat} (life : ThreadRun cfg entry tid log tdata)
    (running : tdata.skip = 0) :
    Aprof.reportCost tdata = UInt64.ofNat (outsideTicks cfg log) - UInt64.ofNat (insideTicks cfg log) := by
  have clock := life.clock
  have now := clock.running running
  have skipped : tdata.skipCost = UInt64.ofNat (insideTicks cfg log) := by
    have cost := clock.cost
    rw [outside_inside,UInt64.ofNat_add,← now,time] at cost
    grind
  rw [Aprof.reportCost,now,skipped]

theorem sub_same_iff (outside inside : Nat) : (UInt64.ofNat outside - UInt64.ofNat inside).toNat = outside ↔
    outside < 2 ^ 64 ∧ 2 ^ 64 ∣ inside := by
  constructor
  · intro same
    have few : outside < 2 ^ 64 := by
      rw [← same]
      exact UInt64.toNat_lt _
    refine ⟨few,?_⟩
    have zero : UInt64.ofNat inside = 0 := by
      have back : UInt64.ofNat outside - UInt64.ofNat inside = UInt64.ofNat outside := by
        rw [← UInt64.ofNat_toNat (x := UInt64.ofNat outside - UInt64.ofNat inside),same]
      grind
    have rest : inside % 2 ^ 64 = 0 := congrArg UInt64.toNat zero
    exact Nat.dvd_of_mod_eq_zero rest
  · rintro ⟨few,whole⟩
    have zero : UInt64.ofNat inside = 0 := by
      apply UInt64.toNat_inj.mp
      exact Nat.mod_eq_zero_of_dvd whole
    rw [zero,UInt64.sub_zero]
    exact UInt64.toNat_ofNat_of_lt few

end

/-- The basic blocks that began while the property held. -/
def blocksWhen (when : ThreadData → Bool) (log : ThreadLog) : Nat :=
  log.countP fun entry => when entry.2 && match entry.1 with
    | .tick => true
    | _ => false

def outsideBlocks : ThreadLog → Nat := blocksWhen fun tdata => tdata.skip == 0

def insideBlocks : ThreadLog → Nat := blocksWhen fun tdata => tdata.skip != 0

theorem ticksWhen_blocks {cfg : Config} (dopeless : cfg.dopeFn = none) (when : ThreadData → Bool) (log : ThreadLog) :
    ticksWhen cfg when log = blocksWhen when log := by
  induction log with
  | nil => rfl
  | cons entry log ih =>
    obtain ⟨op,tdata⟩ := entry
    have blocks : blocksWhen when ((op,tdata) :: log) = blocksWhen when log + _ := List.countP_cons
    rw [ticksWhen_cons,ih,blocks,Nat.add_comm]
    cases op with
    | tick => cases when tdata <;> simp [ticks]
    | enter sp f => simp [ticks]
    | exit => simp [ticks,dopeless]

/-- The total of a report is the blocks outside skipped calls, and covers the costs
of every routine, just when there are fewer than 2^64 of them and the blocks inside
skipped calls are a multiple of 2^64. Every thread that exits is reported after
such a life, with no call left pending. -/
theorem report_cost_right {cfg : Config} (dopeless : cfg.dopeFn = none) (separate : cfg.singleReport = false) :
    (∀ entry tid log tdata, ThreadRun cfg entry tid log tdata → tdata.stackDepth = 0 →
      (((reportCost tdata).toNat = outsideBlocks log ∧
        ∀ f, realCost (tdata.routine f).inputMap ≤ (reportCost tdata).toNat) ↔
      (outsideBlocks log < 2 ^ 64 ∧ 2 ^ 64 ∣ insideBlocks log))) ∧
    ∀ (c : Counter) events (rt after : Runtime c) tid, (initial c cfg >>= fun rt => run cfg rt events) = .ok rt →
      threadExit cfg rt tid = .ok after → ∃ log tdata, after.reported = (tid,tdata) :: rt.reported ∧
        tdata.stackDepth = 0 ∧ ThreadRun cfg (fun _ _ => True) tid log tdata := by
  constructor
  · intro entry tid log tdata life empty
    have running : tdata.skip = 0 := by
      have none : recordedDepth cfg tdata = 0 := Nat.le_zero.mp (empty ▸ recordedDepth_le cfg tdata)
      exact life.clock.counted.recorded_iff.mpr (none.trans empty.symm)
    have outside : outsideTicks cfg log = outsideBlocks log := ticksWhen_blocks dopeless _ log
    have inside : insideTicks cfg log = insideBlocks log := ticksWhen_blocks dopeless _ log
    rw [life.reportCost running,← outside,← inside]
    constructor
    · rintro ⟨total,-⟩
      exact (sub_same_iff _ _).mp total
    · intro whole
      have total := (sub_same_iff _ _).mpr whole
      refine ⟨total,fun f => ?_⟩
      rw [total]
      exact (life.realCosts separate whole.1).total f
  · intro c events rt after tid reached exited
    have found : ∃ tdata, rt.threads tid = some tdata := by
      unfold threadExit at exited
      split at exited
      · cases exited
      · exact ⟨_,‹_›⟩
    obtain ⟨tdata,found⟩ := found
    obtain ⟨log,life⟩ := run_lives reached tid tdata (Or.inl found)
    obtain ⟨log',life'⟩ := life.unwind rt.shared (Nat.le_refl _)
    unfold threadExit at exited
    rw [found] at exited
    cases exited
    refine ⟨log',_,rfl,?_,life'⟩
    rw [unwindShared_depth]
    exact Nat.sub_self _

/-- Function 0 calls function 2 twice, and a skipped one that executes no block. -/
theorem report_cost_right_nested : ∃ log tdata, ThreadRun (smallConfig .rms) (fun _ _ => True) 1 log tdata ∧
    (reportCost tdata).toNat = outsideBlocks log ∧ outsideBlocks log = 6 ∧
    realCost (tdata.routine 0).inputMap = 6 ∧ realCost (tdata.routine 2).inputMap = 3 := by
  have life : ∃ state, live (smallConfig .rms) 1 [.enter 100 0,.tick,.enter 96 2,.tick,.exit,.tick,.enter 96 2,.tick,.tick,.exit,
        .enter 96 1,.exit,.tick,.exit] = .ok state ∧ state.2.stackDepth = 0 ∧ outsideBlocks state.1 = 6 ∧ insideBlocks state.1 = 0 ∧
      realCost (state.2.routine 0).inputMap = 6 ∧ realCost (state.2.routine 2).inputMap = 3 := by
    decide +kernel
  obtain ⟨⟨log,tdata⟩,lived,empty,outside,inside,outer,inner⟩ := life
  have right := ((@report_cost_right (smallConfig .rms) rfl rfl).1 _ _ _ _ (live_run lived) empty).mpr
    ⟨by rw [outside]; decide,by rw [inside]; exact Nat.dvd_zero _⟩
  exact ⟨log,tdata,live_run lived,right.1,outside,outer,inner⟩

/-- One tick outside and two in a skipped call: the total wraps. -/
theorem report_cost_wraps : ∃ log tdata, ThreadRun (smallConfig .rms) (fun _ _ => True) 1 log tdata ∧
    tdata.stackDepth = 0 ∧ outsideBlocks log = 1 ∧ reportCost tdata = 0 - 1 := by
  have started : ThreadRun (smallConfig .rms) (fun _ _ => True) 1 [] _ := .fresh blankTable
  have entered := started.tick.enter ⟨fun _ => htConstruct,[]⟩ 100 1 trivial rfl
  exact ⟨_,_,entered.tick.tick.exit ⟨fun _ => htConstruct,[]⟩ (by decide),rfl,rfl,by decide⟩

end Aprof
