import Aprof.ReportCost

/-! The real cost of a function counts the time of overlapping calls once. The
outermost recorded call is told by `recursion_pending`, and its cost is the time
during which any recorded call of the function was pending. -/
namespace Aprof

def activeCalls (cfg : Config) (tdata : ThreadData) (f : FnPtr) : Nat := pendingCalls tdata f (recordedDepth cfg tdata)

/-- Ticks outside skipped calls while a recorded call of the function was pending. -/
def activeTicks (cfg : Config) (f : FnPtr) : ThreadLog → Nat :=
  ticksWhen cfg fun tdata => tdata.skip == 0 && decide (0 < activeCalls cfg tdata f)

/-- What a return adds to `sum_cumul_real_cost` of a tuple of the function. -/
def realOf (cfg : Config) (f : FnPtr) : ThreadOp × ThreadData → UInt64
  | (.exit,tdata) =>
    if tdata.skip = 0 ∧ f = tdata.top.routineInfo ∧ (tdata.routine f).recursionPending - 1 < 1 then exitCumul cfg tdata
    else 0
  | _ => 0

def realTotal (cfg : Config) (f : FnPtr) (log : ThreadLog) : UInt64 := (log.map (realOf cfg f)).sum

/-- The tuples of a function, where the report takes them from. -/
def keptTuples (cfg : Config) (shared : Shared) (tdata : ThreadData) (f : FnPtr) : HashTable (Input UInt64) :=
  if cfg.singleReport then shared.inputMaps f else (tdata.routine f).inputMap

/-- The pending calls with the skip count that each one found, the last one first. -/
def enteredWith : ThreadLog → List (FnPtr × Nat)
  | [] => []
  | (.tick,_) :: log => enteredWith log
  | (.enter _ f,tdata) :: log => (f,tdata.skip) :: enteredWith log
  | (.exit,_) :: log => (enteredWith log).tail

/-- The lowest `n` frames with the number of skipped calls below each. -/
def framesWith (cfg : Config) (tdata : ThreadData) : Nat → List (FnPtr × Nat)
  | 0 => []
  | n + 1 => ((tdata.stack n).routineInfo,Nat.count (fun i => skipFlag cfg tdata i = true) n) :: framesWith cfg tdata n

section
variable {cfg : Config} {tdata after : ThreadData} {log : ThreadLog} {f : FnPtr} {n : Nat}

theorem framesWith_congr (same : ∀ i, i < n → (after.stack i).routineInfo = (tdata.stack i).routineInfo) :
    framesWith cfg after n = framesWith cfg tdata n := by
  induction n with
  | zero => rfl
  | succ n ih =>
    have below : ∀ i, i < n → (after.stack i).routineInfo = (tdata.stack i).routineInfo := fun i less =>
      same i (Nat.lt_succ_of_lt less)
    have flags : ∀ i, i < n → skipFlag cfg after i = skipFlag cfg tdata i := by
      intro i less
      rw [skipFlag,skipFlag,below i less]
    rw [framesWith,framesWith,ih below,same n (Nat.lt_succ_self n),Floor.count_congr flags]

theorem framesWith_count (plain : (cfg.fn f).skip = false) (n : Nat) :
    (framesWith cfg tdata n).count (f,0) = pendingCalls tdata f (Floor.first (skipFlag cfg tdata) n) := by
  induction n with
  | zero => rfl
  | succ n ih =>
    rw [framesWith,List.count_cons,ih]
    rcases Nat.lt_or_eq_of_le (Floor.first_le (skipFlag cfg tdata) n) with inside | all
    · have positive : Nat.count (fun i => skipFlag cfg tdata i = true) n ≠ 0 := by
        intro zero
        have := (Floor.count_zero_iff _ _).mp zero
        omega
      rw [Floor.first_succ_inside inside,if_neg (by simp [positive]),Nat.add_zero]
    · have zero := (Floor.count_zero_iff _ _).mpr all
      rw [zero]
      cases last : skipFlag cfg tdata n with
      | true =>
        have other : (tdata.stack n).routineInfo ≠ f := by
          intro same
          rw [skipFlag,same,plain] at last
          cases last
        rw [Floor.first_succ_hit last,if_neg (by simp [other]),Nat.add_zero]
      | false =>
        rw [Floor.first_succ_miss all last,all,pendingCalls_succ]
        simp

theorem activeCalls_skipped (skipped : (cfg.fn f).skip = true) : activeCalls cfg tdata f = 0 := by
  by_contra some
  obtain ⟨i,below,called⟩ := Nat.count_ne_iff_exists.mp some
  have plain := Floor.before_first _ _ i below
  have same : (tdata.stack i).routineInfo = f := by simpa using called
  rw [skipFlag,same,skipped] at plain
  cases plain

end

/-- The time since the lowest recorded call of the function that is pending. -/
def openTime (cfg : Config) (tdata : ThreadData) (f : FnPtr) (now : UInt64) : UInt64 :=
  let slot := Floor.first (fun i => (tdata.stack i).routineInfo == f) (recordedDepth cfg tdata)
  if slot < recordedDepth cfg tdata then now - (tdata.stack slot).start else 0

section
variable {cfg : Config} {tdata after : ThreadData} {log : ThreadLog} {f : FnPtr}

theorem activeCalls_none : activeCalls cfg tdata f = 0 ↔
    Floor.first (fun i => (tdata.stack i).routineInfo == f) (recordedDepth cfg tdata) = recordedDepth cfg tdata :=
  Floor.count_zero_iff _ _

theorem openTime_none (none : activeCalls cfg tdata f = 0) (now : UInt64) : openTime cfg tdata f now = 0 := by
  have all := activeCalls_none.mp none
  exact if_neg (by omega)

theorem openTime_later (now : UInt64) (passed : Nat) : openTime cfg tdata f (now + UInt64.ofNat passed) =
    openTime cfg tdata f now + UInt64.ofNat (if 0 < activeCalls cfg tdata f then passed else 0) := by
  have none := @activeCalls_none cfg tdata f
  have le := Floor.first_le (fun i => (tdata.stack i).routineInfo == f) (recordedDepth cfg tdata)
  unfold openTime
  dsimp only
  generalize Floor.first _ (recordedDepth cfg tdata) = slot at none le ⊢
  by_cases active : 0 < activeCalls cfg tdata f
  · rw [if_pos active,if_pos (by omega),if_pos (by omega)]
    grind
  · rw [if_neg active,if_neg (by omega),if_neg (by omega)]
    rfl

theorem active_congr (recorded : recordedDepth cfg after = recordedDepth cfg tdata)
    (slots : ∀ i, i < recordedDepth cfg tdata →
      (after.stack i).routineInfo = (tdata.stack i).routineInfo ∧ (after.stack i).start = (tdata.stack i).start) :
    activeCalls cfg after f = activeCalls cfg tdata f ∧ ∀ now, openTime cfg after f now = openTime cfg tdata f now := by
  have slot : Floor.first (fun i => (after.stack i).routineInfo == f) (recordedDepth cfg tdata) =
      Floor.first (fun i => (tdata.stack i).routineInfo == f) (recordedDepth cfg tdata) :=
    Floor.first_congr fun i below => by rw [(slots i below).1]
  constructor
  · rw [activeCalls,recorded]
    exact pendingCalls_congr fun i below => (slots i below).1
  · intro now
    unfold openTime
    dsimp only
    rw [recorded,slot]
    split
    · next inside => rw [(slots _ inside).2]
    · rfl

theorem active_cons (op : ThreadOp) : activeTicks cfg f ((op,tdata) :: log) =
    (if tdata.skip = 0 ∧ 0 < activeCalls cfg tdata f then ticks cfg (op,tdata) else 0) + activeTicks cfg f log := by
  simp [activeTicks,ticksWhen_cons]

theorem activeTicks_le (log : ThreadLog) : activeTicks cfg f log ≤ outsideTicks cfg log := by
  induction log with
  | nil => exact Nat.le_refl 0
  | cons entry log ih =>
    obtain ⟨op,tdata⟩ := entry
    rw [active_cons]
    rcases Nat.eq_zero_or_pos tdata.skip with running | stopped
    · rw [outside_running op running]
      split <;> omega
    · rw [outside_stopped op stopped,if_neg (by omega)]
      omega

theorem real_cons (op : ThreadOp) :
    realTotal cfg f ((op,tdata) :: log) = realOf cfg f (op,tdata) + realTotal cfg f log := rfl

/-- What has been recorded of a function and the open time of its outermost call
make up the time during which a recorded call of it was pending. -/
structure Overlaps (cfg : Config) (log : ThreadLog) (tdata : ThreadData) : Prop where
  table : RoutineTable tdata
  frames : enteredWith log = framesWith cfg tdata tdata.stackDepth
  pending : ∀ f, (tdata.routine f).recursionPending = activeCalls cfg tdata f
  total : ∀ f, realTotal cfg f log + openTime cfg tdata f (UInt64.ofNat (outsideTicks cfg log)) =
    UInt64.ofNat (activeTicks cfg f log)
  tuples : cfg.singleReport = false → ∀ f, (cfg.fn f).discard = false →
    UInt64.ofNat (realCost (tdata.routine f).inputMap) = realTotal cfg f log

/-- Ticks, accesses, skipped calls and skipped returns, `passed` ticks long. -/
theorem Overlaps.still (overlaps : Overlaps cfg log tdata) {log' : ThreadLog} {passed : Nat} (table : RoutineTable after)
    (frames : enteredWith log' = framesWith cfg after after.stackDepth)
    (recorded : recordedDepth cfg after = recordedDepth cfg tdata)
    (slots : ∀ i, i < recordedDepth cfg tdata →
      (after.stack i).routineInfo = (tdata.stack i).routineInfo ∧ (after.stack i).start = (tdata.stack i).start)
    (pending : ∀ f, (after.routine f).recursionPending = (tdata.routine f).recursionPending)
    (inputMap : cfg.singleReport = false → ∀ f, (after.routine f).inputMap = (tdata.routine f).inputMap)
    (outside : outsideTicks cfg log' = passed + outsideTicks cfg log)
    (active : ∀ f, activeTicks cfg f log' = (if 0 < activeCalls cfg tdata f then passed else 0) + activeTicks cfg f log)
    (real : ∀ f, realTotal cfg f log' = realTotal cfg f log) : Overlaps cfg log' after := by
  refine ⟨table,frames,fun f => ?_,fun f => ?_,fun separate f kept => ?_⟩
  · rw [pending,(active_congr recorded slots).1]
    exact overlaps.pending f
  · rw [real,(active_congr recorded slots).2,outside,ofNat_later,openTime_later,active,ofNat_later,← overlaps.total f]
    grind
  · rw [inputMap separate,real]
    exact overlaps.tuples separate f kept

section
variable {cfg : Config} {tdata after : ThreadData} {log : ThreadLog} {f : FnPtr}

theorem Overlaps.fresh (tid : Nat) (shadow : LookupTable Nat) : Overlaps cfg [] (newThread cfg tid shadow) := by
  have missing := newThread_routine cfg tid shadow
  refine ⟨⟨htConstruct_keyed,nofun⟩,rfl,fun f => ?_,fun f => rfl,fun _ f _ => ?_⟩
  · rw [missing]
    rfl
  · rw [missing,realCost_empty]
    rfl

theorem Overlaps.quiet (overlaps : Overlaps cfg log tdata) {op : ThreadOp} (table : RoutineTable after)
    (frames : enteredWith ((op,tdata) :: log) = framesWith cfg after after.stackDepth)
    (recorded : recordedDepth cfg after = recordedDepth cfg tdata)
    (slots : ∀ i, i < recordedDepth cfg tdata →
      (after.stack i).routineInfo = (tdata.stack i).routineInfo ∧ (after.stack i).start = (tdata.stack i).start)
    (pending : ∀ f, (after.routine f).recursionPending = (tdata.routine f).recursionPending)
    (inputMap : cfg.singleReport = false → ∀ f, (after.routine f).inputMap = (tdata.routine f).inputMap)
    (none : ∀ f, realOf cfg f (op,tdata) = 0) : Overlaps cfg ((op,tdata) :: log) after := by
  have real : ∀ f, realTotal cfg f ((op,tdata) :: log) = realTotal cfg f log := by
    intro f
    rw [real_cons,none,UInt64.zero_add]
  rcases Nat.eq_zero_or_pos tdata.skip with running | stopped
  · refine overlaps.still table frames recorded slots pending inputMap (outside_running op running) (fun f => ?_) real
    rw [active_cons]
    simp only [running,true_and]
  · have passed : outsideTicks cfg ((op,tdata) :: log) = 0 + outsideTicks cfg log := by
      rw [outside_stopped op stopped,Nat.zero_add]
    refine overlaps.still table frames recorded slots pending inputMap passed (fun f => ?_) real
    rw [active_cons,if_neg (by omega),ite_self]

theorem Overlaps.tick (overlaps : Overlaps cfg log tdata) :
    Overlaps cfg ((.tick,tdata) :: log) {tdata with cost := tdata.cost + 1} := by
  have same : framesWith cfg {tdata with cost := tdata.cost + 1} tdata.stackDepth = framesWith cfg tdata tdata.stackDepth :=
    framesWith_congr fun _ _ => rfl
  exact overlaps.quiet ⟨overlaps.table.keyed,overlaps.table.registered⟩ (overlaps.frames.trans same.symm) rfl
    (fun _ _ => ⟨rfl,rfl⟩) (fun _ => rfl) (fun _ _ => rfl) fun _ => rfl

theorem openTime_push {n : Nat} {now : UInt64} (depth : recordedDepth cfg tdata = n) (depth' : recordedDepth cfg after = n + 1)
    (slots : ∀ i, i < n → after.stack i = tdata.stack i) (start : (after.stack n).start = now) :
    openTime cfg after f now = openTime cfg tdata f now := by
  have below : Floor.first (fun i => (after.stack i).routineInfo == f) n =
      Floor.first (fun i => (tdata.stack i).routineInfo == f) n :=
    Floor.first_congr fun i less => by rw [slots i less]
  unfold openTime
  dsimp only
  rw [depth,depth']
  rcases Nat.lt_or_eq_of_le (Floor.first_le (fun i => (after.stack i).routineInfo == f) n) with inside | all
  · rw [Floor.first_succ_inside inside,below] at *
    rw [if_pos inside,if_pos (by omega),slots _ inside]
  · rw [if_neg (show ¬ Floor.first (fun i => (tdata.stack i).routineInfo == f) n < n by omega)]
    cases last : (after.stack n).routineInfo == f with
    | true =>
      rw [Floor.first_succ_hit (p := fun i => (after.stack i).routineInfo == f) last,all,if_pos (Nat.lt_succ_self n),start]
      exact UInt64.sub_self now
    | false =>
      rw [Floor.first_succ_miss (p := fun i => (after.stack i).routineInfo == f) all last]
      exact if_neg (Nat.lt_irrefl _)

end

section
variable {cfg : Config} {tdata : ThreadData} {log : ThreadLog}

theorem Overlaps.enter (overlaps : Overlaps cfg log tdata) (clock : Clock cfg log tdata) (shared : Shared)
    {pushed : ThreadData} {sp : UInt64} {f : FnPtr} (push : pushFrame cfg tdata sp f = .ok pushed) :
    Overlaps cfg ((.enter sp f,tdata) :: log) (Levels.functionEnter cfg shared pushed).2 := by
  have entered := functionEnter_costs clock.counted shared push
  obtain ⟨called,table,inputMap,pending⟩ := functionEnter_tables overlaps.table shared push
  generalize (Levels.functionEnter cfg shared pushed).2 = after at entered called table inputMap pending ⊢
  have le := recordedDepth_le cfg tdata
  have frames : enteredWith ((.enter sp f,tdata) :: log) = framesWith cfg after after.stackDepth := by
    have flags : ∀ i, i < tdata.stackDepth → skipFlag cfg after i = skipFlag cfg tdata i := by
      intro i below
      rw [skipFlag,skipFlag,entered.slots i (Nat.ne_of_lt below)]
    change (f,tdata.skip) :: enteredWith log = _
    rw [entered.depth,framesWith,called,Floor.count_congr flags,← clock.counted,overlaps.frames]
    exact congrArg _ (framesWith_congr fun i below => by rw [entered.slots i (Nat.ne_of_lt below)]).symm
  by_cases hidden : (cfg.fn f).skip = true ∨ 0 < tdata.skip
  · obtain ⟨skipping,recorded⟩ := entered.hidden hidden
    refine overlaps.quiet table frames recorded (fun i below => ?_) (fun g => ?_) inputMap fun _ => rfl
    · rw [entered.slots i (by omega)]
      exact ⟨rfl,rfl⟩
    · rw [pending g,if_neg fun both => Nat.pos_iff_ne_zero.mp skipping both.1]
      rfl
  · have plain : (cfg.fn f).skip = false := by
      by_contra skipped
      exact hidden (Or.inl (by simpa using skipped))
    have running : tdata.skip = 0 := Nat.eq_zero_of_not_pos fun pending => hidden (Or.inr pending)
    have running' := (entered.recorded plain running).1
    have all := clock.counted.recorded_iff.mp running
    have all' : recordedDepth cfg after = tdata.stackDepth + 1 :=
      (entered.counted.recorded_iff.mp running').trans entered.depth
    have slots : ∀ i, i < tdata.stackDepth → after.stack i = tdata.stack i := fun i below =>
      entered.slots i (Nat.ne_of_lt below)
    have still : outsideTicks cfg ((.enter sp f,tdata) :: log) = outsideTicks cfg log := by
      rw [outside_running _ running,ticks,Nat.zero_add]
    refine ⟨table,frames,fun g => ?_,fun g => ?_,fun separate g kept => ?_⟩
    · have lower : pendingCalls after g tdata.stackDepth = pendingCalls tdata g tdata.stackDepth :=
        pendingCalls_congr fun i below => by rw [slots i below]
      rw [pending g,overlaps.pending g,activeCalls,activeCalls,all,all',pendingCalls_succ,lower,called]
      simp only [running',true_and,eq_comm]
    · have start : (after.stack tdata.stackDepth).start = UInt64.ofNat (outsideTicks cfg log) :=
        entered.start.trans (clock.running running)
      have ticked : activeTicks cfg g ((.enter sp f,tdata) :: log) = activeTicks cfg g log := by
        rw [active_cons,ticks,ite_self,Nat.zero_add]
      have real : realTotal cfg g ((.enter sp f,tdata) :: log) = realTotal cfg g log := UInt64.zero_add _
      rw [still,openTime_push all all' slots start,real,ticked]
      exact overlaps.total g
    · have real : realTotal cfg g ((.enter sp f,tdata) :: log) = realTotal cfg g log := UInt64.zero_add _
      rw [inputMap separate,real]
      exact overlaps.tuples separate g kept

theorem realCost_recorded (cfg : Config) (act : Activation) (context : UInt32) (cumul self : UInt64) (outermost : Bool)
    (inputMap : HashTable (Input UInt64)) :
    UInt64.ofNat (realCost (recordTuple cfg act context cumul self outermost inputMap)) =
      UInt64.ofNat (realCost inputMap) + if outermost then cumul else 0 := by
  have added : ∀ tuple : Input UInt64, UInt64.ofNat (accumulate act cumul self outermost tuple).sumCumulRealCost.toNat =
      UInt64.ofNat tuple.sumCumulRealCost.toNat + if outermost then cumul else 0 := by
    intro tuple
    rw [UInt64.ofNat_toNat,UInt64.ofNat_toNat]
    cases outermost with
    | true => rfl
    | false => exact (UInt64.add_zero _).symm
  unfold recordTuple
  dsimp only
  split
  · unfold realCost
    rw [((htAddNode_perm _ _).map _).sum_eq,List.map_cons,List.sum_cons,ofNat_later,added]
    exact congrArg (UInt64.ofNat _ + ·) (UInt64.zero_add _)
  · next tuple found =>
    obtain ⟨before,after,split,changed⟩ :=
      @htUpdate_split _ _ _ _ _ (accumulate act cumul self outermost) (fun _ => rfl) _ found
    have more := added tuple
    unfold realCost
    rw [split,changed]
    simp only [List.map_append,List.map_cons,List.sum_append,List.sum_cons,UInt64.ofNat_add,more]
    grind

theorem keptTuples_pop (table : RoutineTable tdata) (nonempty : 0 < tdata.stackDepth) (shared : Shared) (f : FnPtr) :
    ∃ context, keptTuples cfg (popShared cfg shared tdata).1 (popShared cfg shared tdata).2 f =
      if (tdata.skip = 0 ∧ f = tdata.top.routineInfo) ∧ (cfg.fn f).discard = false then
        recordTuple cfg tdata.top context (exitCumul cfg tdata) (exitCumul cfg tdata - tdata.top.sumChildrenCost)
          (decide ((tdata.routine f).recursionPending - 1 < 1)) (keptTuples cfg shared tdata f)
      else keptTuples cfg shared tdata f := by
  have attached := (attach_table cfg table nonempty shared).2
  have look := @popShared_found cfg tdata table shared nonempty f
  by_cases other : f = tdata.top.routineInfo
  · -- the tuples of the function that returns are found in `attach` and stored after the return
    have before : ((attach cfg shared tdata).routine f).inputMap = keptTuples cfg shared tdata f := by
      rw [attached,keptTuples,other]
      by_cases single : cfg.singleReport = true
      · rw [if_pos ⟨single,rfl⟩,if_pos single]
      · rw [if_neg fun both => single both.1,if_neg single]
    have after : keptTuples cfg (popShared cfg shared tdata).1 (popShared cfg shared tdata).2 f =
        ((popShared cfg shared tdata).2.routine f).inputMap := by
      rw [keptTuples,popShared_inputMaps,← popShared_look,← other]
      by_cases single : cfg.singleReport = true
      · rw [if_pos single,if_pos single,Function.update_self]
      · rw [if_neg single]
    have pending : ((attach cfg shared tdata).routine f).recursionPending = (tdata.routine f).recursionPending := by
      rw [attached]
      split
      · next found => rw [← found.2]
      · rfl
    rw [after,← before,look,← pending]
    obtain ⟨loaded,root,same⟩ := attach_eq cfg shared tdata
    by_cases recorded : tdata.skip = 0 ∧ f = tdata.top.routineInfo
    · rw [if_pos recorded,← other]
      generalize (attach cfg shared tdata).routine f = rtnInfo
      rw [same]
      unfold exitRoutine
      have top : ({tdata with rtnHt := loaded, root := root, cost := exitTicks cfg tdata} : ThreadData).top.routineInfo = f :=
        other.symm
      dsimp only at top ⊢
      rw [top]
      cases discard : (cfg.fn f).discard with
      | true =>
        exact ⟨0,(if_neg fun both => Bool.noConfusion both.2).symm⟩
      | false =>
        exact ⟨_,(if_pos ⟨⟨recorded.1,rfl⟩,rfl⟩).symm⟩
    · refine ⟨0,?_⟩
      rw [if_neg recorded,if_neg fun both => recorded both.1]
  · refine ⟨0,?_⟩
    rw [if_neg fun both => other both.1.2,keptTuples,keptTuples,popShared_inputMaps]
    by_cases single : cfg.singleReport = true
    · rw [if_pos single,if_pos single,if_pos single,Function.update_of_ne other]
    · rw [if_neg single,if_neg single,look,if_neg fun both => other both.2,attached,if_neg fun both => other both.2]

theorem popShared_realCost (table : RoutineTable tdata) (nonempty : 0 < tdata.stackDepth) (shared : Shared) {f : FnPtr}
    (kept : (cfg.fn f).discard = false) :
    UInt64.ofNat (realCost (keptTuples cfg (popShared cfg shared tdata).1 (popShared cfg shared tdata).2 f)) =
      UInt64.ofNat (realCost (keptTuples cfg shared tdata f)) + realOf cfg f (.exit,tdata) := by
  obtain ⟨context,same⟩ := @keptTuples_pop cfg tdata table nonempty shared f
  rw [same,realOf]
  by_cases recorded : tdata.skip = 0 ∧ f = tdata.top.routineInfo
  · rw [if_pos ⟨recorded,kept⟩,realCost_recorded]
    by_cases outermost : (tdata.routine f).recursionPending - 1 < 1
    · rw [if_pos (decide_eq_true outermost),if_pos ⟨recorded.1,recorded.2,outermost⟩]
    · rw [if_neg (by simpa using outermost),if_neg fun all => outermost all.2.2]
  · rw [if_neg fun both => recorded both.1,if_neg fun all => recorded ⟨all.1,all.2.1⟩,UInt64.add_zero]

end

section
variable {cfg : Config} {tdata after : ThreadData} {log : ThreadLog} {f : FnPtr}

theorem realOf_exit {n : Nat} {now : UInt64} (running : tdata.skip = 0) (height : tdata.stackDepth = n + 1)
    (depth : recordedDepth cfg tdata = n + 1) (depth' : recordedDepth cfg after = n)
    (pending : (tdata.routine f).recursionPending = activeCalls cfg tdata f)
    (slots : ∀ i, i < n → (after.stack i).routineInfo = (tdata.stack i).routineInfo ∧ (after.stack i).start = (tdata.stack i).start)
    (cumul : exitCumul cfg tdata = now - (tdata.stack n).start) :
    realOf cfg f (.exit,tdata) + openTime cfg after f now = openTime cfg tdata f now := by
  have top : tdata.top = tdata.stack n := by rw [ThreadData.top,height,Nat.add_sub_cancel]
  have below : Floor.first (fun i => (after.stack i).routineInfo == f) n =
      Floor.first (fun i => (tdata.stack i).routineInfo == f) n :=
    Floor.first_congr fun i less => by rw [(slots i less).1]
  have zero := Floor.count_zero_iff (fun i => (tdata.stack i).routineInfo == f) n
  have real : realOf cfg f (.exit,tdata) =
      if (tdata.stack n).routineInfo = f ∧ pendingCalls tdata f n = 0 then now - (tdata.stack n).start else 0 := by
    rw [realOf,pending,activeCalls,depth,pendingCalls_succ,top,← cumul]
    by_cases called : (tdata.stack n).routineInfo = f
    · simp only [running,called,if_true,true_and,Nat.add_sub_cancel,Nat.lt_one_iff]
    · rw [if_neg fun all => called all.2.1.symm,if_neg fun both => called both.1]
  unfold openTime
  dsimp only
  rw [real,depth,depth',below]
  rcases Nat.lt_or_eq_of_le (Floor.first_le (fun i => (tdata.stack i).routineInfo == f) n) with inside | all
  · -- another call of the function is pending below
    have some : ¬ ((tdata.stack n).routineInfo = f ∧ pendingCalls tdata f n = 0) := by
      rintro ⟨-,none⟩
      have all := zero.mp none
      omega
    rw [if_neg some,UInt64.zero_add,Floor.first_succ_inside inside,if_pos inside,if_pos (Nat.lt_succ_of_lt inside),
      (slots _ inside).2]
  · have none : pendingCalls tdata f n = 0 := zero.mpr all
    have lower : ¬ Floor.first (fun i => (tdata.stack i).routineInfo == f) n < n := by omega
    by_cases called : (tdata.stack n).routineInfo = f
    · rw [if_pos ⟨called,none⟩,if_neg lower,UInt64.add_zero,
        Floor.first_succ_hit (p := fun i => (tdata.stack i).routineInfo == f) (by simpa using called),all,
        if_pos (Nat.lt_succ_self n)]
    · rw [if_neg fun both => called both.1,if_neg lower,
        Floor.first_succ_miss (p := fun i => (tdata.stack i).routineInfo == f) all (by simpa using called),
        if_neg (Nat.lt_irrefl _)]
      rfl

theorem popShared_recursion (table : RoutineTable tdata) (nonempty : 0 < tdata.stackDepth) (shared : Shared) (g : FnPtr) :
    ((popShared cfg shared tdata).2.routine g).recursionPending =
      if tdata.skip = 0 ∧ g = tdata.top.routineInfo then (tdata.routine g).recursionPending - 1
      else (tdata.routine g).recursionPending := by
  have attached : ∀ g, ((attach cfg shared tdata).routine g).recursionPending = (tdata.routine g).recursionPending := by
    intro g
    rw [(attach_table cfg table nonempty shared).2 g]
    split
    · next found => rw [found.2]
    · rfl
  rw [popShared_found table shared nonempty g]
  split
  · next returned =>
    rw [returned.2,← attached]
    unfold exitRoutine
    split <;> rfl
  · exact attached g

theorem Overlaps.exit (overlaps : Overlaps cfg log tdata) (clock : Clock cfg log tdata) (shared : Shared)
    (nonempty : 0 < tdata.stackDepth) : Overlaps cfg ((.exit,tdata) :: log) (popShared cfg shared tdata).2 := by
  obtain ⟨n,height⟩ : ∃ n, tdata.stackDepth = n + 1 := ⟨tdata.stackDepth - 1,by omega⟩
  have routines := popShared_routines cfg shared tdata
  have table := overlaps.table.kept (popShared_kept cfg shared tdata) (by rw [popShared_depth]; omega) fun i _ => routines i
  have recursion := @popShared_recursion cfg tdata overlaps.table nonempty shared
  have depth := popShared_recordedDepth clock.counted shared nonempty
  have frames : enteredWith ((.exit,tdata) :: log) =
      framesWith cfg (popShared cfg shared tdata).2 (popShared cfg shared tdata).2.stackDepth := by
    change (enteredWith log).tail = _
    rw [overlaps.frames,popShared_depth,height,Nat.add_sub_cancel,framesWith,List.tail_cons]
    exact (framesWith_congr fun i _ => routines i).symm
  rcases Nat.eq_zero_or_pos tdata.skip with running | stopped
  · have all := clock.counted.recorded_iff.mp running
    rw [if_pos running,height,Nat.add_sub_cancel] at depth
    have top : tdata.top = tdata.stack n := by rw [ThreadData.top,height,Nat.add_sub_cancel]
    refine ⟨table,frames,fun g => ?_,fun g => ?_,fun separate g kept => ?_⟩
    · have counts := pendingCalls_succ tdata g n
      have lower : pendingCalls (popShared cfg shared tdata).2 g n = pendingCalls tdata g n :=
        pendingCalls_congr fun i _ => routines i
      rw [recursion,overlaps.pending g,activeCalls,activeCalls,depth,lower,all,height,counts,top]
      by_cases called : g = (tdata.stack n).routineInfo
      · rw [if_pos ⟨running,called⟩,if_pos called.symm,Nat.add_sub_cancel]
      · rw [if_neg fun both => called both.2,if_neg fun same => called same.symm,Nat.add_zero]
    · have cumul : exitCumul cfg tdata =
          UInt64.ofNat (outsideTicks cfg ((.exit,tdata) :: log)) - (tdata.stack n).start := by
        rw [exitCumul,clock.exitTime running,top]
      have closes := realOf_exit running height (all.trans height) depth (overlaps.pending g)
        (fun i _ => ⟨routines i,popShared_starts cfg shared tdata i⟩) cumul
      have passed := @outside_running cfg tdata log .exit running
      have ticked := @active_cons cfg tdata log g .exit
      simp only [running,true_and] at ticked
      rw [real_cons,ticked,ofNat_later,← overlaps.total g]
      have later := @openTime_later cfg tdata g (UInt64.ofNat (outsideTicks cfg log)) (ticks cfg (.exit,tdata))
      rw [passed,ofNat_later] at closes ⊢
      rw [UInt64.add_comm (realOf _ _ _),UInt64.add_assoc,closes,later,UInt64.add_assoc]
    · have real := popShared_realCost overlaps.table nonempty shared kept
      have own : ∀ shared tdata, keptTuples cfg shared tdata g = (tdata.routine g).inputMap := fun _ _ => if_neg (by simp [separate])
      rw [own,own,overlaps.tuples separate g kept] at real
      rw [real,real_cons,UInt64.add_comm]
  · rw [if_neg (Nat.pos_iff_ne_zero.mp stopped)] at depth
    refine overlaps.quiet table frames depth (fun i _ => ⟨routines i,popShared_starts cfg shared tdata i⟩) (fun g => ?_)
      (fun separate g => ?_) fun g => ?_
    · rw [recursion,if_neg fun both => Nat.pos_iff_ne_zero.mp stopped both.1]
    · rw [popShared_routine separate overlaps.table shared nonempty g,
        if_neg fun both => Nat.pos_iff_ne_zero.mp stopped both.1]
    · exact if_neg fun both => Nat.pos_iff_ne_zero.mp stopped both.1

end

section
variable {cfg : Config} {tdata : ThreadData} {log : ThreadLog}

theorem ThreadRun.overlaps {entry : ThreadData → FnPtr → Prop} {tid : Nat} (life : ThreadRun cfg entry tid log tdata) :
    Overlaps cfg log tdata := by
  induction life with
  | fresh shadow => exact .fresh tid shadow
  | tick life ih => exact ih.tick
  | enter life shared sp f permitted push ih => exact ih.enter life.clock shared push
  | exit life shared nonempty ih => exact ih.exit life.clock shared nonempty
  | @access log tdata after life same ih =>
    have fields := control_fields same
    have routines : ∀ f, after.routine f = tdata.routine f := by
      intro f
      rw [ThreadData.routine,ThreadData.routine,fields.routines]
    have frames : enteredWith log = framesWith cfg after after.stackDepth := by
      rw [ih.frames,fields.depth]
      exact (framesWith_congr fun i _ => fields.routineInfo i).symm
    have table := ih.table.kept (.same fields.routines) (Nat.le_of_eq fields.depth) fun i _ => fields.routineInfo i
    have still : outsideTicks cfg log = 0 + outsideTicks cfg log := (Nat.zero_add _).symm
    refine ih.still table frames (fields.counted life.clock.counted).2
      (fun i _ => ⟨fields.routineInfo i,fields.start i⟩) (fun f => by rw [routines]) (fun _ f => by rw [routines])
      still (fun f => ?_) fun _ => rfl
    rw [ite_self,Nat.zero_add]

end

/-- A function that is not discarded, in the life of a thread with this log: what its
returns add to the tuples is the time during which a recorded call of it was pending. -/
structure CountedOnce (cfg : Config) (log : ThreadLog) (tdata : ThreadData) (f : FnPtr) : Prop where
  added : ∀ shared, 0 < tdata.stackDepth →
    UInt64.ofNat (realCost (keptTuples cfg (popShared cfg shared tdata).1 (popShared cfg shared tdata).2 f)) =
      UInt64.ofNat (realCost (keptTuples cfg shared tdata f)) + realOf cfg f (.exit,tdata)
  total : activeCalls cfg tdata f = 0 → realTotal cfg f log = UInt64.ofNat (activeTicks cfg f log)
  tuples : cfg.singleReport = false → UInt64.ofNat (realCost (tdata.routine f).inputMap) = realTotal cfg f log
  exact : cfg.singleReport = false → activeCalls cfg tdata f = 0 → outsideTicks cfg log < 2 ^ 64 →
    realCost (tdata.routine f).inputMap = activeTicks cfg f log

/-- The real cost of a function is the time of its recorded calls with overlaps
counted once, and `recursion_pending` counts its pending calls that found no skipped
call pending, unless it is skipped itself. The threads of a run live such lives. -/
theorem real_cost_counts_once (cfg : Config) :
    (∀ entry tid log tdata, ThreadRun cfg entry tid log tdata → ∀ f,
      (tdata.routine f).recursionPending = (if (cfg.fn f).skip then 0 else (enteredWith log).count (f,0)) ∧
      ((cfg.fn f).discard = false → CountedOnce cfg log tdata f)) ∧
    ∀ (c : Counter) events (rt : Runtime c), (initial c cfg >>= fun rt => run cfg rt events) = .ok rt →
      ∀ tid tdata, rt.threads tid = some tdata ∨ (tid,tdata) ∈ rt.reported →
        ∃ log, ThreadRun cfg (fun _ _ => True) tid log tdata := by
  refine ⟨?_,fun c events rt reached => run_lives reached⟩
  intro entry tid log tdata life f
  have overlaps := life.overlaps
  constructor
  · rw [overlaps.pending]
    cases skipped : (cfg.fn f).skip with
    | true => exact activeCalls_skipped skipped
    | false =>
      rw [overlaps.frames,framesWith_count skipped]
      rfl
  · intro kept
    have total : activeCalls cfg tdata f = 0 → realTotal cfg f log = UInt64.ofNat (activeTicks cfg f log) := by
      intro none
      rw [← overlaps.total f,openTime_none none,UInt64.add_zero]
    refine ⟨fun shared nonempty => popShared_realCost overlaps.table nonempty shared kept,total,
      fun separate => overlaps.tuples separate f kept,fun separate none few => ?_⟩
    have same := (overlaps.tuples separate f kept).trans (total none)
    have le := (life.realCosts separate few).total f
    have le' := @activeTicks_le cfg f log
    have equal := congrArg UInt64.toNat same
    rwa [toNat_ticks rfl (lt_of_le_of_lt le few),toNat_ticks rfl (lt_of_le_of_lt le' few)] at equal

/-- A call inside a call of the same function: three ticks, counted once each. -/
theorem real_cost_counts_once_nested : ∃ log tdata, ThreadRun (smallConfig .rms) (fun _ _ => True) 1 log tdata ∧
    realCost (tdata.routine 0).inputMap = activeTicks (smallConfig .rms) 0 log ∧
    activeTicks (smallConfig .rms) 0 log = 3 := by
  have life : ∃ log tdata, ThreadRun (smallConfig .rms) (fun _ _ => True) 1 log tdata ∧
      activeCalls (smallConfig .rms) tdata 0 = 0 ∧ outsideTicks (smallConfig .rms) log = 3 ∧
      activeTicks (smallConfig .rms) 0 log = 3 := by
    have started : ThreadRun (smallConfig .rms) (fun _ _ => True) 1 [] _ := .fresh blankTable
    have outer := (started.enter ⟨fun _ => htConstruct,[]⟩ 100 0 trivial rfl).tick
    have inner := (outer.enter ⟨fun _ => htConstruct,[]⟩ 90 0 trivial rfl).tick
    have left := (inner.exit ⟨fun _ => htConstruct,[]⟩ (by decide)).tick
    exact ⟨_,_,left.exit ⟨fun _ => htConstruct,[]⟩ (by decide),rfl,rfl,rfl⟩
  obtain ⟨log,tdata,life,none,few,active⟩ := life
  have once := ((real_cost_counts_once (smallConfig .rms)).1 _ _ _ _ life 0).2 rfl
  exact ⟨log,tdata,life,once.exact rfl none (by rw [few]; norm_num),active⟩

/-- The call of a skipped function finds no skipped call pending and is not counted. -/
theorem skipped_call_not_pending : ∃ log tdata, ThreadRun (smallConfig .rms) (fun _ _ => True) 1 log tdata ∧
    ((smallConfig .rms).fn 1).discard = false ∧ (tdata.routine 1).recursionPending = 0 ∧
    (enteredWith log).count (1,0) = 1 := by
  have started : ThreadRun (smallConfig .rms) (fun _ _ => True) 1 [] _ := .fresh blankTable
  exact ⟨_,_,started.enter ⟨fun _ => htConstruct,[]⟩ 100 1 trivial rfl,rfl,rfl,rfl⟩

end

end Aprof
