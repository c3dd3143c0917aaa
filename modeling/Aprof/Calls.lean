import Aprof.General.Floor
import Aprof.Runtime

/-! What a call and a return change, field by field, and the depth up to which
the frames of a stack are recorded: a frame is recorded when neither it nor a
frame below it runs a skipped function. -/
namespace Aprof

/-- The allocated part of a stack, at most twice `maxStack`, holds its frames. -/
def Roomy (depth size : Nat) : Prop := depth ≤ size ∧ 0 < size ∧ size < 2 * maxStack

theorem getActivation_ok {tdata grown : ThreadData} {depth : Nat}
    (ok : getActivation tdata (depth + 1) = .ok grown) : ∃ size, grown = {tdata with maxStackSize := size} ∧
      (Roomy depth tdata.maxStackSize → Roomy (depth + 1) size) := by
  unfold getActivation at ok
  split at ok
  · next full =>
    obtain ⟨value,fits,ok⟩ := bind_ok.mp ok
    have inside := check_ok.mp fits
    simp only [Bool.and_eq_true,decide_eq_true_eq] at inside
    split at ok
    · cases ok
      refine ⟨_,rfl,?_⟩
      rintro ⟨le,positive,small⟩
      exact ⟨by omega,by omega,by omega⟩
    · cases ok
      refine ⟨_,rfl,?_⟩
      rintro ⟨le,positive,small⟩
      exact ⟨by omega,positive,small⟩
  · cases ok
    refine ⟨_,rfl,?_⟩
    rintro ⟨le,positive,small⟩
    exact ⟨by omega,positive,small⟩

def framed (sp : UInt64) (f : FnPtr) (act : Activation) : Activation :=
  {act with sp := sp, routineInfo := f, retAddr := 0}

theorem newRoutineInfo_eq (cfg : Config) (tdata : ThreadData) (f : FnPtr) : ∃ table next,
    newRoutineInfo cfg tdata f = {tdata with rtnHt := table, nextRoutineId := next} := by
  unfold newRoutineInfo
  split
  · exact ⟨_,_,rfl⟩
  · split
    · exact ⟨_,_,rfl⟩
    · exact ⟨_,_,rfl⟩

theorem pushFrame_ok {cfg : Config} {tdata pushed : ThreadData} {sp : UInt64} {f : FnPtr}
    (ok : pushFrame cfg tdata sp f = .ok pushed) : ∃ size table next, pushed = {tdata with
      stackDepth := tdata.stackDepth + 1, maxStackSize := size, rtnHt := table, nextRoutineId := next
      stack := Function.update tdata.stack tdata.stackDepth (framed sp f (tdata.stack tdata.stackDepth))} ∧
      (Roomy tdata.stackDepth tdata.maxStackSize → Roomy (tdata.stackDepth + 1) size) := by
  obtain ⟨grown,fits,ok⟩ := bind_ok.mp ok
  obtain ⟨size,rfl,room⟩ := getActivation_ok fits
  cases found : htFind tdata.rtnHt f fun _ => true with
  | some rtnInfo =>
    simp only [found] at ok
    cases ok
    exact ⟨size,tdata.rtnHt,tdata.nextRoutineId,rfl,room⟩
  | none =>
    obtain ⟨table,next,same⟩ := newRoutineInfo_eq cfg
      {tdata with stackDepth := tdata.stackDepth + 1, maxStackSize := size} f
    simp only [found,same] at ok
    cases ok
    exact ⟨size,table,next,rfl,room⟩

def resetCounts (node : Option Nat) (act : Activation) : Activation :=
  {act with
    sumChildrenCost := 0, inputSize := 0
    cumulSyscall := 0, cumulThread := 0, selfSyscall := 0, selfThread := 0
    node := node}

theorem enterContext_eq (tdata : ThreadData) : ∃ root next node, enterContext tdata = {tdata with
    root := root, nextContextId := next
    stack := Function.update tdata.stack (tdata.stackDepth - 1) {tdata.top with node := node}} := by
  unfold enterContext
  dsimp only
  split
  · exact ⟨_,_,_,rfl⟩
  · exact ⟨_,_,_,rfl⟩

theorem enterRecorded_eq (cfg : Config) (tdata : ThreadData) : ∃ table root next node,
    enterRecorded cfg tdata = {tdata with
      rtnHt := table, root := root, nextContextId := next
      stack := Function.update tdata.stack (tdata.stackDepth - 1) (resetCounts node tdata.top)} := by
  unfold enterRecorded
  dsimp only
  split
  · obtain ⟨root,next,node,same⟩ := enterContext_eq
      ((tdata.setRecursion tdata.top.routineInfo (· + 1)).setTop (resetCounts tdata.top.node))
    refine ⟨(tdata.setRecursion tdata.top.routineInfo (· + 1)).rtnHt,root,next,node,same.trans ?_⟩
    simp only [ThreadData.setTop,ThreadData.setSlot,Function.update_idem,ThreadData.top,Function.update_self]
    rfl
  · exact ⟨_,_,_,tdata.top.node,rfl⟩

theorem enterShared_eq (cfg : Config) (shared : Shared) (tdata : ThreadData) : ∃ table root next node,
    (enterShared cfg shared tdata).2 = {tdata with
      rtnHt := table, root := root, nextContextId := next
      stack := Function.update tdata.stack (tdata.stackDepth - 1) (resetCounts node tdata.top)} := by
  unfold enterShared
  split
  · obtain ⟨table,root,next,node,same⟩ := enterRecorded_eq cfg {tdata with root := shared.root}
    exact ⟨table,root,next,node,same⟩
  · exact enterRecorded_eq cfg tdata

theorem recordExit_eq (cfg : Config) (tdata : ThreadData) : ∃ table,
    recordExit cfg tdata = {tdata with rtnHt := table} := by
  unfold recordExit
  dsimp only
  split
  · exact ⟨_,rfl⟩
  · exact ⟨_,rfl⟩

/-- The slots after a recorded return from depth `depth`. -/
def afterExit (stack : Nat → Activation) (depth : Nat) (cumul : UInt64) : Nat → Activation :=
  if depth > 1 then
    Function.update stack (depth - 2) (propagate (stack (depth - 1)) cumul (stack (depth - 2)))
  else stack

/-- The thread as the exit handler finds it with a single report. -/
def attach (cfg : Config) (shared : Shared) (tdata : ThreadData) : ThreadData :=
  if cfg.singleReport then
    {tdata.setInputMap tdata.top.routineInfo fun _ => shared.inputMaps tdata.top.routineInfo with
      root := shared.root}
  else tdata

theorem exitShared_eq (cfg : Config) (shared : Shared) (tdata : ThreadData) :
    (exitShared cfg shared tdata).2 = functionExit cfg (attach cfg shared tdata) := by
  unfold exitShared attach
  split <;> rfl

theorem attach_eq (cfg : Config) (shared : Shared) (tdata : ThreadData) : ∃ table root,
    attach cfg shared tdata = {tdata with rtnHt := table, root := root} := by
  unfold attach
  split <;> exact ⟨_,_,rfl⟩

/-- The cost of the thread when `function_exit` takes the time. -/
def exitTicks (cfg : Config) (tdata : ThreadData) : UInt64 :=
  if cfg.dopeFn = some (cfg.fn tdata.top.routineInfo).name then
    tdata.cost + tdata.top.inputSize.toUInt64 * tdata.top.inputSize.toUInt64
  else tdata.cost

def exitCumul (cfg : Config) (tdata : ThreadData) : UInt64 :=
  exitTicks cfg tdata - tdata.skipCost - tdata.top.start

theorem dope_eq (cfg : Config) (tdata : ThreadData) :
    dope cfg tdata = {tdata with cost := exitTicks cfg tdata} := by
  unfold dope exitTicks
  split <;> rfl

theorem functionExit_recorded (cfg : Config) (tdata : ThreadData) (recorded : tdata.skip = 0) :
    ∃ table, functionExit cfg tdata = {tdata with
      cost := exitTicks cfg tdata, rtnHt := table
      stack := afterExit tdata.stack tdata.stackDepth (exitCumul cfg tdata)} := by
  obtain ⟨table,tables⟩ := recordExit_eq cfg {tdata with cost := exitTicks cfg tdata}
  refine ⟨table,?_⟩
  unfold functionExit
  dsimp only
  rw [dope_eq,if_neg (by simp [recorded])]
  unfold exitRecorded afterExit
  rw [tables]
  dsimp only
  split <;> rfl

theorem functionExit_skipped (cfg : Config) (tdata : ThreadData) (skipping : 0 < tdata.skip) :
    functionExit cfg tdata = exitSkipped cfg {tdata with cost := exitTicks cfg tdata} := by
  unfold functionExit
  dsimp only
  rw [dope_eq,if_pos (by exact skipping)]

theorem popShared_recorded (cfg : Config) (shared : Shared) (tdata : ThreadData)
    (recorded : tdata.skip = 0) : ∃ table root, (popShared cfg shared tdata).2 = {tdata with
      stackDepth := tdata.stackDepth - 1, cost := exitTicks cfg tdata, rtnHt := table, root := root
      stack := afterExit tdata.stack tdata.stackDepth (exitCumul cfg tdata)} := by
  obtain ⟨loaded,root,same⟩ := attach_eq cfg shared tdata
  obtain ⟨table,exited⟩ := functionExit_recorded cfg {tdata with rtnHt := loaded, root := root} recorded
  refine ⟨table,root,?_⟩
  unfold popShared
  dsimp only
  rw [exitShared_eq,same,exited]
  rfl

def skipFlag (cfg : Config) (tdata : ThreadData) (i : Nat) : Bool :=
  (cfg.fn (tdata.stack i).routineInfo).skip

theorem popShared_skipped (cfg : Config) (shared : Shared) (tdata : ThreadData)
    (skipping : 0 < tdata.skip) : ∃ table root, (popShared cfg shared tdata).2 = {tdata with
      stackDepth := tdata.stackDepth - 1, cost := exitTicks cfg tdata, rtnHt := table, root := root
      skip := if skipFlag cfg tdata (tdata.stackDepth - 1) then tdata.skip - 1 else tdata.skip
      skipCost := if skipFlag cfg tdata (tdata.stackDepth - 1) then
        tdata.skipCost + exitCumul cfg tdata else tdata.skipCost} := by
  obtain ⟨loaded,root,same⟩ := attach_eq cfg shared tdata
  refine ⟨loaded,root,?_⟩
  unfold popShared
  dsimp only
  rw [exitShared_eq,same,functionExit_skipped cfg {tdata with rtnHt := loaded, root := root} skipping]
  unfold exitSkipped skipFlag ThreadData.top
  dsimp only
  split
  · rfl
  · rfl

def recordedDepth (cfg : Config) (tdata : ThreadData) : Nat :=
  Floor.first (skipFlag cfg tdata) tdata.stackDepth

/-- `skip` counts the pending frames of skipped functions. -/
def SkipCounted (cfg : Config) (tdata : ThreadData) : Prop :=
  tdata.skip = Nat.count (fun i => skipFlag cfg tdata i = true) tdata.stackDepth

theorem SkipCounted.congr {cfg : Config} {tdata other : ThreadData} (counted : SkipCounted cfg tdata)
    (skip : other.skip = tdata.skip) (depth : other.stackDepth = tdata.stackDepth)
    (routines : ∀ i, i < tdata.stackDepth → (other.stack i).routineInfo = (tdata.stack i).routineInfo) :
    SkipCounted cfg other ∧ recordedDepth cfg other = recordedDepth cfg tdata := by
  have flags : ∀ i, i < tdata.stackDepth → skipFlag cfg other i = skipFlag cfg tdata i := by
    intro i bound
    simp only [skipFlag,routines i bound]
  constructor
  · rw [SkipCounted,skip,depth,Floor.count_congr flags]
    exact counted
  · rw [recordedDepth,depth]
    exact Floor.first_congr flags

def Recording (tdata : ThreadData) : Prop := 0 < tdata.stackDepth ∧ tdata.skip = 0

theorem recordedDepth_le (cfg : Config) (tdata : ThreadData) :
    recordedDepth cfg tdata ≤ tdata.stackDepth := Floor.first_le _ _

theorem SkipCounted.recorded_iff {cfg : Config} {tdata : ThreadData} (counted : SkipCounted cfg tdata) :
    tdata.skip = 0 ↔ recordedDepth cfg tdata = tdata.stackDepth := by
  rw [counted]
  exact Floor.count_zero_iff _ _

section
variable {cfg : Config} {tdata after : ThreadData}

/-- One stack has one frame more than the other, on top. -/
structure OneMore (tdata after : ThreadData) : Prop where
  depth : after.stackDepth = tdata.stackDepth + 1
  below : ∀ i, i < tdata.stackDepth → (after.stack i).routineInfo = (tdata.stack i).routineInfo

theorem OneMore.flags (more : OneMore tdata after) (i : Nat) (bound : i < tdata.stackDepth) :
    skipFlag cfg after i = skipFlag cfg tdata i := by
  simp only [skipFlag,more.below i bound]

theorem OneMore.count (more : OneMore tdata after) :
    Nat.count (fun i => skipFlag cfg after i = true) after.stackDepth =
      Nat.count (fun i => skipFlag cfg tdata i = true) tdata.stackDepth +
        if skipFlag cfg after tdata.stackDepth = true then 1 else 0 := by
  rw [more.depth,Nat.count_succ,Floor.count_congr more.flags]

theorem OneMore.first (more : OneMore tdata after) :
    Floor.first (skipFlag cfg after) tdata.stackDepth = recordedDepth cfg tdata :=
  Floor.first_congr more.flags

theorem OneMore.hidden (more : OneMore tdata after)
    (hidden : skipFlag cfg after tdata.stackDepth = true ∨ recordedDepth cfg tdata < tdata.stackDepth) :
    recordedDepth cfg after = recordedDepth cfg tdata := by
  rw [← more.first,recordedDepth,more.depth]
  rcases hidden with skip | inside
  · exact Floor.first_succ_hit skip
  · exact Floor.first_succ_inside (by rwa [more.first])

theorem OneMore.visible (more : OneMore tdata after)
    (all : recordedDepth cfg tdata = tdata.stackDepth)
    (plain : skipFlag cfg after tdata.stackDepth = false) :
    recordedDepth cfg after = tdata.stackDepth + 1 := by
  rw [recordedDepth,more.depth]
  exact Floor.first_succ_miss (by rwa [more.first]) plain

theorem SkipCounted.hidden_iff (counted : SkipCounted cfg tdata) :
    0 < tdata.skip ↔ recordedDepth cfg tdata < tdata.stackDepth := by
  have all := counted.recorded_iff
  have le := recordedDepth_le cfg tdata
  omega

theorem SkipCounted.enter (counted : SkipCounted cfg tdata) (more : OneMore tdata after)
    (skip : after.skip = tdata.skip + if skipFlag cfg after tdata.stackDepth = true then 1 else 0) :
    SkipCounted cfg after := by
  rw [SkipCounted,skip,more.count,counted]

theorem SkipCounted.leave (counted : SkipCounted cfg after) (more : OneMore tdata after)
    (skip : tdata.skip = if skipFlag cfg after tdata.stackDepth = true then after.skip - 1 else after.skip) :
    SkipCounted cfg tdata := by
  have total := counted
  rw [SkipCounted,more.count] at total
  rw [SkipCounted,skip]
  split at total
  · next flag =>
    rw [if_pos flag]
    omega
  · next flag =>
    rw [if_neg flag]
    omega

end

end Aprof
