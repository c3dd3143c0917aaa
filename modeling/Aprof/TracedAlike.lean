import Aprof.Visible
import Aprof.ReportCost

/-! Two threads are traced alike when they look the same to accesses, calls and
returns: the tables may have been extended by routines without tuples, the stacks
by room, and the slots above the stack may hold what other calls have left there. -/
namespace Aprof

open Lockstep

section
variable {cfg : Config}

/-- Two allocated stacks with the same frames, the first one doubled at least as often. -/
structure Room (depth size size' : Nat) : Prop where
  fits : depth ≤ size'
  positive : 0 < size'
  small : size < 29998
  doubled : ∃ k, size = size' * 2 ^ k

/-- The size of a stack after `get_activation` one above `depth` frames. -/
def grownSize (size depth : Nat) : Result Nat :=
  if depth + 1 ≥ size then
    if 0 < depth + 1 && depth + 1 < maxStack then .ok (if depth ≥ size then size * 2 else size)
    else .error (.assertion "Invalid depth")
  else .ok size

theorem getActivation_size (tdata : ThreadData) (depth : Nat) : getActivation tdata (depth + 1) =
    (grownSize tdata.maxStackSize depth).map fun size => {tdata with maxStackSize := size} := by
  unfold getActivation grownSize resizeStack check
  rw [Nat.add_sub_cancel]
  split
  · split
    · simp only [ok_bind]
      split <;> rfl
    · rfl
  · rfl

theorem grownSize_ok {size depth new : Nat} (ok : grownSize size depth = .ok new) :
    (depth + 1 < size ∧ new = size) ∨ (size ≤ depth + 1 ∧ depth + 1 < maxStack ∧
      new = if depth ≥ size then size * 2 else size) := by
  unfold grownSize at ok
  split at ok
  · next full =>
    split at ok
    · next small =>
      cases ok
      simp only [Bool.and_eq_true,decide_eq_true_eq] at small
      exact .inr ⟨full,small.2,rfl⟩
    · cases ok
  · next free =>
    cases ok
    exact .inl ⟨by omega,rfl⟩

theorem grownSize_room {size depth : Nat} (small : depth + 1 < maxStack) :
    grownSize size depth = .ok (if depth ≥ size then size * 2 else size) := by
  unfold grownSize
  by_cases full : depth + 1 ≥ size
  · rw [if_pos full,if_pos (by simpa using small)]
  · rw [if_neg full,if_neg (by omega)]

theorem Room.follow {depth size size' : Nat} (room : Room depth size size') (inside : depth < size)
    (enough : size ≤ depth + 1 → depth + 1 < maxStack) :
    ∃ new', grownSize size' depth = .ok new' ∧ Room (depth + 1) size new' := by
  obtain ⟨fits,positive,small,k,doubled⟩ := room
  have bound : maxStack = 15000 := rfl
  by_cases free : depth + 1 < size'
  · refine ⟨size',?_,⟨by omega,positive,small,k,doubled⟩⟩
    unfold grownSize
    exact if_neg (by omega)
  cases k with
  | zero =>
    have alike : size = size' := by rw [doubled,Nat.pow_zero,Nat.mul_one]
    refine ⟨_,grownSize_room (enough (by omega)),?_⟩
    rw [if_neg (by omega)]
    exact ⟨by omega,positive,small,0,doubled⟩
  | succ k =>
    have twice : size = size' * 2 * 2 ^ k := by rw [doubled,Nat.pow_succ,Nat.mul_assoc,Nat.mul_comm 2]
    have below : size' * 2 ≤ size' * 2 * 2 ^ k := Nat.le_mul_of_pos_right _ (Nat.two_pow_pos k)
    refine ⟨_,grownSize_room (by omega),?_⟩
    split
    · exact ⟨by omega,by omega,small,k,twice⟩
    · exact ⟨by omega,positive,small,k + 1,doubled⟩

theorem Room.grow {depth size size' new : Nat} (room : Room depth size size') (ok : grownSize size depth = .ok new) :
    ∃ new', grownSize size' depth = .ok new' ∧ Room (depth + 1) new new' := by
  have bound : maxStack = 15000 := rfl
  by_cases full : depth ≥ size
  · obtain ⟨fits,positive,small,k,doubled⟩ := room
    have below : size' ≤ size' * 2 ^ k := Nat.le_mul_of_pos_right _ (Nat.two_pow_pos k)
    rcases grownSize_ok ok with ⟨free,-⟩ | ⟨-,enough,rfl⟩
    · omega
    · refine ⟨_,grownSize_room enough,?_⟩
      rw [if_pos full,if_pos (by omega)]
      exact ⟨by omega,by omega,by omega,k,by rw [doubled,Nat.mul_right_comm]⟩
  · have inside : depth < size := by omega
    rcases grownSize_ok ok with ⟨free,rfl⟩ | ⟨-,enough,same⟩
    · exact room.follow inside fun _ => by omega
    · rw [same,if_neg full]
      exact room.follow inside fun _ => enough

/-- What `visible` keeps of two threads is the same. -/
structure SeenAlike (n : Nat) (tdata tdata' : ThreadData) : Prop where
  shadow : tdata.shadowMemory = tdata'.shadowMemory
  depth : tdata.stackDepth = tdata'.stackDepth
  skip : tdata.skip = tdata'.skip
  nextId : tdata.nextActivationId = tdata'.nextActivationId
  time : time tdata = time tdata'
  kept : ∀ i, i < n → (tdata.stack i).veil = (tdata'.stack i).veil
  hidden : ∀ i, n ≤ i → (tdata.stack i).hide = (tdata'.stack i).hide

theorem seenAlike_iff {n : Nat} {tdata tdata' : ThreadData} : SeenAlike n tdata tdata' ↔ tdata.visible n = tdata'.visible n := by
  constructor
  · rintro ⟨shadow,depth,skip,nextId,time,kept,hidden⟩
    have stack : veilStack n tdata.stack = veilStack n tdata'.stack := by
      ext1 i
      unfold veilStack
      split
      · next below => exact kept i below
      · next above => exact hidden i (by omega)
    unfold ThreadData.visible
    rw [shadow,depth,skip,nextId,time,stack]
  · intro same
    have slots : ∀ i, veilStack n tdata.stack i = veilStack n tdata'.stack i := fun i =>
      congrFun (congrArg ThreadData.stack same) i
    have field : ∀ {α : Type} (project : ThreadData → α), project (tdata.visible n) = project (tdata'.visible n) :=
      fun project => congrArg project same
    refine ⟨field ThreadData.shadowMemory,field ThreadData.stackDepth,field ThreadData.skip,
      field ThreadData.nextActivationId,field ThreadData.cost,fun i below => ?_,fun i above => ?_⟩
    · have slot := slots i
      rwa [veilStack,veilStack,if_pos below,if_pos below] at slot
    · have slot := slots i
      rwa [veilStack,veilStack,if_neg (by omega),if_neg (by omega)] at slot

theorem veil_hide {act act' : Activation} (same : act.veil = act'.veil) : act.hide = act'.hide := by
  have kept := congrArg Activation.hide same
  exact kept

section
variable {act act' : Activation} (same : act.veil = act'.veil)
include same

theorem veil_routineInfo : act.routineInfo = act'.routineInfo := by
  have kept := congrArg Activation.routineInfo same
  exact kept

theorem veil_start : act.start = act'.start := by
  have kept := congrArg Activation.start same
  exact kept

theorem veil_inputSize : act.inputSize = act'.inputSize := by
  have kept := congrArg Activation.inputSize same
  exact kept

theorem veil_children : act.sumChildrenCost = act'.sumChildrenCost := by
  have kept := congrArg Activation.sumChildrenCost same
  exact kept

end

/-- The threads of two runtimes that are traced alike. -/
structure TracedAlike (cfg : Config) (tdata tdata' : ThreadData) : Prop where
  seen : SeenAlike tdata.stackDepth tdata tdata'
  table : RoutineTable tdata
  table' : RoutineTable tdata'
  tables : SameTables cfg tdata tdata'
  room : Room tdata.stackDepth tdata.maxStackSize tdata'.maxStackSize

section
variable {tdata tdata' after after' : ThreadData}

theorem TracedAlike.control (alike : TracedAlike cfg tdata tdata') (fields : after.control = tdata.control)
    (fields' : after'.control = tdata'.control) (seen : SeenAlike after.stackDepth after after') :
    TracedAlike cfg after after' := by
  have size : after.maxStackSize = tdata.maxStackSize := by have kept := congrArg ThreadData.maxStackSize fields; exact kept
  have size' : after'.maxStackSize = tdata'.maxStackSize := by have kept := congrArg ThreadData.maxStackSize fields'; exact kept
  have kept := control_fields fields
  have kept' := control_fields fields'
  have routine : ∀ {first second : ThreadData}, first.rtnHt = second.rtnHt → ∀ g, first.routine g = second.routine g := by
    intro first second same g
    simp only [ThreadData.routine,same]
  refine ⟨seen,?_,?_,⟨fun g => ?_,fun separate g => ?_⟩,?_⟩
  · refine ⟨kept.routines ▸ alike.table.keyed,fun i below => ?_⟩
    rw [kept.routines,kept.routineInfo i]
    exact alike.table.registered i (kept.depth ▸ below)
  · refine ⟨kept'.routines ▸ alike.table'.keyed,fun i below => ?_⟩
    rw [kept'.routines,kept'.routineInfo i]
    exact alike.table'.registered i (kept'.depth ▸ below)
  · rw [routine kept.routines,routine kept'.routines]
    exact alike.tables.pending g
  · rw [routine kept.routines,routine kept'.routines]
    exact alike.tables.inputMap separate g
  · rw [kept.depth,size,size']
    exact alike.room

/-- `push_stack` once there is room. -/
def putFrame (cfg : Config) (sp : UInt64) (f : FnPtr) (tdata : ThreadData) : ThreadData :=
  (match htFind tdata.rtnHt f fun _ => true with
    | none => newRoutineInfo cfg tdata f
    | some _ => tdata).setTop (framed sp f)

theorem pushFrame_put (cfg : Config) (tdata : ThreadData) (sp : UInt64) (f : FnPtr) : pushFrame cfg tdata sp f =
    (getActivation {tdata with stackDepth := tdata.stackDepth + 1} (tdata.stackDepth + 1)).map (putFrame cfg sp f) := by
  unfold pushFrame
  dsimp only
  cases getActivation {tdata with stackDepth := tdata.stackDepth + 1} (tdata.stackDepth + 1) <;> rfl

theorem putFrame_eq (cfg : Config) (tdata : ThreadData) (sp : UInt64) (f : FnPtr) : ∃ table next, ∀ size,
    putFrame cfg sp f {tdata with stackDepth := tdata.stackDepth + 1, maxStackSize := size} = {tdata with
      stackDepth := tdata.stackDepth + 1, maxStackSize := size, rtnHt := table, nextRoutineId := next
      stack := Function.update tdata.stack tdata.stackDepth (framed sp f (tdata.stack tdata.stackDepth))} := by
  unfold putFrame
  dsimp only
  cases htFind tdata.rtnHt f fun _ => true with
  | some rtnInfo => exact ⟨tdata.rtnHt,tdata.nextRoutineId,fun _ => rfl⟩
  | none =>
    dsimp only
    unfold newRoutineInfo
    by_cases discard : (cfg.fn f).discard = true
    · simp only [if_pos discard]
      exact ⟨_,_,fun _ => rfl⟩
    · simp only [if_neg discard]
      by_cases single : cfg.singleReport = true
      · simp only [if_pos single]
        exact ⟨_,_,fun _ => rfl⟩
      · simp only [if_neg single]
        exact ⟨_,_,fun _ => rfl⟩

/-- `push_stack` and the size of the stack. -/
theorem pushFrame_size (cfg : Config) (tdata : ThreadData) (sp : UInt64) (f : FnPtr) : ∃ table next,
    pushFrame cfg tdata sp f = (grownSize tdata.maxStackSize tdata.stackDepth).map fun size => {tdata with
      stackDepth := tdata.stackDepth + 1, maxStackSize := size, rtnHt := table, nextRoutineId := next
      stack := Function.update tdata.stack tdata.stackDepth (framed sp f (tdata.stack tdata.stackDepth))} := by
  obtain ⟨table,next,put⟩ := putFrame_eq cfg tdata sp f
  refine ⟨table,next,?_⟩
  rw [pushFrame_put,getActivation_size {tdata with stackDepth := tdata.stackDepth + 1} tdata.stackDepth]
  cases grownSize tdata.maxStackSize tdata.stackDepth with
  | error fault => rfl
  | ok size => exact congrArg Except.ok (put size)

theorem SeenAlike.mono {m n : Nat} (seen : SeenAlike n tdata tdata') (le : m ≤ n) : SeenAlike m tdata tdata' := by
  refine ⟨seen.shadow,seen.depth,seen.skip,seen.nextId,seen.time,fun i below => seen.kept i (by omega),fun i above => ?_⟩
  by_cases here : i < n
  · exact veil_hide (seen.kept i here)
  · exact seen.hidden i (by omega)

theorem enterStart_slot (tdata : ThreadData) (sp : UInt64) (f : FnPtr) (size : Nat) (table : HashTable RoutineInfo)
    (next : UInt64) (i : Nat) : (enterStart {tdata with
      stackDepth := tdata.stackDepth + 1, maxStackSize := size, rtnHt := table, nextRoutineId := next
      stack := Function.update tdata.stack tdata.stackDepth (framed sp f (tdata.stack tdata.stackDepth))}).stack i =
    if i = tdata.stackDepth then {framed sp f (tdata.stack tdata.stackDepth) with start := time tdata} else tdata.stack i := by
  simp only [enterStart,ThreadData.setTop,ThreadData.setSlot,Nat.add_sub_cancel,Function.update_apply,if_true]
  split
  · rfl
  · rfl

theorem framed_alike {act act' : Activation} (same : act.hide = act'.hide) (sp start : UInt64) (f : FnPtr) :
    ({framed sp f act with start := start} : Activation).veil = ({framed sp f act' with start := start} : Activation).veil := by
  have kept := congrArg (fun base : Activation => ({framed sp f base with start := start} : Activation).veil) same
  exact kept

/-- What `push_stack` and the first line of `function_enter` make of the thread. -/
theorem TracedAlike.push (alike : TracedAlike cfg tdata tdata') {pushed : ThreadData} {sp : UInt64} {f : FnPtr}
    (ok : pushFrame cfg tdata sp f = .ok pushed) : ∃ pushed', pushFrame cfg tdata' sp f = .ok pushed' ∧
      TracedAlike cfg (enterStart pushed) (enterStart pushed') := by
  have tables := pushFrame_tables alike.table.keyed ok
  have table := alike.table.push ok
  have seen := alike.seen
  obtain ⟨_,_,pushes⟩ := pushFrame_size cfg tdata sp f
  obtain ⟨_,_,pushes'⟩ := pushFrame_size cfg tdata' sp f
  rw [pushes] at ok
  cases grows : grownSize tdata.maxStackSize tdata.stackDepth with
  | error fault =>
    rw [grows] at ok
    cases ok
  | ok new =>
    obtain ⟨new',grows',room⟩ := alike.room.grow grows
    rw [grows] at ok
    cases ok
    rw [seen.depth] at grows'
    rw [grows'] at pushes'
    have tables' := pushFrame_tables alike.table'.keyed pushes'
    have table' := alike.table'.push pushes'
    refine ⟨_,pushes',?_,table,table',⟨fun g => ?_,fun separate g => ?_⟩,room⟩
    · refine ⟨seen.shadow,congrArg (· + 1) seen.depth,seen.skip,seen.nextId,seen.time,fun i below => ?_,fun i above => ?_⟩
      · rw [enterStart_slot,enterStart_slot,← seen.depth]
        split
        · rw [← seen.time]
          exact framed_alike (seen.hidden _ (Nat.le_refl _)) sp _ f
        · next other =>
          have below : i < tdata.stackDepth + 1 := below
          exact seen.kept i (by omega)
      · have above : tdata.stackDepth + 1 ≤ i := above
        rw [enterStart_slot,enterStart_slot,← seen.depth,if_neg (by omega),if_neg (by omega)]
        exact seen.hidden i (by omega)
    · exact (tables'.pending g).trans ((alike.tables.pending g).trans (tables.pending g).symm)
    · exact (tables'.inputMap separate g).trans ((alike.tables.inputMap separate g).trans (tables.inputMap separate g).symm)

theorem enterShared_routine (cfg : Config) (table : RoutineTable tdata) (nonempty : 0 < tdata.stackDepth) (shared : Shared) :
    RoutinesKept tdata (enterShared cfg shared tdata).2 ∧ ∀ g, ((enterShared cfg shared tdata).2.routine g) =
      if g = tdata.top.routineInfo then
        {tdata.routine tdata.top.routineInfo with
          recursionPending := (tdata.routine tdata.top.routineInfo).recursionPending + 1}
      else tdata.routine g := by
  have known := table.registered (tdata.stackDepth - 1) (by omega)
  unfold enterShared
  split
  · exact @enterRecorded_routine {tdata with root := shared.root} cfg table.keyed known
  · exact enterRecorded_routine cfg table.keyed known

theorem SeenAlike.top {n : Nat} (seen : SeenAlike n tdata tdata') (inside : tdata.stackDepth - 1 < n) :
    tdata.top.veil = tdata'.top.veil := by
  have slot := seen.kept (tdata.stackDepth - 1) inside
  rw [ThreadData.top,ThreadData.top,← seen.depth]
  exact slot

theorem SeenAlike.update {n : Nat} (seen : SeenAlike n tdata tdata') {i : Nat} {act act' : Activation}
    (same : act.veil = act'.veil) (j : Nat) : (j < n → (Function.update tdata.stack i act j).veil =
      (Function.update tdata'.stack i act' j).veil) ∧ (n ≤ j → (Function.update tdata.stack i act j).hide =
      (Function.update tdata'.stack i act' j).hide) := by
  rw [Function.update_apply,Function.update_apply]
  split
  · exact ⟨fun _ => same,fun _ => veil_hide same⟩
  · exact ⟨seen.kept j,seen.hidden j⟩

/-- The part of `function_enter` for a recorded call. -/
theorem TracedAlike.record (alike : TracedAlike cfg tdata tdata') (nonempty : 0 < tdata.stackDepth) (shared shared' : Shared) :
    TracedAlike cfg (enterShared cfg shared tdata).2 (enterShared cfg shared' tdata').2 := by
  have seen := alike.seen
  have top := seen.top (by omega)
  have nonempty' : 0 < tdata'.stackDepth := by rw [← seen.depth]; exact nonempty
  obtain ⟨kept,routine⟩ := enterShared_routine cfg alike.table nonempty shared
  obtain ⟨kept',routine'⟩ := enterShared_routine cfg alike.table' nonempty' shared'
  obtain ⟨_,_,_,node,fields⟩ := enterShared_eq cfg shared tdata
  obtain ⟨_,_,_,node',fields'⟩ := enterShared_eq cfg shared' tdata'
  have routines : ∀ i, ((enterShared cfg shared tdata).2.stack i).routineInfo = (tdata.stack i).routineInfo := by
    intro i
    rw [fields]
    dsimp only
    rw [Function.update_apply]
    split
    · next here => rw [here]; rfl
    · rfl
  have routines' : ∀ i, ((enterShared cfg shared' tdata').2.stack i).routineInfo = (tdata'.stack i).routineInfo := by
    intro i
    rw [fields']
    dsimp only
    rw [Function.update_apply]
    split
    · next here => rw [here]; rfl
    · rfl
  have table := alike.table.kept kept (by rw [fields]) fun i _ => routines i
  have table' := alike.table'.kept kept' (by rw [fields']) fun i _ => routines' i
  have called := veil_routineInfo top
  refine ⟨?_,table,table',⟨fun g => ?_,fun separate g => ?_⟩,?_⟩
  · rw [fields,fields']
    have reset : (resetCounts node tdata.top).veil = (resetCounts node' tdata'.top).veil := by
      have kept := congrArg (resetCounts none) top
      exact kept
    have slots := fun i => seen.update (i := tdata.stackDepth - 1) reset i
    rw [← seen.depth]
    exact ⟨seen.shadow,rfl,seen.skip,seen.nextId,seen.time,fun i => (slots i).1,fun i => (slots i).2⟩
  · rw [routine,routine',← called]
    split
    · exact congrArg (· + 1) (alike.tables.pending _)
    · exact alike.tables.pending g
  · rw [routine,routine',← called]
    split
    · exact alike.tables.inputMap separate _
    · exact alike.tables.inputMap separate g
  · rw [fields,fields']
    exact alike.room

theorem recordTuple_veil (plain : cfg.collectCCT = false) {act act' : Activation} (same : act.veil = act'.veil)
    (context context' : UInt32) (cumul self : UInt64) (outermost : Bool) (inputMap : HashTable (Input UInt64)) :
    recordTuple cfg act context cumul self outermost inputMap = recordTuple cfg act' context' cumul self outermost inputMap := by
  have adds : accumulate act cumul self outermost = accumulate act' cumul self outermost := by
    have kept := congrArg (fun act => accumulate act cumul self outermost) same
    exact kept
  have size := veil_inputSize same
  unfold recordTuple
  simp only [plain,adds,size,Bool.false_eq_true,if_false,Bool.not_false,Bool.true_or]

theorem exitTime_alike (cfg : Config) {n : Nat} (seen : SeenAlike n tdata tdata') (inside : tdata.stackDepth - 1 < n) :
    exitTicks cfg tdata - tdata.skipCost = exitTicks cfg tdata' - tdata'.skipCost := by
  have top := seen.top inside
  have time := seen.time
  unfold Aprof.time at time
  unfold exitTicks
  rw [veil_routineInfo top,veil_inputSize top]
  split
  · have later : ∀ now more skipped : UInt64, now + more - skipped = now - skipped + more := by
      intro now more skipped
      grind
    rw [later,later,time]
  · exact time

theorem exitCumul_alike (cfg : Config) {n : Nat} (seen : SeenAlike n tdata tdata') (inside : tdata.stackDepth - 1 < n) :
    exitCumul cfg tdata = exitCumul cfg tdata' := by
  unfold exitCumul
  rw [exitTime_alike cfg seen inside,veil_start (seen.top inside)]

theorem exitRoutine_ticks (cfg : Config) (tdata : ThreadData) (rtnInfo : RoutineInfo) :
    exitRoutine cfg {tdata with cost := exitTicks cfg tdata} rtnInfo =
      if (cfg.fn tdata.top.routineInfo).discard then {rtnInfo with recursionPending := rtnInfo.recursionPending - 1}
      else {rtnInfo with
        recursionPending := rtnInfo.recursionPending - 1
        inputMap := recordTuple cfg tdata.top (contextOf tdata tdata.top) (exitCumul cfg tdata)
          (exitCumul cfg tdata - tdata.top.sumChildrenCost) (decide (rtnInfo.recursionPending - 1 < 1)) rtnInfo.inputMap} := rfl

theorem functionExit_alike (plain : cfg.collectCCT = false) (seen : SeenAlike tdata.stackDepth tdata tdata')
    (table : RoutineTable tdata) (table' : RoutineTable tdata') (nonempty : 0 < tdata.stackDepth)
    (pending : ∀ g, (tdata'.routine g).recursionPending = (tdata.routine g).recursionPending) (g : FnPtr) :
    ((functionExit cfg tdata').routine g).recursionPending = ((functionExit cfg tdata).routine g).recursionPending ∧
      ((tdata'.routine g).inputMap = (tdata.routine g).inputMap →
        ((functionExit cfg tdata').routine g).inputMap = ((functionExit cfg tdata).routine g).inputMap) := by
  have top := seen.top (by omega)
  have called := veil_routineInfo top
  have cumul := exitCumul_alike cfg seen (by omega)
  rw [functionExit_routine table nonempty,functionExit_routine table' (by rw [← seen.depth]; exact nonempty)]
  by_cases hit : tdata.skip = 0 ∧ g = tdata.top.routineInfo
  · have hit' : tdata'.skip = 0 ∧ g = tdata'.top.routineInfo := ⟨seen.skip ▸ hit.1,called ▸ hit.2⟩
    rw [if_pos hit,if_pos hit',exitRoutine_ticks,exitRoutine_ticks,← called,← hit.2]
    by_cases discard : (cfg.fn g).discard = true
    · rw [if_pos discard,if_pos discard]
      exact ⟨congrArg (· - 1) (pending g),id⟩
    · rw [if_neg discard,if_neg discard]
      refine ⟨congrArg (· - 1) (pending g),fun map => ?_⟩
      dsimp only
      rw [← cumul,← veil_children top,pending g,map]
      exact (recordTuple_veil plain top _ _ _ _ _ _).symm
  · have miss : ¬(tdata'.skip = 0 ∧ g = tdata'.top.routineInfo) := fun both => hit ⟨seen.skip ▸ both.1,called ▸ both.2⟩
    rw [if_neg hit,if_neg miss]
    exact ⟨pending g,id⟩

theorem attach_seen (cfg : Config) (n : Nat) (shared : Shared) : SeenAlike n (attach cfg shared tdata) tdata := by
  obtain ⟨_,_,same⟩ := attach_eq cfg shared tdata
  rw [same]
  exact ⟨rfl,rfl,rfl,rfl,rfl,fun _ _ => rfl,fun _ _ => rfl⟩

theorem SeenAlike.trans {n : Nat} {other : ThreadData} (first : SeenAlike n tdata tdata') (second : SeenAlike n tdata' other) :
    SeenAlike n tdata other := seenAlike_iff.mpr ((seenAlike_iff.mp first).trans (seenAlike_iff.mp second))

theorem SeenAlike.symm {n : Nat} (seen : SeenAlike n tdata tdata') : SeenAlike n tdata' tdata :=
  seenAlike_iff.mpr (seenAlike_iff.mp seen).symm

theorem afterExit_alike {n : Nat} (seen : SeenAlike (n + 1) tdata tdata') (depth : tdata.stackDepth = n + 1) (cumul : UInt64)
    (j : Nat) : (j < n → (afterExit tdata.stack tdata.stackDepth cumul j).veil =
        (afterExit tdata'.stack tdata.stackDepth cumul j).veil) ∧
      (n ≤ j → (afterExit tdata.stack tdata.stackDepth cumul j).hide =
        (afterExit tdata'.stack tdata.stackDepth cumul j).hide) := by
  unfold afterExit
  split
  · have top := seen.kept n (by omega)
    have parent := seen.kept (tdata.stackDepth - 2) (by omega)
    have propagated : (propagate (tdata.stack n) cumul (tdata.stack (tdata.stackDepth - 2))).veil =
        (propagate (tdata'.stack n) cumul (tdata'.stack (tdata.stackDepth - 2))).veil := by
      have left := congrArg (fun act => propagate act cumul (tdata.stack (tdata.stackDepth - 2)).veil) top
      have right := congrArg (fun act => propagate (tdata'.stack n).veil cumul act) parent
      exact left.trans right
    have last : tdata.stackDepth - 1 = n := by omega
    rw [last]
    exact (seen.mono (Nat.le_succ n)).update propagated j
  · exact ⟨(seen.mono (Nat.le_succ n)).kept j,(seen.mono (Nat.le_succ n)).hidden j⟩

theorem TracedAlike.exitTables (alike : TracedAlike cfg tdata tdata') (plain : cfg.collectCCT = false)
    (nonempty : 0 < tdata.stackDepth) {shared shared' : Shared} (maps : shared.inputMaps = shared'.inputMaps) :
    SameTables cfg (popShared cfg shared tdata).2 (popShared cfg shared' tdata').2 ∧
      (popShared cfg shared tdata).1.inputMaps = (popShared cfg shared' tdata').1.inputMaps := by
  have called := veil_routineInfo (alike.seen.top (by omega))
  obtain ⟨table,routine⟩ := attach_table cfg alike.table nonempty shared
  obtain ⟨table',routine'⟩ := attach_table cfg alike.table' (by rw [← alike.seen.depth]; exact nonempty) shared'
  have depth : (attach cfg shared tdata).stackDepth = tdata.stackDepth := (attach_seen cfg 0 shared).depth
  have seen : SeenAlike (attach cfg shared tdata).stackDepth (attach cfg shared tdata) (attach cfg shared' tdata') := by
    rw [depth]
    exact (attach_seen cfg _ shared).trans (alike.seen.trans (attach_seen cfg _ shared').symm)
  have pending : ∀ g, ((attach cfg shared' tdata').routine g).recursionPending =
      ((attach cfg shared tdata).routine g).recursionPending := by
    intro g
    rw [routine,routine',← called]
    split
    · exact alike.tables.pending _
    · exact alike.tables.pending g
  have exits := functionExit_alike plain seen table table' (by rw [depth]; exact nonempty) pending
  refine ⟨⟨fun g => ?_,fun separate g => ?_⟩,?_⟩
  · rw [popShared_look,popShared_look]
    exact (exits g).1
  · rw [popShared_look,popShared_look]
    refine (exits g).2 ?_
    have apart : ∀ {f : FnPtr}, ¬(cfg.singleReport = true ∧ g = f) := fun both => by
      rw [separate] at both
      exact absurd both.1 nofun
    rw [routine,routine',if_neg apart,if_neg apart]
    exact alike.tables.inputMap separate g
  · rw [popShared_inputMaps,popShared_inputMaps,← maps,← called]
    split
    · next single =>
      refine congrArg (Function.update shared.inputMaps tdata.top.routineInfo) ((exits _).2 ?_).symm
      have own : cfg.singleReport = true ∧ tdata.top.routineInfo = tdata.top.routineInfo := ⟨single,rfl⟩
      rw [routine,routine',if_pos own,if_pos ⟨single,called⟩,maps,called]
    · rfl

theorem popShared_size (cfg : Config) (shared : Shared) (tdata : ThreadData) :
    (popShared cfg shared tdata).2.maxStackSize = tdata.maxStackSize := by
  rcases Nat.eq_zero_or_pos tdata.skip with recorded | skipping
  · obtain ⟨_,_,same⟩ := popShared_recorded cfg shared tdata recorded
    rw [same]
  · obtain ⟨_,_,same⟩ := popShared_skipped cfg shared tdata skipping
    rw [same]

theorem RoutineTable.pop (table : RoutineTable tdata) (shared : Shared) : RoutineTable (popShared cfg shared tdata).2 :=
  table.kept (popShared_kept cfg shared tdata) (Nat.sub_le _ _) fun i _ => popShared_routines cfg shared tdata i

theorem SeenAlike.exit (seen : SeenAlike tdata.stackDepth tdata tdata') (nonempty : 0 < tdata.stackDepth)
    (shared shared' : Shared) : SeenAlike (tdata.stackDepth - 1) (popShared cfg shared tdata).2 (popShared cfg shared' tdata').2 := by
  obtain ⟨n,depth⟩ : ∃ n, tdata.stackDepth = n + 1 := Nat.exists_eq_succ_of_ne_zero (Nat.pos_iff_ne_zero.mp nonempty)
  have top := seen.top (by omega)
  have cumul := exitCumul_alike cfg seen (by omega)
  have clock := exitTime_alike cfg seen (by omega)
  have lower : SeenAlike (n + 1) tdata tdata' := by
    rw [← depth]
    exact seen
  rw [depth,Nat.add_sub_cancel]
  rcases Nat.eq_zero_or_pos tdata.skip with recorded | skipping
  · obtain ⟨_,_,same⟩ := popShared_recorded cfg shared tdata recorded
    obtain ⟨_,_,same'⟩ := popShared_recorded cfg shared' tdata' (seen.skip ▸ recorded)
    have slots := afterExit_alike lower depth (exitCumul cfg tdata)
    rw [same,same',← seen.depth,← cumul]
    exact ⟨seen.shadow,rfl,seen.skip,seen.nextId,clock,fun j => (slots j).1,fun j => (slots j).2⟩
  · obtain ⟨_,_,same⟩ := popShared_skipped cfg shared tdata skipping
    obtain ⟨_,_,same'⟩ := popShared_skipped cfg shared' tdata' (seen.skip ▸ skipping)
    have flag : skipFlag cfg tdata' (tdata.stackDepth - 1) = skipFlag cfg tdata (tdata.stackDepth - 1) := by
      unfold skipFlag
      rw [veil_routineInfo (seen.kept (tdata.stackDepth - 1) (by omega))]
    rw [same,same',← seen.depth,← cumul,← seen.skip,flag]
    have below := lower.mono (Nat.le_succ n)
    refine ⟨seen.shadow,rfl,rfl,seen.nextId,?_,below.kept,below.hidden⟩
    unfold Aprof.time
    dsimp only
    split
    · have later : ∀ now skipped cumul : UInt64, now - (skipped + cumul) = now - skipped - cumul := by
        intro now skipped cumul
        grind
      rw [later,later,clock]
    · exact clock

theorem TracedAlike.exit (alike : TracedAlike cfg tdata tdata') (plain : cfg.collectCCT = false)
    (nonempty : 0 < tdata.stackDepth) {shared shared' : Shared} (maps : shared.inputMaps = shared'.inputMaps) :
    TracedAlike cfg (popShared cfg shared tdata).2 (popShared cfg shared' tdata').2 ∧
      (popShared cfg shared tdata).1.inputMaps = (popShared cfg shared' tdata').1.inputMaps := by
  obtain ⟨tables,maps'⟩ := alike.exitTables plain nonempty maps
  refine ⟨⟨alike.seen.exit nonempty shared shared',alike.table.pop shared,alike.table'.pop shared',tables,?_⟩,maps'⟩
  rw [popShared_depth,popShared_size,popShared_size]
  exact ⟨Nat.le_trans (Nat.sub_le _ _) alike.room.fits,alike.room.positive,alike.room.small,alike.room.doubled⟩

end

end

end Aprof
