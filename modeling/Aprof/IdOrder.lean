import Aprof.DrmsRefinement
import Aprof.ThreadRuns

/-! The ids of the recorded calls in every state of a run: positive, increasing
towards the top of a stack and held by one thread each. This is what the merge of
`overflow_handler_drms` relies on; the slots of skipped calls keep any id. -/
namespace Aprof

open Floor Lockstep

structure SameIds (tdata after : ThreadData) : Prop where
  frames : SameFrames tdata after
  ids : ∀ i, after.ids i = tdata.ids i

theorem SameIds.refl (tdata : ThreadData) : SameIds tdata tdata := ⟨⟨rfl,rfl,rfl,fun _ => rfl⟩,fun _ => rfl⟩

theorem SameIds.trans {tdata middle after : ThreadData} (first : SameIds tdata middle)
    (second : SameIds middle after) : SameIds tdata after :=
  ⟨first.frames.trans second.frames,fun i => (second.ids i).trans (first.ids i)⟩

theorem slots_setSlot (tdata : ThreadData) (i : Nat) (f : Activation → Activation)
    (ids : ∀ act, (f act).activationId = act.activationId) (routines : ∀ act, (f act).routineInfo = act.routineInfo) :
    SameIds tdata (tdata.setSlot i f) :=
  ⟨frames_setSlot tdata i f routines,(SameStamps.setSlot i f ids).ids⟩

theorem slots_shadow (tdata : ThreadData) (shadow : LookupTable Nat) :
    SameIds tdata {tdata with shadowMemory := shadow} := ⟨⟨rfl,rfl,rfl,fun _ => rfl⟩,fun _ => rfl⟩

section
variable {c : Counter} {cfg : Config}

theorem accessCellDrms_slots {ts : Nat} {type : AccessType} {kernelAccess : Bool}
    {state after : LookupTable c.Word × ThreadData} {addr : Nat}
    (ok : accessCellDrms c ts type kernelAccess state addr = .ok after) : SameIds state.2 after.2 := by
  obtain ⟨wts,-,same | counted⟩ := accessCellDrms_cases ok
  · rw [same]
    exact .refl state.2
  · refine countAccess_keeps (P := SameIds state.2) (fun _ lk _ => slots_shadow state.2 lk) ?_ counted
    intro tdata i count known same
    refine same.trans (slots_setSlot tdata i count (fun act => ?_) fun act => ?_)
    · simp only [List.mem_cons,List.not_mem_nil,or_false] at known
      rcases known with rfl | rfl | rfl | rfl <;> rfl
    · simp only [List.mem_cons,List.not_mem_nil,or_false] at known
      rcases known with rfl | rfl | rfl | rfl <;> rfl

/-- The depth up to which the calls of a thread are recorded. -/
def recordedDepths (cfg : Config) (threads : Nat → Option ThreadData) (tid : Nat) : Nat :=
  ((threads tid).map (recordedDepth cfg)).getD 0

/-- `bound` is at least every id. -/
structure IdsInOrder (cfg : Config) (threads : Nat → Option ThreadData) (bound : Nat) : Prop where
  named : ∀ tid tdata, threads tid = some tdata → (0 < tid ∧ tid ≤ cfg.maxThreads) ∧ SkipCounted cfg tdata
  positive : ∀ tid k, k < recordedDepths cfg threads tid → 0 < frameId threads tid k
  increasing : ∀ tid, Increasing (frameId threads tid) (recordedDepths cfg threads tid)
  distinct : ∀ tid other k l, k < recordedDepths cfg threads tid → l < recordedDepths cfg threads other →
    frameId threads tid k = frameId threads other l → tid = other
  below : ∀ tid k, k < recordedDepths cfg threads tid → frameId threads tid k ≤ bound

variable {threads after : Nat → Option ThreadData} {bound bound' tid : Nat} {tdata tdata' : ThreadData}

theorem recordedDepths_some (found : threads tid = some tdata) :
    recordedDepths cfg threads tid = recordedDepth cfg tdata := by
  rw [recordedDepths,found]
  rfl

theorem frameId_some (found : threads tid = some tdata) : frameId threads tid = tdata.ids := by
  ext1 k
  rw [frameId,found]
  rfl

theorem recordedDepths_none (missing : threads tid = none) : recordedDepths cfg threads tid = 0 := by
  rw [recordedDepths,missing]
  rfl

/-- A thread that keeps its recorded ids, or some of the lower ones. -/
structure Shrinks (cfg : Config) (threads : Nat → Option ThreadData) (tid : Nat) (tdata' : ThreadData) : Prop where
  named : (0 < tid ∧ tid ≤ cfg.maxThreads) ∧ SkipCounted cfg tdata'
  le : recordedDepth cfg tdata' ≤ recordedDepths cfg threads tid
  ids : ∀ k, k < recordedDepth cfg tdata' → tdata'.ids k = frameId threads tid k

theorem IdsInOrder.shrink (order : IdsInOrder cfg threads bound) (le : bound ≤ bound')
    (shrinks : ∀ tid tdata', after tid = some tdata' → Shrinks cfg threads tid tdata') :
    IdsInOrder cfg after bound' := by
  have each : ∀ tid, recordedDepths cfg after tid ≤ recordedDepths cfg threads tid ∧
      ∀ k, k < recordedDepths cfg after tid → frameId after tid k = frameId threads tid k := by
    intro tid
    cases found : after tid with
    | none =>
      rw [recordedDepths_none found]
      exact ⟨Nat.zero_le _,fun k below => absurd below (Nat.not_lt_zero k)⟩
    | some tdata' =>
      rw [recordedDepths_some found,frameId_some found]
      exact ⟨(shrinks tid tdata' found).le,(shrinks tid tdata' found).ids⟩
  constructor
  · intro tid tdata' found
    exact (shrinks tid tdata' found).named
  · intro tid k bound
    rw [(each tid).2 k bound]
    exact order.positive tid k (Nat.lt_of_lt_of_le bound (each tid).1)
  · intro tid i j lt bound
    rw [(each tid).2 i (by omega),(each tid).2 j bound]
    exact order.increasing tid i j lt (Nat.lt_of_lt_of_le bound (each tid).1)
  · intro tid other k l bound bound' same
    rw [(each tid).2 k bound,(each other).2 l bound'] at same
    exact order.distinct tid other k l (Nat.lt_of_lt_of_le bound (each tid).1)
      (Nat.lt_of_lt_of_le bound' (each other).1) same
  · intro tid k bound
    rw [(each tid).2 k bound]
    exact Nat.le_trans (order.below tid k (Nat.lt_of_lt_of_le bound (each tid).1)) le

theorem IdsInOrder.kept (order : IdsInOrder cfg threads bound) (found : threads tid = some tdata) :
    Shrinks cfg threads tid tdata := by
  refine ⟨order.named tid tdata found,?_,?_⟩
  · rw [recordedDepths_some found]
  · intro k _
    rw [frameId_some found]

theorem IdsInOrder.put (order : IdsInOrder cfg threads bound) (shrinks : Shrinks cfg threads tid tdata') :
    IdsInOrder cfg (Function.update threads tid (some tdata')) bound := by
  refine order.shrink (Nat.le_refl bound) ?_
  intro other tdata found
  rw [Function.update_apply] at found
  split at found
  · next same =>
    cases found
    rw [same]
    exact shrinks
  · exact order.kept found

theorem Shrinks.same (order : IdsInOrder cfg threads bound) (found : threads tid = some tdata)
    (slots : SameIds tdata tdata') : Shrinks cfg threads tid tdata' := by
  obtain ⟨named,counted⟩ := order.named tid tdata found
  obtain ⟨counted',depth⟩ := slots.frames.counted counted
  refine ⟨⟨named,counted'⟩,?_,?_⟩
  · rw [recordedDepths_some found,depth]
  · intro k _
    rw [frameId_some found]
    exact slots.ids k

end

section
variable {c : Counter} {cfg : Config} {rt after : Runtime c}

/-- The ids are in order, and none is above the counter. -/
def Runtime.InOrder (cfg : Config) (rt : Runtime c) : Prop := IdsInOrder cfg rt.threads rt.globalCounter

theorem Runtime.InOrder.threadStart {tid : Nat} (order : rt.InOrder cfg) (ok : threadStart cfg rt tid = .ok after) :
    after.InOrder cfg := by
  obtain ⟨_,named,ok⟩ := bind_ok.mp ok
  obtain ⟨_,_,ok⟩ := bind_ok.mp ok
  obtain ⟨shadow,_,ok⟩ := bind_ok.mp ok
  cases ok
  have named := check_ok.mp named
  simp only [Bool.and_eq_true,decide_eq_true_eq] at named
  have none : recordedDepth cfg (newThread cfg tid shadow) = 0 := rfl
  refine IdsInOrder.put order ⟨⟨named,(Nat.count_zero _).symm⟩,?_,?_⟩
  · rw [none]
    exact Nat.zero_le _
  · intro k below
    rw [none] at below
    exact absurd below (Nat.not_lt_zero k)

theorem Runtime.InOrder.threadExit {tid : Nat} (order : rt.InOrder cfg) (ok : threadExit cfg rt tid = .ok after) :
    after.InOrder cfg := by
  unfold Aprof.threadExit at ok
  split at ok
  · cases ok
  · cases ok
    refine IdsInOrder.shrink order (Nat.le_refl _) ?_
    intro other tdata found
    dsimp only at found
    rw [Function.update_apply] at found
    split at found
    · cases found
    · exact IdsInOrder.kept order found

theorem Runtime.InOrder.bbStart (order : rt.InOrder cfg) (ok : bbStart rt = .ok after) : after.InOrder cfg := by
  obtain ⟨tdata,current,ok⟩ := bind_ok.mp ok
  cases ok
  exact IdsInOrder.put order (.same order (current_ok.mp current) ⟨⟨rfl,rfl,rfl,fun _ => rfl⟩,fun _ => rfl⟩)

theorem Runtime.InOrder.popStack (order : rt.InOrder cfg) (ok : popStack cfg rt = .ok after) : after.InOrder cfg := by
  obtain ⟨tdata,current,ok⟩ := bind_ok.mp ok
  obtain ⟨_,nonempty,ok⟩ := bind_ok.mp ok
  cases ok
  have nonempty : 0 < tdata.stackDepth := by simpa using check_ok.mp nonempty
  have found := current_ok.mp current
  obtain ⟨named,counted⟩ := order.named _ tdata found
  have depth := popShared_recordedDepth counted rt.shared nonempty
  have shrinks : Shrinks cfg rt.threads rt.currentTid (popShared cfg rt.shared tdata).2 := by
    refine ⟨⟨named,popShared_counted counted rt.shared nonempty⟩,?_,?_⟩
    · rw [recordedDepths_some found,depth]
      split
      · next recorded =>
        rw [counted.recorded_iff.mp recorded]
        exact Nat.sub_le _ _
      · exact Nat.le_refl _
    · intro k _
      rw [frameId_some found]
      exact (stamps_popShared cfg rt.shared tdata).ids k
  exact IdsInOrder.put order shrinks

theorem Runtime.InOrder.traceAccess (drms : cfg.inputMetric = .drms) {type : AccessType} {addr size : Nat} {kernel : Bool}
    (order : rt.InOrder cfg) (ok : traceAccess cfg rt type addr size kernel = .ok after) : after.InOrder cfg := by
  obtain ⟨tdata,current,ok⟩ := bind_ok.mp ok
  simp only [drms] at ok
  obtain ⟨⟨global,tdata'⟩,traced,ok⟩ := bind_ok.mp ok
  cases ok
  refine IdsInOrder.put order (.same order (current_ok.mp current) ?_)
  unfold traceAccessDrms at traced
  split at traced
  · cases traced
    exact .refl tdata
  · exact foldlM_keeps (P := fun state : LookupTable c.Word × ThreadData => SameIds tdata state.2)
      (fun _ _ _ same ok => same.trans (accessCellDrms_slots ok)) _ (rt.globalShadow,tdata) _ (.refl tdata) traced

theorem Runtime.InOrder.kernelStore (drms : cfg.inputMetric = .drms) {buffer : Nat × Int} (order : rt.InOrder cfg)
    (ok : kernelStore cfg rt buffer = .ok after) : after.InOrder cfg :=
  foldlM_keeps (P := fun rt : Runtime c => rt.InOrder cfg) (fun _ _ _ order ok => order.traceAccess drms ok) _ rt _
    order ok

theorem IdsInOrder.mergeable {threads : Nat → Option ThreadData} {bound : Nat} {live : List Nat}
    (order : IdsInOrder cfg threads bound) (recorded : ∀ tid tdata, threads tid = some tdata → tdata.skip = 0) :
    Mergeable live threads (depthOf threads) := by
  have depths : ∀ tid, depthOf threads tid = recordedDepths cfg threads tid := by
    intro tid
    cases found : threads tid with
    | none =>
      rw [recordedDepths_none found,depthOf,found]
      rfl
    | some tdata =>
      rw [recordedDepths_some found,(order.named tid tdata found).2.recorded_iff.mp (recorded tid tdata found),depthOf,
        found]
      rfl
  constructor
  · intro tid _ k below
    exact order.positive tid k (depths tid ▸ below)
  · intro tid _
    rw [depths tid]
    exact order.increasing tid
  · intro tid _ other _ k below l below' same
    exact order.distinct tid other k l (depths tid ▸ below) (depths other ▸ below') same

theorem Runtime.Orderly.mergeable {bound : Nat} (orderly : rt.Orderly cfg) (order : IdsInOrder cfg rt.threads bound) :
    Mergeable (rt.live cfg) rt.threads (depthOf rt.threads) :=
  orderly.elim order.mergeable id

theorem Runtime.Orderly.overflow {bound counter : Nat} (orderly : rt.Orderly cfg) (order : IdsInOrder cfg rt.threads bound)
    (ok : overflowHandler cfg rt = .ok (counter,after)) : counter = 3 * (rt.pendingFrames cfg + 2) ∧
      IdsInOrder cfg after.threads (counter - 1) ∧
      ∀ tid, (after.threads tid).map ThreadData.erase = (rt.threads tid).map ThreadData.erase := by
  obtain ⟨threads',array,handled,zero,inc,absent,present⟩ :=
    overflowHandlerDrms_ok c rt.globalShadow (rt.nodup_live cfg) (orderly.mergeable order)
  have sum : ((rt.live cfg).map (depthOf rt.threads)).sum = rt.pendingFrames cfg := rfl
  obtain ⟨-,-,-,erased⟩ := overflowHandler_erase ok
  unfold overflowHandler at ok
  rw [handled,sum] at ok
  rw [sum] at inc present
  cases ok
  generalize rt.pendingFrames cfg = n at inc present ⊢
  -- each recorded id is three times an index of the array, where the old id is
  have ranked : ∀ tid k, k < recordedDepths cfg threads' tid → k < recordedDepths cfg rt.threads tid ∧
      ∃ j, 1 ≤ j ∧ j ≤ n ∧ array j = frameId rt.threads tid k ∧ frameId threads' tid k = 3 * j := by
    intro tid k below
    cases found : rt.threads tid with
    | none =>
      rw [recordedDepths_none (absent tid found)] at below
      exact absurd below (Nat.not_lt_zero k)
    | some tdata =>
      obtain ⟨named,counted⟩ := order.named tid tdata found
      obtain ⟨tdata',found',renumbered⟩ := present tid (mem_live.mpr ⟨by rw [found]; rfl,named⟩) tdata found
      obtain ⟨-,depth⟩ := (sameFrames renumbered.erase).counted counted
      rw [recordedDepths_some found',depth] at below
      have inside := recordedDepth_le cfg tdata
      rw [recordedDepths_some found,frameId_some found,frameId_some found']
      exact ⟨below,renumbered.ids k (by omega)⟩
  have indices : ∀ {i j : Nat}, i ≤ n → j ≤ n → (array i < array j ↔ i < j) := by
    intro i j le le'
    constructor
    · intro less
      by_contra back
      have := inc.le (i := j) (j := i) (by omega) (by omega)
      omega
    · intro lt
      exact inc i j lt (by omega)
  refine ⟨rfl,?_,erased⟩
  constructor
  · intro tid tdata' found'
    cases found : rt.threads tid with
    | none =>
      dsimp only at found'
      rw [absent tid found] at found'
      cases found'
    | some tdata =>
      obtain ⟨named,counted⟩ := order.named tid tdata found
      obtain ⟨other,found'',renumbered⟩ := present tid (mem_live.mpr ⟨by rw [found]; rfl,named⟩) tdata found
      have equal : some tdata' = some other := found'.symm.trans found''
      cases equal
      exact ⟨named,((sameFrames renumbered.erase).counted counted).1⟩
  · intro tid k below
    obtain ⟨-,j,low,-,-,moved⟩ := ranked tid k below
    dsimp only
    omega
  · intro tid i j lt below
    dsimp only at below
    obtain ⟨-,a,low,high,rank,moved⟩ := ranked tid i (by omega)
    obtain ⟨inside,b,low',high',rank',moved'⟩ := ranked tid j below
    have old := order.increasing tid i j lt inside
    rw [← rank,← rank',indices high high'] at old
    dsimp only
    omega
  · intro tid other k l below below' same
    obtain ⟨inside,a,low,high,rank,moved⟩ := ranked tid k below
    obtain ⟨inside',b,low',high',rank',moved'⟩ := ranked other l below'
    dsimp only at same
    have equal : a = b := by omega
    rw [equal,rank'] at rank
    exact order.distinct tid other k l inside inside' rank.symm
  · intro tid k below
    obtain ⟨-,j,low,high,-,moved⟩ := ranked tid k below
    dsimp only
    omega

end

section
variable {c : Counter} {cfg : Config} {rt after : Runtime c}

/-- The runtime on which `increase_global_counter` calls the handler. -/
def Runtime.counting (rt : Runtime c) : Option (Runtime c) :=
  if c.full (rt.globalCounter + 1) then some {rt with globalCounter := rt.globalCounter + 1} else none

def Runtime.switching (rt : Runtime c) (tid : Nat) : Option (Runtime c) :=
  if tid = rt.currentTid ∨ tid = 0 then none else ({rt with currentTid := tid} : Runtime c).counting

/-- The stack as `function_enter` shows it to the handler. -/
def lowered (counter : Nat) (opened : ThreadData) : ThreadData :=
  let named := opened.setTop fun act => {act with activationId := counter}
  {named with stackDepth := named.stackDepth - 1}

def Runtime.entering (cfg : Config) (rt : Runtime c) (sp : UInt64) (f : FnPtr) : Option (Runtime c) :=
  match rt.threads rt.currentTid with
  | none => none
  | some tdata =>
    match pushFrame cfg tdata sp f with
    | .error _ => none
    | .ok pushed =>
      if (cfg.fn (enterStart pushed).top.routineInfo).skip ∨ (enterStart pushed).skip > 0 then none
      else rt.counting.map fun rt => rt.put rt.currentTid (lowered rt.globalCounter (enterStart pushed))

/-- The runtime on which an event calls `overflow_handler_drms`. -/
def Runtime.overflowAt (cfg : Config) (rt : Runtime c) : Event → Option (Runtime c)
  | .threadSwitch tid => rt.switching tid
  | .functionEnter sp f => rt.entering cfg sp f
  | .postSyscall tid _ => if tid ≠ rt.currentTid then rt.switching tid else rt.counting
  | _ => none

/-- `assignIdDrms` with the stack that it shows to the handler. -/
theorem assignIdDrms_eq (tid : Nat) (opened : ThreadData) : assignIdDrms cfg rt tid opened =
    if c.full (rt.globalCounter + 1) then do
      let (counter,after) ← overflowHandler cfg
        (({rt with globalCounter := rt.globalCounter + 1} : Runtime c).put tid (lowered (rt.globalCounter + 1) opened))
      match after.threads tid with
      | none => .error .invalidPointer
      | some tdata => .ok ({after with globalCounter := counter},
          ({tdata with stackDepth := tdata.stackDepth + 1} : ThreadData).setTop fun act => {act with activationId := counter})
    else .ok ({rt with globalCounter := rt.globalCounter + 1},
      opened.setTop fun act => {act with activationId := rt.globalCounter + 1}) := rfl

theorem Runtime.InOrder.increase (order : rt.InOrder cfg) (orderly : ∀ state, rt.counting = some state → state.Orderly cfg)
    (ok : increaseGlobalCounter cfg rt = .ok after) : after.InOrder cfg := by
  unfold increaseGlobalCounter at ok
  dsimp only at ok
  split at ok
  · next full =>
    obtain ⟨⟨counter,rt'⟩,handled,ok⟩ := bind_ok.mp ok
    cases ok
    have calls : rt.counting = some {rt with globalCounter := rt.globalCounter + 1} := if_pos full
    obtain ⟨-,kept,-⟩ := (orderly _ calls).overflow order handled
    exact kept.shrink (Nat.sub_le _ _) fun _ _ => kept.kept
  · cases ok
    exact IdsInOrder.shrink order (Nat.le_succ _) fun _ _ => IdsInOrder.kept order

theorem Runtime.InOrder.threadSwitch (drms : cfg.inputMetric = .drms) {tid : Nat} (order : rt.InOrder cfg)
    (orderly : ∀ state, rt.switching tid = some state → state.Orderly cfg) (ok : threadSwitch cfg rt tid = .ok after) :
    after.InOrder cfg := by
  unfold Aprof.threadSwitch at ok
  split at ok
  · cases ok
    exact order
  · next moves =>
    dsimp only at ok
    have moved : ({rt with currentTid := tid} : Runtime c).InOrder cfg := order
    split at ok
    · cases ok
      exact moved
    · next nonzero =>
      obtain ⟨middle,counted,ok⟩ := bind_ok.mp ok
      have kept := moved.increase (fun state calls => orderly state (by
        rw [Runtime.switching,if_neg (not_or.mpr ⟨moves,nonzero⟩)]
        exact calls)) counted
      split at ok
      · exact kept.threadStart ok
      · cases ok
        exact kept

end

section
variable {cfg : Config} {threads : Nat → Option ThreadData} {tid id : Nat} {base opened : ThreadData}

theorem IdsInOrder.open (order : IdsInOrder cfg threads (id - 1)) (positive : 0 < id) (found : threads tid = some base)
    (recorded : base.skip = 0) (more : OneMore base opened) (skip : opened.skip = 0)
    (plain : skipFlag cfg opened base.stackDepth = false)
    (ids : ∀ k, k < base.stackDepth → opened.ids k = base.ids k) (top : opened.ids base.stackDepth = id) :
    IdsInOrder cfg (Function.update threads tid (some opened)) id := by
  obtain ⟨named,counted⟩ := order.named tid base found
  have all := counted.recorded_iff.mp recorded
  have depth : recordedDepths cfg (Function.update threads tid (some opened)) tid = base.stackDepth + 1 := by
    rw [recordedDepths_some (Function.update_self ..)]
    exact more.visible all plain
  have before : recordedDepths cfg threads tid = base.stackDepth := by rw [recordedDepths_some found,all]
  have own : ∀ k, k < base.stackDepth → frameId (Function.update threads tid (some opened)) tid k = frameId threads tid k := by
    intro k below
    rw [frameId_some (Function.update_self ..),frameId_some found]
    exact ids k below
  have new : frameId (Function.update threads tid (some opened)) tid base.stackDepth = id := by
    rw [frameId_some (Function.update_self ..)]
    exact top
  have others : ∀ other, other ≠ tid →
      recordedDepths cfg (Function.update threads tid (some opened)) other = recordedDepths cfg threads other ∧
        frameId (Function.update threads tid (some opened)) other = frameId threads other := by
    intro other different
    have same : Function.update threads tid (some opened) other = threads other := Function.update_of_ne different _ _
    refine ⟨?_,?_⟩
    · rw [recordedDepths,recordedDepths,same]
    · ext1 k
      rw [frameId,frameId,same]
  -- a recorded frame is the new one or it was recorded before
  have frames : ∀ other k, k < recordedDepths cfg (Function.update threads tid (some opened)) other →
      (other = tid ∧ k = base.stackDepth) ∨ (k < recordedDepths cfg threads other ∧
        frameId (Function.update threads tid (some opened)) other k = frameId threads other k) := by
    intro other k below
    by_cases same : other = tid
    · subst same
      rw [depth] at below
      rcases Nat.lt_or_ge k base.stackDepth with inside | last
      · exact .inr ⟨before.symm ▸ inside,own k inside⟩
      · exact .inl ⟨rfl,by omega⟩
    · rw [(others other same).1] at below
      exact .inr ⟨below,congrFun (others other same).2 k⟩
  constructor
  · intro other tdata present
    rw [Function.update_apply] at present
    split at present
    · next same =>
      cases present
      rw [same]
      exact ⟨named,counted.enter more (by simp [skip,recorded,plain])⟩
    · exact order.named other tdata present
  · intro other k below
    rcases frames other k below with ⟨rfl,rfl⟩ | ⟨inside,same⟩
    · rw [new]
      exact positive
    · rw [same]
      exact order.positive other k inside
  · intro other i j lt below
    rcases frames other j below with ⟨rfl,rfl⟩ | ⟨inside,same⟩
    · have le := order.below other i (before.symm ▸ lt)
      rw [new,own i lt]
      omega
    · rcases frames other i (by omega) with ⟨rfl,rfl⟩ | ⟨-,same'⟩
      · omega
      · rw [same,same']
        exact order.increasing other i j lt inside
  · intro left right k l below below' equal
    rcases frames left k below with ⟨rfl,rfl⟩ | ⟨inside,same⟩
    · rcases frames right l below' with ⟨rfl,rfl⟩ | ⟨inside',same'⟩
      · rfl
      · have le := order.below right l inside'
        rw [new,same'] at equal
        omega
    · rcases frames right l below' with ⟨rfl,rfl⟩ | ⟨inside',same'⟩
      · have le := order.below left k inside
        rw [new,same] at equal
        omega
      · rw [same,same'] at equal
        exact order.distinct left right k l inside inside' equal
  · intro other k below
    rcases frames other k below with ⟨rfl,rfl⟩ | ⟨inside,same⟩
    · exact Nat.le_of_eq new
    · rw [same]
      exact Nat.le_trans (order.below other k inside) (Nat.sub_le _ _)

theorem routine_setTop (tdata : ThreadData) (id i : Nat) :
    ((tdata.setTop fun act => {act with activationId := id}).stack i).routineInfo = (tdata.stack i).routineInfo :=
  (frames_setSlot tdata _ (fun act => {act with activationId := id}) fun _ => rfl).routines i

end

section
variable {c : Counter} {cfg : Config} {rt after : Runtime c}

theorem Runtime.InOrder.lower {tid : Nat} {tdata opened : ThreadData} (order : rt.InOrder cfg)
    (found : rt.threads tid = some tdata) (frame : Opened cfg tdata opened) (counter : Nat) :
    Shrinks cfg rt.threads tid (lowered counter opened) := by
  have top : opened.stackDepth - 1 = tdata.stackDepth := by
    rw [frame.more.depth]
    rfl
  obtain ⟨named,counted⟩ := order.named tid tdata found
  have slot : ∀ k, k < tdata.stackDepth → (lowered counter opened).stack k = tdata.stack k := by
    intro k below
    have other : k ≠ opened.stackDepth - 1 := by omega
    exact (Function.update_of_ne other _ _).trans (frame.slots k (by omega))
  have skip : (lowered counter opened).skip = tdata.skip := frame.skip
  have height : (lowered counter opened).stackDepth = tdata.stackDepth := top
  obtain ⟨counted',depth'⟩ := counted.congr skip height fun k below => congrArg Activation.routineInfo (slot k below)
  refine ⟨⟨named,counted'⟩,?_,?_⟩
  · rw [recordedDepths_some found,depth']
  · intro k below
    rw [depth'] at below
    have inside := recordedDepth_le cfg tdata
    rw [frameId_some found]
    exact congrArg Activation.activationId (slot k (by omega))

theorem assignIdDrms_order {tid : Nat} {tdata opened named last : ThreadData} (order : rt.InOrder cfg)
    (found : rt.threads tid = some tdata) (frame : Opened cfg tdata opened) (recorded : tdata.skip = 0)
    (plain : skipFlag cfg opened tdata.stackDepth = false)
    (orderly : ∀ state, (rt.counting.map fun rt => rt.put tid (lowered rt.globalCounter opened)) = some state →
      state.Orderly cfg) (ok : assignIdDrms cfg rt tid opened = .ok (after,named)) (slots : SameIds named last) :
    IdsInOrder cfg (Function.update after.threads tid (some last)) after.globalCounter := by
  have depth := frame.more.depth
  have top : opened.stackDepth - 1 = tdata.stackDepth := by omega
  rw [assignIdDrms_eq] at ok
  split at ok
  · next full =>
    obtain ⟨⟨counter,rt'⟩,handled,ok⟩ := bind_ok.mp ok
    have calls : rt.counting = some {rt with globalCounter := rt.globalCounter + 1} := if_pos full
    have orderly := orderly _ (by rw [calls]; rfl)
    dsimp only at orderly
    have lower := order.lower found frame (rt.globalCounter + 1)
    obtain ⟨counted,kept,erased⟩ := orderly.overflow (IdsInOrder.put order lower) handled
    dsimp only at ok
    split at ok
    · cases ok
    · next tdata' found' =>
      cases ok
      have same := erased tid
      rw [found'] at same
      simp only [Runtime.put,Function.update_self,Option.map_some,Option.some.injEq] at same
      have frames := sameFrames same
      have height : tdata'.stackDepth = tdata.stackDepth := frames.depth.trans top
      have free : tdata'.skip = 0 := (frames.skip.trans frame.skip).trans recorded
      refine kept.open (by omega) found' free ⟨?_,?_⟩ ?_ ?_ ?_ ?_
      · exact slots.frames.depth
      · intro k below
        refine (slots.frames.routines k).trans ?_
        have other : k ≠ tdata'.stackDepth := by omega
        exact congrArg Activation.routineInfo (Function.update_of_ne other _ _)
      · exact slots.frames.skip.trans free
      · have routine : (last.stack tdata'.stackDepth).routineInfo = (opened.stack tdata.stackDepth).routineInfo := by
          refine (slots.frames.routines _).trans ?_
          have restored : (tdata'.stack tdata'.stackDepth).routineInfo = (opened.stack tdata.stackDepth).routineInfo := by
            refine (frames.routines _).trans ?_
            rw [height]
            exact routine_setTop opened _ _
          refine Eq.trans ?_ restored
          exact routine_setTop {tdata' with stackDepth := tdata'.stackDepth + 1} _ _
        rw [skipFlag,routine]
        exact plain
      · intro k below
        refine (slots.ids k).trans ?_
        rw [ids_setTop,if_neg (by dsimp only; omega)]
        rfl
      · refine (slots.ids _).trans ?_
        rw [ids_setTop]
        exact if_pos (Nat.add_sub_cancel _ _).symm
  · cases ok
    have kept : IdsInOrder cfg rt.threads (rt.globalCounter + 1 - 1) := order
    have frames : SameFrames opened (opened.setTop fun act => {act with activationId := rt.globalCounter + 1}) :=
      frames_setSlot _ _ _ fun _ => rfl
    have same := frames.trans slots.frames
    refine kept.open (Nat.succ_pos _) found recorded ⟨?_,?_⟩ ?_ ?_ ?_ ?_
    · exact same.depth.trans depth
    · intro k below
      exact (same.routines k).trans (frame.more.below k below)
    · exact (same.skip.trans frame.skip).trans recorded
    · rw [skipFlag,same.routines]
      exact plain
    · intro k below
      refine (slots.ids k).trans ?_
      rw [ids_setTop,if_neg (by omega)]
      exact frame.ids k
    · refine (slots.ids _).trans ?_
      rw [ids_setTop,if_pos top.symm]

theorem Runtime.InOrder.pushStack (drms : cfg.inputMetric = .drms) {sp : UInt64} {f : FnPtr} (order : rt.InOrder cfg)
    (orderly : ∀ state, rt.entering cfg sp f = some state → state.Orderly cfg) (ok : pushStack cfg rt sp f = .ok after) :
    after.InOrder cfg := by
  obtain ⟨tdata,current,ok⟩ := bind_ok.mp ok
  obtain ⟨pushed,push,ok⟩ := bind_ok.mp ok
  have found := current_ok.mp current
  have frame := pushFrame_opened push
  obtain ⟨named,counted⟩ := order.named _ tdata found
  have flag : skipFlag cfg (enterStart pushed) tdata.stackDepth = (cfg.fn (enterStart pushed).top.routineInfo).skip := by
    have top : (enterStart pushed).stackDepth - 1 = tdata.stackDepth := by
      rw [frame.more.depth]
      rfl
    rw [skipFlag,ThreadData.top,top]
  -- a call that is not recorded leaves the recorded ids
  have hidden : ∀ skip, (skipFlag cfg (enterStart pushed) tdata.stackDepth = true ∨ 0 < tdata.skip) →
      skip = tdata.skip + (if skipFlag cfg (enterStart pushed) tdata.stackDepth = true then 1 else 0) →
      Shrinks cfg rt.threads rt.currentTid {enterStart pushed with skip := skip} := by
    intro skip hides counts
    obtain ⟨counted',depth⟩ := frame.hidden counted hides skip counts
    refine ⟨⟨named,counted'⟩,?_,?_⟩
    · rw [recordedDepths_some found,depth]
    · intro k _
      rw [frameId_some found]
      exact frame.ids k
  unfold functionEnter at ok
  dsimp only at ok
  split at ok
  · next skipped =>
    cases ok
    refine IdsInOrder.put order (hidden _ (.inl (flag.trans skipped)) ?_)
    rw [if_pos (flag.trans skipped),frame.skip]
  · next visible =>
    have plain : skipFlag cfg (enterStart pushed) tdata.stackDepth = false := by
      rw [flag]
      exact Bool.eq_false_of_not_eq_true visible
    split at ok
    · next skipping =>
      cases ok
      refine IdsInOrder.put order (hidden (enterStart pushed).skip (.inr (frame.skip ▸ skipping)) ?_)
      rw [if_neg (by rw [plain]; exact Bool.false_ne_true),frame.skip,Nat.add_zero]
    · next recorded =>
      obtain ⟨⟨rt',assigned⟩,assigns,ok⟩ := bind_ok.mp ok
      cases ok
      unfold assignId at assigns
      simp only [drms] at assigns
      have entered : SameIds assigned (enterShared cfg rt'.shared assigned).2 :=
        ⟨enterShared_frames cfg rt'.shared assigned,(enterShared_stamps cfg rt'.shared assigned).ids⟩
      have free : tdata.skip = 0 := by
        rw [← frame.skip]
        omega
      have enters : ∀ state, (rt.counting.map fun rt' => rt'.put rt.currentTid
          (lowered rt'.globalCounter (enterStart pushed))) = some state → state.Orderly cfg := by
        intro state calls
        refine orderly state ?_
        unfold Runtime.entering
        rw [found]
        dsimp only
        rw [push]
        dsimp only
        rw [if_neg (not_or.mpr ⟨visible,recorded⟩),← calls]
        unfold Runtime.counting
        split <;> rfl
      have ordered := assignIdDrms_order order found frame free plain enters assigns entered
      exact ordered

theorem Runtime.InOrder.step (drms : cfg.inputMetric = .drms) {event : Event} (order : rt.InOrder cfg)
    (orderly : ∀ state, rt.overflowAt cfg event = some state → state.Orderly cfg) (ok : step cfg rt event = .ok after) :
    after.InOrder cfg := by
  cases event with
  | threadCreate child => exact order.threadStart ok
  | threadSwitch tid => exact order.threadSwitch drms orderly ok
  | threadExit tid => exact order.threadExit ok
  | bbStart => exact order.bbStart ok
  | functionEnter sp f => exact order.pushStack drms orderly ok
  | functionExit => exact order.popStack ok
  | access type addr size => exact order.traceAccess drms ok
  | postSyscall tid buffers =>
    refine postSyscall_keeps order ?_ ?_ ?_ ok
    · intro middle moves moved
      exact order.threadSwitch drms (fun state calls => orderly state ((if_pos moves).trans calls)) moved
    · intro middle stays counted
      exact order.increase (fun state calls => orderly state ((if_neg (not_not.mpr stays)).trans calls)) counted
    · intro middle buffer after order stored
      exact order.kernelStore drms stored

theorem Runtime.InOrder.initial (created : initial c cfg = .ok rt) : rt.InOrder cfg := by
  obtain ⟨global,_,ok⟩ := bind_ok.mp created
  cases ok
  have none : ∀ tid, recordedDepths cfg (fun _ => Option.none) tid = 0 := fun _ => rfl
  refine ⟨nofun,?_,?_,?_,?_⟩
  · intro tid k below
    exact absurd below (Nat.not_lt_zero k)
  · intro tid i j _ below
    exact absurd below (Nat.not_lt_zero j)
  · intro tid other k l below
    exact absurd below (Nat.not_lt_zero k)
  · intro tid k below
    exact absurd below (Nat.not_lt_zero k)

/-- Whenever an event of the run calls the handler, no live thread is inside a skipped
call or the ids left in its slots fit, and the new ids are below the limit. -/
def OverflowsOrderly (cfg : Config) (first : Runtime c) (events : List Event) : Prop :=
  ∀ past event rest, events = past ++ event :: rest → ∀ rt, run cfg first past = .ok rt →
    ∀ state, rt.overflowAt cfg event = some state → state.Orderly cfg ∧ 3 * (state.pendingFrames cfg + 2) < 2 ^ 31

theorem Runtime.InOrder.run (drms : cfg.inputMetric = .drms) {events : List Event} (order : rt.InOrder cfg)
    (orderly : OverflowsOrderly cfg rt events) (ok : run cfg rt events = .ok after) : after.InOrder cfg := by
  induction events generalizing rt with
  | nil =>
    cases ok
    exact order
  | cons event events ih =>
    obtain ⟨middle,taken,ok⟩ := bind_ok.mp ok
    have next := order.step drms (fun state calls => (orderly [] event events rfl rt rfl state calls).1) taken
    refine ih next ?_ ok
    rintro past later rest rfl rt' reached
    refine orderly (event :: past) later rest rfl rt' ?_
    change (Aprof.step cfg rt event >>= fun rt => Aprof.run cfg rt past) = _
    rw [taken]
    exact reached

end

end Aprof
