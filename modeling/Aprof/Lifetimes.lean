import Aprof.History
import Aprof.InputSizes

/-! One activation from its entry on, over runs without timestamps: its input
size is followed through every event, whichever thread the event is about. -/
namespace Aprof

open Levels Floor

section
variable {cfg : Config} {d : Nat} {seen : Nat → Bool} {size : UInt32} {syscall thread : UInt64}
  {th : LevelThread}

theorem Inside.popShared (inside : Inside cfg d seen size syscall thread th) (shared : Shared)
    (above : d + 1 < th.core.stackDepth) : Inside cfg d seen size syscall thread
      {th with
        core := (popShared cfg shared th.core).2
        levels := fun g => min (th.levels g) (recordedDepth cfg (popShared cfg shared th.core).2)} := by
  have counted := popShared_counted inside.counted shared (by omega)
  have depth := popShared_recordedDepth inside.counted shared (by omega)
  rcases Nat.eq_zero_or_pos th.core.skip with recorded | skipping
  · have all := inside.counted.recorded_iff.mp recorded
    rw [if_pos recorded] at depth
    obtain ⟨table,root,same⟩ := popShared_recorded cfg shared th.core recorded
    have stack : (Aprof.popShared cfg shared th.core).2.stack =
        afterExit th.core.stack th.core.stackDepth (exitCumul cfg th.core) := by rw [same]
    obtain ⟨n,height⟩ : ∃ n, th.core.stackDepth = n + 2 := ⟨th.core.stackDepth - 2,by omega⟩
    have slots : (Aprof.popShared cfg shared th.core).2.stack = Function.update th.core.stack n
        (propagate (th.core.stack (n + 1)) (exitCumul cfg th.core) (th.core.stack n)) := by
      rw [stack,afterExit,if_pos (by omega),height]
      rfl
    refine inside.pop counted (n := n) (by omega) (by omega) (by omega) (exitCumul cfg th.core) ?_ ?_
    · rw [slots,Function.update_self]
    · intro i other
      rw [slots,Function.update_of_ne other]
  · rw [if_neg (by omega)] at depth
    obtain ⟨table,root,same⟩ := popShared_skipped cfg shared th.core skipping
    have stack : (Aprof.popShared cfg shared th.core).2.stack = th.core.stack := by rw [same]
    have levels : (fun g => min (th.levels g) (recordedDepth cfg (Aprof.popShared cfg shared th.core).2)) =
        th.levels := by
      ext1 g
      rw [depth]
      exact Nat.min_eq_left (inside.le g)
    rw [levels]
    apply inside.same counted depth
    intro i _
    rw [stack]
    exact ⟨rfl,rfl,rfl⟩

/-- What `functionEnter` makes of a thread whose frame has just been put on the stack. -/
inductive Entered (cfg : Config) (core : ThreadData) : ThreadData → Prop where
  | hidden (after : ThreadData) (counted : SkipCounted cfg after)
      (depth : recordedDepth cfg after = recordedDepth cfg core)
      (slots : ∀ i, i ≠ core.stackDepth → after.stack i = core.stack i) : Entered cfg core after
  | recorded (after : ThreadData) (free : core.skip = 0) (counted : SkipCounted cfg after)
      (depth : recordedDepth cfg after = core.stackDepth + 1)
      (slots : ∀ i, i ≠ core.stackDepth → after.stack i = core.stack i)
      (zero : (after.stack core.stackDepth).inputSize = 0 ∧ (after.stack core.stackDepth).cumulSyscall = 0 ∧
        (after.stack core.stackDepth).cumulThread = 0) : Entered cfg core after

theorem functionEnter_entered {core pushed : ThreadData} (counted : SkipCounted cfg core) (shared : Shared)
    {sp : UInt64} {f : FnPtr} (ok : pushFrame cfg core sp f = .ok pushed) :
    Entered cfg core (Levels.functionEnter cfg shared pushed).2 := by
  have opened := pushFrame_opened ok
  have flag : skipFlag cfg (enterStart pushed) core.stackDepth =
      (cfg.fn (enterStart pushed).top.routineInfo).skip := by
    simp only [skipFlag,ThreadData.top,opened.more.depth,Nat.add_sub_cancel]
  have skip := opened.skip
  unfold Levels.functionEnter
  dsimp only
  generalize enterStart pushed = top at opened flag skip
  by_cases skipped : (cfg.fn top.top.routineInfo).skip = true
  · rw [if_pos skipped]
    obtain ⟨counted,depth⟩ := opened.hidden counted (Or.inl (by rw [flag]; exact skipped)) (top.skip + 1)
      (by rw [flag,skip,if_pos skipped])
    exact .hidden _ counted depth opened.slots
  · rw [if_neg skipped]
    by_cases skipping : top.skip > 0
    · rw [if_pos skipping]
      obtain ⟨counted,depth⟩ := opened.hidden counted (Or.inr (by omega)) top.skip
        (by rw [flag,skip,if_neg skipped]; rfl)
      exact .hidden _ counted depth opened.slots
    · rw [if_neg skipping]
      have free : core.skip = 0 := by omega
      have plain : skipFlag cfg top core.stackDepth = false := by simpa [flag] using skipped
      have counted' : SkipCounted cfg top := counted.enter opened.more (by simp [skip,plain])
      obtain ⟨counted'',depth⟩ := (enterShared_frames cfg shared top).counted counted'
      have visible := opened.more.visible (counted.recorded_iff.mp free) plain
      obtain ⟨table,root,next,node,same⟩ := enterShared_eq cfg shared top
      have stack : (enterShared cfg shared top).2.stack =
          Function.update top.stack core.stackDepth (resetCounts node top.top) := by
        rw [same,opened.more.depth]
        rfl
      refine .recorded _ free counted'' (depth.trans visible) ?_ ?_
      · intro i other
        rw [stack,Function.update_of_ne other]
        exact opened.slots i other
      · rw [stack,Function.update_self]
        exact ⟨rfl,rfl,rfl⟩

theorem functionEnter_depth {core pushed : ThreadData} (shared : Shared) {sp : UInt64} {f : FnPtr}
    (ok : pushFrame cfg core sp f = .ok pushed) :
    (Levels.functionEnter cfg shared pushed).2.stackDepth = core.stackDepth + 1 := by
  have depth := (pushFrame_opened ok).more.depth
  unfold Levels.functionEnter
  dsimp only
  split
  · exact depth
  · split
    · exact depth
    · exact (enterShared_frames _ _ _).depth.trans depth

theorem Inside.entered {after : ThreadData} (inside : Inside cfg d seen size syscall thread th)
    (entered : Entered cfg th.core after) : Inside cfg d seen size syscall thread {th with core := after} := by
  have le := recordedDepth_le cfg th.core
  cases entered with
  | hidden counted depth slots =>
    apply inside.same counted depth
    intro i bound
    rw [slots i (by omega)]
    exact ⟨rfl,rfl,rfl⟩
  | recorded free counted depth slots zero =>
    have all := inside.counted.recorded_iff.mp free
    apply inside.open counted (by omega)
    · intro i bound
      rw [slots i (by omega)]
      exact ⟨rfl,rfl,rfl⟩
    · rw [all]
      exact zero

theorem Inside.start {core after : ThreadData} {levels dirty : Nat → _} (free : core.skip = 0)
    (counted : SkipCounted cfg core) (le : ∀ g, levels g ≤ recordedDepth cfg core)
    (visible : recordedDepth cfg after = core.stackDepth + 1) (entered : Entered cfg core after) :
    Inside cfg core.stackDepth (fun _ => false) 0 0 0 ⟨after,levels,dirty⟩ := by
  have all := counted.recorded_iff.mp free
  have single : ∀ {M : Type} [AddCommGroup M] (φ : Activation → M), φ (after.stack core.stackDepth) = 0 →
      frameSum φ after core.stackDepth (core.stackDepth + 1) = 0 := by
    intro M _ φ zero
    rw [frameSum,topSum_succ _ (Nat.le_refl _),topSum_empty,zero,add_zero]
  cases entered with
  | hidden _ depth _ => omega
  | recorded _ counted depth slots zero =>
    refine ⟨counted,by dsimp only; omega,?_,?_,?_,?_,?_⟩
    · intro g
      have := le g
      dsimp only
      omega
    · intro g
      have := le g
      dsimp only
      simp
      omega
    · rw [depth]
      exact single _ zero.1
    · rw [depth]
      exact single _ zero.2.1
    · rw [depth]
      exact single _ zero.2.2

end

/-- The activation in slot `d` of thread `t` after the touches `during`. -/
def Lived (cfg : Config) (t d size syscall thread : Nat) (during : List Touch) (levels : LevelRuntime) : Prop :=
  ∃ th, levels.threads t = some th ∧ Inside cfg d (fun g => !untouched t during g) (UInt32.ofNat size)
    (UInt64.ofNat syscall) (UInt64.ofNat thread) th

/-- The activation in slot `d` of thread `t` is pending. -/
def Pending (threads : Nat → Option ThreadData) (t d : Nat) : Prop :=
  ∃ tdata, threads t = some tdata ∧ d < tdata.stackDepth

def Event.quiet : Event → Bool
  | .access .. => false
  | .postSyscall .. => false
  | _ => true

section
variable {cfg : Config} {t d size syscall thread : Nat} {during : List Touch} {levels after : LevelRuntime}

/-- What an event without touches does to a thread. -/
inductive Moved (cfg : Config) (th : LevelThread) : LevelThread → Prop where
  | same : Moved cfg th th
  | tick : Moved cfg th {th with core := {th.core with cost := th.core.cost + 1}}
  | pop (shared : Shared) (nonempty : 0 < th.core.stackDepth) : Moved cfg th {th with
      core := (popShared cfg shared th.core).2
      levels := fun g => min (th.levels g) (recordedDepth cfg (popShared cfg shared th.core).2)}
  | enter (shared : Shared) (sp : UInt64) (f : FnPtr) (pushed : ThreadData)
      (push : pushFrame cfg th.core sp f = .ok pushed) :
      Moved cfg th {th with core := (Levels.functionEnter cfg shared pushed).2}

inductive Change (cfg : Config) (levels after : LevelRuntime) (event : Event) (tid : Nat) : Prop where
  | absent (before : levels.threads tid = none) (still : after.threads tid = none)
  | fresh (before : levels.threads tid = none)
      (started : after.threads tid = some ⟨(newThread cfg tid blankTable).erase,fun _ => 0,unseen cfg levels⟩)
  | moved (th th' : LevelThread) (before : levels.threads tid = some th) (found : after.threads tid = some th')
      (moved : Moved cfg th th')
  | exited (exit : event = .threadExit tid) (gone : after.threads tid = none)

structure QuietStep (cfg : Config) (levels after : LevelRuntime) (event : Event) : Prop where
  written : after.written = levels.written
  byKernel : after.byKernel = levels.byKernel
  threads : ∀ tid, Change cfg levels after event tid

theorem change_same (event : Event) {tid : Nat} (same : after.threads tid = levels.threads tid) :
    Change cfg levels after event tid := by
  cases before : levels.threads tid with
  | none => exact .absent before (same.trans before)
  | some th => exact .moved th th before (same.trans before) .same

theorem change_put (event : Event) (shared : Shared) {tid : Nat} {th th' : LevelThread}
    (found : levels.threads tid = some th) (moved : Moved cfg th th') (other : Nat) :
    Change cfg levels ({levels with shared := shared}.put tid th') event other := by
  by_cases same : other = tid
  · subst same
    exact .moved th th' found (Function.update_self _ _ _) moved
  · exact change_same event (Function.update_of_ne same _ _)

theorem quietStep_start (event : Event) (current : Nat) {tid : Nat}
    (ok : Levels.threadStart cfg {levels with currentTid := current} tid = .ok after) :
    QuietStep cfg levels after event := by
  obtain ⟨free,rfl⟩ := levels_threadStart_ok ok
  refine ⟨rfl,rfl,fun other => ?_⟩
  by_cases same : other = tid
  · subst same
    exact .fresh free (Function.update_self _ _ _)
  · exact change_same event (Function.update_of_ne same _ _)

theorem quietStep {event : Event} (quiet : event.quiet = true) (ok : Levels.step cfg levels event = .ok after) :
    QuietStep cfg levels after event := by
  cases event with
  | threadCreate child => exact quietStep_start _ levels.currentTid ok
  | threadSwitch tid =>
    rcases levels_threadSwitch_ok ok with rfl | started
    · exact ⟨rfl,rfl,fun _ => change_same _ rfl⟩
    · exact quietStep_start _ _ started
  | threadExit tid =>
    simp only [Levels.step,Levels.threadExit] at ok
    split at ok
    · cases ok
    · cases ok
      refine ⟨rfl,rfl,fun other => ?_⟩
      by_cases same : other = tid
      · subst same
        exact .exited rfl (Function.update_self _ _ _)
      · exact change_same _ (Function.update_of_ne same _ _)
  | bbStart =>
    obtain ⟨th,current,ok⟩ := bind_ok.mp ok
    cases ok
    exact ⟨rfl,rfl,change_put _ levels.shared (levels_current_ok.mp current) .tick⟩
  | functionEnter sp f =>
    obtain ⟨th,current,ok⟩ := bind_ok.mp ok
    obtain ⟨pushed,push,ok⟩ := bind_ok.mp ok
    cases ok
    exact ⟨rfl,rfl,change_put _ _ (levels_current_ok.mp current) (.enter levels.shared sp f pushed push)⟩
  | functionExit =>
    obtain ⟨th,current,ok⟩ := bind_ok.mp ok
    obtain ⟨_,nonempty,ok⟩ := bind_ok.mp ok
    cases ok
    exact ⟨rfl,rfl,change_put _ _ (levels_current_ok.mp current)
      (.pop levels.shared (by simpa using check_ok.mp nonempty))⟩
  | access type addr size => cases quiet
  | postSyscall tid buffers => cases quiet

theorem Change.pending {event : Event} (change : Change cfg levels after event t)
    (pending : Pending after.cores t d) {th : LevelThread} (found : levels.threads t = some th) :
    ∃ th', after.threads t = some th' ∧ Moved cfg th th' ∧ d < th'.core.stackDepth := by
  obtain ⟨tdata,known,above⟩ := pending
  obtain ⟨last,last_eq,rfl⟩ := Option.map_eq_some_iff.mp known
  cases change with
  | absent before _ =>
    rw [found] at before
    cases before
  | fresh before _ =>
    rw [found] at before
    cases before
  | moved th₁ th' before found' moved =>
    rw [found] at before
    cases before
    rw [found'] at last_eq
    cases last_eq
    exact ⟨_,found',moved,above⟩
  | exited _ gone =>
    rw [gone] at last_eq
    cases last_eq

theorem Lived.quiet (lived : Lived cfg t d size syscall thread during levels) {event : Event}
    (quiet : event.quiet = true) (ok : Levels.step cfg levels event = .ok after)
    (pending : Pending after.cores t d) : Lived cfg t d size syscall thread during after := by
  obtain ⟨th,found,inside⟩ := lived
  obtain ⟨th',found',moved,above⟩ := ((quietStep quiet ok).threads t).pending pending found
  refine ⟨th',found',?_⟩
  cases moved with
  | same => exact inside
  | tick =>
    have ticked : SkipCounted cfg {th.core with cost := th.core.cost + 1} := inside.counted
    exact inside.same ticked rfl (fun _ _ => ⟨rfl,rfl,rfl⟩) th.dirty
  | pop shared nonempty =>
    rw [popShared_depth] at above
    exact inside.popShared shared (by omega)
  | enter shared sp f pushed push => exact inside.entered (functionEnter_entered inside.counted shared push)

/-- Slot `d` of thread `t` is at or above a skipped call. -/
def Buried (cfg : Config) (t d : Nat) (levels : LevelRuntime) : Prop :=
  ∃ th, levels.threads t = some th ∧ SkipCounted cfg th.core ∧ recordedDepth cfg th.core ≤ d ∧
    d < th.core.stackDepth

theorem Buried.quiet (buried : Buried cfg t d levels) {event : Event} (quiet : event.quiet = true)
    (ok : Levels.step cfg levels event = .ok after) (pending : Pending after.cores t d) :
    Buried cfg t d after := by
  obtain ⟨th,found,counted,below,inside⟩ := buried
  obtain ⟨th',found',moved,above⟩ := ((quietStep quiet ok).threads t).pending pending found
  have all := counted.recorded_iff
  cases moved with
  | same => exact ⟨_,found',counted,below,above⟩
  | tick => exact ⟨_,found',counted,below,above⟩
  | pop shared nonempty =>
    have depth := popShared_recordedDepth counted shared nonempty
    rw [if_neg (by omega)] at depth
    exact ⟨_,found',popShared_counted counted shared nonempty,by rw [depth]; exact below,above⟩
  | enter shared sp f pushed push =>
    cases functionEnter_entered counted shared push with
    | hidden counted' depth slots => exact ⟨_,found',counted',by rw [depth]; exact below,above⟩
    | recorded free counted' depth slots zero => omega

end

inductive Touched (cfg : Config) (levels : LevelRuntime) : Touch → LevelRuntime → Prop where
  | kernel (drms : cfg.inputMetric ≠ .rms) (g : Nat) : Touched cfg levels ⟨none,.store,g⟩ (mark true levels g)
  | rms (rms : cfg.inputMetric = .rms) (tid g : Nat) (type : AccessType) (th : LevelThread)
      (found : levels.threads tid = some th) (recorded : th.core.skip = 0) :
      Touched cfg levels ⟨some tid,type,g⟩ (levels.put tid (touch type false th g))
  | drms (drms : cfg.inputMetric ≠ .rms) (tid g : Nat) (type : AccessType) (th : LevelThread)
      (found : levels.threads tid = some th) (recorded : th.core.skip = 0) :
      Touched cfg levels ⟨some tid,type,g⟩
        ((if type = .load then levels else mark false levels g).put tid (touch type (levels.byKernel g) th g))

inductive Touches (cfg : Config) : LevelRuntime → List Touch → LevelRuntime → Prop where
  | nil (levels : LevelRuntime) : Touches cfg levels [] levels
  | cons {levels middle last : LevelRuntime} {x : Touch} {xs : List Touch} (first : Touched cfg levels x middle)
      (rest : Touches cfg middle xs last) : Touches cfg levels (x :: xs) last

section
variable {cfg : Config} {levels after : LevelRuntime}

theorem Touches.append {middle last : LevelRuntime} {xs ys : List Touch} (first : Touches cfg levels xs middle)
    (second : Touches cfg middle ys last) : Touches cfg levels (xs ++ ys) last := by
  induction first with
  | nil => exact second
  | cons head _ ih => exact .cons head (ih second)

theorem Touches.keeps {P : List Touch → LevelRuntime → Prop}
    (step : ∀ past levels x after, P past levels → Touched cfg levels x after → P (past ++ [x]) after)
    {xs : List Touch} (touches : Touches cfg levels xs after) (past : List Touch) (start : P past levels) :
    P (past ++ xs) after := by
  induction touches generalizing past with
  | nil =>
    rw [List.append_nil]
    exact start
  | cons head _ ih =>
    have rest := ih _ (step _ _ _ _ start head)
    rwa [List.append_assoc,List.singleton_append] at rest

/-- Touches move neither the current thread nor any frame. -/
structure Still (levels after : LevelRuntime) : Prop where
  tid : after.currentTid = levels.currentTid
  frames : ∀ tid th, levels.threads tid = some th →
    ∃ th', after.threads tid = some th' ∧ SameFrames th.core th'.core
  absent : ∀ tid, levels.threads tid = none → after.threads tid = none

theorem sameFrames_refl (tdata : ThreadData) : SameFrames tdata tdata := ⟨rfl,rfl,rfl,fun _ => rfl⟩

theorem Still.refl (levels : LevelRuntime) : Still levels levels :=
  ⟨rfl,fun _ th found => ⟨th,found,sameFrames_refl _⟩,fun _ absent => absent⟩

theorem Still.trans {last : LevelRuntime} (first : Still levels after) (second : Still after last) :
    Still levels last := by
  refine ⟨second.tid.trans first.tid,?_,fun tid absent => second.absent tid (first.absent tid absent)⟩
  intro tid th found
  obtain ⟨middle,found,frames⟩ := first.frames tid th found
  obtain ⟨th',found,frames'⟩ := second.frames tid middle found
  exact ⟨th',found,frames.trans frames'⟩

theorem still_mark (byKernel : Bool) (levels : LevelRuntime) (g : Nat) :
    Still levels (mark byKernel levels g) := by
  refine ⟨rfl,?_,?_⟩
  · intro tid th found
    exact ⟨{th with dirty := Function.update th.dirty g true},by simp only [mark,found]; rfl,sameFrames_refl _⟩
  · intro tid absent
    simp only [mark,absent]
    rfl

theorem still_put {tid : Nat} {th th' : LevelThread} (found : levels.threads tid = some th)
    (frames : SameFrames th.core th'.core) : Still levels (levels.put tid th') := by
  refine ⟨rfl,?_,?_⟩
  · intro other th'' found'
    simp only [LevelRuntime.put,Function.update_apply]
    split
    · next same =>
      rw [same,found] at found'
      cases found'
      exact ⟨th',rfl,frames⟩
    · exact ⟨th'',found',sameFrames_refl _⟩
  · intro other absent
    simp only [LevelRuntime.put,Function.update_apply]
    split
    · next same =>
      rw [same,found] at absent
      cases absent
    · exact absent

theorem Touched.still {x : Touch} (touched : Touched cfg levels x after) : Still levels after := by
  cases touched with
  | kernel _ g => exact still_mark true levels g
  | rms _ tid g type th found _ => exact still_put found (frames_touch type false th g)
  | drms _ tid g type th found _ =>
    have frames := frames_touch type (levels.byKernel g) th g
    split
    · exact still_put found frames
    · have marked := still_mark false levels g
      have updated : (mark false levels g).threads tid =
          some {th with dirty := Function.update th.dirty g true} := by
        simp only [mark,found]
        rfl
      exact marked.trans (still_put updated frames)

theorem Touches.still {xs : List Touch} (touches : Touches cfg levels xs after) : Still levels after := by
  induction touches with
  | nil => exact .refl _
  | cons head _ ih => exact head.still.trans ih

def CurrentRecords (levels : LevelRuntime) : Prop :=
  ∃ th, levels.threads levels.currentTid = some th ∧ Recording th.core

theorem CurrentRecords.still (records : CurrentRecords levels) (still : Still levels after) :
    CurrentRecords after := by
  obtain ⟨th,found,nonempty,free⟩ := records
  obtain ⟨th',found',frames⟩ := still.frames _ th found
  refine ⟨th',by rw [still.tid]; exact found',?_⟩
  exact ⟨by rw [frames.depth]; exact nonempty,by rw [frames.skip]; exact free⟩

theorem touchCell_touched {type : AccessType} {kernelAccess : Bool} {addr : Nat}
    (records : CurrentRecords levels) (drms : kernelAccess = true → cfg.inputMetric ≠ .rms ∧ type = .store)
    (ok : touchCell cfg type kernelAccess levels addr = .ok after) :
    Touched cfg levels ⟨if kernelAccess then none else some levels.currentTid,type,addr / cfg.memoryResolution⟩
      after := by
  obtain ⟨th,current,ok⟩ := bind_ok.mp ok
  obtain ⟨_,_,ok⟩ := bind_ok.mp ok
  have found := levels_current_ok.mp current
  obtain ⟨th',found',_,free⟩ := records
  rw [found] at found'
  cases found'
  split at ok
  · next metric =>
    cases ok
    cases kernelAccess with
    | true => exact absurd metric (drms rfl).1
    | false => exact .rms metric _ _ _ th found free
  · next metric =>
    cases kernelAccess with
    | true =>
      obtain ⟨_,rfl⟩ := drms rfl
      cases ok
      exact .kernel metric _
    | false =>
      cases ok
      exact .drms metric _ _ _ th found free

theorem touchCells_touches {type : AccessType} {kernelAccess : Bool}
    (drms : kernelAccess = true → cfg.inputMetric ≠ .rms ∧ type = .store) (addrs : List Nat)
    (records : CurrentRecords levels)
    (ok : addrs.foldlM (touchCell cfg type kernelAccess) levels = .ok after) :
    Touches cfg levels (addrs.map fun a =>
      ⟨if kernelAccess then none else some levels.currentTid,type,a / cfg.memoryResolution⟩) after := by
  induction addrs generalizing levels with
  | nil =>
    cases ok
    exact .nil _
  | cons addr addrs ih =>
    rw [List.foldlM_cons] at ok
    obtain ⟨middle,first,rest⟩ := bind_ok.mp ok
    have touched := touchCell_touched records drms first
    have later := ih (records.still touched.still) rest
    rw [touched.still.tid] at later
    exact .cons touched later

theorem traceAccess_touches {type : AccessType} {addr size : Nat} {kernelAccess : Bool}
    (drms : kernelAccess = true → cfg.inputMetric ≠ .rms ∧ type = .store)
    (ok : Levels.traceAccess cfg levels type addr size kernelAccess = .ok after) :
    Touches cfg levels (if recording (levels.cores levels.currentTid) then
      (accessAddrs cfg.memoryResolution addr size).map fun a =>
        ⟨if kernelAccess then none else some levels.currentTid,type,a / cfg.memoryResolution⟩ else []) after := by
  obtain ⟨th,current,ok⟩ := bind_ok.mp ok
  have found := levels_current_ok.mp current
  have records : recording (levels.cores levels.currentTid) =
      decide (th.core.stackDepth ≠ 0 ∧ th.core.skip = 0) := by
    simp only [LevelRuntime.cores,found,Option.map_some,recording]
  rw [records]
  split at ok
  · next unrecorded =>
    cases ok
    rw [if_neg (by simp only [decide_eq_true_eq]; omega)]
    exact .nil _
  · next recorded =>
    rw [if_pos (by simp only [decide_eq_true_eq]; omega)]
    exact touchCells_touches drms _ ⟨th,found,by unfold Recording; omega⟩ ok

theorem recording_still (still : Still levels after) (tid : Nat) :
    recording (after.cores tid) = recording (levels.cores tid) := by
  cases found : levels.threads tid with
  | none => simp only [LevelRuntime.cores,found,still.absent tid found]
  | some th =>
    obtain ⟨th',found',frames⟩ := still.frames tid th found
    simp only [LevelRuntime.cores,found,found',Option.map_some,recording,frames.depth,frames.skip]

theorem kernelStores_touches (drms : cfg.inputMetric ≠ .rms) (addrs : List Nat)
    (ok : addrs.foldlM (fun rt addr => Levels.traceAccess cfg rt .store addr cfg.memoryResolution true) levels =
      .ok after) :
    Touches cfg levels (if recording (levels.cores levels.currentTid) then
      (addrs.flatMap fun addr => accessAddrs cfg.memoryResolution addr cfg.memoryResolution).map fun a =>
        ⟨none,.store,a / cfg.memoryResolution⟩ else []) after := by
  induction addrs generalizing levels with
  | nil =>
    cases ok
    rw [List.flatMap_nil,List.map_nil,ite_self]
    exact .nil _
  | cons addr addrs ih =>
    rw [List.foldlM_cons] at ok
    obtain ⟨middle,first,rest⟩ := bind_ok.mp ok
    have touched := traceAccess_touches (fun _ => ⟨drms,rfl⟩) first
    have later := ih rest
    rw [touched.still.tid,recording_still touched.still] at later
    have both := touched.append later
    rw [List.flatMap_cons,List.map_append]
    split
    · next records => simpa [records] using both
    · next records => simpa [records] using both

theorem buffers_touches (drms : cfg.inputMetric ≠ .rms) (buffers : List (Nat × Int))
    (ok : buffers.foldlM (Levels.kernelStore cfg) levels = .ok after) :
    Touches cfg levels (if recording (levels.cores levels.currentTid) then
      (kernelAddrs cfg.memoryResolution buffers).map fun a =>
        ⟨none,.store,a / cfg.memoryResolution⟩ else []) after := by
  induction buffers generalizing levels with
  | nil =>
    cases ok
    rw [kernelAddrs,List.flatMap_nil,List.map_nil,ite_self]
    exact .nil _
  | cons buffer buffers ih =>
    rw [List.foldlM_cons] at ok
    obtain ⟨middle,first,rest⟩ := bind_ok.mp ok
    have touched := kernelStores_touches drms _ first
    have later := ih rest
    rw [touched.still.tid,recording_still touched.still] at later
    have both := touched.append later
    split
    · next records => simpa [records,kernelAddrs] using both
    · next records => simpa [records,kernelAddrs] using both

end

end Aprof
