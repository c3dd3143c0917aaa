import Aprof.Accesses
import Aprof.BasicBlocks

/-! The shadow stack as a list of frames, innermost first. Calls push a frame,
returns drop one, and nothing else touches the list. -/
namespace Aprof

structure Frame where
  fn : FnPtr
  sp : UInt64
  retAddr : UInt64
  deriving DecidableEq

def frameOf (act : Activation) : Frame := ⟨act.routineInfo,act.sp,act.retAddr⟩

def framesBelow (stack : Nat → Activation) : Nat → List Frame
  | 0 => []
  | n + 1 => frameOf (stack n) :: framesBelow stack n

def ThreadData.frames (tdata : ThreadData) : List Frame := framesBelow tdata.stack tdata.stackDepth

def Runtime.frames {c : Counter} (rt : Runtime c) (tid : Nat) : Option (List Frame) :=
  (rt.threads tid).map ThreadData.frames

theorem framesBelow_congr {stack stack' : Nat → Activation} {n : Nat}
    (same : ∀ i, i < n → frameOf (stack' i) = frameOf (stack i)) : framesBelow stack' n = framesBelow stack n := by
  induction n with
  | zero => rfl
  | succ n ih =>
    simp only [framesBelow,same n (Nat.lt_succ_self n),ih fun i bound => same i (Nat.lt_succ_of_lt bound)]

@[simp] theorem framesBelow_length (stack : Nat → Activation) (n : Nat) : (framesBelow stack n).length = n := by
  induction n with
  | zero => rfl
  | succ n ih => simp [framesBelow,ih]

@[simp] theorem frames_length (tdata : ThreadData) : tdata.frames.length = tdata.stackDepth :=
  framesBelow_length _ _

theorem callFrames_erase (tdata : ThreadData) : tdata.erase.frames = tdata.frames :=
  framesBelow_congr fun _ _ => rfl

theorem frames_nonempty {tdata : ThreadData} {depth : Nat} (nonempty : tdata.stackDepth = depth + 1) :
    tdata.frames = frameOf tdata.top :: framesBelow tdata.stack depth := by
  simp only [ThreadData.frames,ThreadData.top,nonempty,framesBelow,Nat.add_sub_cancel]

theorem frames_afterExit (stack : Nat → Activation) (depth : Nat) (cumul : UInt64) (i : Nat) :
    frameOf (afterExit stack depth cumul i) = frameOf (stack i) := by
  unfold afterExit
  split
  · simp only [Function.update_apply]
    split
    · next same =>
      subst same
      rfl
    · rfl
  · rfl

theorem frames_popShared (cfg : Config) (shared : Shared) (tdata : ThreadData) (nonempty : 0 < tdata.stackDepth) :
    (popShared cfg shared tdata).2.frames = tdata.frames.tail := by
  obtain ⟨depth,same⟩ : ∃ depth, tdata.stackDepth = depth + 1 := ⟨tdata.stackDepth - 1,by omega⟩
  rw [frames_nonempty same,List.tail_cons]
  rcases Nat.eq_zero_or_pos tdata.skip with recorded | skipping
  · obtain ⟨table,root,popped⟩ := popShared_recorded cfg shared tdata recorded
    rw [popped]
    simp only [ThreadData.frames,same,Nat.add_sub_cancel]
    exact framesBelow_congr fun i _ => frames_afterExit _ _ _ i
  · obtain ⟨table,root,popped⟩ := popShared_skipped cfg shared tdata skipping
    rw [popped]
    simp only [ThreadData.frames,same,Nat.add_sub_cancel]

theorem frames_setTop (tdata : ThreadData) (f : Activation → Activation) (keeps : ∀ act, frameOf (f act) = frameOf act) :
    (tdata.setTop f).frames = tdata.frames := by
  apply framesBelow_congr
  intro i _
  simp only [ThreadData.setTop,ThreadData.setSlot,Function.update_apply]
  split
  · next same =>
    subst same
    exact keeps _
  · rfl

theorem frames_enterStart (tdata : ThreadData) : (enterStart tdata).frames = tdata.frames :=
  frames_setTop tdata (fun act => {act with start := time tdata}) fun _ => rfl

theorem frames_enterShared (cfg : Config) (shared : Shared) (tdata : ThreadData) :
    (enterShared cfg shared tdata).2.frames = tdata.frames := by
  obtain ⟨table,root,next,node,same⟩ := enterShared_eq cfg shared tdata
  rw [same]
  apply framesBelow_congr
  intro i _
  simp only [Function.update_apply]
  split
  · next top =>
    subst top
    rfl
  · rfl

theorem frames_pushFrame {cfg : Config} {tdata pushed : ThreadData} {sp : UInt64} {f : FnPtr}
    (ok : pushFrame cfg tdata sp f = .ok pushed) : (enterStart pushed).frames = ⟨f,sp,0⟩ :: tdata.frames := by
  obtain ⟨size,table,next,rfl,_⟩ := pushFrame_ok ok
  rw [frames_enterStart]
  simp only [ThreadData.frames,framesBelow,Function.update_self]
  congr 1
  apply framesBelow_congr
  intro i bound
  rw [Function.update_of_ne (Nat.ne_of_lt bound)]

section
variable {c : Counter} {cfg : Config} {rt after : Runtime c}

theorem current_frames {tdata : ThreadData} (current : rt.current = .ok tdata) :
    rt.frames rt.currentTid = some tdata.frames := by
  simp only [Runtime.frames,current_ok.mp current,Option.map_some]

theorem frames_put (tid : Nat) (tdata : ThreadData) :
    (rt.put tid tdata).frames = Function.update rt.frames tid (some tdata.frames) := by
  ext1 other
  simp only [Runtime.frames,Runtime.put,Function.update_apply]
  split <;> rfl

theorem frames_erased {rt' : Runtime c}
    (same : ∀ tid, (rt'.threads tid).map ThreadData.erase = (rt.threads tid).map ThreadData.erase) :
    rt'.frames = rt.frames := by
  ext1 tid
  have kept := congrArg (Option.map ThreadData.frames) (same tid)
  have erased : ThreadData.frames ∘ ThreadData.erase = ThreadData.frames := by
    ext1 tdata
    exact callFrames_erase tdata
  rwa [Option.map_map,Option.map_map,erased] at kept

theorem bbStart_frames (ok : bbStart rt = .ok after) : after.frames = rt.frames ∧ after.currentTid = rt.currentTid := by
  obtain ⟨tdata,current,ok⟩ := bind_ok.mp ok
  cases ok
  refine ⟨?_,rfl⟩
  rw [frames_put]
  exact (congrArg _ (current_frames current).symm).trans (Function.update_eq_self _ _)

theorem popStack_frames (ok : popStack cfg rt = .ok after) : ∃ top rest, rt.frames rt.currentTid = some (top :: rest) ∧
    after.frames = Function.update rt.frames rt.currentTid (some rest) ∧ after.currentTid = rt.currentTid := by
  obtain ⟨tdata,current,ok⟩ := bind_ok.mp ok
  obtain ⟨_,nonempty,ok⟩ := bind_ok.mp ok
  cases ok
  have positive : 0 < tdata.stackDepth := by simpa using check_ok.mp nonempty
  obtain ⟨depth,same⟩ : ∃ depth, tdata.stackDepth = depth + 1 := ⟨tdata.stackDepth - 1,by omega⟩
  have popped := frames_popShared cfg rt.shared tdata positive
  have shape := frames_nonempty same
  rw [shape,List.tail_cons] at popped
  refine ⟨_,_,(current_frames current).trans (congrArg some shape),?_,rfl⟩
  have put : (({rt with shared := (popShared cfg rt.shared tdata).1} : Runtime c).put rt.currentTid
    (popShared cfg rt.shared tdata).2).frames = _ := frames_put _ _
  rw [popped] at put
  exact put

theorem popStack_total {tdata : ThreadData} (current : rt.current = .ok tdata) (nonempty : 0 < tdata.stackDepth) :
    ∃ after, popStack cfg rt = .ok after := by
  unfold popStack
  rw [current,ok_bind,check_ok.mpr (by simpa using nonempty),ok_bind]
  exact ⟨_,rfl⟩

theorem pushStack_frames {sp : UInt64} {f : FnPtr} (ok : pushStack cfg rt sp f = .ok after) : ∃ frames,
    rt.frames rt.currentTid = some frames ∧
    after.frames = Function.update rt.frames rt.currentTid (some (⟨f,sp,0⟩ :: frames)) ∧
    after.currentTid = rt.currentTid := by
  obtain ⟨tdata,current,ok⟩ := bind_ok.mp ok
  obtain ⟨pushed,push,ok⟩ := bind_ok.mp ok
  have entered := frames_pushFrame push
  have depth : 0 < (enterStart pushed).stackDepth := by
    rw [← frames_length,entered]
    exact Nat.succ_pos _
  refine ⟨tdata.frames,current_frames current,?_⟩
  unfold functionEnter at ok
  dsimp only at ok
  split at ok
  · cases ok
    rw [← entered]
    exact ⟨frames_put _ _,rfl⟩
  · split at ok
    · cases ok
      rw [← entered]
      exact ⟨frames_put _ _,rfl⟩
    · obtain ⟨⟨rt',named⟩,assigned,ok⟩ := bind_ok.mp ok
      cases ok
      obtain ⟨erased,tids,-,-,others⟩ := assignId_erase depth assigned
      have same : named.frames = ⟨f,sp,0⟩ :: tdata.frames := by
        rw [← callFrames_erase,erased,callFrames_erase,entered]
      refine ⟨?_,tids⟩
      have put : (({rt' with shared := (enterShared cfg rt'.shared named).1} : Runtime c).put rt.currentTid
        (enterShared cfg rt'.shared named).2).frames = _ := frames_put _ _
      rw [frames_enterShared,same] at put
      refine put.trans ?_
      ext1 other
      by_cases different : other = rt.currentTid
      · rw [different,Function.update_self,Function.update_self]
      · rw [Function.update_of_ne different,Function.update_of_ne different]
        have kept := congrArg (Option.map ThreadData.frames) (others other different)
        have erased : ThreadData.frames ∘ ThreadData.erase = ThreadData.frames := by
          ext1 tdata
          exact callFrames_erase tdata
        rwa [Option.map_map,Option.map_map,erased] at kept

/-- The frame of slot `n - 1` is looked at after `n - 1` others; `none` when the
walk would read below the last frame. -/
def walkFrames (csp target : UInt64) : List Frame → Nat → Option Nat
  | [], _ => none
  | [frame], n => if frame.retAddr = target then some n else none
  | frame :: next :: rest, n =>
    if frame.retAddr = target then some n
    else if next.sp = csp then walkFrames csp target (next :: rest) (n + 1)
    else some 0

def countFrames (csp target : UInt64) : List Frame → Option Nat
  | [] => none
  | top :: rest =>
    if csp < top.sp then some 0
    else if csp = top.sp then walkFrames csp target (top :: rest) 1
    else some 1

def popFrames (csp : UInt64) : Nat → List Frame → List Frame
  | _, [] => []
  | n, frame :: rest =>
    if frame.sp < csp ∨ (csp = frame.sp ∧ 0 < n) then popFrames csp (n - 1) rest else frame :: rest

def callerFrames (last : Option BB) : List Frame → List Frame
  | [] => []
  | top :: rest =>
    match last with
    | none => top :: rest
    | some last => if last.exit = .bbCall then {top with retAddr := last.key + last.instrOffset.toUInt64} :: rest
      else top :: rest

def calleeSp (csp : UInt64) (emulated : Bool) : List Frame → UInt64
  | [] => csp
  | top :: _ => if emulated then top.sp else csp

def enterFrames (last : Option BB) (bb : BB) (csp : UInt64) (emulated : Bool) (frames : List Frame) : List Frame :=
  ⟨bb.fn,calleeSp csp emulated frames,0⟩ :: callerFrames last frames

def adjustFrames (last : Option BB) (bb : BB) (csp : UInt64) (exit : Jump) (emulated : Bool) (frames : List Frame) :
    List Frame :=
  if (popFrames csp 0 frames).length = frames.length ∧ exit = .bbCall then enterFrames last bb csp emulated frames
  else popFrames csp 0 frames

def leaveFrames (last : Option BB) (emulated : Bool) (csp : UInt64) : List Frame → List Frame × UInt64
  | [] => ([],csp)
  | top :: rest => if emulated = true ∧ last.any BB.isDlRuntimeResolve = true then (rest,top.sp) else (top :: rest,csp)

def transferFrames (cfg : Config) (last : Option BB) (bb : BB) (csp : UInt64) (exit : Jump) (returns : Nat)
    (frames : List Frame) : List Frame :=
  let retAsCall := decide (exit = .bbRet ∧ returns = 0)
  let exit := if retAsCall then .bbOther else exit
  let emulated := last.any fun last => emulates cfg last bb exit retAsCall
  let (frames,csp) := leaveFrames last emulated csp frames
  let exit := if emulated then .bbCall else exit
  if exit = .bbRet then popFrames csp returns frames else adjustFrames last bb csp exit emulated frames

theorem returnWalk_eq (stack : Nat → Activation) (csp target : UInt64) (i n : Nat) :
    returnWalk stack csp target i n = match walkFrames csp target (framesBelow stack (i + 1)) n with
      | none => .error .invalidPointer
      | some k => .ok k := by
  induction i generalizing n with
  | zero =>
    simp only [returnWalk,framesBelow,walkFrames,frameOf]
    split <;> rfl
  | succ i ih =>
    unfold returnWalk
    simp only [framesBelow,walkFrames,frameOf]
    split
    · rfl
    · split
      · exact ih (n + 1)
      · rfl

theorem countReturns_eq (tdata : ThreadData) (csp target : UInt64) :
    countReturns tdata csp target = match countFrames csp target tdata.frames with
      | none => .error .invalidPointer
      | some k => .ok k := by
  unfold countReturns
  rcases Nat.eq_zero_or_pos tdata.stackDepth with empty | positive
  · rw [if_pos empty]
    simp only [ThreadData.frames,empty,framesBelow,countFrames]
  · obtain ⟨depth,same⟩ : ∃ depth, tdata.stackDepth = depth + 1 := ⟨tdata.stackDepth - 1,by omega⟩
    have walked := returnWalk_eq tdata.stack csp target depth 1
    have top : tdata.top = tdata.stack depth := by rw [ThreadData.top,same,Nat.add_sub_cancel]
    rw [if_neg (by omega),frames_nonempty same,same,Nat.add_sub_cancel,walked]
    simp only [countFrames,framesBelow,top,frameOf]
    split
    · rfl
    · split <;> rfl

/-- `pop_stack` drops the frames that `popFrames` drops. -/
theorem popStackTo_frames {csp : UInt64} {turns n k : Nat} {frames : List Frame}
    (found : rt.frames rt.currentTid = some frames) (bound : frames.length ≤ turns)
    (ok : popStackTo cfg csp turns n rt = .ok (after,k)) :
    after.frames = Function.update rt.frames rt.currentTid (some (popFrames csp n frames)) ∧
      after.currentTid = rt.currentTid ∧ k + (popFrames csp n frames).length = frames.length ∧ (k = 0 → after = rt) := by
  induction turns generalizing rt n k frames with
  | zero =>
    cases ok
    have empty : frames = [] := List.length_eq_zero_iff.mp (by omega)
    subst empty
    refine ⟨?_,rfl,rfl,fun _ => rfl⟩
    rw [popFrames,← found,Function.update_eq_self]
  | succ turns ih =>
    obtain ⟨tdata,current,ok⟩ := bind_ok.mp ok
    have shown := current_frames current
    rw [found] at shown
    cases shown
    split at ok
    · next pops =>
      obtain ⟨middle,popped,ok⟩ := bind_ok.mp ok
      obtain ⟨⟨last,m⟩,rest,ok⟩ := bind_ok.mp ok
      cases ok
      obtain ⟨top,below,shape,dropped,tid⟩ := popStack_frames popped
      rw [found] at shape
      simp only [Option.some.injEq] at shape
      have inner : middle.frames middle.currentTid = some below := by
        rw [tid,dropped,Function.update_self]
      rw [shape,List.length_cons] at bound
      obtain ⟨same,tid',length,_⟩ := ih inner (by omega) rest
      have headed : top = frameOf tdata.top := by
        have positive : 0 < tdata.stackDepth := by rw [← frames_length,shape]; exact Nat.succ_pos _
        obtain ⟨depth,height⟩ : ∃ depth, tdata.stackDepth = depth + 1 := ⟨tdata.stackDepth - 1,by omega⟩
        rw [frames_nonempty height] at shape
        exact (List.cons.inj shape).1.symm
      have turn : popFrames csp n tdata.frames = popFrames csp (n - 1) below := by
        rw [shape,popFrames,if_pos]
        rw [headed]
        exact pops
      rw [turn,shape]
      refine ⟨?_,tid'.trans tid,?_,fun zero => by omega⟩
      · rw [same,dropped,tid,Function.update_idem]
      · rw [List.length_cons]
        omega
    · next stays =>
      cases ok
      have kept : popFrames csp n tdata.frames = tdata.frames := by
        rcases Nat.eq_zero_or_pos tdata.stackDepth with empty | positive
        · simp only [ThreadData.frames,empty,framesBelow,popFrames]
        · obtain ⟨depth,height⟩ : ∃ depth, tdata.stackDepth = depth + 1 := ⟨tdata.stackDepth - 1,by omega⟩
          rw [frames_nonempty height,popFrames]
          exact if_neg stays
      rw [kept]
      refine ⟨?_,rfl,Nat.zero_add _,fun _ => rfl⟩
      rw [← found,Function.update_eq_self]

theorem storeReturn_frames {tdata : ThreadData} (current : rt.current = .ok tdata) (last : Option BB) :
    (storeReturn rt tdata last).frames = Function.update rt.frames rt.currentTid (some (callerFrames last tdata.frames)) ∧
      (storeReturn rt tdata last).currentTid = rt.currentTid := by
  have found := current_frames current
  have unchanged : rt.frames = Function.update rt.frames rt.currentTid (some tdata.frames) := by
    rw [← found,Function.update_eq_self]
  unfold storeReturn
  rcases Nat.eq_zero_or_pos tdata.stackDepth with empty | positive
  · have none : tdata.frames = [] := by simp only [ThreadData.frames,empty,framesBelow]
    rw [none] at unchanged ⊢
    cases last with
    | none => exact ⟨unchanged,rfl⟩
    | some last =>
      simp only [empty,Nat.lt_irrefl,false_and,if_false]
      exact ⟨unchanged,trivial⟩
  · obtain ⟨depth,height⟩ : ∃ depth, tdata.stackDepth = depth + 1 := ⟨tdata.stackDepth - 1,by omega⟩
    have shape := frames_nonempty height
    cases last with
    | none =>
      refine ⟨?_,rfl⟩
      rw [shape] at unchanged ⊢
      exact unchanged
    | some last =>
      simp only [positive,true_and]
      split
      · next calls =>
        refine ⟨?_,rfl⟩
        rw [frames_put,shape]
        simp only [callerFrames,calls,if_true]
        congr 2
        simp only [ThreadData.frames,ThreadData.setTop,ThreadData.setSlot,height,framesBelow,Nat.add_sub_cancel,
          Function.update_self]
        congr 1
        · simp only [frameOf,ThreadData.top,height,Nat.add_sub_cancel]
        · apply framesBelow_congr
          intro i bound
          rw [Function.update_of_ne (Nat.ne_of_lt bound)]
      · next other =>
        refine ⟨?_,rfl⟩
        rw [shape] at unchanged ⊢
        simp only [callerFrames,other,if_false]
        exact unchanged

theorem calleeSp_eq (tdata : ThreadData) (csp : UInt64) (emulated : Bool) :
    (if emulated = true ∧ 0 < tdata.stackDepth then tdata.top.sp else csp) = calleeSp csp emulated tdata.frames := by
  rcases Nat.eq_zero_or_pos tdata.stackDepth with empty | positive
  · simp only [ThreadData.frames,empty,framesBelow,calleeSp,Nat.lt_irrefl,and_false,if_false]
  · obtain ⟨depth,height⟩ : ∃ depth, tdata.stackDepth = depth + 1 := ⟨tdata.stackDepth - 1,by omega⟩
    rw [frames_nonempty height]
    simp only [positive,and_true,calleeSp,frameOf]

theorem adjustStack_frames {last : Option BB} {bb : BB} {csp : UInt64} {exit : Jump} {emulated : Bool}
    {frames : List Frame} (found : rt.frames rt.currentTid = some frames)
    (ok : adjustStack cfg rt last bb csp exit emulated = .ok after) :
    after.frames = Function.update rt.frames rt.currentTid (some (adjustFrames last bb csp exit emulated frames)) ∧
      after.currentTid = rt.currentTid := by
  obtain ⟨tdata,current,rest⟩ := bind_ok.mp ok
  obtain ⟨⟨rt',n⟩,pops,entered⟩ := bind_ok.mp rest
  have shown := current_frames current
  rw [found] at shown
  cases shown
  obtain ⟨popped,tid,length,none⟩ := popStackTo_frames found (Nat.le_of_eq (frames_length tdata)) pops
  have count : n = 0 ↔ (popFrames csp 0 tdata.frames).length = tdata.frames.length := by omega
  unfold adjustFrames
  dsimp only at entered
  by_cases calls : n = 0 ∧ exit = .bbCall
  · rw [if_pos calls] at entered
    rw [if_pos ⟨count.mp calls.1,calls.2⟩]
    obtain rfl := none calls.1
    obtain ⟨stored,stored'⟩ := storeReturn_frames current last
    obtain ⟨frames,top,pushed,tid'⟩ := pushStack_frames entered
    rw [stored',stored,Function.update_self] at top
    cases top
    rw [stored',stored,Function.update_idem,calleeSp_eq] at pushed
    exact ⟨pushed,tid'.trans stored'⟩
  · rw [if_neg calls] at entered
    rw [if_neg fun both => calls ⟨count.mpr both.1,both.2⟩]
    cases entered
    exact ⟨popped,tid⟩

theorem leaveResolver_frames {last : Option BB} {emulated : Bool} {csp csp' : UInt64} {frames : List Frame}
    (found : rt.frames rt.currentTid = some frames)
    (ok : leaveResolver cfg rt last emulated csp = .ok (after,csp')) :
    after.frames = Function.update rt.frames rt.currentTid (some (leaveFrames last emulated csp frames).1) ∧
      after.currentTid = rt.currentTid ∧ csp' = (leaveFrames last emulated csp frames).2 := by
  obtain ⟨tdata,current,ok⟩ := bind_ok.mp ok
  have shown := current_frames current
  rw [found] at shown
  cases shown
  have unchanged : rt.frames = Function.update rt.frames rt.currentTid (some tdata.frames) := by
    rw [← found,Function.update_eq_self]
  rcases Nat.eq_zero_or_pos tdata.stackDepth with empty | positive
  · have none : tdata.frames = [] := by simp only [ThreadData.frames,empty,framesBelow]
    simp only [empty,Nat.lt_irrefl,false_and,and_false,if_false] at ok
    cases ok
    rw [none] at unchanged ⊢
    exact ⟨unchanged,rfl,rfl⟩
  · obtain ⟨depth,height⟩ : ∃ depth, tdata.stackDepth = depth + 1 := ⟨tdata.stackDepth - 1,by omega⟩
    have shape := frames_nonempty height
    simp only [positive,true_and] at ok
    rw [shape,leaveFrames]
    split at ok
    · next leaves =>
      obtain ⟨middle,popped,ok⟩ := bind_ok.mp ok
      cases ok
      obtain ⟨top,below,headed,dropped,tid⟩ := popStack_frames popped
      rw [found,shape] at headed
      cases headed
      rw [if_pos leaves]
      exact ⟨dropped,tid,rfl⟩
    · next stays =>
      cases ok
      rw [if_neg stays]
      rw [shape] at unchanged
      exact ⟨unchanged,rfl,rfl⟩

/-- `BB_start` does to the frames what `transferFrames` says: nothing but the
pending activations decides. -/
theorem transferTo_frames {last : Option BB} {bb : BB} {csp : UInt64} {exit : Jump} {returns : Nat}
    {frames : List Frame} (found : rt.frames rt.currentTid = some frames)
    (ok : transferTo cfg rt last bb csp exit returns = .ok after) :
    after.frames = Function.update rt.frames rt.currentTid (some (transferFrames cfg last bb csp exit returns frames)) ∧
      after.currentTid = rt.currentTid := by
  unfold transferTo at ok
  unfold transferFrames
  dsimp only at ok ⊢
  generalize decide (exit = .bbRet ∧ returns = 0) = retAsCall at ok ⊢
  generalize (if retAsCall = true then .bbOther else exit) = exit at ok ⊢
  generalize (last.any fun last => emulates cfg last bb exit retAsCall) = emulated at ok ⊢
  obtain ⟨⟨left,csp'⟩,leaves,ok⟩ := bind_ok.mp ok
  obtain ⟨dropped,tid,rfl⟩ := leaveResolver_frames found leaves
  have inner : left.frames left.currentTid = some (leaveFrames last emulated csp frames).1 := by
    rw [tid,dropped,Function.update_self]
  dsimp only at ok
  generalize (if emulated = true then Jump.bbCall else exit) = exit at ok ⊢
  rcases eq_or_ne exit .bbRet with left' | goes
  · rw [if_pos left'] at ok ⊢
    obtain ⟨tdata,current,ok⟩ := bind_ok.mp ok
    obtain ⟨⟨rt',n⟩,pops,ok⟩ := bind_ok.mp ok
    cases ok
    have shown := current_frames current
    rw [inner] at shown
    have bound : (leaveFrames last emulated csp frames).1.length ≤ tdata.stackDepth := by
      rw [Option.some.inj shown,frames_length]
    obtain ⟨popped,tid',_,_⟩ := popStackTo_frames inner bound pops
    rw [dropped,tid,Function.update_idem] at popped
    exact ⟨popped,tid'.trans tid⟩
  · rw [if_neg goes] at ok ⊢
    obtain ⟨adjusted,tid'⟩ := adjustStack_frames inner ok
    rw [dropped,tid,Function.update_idem] at adjusted
    exact ⟨adjusted,tid'.trans tid⟩

end

end Aprof
