import Aprof.BasicBlocks
import Aprof.ThreadRuns

/-! The life of a thread that is traced by basic blocks. `BB_start` ticks first, then
leaves functions and enters at most one, so between two calls there is a tick. -/
namespace Aprof

open Lockstep

/-- A thread is inside `BB_start`, after its tick, or between two blocks. -/
inductive Phase where
  | starting
  | running

/-- A life by blocks, with the operations on the calls and costs as in `ThreadRun`. -/
inductive BlockRun (cfg : Config) (tid : Nat) : Phase → ThreadLog → ThreadData → Prop where
  | fresh (shadow : LookupTable Nat) : BlockRun cfg tid .running [] (newThread cfg tid shadow)
  | tick {log : ThreadLog} {tdata : ThreadData} (life : BlockRun cfg tid .running log tdata) :
      BlockRun cfg tid .starting ((.tick,tdata) :: log) {tdata with cost := tdata.cost + 1}
  | exit {log : ThreadLog} {tdata : ThreadData} (life : BlockRun cfg tid .starting log tdata) (shared : Shared)
      (nonempty : 0 < tdata.stackDepth) :
      BlockRun cfg tid .starting ((.exit,tdata) :: log) (popShared cfg shared tdata).2
  | storeReturn {log : ThreadLog} {tdata : ThreadData} (life : BlockRun cfg tid .starting log tdata) (retAddr : UInt64) :
      BlockRun cfg tid .starting log (tdata.setTop fun act => {act with retAddr := retAddr})
  | enter {log : ThreadLog} {tdata pushed : ThreadData} (life : BlockRun cfg tid .starting log tdata) (shared : Shared)
      (sp : UInt64) (f : FnPtr) (push : pushFrame cfg tdata sp f = .ok pushed) :
      BlockRun cfg tid .running ((.enter sp f,tdata) :: log) (Levels.functionEnter cfg shared pushed).2
  | plain {log : ThreadLog} {tdata : ThreadData} (life : BlockRun cfg tid .starting log tdata) :
      BlockRun cfg tid .running log tdata
  | access {log : ThreadLog} {tdata after : ThreadData} (life : BlockRun cfg tid .running log tdata)
      (same : after.control = tdata.control) : BlockRun cfg tid .running log after

section
variable {c : Counter} {cfg : Config} {rt after : Runtime c}

/-- Every thread lives by blocks, and a reported one has been unwound from there. -/
structure BlockLives (cfg : Config) (rt : Runtime c) (phase : Nat → Phase) : Prop where
  threads : ∀ tid tdata, rt.threads tid = some tdata → ∃ log, BlockRun cfg tid (phase tid) log tdata
  reported : ∀ pair ∈ rt.reported, ∃ log last shared, BlockRun cfg pair.1 .running log last ∧
    pair.2 = (unwindShared cfg last.stackDepth (shared,last)).2

/-- The current thread is inside `BB_start`. -/
def startingAt (tid : Nat) : Nat → Phase := Function.update (fun _ => .running) tid .starting

theorem BlockLives.control (lives : BlockLives cfg rt fun _ => .running)
    (same : ∀ tid, (after.threads tid).map ThreadData.control = (rt.threads tid).map ThreadData.control)
    (reported : after.reported = rt.reported) : BlockLives cfg after fun _ => .running := by
  refine ⟨?_,by rw [reported]; exact lives.reported⟩
  intro tid tdata found
  have kept := same tid
  rw [found,Option.map_some] at kept
  obtain ⟨before,stored,equal⟩ := Option.map_eq_some_iff.mp kept.symm
  obtain ⟨log,life⟩ := lives.threads tid before stored
  exact ⟨log,life.access equal.symm⟩

theorem BlockLives.put {phase : Phase} {phases : Nat → Phase} (lives : BlockLives cfg rt phases) {tid : Nat}
    (running : ∀ other, other ≠ tid → phases other = .running) {tdata : ThreadData} {log : ThreadLog}
    (life : BlockRun cfg tid phase log tdata) (found : after.threads tid = some tdata)
    (same : ∀ other, other ≠ tid →
      (after.threads other).map ThreadData.control = (rt.threads other).map ThreadData.control)
    (reported : after.reported = rt.reported) :
    BlockLives cfg after (Function.update (fun _ => .running) tid phase) := by
  refine ⟨?_,by rw [reported]; exact lives.reported⟩
  intro other tdata' found'
  by_cases equal : other = tid
  · subst equal
    rw [found] at found'
    cases found'
    rw [Function.update_self]
    exact ⟨log,life⟩
  · have kept := same other equal
    rw [found',Option.map_some] at kept
    obtain ⟨before,stored,equal'⟩ := Option.map_eq_some_iff.mp kept.symm
    obtain ⟨log,life⟩ := lives.threads other before stored
    rw [running other equal] at life
    rw [Function.update_of_ne equal]
    exact ⟨log,life.access equal'.symm⟩

theorem startingAt_other {tid other : Nat} (different : other ≠ tid) : startingAt tid other = .running :=
  Function.update_of_ne different _ _

theorem BlockLives.bbStart (lives : BlockLives cfg rt fun _ => .running) (ok : bbStart rt = .ok after) :
    BlockLives cfg after (startingAt after.currentTid) := by
  obtain ⟨tdata,current,ok⟩ := bind_ok.mp ok
  cases ok
  obtain ⟨log,life⟩ := lives.threads _ _ (current_ok.mp current)
  exact lives.put (fun _ _ => rfl) life.tick (Function.update_self ..)
    (fun other different => congrArg _ (Function.update_of_ne different _ _)) rfl

theorem BlockLives.popStack (lives : BlockLives cfg rt (startingAt rt.currentTid)) (ok : popStack cfg rt = .ok after) :
    BlockLives cfg after (startingAt after.currentTid) := by
  obtain ⟨tdata,current,ok⟩ := bind_ok.mp ok
  obtain ⟨_,nonempty,ok⟩ := bind_ok.mp ok
  cases ok
  obtain ⟨log,life⟩ := lives.threads _ _ (current_ok.mp current)
  rw [startingAt,Function.update_self] at life
  exact lives.put (fun other different => startingAt_other different)
    (life.exit rt.shared (by simpa using check_ok.mp nonempty)) (Function.update_self ..)
    (fun other different => congrArg _ (Function.update_of_ne different _ _)) rfl

theorem BlockLives.pushStack {sp : UInt64} {f : FnPtr} (lives : BlockLives cfg rt (startingAt rt.currentTid))
    (ok : pushStack cfg rt sp f = .ok after) : BlockLives cfg after fun _ => .running := by
  obtain ⟨tdata,current,ok⟩ := bind_ok.mp ok
  obtain ⟨pushed,push,ok⟩ := bind_ok.mp ok
  obtain ⟨log,life⟩ := lives.threads _ _ (current_ok.mp current)
  rw [startingAt,Function.update_self] at life
  have depth : 0 < pushed.stackDepth := by
    rw [pushFrame_depth push]
    exact Nat.succ_pos _
  obtain ⟨-,-,reported,⟨entered,found,same⟩,others⟩ := functionEnter_control depth ok
  have all := lives.put (fun other different => startingAt_other different)
    ((life.enter rt.shared sp f push).access same) found others reported
  rwa [Function.update_eq_self_iff.mpr rfl] at all

theorem BlockLives.finish (lives : BlockLives cfg rt (startingAt rt.currentTid)) : BlockLives cfg rt fun _ => .running := by
  refine ⟨?_,lives.reported⟩
  intro tid tdata found
  obtain ⟨log,life⟩ := lives.threads tid tdata found
  unfold startingAt at life
  rw [Function.update_apply] at life
  split at life
  · exact ⟨log,life.plain⟩
  · exact ⟨log,life⟩

section
variable {c : Counter} {cfg : Config} {rt after : Runtime c}

theorem BlockLives.popStackTo {csp : UInt64} {turns frames n : Nat} (lives : BlockLives cfg rt (startingAt rt.currentTid))
    (ok : popStackTo cfg csp turns frames rt = .ok (after,n)) : BlockLives cfg after (startingAt after.currentTid) := by
  induction turns generalizing rt frames n with
  | zero =>
    cases ok
    exact lives
  | succ turns ih =>
    obtain ⟨tdata,current,ok⟩ := bind_ok.mp ok
    split at ok
    · obtain ⟨middle,popped,ok⟩ := bind_ok.mp ok
      obtain ⟨⟨last,m⟩,rest,ok⟩ := bind_ok.mp ok
      cases ok
      exact ih (lives.popStack popped) rest
    · cases ok
      exact lives

theorem popStackTo_none {csp : UInt64} {turns frames n : Nat} (ok : popStackTo cfg csp turns frames rt = .ok (after,n))
    (none : n = 0) : after = rt := by
  cases turns with
  | zero =>
    cases ok
    rfl
  | succ turns =>
    obtain ⟨tdata,current,ok⟩ := bind_ok.mp ok
    split at ok
    · obtain ⟨middle,popped,ok⟩ := bind_ok.mp ok
      obtain ⟨⟨last,m⟩,rest,ok⟩ := bind_ok.mp ok
      cases ok
      cases none
    · cases ok
      rfl

theorem BlockLives.storeReturn {tdata : ThreadData} (lives : BlockLives cfg rt (startingAt rt.currentTid))
    (current : rt.current = .ok tdata) (last : Option BB) :
    BlockLives cfg (storeReturn rt tdata last) (startingAt (storeReturn rt tdata last).currentTid) := by
  obtain ⟨log,life⟩ := lives.threads _ _ (current_ok.mp current)
  rw [startingAt,Function.update_self] at life
  unfold Aprof.storeReturn
  split
  · exact lives
  · split
    · exact lives.put (fun other different => startingAt_other different) (life.storeReturn _) (Function.update_self ..)
        (fun other different => congrArg _ (Function.update_of_ne different _ _)) rfl
    · exact lives

theorem BlockLives.adjustStack {last : Option BB} {bb : BB} {csp : UInt64} {exit : Jump} {emulated : Bool}
    (lives : BlockLives cfg rt (startingAt rt.currentTid)) (ok : adjustStack cfg rt last bb csp exit emulated = .ok after) :
    BlockLives cfg after fun _ => .running := by
  obtain ⟨tdata,current,ok⟩ := bind_ok.mp ok
  obtain ⟨⟨middle,n⟩,popped,ok⟩ := bind_ok.mp ok
  have left := lives.popStackTo popped
  dsimp only at ok
  split at ok
  · next called =>
    -- without a pop the thread is the one that was current before
    rw [popStackTo_none popped called.1] at ok
    exact (lives.storeReturn current last).pushStack ok
  · cases ok
    exact left.finish

theorem BlockLives.transferTo {last : Option BB} {bb : BB} {csp : UInt64} {exit : Jump} {returns : Nat}
    (lives : BlockLives cfg rt (startingAt rt.currentTid)) (ok : transferTo cfg rt last bb csp exit returns = .ok after) :
    BlockLives cfg after fun _ => .running := by
  unfold Aprof.transferTo at ok
  dsimp only at ok
  generalize (if decide (exit = .bbRet ∧ returns = 0) = true then Jump.bbOther else exit) = exit' at ok
  generalize (last.any fun last => emulates cfg last bb _ _) = emulated at ok
  obtain ⟨⟨middle,csp'⟩,left,ok⟩ := bind_ok.mp ok
  have lives' : BlockLives cfg middle (startingAt middle.currentTid) := by
    obtain ⟨tdata,current,left⟩ := bind_ok.mp left
    split at left
    · obtain ⟨popped,pop,left⟩ := bind_ok.mp left
      cases left
      exact lives.popStack pop
    · cases left
      exact lives
  dsimp only at ok
  generalize (if emulated = true then Jump.bbCall else _) = exit'' at ok
  split at ok
  · obtain ⟨tdata,current,ok⟩ := bind_ok.mp ok
    obtain ⟨⟨last',n⟩,popped,ok⟩ := bind_ok.mp ok
    cases ok
    exact (lives'.popStackTo popped).finish
  · exact lives'.adjustStack ok

end

section
variable {c : Counter} {cfg : Config}

theorem BlockLives.threadStart {rt after : Runtime c} {tid : Nat} (lives : BlockLives cfg rt fun _ => .running)
    (ok : threadStart cfg rt tid = .ok after) : BlockLives cfg after fun _ => .running := by
  obtain ⟨_,_,ok⟩ := bind_ok.mp ok
  obtain ⟨_,_,ok⟩ := bind_ok.mp ok
  obtain ⟨shadow,_,ok⟩ := bind_ok.mp ok
  cases ok
  have all : BlockLives cfg (rt.put tid (newThread cfg tid shadow)) (Function.update (fun _ => .running) tid .running) :=
    lives.put (fun _ _ => rfl) (.fresh shadow) (Function.update_self ..)
      (fun other different => congrArg _ (Function.update_of_ne different _ _)) rfl
  rwa [Function.update_eq_self_iff.mpr rfl] at all

theorem BlockLives.threadSwitch {rt after : Runtime c} {tid : Nat} (lives : BlockLives cfg rt fun _ => .running)
    (ok : threadSwitch cfg rt tid = .ok after) : BlockLives cfg after fun _ => .running := by
  have moved : BlockLives cfg ({rt with currentTid := tid} : Runtime c) fun _ => .running := ⟨lives.threads,lives.reported⟩
  refine threadSwitch_keeps (P := fun rt : Runtime c => BlockLives cfg rt fun _ => .running) lives moved ?_ ?_ ok
  · intro middle counted
    obtain ⟨-,-,reported,erased⟩ := increaseGlobalCounter_erase counted
    exact moved.control (control_erased erased) reported
  · intro middle after lives started
    exact lives.threadStart started

theorem BlockLives.threadExit {rt after : Runtime c} {tid : Nat} (lives : BlockLives cfg rt fun _ => .running)
    (ok : threadExit cfg rt tid = .ok after) : BlockLives cfg after fun _ => .running := by
  unfold Aprof.threadExit at ok
  split at ok
  · cases ok
  · next tdata found =>
    cases ok
    obtain ⟨log,life⟩ := lives.threads tid tdata found
    refine ⟨?_,?_⟩
    · intro other tdata' found'
      dsimp only at found'
      rw [Function.update_apply] at found'
      split at found'
      · cases found'
      · exact lives.threads other tdata' found'
    · intro pair member
      rcases List.mem_cons.mp member with rfl | older
      · exact ⟨log,tdata,rt.shared,life,rfl⟩
      · exact lives.reported pair older

theorem BlockLives.traceStep {tr after : Tracer c} {event : TraceEvent} (lives : BlockLives cfg tr.rt fun _ => .running)
    (ok : tr.step cfg event = .ok after) : BlockLives cfg after.rt fun _ => .running := by
  cases event with
  | threadCreate child =>
    obtain ⟨rt,started,ok⟩ := bind_ok.mp ok
    cases ok
    exact lives.threadStart started
  | threadSwitch tid =>
    obtain ⟨rt,switched,ok⟩ := bind_ok.mp ok
    have lives' := lives.threadSwitch switched
    split at ok
    · cases ok
      exact lives
    · dsimp only at ok
      split at ok
      · cases ok
        exact lives'
      · cases ok
        dsimp only
        split <;> exact lives'
  | threadExit tid =>
    obtain ⟨rt,exited,ok⟩ := bind_ok.mp ok
    cases ok
    exact lives.threadExit exited
  | bbStart bb csp =>
    obtain ⟨ticked,tdata,returns,moved,tick,-,-,transfer,rfl⟩ := Tracer.bbStart_cases ok
    exact (lives.bbStart tick).transferTo transfer
  | bbEnd =>
    cases ok
    exact lives
  | access type addr size =>
    obtain ⟨rt,traced,ok⟩ := bind_ok.mp ok
    cases ok
    have same := traceAccess_control traced
    exact lives.control same.threads same.reported

theorem trace_lives {events : List TraceEvent} {first tr : Tracer c} (created : Tracer.initial c cfg = .ok first)
    (ok : first.run cfg events = .ok tr) : BlockLives cfg tr.rt fun _ => .running := by
  have start : BlockLives cfg first.rt fun _ => .running := by
    obtain ⟨rt,created,ok⟩ := bind_ok.mp created
    obtain ⟨global,_,created⟩ := bind_ok.mp created
    cases created
    cases ok
    exact ⟨nofun,nofun⟩
  exact foldlM_keeps (P := fun tr : Tracer c => BlockLives cfg tr.rt fun _ => .running)
    (fun _ _ _ lives ok => lives.traceStep ok) _ _ _ start ok

end

end

end Aprof
