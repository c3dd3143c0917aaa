import Aprof.Calls
import Aprof.Erasure

/-! The profiler without timestamps: each thread knows, for every granule, the
highest recorded frame that was pending when it last accessed the granule, and
whether the granule has been written by somebody else since. -/
namespace Aprof.Levels

/-- `levels g` is 0 when no pending recorded frame has seen an access to `g`. -/
structure LevelThread where
  core : ThreadData
  levels : Nat → Nat
  dirty : Nat → Bool

structure LevelRuntime where
  threads : Nat → Option LevelThread
  currentTid : Nat
  written : Nat → Bool
  byKernel : Nat → Bool
  shared : Shared
  reported : List (Nat × ThreadData)

def LevelRuntime.put (rt : LevelRuntime) (tid : Nat) (thread : LevelThread) : LevelRuntime :=
  {rt with threads := Function.update rt.threads tid (some thread)}

def LevelRuntime.current (rt : LevelRuntime) : Result LevelThread :=
  match rt.threads rt.currentTid with
  | none => .error .invalidPointer
  | some thread => .ok thread

def LevelRuntime.cores (rt : LevelRuntime) (tid : Nat) : Option ThreadData :=
  (rt.threads tid).map LevelThread.core

/-- A new thread has seen none of the writes so far; the RMS metric ignores writes. -/
def unseen (cfg : Config) (rt : LevelRuntime) (g : Nat) : Bool :=
  match cfg.inputMetric with
  | .rms => false
  | _ => rt.written g

def threadStart (cfg : Config) (rt : LevelRuntime) (tid : Nat) : Result LevelRuntime := do
  check (0 < tid && tid ≤ cfg.maxThreads) "Invalid tid"
  check (rt.threads tid).isNone "Double thread"
  .ok (rt.put tid ⟨(newThread cfg tid blankTable).erase,fun _ => 0,unseen cfg rt⟩)

def threadSwitch (cfg : Config) (rt : LevelRuntime) (tid : Nat) : Result LevelRuntime :=
  if tid = rt.currentTid then .ok rt
  else if tid = 0 then .ok {rt with currentTid := tid}
  else match rt.threads tid with
    | none => threadStart cfg {rt with currentTid := tid} tid
    | some _ => .ok {rt with currentTid := tid}

def threadExit (cfg : Config) (rt : LevelRuntime) (tid : Nat) : Result LevelRuntime :=
  match rt.threads tid with
  | none => .error .invalidPointer
  | some thread =>
    let (shared,core) := unwindShared cfg thread.core.stackDepth (rt.shared,thread.core)
    .ok {rt with
      threads := Function.update rt.threads tid none
      currentTid := 0
      shared := shared
      reported := (tid,core) :: rt.reported}

def functionEnter (cfg : Config) (shared : Shared) (core : ThreadData) : Shared × ThreadData :=
  let core := enterStart core
  if (cfg.fn core.top.routineInfo).skip then (shared,{core with skip := core.skip + 1})
  else if core.skip > 0 then (shared,core)
  else enterShared cfg shared core

def pushStack (cfg : Config) (rt : LevelRuntime) (sp : UInt64) (f : FnPtr) : Result LevelRuntime := do
  let thread ← rt.current
  let core ← pushFrame cfg thread.core sp f
  let (shared,core) := functionEnter cfg rt.shared core
  .ok ({rt with shared := shared}.put rt.currentTid {thread with core := core})

def popStack (cfg : Config) (rt : LevelRuntime) : Result LevelRuntime := do
  let thread ← rt.current
  check (0 < thread.core.stackDepth) "Invalid stack depth"
  let (shared,core) := popShared cfg rt.shared thread.core
  .ok ({rt with shared := shared}.put rt.currentTid
    {thread with core := core, levels := fun g => min (thread.levels g) (recordedDepth cfg core)})

/-- A read counts as input of the top frame when the granule is dirty, or new to
it; in the second case it stops counting for the frame that saw it last. -/
def readInput (byKernel : Bool) (thread : LevelThread) (g : Nat) : ThreadData :=
  let counted := thread.core.setTop incInput
  if thread.dirty g then counted.setTop (if byKernel then incSyscall else incThread)
  else if thread.levels g < thread.core.stackDepth then
    if 0 < thread.levels g then counted.setSlot (thread.levels g - 1) decInput else counted
  else thread.core

def touch (type : AccessType) (byKernel : Bool) (thread : LevelThread) (g : Nat) : LevelThread where
  core := if type = .store then thread.core else readInput byKernel thread g
  levels := Function.update thread.levels g thread.core.stackDepth
  dirty := Function.update thread.dirty g false

/-- A write makes the granule dirty for every thread. -/
def mark (byKernel : Bool) (rt : LevelRuntime) (g : Nat) : LevelRuntime :=
  {rt with
    threads := fun tid => (rt.threads tid).map fun thread =>
      {thread with dirty := Function.update thread.dirty g true}
    written := Function.update rt.written g true
    byKernel := Function.update rt.byKernel g byKernel}

def touchCell (cfg : Config) (type : AccessType) (kernelAccess : Bool) (rt : LevelRuntime) (addr : Nat) :
    Result LevelRuntime := do
  let thread ← rt.current
  check (addr < cfg.layout.limit) "Address overflow"
  let g := addr / cfg.memoryResolution
  match cfg.inputMetric with
  | .rms => .ok (rt.put rt.currentTid (touch type false thread g))
  | _ =>
    if kernelAccess ∧ type ≠ .load then .ok (mark true rt g)
    else
      let touched := touch type (rt.byKernel g) thread g
      .ok ((if type = .load then rt else mark false rt g).put rt.currentTid touched)

def traceAccess (cfg : Config) (rt : LevelRuntime) (type : AccessType) (addr size : Nat)
    (kernelAccess : Bool) : Result LevelRuntime := do
  let thread ← rt.current
  if thread.core.stackDepth = 0 ∨ thread.core.skip > 0 then .ok rt
  else (accessAddrs cfg.memoryResolution addr size).foldlM (touchCell cfg type kernelAccess) rt

def kernelStore (cfg : Config) (rt : LevelRuntime) (buffer : Nat × Int) : Result LevelRuntime :=
  let fixed := fixAccessSize cfg.memoryResolution buffer.1 buffer.2
  (sweep cfg.memoryResolution fixed.2.toNat fixed.1 fixed.2).foldlM
    (fun rt addr => traceAccess cfg rt .store addr cfg.memoryResolution true) rt

def postSyscall (cfg : Config) (rt : LevelRuntime) (tid : Nat) (buffers : List (Nat × Int)) :
    Result LevelRuntime := do
  if cfg.inputMetric = .drms then
    let rt ← if tid ≠ rt.currentTid then threadSwitch cfg rt tid else .ok rt
    buffers.foldlM (kernelStore cfg) rt
  else .ok rt

def bbStart (rt : LevelRuntime) : Result LevelRuntime := do
  let thread ← rt.current
  .ok (rt.put rt.currentTid {thread with core := {thread.core with cost := thread.core.cost + 1}})

def step (cfg : Config) (rt : LevelRuntime) : Event → Result LevelRuntime
  | .threadCreate child => threadStart cfg rt child
  | .threadSwitch tid => threadSwitch cfg rt tid
  | .threadExit tid => threadExit cfg rt tid
  | .bbStart => bbStart rt
  | .functionEnter sp f => pushStack cfg rt sp f
  | .functionExit => popStack cfg rt
  | .access type addr size => traceAccess cfg rt type addr size false
  | .postSyscall tid buffers => postSyscall cfg rt tid buffers

def run (cfg : Config) (rt : LevelRuntime) (events : List Event) : Result LevelRuntime :=
  events.foldlM (step cfg) rt

def initial (cfg : Config) : LevelRuntime :=
  ⟨fun _ => none,0,fun _ => false,fun _ => false,⟨fun f => (cfg.fn f).inputMap,[⟨[],0,0⟩]⟩,[]⟩

end Aprof.Levels

namespace Aprof

open Levels

theorem levels_current_ok {levels : LevelRuntime} {th : LevelThread} :
    levels.current = .ok th ↔ levels.threads levels.currentTid = some th := by
  unfold LevelRuntime.current
  cases levels.threads levels.currentTid <;> simp

section
variable {cfg : Config} {levels after : LevelRuntime}

theorem levels_threadStart_ok {tid : Nat} (ok : Levels.threadStart cfg levels tid = .ok after) :
    levels.threads tid = none ∧
      after = levels.put tid ⟨(newThread cfg tid blankTable).erase,fun _ => 0,unseen cfg levels⟩ := by
  obtain ⟨_,_,ok⟩ := bind_ok.mp ok
  obtain ⟨_,free,ok⟩ := bind_ok.mp ok
  cases ok
  exact ⟨by simpa using check_ok.mp free,rfl⟩

theorem levels_threadSwitch_ok {tid : Nat} (ok : Levels.threadSwitch cfg levels tid = .ok after) :
    after = {levels with currentTid := tid} ∨
      Levels.threadStart cfg {levels with currentTid := tid} tid = .ok after := by
  unfold Levels.threadSwitch at ok
  split at ok
  · next same =>
    cases ok
    subst same
    exact Or.inl rfl
  · split at ok
    · cases ok
      exact Or.inl rfl
    · split at ok
      · exact Or.inr ok
      · cases ok
        exact Or.inl rfl

end

end Aprof
