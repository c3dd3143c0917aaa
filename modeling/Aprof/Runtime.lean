import Aprof.OverflowHandlers
import Aprof.General.Lockstep

/-! The runtime of the tool and its events: the thread handlers of `thread.c`,
calls and returns of the current thread, its memory accesses and the kernel
stores of `post_syscall`. Which calls a basic block makes is decided outside. -/
namespace Aprof

/-- What the threads share when there is a single report. -/
structure Shared where
  inputMaps : FnPtr → HashTable (Input UInt64)
  root : List CCTNode

/-- `reported` lists the threads `generate_report` was called on. -/
structure Runtime (c : Counter) where
  threads : Nat → Option ThreadData
  currentTid : Nat
  globalCounter : Nat
  globalShadow : LookupTable c.Word
  shared : Shared
  reported : List (Nat × ThreadData)

inductive Event where
  | threadCreate (child : Nat)
  | threadSwitch (tid : Nat)
  | threadExit (tid : Nat)
  | bbStart
  | functionEnter (sp : UInt64) (f : FnPtr)
  | functionExit
  | access (type : AccessType) (addr size : Nat)
  | postSyscall (tid : Nat) (buffers : List (Nat × Int))

section
variable {c : Counter}

def Runtime.put (rt : Runtime c) (tid : Nat) (tdata : ThreadData) : Runtime c :=
  {rt with threads := Function.update rt.threads tid (some tdata)}

/-- `runtime.current_tdata`. -/
def Runtime.current (rt : Runtime c) : Result ThreadData :=
  match rt.threads rt.currentTid with
  | none => .error .invalidPointer
  | some tdata => .ok tdata

theorem current_ok {rt : Runtime c} {tdata : ThreadData} :
    rt.current = .ok tdata ↔ rt.threads rt.currentTid = some tdata := by
  unfold Runtime.current
  cases rt.threads rt.currentTid with
  | none => simp
  | some found => simp

/-- The occupied slots in order; `running_threads` is their number. -/
def Runtime.live (cfg : Config) (rt : Runtime c) : List Nat :=
  (List.range' 1 cfg.maxThreads).filter fun tid => (rt.threads tid).isSome

def overflowHandler (cfg : Config) (rt : Runtime c) : Result (Nat × Runtime c) := do
  let (counter,global,threads) ← overflowHandlerDrms c (rt.live cfg) rt.globalShadow rt.threads
  .ok (counter,{rt with globalShadow := global, threads := threads})

/-- The test `global_counter == MAX_COUNT_VAL`. -/
def Counter.full : Counter → Nat → Bool
  | .wrapping, n => n == maxCountVal
  | .unbounded, _ => false

def increaseGlobalCounter (cfg : Config) (rt : Runtime c) : Result (Runtime c) := do
  let rt := {rt with globalCounter := rt.globalCounter + 1}
  if c.full rt.globalCounter then
    let (counter,rt) ← overflowHandler cfg rt
    .ok {rt with globalCounter := counter}
  else .ok rt

def newThread (cfg : Config) (tid : Nat) (shadow : LookupTable Nat) : ThreadData where
  shadowMemory := shadow
  rtnHt := htConstruct
  cost := 0
  stackDepth := 0
  stack := fun i => if i < 64 then zeroActivation else cfg.heap tid i
  maxStackSize := 64
  nextRoutineId := 0
  skip := 0
  skipCost := 0
  nextActivationId := 1
  root := [⟨[],0,0⟩]
  nextContextId := 1

/-- `thread_start` with its debug assertions: Valgrind never starts a live thread. -/
def threadStart (cfg : Config) (rt : Runtime c) (tid : Nat) : Result (Runtime c) := do
  check (0 < tid && tid ≤ cfg.maxThreads) "Invalid tid"
  check (rt.threads tid).isNone "Double thread"
  let shadow ← lkCreate cfg.layout cfg.memoryResolution
  .ok (rt.put tid (newThread cfg tid shadow))

def threadSwitch (cfg : Config) (rt : Runtime c) (tid : Nat) : Result (Runtime c) := do
  if tid = rt.currentTid then .ok rt
  else
    let rt := {rt with currentTid := tid}
    if tid = 0 then .ok rt
    else
      let rt ← if cfg.inputMetric = .drms then increaseGlobalCounter cfg rt else .ok rt
      match rt.threads tid with
      | none => threadStart cfg rt tid
      | some _ => .ok rt

/-- The end of `thread_switch`. -/
def startIfNew (cfg : Config) (rt : Runtime c) (tid : Nat) : Result (Runtime c) :=
  match rt.threads tid with
  | none => threadStart cfg rt tid
  | some _ => .ok rt

/-- `function_exit`; with a single report the routine's map and the context tree
are the shared ones. -/
def exitShared (cfg : Config) (shared : Shared) (tdata : ThreadData) : Shared × ThreadData :=
  if cfg.singleReport then
    let f := tdata.top.routineInfo
    let tdata := functionExit cfg {tdata.setInputMap f fun _ => shared.inputMaps f with root := shared.root}
    ({shared with inputMaps := Function.update shared.inputMaps f (tdata.routine f).inputMap},tdata)
  else (shared,functionExit cfg tdata)

def popShared (cfg : Config) (shared : Shared) (tdata : ThreadData) : Shared × ThreadData :=
  let (shared,after) := exitShared cfg shared tdata
  (shared,{after with stackDepth := tdata.stackDepth - 1})

def unwindShared (cfg : Config) : Nat → Shared × ThreadData → Shared × ThreadData
  | 0, state => state
  | n + 1, state => unwindShared cfg n (popShared cfg state.1 state.2)

def threadExit (cfg : Config) (rt : Runtime c) (tid : Nat) : Result (Runtime c) :=
  match rt.threads tid with
  | none => .error .invalidPointer
  | some tdata =>
    let (shared,tdata) := unwindShared cfg tdata.stackDepth (rt.shared,tdata)
    .ok {rt with
      threads := Function.update rt.threads tid none
      currentTid := 0
      shared := shared
      reported := (tid,tdata) :: rt.reported}

/-- The activation id of `function_enter` when the input metric is DRMS. -/
def assignIdDrms (cfg : Config) (rt : Runtime c) (tid : Nat) (tdata : ThreadData) :
    Result (Runtime c × ThreadData) := do
  let counter := rt.globalCounter + 1
  let rt := {rt with globalCounter := counter}
  let tdata := tdata.setTop fun act => {act with activationId := counter}
  if c.full counter then
    let (counter,rt) ← overflowHandler cfg (rt.put tid {tdata with stackDepth := tdata.stackDepth - 1})
    match rt.threads tid with
    | none => .error .invalidPointer
    | some tdata =>
      let tdata := {tdata with stackDepth := tdata.stackDepth + 1}
      .ok ({rt with globalCounter := counter},tdata.setTop fun act => {act with activationId := counter})
  else .ok (rt,tdata)

def assignId (cfg : Config) (rt : Runtime c) (tid : Nat) (tdata : ThreadData) :
    Result (Runtime c × ThreadData) :=
  match cfg.inputMetric with
  | .rms => .ok (rt,assignIdRms c tdata)
  | _ => assignIdDrms cfg rt tid tdata

def enterShared (cfg : Config) (shared : Shared) (tdata : ThreadData) : Shared × ThreadData :=
  if cfg.singleReport then
    let tdata := enterRecorded cfg {tdata with root := shared.root}
    ({shared with root := tdata.root},tdata)
  else (shared,enterRecorded cfg tdata)

def functionEnter (cfg : Config) (rt : Runtime c) (tid : Nat) (tdata : ThreadData) :
    Result (Runtime c) := do
  let tdata := enterStart tdata
  if (cfg.fn tdata.top.routineInfo).skip then .ok (rt.put tid {tdata with skip := tdata.skip + 1})
  else if tdata.skip > 0 then .ok (rt.put tid tdata)
  else
    let (rt,tdata) ← assignId cfg rt tid tdata
    let (shared,tdata) := enterShared cfg rt.shared tdata
    .ok ({rt with shared := shared}.put tid tdata)

def pushStack (cfg : Config) (rt : Runtime c) (sp : UInt64) (f : FnPtr) : Result (Runtime c) := do
  let tdata ← rt.current
  let tdata ← pushFrame cfg tdata sp f
  functionEnter cfg rt rt.currentTid tdata

def popStack (cfg : Config) (rt : Runtime c) : Result (Runtime c) := do
  let tdata ← rt.current
  check (0 < tdata.stackDepth) "Invalid stack depth"
  let (shared,tdata) := popShared cfg rt.shared tdata
  .ok ({rt with shared := shared}.put rt.currentTid tdata)

def traceAccess (cfg : Config) (rt : Runtime c) (type : AccessType) (addr size : Nat)
    (kernelAccess : Bool) : Result (Runtime c) := do
  let tdata ← rt.current
  match cfg.inputMetric with
  | .rms => do
    let tdata ← traceAccessRms cfg tdata type addr size
    .ok (rt.put rt.currentTid tdata)
  | _ => do
    let (global,tdata) ← traceAccessDrms c cfg rt.globalCounter rt.globalShadow tdata type addr size
      kernelAccess
    .ok ({rt with globalShadow := global}.put rt.currentTid tdata)

/-- The store loop of `post_syscall` over one buffer. -/
def kernelStore (cfg : Config) (rt : Runtime c) (buffer : Nat × Int) : Result (Runtime c) :=
  let fixed := fixAccessSize cfg.memoryResolution buffer.1 buffer.2
  (sweep cfg.memoryResolution fixed.2.toNat fixed.1 fixed.2).foldlM
    (fun rt addr => traceAccess cfg rt .store addr cfg.memoryResolution true) rt

/-- `post_syscall` for the calls that fill buffers. Calls that read them are
plain loads, and the tool has no syscall wrapper when the metric is RMS. -/
def postSyscall (cfg : Config) (rt : Runtime c) (tid : Nat) (buffers : List (Nat × Int)) :
    Result (Runtime c) := do
  if cfg.inputMetric = .drms then
    let rt ← if tid ≠ rt.currentTid then threadSwitch cfg rt tid else increaseGlobalCounter cfg rt
    buffers.foldlM (kernelStore cfg) rt
  else .ok rt

def bbStart (rt : Runtime c) : Result (Runtime c) := do
  let tdata ← rt.current
  .ok (rt.put rt.currentTid {tdata with cost := tdata.cost + 1})

def step (cfg : Config) (rt : Runtime c) : Event → Result (Runtime c)
  | .threadCreate child => threadStart cfg rt child
  | .threadSwitch tid => threadSwitch cfg rt tid
  | .threadExit tid => threadExit cfg rt tid
  | .bbStart => bbStart rt
  | .functionEnter sp f => pushStack cfg rt sp f
  | .functionExit => popStack cfg rt
  | .access type addr size => traceAccess cfg rt type addr size false
  | .postSyscall tid buffers => postSyscall cfg rt tid buffers

def run (cfg : Config) (rt : Runtime c) (events : List Event) : Result (Runtime c) :=
  events.foldlM (step cfg) rt

theorem traceAccess_counter {cfg : Config} {rt after : Runtime c} {type : AccessType} {addr size : Nat} {kernelAccess : Bool}
    (ok : traceAccess cfg rt type addr size kernelAccess = .ok after) : after.globalCounter = rt.globalCounter := by
  obtain ⟨tdata,-,ok⟩ := bind_ok.mp ok
  split at ok
  · obtain ⟨_,-,same⟩ := bind_ok.mp ok
    cases same
    rfl
  · obtain ⟨⟨_,_⟩,-,same⟩ := bind_ok.mp ok
    cases same
    rfl

theorem popStack_counter {cfg : Config} {rt after : Runtime c} (ok : popStack cfg rt = .ok after) :
    after.globalCounter = rt.globalCounter := by
  obtain ⟨tdata,-,ok⟩ := bind_ok.mp ok
  obtain ⟨_,-,same⟩ := bind_ok.mp ok
  cases same
  rfl

theorem threadSwitch_keeps {cfg : Config} {rt after : Runtime c} {tid : Nat} {P : Runtime c → Prop} (same : P rt)
    (moved : P {rt with currentTid := tid})
    (counted : ∀ middle, increaseGlobalCounter cfg {rt with currentTid := tid} = .ok middle → P middle)
    (started : ∀ middle after, P middle → threadStart cfg middle tid = .ok after → P after)
    (ok : threadSwitch cfg rt tid = .ok after) : P after := by
  unfold threadSwitch at ok
  split at ok
  · cases ok
    exact same
  · dsimp only at ok
    split at ok
    · cases ok
      exact moved
    · have counts : ∃ middle : Runtime c, P middle ∧ (match middle.threads tid with
          | none => threadStart cfg middle tid
          | some _ => .ok middle) = .ok after := by
        split at ok
        · obtain ⟨middle,count,ok⟩ := bind_ok.mp ok
          exact ⟨middle,counted middle count,ok⟩
        · exact ⟨_,moved,ok⟩
      obtain ⟨middle,kept,ok⟩ := counts
      split at ok
      · exact started middle after kept ok
      · cases ok
        exact kept

theorem postSyscall_keeps {cfg : Config} {rt after : Runtime c} {tid : Nat} {buffers : List (Nat × Int)}
    {P : Runtime c → Prop} (same : P rt)
    (moved : ∀ middle, tid ≠ rt.currentTid → threadSwitch cfg rt tid = .ok middle → P middle)
    (counted : ∀ middle, tid = rt.currentTid → increaseGlobalCounter cfg rt = .ok middle → P middle)
    (stored : ∀ middle buffer after, P middle → kernelStore cfg middle buffer = .ok after → P after)
    (ok : postSyscall cfg rt tid buffers = .ok after) : P after := by
  unfold postSyscall at ok
  split at ok
  · have starts : ∃ middle : Runtime c, P middle ∧ buffers.foldlM (kernelStore cfg) middle = .ok after := by
      split at ok
      · next moves =>
        obtain ⟨middle,move,ok⟩ := bind_ok.mp ok
        exact ⟨middle,moved middle moves move,ok⟩
      · next stays =>
        obtain ⟨middle,count,ok⟩ := bind_ok.mp ok
        exact ⟨middle,counted middle (not_not.mp stays) count,ok⟩
    obtain ⟨middle,kept,stores⟩ := starts
    exact Lockstep.foldlM_keeps stored _ _ _ kept stores
  · cases ok
    exact same

end

/-- The runtime after `post_clo_init`. -/
def initial (c : Counter) (cfg : Config) : Result (Runtime c) := do
  let global ← lkCreate cfg.layout cfg.memoryResolution
  .ok ⟨fun _ => none,0,1,global,⟨fun f => (cfg.fn f).inputMap,[⟨[],0,0⟩]⟩,[]⟩

def plainFunction (skip : Bool) : Function UInt64 := ⟨0,[],none,none,false,skip,htConstruct,0,0⟩

def smallConfig (inputMetric : InputMetric) : Config :=
  ⟨.i386,1,by decide,inputMetric,false,false,false,none,4,fun f => plainFunction (f == 1),fun _ _ => zeroActivation⟩

end Aprof
