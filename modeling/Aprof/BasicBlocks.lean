import Aprof.Calls

/-! `BB_start` of `callstack.c`: which calls and returns the start of a basic
block makes. The descriptors of the blocks, with their functions, are what the
debug information says about an address. -/
namespace Aprof

/-- The kinds `jump_t` of the final exit of a block. -/
inductive Jump where
  | bbCall
  | bbRet
  | bbOther
  | none
  deriving DecidableEq

/-- `BB`; `exit` and `instrOffset` are known once the block is instrumented. -/
structure BB where
  key : UInt64
  instrOffset : UInt32
  exit : Jump
  objSection : Nat
  isDlRuntimeResolve : Bool
  isEntry : Bool
  fn : FnPtr
  deriving DecidableEq

/-- The runtime with the fields of `BB_start`: `lastBB` and `savedExit` belong to
the threads, `lastExit` is the global variable the blocks store to. -/
structure Tracer (c : Counter) where
  rt : Runtime c
  lastBB : Nat → Option BB
  savedExit : Nat → Jump
  lastExit : Jump

/-- The walk for a matching return address from slot `i` down; one step below slot
0 it would read outside the stack. -/
def returnWalk (stack : Nat → Activation) (csp target : UInt64) : Nat → Nat → Result Nat
  | 0, n => if (stack 0).retAddr = target then .ok n else .error .invalidPointer
  | i + 1, n =>
    if (stack (i + 1)).retAddr = target then .ok n
    else if (stack i).sp = csp then returnWalk stack csp target i (n + 1)
    else .ok 0

/-- How many functions a return leaves; 0 makes it a call. -/
def countReturns (tdata : ThreadData) (csp target : UInt64) : Result Nat :=
  if tdata.stackDepth = 0 then .error .invalidPointer
  else if csp < tdata.top.sp then .ok 0
  else if csp = tdata.top.sp then returnWalk tdata.stack csp target (tdata.stackDepth - 1) 1
  else .ok 1

section
variable {c : Counter}

/-- `pop_stack`: the first number bounds the turns, `frames` is `n_frames`. -/
def popStackTo (cfg : Config) (csp : UInt64) : Nat → Nat → Runtime c → Result (Runtime c × Nat)
  | 0, _, rt => .ok (rt,0)
  | turns + 1, frames, rt => do
    let tdata ← rt.current
    if tdata.top.sp < csp ∨ (csp = tdata.top.sp ∧ 0 < frames) then
      let rt ← popStack cfg rt
      let (rt,n) ← popStackTo cfg csp turns (frames - 1) rt
      .ok (rt,n + 1)
    else .ok (rt,0)

/-- Whether a block that was not called starts a new function all the same. -/
def emulates (cfg : Config) (last bb : BB) (exit : Jump) (retAsCall : Bool) : Bool :=
  exit ≠ .bbCall ∧ exit ≠ .bbRet ∧
    (retAsCall = true ∨ (cfg.fn bb.fn).obj ≠ (cfg.fn last.fn).obj ∨ bb.objSection ≠ last.objSection ∨ bb.isEntry = true)

/-- The return address of a call, stored in the caller's frame. -/
def storeReturn (rt : Runtime c) (tdata : ThreadData) (last : Option BB) : Runtime c :=
  match last with
  | none => rt
  | some last =>
    if 0 < tdata.stackDepth ∧ last.exit = .bbCall then
      rt.put rt.currentTid (tdata.setTop fun act => {act with retAddr := last.key + last.instrOffset.toUInt64})
    else rt

/-- The block did not return: activations above the stack pointer are left, and
only if there are none a call enters the function of the block. -/
def adjustStack (cfg : Config) (rt : Runtime c) (last : Option BB) (bb : BB) (csp : UInt64) (exit : Jump)
    (emulated : Bool) : Result (Runtime c) := do
  let tdata ← rt.current
  let (rt,n) ← popStackTo cfg csp tdata.stackDepth 0 rt
  if n = 0 ∧ exit = .bbCall then
    let csp := if emulated = true ∧ 0 < tdata.stackDepth then tdata.top.sp else csp
    pushStack cfg (storeReturn rt tdata last) csp bb.fn
  else .ok rt

/-- An emulated call out of `_dl_runtime_resolve` leaves it first. -/
def leaveResolver (cfg : Config) (rt : Runtime c) (last : Option BB) (emulated : Bool) (csp : UInt64) :
    Result (Runtime c × UInt64) := do
  let tdata ← rt.current
  if emulated = true ∧ 0 < tdata.stackDepth ∧ last.any BB.isDlRuntimeResolve = true then
    let rt ← popStack cfg rt
    .ok (rt,tdata.top.sp)
  else .ok (rt,csp)

/-- The rest of `BB_start`, once the exit of the last block has been analysed. -/
def transferTo (cfg : Config) (rt : Runtime c) (last : Option BB) (bb : BB) (csp : UInt64) (exit : Jump)
    (returns : Nat) : Result (Runtime c) := do
  let retAsCall := decide (exit = .bbRet ∧ returns = 0)
  let exit := if retAsCall then .bbOther else exit
  let emulated := last.any fun last => emulates cfg last bb exit retAsCall
  let (rt,csp) ← leaveResolver cfg rt last emulated csp
  let exit := if emulated then .bbCall else exit
  if exit = .bbRet then
    let tdata ← rt.current
    let (rt,_) ← popStackTo cfg csp tdata.stackDepth returns rt
    .ok rt
  else adjustStack cfg rt last bb csp exit emulated

namespace Tracer

/-- The exit of the thread's last block, as `BB_start` sees it. -/
def exitSeen (tr : Tracer c) : Jump := if (tr.lastBB tr.rt.currentTid).isSome then tr.lastExit else .none

def bbStart (cfg : Config) (tr : Tracer c) (bb : BB) (csp : UInt64) : Result (Tracer c) := do
  let rt ← Aprof.bbStart tr.rt
  let tdata ← rt.current
  let returns ← if tr.exitSeen = .bbRet then countReturns tdata csp bb.key else .ok 1
  let rt ← transferTo cfg rt (tr.lastBB rt.currentTid) bb csp tr.exitSeen returns
  .ok {tr with rt := rt, lastBB := Function.update tr.lastBB rt.currentTid (some bb), lastExit := .bbOther}

theorem bbStart_cases {cfg : Config} {tr after : Tracer c} {bb : BB} {csp : UInt64} (ok : tr.bbStart cfg bb csp = .ok after) :
    ∃ ticked tdata returns moved, Aprof.bbStart tr.rt = .ok ticked ∧ ticked.current = .ok tdata ∧
      (tr.exitSeen = .bbRet → countReturns tdata csp bb.key = .ok returns) ∧
      transferTo cfg ticked (tr.lastBB ticked.currentTid) bb csp tr.exitSeen returns = .ok moved ∧
      after = {tr with
        rt := moved, lastBB := Function.update tr.lastBB moved.currentTid (some bb), lastExit := .bbOther} := by
  obtain ⟨ticked,tick,ok⟩ := bind_ok.mp ok
  obtain ⟨tdata,current,ok⟩ := bind_ok.mp ok
  dsimp only at ok
  split at ok
  · obtain ⟨returns,counted,ok⟩ := bind_ok.mp ok
    obtain ⟨moved,transferred,ok⟩ := bind_ok.mp ok
    cases ok
    exact ⟨ticked,tdata,returns,moved,tick,current,fun _ => counted,transferred,rfl⟩
  · next other =>
    obtain ⟨one,same,ok⟩ := bind_ok.mp ok
    cases same
    obtain ⟨moved,transferred,ok⟩ := bind_ok.mp ok
    cases ok
    exact ⟨ticked,tdata,1,moved,tick,current,fun returned => absurd returned other,transferred,rfl⟩

def bbEnd (tr : Tracer c) : Tracer c :=
  {tr with lastExit := ((tr.lastBB tr.rt.currentTid).map BB.exit).getD tr.lastExit}

def fresh (tr : Tracer c) (tid : Nat) (rt : Runtime c) : Tracer c :=
  {tr with rt := rt, lastBB := Function.update tr.lastBB tid none, savedExit := Function.update tr.savedExit tid .none}

def threadCreate (cfg : Config) (tr : Tracer c) (child : Nat) : Result (Tracer c) := do
  let rt ← threadStart cfg tr.rt child
  .ok (tr.fresh child rt)

/-- `thread_switch` saves the exit of the current thread, if there is one, and
restores that of the next. -/
def threadSwitch (cfg : Config) (tr : Tracer c) (tid : Nat) : Result (Tracer c) := do
  let rt ← Aprof.threadSwitch cfg tr.rt tid
  if tid = tr.rt.currentTid then .ok tr
  else
    let tr' := if (tr.rt.threads tr.rt.currentTid).isSome then
      {tr with savedExit := Function.update tr.savedExit tr.rt.currentTid tr.lastExit} else tr
    if tid = 0 then .ok {tr' with rt := rt}
    else
      let tr' := if (tr.rt.threads tid).isSome then {tr' with rt := rt} else tr'.fresh tid rt
      .ok {tr' with lastExit := tr'.savedExit tid}

/-- Also when the thread that exits is not the current one, none is current then. -/
def threadExit (cfg : Config) (tr : Tracer c) (tid : Nat) : Result (Tracer c) := do
  let rt ← Aprof.threadExit cfg tr.rt tid
  .ok {tr with rt := rt}

end Tracer

inductive TraceEvent where
  | threadCreate (child : Nat)
  | threadSwitch (tid : Nat)
  | threadExit (tid : Nat)
  | bbStart (bb : BB) (csp : UInt64)
  | bbEnd
  | access (type : AccessType) (addr size : Nat)

namespace Tracer

def step (cfg : Config) (tr : Tracer c) : TraceEvent → Result (Tracer c)
  | .threadCreate child => tr.threadCreate cfg child
  | .threadSwitch tid => tr.threadSwitch cfg tid
  | .threadExit tid => tr.threadExit cfg tid
  | .bbStart bb csp => tr.bbStart cfg bb csp
  | .bbEnd => .ok tr.bbEnd
  | .access type addr size => do
    let rt ← traceAccess cfg tr.rt type addr size false
    .ok {tr with rt := rt}

def run (cfg : Config) (tr : Tracer c) (events : List TraceEvent) : Result (Tracer c) :=
  events.foldlM (step cfg) tr

/-- The tracer after `post_clo_init`. -/
def initial (c : Counter) (cfg : Config) : Result (Tracer c) := do
  let rt ← Aprof.initial c cfg
  .ok ⟨rt,fun _ => none,fun _ => .none,.none⟩

end Tracer

end

end Aprof
