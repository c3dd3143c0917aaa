import Aprof.Data

/-! `function_enter` and `function_exit` of `function.c` with the stack handling
of `callstack.c` and the calling-context lookup of `cct.c`. The activation id is
assigned by the metric's own code, so `function_enter` is split around it. -/
namespace Aprof

def resizeStack (tdata : ThreadData) (depth : Nat) : Result ThreadData := do
  check (0 < depth && depth < maxStack) "Invalid depth"
  if depth - 1 ≥ tdata.maxStackSize then
    .ok {tdata with maxStackSize := tdata.maxStackSize * 2}
  else .ok tdata

/-- The macro `get_activation`, which may grow the stack. -/
def getActivation (tdata : ThreadData) (depth : Nat) : Result ThreadData :=
  if depth ≥ tdata.maxStackSize then resizeStack tdata depth else .ok tdata

def newRoutineInfo (cfg : Config) (tdata : ThreadData) (f : FnPtr) : ThreadData :=
  if (cfg.fn f).discard then
    {tdata with rtnHt := htAddNode tdata.rtnHt ⟨f,0,f,0,htConstruct⟩}
  else if cfg.singleReport then
    {tdata with rtnHt := htAddNode tdata.rtnHt ⟨f,(cfg.fn f).functionId,f,0,(cfg.fn f).inputMap⟩}
  else
    {tdata with
      rtnHt := htAddNode tdata.rtnHt ⟨f,tdata.nextRoutineId,f,0,htConstruct⟩
      nextRoutineId := tdata.nextRoutineId + 1}

/-- `push_stack` up to its call of `function_enter`. -/
def pushFrame (cfg : Config) (tdata : ThreadData) (sp : UInt64) (f : FnPtr) : Result ThreadData := do
  let tdata := {tdata with stackDepth := tdata.stackDepth + 1}
  let tdata ← getActivation tdata tdata.stackDepth
  let tdata := match htFind tdata.rtnHt f fun _ => true with
    | none => newRoutineInfo cfg tdata f
    | some _ => tdata
  .ok (tdata.setTop fun act => {act with sp := sp, routineInfo := f, retAddr := 0})

/-- The walk of `parent_CCT` over the slots below `depth`. -/
def parentNode (tdata : ThreadData) : Nat → Nat
  | 0 => 0
  | depth + 1 =>
    match (tdata.stack depth).node with
    | some node => node
    | none => parentNode tdata depth

def parentCCT (tdata : ThreadData) : Nat := parentNode tdata (tdata.stackDepth - 1)

def cctNode (root : List CCTNode) (i : Nat) : CCTNode := root.getD i ⟨[],0,0⟩

def enterContext (tdata : ThreadData) : ThreadData :=
  let routineId := (tdata.routine tdata.top.routineInfo).routineId
  let parent := parentCCT tdata
  match (cctNode tdata.root parent).children.find? fun i => (cctNode tdata.root i).routineId == routineId with
  | some cnode => tdata.setTop fun act => {act with node := some cnode}
  | none =>
    let cnode := tdata.root.length
    let fresh : CCTNode := ⟨[],routineId,tdata.nextContextId.toUInt32⟩
    let linked := tdata.root.modify parent fun node => {node with children := cnode :: node.children}
    let tdata := {tdata with root := linked ++ [fresh], nextContextId := tdata.nextContextId + 1}
    tdata.setTop fun act => {act with node := some cnode}

def enterStart (tdata : ThreadData) : ThreadData :=
  tdata.setTop fun act => {act with start := time tdata}

/-- The part of `function_enter` after the activation id has been assigned. -/
def enterRecorded (cfg : Config) (tdata : ThreadData) : ThreadData :=
  let f := tdata.top.routineInfo
  let tdata := tdata.setRecursion f (· + 1)
  let tdata := tdata.setTop fun act => {act with
    sumChildrenCost := 0, inputSize := 0
    cumulSyscall := 0, cumulThread := 0, selfSyscall := 0, selfThread := 0}
  if !(cfg.fn f).discard && cfg.collectCCT then enterContext tdata else tdata

def xorMax (x y : UInt64) : UInt64 := x ^^^ ((x ^^^ y) &&& (if x < y then 0 - 1 else 0))
def xorMin (x y : UInt64) : UInt64 := x ^^^ ((y ^^^ x) &&& (if y < x then 0 - 1 else 0))

def dope (cfg : Config) (tdata : ThreadData) : ThreadData :=
  if cfg.dopeFn = some (cfg.fn tdata.top.routineInfo).name then
    {tdata with cost := tdata.cost + tdata.top.inputSize.toUInt64 * tdata.top.inputSize.toUInt64}
  else tdata

def cumulCost (tdata : ThreadData) : UInt64 := time tdata - tdata.top.start
def selfCost (tdata : ThreadData) : UInt64 := cumulCost tdata - tdata.top.sumChildrenCost

def contextOf (tdata : ThreadData) (act : Activation) : UInt32 :=
  match act.node with
  | some node => (cctNode tdata.root node).contextId
  | none => 0

def hash (a b : UInt32) : UInt32 := a + (b >>> 16)

def newTuple (key inputSize contextId : UInt64) : Input UInt64 where
  key := key
  inputSize := inputSize
  contextId := contextId
  calls := 0
  minCumulativeCost := 0 - 1
  maxCumulativeCost := 0
  sumCumulativeCost := 0
  minSelfCost := 0 - 1
  maxSelfCost := 0
  sumSelfCost := 0
  sumCumulRealCost := 0
  sqrCumulativeCost := 0
  sqrSelfCost := 0
  sumCumulSyscall := 0
  sumCumulThread := 0
  sumSelfSyscall := 0
  sumSelfThread := 0

def accumulate (act : Activation) (cumul self : UInt64) (outermost : Bool) (tuple : Input UInt64) :
    Input UInt64 :=
  {tuple with
    calls := tuple.calls + 1
    sumCumulativeCost := tuple.sumCumulativeCost + cumul
    sqrCumulativeCost := tuple.sqrCumulativeCost + cumul * cumul
    maxCumulativeCost := xorMax tuple.maxCumulativeCost cumul
    minCumulativeCost := xorMin tuple.minCumulativeCost cumul
    sumSelfCost := tuple.sumSelfCost + self
    sqrSelfCost := tuple.sqrSelfCost + self * self
    maxSelfCost := xorMax tuple.maxSelfCost self
    minSelfCost := xorMin tuple.minSelfCost self
    sumCumulRealCost := if outermost then tuple.sumCumulRealCost + cumul else tuple.sumCumulRealCost
    sumCumulSyscall := tuple.sumCumulSyscall + act.cumulSyscall
    sumCumulThread := tuple.sumCumulThread + act.cumulThread
    sumSelfSyscall := tuple.sumSelfSyscall + act.selfSyscall
    sumSelfThread := tuple.sumSelfThread + act.selfThread}

/-- The tuple an activation belongs to is searched by input size, with contexts
by a hash of size and context and then by both. -/
def recordTuple (cfg : Config) (act : Activation) (context : UInt32) (cumul self : UInt64)
    (outermost : Bool) (inputMap : HashTable (Input UInt64)) : HashTable (Input UInt64) :=
  let key := if cfg.collectCCT then (hash act.inputSize context).toUInt64 else act.inputSize.toUInt64
  let wanted := fun tuple : Input UInt64 =>
    !cfg.collectCCT || (tuple.contextId == context.toUInt64 && tuple.inputSize == act.inputSize.toUInt64)
  match htFind inputMap key.toNat wanted with
  | none => htAddNode inputMap (accumulate act cumul self outermost
      (newTuple key act.inputSize.toUInt64 (if cfg.collectCCT then context.toUInt64 else 0)))
  | some _ => htUpdate inputMap key.toNat wanted (accumulate act cumul self outermost) (fun _ => rfl)

def exitSkipped (cfg : Config) (tdata : ThreadData) : ThreadData :=
  if (cfg.fn tdata.top.routineInfo).skip then
    {tdata with skip := tdata.skip - 1, skipCost := tdata.skipCost + cumulCost tdata}
  else tdata

def propagate (act : Activation) (cumul : UInt64) (parent : Activation) : Activation :=
  {parent with
    inputSize := parent.inputSize + act.inputSize
    sumChildrenCost := parent.sumChildrenCost + cumul
    cumulSyscall := parent.cumulSyscall + act.cumulSyscall
    cumulThread := parent.cumulThread + act.cumulThread}

/-- `recursion_pending` and the tuple of the activation that returns. -/
def recordExit (cfg : Config) (tdata : ThreadData) : ThreadData :=
  let act := tdata.top
  let f := act.routineInfo
  let pending := tdata.setRecursion f (· - 1)
  if (cfg.fn f).discard then pending else
    pending.setInputMap f (recordTuple cfg act (contextOf tdata act) (cumulCost tdata) (selfCost tdata)
      (decide ((pending.routine f).recursionPending < 1)))

def exitRecorded (cfg : Config) (tdata : ThreadData) : ThreadData :=
  if tdata.stackDepth > 1 then
    (recordExit cfg tdata).setSlot (tdata.stackDepth - 2) (propagate tdata.top (cumulCost tdata))
  else recordExit cfg tdata

def functionExit (cfg : Config) (tdata : ThreadData) : ThreadData :=
  let tdata := dope cfg tdata
  if tdata.skip > 0 then exitSkipped cfg tdata else exitRecorded cfg tdata

end Aprof
