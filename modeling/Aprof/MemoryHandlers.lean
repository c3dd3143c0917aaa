import Aprof.FunctionHandlers

/-! The access handlers of `memory.c`. The loop variables of a handler depend on
the address and the size alone, so the loop runs over the list of addresses it
visits; sizes pass through the C type `Int`. -/
namespace Aprof

/-- The value an unsigned quantity takes in the C type `Int`. -/
def toInt (n : Int) : Int := Int.bmod n (2 ^ 32)

def fixAccessSize (memoryResolution addr : Nat) (size : Int) : Nat × Int :=
  let diff := addr &&& (memoryResolution - 1)
  (addr - diff,toInt (size + diff))

/-- The addresses visited by `while (size > 0)`. -/
def sweep (memoryResolution : Nat) : Nat → Nat → Int → List Nat
  | 0, _, _ => []
  | fuel + 1, addr, size =>
    if 0 < size then
      addr :: sweep memoryResolution fuel (addr + memoryResolution) (toInt (size - memoryResolution))
    else []

def accessAddrs (memoryResolution addr size : Nat) : List Nat :=
  let fixed := fixAccessSize memoryResolution addr (toInt size)
  sweep memoryResolution fixed.2.toNat fixed.1 fixed.2

/-- The loop of `get_activation_by_aid` over the slots below `k`; the pointer
leaves the stack when none of them has an id that small. -/
def walkDown (tdata : ThreadData) (aid : Nat) : Nat → Result Nat
  | 0 => .error .invalidPointer
  | k + 1 => if (tdata.stack k).activationId > aid then walkDown tdata aid k else .ok k

def getActivationByAid (tdata : ThreadData) (aid : Nat) : Result Nat :=
  walkDown tdata aid (tdata.stackDepth - 1)

def incInput (act : Activation) : Activation := {act with inputSize := act.inputSize + 1}
def decInput (act : Activation) : Activation := {act with inputSize := act.inputSize - 1}

def incSyscall (act : Activation) : Activation :=
  {act with selfSyscall := act.selfSyscall + 1, cumulSyscall := act.cumulSyscall + 1}

def incThread (act : Activation) : Activation :=
  {act with selfThread := act.selfThread + 1, cumulThread := act.cumulThread + 1}

def accessCellRms (type : AccessType) (tdata : ThreadData) (addr : Nat) : Result ThreadData := do
  let act := tdata.top
  let (oldAid,shadow) ← lkInsert tdata.shadowMemory addr act.activationId
  let tdata := {tdata with shadowMemory := shadow}
  if type ≠ .store ∧ oldAid < act.activationId then
    let tdata := tdata.setTop incInput
    if oldAid ≥ (tdata.stack 0).activationId then
      let i ← getActivationByAid tdata oldAid
      .ok (tdata.setSlot i decInput)
    else .ok tdata
  else .ok tdata

def traceAccessRms (cfg : Config) (tdata : ThreadData) (type : AccessType) (addr size : Nat) :
    Result ThreadData :=
  if tdata.stackDepth = 0 ∨ tdata.skip > 0 then .ok tdata
  else (accessAddrs cfg.memoryResolution addr size).foldlM (accessCellRms type) tdata

/-- One turn of the loop of `trace_access_drms`: the pair is the global shadow
memory and the thread, `ts` the global counter. -/
def accessCellDrms (c : Counter) (ts : Nat) (type : AccessType) (kernelAccess : Bool)
    (state : LookupTable c.Word × ThreadData) (addr : Nat) :
    Result (LookupTable c.Word × ThreadData) := do
  let (global,tdata) := state
  let (wts,global) ← match type with
    | .load => do
      let wts ← lkLookup global addr
      .ok (wts,global)
    | _ => lkInsert global addr (if kernelAccess then setSyscall c (plainWord c ts) else plainWord c ts)
  if kernelAccess ∧ type ≠ .load then .ok (global,tdata)
  else do
    let (oldTs,shadow) ← lkInsert tdata.shadowMemory addr ts
    let tdata := {tdata with shadowMemory := shadow}
    if type = .store then .ok (global,tdata)
    else if oldTs < tsOf c wts then
      let tdata := tdata.setTop incInput
      .ok (global,tdata.setTop (if syscallOf c wts then incSyscall else incThread))
    else if oldTs < tdata.top.activationId then
      let tdata := tdata.setTop incInput
      if oldTs > 0 ∧ oldTs ≥ (tdata.stack 0).activationId then
        let i ← getActivationByAid tdata oldTs
        .ok (global,tdata.setSlot i decInput)
      else .ok (global,tdata)
    else .ok (global,tdata)

def traceAccessDrms (c : Counter) (cfg : Config) (ts : Nat) (global : LookupTable c.Word)
    (tdata : ThreadData) (type : AccessType) (addr size : Nat) (kernelAccess : Bool) :
    Result (LookupTable c.Word × ThreadData) :=
  if tdata.stackDepth = 0 ∨ tdata.skip > 0 then .ok (global,tdata)
  else (accessAddrs cfg.memoryResolution addr size).foldlM (accessCellDrms c ts type kernelAccess)
    (global,tdata)

end Aprof
