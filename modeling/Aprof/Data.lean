import Aprof.HashTable
import Aprof.LookupTable

/-! The records of `data-common.h`. Pointers to shared records become indices:
a `Function *` is a number, a `CCTNode *` an index into the tree's node list. The
sums of squares are machine words in the tool and doubles in the helper, so
their type is a parameter. -/
namespace Aprof

abbrev Str := List Char
abbrev FnPtr := Nat

inductive InputMetric where
  | rms
  | drms
  | invalid
  deriving DecidableEq, Repr

inductive AccessType where
  | load
  | store
  | modify
  deriving DecidableEq, Repr

structure Object where
  key : UInt32
  name : Str
  deriving DecidableEq

structure Input (D : Type) where
  key : UInt64
  inputSize : UInt64
  contextId : UInt64
  calls : UInt64
  minCumulativeCost : UInt64
  maxCumulativeCost : UInt64
  sumCumulativeCost : UInt64
  minSelfCost : UInt64
  maxSelfCost : UInt64
  sumSelfCost : UInt64
  sumCumulRealCost : UInt64
  sqrCumulativeCost : D
  sqrSelfCost : D
  sumCumulSyscall : UInt64
  sumCumulThread : UInt64
  sumSelfSyscall : UInt64
  sumSelfThread : UInt64
  deriving DecidableEq

instance {D : Type} : HashNode (Input D) := ⟨fun tuple => tuple.key.toNat⟩
instance : HashNode Object := ⟨fun obj => obj.key.toNat⟩

structure Function (D : Type) where
  key : UInt32
  name : Str
  obj : Option Object
  mangled : Option Str
  discard : Bool
  skip : Bool
  inputMap : HashTable (Input D)
  functionId : UInt64
  totalCalls : UInt64

instance {D : Type} : HashNode (Function D) := ⟨fun fn => fn.key.toNat⟩

structure RoutineInfo where
  key : FnPtr
  routineId : UInt64
  fn : FnPtr
  recursionPending : Nat
  inputMap : HashTable (Input UInt64)

instance : HashNode RoutineInfo := ⟨fun rtnInfo => rtnInfo.key⟩

/-- `children` is the list through `first_child` and `next_sibling`. -/
structure CCTNode where
  children : List Nat
  routineId : UInt64
  contextId : UInt32

structure Activation where
  start : UInt64
  sumChildrenCost : UInt64
  inputSize : UInt32
  routineInfo : FnPtr
  activationId : Nat
  node : Option Nat
  sp : UInt64
  retAddr : UInt64
  cumulSyscall : UInt64
  cumulThread : UInt64
  selfSyscall : UInt64
  selfThread : UInt64

/-- A slot as `VG_(calloc)` leaves it. -/
def zeroActivation : Activation := ⟨0,0,0,0,0,none,0,0,0,0,0,0⟩

/-- `stack` is indexed from the bottom; slots from `stackDepth` on keep what the
last activation at that depth left there, and those beyond `maxStackSize` what
the memory they will get contains. -/
structure ThreadData where
  shadowMemory : LookupTable Nat
  rtnHt : HashTable RoutineInfo
  cost : UInt64
  stackDepth : Nat
  stack : Nat → Activation
  maxStackSize : Nat
  nextRoutineId : UInt64
  skip : Nat
  skipCost : UInt64
  nextActivationId : Nat
  root : List CCTNode
  nextContextId : UInt64

/-- The options a run is started with and the descriptors of the functions it
meets, fixed along the run; `heap tid i` is what `VG_(realloc)` finds in slot `i`
of the memory it adds to the stack of a thread. -/
structure Config where
  layout : Layout
  memoryResolution : Nat
  supported : memoryResolution ∈ [1,2,4,8,16]
  inputMetric : InputMetric
  collectCCT : Bool
  singleReport : Bool
  incrementalReport : Bool
  dopeFn : Option Str
  maxThreads : Nat
  fn : FnPtr → Function UInt64
  heap : Nat → Nat → Activation

/-- How the timestamp counters count: in machine words, or without bound in the
reference run that an overflow is compared with. -/
inductive Counter where
  | wrapping
  | unbounded
  deriving DecidableEq

def Counter.Word : Counter → Type
  | .wrapping => Nat
  | .unbounded => Nat × Bool

instance (c : Counter) : Zero c.Word := match c with
  | .wrapping => ⟨(0 : Nat)⟩
  | .unbounded => ⟨((0 : Nat),false)⟩

def plainWord : (c : Counter) → Nat → c.Word
  | .wrapping, ts => ts
  | .unbounded, ts => (ts,false)

/-- The macros `SET_SYSCALL`, `TS` and `SYSCALL`. -/
def setSyscall : (c : Counter) → c.Word → c.Word
  | .wrapping, w => Nat.lor w 0x80000000
  | .unbounded, w => (w.1,true)

def tsOf : (c : Counter) → c.Word → Nat
  | .wrapping, w => Nat.land w 0x7FFFFFFF
  | .unbounded, w => w.1

def syscallOf : (c : Counter) → c.Word → Bool
  | .wrapping, w => Nat.land w 0x80000000 != 0
  | .unbounded, w => w.2

def maxCountVal : Nat := 0x80000000

def maxStack : Nat := 15000

/-- `APROF_(time)` for `COST == BB_COUNT`. -/
def time (tdata : ThreadData) : UInt64 := tdata.cost - tdata.skipCost

def ThreadData.top (tdata : ThreadData) : Activation := tdata.stack (tdata.stackDepth - 1)

def ThreadData.setSlot (tdata : ThreadData) (i : Nat) (f : Activation → Activation) : ThreadData :=
  {tdata with stack := Function.update tdata.stack i (f (tdata.stack i))}

def ThreadData.setTop (tdata : ThreadData) (f : Activation → Activation) : ThreadData :=
  tdata.setSlot (tdata.stackDepth - 1) f

def emptyRoutine : RoutineInfo := ⟨0,0,0,0,htConstruct⟩

/-- What `act->routine_info` points to. -/
def ThreadData.routine (tdata : ThreadData) (f : FnPtr) : RoutineInfo :=
  (htFind tdata.rtnHt f fun _ => true).getD emptyRoutine

/-- A write through `act->routine_info`. -/
def ThreadData.setRoutine (tdata : ThreadData) (f : FnPtr) (change : RoutineInfo → RoutineInfo)
    (keeps : ∀ rtnInfo, HashNode.key (change rtnInfo) = HashNode.key rtnInfo) : ThreadData :=
  {tdata with rtnHt := htUpdate tdata.rtnHt f (fun _ => true) change keeps}

theorem routine_setRoutine {tdata : ThreadData} (keyed : tdata.rtnHt.Keyed) {f : FnPtr}
    (known : (htFind tdata.rtnHt f fun _ => true).isSome = true) (change : RoutineInfo → RoutineInfo)
    (keeps : ∀ rtnInfo, HashNode.key (change rtnInfo) = HashNode.key rtnInfo) (g : FnPtr) :
    (tdata.setRoutine f change keeps).routine g = if g = f then change (tdata.routine f) else tdata.routine g := by
  obtain ⟨rtnInfo,found⟩ := Option.isSome_iff_exists.mp known
  have look : (tdata.setRoutine f change keeps).routine g = (if g = f then
      (htFind tdata.rtnHt f fun _ => true).map change else htFind tdata.rtnHt g fun _ => true).getD emptyRoutine :=
    congrArg (Option.getD · emptyRoutine) (htFind_update keyed f change keeps g)
  rw [look]
  split
  · rw [ThreadData.routine,found]
    rfl
  · rfl

theorem keyed_setRoutine {tdata : ThreadData} (keyed : tdata.rtnHt.Keyed) (f : FnPtr) (change : RoutineInfo → RoutineInfo)
    (keeps : ∀ rtnInfo, HashNode.key (change rtnInfo) = HashNode.key rtnInfo) :
    (tdata.setRoutine f change keeps).rtnHt.Keyed := keyed.update f _ change keeps

theorem known_setRoutine {tdata : ThreadData} (keyed : tdata.rtnHt.Keyed) (f : FnPtr) (change : RoutineInfo → RoutineInfo)
    (keeps : ∀ rtnInfo, HashNode.key (change rtnInfo) = HashNode.key rtnInfo) (g : FnPtr) :
    (htFind (tdata.setRoutine f change keeps).rtnHt g fun _ => true).isSome =
      (htFind tdata.rtnHt g fun _ => true).isSome := by
  have same := congrArg Option.isSome
    (htUpdate_project keyed f (fun _ => true) change keeps (fun _ => ()) (fun _ => rfl) g)
  rwa [Option.isSome_map,Option.isSome_map] at same

def ThreadData.setRecursion (tdata : ThreadData) (f : FnPtr) (pending : Nat → Nat) : ThreadData :=
  tdata.setRoutine f (fun rtnInfo => {rtnInfo with recursionPending := pending rtnInfo.recursionPending})
    fun _ => rfl

def ThreadData.setInputMap (tdata : ThreadData) (f : FnPtr)
    (change : HashTable (Input UInt64) → HashTable (Input UInt64)) : ThreadData :=
  tdata.setRoutine f (fun rtnInfo => {rtnInfo with inputMap := change rtnInfo.inputMap}) fun _ => rfl

section
variable {tdata : ThreadData} {f : FnPtr} (keyed : tdata.rtnHt.Keyed)
  (known : (htFind tdata.rtnHt f fun _ => true).isSome = true)
include keyed known

theorem routine_setRecursion (pending : Nat → Nat) (g : FnPtr) : (tdata.setRecursion f pending).routine g =
    if g = f then {tdata.routine f with recursionPending := pending (tdata.routine f).recursionPending}
    else tdata.routine g :=
  routine_setRoutine keyed known _ _ g

theorem routine_setInputMap (change : HashTable (Input UInt64) → HashTable (Input UInt64)) (g : FnPtr) :
    (tdata.setInputMap f change).routine g =
      if g = f then {tdata.routine f with inputMap := change (tdata.routine f).inputMap} else tdata.routine g :=
  routine_setRoutine keyed known _ _ g

end

end Aprof
