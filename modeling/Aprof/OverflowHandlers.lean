import Aprof.General.Floor
import Aprof.MemoryHandlers

/-! The handlers of `overflow.c` and the compressions of `lookup_table.c` they
call. The array of active timestamps is a function on the indices below its
size, and a cell of a shadow memory is rewritten independently of the others. -/
namespace Aprof

/-- The loop over `k` in `LK_compress_rms` is the walk of `Floor.level`. -/
def lkCompressRms (lk : LookupTable Nat) (arrRid : Nat → Nat) (sizeArr : Nat) : LookupTable Nat :=
  lk.mapCells fun _ rid => if rid = 0 then 0 else Floor.level arrRid rid sizeArr

/-- `push_stack` has already made room for the top activation, so `get_activation`
does not grow the stack here. -/
def overflowHandlerRms (tdata : ThreadData) : Nat × ThreadData :=
  let arrAid := fun j => (tdata.stack j).activationId
  let stack := fun j => if j < tdata.stackDepth then {tdata.stack j with activationId := j + 1} else tdata.stack j
  (tdata.stackDepth + 1,{tdata with
    stack := stack
    shadowMemory := lkCompressRms tdata.shadowMemory arrAid tdata.stackDepth})

def Counter.next : Counter → Nat → Nat
  | .wrapping, n => (n + 1) % 2 ^ 32
  | .unbounded, n => n + 1

/-- The activation id of `function_enter` when the input metric is RMS. -/
def assignIdRms (c : Counter) (tdata : ThreadData) : ThreadData :=
  let tdata := {tdata.setTop fun act => {act with activationId := tdata.nextActivationId} with
    nextActivationId := c.next tdata.nextActivationId}
  if tdata.nextActivationId = 0 then
    {(overflowHandlerRms tdata).2 with nextActivationId := (overflowHandlerRms tdata).1}
  else tdata

/-- The loop of `binary_search`; the turn that would make `max` smaller than
`min` leaves it, and the search fails. -/
def searchLoop (array : Nat → Nat) (ts : Nat) : Nat → Nat → Nat → Option Nat
  | 0, _, _ => none
  | fuel + 1, lo, hi =>
    let index := (lo + hi) / 2
    if array index = ts then some index
    else if array index > ts then
      if lo < index then searchLoop array ts fuel lo (index - 1) else none
    else if array (index + 1) > ts then some index
    else if index + 1 ≤ hi then searchLoop array ts fuel (index + 1) hi
    else none

def binarySearch (array : Nat → Nat) (init size ts : Nat) : Option Nat :=
  if size = 1 then some 0
  else if array 1 > ts then some 0
  else if array (size - 1) ≤ ts then some (size - 1)
  else searchLoop array ts size init (size - 1)

/-- The new value of a local timestamp `lts`, with `ts` the index found for the
global timestamp `gts` of the same cell. -/
def compressLts (array : Nat → Nat) (size gts ts lts : Nat) : Option Nat :=
  if lts < array ts then (binarySearch array 0 ts lts).map (3 * ·)
  else if ts + 1 < size ∧ lts ≥ array (ts + 1) then (binarySearch array ts size lts).map (3 * ·)
  else if lts < gts then some (3 * ts)
  else if lts = gts then some (3 * ts + 1)
  else some (3 * ts + 2)

def searchGts (array : Nat → Nat) (size gts : Nat) : Option Nat :=
  if gts > 0 then binarySearch array 0 size gts else some 0

section
variable (c : Counter)

def compressWord (ts : Nat) (w : c.Word) : c.Word :=
  if syscallOf c w then setSyscall c (plainWord c (3 * ts + 1)) else plainWord c (3 * ts + 1)

def compressGlobal (array : Nat → Nat) (size : Nat) (global : LookupTable c.Word) :
    LookupTable c.Word :=
  global.mapCells fun _ w => compressWord c ((searchGts array size (tsOf c w)).getD 0) w

/-- The global value of a cell without a global chunk counts as 0. -/
def compressLocal (array : Nat → Nat) (size : Nat) (global : LookupTable c.Word) (lk : LookupTable Nat) :
    LookupTable Nat :=
  lk.mapCells fun g lts =>
    let gts := tsOf c (global.value g)
    (compressLts array size gts ((searchGts array size gts).getD 0) lts).getD 0

def LookupTable.cells {α : Type} (lk : LookupTable α) : Nat := lk.table.limit / 2 ^ lk.resShift

def cellFound (array : Nat → Nat) (size : Nat) (global : LookupTable c.Word)
    (shamem : List (LookupTable Nat)) (g : Nat) : Bool :=
  let gts := tsOf c (global.value g)
  match searchGts array size gts with
  | none => false
  | some ts => shamem.all fun lk =>
      !lk.allocated (g / lk.fltSize) || (compressLts array size gts ts (lk.value g)).isSome

/-- `LK_compress_drms`: a search that fails stops the tool, and each cell is
rewritten from its own old values. -/
def lkCompressDrms (array : Nat → Nat) (size : Nat) (global : LookupTable c.Word)
    (live : List Nat) (threads : Nat → Option ThreadData) :
    Result (LookupTable c.Word × (Nat → Option ThreadData)) := do
  let shamem := live.filterMap fun tid => (threads tid).map ThreadData.shadowMemory
  check (decide (∀ g < global.cells, cellFound c array size global shamem g = true)) "Binary search fail"
  .ok (compressGlobal c array size global,fun tid => if tid ∈ live then (threads tid).map fun tdata =>
    {tdata with shadowMemory := compressLocal c array size global tdata.shadowMemory} else threads tid)

end

def topId (threads : Nat → Option ThreadData) (stackDepths : Nat → Nat) (tid : Nat) : Nat :=
  match threads tid with
  | none => 0
  | some tdata => (tdata.stack (stackDepths tid - 1)).activationId

/-- The search for the highest activation id among the tops not yet merged. -/
def findMax (threads : Nat → Option ThreadData) (stackDepths : Nat → Nat) :
    List Nat → Nat × Option Nat → Nat × Option Nat
  | [], best => best
  | tid :: rest, best =>
    if stackDepths tid > 0 ∧ best.1 < topId threads stackDepths tid then
      findMax threads stackDepths rest (topId threads stackDepths tid,some tid)
    else findMax threads stackDepths rest best

/-- The loop that fills `active_ts` from index `i` down and re-assigns the ids; it
writes through `act_max`, which is null when every remaining id is 0. -/
def mergeIds (live : List Nat) : Nat → (Nat → Option ThreadData) → (Nat → Nat) → (Nat → Nat) →
    Result ((Nat → Option ThreadData) × (Nat → Nat))
  | 0, threads, _, activeTs => .ok (threads,activeTs)
  | i + 1, threads, stackDepths, activeTs =>
    match findMax threads stackDepths live (0,none) with
    | (_,none) => .error .invalidPointer
    | (max,some tid) =>
      let renumber := fun tdata : ThreadData =>
        tdata.setSlot (stackDepths tid - 1) fun act => {act with activationId := (i + 1) * 3}
      mergeIds live i (Function.update threads tid ((threads tid).map renumber))
        (Function.update stackDepths tid (stackDepths tid - 1)) (Function.update activeTs (i + 1) max)

def depthOf (threads : Nat → Option ThreadData) (tid : Nat) : Nat :=
  ((threads tid).map ThreadData.stackDepth).getD 0

/-- `overflow_handler_drms` over the live threads in the order of their slots. -/
def overflowHandlerDrms (c : Counter) (live : List Nat) (global : LookupTable c.Word)
    (threads : Nat → Option ThreadData) :
    Result (Nat × LookupTable c.Word × (Nat → Option ThreadData)) := do
  let sum := (live.map (depthOf threads)).sum + 1
  let (threads,activeTs) ← mergeIds live (sum - 1) threads (depthOf threads) fun _ => 0
  let (global,threads) ← lkCompressDrms c activeTs sum global live threads
  .ok (3 * (sum + 1),global,threads)

end Aprof
