import Aprof.Lines
import Aprof.Basic

/-! `merge_report` of `merge.c`, as compiled into the tool: the lines of a report
are applied to the runtime one after the other. Warnings only print and are left
out. The sums of squares go through `double`s, so their type and `ADD_D` are a
parameter. -/
namespace Aprof

/-- The sums of squares. `add` is `ADD_D` of the number a token spells, `none`
where its assertion `dest >= old` fails; so an addition that has an effect moves
the sum up, in an order that `rank` counts. -/
structure Squares (D : Type) where
  zero : D
  add : D → Str → Option D
  rank : D → Nat
  climbs : ∀ old token new, add old token = some new → new ≠ old → rank old < rank new

/-- The fields of `Runtime` that merging reads or writes. -/
structure Profile (D : Type) where
  fnHt : HashTable (Function D)
  objHt : HashTable Object
  extraCost : UInt64
  nextFunctionId : UInt64
  application : Option Str
  binaryMtime : UInt64
  inputMetric : InputMetric
  memoryResolution : UInt32

/-- The local variables of `merge_report`; `curr` is the name of the function that
`current_routine` points to. -/
structure Merging (D : Type) where
  rt : Profile D
  curr : Option Str
  rid : UInt32
  totalCost : UInt64

section
variable {D : Type}

/-- `merge_tuple` returns the state and whether it has set `invalid`. -/
def accept (state : Merging D) : Result (Bool × Merging D) := .ok (false,state)

def reject (state : Merging D) : Result (Bool × Merging D) := .ok (true,state)

def nextToken (message : String) : List Str → Result (Str × List Str)
  | [] => .error (.assertion message)
  | token :: rest => .ok (token,rest)

def nextNumber (message : String) (args : List Str) : Result (UInt64 × List Str) := do
  let (token,args) ← nextToken message args
  .ok ((strtoull10 token).1,args)

/-- The id of a routine; `UOF_LONG` refuses a token without a digit. -/
def nextId (args : List Str) : Result (UInt64 × List Str) := do
  let (token,args) ← nextToken "Invalid id: %s" args
  check (strtoull10 token).2 "under/over flow: %s"
  .ok ((strtoull10 token).1,args)

def nextName (message : String) (args : List Str) : Result (Str × List Str) := do
  let (token,args) ← nextToken message args
  check (unquote token ≠ []) message
  .ok (unquote token,args)

/-- `ADD`. -/
def add (dest inc : UInt64) : Result UInt64 := do
  check (dest ≤ dest + inc) "overflow"
  .ok (dest + inc)

def addSquare (squares : Squares D) (dest : D) (token : Str) : Result D :=
  match squares.add dest token with
  | none => .error (.assertion "overflow")
  | some new => .ok new

def findFunction (rt : Profile D) (name : Str) : Option (Function D) :=
  htFind rt.fnHt (strHash name).toNat fun fn => fn.name == name

/-- A write through the pointer that `findFunction` returns. -/
def setFunction (rt : Profile D) (name : Str) (change : Function D → Function D)
    (keeps : ∀ fn, HashNode.key (change fn) = HashNode.key fn) : Profile D :=
  {rt with fnHt := htUpdate rt.fnHt (strHash name).toNat (fun fn => fn.name == name) change keeps}

def freshFunction (name : Str) (functionId : UInt64) : Function D where
  key := strHash name
  name := name
  obj := none
  mangled := none
  discard := false
  skip := false
  inputMap := htConstruct
  functionId := functionId
  totalCalls := 0

def searchFunction (rt : Profile D) (name : Str) : Profile D :=
  match findFunction rt name with
  | some _ => rt
  | none => {rt with
      fnHt := htAddNode rt.fnHt (freshFunction name rt.nextFunctionId)
      nextFunctionId := rt.nextFunctionId + 1}

def searchObject (rt : Profile D) (name objName : Str) : Profile D :=
  match findFunction rt name with
  | none => rt
  | some fn =>
    match fn.obj with
    | some _ => rt
    | none =>
      match htFind rt.objHt (strHash objName).toNat fun obj => obj.name == objName with
      | some obj => setFunction rt name (fun fn => {fn with obj := some obj}) fun _ => rfl
      | none =>
        let obj : Object := ⟨strHash objName,objName⟩
        setFunction {rt with objHt := htAddNode rt.objHt obj} name (fun fn => {fn with obj := some obj}) fun _ => rfl

/-- The cost of the report is counted at its first routine. -/
def addTotal (state : Merging D) : Result UInt64 :=
  if state.curr = none then add state.rt.extraCost state.totalCost else .ok state.rt.extraCost

/-- A line `r`. -/
def mergeRoutine (state : Merging D) (args : List Str) : Result (Bool × Merging D) := do
  let extraCost ← addTotal state
  let (name,args) ← nextName "Invalid fn name: %s" args
  let (objName,args) ← nextName "Invalid obj name: %s" args
  let (id,_) ← nextId args
  let rt := searchObject (searchFunction {state.rt with extraCost := extraCost} name) name objName
  accept {state with rt := rt, curr := some name, rid := id.toUInt32}

theorem mangled_keeps (mangled : Str) (fn : Function D) :
    HashNode.key {fn with mangled := some mangled} = HashNode.key fn := rfl

def mergeMangled (state : Merging D) (args : List Str) : Result (Bool × Merging D) := do
  match state.curr with
  | none => .error (.assertion "mangled name without a valid fn: %s")
  | some name =>
    let (id,args) ← nextId args
    check (0 < id) "Invalid ID: %s"
    check (state.rid.toUInt64 == id) "Routine id mismatch: %s"
    let (mangled,_) ← nextName "Invalid mangled name: %s" args
    match findFunction state.rt name with
    | none => .error .invalidPointer
    | some fn =>
      match fn.mangled with
      | some known => do
        check (known = mangled) "different mangled: %s <=> %s"
        accept state
      | none =>
        accept {state with rt := setFunction state.rt name (fun fn => {fn with mangled := some mangled}) (mangled_keeps mangled)}

/-- The values of a line `p`. -/
structure TupleLine where
  inputSize : UInt64
  min : UInt64
  max : UInt64
  sum : UInt64
  sqrSum : Str
  occ : UInt64
  cumulReal : UInt64
  self : UInt64
  selfMin : UInt64
  selfMax : UInt64
  selfSqr : Str
  sumCumulSyscall : UInt64
  sumCumulThread : UInt64
  sumSelfSyscall : UInt64
  sumSelfThread : UInt64

/-- The six values that only a report for DRMS has. -/
def inducedInputs : List Str → Result (UInt64 × UInt64 × UInt64 × UInt64)
  | [] => .ok (0,0,0,0)
  | _ :: args => do
    let (_,args) ← nextToken "Invalid input_size sum sqr: %s" args
    let (cumulSyscall,args) ← nextNumber "Invalid sum cumulative syscall input: %s" args
    let (cumulThread,args) ← nextNumber "Invalid sum cumulative thread input: %s" args
    let (selfSyscall,args) ← nextNumber "Invalid rvms syscall self: %s" args
    let (selfThread,_) ← nextNumber "Invalid rvms thread: %s" args
    .ok (cumulSyscall,cumulThread,selfSyscall,selfThread)

def readTuple (args : List Str) : Result TupleLine := do
  let (inputSize,args) ← nextNumber "Invalid input size: %s" args
  let (min,args) ← nextNumber "Invalid min: %s" args
  let (max,args) ← nextNumber "Invalid max: %s" args
  let (sum,args) ← nextNumber "Invalid sum: %s" args
  let (sqrSum,args) ← nextToken "Invalid sqr sum: %s" args
  let (occ,args) ← nextNumber "Invalid occ: %s" args
  let (cumulReal,args) ← nextNumber "Invalid cumul: %s" args
  let (self,args) ← nextNumber "Invalid self total: %s" args
  let (selfMin,args) ← nextNumber "Invalid self min: %s" args
  let (selfMax,args) ← nextNumber "Invalid self max: %s" args
  let (selfSqr,args) ← nextToken "Invalid sqr self: %s" args
  let (cumulSyscall,cumulThread,selfSyscall,selfThread) ← inducedInputs args
  .ok ⟨inputSize,min,max,sum,sqrSum,occ,cumulReal,self,selfMin,selfMax,selfSqr,cumulSyscall,cumulThread,
    selfSyscall,selfThread⟩

def emptyTuple (squares : Squares D) (key : UInt64) : Input D where
  key := key
  inputSize := key
  contextId := 0
  calls := 0
  minCumulativeCost := 0 - 1
  maxCumulativeCost := 0
  sumCumulativeCost := 0
  minSelfCost := 0 - 1
  maxSelfCost := 0
  sumSelfCost := 0
  sumCumulRealCost := 0
  sqrCumulativeCost := squares.zero
  sqrSelfCost := squares.zero
  sumCumulSyscall := 0
  sumCumulThread := 0
  sumSelfSyscall := 0
  sumSelfThread := 0

def mergeInduced (line : TupleLine) (tuple : Input D) : Result (Input D) := do
  let sumCumulThread ← add tuple.sumCumulThread line.sumCumulThread
  let sumCumulSyscall ← add tuple.sumCumulSyscall line.sumCumulSyscall
  check (sumCumulThread + sumCumulSyscall ≤ line.inputSize * tuple.calls) "invalid rvms syscall/thread: %s"
  let sumSelfThread ← add tuple.sumSelfThread line.sumSelfThread
  let sumSelfSyscall ← add tuple.sumSelfSyscall line.sumSelfSyscall
  check (sumSelfThread + sumSelfSyscall ≤ line.inputSize * tuple.calls) "invalid rvms syscall/thread: %s"
  .ok {tuple with
    sumCumulThread := sumCumulThread
    sumCumulSyscall := sumCumulSyscall
    sumSelfThread := sumSelfThread
    sumSelfSyscall := sumSelfSyscall}

/-- The values of a line are added to a tuple, and the sums checked. -/
def mergeInput (squares : Squares D) (metric : InputMetric) (line : TupleLine) (tuple : Input D) : Result (Input D) := do
  let sum ← add tuple.sumCumulativeCost line.sum
  let sqrSum ← addSquare squares tuple.sqrCumulativeCost line.sqrSum
  let calls ← add tuple.calls line.occ
  let max := if tuple.maxCumulativeCost < line.max then line.max else tuple.maxCumulativeCost
  let min := if line.min < tuple.minCumulativeCost then line.min else tuple.minCumulativeCost
  let real ← add tuple.sumCumulRealCost line.cumulReal
  let self ← add tuple.sumSelfCost line.self
  let selfSqr ← addSquare squares tuple.sqrSelfCost line.selfSqr
  check (real ≤ sum) "Invalid real sum cost: %s"
  let selfMin := if line.selfMin < tuple.minSelfCost then line.selfMin else tuple.minSelfCost
  let selfMax := if tuple.maxSelfCost < line.selfMax then line.selfMax else tuple.maxSelfCost
  check (selfMin ≤ min && selfMax ≤ max && self ≤ sum) "Invalid self: %s"
  check (selfMin ≤ selfMax) "Invalid self min/max"
  check (selfMax ≤ self) "Invalid self sum"
  check (selfMin * calls ≤ self) "Invalid self sum: %llu %llu %llu"
  let tuple := {tuple with
    sumCumulativeCost := sum
    sqrCumulativeCost := sqrSum
    calls := calls
    maxCumulativeCost := max
    minCumulativeCost := min
    sumCumulRealCost := real
    sumSelfCost := self
    sqrSelfCost := selfSqr
    minSelfCost := selfMin
    maxSelfCost := selfMax}
  if metric = .drms then mergeInduced line tuple else .ok tuple

/-- The tuple of a line is searched by its input size, and added when missing. -/
def mergeInputMap (squares : Squares D) (metric : InputMetric) (line : TupleLine) (inputMap : HashTable (Input D)) :
    Result (HashTable (Input D)) := do
  let key := line.inputSize.toNat
  match htFind inputMap key fun _ => true with
  | some tuple => do
    let merged ← mergeInput squares metric line tuple
    .ok (htUpdate inputMap key (fun _ => true) (fun node => {merged with key := node.key}) fun _ => rfl)
  | none => do
    let merged ← mergeInput squares metric line (emptyTuple squares line.inputSize)
    .ok (htAddNode inputMap merged)

/-- A line `p`. -/
def mergePoint (squares : Squares D) (state : Merging D) (args : List Str) : Result (Bool × Merging D) := do
  let (id,args) ← nextId args
  check (state.rid.toUInt64 == id) "Routine id mismatch: %s"
  let line ← readTuple args
  match state.curr with
  | none => .error (.assertion "Invalid routine: %s")
  | some name =>
    match findFunction state.rt name with
    | none => .error .invalidPointer
    | some fn => do
      let inputMap ← mergeInputMap squares state.rt.inputMetric line fn.inputMap
      accept {state with rt := setFunction state.rt name (fun fn => {fn with inputMap := inputMap}) fun _ => rfl}

/-- The words of a line `a`, each followed by a blank but the last one. -/
def joinWords : List Str → Str
  | [] => []
  | [word] => word
  | word :: words => word ++ ' ' :: joinWords words

def mergeApplication (state : Merging D) (args : List Str) : Result (Bool × Merging D) := do
  check (args ≠ []) "invalid app name: %s"
  check ((joinWords args).length + 1 < 1024) "app name too long: %s"
  match state.rt.application with
  | none => accept {state with rt := {state.rt with application := some (joinWords args)}}
  | some application => if application ≠ joinWords args then reject state else accept state

def mergeTotal (state : Merging D) (args : List Str) : Result (Bool × Merging D) := do
  let (sum,_) ← nextNumber "Invalid perf metric: %s" args
  check (0 < sum) "Invalid sum: %s"
  accept {state with totalCost := sum}

def reportVersion : UInt64 := 6

def mergeVersion (state : Merging D) (args : List Str) : Result (Bool × Merging D) := do
  let (ver,_) ← nextNumber "Invalid version: %s" args
  if ver ≠ reportVersion then reject state else accept state

def readMetric (token : Str) : InputMetric :=
  if token = "rms".toList then .rms
  else if token = "drms".toList then .drms
  else .invalid

def mergeMetric (state : Merging D) (args : List Str) : Result (Bool × Merging D) := do
  let (token,_) ← nextToken "Invalid input metric: %s" args
  if state.rt.inputMetric = .rms ∨ state.rt.inputMetric = .drms then
    if readMetric token ≠ state.rt.inputMetric then reject state else accept state
  else accept {state with rt := {state.rt with inputMetric := readMetric token}}

def mergeResolution (state : Merging D) (args : List Str) : Result (Bool × Merging D) := do
  let (value,_) ← nextNumber "Invalid memory resolution: %s" args
  let resolution := value.toUInt32
  check (resolution ∈ [1,2,4,8,16]) "Invalid memory resolution: %s"
  let state := if state.rt.memoryResolution = 0
    then {state with rt := {state.rt with memoryResolution := resolution}} else state
  if state.rt.memoryResolution ≠ resolution then reject state else accept state

def mergeMtime (state : Merging D) (args : List Str) : Result (Bool × Merging D) := do
  let (bmtime,_) ← nextNumber "Invalid binary time: %s" args
  let state := if state.rt.binaryMtime = 0 then {state with rt := {state.rt with binaryMtime := bmtime}} else state
  if bmtime ≠ state.rt.binaryMtime then reject state else accept state

def mergeLine (squares : Squares D) (state : Merging D) (tag : Char) (args : List Str) : Result (Bool × Merging D) :=
  match tag with
  | 'r' => mergeRoutine state args
  | 'd' => mergeMangled state args
  | 'p' => mergePoint squares state args
  | 'a' => mergeApplication state args
  | 'k' => mergeTotal state args
  | 'v' => mergeVersion state args
  | 'q' => reject state
  | 'x' => reject state
  | 'i' => mergeMetric state args
  | 't' => mergeResolution state args
  | 'f' => accept state
  | 'e' => mergeMtime state args
  | 'c' => accept state
  | 'm' => accept state
  | 'u' => accept state
  | _ => .error (.assertion "Unknown tag %c %s")

def readLine (line : Str) : Option (Char × List Str) :=
  match tokens (putDelim false line) with
  | (tag :: _) :: args => some (tag,args)
  | _ => none

/-- `merge_tuple`. The text of its messages is printed into a buffer that has room for 2028 of
these 2046 characters; what `sprintf` writes behind it is left out. -/
def mergeTuple (squares : Squares D) (report : Str) (state : Merging D) (line : Str) : Result (Bool × Merging D) := do
  if line = [] then accept state
  else do
    check (line.length + report.length + 1 < 2048) "line + report too long"
    match readLine line with
    | none => .error (.assertion "Invalid line: %s")
    | some (tag,args) => mergeLine squares state tag args

/-- The loop of `merge_report` over the lines read; `false` at the first invalid one. -/
def mergeLines (squares : Squares D) (report : Str) : Merging D → List Str → Result (Bool × Merging D)
  | state, [] => .ok (true,state)
  | state, line :: lines => do
    check (line.length < 1024) "Line too long"
    let (invalid,state) ← mergeTuple squares report state (cString line)
    if invalid then .ok (false,state) else mergeLines squares report state lines

/-- What opening and reading a file gives; `broken` when `VG_(read)` fails after a part of it. -/
inductive File where
  | unreadable
  | broken (content : Str)
  | whole (content : Str)

def startMerging (rt : Profile D) : Merging D := ⟨rt,none,0,0⟩

def mergeReport (squares : Squares D) (report : Str) (file : File) (rt : Profile D) : Result (Bool × Profile D) := do
  if rt.memoryResolution ≠ 0 ∧ memoryResolutionReport report ≠ rt.memoryResolution then .ok (false,rt)
  else
    match file with
    | .unreadable => .ok (false,rt)
    | .broken content => do
      let lines := content.splitOn '\n'
      let (merged,state) ← mergeLines squares report (startMerging rt) lines.dropLast
      check (!merged || (lines.getLastD []).length < 1024) "Line too long"
      .ok (false,state.rt)
    | .whole content => do
      let (merged,state) ← mergeLines squares report (startMerging rt) (content.splitOn '\n')
      .ok (merged,state.rt)

end

end Aprof
