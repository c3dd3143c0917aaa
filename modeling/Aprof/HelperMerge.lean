import Aprof.Merge
import Mathlib.Data.UInt

/-! `merge_report` of `merge.c` as compiled into `aprof-helper`. It reads numbers with
`strtoll`, stops at any `ERANGE` in `errno`, accepts other applications under
`merge_all`, and counts the totals of the runtime and of its functions. What the lines
do to the tables is the code of the tool. -/
namespace Aprof

/-- `strtoll` to the base ten as the `ULong` it is stored in, and whether it sets `ERANGE`. -/
def strtoll (token : Str) : UInt64 × Bool :=
  let text := token.dropWhile isSpace
  let unsigned := if text.head? = some '+' ∨ text.head? = some '-' then text.drop 1 else text
  let value := (unsigned.takeWhile Char.isDigit).foldl (fun n digit => 10 * n + (digit.toNat - '0'.toNat)) 0
  if text.head? = some '-' then
    if value ≤ 2^63 then (0 - value.toUInt64,false) else (2^63,true)
  else if value < 2^63 then (value.toUInt64,false) else (2^63 - 1,true)

/-- The fields of `Runtime` that only the helper has, and whether `errno` is
`ERANGE`, which nothing clears. -/
structure HelperFields where
  mergeAll : Bool
  totalRealCost : UInt64
  totalSelfCost : UInt64
  erange : Bool

structure HelperRuntime (D : Type) where
  profile : Profile D
  fields : HelperFields

/-- The local variables of `merge_report`. -/
structure HelperMerging (D : Type) extends Merging D where
  fields : HelperFields

def HelperMerging.runtime {D : Type} (state : HelperMerging D) : HelperRuntime D := ⟨state.rt,state.fields⟩

namespace Helper

section
variable {D : Type}

def accept (state : HelperMerging D) : Result (Bool × HelperMerging D) := .ok (false,state)

def reject (state : HelperMerging D) : Result (Bool × HelperMerging D) := .ok (true,state)

/-- A number that `UOF_LONG` lets pass. -/
def inRange (erange : Bool) (token : Str) : Result UInt64 := do
  check (!erange && !(strtoll token).2) "under/over flow: %s"
  .ok (strtoll token).1

def nextNumber (erange : Bool) (message : String) (args : List Str) : Result (UInt64 × List Str) := do
  let (token,args) ← nextToken message args
  let value ← inRange erange token
  .ok (value,args)

/-- A line `r`. -/
def mergeRoutine (state : HelperMerging D) (args : List Str) : Result (Bool × HelperMerging D) := do
  let extraCost ← addTotal state.toMerging
  let (name,args) ← nextName "Invalid fn name: %s" args
  let (objName,args) ← nextName "Invalid obj name: %s" args
  let (id,_) ← nextNumber state.fields.erange "Invalid id: %s" args
  let rt := searchObject (searchFunction {state.rt with extraCost := extraCost} name) name objName
  accept {state with rt := rt, curr := some name, rid := id.toUInt32}

def mergeMangled (state : HelperMerging D) (args : List Str) : Result (Bool × HelperMerging D) := do
  match state.curr with
  | none => .error (.assertion "mangled name without a valid fn: %s")
  | some name =>
    let (token,args) ← nextToken "Invalid id: %s" args
    check (0 < (strtoll token).1) "Invalid ID: %s"
    let id ← inRange state.fields.erange token
    check (state.rid.toUInt64 == id) "Routine id mismatch: %s"
    let (mangled,_) ← nextName "Invalid mangled name: %s" args
    match findFunction state.rt name with
    | none => .error .invalidPointer
    | some fn =>
      match fn.mangled with
      | some known => do
        check (known = mangled) "different mangled: %s <=> %s"
        accept state
      | none =>
        accept {state with rt := setFunction state.rt name (fun fn => {fn with mangled := some mangled}) (mangled_keeps mangled)}

def inducedInputs (erange : Bool) : List Str → Result (UInt64 × UInt64 × UInt64 × UInt64)
  | [] => .ok (0,0,0,0)
  | _ :: args => do
    let (_,args) ← nextToken "Invalid input_size sum sqr: %s" args
    let (cumulSyscall,args) ← nextNumber erange "Invalid sum cumulative syscall input: %s" args
    let (cumulThread,args) ← nextNumber erange "Invalid sum cumulative thread input: %s" args
    let (selfSyscall,args) ← nextNumber erange "Invalid rvms syscall self: %s" args
    let (selfThread,_) ← nextNumber erange "Invalid rvms thread: %s" args
    .ok (cumulSyscall,cumulThread,selfSyscall,selfThread)

def readTuple (erange : Bool) (args : List Str) : Result TupleLine := do
  let (inputSize,args) ← nextNumber erange "Invalid input size: %s" args
  let (min,args) ← nextNumber erange "Invalid min: %s" args
  let (max,args) ← nextNumber erange "Invalid max: %s" args
  let (sum,args) ← nextNumber erange "Invalid sum: %s" args
  let (sqrSum,args) ← nextToken "Invalid sqr sum: %s" args
  let (occ,args) ← nextNumber erange "Invalid occ: %s" args
  let (cumulReal,args) ← nextNumber erange "Invalid cumul: %s" args
  let (self,args) ← nextNumber erange "Invalid self total: %s" args
  let (selfMin,args) ← nextNumber erange "Invalid self min: %s" args
  let (selfMax,args) ← nextNumber erange "Invalid self max: %s" args
  let (selfSqr,args) ← nextToken "Invalid sqr self: %s" args
  let (cumulSyscall,cumulThread,selfSyscall,selfThread) ← inducedInputs erange args
  .ok ⟨inputSize,min,max,sum,sqrSum,occ,cumulReal,self,selfMin,selfMax,selfSqr,cumulSyscall,cumulThread,
    selfSyscall,selfThread⟩

/-- A line `p`. The source adds to the totals between the sums of the tuple; a
failed assertion ends the helper, so it does not matter that they come last here.
What `total_calls` grows by is read from the tuple. -/
def mergePoint (squares : Squares D) (state : HelperMerging D) (args : List Str) : Result (Bool × HelperMerging D) := do
  let (id,args) ← nextNumber state.fields.erange "Invalid id: %s" args
  check (state.rid.toUInt64 == id) "Routine id mismatch: %s"
  let line ← readTuple state.fields.erange args
  match state.curr with
  | none => .error (.assertion "Invalid routine: %s")
  | some name =>
    match findFunction state.rt name with
    | none => .error .invalidPointer
    | some fn => do
      let inputMap ← mergeInputMap squares state.rt.inputMetric line fn.inputMap
      match htFind inputMap line.inputSize.toNat fun _ => true with
      | none => .error .invalidPointer
      | some tuple => do
        let totalCalls ← add fn.totalCalls tuple.calls
        let totalRealCost ← add state.fields.totalRealCost line.cumulReal
        let totalSelfCost ← add state.fields.totalSelfCost line.self
        accept {state with
          rt := setFunction state.rt name
            (fun fn => {fn with inputMap := inputMap, totalCalls := totalCalls}) fun _ => rfl
          fields := {state.fields with totalRealCost := totalRealCost, totalSelfCost := totalSelfCost}}

def mergeApplication (state : HelperMerging D) (args : List Str) : Result (Bool × HelperMerging D) := do
  check (args ≠ []) "invalid app name: %s"
  check ((joinWords args).length + 1 < 1024) "app name too long: %s"
  match state.rt.application with
  | none => accept {state with rt := {state.rt with application := some (joinWords args)}}
  | some application =>
    if application ≠ joinWords args ∧ state.fields.mergeAll = false then reject state else accept state

def mergeTotal (state : HelperMerging D) (args : List Str) : Result (Bool × HelperMerging D) := do
  let (sum,_) ← nextNumber state.fields.erange "Invalid perf metric: %s" args
  check (0 < sum) "Invalid sum: %s"
  accept {state with totalCost := sum}

def mergeVersion (state : HelperMerging D) (args : List Str) : Result (Bool × HelperMerging D) := do
  let (ver,_) ← nextNumber state.fields.erange "Invalid version: %s" args
  if ver ≠ reportVersion then reject state else accept state

def mergeMetric (state : HelperMerging D) (args : List Str) : Result (Bool × HelperMerging D) := do
  let (invalid,merging) ← Aprof.mergeMetric state.toMerging args
  .ok (invalid,{state with toMerging := merging})

/-- The resolution is not checked for `ERANGE`, but no number that sets it is supported. -/
def mergeResolution (state : HelperMerging D) (args : List Str) : Result (Bool × HelperMerging D) := do
  let (token,_) ← nextToken "Invalid memory resolution: %s" args
  let resolution := (strtoll token).1.toUInt32
  check (resolution ∈ [1,2,4,8,16]) "Invalid memory resolution: %s"
  let state := if state.rt.memoryResolution = 0
    then {state with rt := {state.rt with memoryResolution := resolution}} else state
  if state.rt.memoryResolution ≠ resolution then reject state else accept state

/-- The time is not checked for `ERANGE`, which the next number meets. -/
def mergeMtime (state : HelperMerging D) (args : List Str) : Result (Bool × HelperMerging D) := do
  let (token,_) ← nextToken "Invalid binary time: %s" args
  let (bmtime,erange) := strtoll token
  let state := {state with fields := {state.fields with erange := state.fields.erange || erange}}
  let state := if state.rt.binaryMtime = 0 then {state with rt := {state.rt with binaryMtime := bmtime}} else state
  if bmtime ≠ state.rt.binaryMtime then reject state else accept state

def mergeLine (squares : Squares D) (state : HelperMerging D) (tag : Char) (args : List Str) :
    Result (Bool × HelperMerging D) :=
  match tag with
  | 'r' => mergeRoutine state args
  | 'd' => mergeMangled state args
  | 'p' => mergePoint squares state args
  | 'a' => mergeApplication state args
  | 'k' => mergeTotal state args
  | 'v' => mergeVersion state args
  | 'q' => reject state
  | 'x' => reject state
  | 'i' => mergeMetric state args
  | 't' => mergeResolution state args
  | 'f' => accept state
  | 'e' => mergeMtime state args
  | 'c' => accept state
  | 'm' => accept state
  | 'u' => accept state
  | _ => .error (.assertion "Unknown tag %c %s")

def mergeTuple (squares : Squares D) (report : Str) (state : HelperMerging D) (line : Str) :
    Result (Bool × HelperMerging D) := do
  if line = [] then accept state
  else do
    check (line.length + report.length + 1 < 2048) "line + report too long"
    match readLine line with
    | none => .error (.assertion "Invalid line: %s")
    | some (tag,args) => mergeLine squares state tag args

def mergeLines (squares : Squares D) (report : Str) : HelperMerging D → List Str → Result (Bool × HelperMerging D)
  | state, [] => .ok (true,state)
  | state, line :: lines => do
    check (line.length < 1024) "Line too long"
    let (invalid,state) ← mergeTuple squares report state (cString line)
    if invalid then .ok (false,state) else mergeLines squares report state lines

def startMerging (rt : HelperRuntime D) : HelperMerging D := ⟨Aprof.startMerging rt.profile,rt.fields⟩

/-- `get_memory_resolution_report`, and whether it sets `ERANGE`. -/
def memoryResolutionReport (report : Str) : UInt32 × Bool :=
  match (basename report).reverse with
  | 'f' :: 'o' :: 'r' :: 'p' :: 'a' :: '.' :: name =>
    if '_' ∈ name.dropLast then
      let (value,erange) := strtoll (name.takeWhile (· != '_')).reverse
      (value.toUInt32,erange)
    else (-1,false)
  | _ => (-1,false)

def mergeReport (squares : Squares D) (report : Str) (file : File) (rt : HelperRuntime D) :
    Result (Bool × HelperRuntime D) := do
  let (resolution,erange) := memoryResolutionReport report
  -- the name is not read before a resolution is known
  let rt := if rt.profile.memoryResolution ≠ 0
    then {rt with fields := {rt.fields with erange := rt.fields.erange || erange}} else rt
  if rt.profile.memoryResolution ≠ 0 ∧ resolution ≠ rt.profile.memoryResolution then .ok (false,rt)
  else
    match file with
    | .unreadable => .ok (false,rt)
    | .broken content => do
      let lines := content.splitOn '\n'
      let (merged,state) ← mergeLines squares report (startMerging rt) lines.dropLast
      check (!merged || (lines.getLastD []).length < 1024) "Line too long"
      .ok (false,state.runtime)
    | .whole content => do
      let (merged,state) ← mergeLines squares report (startMerging rt) (content.splitOn '\n')
      .ok (merged,state.runtime)

end

end Helper

end Aprof
