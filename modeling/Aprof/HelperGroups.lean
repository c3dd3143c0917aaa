import Aprof.General.LeaderScan
import Aprof.HelperReports
import Aprof.ReportText

/-! The actions of `aprof-helper.c` that merge reports: those of one process, those of
different runs, or all. -/
namespace Aprof.Helper

section
variable {D : Type}

/-- The numbers of a line of `print_report` as compiled into the helper; the sums of squares are printed
with `%.0f`. -/
def tupleTexts (squareText : D → Str) (inputMetric : InputMetric) (tuple : Input D) : List Str :=
  [decimal tuple.inputSize.toNat,decimal tuple.minCumulativeCost.toNat,decimal tuple.maxCumulativeCost.toNat,
    decimal tuple.sumCumulativeCost.toNat,squareText tuple.sqrCumulativeCost,decimal tuple.calls.toNat,
    decimal tuple.sumCumulRealCost.toNat,decimal tuple.sumSelfCost.toNat,decimal tuple.minSelfCost.toNat,
    decimal tuple.maxSelfCost.toNat,squareText tuple.sqrSelfCost] ++
  if inputMetric = .drms then
    ["0".toList,"0".toList,decimal tuple.sumCumulSyscall.toNat,decimal tuple.sumCumulThread.toNat,
      decimal tuple.sumSelfSyscall.toNat,decimal tuple.sumSelfThread.toNat]
  else []

def functionLines (squareText : D → Str) (inputMetric : InputMetric) (fn : Function D) : List Str :=
  let routineId := decimal fn.functionId.toUInt32.toNat
  let objName := match fn.obj with
    | none => "NONE".toList
    | some obj => obj.name
  ("r ".toList ++ quoted fn.name ++ ' ' :: (quoted objName ++ ' ' :: routineId)) ::
    (fn.mangled.toList.map fun mangled => "u ".toList ++ routineId ++ ' ' :: quoted mangled) ++
    fn.inputMap.nodes.map fun tuple => "p ".toList ++ routineId ++ (tupleTexts squareText inputMetric tuple).flatMap fun text => ' ' :: text

/-- No line sets `cmd_line`, and `%s` prints a missing string as `(null)`. -/
def reportLines (squareText : D → Str) (r : Profile D) : List Str :=
  ["c -------------------------------------".toList,
    "c report generated by aprof (valgrind) ".toList,
    "c -------------------------------------".toList,
    "v 6".toList,
    "k ".toList ++ decimal r.extraCost.toNat,
    "e ".toList ++ decimal r.binaryMtime.toNat,
    "m bb-count".toList,
    if r.inputMetric = .rms then "i rms".toList else "i drms".toList,
    "t ".toList ++ decimal r.memoryResolution.toNat,
    "a ".toList ++ r.application.getD "(null)".toList,
    "f (null)".toList] ++
  (r.fnHt.nodes.filter fun fn => !fn.discard).flatMap (functionLines squareText r.inputMetric)

def printReport (squareText : D → Str) (r : Profile D) : Str := (reportLines squareText r).flatMap (· ++ ['\n'])

/-- `dirname` of a path to a file -/
def dirname (path : Str) : Str :=
  match ((path.reverse.dropWhile (· != '/')).dropWhile (· == '/')).reverse with
  | [] => if '/' ∈ path then "/".toList else ".".toList
  | dir => dir

/-- `sprintf` into an array of this size -/
def sprintf (size : Nat) (text : Str) : Result Str :=
  if text.length < size then .ok text else .error .invalidPointer

def dirMergeThread : Str := "merge_by_pid".toList
def dirMergeRuns : Str := "merge_by_cmd".toList
def dirMergeBoth : Str := "merge_by_pid_cmd".toList
def dirMergeAll : Str := "merge_all".toList

/-- The name of the report that is made from one in the list -/
def newRep (directory report : Str) : Result Str := do
  let buf ← sprintf 1024 report
  sprintf 2048 (dirname buf ++ '/' :: (directory ++ '/' :: basename report))

/-- What the loops change: the runtime, how many reports it has merged, and the new list, which holds the
reports with what their files contain. -/
structure Grouping (D : Type) where
  r : HelperRuntime D
  mergeThreads : Bool
  mergeRuns : Bool
  merged : Nat
  listPost : List Report

/-- It leaves `extra_cost` and `binary_mtime` as they are. -/
def resetData (state : Grouping D) : Grouping D :=
  {state with
    r := {
      profile := {
        fnHt := htConstruct
        objHt := htConstruct
        extraCost := state.r.profile.extraCost
        nextFunctionId := 0
        application := none
        binaryMtime := state.r.profile.binaryMtime
        inputMetric := .invalid
        memoryResolution := 0}
      fields := {state.r.fields with totalRealCost := 0, totalSelfCost := 0}}
    mergeThreads := false}

/-- The runtime after `reset_data` -/
def resetRuntime (r : HelperRuntime D) : HelperRuntime D := (resetData ⟨r,false,false,0,[]⟩).r

/-- `system` of a shell: what a command leaves in the new report when the old one holds this
file; `none` for the answer -1. -/
abbrev System := Str → File → Option File

def copyCommand (source target : Str) : Str := "cp ".toList ++ source ++ ' ' :: target

def mergeReportOf (squares : Squares D) (report : Report) (state : Grouping D) : Result (Grouping D) := do
  let (res,r) ← mergeReport squares report.name report.file state.r
  check res "Report %s should be merged but is invalid"
  .ok {state with r := r, merged := state.merged + 1}

/-- Printing empties the tables of the runtime, which nothing reads before `reset_data`. The file opens:
a failure of `fopen`, or of `mkdir` before the loop, stops the helper with an assertion and is left out. -/
def writeReport (squareText : D → Str) (directory : Str) (curr : Report) (state : Grouping D) : Result (Grouping D) := do
  let name ← newRep directory curr.name
  .ok {state with listPost := state.listPost ++ [⟨name,.whole (printReport squareText state.r.profile)⟩], merged := 0}

/-- The command is not quoted, and only the answer -1 of `system` stops the helper. -/
def copyReport (system : System) (directory : Str) (curr : Report) (state : Grouping D) : Result (Grouping D) := do
  let name ← newRep directory curr.name
  let cmd ← sprintf 1024 (copyCommand curr.name name)
  match system cmd curr.file with
  | none => .error (.assertion "Error during copy")
  | some file => .ok {state with listPost := state.listPost ++ [⟨name,file⟩]}

/-- The loop of `merge_by_thread`. -/
def threadScan (squares : Squares D) (squareText : D → Str) (system : System) : Scan Fault (Grouping D) Report where
  lead _ state := .ok state
  join curr report state :=
    if getPidReport curr.name = getPidReport report.name then do
      let state ← if state.merged = 0 then mergeReportOf squares curr (resetData state) else .ok state
      let state ← mergeReportOf squares report state
      .ok (true,state)
    else .ok (false,state)
  close curr state :=
    if 0 < state.merged then writeReport squareText dirMergeThread curr state
    else copyReport system dirMergeThread curr state

/-- The loop of `merge_by_run`. -/
def runScan (squares : Squares D) (squareText : D → Str) : Scan Fault (Grouping D) Report where
  lead report state := mergeReportOf squares report (resetData state)
  join curr report state := do
    check (0 < state.merged) "Impossible"
    if mergeCandidate state.r.fields.mergeAll state.mergeThreads curr.name report.name then do
      let (res,r) ← mergeReport squares report.name report.file state.r
      .ok (res,{state with r := r, merged := if res then state.merged + 1 else state.merged})
    else .ok (false,state)
  close curr state := do
    check (0 < state.merged) "Impossible"
    if state.mergeThreads then writeReport squareText ("../".toList ++ dirMergeBoth) curr state
    else if state.mergeRuns then writeReport squareText dirMergeRuns curr state
    else writeReport squareText dirMergeAll curr state

/-- Both loops begin with the list behind the making of their directory; `turns` bounds them. -/
def scanReports (scan : Scan Fault (Grouping D) Report) (turns : Nat) (list : List Report) (state : Grouping D) :
    Result (Option (List Report × Grouping D)) := do
  if list = [] then .ok (some ([],state))
  else
    let after ← scan.loop turns ⟨list.map some,0,none,{state with merged := 0, listPost := []}⟩
    .ok (after.map fun state => (state.listPost,state))

end

/-- The state in which `main` calls the loops -/
def startGrouping {D : Type} (mergeAll mergeRuns : Bool) : Grouping D := ⟨freshRuntime mergeAll false,false,mergeRuns,0,[]⟩

end Aprof.Helper
