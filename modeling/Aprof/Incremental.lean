import Aprof.Merge
import Aprof.ReportCost

/-! Incremental logging: `search_reports`, `load_reports` and the rest of
`generate_report` over a log directory, for any way to name and to print the report. -/
namespace Aprof

/-- The files of the log directory in the order the kernel lists them. -/
structure LogDir where
  files : List (Str × Str)
  distinct : (files.map Prod.fst).Nodup

def LogDir.find (disk : LogDir) (path : Str) : File :=
  match disk.files.find? fun file => file.1 == path with
  | none => .unreadable
  | some file => .whole file.2

def LogDir.unlink (disk : LogDir) (path : Str) : LogDir where
  files := disk.files.filter fun file => file.1 != path
  distinct := disk.distinct.sublist ((List.filter_sublist).map Prod.fst)

/-- `fopen` with `O_EXCL`, and what has been written into the file. -/
def LogDir.create (disk : LogDir) (path content : Str) : Result LogDir :=
  if fresh : path ∉ disk.files.map Prod.fst then
    .ok ⟨disk.files ++ [(path,content)],by
      rw [List.map_append]
      exact List.nodup_append'.mpr ⟨disk.distinct,List.nodup_singleton _,by simpa using fresh⟩⟩
  else .error (.assertion "Report can not be created: %s")

/-- The file names that `search_reports` collects. -/
def isReport (path : Str) : Bool := 7 < (basename path).length && ".aprof".toList.isSuffixOf path

def searchReports (disk : LogDir) : List Str := (disk.files.map Prod.fst).filter isReport

section
variable {D : Type}

/-- The runtime and the directory while reports are loaded; `merged` are the
reports merged so far. -/
structure Loading (D : Type) where
  rt : Profile D
  disk : LogDir
  merged : List (Str × File)

/-- The body of the loop of `load_reports`. -/
def loadReport (squares : Squares D) (state : Loading D) (path : Str) : Result (Loading D) := do
  let (merged,rt) ← mergeReport squares path (state.disk.find path) state.rt
  if merged then .ok ⟨rt,state.disk.unlink path,(path,state.disk.find path) :: state.merged⟩
  else .ok {state with rt := rt}

def loadReports (squares : Squares D) (rt : Profile D) (disk : LogDir) : Result (Loading D) :=
  (searchReports disk).foldlM (loadReport squares) ⟨rt,disk,[]⟩

def loadEarlier (squares : Squares D) (cfg : Config) (rt : Profile D) (disk : LogDir) : Result (Loading D) :=
  if cfg.incrementalReport then loadReports squares rt disk else .ok ⟨rt,disk,[]⟩

/-- A report written: the threads it covers, the reports merged into it and its line `k`. -/
structure WrittenReport where
  threads : List (Nat × ThreadData)
  merged : List (Str × File)
  k : UInt64

structure Session (c : Counter) where
  rt : Runtime c
  disk : LogDir
  extraCost : UInt64
  written : List WrittenReport

/-- What `generate_report` takes from outside: the functions and header fields that
the run has found, the name of the report and its text. -/
structure Printer (c : Counter) (D : Type) where
  found : Runtime c → Profile D
  name : Runtime c → LogDir → Str
  text : Profile D → UInt64 → Str

variable {c : Counter} (squares : Squares D) (printer : Printer c D)

/-- `generate_report` with a single report, for the thread that exits in `rt`. -/
def generateReport (cfg : Config) (running : Nat) (rt : Runtime c) (session : Session c) : Result (Session c) :=
  match rt.reported with
  | [] => .error .invalidPointer
  | (_,tdata) :: _ =>
    let extraCost := session.extraCost + reportCost tdata
    if running > 1 then .ok {session with rt := rt, extraCost := extraCost}
    else do
      let cost := extraCost
      let profile := {printer.found rt with extraCost := extraCost}
      let loaded ← loadEarlier squares cfg profile session.disk
      let disk ← loaded.disk.create (printer.name rt loaded.disk) (printer.text loaded.rt cost)
      .ok ⟨rt,disk,loaded.rt.extraCost,⟨rt.reported,loaded.merged,cost⟩ :: session.written⟩

def sessionStep (cfg : Config) (session : Session c) (event : Event) : Result (Session c) := do
  let rt ← step cfg session.rt event
  match event with
  | .threadExit _ => generateReport squares printer cfg (session.rt.live cfg).length rt session
  | _ => .ok {session with rt := rt}

def sessionRun (cfg : Config) (session : Session c) (events : List Event) : Result (Session c) :=
  events.foldlM (sessionStep squares printer cfg) session

end

end Aprof
