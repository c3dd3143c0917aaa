import Aprof.Incremental
import Aprof.Rejections
import Aprof.ReportText

/-! What incremental logging makes of the stored reports: the total it writes, and
what is left on the disk when a run is cut off. -/
namespace Aprof
open Lockstep

/-- The value of the last line `k` of a report. -/
def kValue : File → UInt64
  | .whole content => (content.splitOn '\n').foldl (fun total line => match readLine (cString line) with
    | some (tag,args) => totalAfter total tag args
    | none => total) 0
  | _ => 0

def costOf (threads : List (Nat × ThreadData)) : UInt64 := (threads.map fun thread => reportCost thread.2).sum

def storedTotal (merged : List (Str × File)) : UInt64 := (merged.map fun report => kValue report.2).sum

section
variable {D : Type} {c : Counter} {squares : Squares D} {printer : Printer c D} {cfg : Config}

/-- Until the report is written the total counts the threads reported; the report
was written with the total of its threads. -/
structure Totals (session : Session c) : Prop where
  counted : session.written = [] → session.extraCost = costOf session.rt.reported
  first : ∀ report, session.written.getLast? = some report → report.k = costOf report.threads

theorem threadStart_reported {rt after : Runtime c} {tid : Nat} (ok : threadStart cfg rt tid = .ok after) :
    after.reported = rt.reported := by
  obtain ⟨_,_,ok⟩ := bind_ok.mp ok
  obtain ⟨_,_,ok⟩ := bind_ok.mp ok
  obtain ⟨shadow,_,ok⟩ := bind_ok.mp ok
  cases ok
  rfl

theorem threadSwitch_reported {rt after : Runtime c} {tid : Nat} (ok : threadSwitch cfg rt tid = .ok after) :
    after.reported = rt.reported := by
  have moved : ({rt with currentTid := tid} : Runtime c).reported = rt.reported := rfl
  refine threadSwitch_keeps (P := fun middle => middle.reported = rt.reported) rfl moved ?_ ?_ ok
  · intro middle counted
    obtain ⟨-,-,reported,-⟩ := increaseGlobalCounter_erase counted
    exact reported
  · intro middle after same started
    exact (threadStart_reported started).trans same

theorem postSyscall_reported {rt after : Runtime c} {tid : Nat} {buffers : List (Nat × Int)}
    (ok : postSyscall cfg rt tid buffers = .ok after) : after.reported = rt.reported := by
  refine postSyscall_keeps (P := fun middle => middle.reported = rt.reported) rfl ?_ ?_ ?_ ok
  · intro middle _ moved
    exact threadSwitch_reported moved
  · intro middle _ counted
    obtain ⟨-,-,reported,-⟩ := increaseGlobalCounter_erase counted
    exact reported
  · intro middle buffer after same stored
    exact (kernelStore_control stored).reported.trans same

theorem step_reported {rt after : Runtime c} {event : Event} (ok : step cfg rt event = .ok after)
    (stays : ∀ tid, event ≠ .threadExit tid) : after.reported = rt.reported := by
  cases event with
  | threadCreate child => exact threadStart_reported ok
  | threadSwitch tid => exact threadSwitch_reported ok
  | threadExit tid => exact absurd rfl (stays tid)
  | bbStart =>
    obtain ⟨tdata,_,ok⟩ := bind_ok.mp ok
    cases ok
    rfl
  | functionEnter sp f =>
    obtain ⟨tdata,_,ok⟩ := bind_ok.mp ok
    obtain ⟨pushed,push,ok⟩ := bind_ok.mp ok
    have depth : 0 < pushed.stackDepth := by
      rw [pushFrame_depth push]
      exact Nat.succ_pos _
    exact (functionEnter_control depth ok).2.2.1
  | functionExit =>
    obtain ⟨tdata,_,ok⟩ := bind_ok.mp ok
    obtain ⟨_,_,ok⟩ := bind_ok.mp ok
    cases ok
    rfl
  | access type addr size => exact (traceAccess_control ok).reported
  | postSyscall tid buffers => exact postSyscall_reported ok

theorem threadExit_reported {rt after : Runtime c} {tid : Nat} (ok : step cfg rt (.threadExit tid) = .ok after) :
    ∃ tdata, after.reported = (tid,tdata) :: rt.reported := by
  change threadExit cfg rt tid = .ok after at ok
  unfold threadExit at ok
  split at ok
  · cases ok
  · cases ok
    exact ⟨_,rfl⟩

theorem costOf_cons (tid : Nat) (tdata : ThreadData) (threads : List (Nat × ThreadData)) :
    costOf ((tid,tdata) :: threads) = costOf threads + reportCost tdata := by
  unfold costOf
  rw [List.map_cons,List.sum_cons,UInt64.add_comm]

theorem Totals.generate {rt : Runtime c} {session after : Session c} {running tid : Nat} {tdata : ThreadData}
    (totals : Totals session) (reported : rt.reported = (tid,tdata) :: session.rt.reported)
    (ok : generateReport squares printer cfg running rt session = .ok after) : Totals after := by
  unfold generateReport at ok
  rw [reported] at ok
  dsimp only at ok
  have counts : session.written = [] → session.extraCost + reportCost tdata = costOf rt.reported := by
    intro none
    rw [reported,costOf_cons,totals.counted none]
  split at ok
  · cases ok
    exact ⟨counts,totals.first⟩
  · obtain ⟨loaded,_,ok⟩ := bind_ok.mp ok
    obtain ⟨disk,_,ok⟩ := bind_ok.mp ok
    cases ok
    refine ⟨nofun,fun report first => ?_⟩
    cases older : session.written with
    | nil =>
      rw [older] at first
      cases first
      have same := counts older
      rwa [reported] at same
    | cons latest written =>
      rw [older,List.getLast?_cons_cons,← older] at first
      exact totals.first report first

theorem Totals.step {session after : Session c} {event : Event} (totals : Totals session)
    (ok : sessionStep squares printer cfg session event = .ok after) : Totals after := by
  obtain ⟨rt,stepped,ok⟩ := bind_ok.mp ok
  by_cases exits : ∃ tid, event = .threadExit tid
  · obtain ⟨tid,rfl⟩ := exits
    obtain ⟨tdata,reported⟩ := threadExit_reported stepped
    exact totals.generate reported ok
  · have stays : ∀ tid, event ≠ .threadExit tid := fun tid same => exits ⟨tid,same⟩
    have same := step_reported stepped stays
    have kept : after = {session with rt := rt} := by
      cases event with
      | threadExit tid => exact absurd rfl (stays tid)
      | _ => cases ok; rfl
    subst kept
    exact ⟨fun none => (totals.counted none).trans (congrArg costOf same.symm),totals.first⟩

theorem run_total {rt : Runtime c} {disk : LogDir} {events : List Event} {session : Session c} {report : WrittenReport}
    (created : initial c cfg = .ok rt) (ran : sessionRun squares printer cfg ⟨rt,disk,0,[]⟩ events = .ok session)
    (written : session.written.getLast? = some report) : report.k = costOf report.threads := by
  have start : Totals (⟨rt,disk,0,[]⟩ : Session c) := by
    obtain ⟨global,_,ok⟩ := bind_ok.mp created
    cases ok
    exact ⟨fun _ => rfl,nofun⟩
  have totals := foldlM_keeps (P := Totals) (fun _ _ _ totals ok => Totals.step totals ok) _ _ _ start ran
  exact totals.first report written

/-- The line `k` of the report counts the threads of the run and the reports merged
exactly when the latter add up to nothing. -/
theorem incremental_total (squares : Squares D) (printer : Printer c D) (cfg : Config) (rt : Runtime c) (disk : LogDir)
    (events : List Event) (session : Session c) (created : initial c cfg = .ok rt)
    (ran : sessionRun squares printer cfg ⟨rt,disk,0,[]⟩ events = .ok session) (report : WrittenReport)
    (written : session.written.getLast? = some report) :
    report.k = costOf report.threads + storedTotal report.merged ↔ storedTotal report.merged = 0 := by
  rw [run_total created ran written]
  constructor
  · intro same
    exact (UInt64.left_eq_add).mp same
  · intro zero
    rw [zero,UInt64.add_zero]

/-- Runs one after the other over one log directory, each with the report it has written -/
inductive Successive (squares : Squares D) (printer : Printer c D) (cfg : Config) : LogDir → List WrittenReport → LogDir → Prop
  | nil (disk : LogDir) : Successive squares printer cfg disk [] disk
  | run {disk after : LogDir} {rt : Runtime c} {events : List Event} {session : Session c} {report : WrittenReport}
      {reports : List WrittenReport} : initial c cfg = .ok rt → sessionRun squares printer cfg ⟨rt,disk,0,[]⟩ events = .ok session →
      session.written.getLast? = some report → Successive squares printer cfg session.disk reports after →
      Successive squares printer cfg disk (report :: reports) after

def runCosts (reports : List WrittenReport) : UInt64 := (reports.map fun report => costOf report.threads).sum

theorem Successive.total {disk after : LogDir} {reports : List WrittenReport} (runs : Successive squares printer cfg disk reports after) :
    ∀ report ∈ reports, report.k = costOf report.threads := by
  induction runs with
  | nil => exact fun _ none => absurd none List.not_mem_nil
  | run created ran written _ ih => exact List.forall_mem_cons.mpr ⟨run_total created ran written,ih⟩

/-- The report of the last of several runs counts them all exactly when those before it have cost
nothing. -/
theorem successive_totals {disk after : LogDir} {reports : List WrittenReport} {last : WrittenReport}
    (runs : Successive squares printer cfg disk (reports ++ [last]) after) :
    last.k = runCosts (reports ++ [last]) ↔ runCosts reports = 0 := by
  have own := runs.total last (List.mem_append_right _ (List.mem_singleton_self last))
  have all : runCosts (reports ++ [last]) = costOf last.threads + runCosts reports := by
    unfold runCosts
    rw [List.map_append,List.sum_append,List.map_singleton,List.sum_singleton,UInt64.add_comm]
  rw [own,all]
  constructor
  · intro same
    exact (UInt64.left_eq_add).mp same
  · intro zero
    rw [zero,UInt64.add_zero]

end

/-- The file that `create_report` opens: the first attempt that is not there, and the last one where
all are. -/
def createdPath (cfg : Config) (logDir : Str) (naming : Naming) (disk : LogDir) : Str :=
  let path (attempt : Nat) := logDir ++ '/' :: reportName cfg {naming with attempt := UInt32.ofNat attempt}
  path (((List.range 1024).find? fun attempt => !(disk.files.map Prod.fst).contains (path attempt)).getD 1023)

/-- The printer of the tool; what a run has found in its functions comes from outside. -/
def toolPrinter {c : Counter} (cfg : Config) (logDir cmdLine : Str) (naming : Naming) (found : Runtime c → Profile UInt64) :
    Printer c UInt64 where
  found := found
  name _ disk := createdPath cfg logDir naming disk
  text profile cost := printReport cfg ⟨profile.binaryMtime,profile.application.getD [],cmdLine,profile.fnHt⟩ none cost []

def incrementalConfig : Config := {smallConfig .rms with singleReport := true, incrementalReport := true}

/-- The process 13 of `ls` -/
def lsPrinter : Printer .wrapping UInt64 :=
  toolPrinter incrementalConfig "/logs".toList "ls -l".toList ⟨"/bin/ls".toList,13,1,0⟩ fun _ => freshProfile

def earlierReport : Str × Str :=
  ("/logs/ls_12_0_1.aprof".toList,"v 6\nk 3\nr \"f\" \"o\" 0\np 0 1 3 3 3 9 1 3 3 3 3 9\n".toList)

/-- A report of another version, and one that does not say its total -/
def otherReports : List (Str × Str) :=
  [("/logs/ls_10_0_1.aprof".toList,"v 5\nk 3\n".toList),
    ("/logs/ls_11_0_1.aprof".toList,"v 6\nr \"f\" \"o\" 0\np 0 1 3 3 3 9 1 3 3 3 3 9\n".toList)]

theorem otherReports_distinct : (otherReports.map Prod.fst).Nodup := by decide

/-- What `written` says of the report of a run -/
def reportOf {A : Type} (disk : LogDir) (events : List Event) (written : WrittenReport → A) : Option A :=
  (initial .wrapping incrementalConfig >>= fun rt => sessionRun toolSquares lsPrinter incrementalConfig ⟨rt,disk,0,[]⟩ events).toOption.bind
    fun session => session.written.getLast?.map written

theorem reportOf_some {A : Type} {disk : LogDir} {events : List Event} {written : WrittenReport → A} {a : A}
    (found : reportOf disk events written = some a) : ∃ (rt : Runtime .wrapping) (session : Session .wrapping) (report : WrittenReport),
      initial .wrapping incrementalConfig = .ok rt ∧
      sessionRun toolSquares lsPrinter incrementalConfig ⟨rt,disk,0,[]⟩ events = .ok session ∧
      session.written.getLast? = some report ∧ written report = a := by
  unfold reportOf at found
  obtain ⟨session,ran,first⟩ := Option.bind_eq_some_iff.mp found
  obtain ⟨report,first,value⟩ := Option.map_eq_some_iff.mp first
  cases created : initial .wrapping incrementalConfig with
  | error fault =>
    rw [created] at ran
    cases ran
  | ok rt =>
    rw [created,ok_bind] at ran
    cases run : sessionRun toolSquares lsPrinter incrementalConfig ⟨rt,disk,0,[]⟩ events with
    | error fault =>
      rw [run] at ran
      cases ran
    | ok after =>
      rw [run] at ran
      cases ran
      exact ⟨rt,_,report,rfl,run,first,value⟩

theorem incremental_total_others : ∃ (rt : Runtime .wrapping) (session : Session .wrapping) (report : WrittenReport),
    initial .wrapping incrementalConfig = .ok rt ∧ sessionRun toolSquares lsPrinter incrementalConfig
      ⟨rt,⟨otherReports,otherReports_distinct⟩,0,[]⟩ [.threadSwitch 1,.bbStart,.threadExit 1] = .ok session ∧
    session.written.getLast? = some report ∧ report.merged.length = 1 ∧
    report.k = costOf report.threads + storedTotal report.merged := by
  obtain ⟨rt,session,report,created,ran,written,value⟩ := @reportOf_some _ ⟨otherReports,otherReports_distinct⟩
    [.threadSwitch 1,.bbStart,.threadExit 1] (fun report => (report.merged.length,storedTotal report.merged)) (1,0) (by decide +kernel)
  obtain ⟨merged,zero⟩ := Prod.mk.inj value
  exact ⟨rt,session,report,created,ran,written,merged,(incremental_total toolSquares lsPrinter incrementalConfig rt
    ⟨otherReports,otherReports_distinct⟩ [.threadSwitch 1,.bbStart,.threadExit 1] session created ran report written).mpr zero⟩

/-- One block after a stored report of cost 3: the tuples are merged, and line `k` says 1. -/
theorem incremental_total_forgets : ∃ (rt : Runtime .wrapping) (session : Session .wrapping) (report : WrittenReport),
    initial .wrapping incrementalConfig = .ok rt ∧ sessionRun toolSquares lsPrinter incrementalConfig
      ⟨rt,⟨[earlierReport],List.nodup_singleton _⟩,0,[]⟩ [.threadSwitch 1,.bbStart,.threadExit 1] = .ok session ∧
    session.written.getLast? = some report ∧ report.k = 1 ∧ costOf report.threads = 1 ∧ storedTotal report.merged = 3 := by
  obtain ⟨rt,session,report,created,ran,written,value⟩ := @reportOf_some _ ⟨[earlierReport],List.nodup_singleton _⟩
    [.threadSwitch 1,.bbStart,.threadExit 1] (fun report => (report.k,costOf report.threads,storedTotal report.merged)) (1,1,3)
    (by decide +kernel)
  obtain ⟨k,value⟩ := Prod.mk.inj value
  obtain ⟨cost,stored⟩ := Prod.mk.inj value
  exact ⟨rt,session,report,created,ran,written,k,cost,stored⟩

/-- The tuples of a report, each with the function of the last line `r` before it. -/
def tuplesOf : Str → List Str → List (Str × List Str)
  | _, [] => []
  | curr, line :: lines =>
    match readLine (cString line) with
    | some ('r',args) => tuplesOf (unquote (args.headD [])) lines
    | some ('p',args) => (curr,args.drop 1) :: tuplesOf curr lines
    | some ('q',args) => (curr,args) :: tuplesOf curr lines
    | _ => tuplesOf curr lines

def storedTuples (content : Str) : List (Str × List Str) := tuplesOf [] (content.splitOn '\n')

/-- Every tuple of the old directory is in some report of the new one. -/
def StillStored (disk after : LogDir) : Prop := ∀ file ∈ disk.files, ∀ tuple ∈ storedTuples file.2,
  ∃ file' ∈ after.files, tuple ∈ storedTuples file'.2

section
variable {D : Type} {squares : Squares D} {created : LogDir → Str}

/-- The directories in which the run can be cut off before the new report is
written: between two steps of loading, at an assertion of the merger, when the
new report cannot be created, and after it has been created. -/
def cuts (squares : Squares D) (created : LogDir → Str) : Loading D → List Str → List LogDir
  | state, [] => state.disk :: match state.disk.create (created state.disk) [] with
    | .ok disk => [disk]
    | .error _ => []
  | state, path :: paths => state.disk :: match loadReport squares state path with
    | .ok next => cuts squares created next paths
    | .error _ => []

/-- Every tuple of the report is in another report as well. -/
def Redundant (disk : LogDir) (path : Str) : Prop := ∀ file ∈ disk.files, file.1 = path → ∀ tuple ∈ storedTuples file.2,
  ∃ other ∈ disk.files, other.1 ≠ path ∧ tuple ∈ storedTuples other.2

/-- Each report that is merged can be spared by then. -/
def MergesRedundant (squares : Squares D) : Loading D → List Str → Prop
  | _, [] => True
  | state, path :: paths =>
    match mergeReport squares path (state.disk.find path) state.rt with
    | .error _ => True
    | .ok (true,rt) => Redundant state.disk path ∧
        MergesRedundant squares ⟨rt,state.disk.unlink path,(path,state.disk.find path) :: state.merged⟩ paths
    | .ok (false,rt) => MergesRedundant squares {state with rt := rt} paths

theorem StillStored.trans {first second third : LogDir} (one : StillStored first second) (two : StillStored second third) :
    StillStored first third := by
  intro file member tuple inside
  obtain ⟨file',member',inside'⟩ := one file member tuple inside
  exact two file' member' tuple inside'

theorem stillStored_of_subset {disk after : LogDir} (subset : disk.files ⊆ after.files) : StillStored disk after :=
  fun file member _ inside => ⟨file,subset member,inside⟩

theorem unlink_subset (disk : LogDir) (path : Str) : (disk.unlink path).files ⊆ disk.files :=
  fun _ member => (List.mem_filter.mp member).1

theorem unlink_redundant {disk : LogDir} {path : Str} : StillStored disk (disk.unlink path) ↔ Redundant disk path := by
  constructor
  · intro stored file member _ _ inside
    obtain ⟨other,left,inside'⟩ := stored file member _ inside
    obtain ⟨member',different⟩ := List.mem_filter.mp left
    exact ⟨other,member',by simpa using different,inside'⟩
  · intro spare file member tuple inside
    by_cases same : file.1 = path
    · obtain ⟨other,member',different,inside'⟩ := spare file member same tuple inside
      exact ⟨other,List.mem_filter.mpr ⟨member',by simpa using different⟩,inside'⟩
    · exact ⟨file,List.mem_filter.mpr ⟨member,by simpa using same⟩,inside⟩

theorem cuts_head (state : Loading D) (paths : List Str) : state.disk ∈ cuts squares created state paths := by
  cases paths with
  | nil => exact List.mem_cons_self
  | cons path paths => exact List.mem_cons_self

theorem cuts_stored {disk : LogDir} (paths : List Str) : ∀ {state : Loading D}, StillStored disk state.disk →
    state.disk.files ⊆ disk.files →
    ((∀ cut ∈ cuts squares created state paths, StillStored disk cut) ↔ MergesRedundant squares state paths) := by
  induction paths with
  | nil =>
    intro state stored _
    refine ⟨fun _ => trivial,fun _ cut member => ?_⟩
    rcases List.mem_cons.mp member with rfl | member
    · exact stored
    · unfold LogDir.create at member
      split at member
      · next added =>
        split at added
        · cases added
          rw [List.mem_singleton] at member
          subst member
          exact stored.trans (stillStored_of_subset (List.subset_append_left _ _))
        · cases added
      · cases member
  | cons path paths ih =>
    intro state stored subset
    unfold cuts MergesRedundant
    rw [List.forall_mem_cons]
    unfold loadReport
    cases merging : mergeReport squares path (state.disk.find path) state.rt with
    | error fault => exact ⟨fun _ => trivial,fun _ => ⟨stored,fun cut member => absurd member (List.not_mem_nil)⟩⟩
    | ok result =>
      obtain ⟨merged,rt⟩ := result
      cases merged with
      | false =>
        have rest := @ih {state with rt := rt} stored subset
        exact ⟨fun all => rest.mp all.2,fun spares => ⟨stored,rest.mpr spares⟩⟩
      | true =>
        have smaller : (state.disk.unlink path).files ⊆ disk.files := fun _ member => subset (unlink_subset _ _ member)
        constructor
        · rintro ⟨-,all⟩
          have stored' := all _ (cuts_head _ _)
          have spare := unlink_redundant.mp ((stillStored_of_subset subset).trans stored')
          exact ⟨spare,(ih stored' smaller).mp all⟩
        · rintro ⟨spare,spares⟩
          have stored' := stored.trans (unlink_redundant.mpr spare)
          exact ⟨stored,(ih stored' smaller).mpr spares⟩

/-- Every tuple is still on the disk wherever the run is cut off, exactly when only
reports are merged whose tuples other reports hold too. -/
theorem stored_wherever_cut (squares : Squares D) (created : LogDir → Str) (rt : Profile D) (disk : LogDir) :
    (∀ cut ∈ cuts squares created ⟨rt,disk,[]⟩ (searchReports disk), StillStored disk cut) ↔
      MergesRedundant squares ⟨rt,disk,[]⟩ (searchReports disk) :=
  cuts_stored _ (stillStored_of_subset (List.Subset.refl _)) (List.Subset.refl _)

end

/-- The stored report is gone when the run is cut off before it has created the new one. -/
theorem stored_report_lost : ∃ cut ∈ cuts toolSquares (createdPath incrementalConfig "/logs".toList ⟨"/bin/ls".toList,13,1,0⟩)
    ⟨freshProfile,⟨[earlierReport],List.nodup_singleton _⟩,[]⟩ (searchReports ⟨[earlierReport],List.nodup_singleton _⟩),
    ¬StillStored ⟨[earlierReport],List.nodup_singleton _⟩ cut := by
  have loads : ((loadReport toolSquares ⟨freshProfile,⟨[earlierReport],List.nodup_singleton _⟩,[]⟩ earlierReport.1).toOption.map
      fun next => next.disk.files) = some [] := by decide +kernel
  obtain ⟨next,loaded,gone⟩ := Option.map_eq_some_iff.mp loads
  have paths : searchReports ⟨[earlierReport],List.nodup_singleton _⟩ = [earlierReport.1] := rfl
  refine ⟨next.disk,?_,fun stored => ?_⟩
  · rw [paths,cuts]
    cases merged : loadReport toolSquares ⟨freshProfile,⟨[earlierReport],List.nodup_singleton _⟩,[]⟩ earlierReport.1 with
    | error fault =>
      rw [merged] at loaded
      cases loaded
    | ok other =>
      rw [merged] at loaded
      cases loaded
      exact List.mem_cons_of_mem _ (cuts_head _ _)
  · obtain ⟨file,member,-⟩ := stored earlierReport (List.mem_singleton_self _) _ (List.mem_cons_self)
    rw [gone] at member
    cases member

end Aprof
