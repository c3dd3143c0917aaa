import Aprof.SoundTuples

/-! Profiles that are printed and merged into one runtime. No assertion of `merge_tuple` fails
on them while the sums fit, and the runtime holds the tuples of all. -/
namespace Aprof

section
variable {D : Type}

/-- What `print_report` gets, and the name of the report. -/
structure StoredProfile where
  r : ReportRuntime
  rtnHt : Option (HashTable RoutineInfo)
  cost : UInt64
  root : List CCTNode
  path : Str

namespace StoredProfile
variable (cfg : Config) (profile : StoredProfile)

def routines : List PrintedRoutine := printedRoutines cfg profile.r profile.rtnHt

def report : Report := ⟨profile.path,.whole (printReport cfg profile.r profile.rtnHt profile.cost profile.root)⟩

/-- A report of this program, named with its resolution, whose lines are read back. -/
structure Mergeable (program : ReportRuntime) : Prop where
  restorable : Restorable cfg profile.r profile.rtnHt
  fits : Fits profile.path (reportLines cfg profile.r profile.rtnHt profile.cost profile.root)
  header : HeaderReads cfg profile.r profile.cost
  application : profile.r.application = program.application
  mtime : profile.r.binaryMtime = program.binaryMtime
  resolution : memoryResolutionReport profile.path = UInt32.ofNat cfg.memoryResolution

end StoredProfile

section
variable {squares : Squares D} {cfg : Config} {program : ReportRuntime} {routines : List PrintedRoutine} {points : List Point}

theorem Awaits.of_header {r : ReportRuntime} {rt after : Profile D} (same : after.header = (rt.withHeader cfg r).header) :
    Awaits cfg r after :=
  ⟨.inr (congrArg Prod.fst same),.inr (congrArg (fun header => header.2.1) same),.inr (congrArg (fun header => header.2.2.2) same),
    .inr (congrArg (fun header => header.2.2.1) same)⟩

theorem Awaits.alike {r other : ReportRuntime} {rt : Profile D} (awaits : Awaits cfg r rt)
    (application : r.application = other.application) (mtime : r.binaryMtime = other.binaryMtime) : Awaits cfg other rt :=
  ⟨awaits.metric,awaits.resolution,mtime ▸ awaits.mtime,application ▸ awaits.application⟩

theorem mergeReport_printed (plain : cfg.collectCCT = false) {profile : StoredProfile} {rt : Profile D}
    (mergeable : profile.Mergeable cfg program) (awaits : Awaits cfg program rt) (loaded : Loaded squares cfg rt routines points)
    (fits : rt.extraCost.toNat + printedCost (profile.routines cfg) profile.cost < 2 ^ 64)
    (folds : Folds squares cfg.inputMetric (points ++ (profile.routines cfg).flatMap (PrintedRoutine.points cfg))) : ∃ after,
      mergeReport squares profile.path (profile.report cfg).file rt = .ok (true,after) ∧ Awaits cfg program after ∧
      Loaded squares cfg after (routines ++ profile.routines cfg)
        (points ++ (profile.routines cfg).flatMap (PrintedRoutine.points cfg)) ∧
      after.extraCost.toNat = rt.extraCost.toNat + printedCost (profile.routines cfg) profile.cost ∧
      after.header = (rt.withHeader cfg profile.r).header := by
  obtain ⟨restorable,short,header,application,mtime,resolution⟩ := mergeable
  have own : Awaits cfg profile.r rt := awaits.alike application.symm mtime.symm
  let start : Merging D := {startMerging rt with rt := rt.withHeader cfg profile.r, totalCost := profile.cost}
  have startLoaded : Loaded squares cfg start.rt routines points := loaded.table rfl
  obtain ⟨after,merged,all,cost,same⟩ := @Loaded.reportLines D squares cfg start routines points (profile.routines cfg) startLoaded rfl
    restorable.routines rfl fits folds
  have reads := reads_report plain restorable profile.cost profile.root
  have single : ∀ line ∈ reportLines cfg profile.r profile.rtnHt profile.cost profile.root, '\n' ∉ line :=
    fun line member => (reads_oneLine reads line member).1
  refine ⟨after.rt,?_,(Awaits.of_header same).alike application mtime,all,cost,same⟩
  have fresh : ¬ (rt.memoryResolution ≠ 0 ∧ memoryResolutionReport profile.path ≠ rt.memoryResolution) := by
    rintro ⟨known,different⟩
    exact different (resolution.trans (awaits.resolution.resolve_left known).symm)
  unfold mergeReport
  rw [if_neg fresh]
  show (mergeLines squares profile.path (startMerging rt)
    ((printReport cfg profile.r profile.rtnHt profile.cost profile.root).splitOn '\n') >>= _) = _
  rw [printReport_lines short.printed single,mergeLines_items reads short,reportItems,mergeItems_header header own]
  exact ok_then merged _

def allRoutines (cfg : Config) (profiles : List StoredProfile) : List PrintedRoutine :=
  profiles.flatMap (StoredProfile.routines cfg)

def allCosts (cfg : Config) (profiles : List StoredProfile) : Nat :=
  (profiles.map fun profile => printedCost (profile.routines cfg) profile.cost).sum

end

section
variable {squares : Squares D} {cfg : Config}

/-- The printed tuples of the functions with a name, of one input size -/
def tuplesAt (routines : List PrintedRoutine) (name : Str) (size : UInt64) : List (Input UInt64) :=
  (routines.filter fun routine => routine.fn.name = name).flatMap fun routine =>
    routine.tuples.filter fun tuple => tuple.inputSize = size

theorem linesAt_routine (cfg : Config) (routine : PrintedRoutine) (name : Str) (size : UInt64) :
    linesAt (routine.points cfg) name size = (tuplesAt [routine] name size).map (printedLine cfg) := by
  rw [tuplesAt,List.filter_singleton,linesAt,PrintedRoutine.points,List.filter_map,List.map_map]
  by_cases own : routine.fn.name = name
  · rw [decide_eq_true own,cond_true,List.flatMap_singleton]
    congr 1
    refine List.filter_congr fun tuple _ => ?_
    exact decide_eq_decide.mpr (and_iff_right own)
  · rw [decide_eq_false own,cond_false,List.flatMap_nil,List.map_nil,List.map_eq_nil_iff,List.filter_eq_nil_iff]
    exact fun tuple _ holds => own (of_decide_eq_true holds).1

theorem linesAt_routines (cfg : Config) (routines : List PrintedRoutine) (name : Str) (size : UInt64) :
    linesAt (routines.flatMap (PrintedRoutine.points cfg)) name size = (tuplesAt routines name size).map (printedLine cfg) := by
  induction routines with
  | nil => rfl
  | cons routine routines ih =>
    have split : tuplesAt (routine :: routines) name size = tuplesAt [routine] name size ++ tuplesAt routines name size := by
      rw [tuplesAt,← List.singleton_append,List.filter_append,List.flatMap_append]
      rfl
    rw [List.flatMap_cons,linesAt_append,linesAt_routine,ih,split,List.map_append]

theorem foldlM_summed {metric : InputMetric} (lines : List TupleLine) : ∀ {start merged : Input D}
    {before : List (InputMetric × TupleLine)}, Summed start before →
    lines.foldlM (fun tuple line => mergeInput squares metric line tuple) start = .ok merged →
    Summed merged (before ++ lines.map fun line => (metric,line)) := by
  induction lines with
  | nil =>
    intro start merged before summed folded
    obtain rfl := Except.ok.inj folded
    rw [List.map_nil,List.append_nil]
    exact summed
  | cons line lines ih =>
    intro start merged before summed folded
    rw [List.foldlM_cons] at folded
    obtain ⟨middle,input,folded⟩ := bind_ok.mp folded
    rw [List.map_cons,← List.singleton_append,← List.append_assoc]
    exact ih (summed.add input) folded

theorem printedLine_nothing {tuple : Input UInt64} (rms : cfg.inputMetric ≠ .drms) : (printedLine cfg tuple).NothingInduced :=
  ⟨if_neg rms,if_neg rms,if_neg rms,if_neg rms⟩

theorem aggregate_printed {size : UInt64} {tuples : List (Input UInt64)} {merged : Input D} (nonempty : tuples ≠ [])
    (folded : foldLines squares cfg.inputMetric size (tuples.map (printedLine cfg)) = .ok merged) :
    Aggregate merged (tuples.map (printedLine cfg) : List TupleLine) := by
  have summed := foldlM_summed _ (emptyTuple_summed squares size) folded
  rw [List.nil_append] at summed
  have lines : ((tuples.map (printedLine cfg)).map fun line => (cfg.inputMetric,line)) ≠ [] := by simpa using nonempty
  have aggregate := (summed.aggregate_iff lines).mpr fun line member other => by
    simp only [List.map_map,List.mem_map] at member
    obtain ⟨tuple,-,rfl⟩ := member
    exact printedLine_nothing other
  have same : ((tuples.map (printedLine cfg)).map fun line => (cfg.inputMetric,line)).map Prod.snd = tuples.map (printedLine cfg) := by
    rw [List.map_map]
    exact List.map_id _
  rw [same] at aggregate
  exact aggregate

/-- Where the sums of squares are exact or wrap into a failing assertion, the merged ones are those of the tuples. -/
theorem foldlM_squares {size : UInt64} (tuples : List (Input UInt64)) : ∀ {start merged : Input D},
    (tuples.map (printedLine cfg)).foldlM (fun tuple line => mergeInput squares cfg.inputMetric line tuple) start = .ok merged →
    start.key = size ∧ start.inputSize = size ∧ start.contextId = 0 →
    (merged.key = size ∧ merged.inputSize = size ∧ merged.contextId = 0) ∧
      addSquares squares Input.sqrCumulativeCost tuples start.sqrCumulativeCost = some merged.sqrCumulativeCost ∧
      addSquares squares Input.sqrSelfCost tuples start.sqrSelfCost = some merged.sqrSelfCost := by
  induction tuples with
  | nil =>
    intro start merged folded own
    obtain rfl := Except.ok.inj folded
    exact ⟨own,rfl,rfl⟩
  | cons tuple tuples ih =>
    intro start merged folded own
    rw [List.map_cons,List.foldlM_cons] at folded
    obtain ⟨middle,input,folded⟩ := bind_ok.mp folded
    obtain ⟨sum,sqrSum,calls,real,self,selfSqr,cumulThread,cumulSyscall,selfThread,selfSyscall,-,squared,-,-,-,selfSquared,-,-,rfl⟩ :=
      mergeInput_ok input
    obtain ⟨same,sums,selfs⟩ := ih folded own
    refine ⟨same,?_,?_⟩
    · rw [addSquares,List.foldlM_cons]
      exact Option.bind_eq_some_iff.mpr ⟨sqrSum,addSquare_ok squared,sums⟩
    · rw [addSquares,List.foldlM_cons]
      exact Option.bind_eq_some_iff.mpr ⟨selfSqr,addSquare_ok selfSquared,selfs⟩

structure HoldsTuples (squares : Squares D) (cfg : Config) (size : UInt64) (merged : Input D) (tuples : List (Input UInt64)) : Prop
    extends Aggregate merged (tuples.map (printedLine cfg) : List TupleLine) where
  own : merged.key = size ∧ merged.inputSize = size ∧ merged.contextId = 0
  sqrSum : addSquares squares Input.sqrCumulativeCost tuples squares.zero = some merged.sqrCumulativeCost
  selfSqr : addSquares squares Input.sqrSelfCost tuples squares.zero = some merged.sqrSelfCost

structure HoldsPrinted (squares : Squares D) (cfg : Config) (after : Profile D) (routines : List PrintedRoutine) : Prop where
  tuples : ∀ name size, tuplesAt routines name size ≠ [] → ∃ tuple, tupleOf after name size = some tuple ∧
    HoldsTuples squares cfg size tuple (tuplesAt routines name size)
  nothing : ∀ name size, tuplesAt routines name size = [] → tupleOf after name size = none
  functions : ∀ name, objectOf after name = (firstNamed routines name).map fun routine => some routine.objName

theorem Loaded.empty {rt : Profile D} (empty : rt.fnHt = htConstruct) : Loaded squares cfg rt [] [] := by
  have agrees : Agrees {rt with extraCost := 0} ⟨none,0,rt.inputMetric,[],[]⟩ := empty_agrees empty rfl
  have nothing (name : Str) (size : UInt64) : tupleOf rt name size = none := by
    rw [tupleOf,entry_empty empty]
    cases found : htFind (htConstruct : HashTable (Input D)) size.toNat fun _ => true with
    | none => rfl
    | some tuple =>
      have member := (htFind_some found).1
      rw [htConstruct_nodes] at member
      cases member
  refine ⟨⟨agrees.named,fun name => ?_,fun name size => ?_,fun name size => ?_⟩,fun name => ?_⟩
  · rw [entry_empty empty]
    exact htConstruct_keyed
  · rw [nothing]
    rfl
  · exact iff_of_true (nothing name size) rfl
  · rw [objectOf]
    cases found : findFunction rt name with
    | none => rfl
    | some fn =>
      have member := (htFind_some found).1
      rw [empty,htConstruct_nodes] at member
      cases member

theorem Loaded.holds {after : Profile D} {routines : List PrintedRoutine}
    (loaded : Loaded squares cfg after routines (routines.flatMap (PrintedRoutine.points cfg))) :
    HoldsPrinted squares cfg after routines := by
  obtain ⟨stocked,objects⟩ := loaded
  refine ⟨fun name size some => ?_,fun name size none => ?_,objects⟩
  · have folded := stocked.folds name size
    rw [linesAt_routines] at folded
    cases found : tupleOf after name size with
    | none =>
      have absent := (stocked.present name size).mp found
      rw [linesAt_routines] at absent
      exact absurd (List.map_eq_nil_iff.mp absent) some
    | some tuple =>
      rw [found,Option.getD_some] at folded
      obtain ⟨own,sqrSum,selfSqr⟩ := foldlM_squares _ folded ⟨rfl,rfl,rfl⟩
      exact ⟨tuple,rfl,aggregate_printed some folded,own,sqrSum,selfSqr⟩
  · refine (stocked.present name size).mpr ?_
    rw [linesAt_routines,none]
    rfl

end

end

/-- Routines as a table of functions has them: one of a name, with one tuple of an input size. -/
structure Separate (routines : List PrintedRoutine) : Prop where
  names : (routines.map fun routine => routine.fn.name).Nodup
  sizes : ∀ routine ∈ routines, (routine.tuples.map Input.inputSize).Nodup

theorem Separate.inj {routines : List PrintedRoutine} (separate : Separate routines) {routine other : PrintedRoutine}
    (inside : routine ∈ routines) (also : other ∈ routines) (same : routine.fn.name = other.fn.name) : routine = other :=
  List.inj_on_of_nodup_map separate.names inside also same

/-- A tuple as `function_exit` makes it where no contexts are collected. -/
structure Contextless (cfg : Config) (tuple : Input UInt64) : Prop where
  key : tuple.key = tuple.inputSize
  contextId : tuple.contextId = 0
  induced : cfg.inputMetric ≠ .drms →
    tuple.sumCumulSyscall = 0 ∧ tuple.sumCumulThread = 0 ∧ tuple.sumSelfSyscall = 0 ∧ tuple.sumSelfThread = 0

def reread (tuple : Input UInt64) : Input UInt64 :=
  {tuple with
    sqrCumulativeCost := UInt64.ofNat (readSquare tuple.sqrCumulativeCost)
    sqrSelfCost := UInt64.ofNat (readSquare tuple.sqrSelfCost)}

/-- The squares are read as numbers that a `ULong` holds. -/
def SquaresFit (tuple : Input UInt64) : Prop := readSquare tuple.sqrCumulativeCost < 2 ^ 64 ∧ readSquare tuple.sqrSelfCost < 2 ^ 64

theorem HoldsTuples.single {cfg : Config} {tuple merged : Input UInt64} (contextless : Contextless cfg tuple) (squares : SquaresFit tuple)
    (holds : HoldsTuples toolSquares cfg tuple.inputSize merged [tuple]) : merged = reread tuple := by
  obtain ⟨⟨calls,sum,real,self,cumulSyscall,cumulThread,selfSyscall,selfThread,min,max,selfMin,selfMax⟩,⟨key,size,context⟩,sqrSum,selfSqr⟩ :=
    holds
  have one (field : TupleLine → UInt64) : total field ([tuple].map (printedLine cfg) : List TupleLine) =
      (field (printedLine cfg tuple)).toNat := by
    simp [total]
  have induced {field : UInt64} (zero : cfg.inputMetric ≠ .drms → field = 0) :
      (if cfg.inputMetric = .drms then field else 0) = field := by
    split
    · rfl
    · next rms => exact (zero rms).symm
  rw [one] at calls sum real self cumulSyscall cumulThread selfSyscall selfThread
  have word {found printed : UInt64} (same : found.toNat = printed.toNat) : found = printed := UInt64.toNat_inj.mp same
  have least {found printed : UInt64} (same : found.toNat ∈ ({printed.toNat} : Multiset Nat)) : found = printed :=
    word (Multiset.mem_singleton.mp same)
  have first {field : Input UInt64 → UInt64} {new : UInt64} (small : readSquare (field tuple) < 2 ^ 64)
      (added : addSquares toolSquares field [tuple] toolSquares.zero = some new) : new = UInt64.ofNat (readSquare (field tuple)) := by
    rw [addSquares,List.foldlM_cons] at added
    obtain ⟨middle,square,⟨⟩⟩ := Option.bind_eq_some_iff.mp added
    exact Option.some.inj (square.symm.trans (toolSquares_first small))
  have zero := contextless.induced
  unfold reread
  cases merged
  cases tuple
  simp only [Input.mk.injEq]
  refine ⟨?_,size,?_,word calls,least min.1,least max.1,word sum,least selfMin.1,least selfMax.1,word self,word real,
    first squares.1 sqrSum,first squares.2 selfSqr,(word cumulSyscall).trans (induced fun rms => (zero rms).1),(word cumulThread).trans (induced fun rms => (zero rms).2.1),
    (word selfSyscall).trans (induced fun rms => (zero rms).2.2.1),(word selfThread).trans (induced fun rms => (zero rms).2.2.2)⟩
  · exact key.trans contextless.key.symm
  · exact context.trans contextless.contextId.symm

end Aprof
