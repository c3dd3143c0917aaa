import Aprof.PyPlot.ListNumpy
import Aprof.PyPlot.ReadNames
import Aprof.PyPlot.ReadRows

/-! Which reports the loop of `main.py` reads as they were printed. -/
namespace Aprof.PyPlot

/-- What is read of a routine is what was printed; the first row is the dummy. -/
structure ReadAs {numpy : Numpy} (routine : PrintedRoutine) (f : AFunct numpy) : Prop where
  rName : f.rName = routine.fn.name
  lib : f.lib = basename routine.objName
  fid : f.fid = routine.routineId.toNat
  rows : (numpy.tolist f.rmsSet).tail.map (List.take 6) = routine.tuples.map sixColumns
  totCalls : f.totCalls = callsOf routine.tuples
  cumulativeCost : f.cumulativeCost = realCostOf routine.tuples

/-- The loop ends and has every routine and all calls. -/
def ReadsReport (numpy : Numpy) (options : FitOptions) (cfg : Config) (r : ReportRuntime) (rtnHt : Option (HashTable RoutineInfo))
    (cost : UInt64) (root : List CCTNode) : Prop :=
  ∃ state, readReport numpy options (printReport cfg r rtnHt cost root) = .ok state ∧
    List.Forall₂ ReadAs (printedRoutines cfg r rtnHt) state.temp ∧
    state.totCalls = ((printedRoutines cfg r rtnHt).map fun routine => callsOf routine.tuples).sum

structure LegibleRoutine (cfg : Config) (routine : PrintedRoutine) : Prop where
  name : ∀ char ∈ routine.fn.name, isSpace char = false
  object : LegibleObject routine
  mangled : ∀ mangled ∈ routine.fn.mangled, QuietLines (mangled ++ ['"'])
  /-- The rows of a drms report are too wide. -/
  metric : cfg.inputMetric = .drms → routine.tuples = []
  /-- A number from 2^63 on turns all numbers of the routine into doubles. -/
  numbers : NumbersKept cfg routine.tuples

structure Legible (cfg : Config) (r : ReportRuntime) (rtnHt : Option (HashTable RoutineInfo)) : Prop where
  application : QuietLines r.application
  command : split (firstPiece '\n' r.cmdLine) ≠ [] ∧ QuietLines r.cmdLine
  routines : ∀ routine ∈ printedRoutines cfg r rtnHt, LegibleRoutine cfg routine

section
variable {numpy : Numpy} {options : FitOptions} {cfg : Config} {routine : PrintedRoutine}

theorem coreLine_routine (core : List (AFunct numpy) × Int) (rest : List Str) :
    coreLine options core (['r'] :: rest) = (newFunct options (['r'] :: rest)).map fun f => (core.1 ++ [f],core.2) := by
  show (newFunct options (['r'] :: rest) >>= _).map _ = _
  cases newFunct options (['r'] :: rest) <;> rfl

theorem coreLine_tuple (plain : cfg.collectCCT = false) (before : List (AFunct numpy)) (f : AFunct numpy) (total : Int)
    (tuple : Input UInt64) : coreLine options (before ++ [f],total) (split (routine.tupleLine cfg tuple)) =
      (f.addRms (split (routine.tupleLine cfg tuple))).map fun f => (before ++ [f],total + tuple.calls.toNat) := by
  rw [tupleLine_words plain]
  generalize words : ['p'] :: decimal routine.routineId.toNat ::
    (PrintedRoutine.tupleNumbers cfg tuple).map (fun n => decimal n.toNat) = i
  have calls : item i 7 = .ok (decimal tuple.calls.toNat) := words ▸ rfl
  have last : ({ temp := before ++ [f], totCalls := total } : Reading numpy).f = .ok f :=
    reading_f.mpr List.getLast?_concat
  have body : readLine options { temp := before ++ [f], totCalls := total } i =
      item i 7 >>= fun calls => int calls >>= fun calls => ({ temp := before ++ [f], totCalls := total } : Reading numpy).f >>=
        fun f' => f'.addRms i >>= fun f' =>
          .ok { temp := (before ++ [f]).dropLast ++ [f'], totCalls := total + calls } := words ▸ rfl
  unfold coreLine
  rw [body,calls]
  show (int _ >>= _).map _ = _
  rw [int_decimal]
  show (Reading.f _ >>= _).map _ = _
  rw [last]
  show (f.addRms i >>= _).map _ = _
  cases f.addRms i with
  | error message => rfl
  | ok next =>
    show Except.ok ((before ++ [f]).dropLast ++ [next],_) = _
    rw [List.dropLast_concat]
    rfl

theorem coreLines_tuples (plain : cfg.collectCCT = false) (before : List (AFunct numpy)) (tuples : List (Input UInt64))
    (f : AFunct numpy) (total : Int) :
    coreLines options (before ++ [f],total) (tuples.map (routine.tupleLine cfg)) =
      (tuples.foldlM (fun (f : AFunct numpy) tuple => f.addRms (split (routine.tupleLine cfg tuple))) f).map
        fun f => (before ++ [f],total + callsOf tuples) := by
  induction tuples generalizing f total with
  | nil =>
    show Except.ok _ = Except.ok _
    rw [callsOf,List.map_nil,List.sum_nil,add_zero]
  | cons tuple tuples ih =>
    rw [List.map_cons,coreLines,List.foldlM_cons,List.foldlM_cons,coreLine_tuple plain]
    cases f.addRms (split (routine.tupleLine cfg tuple)) with
    | error message => rfl
    | ok next =>
      refine (ih next _).trans ?_
      rw [callsOf,callsOf,List.map_cons,List.sum_cons,add_assoc]
      rfl

theorem coreLines_routine (plain : cfg.collectCCT = false) (quiet : QuietRoutine routine) (core : List (AFunct numpy) × Int) :
    coreLines options core (pieces (routine.lines cfg)) =
      (readRoutine options cfg routine).map fun f => (core.1 ++ [f],core.2 + callsOf routine.tuples) := by
  obtain ⟨rest,first⟩ := routineLine_first routine
  rw [pieces_lines,List.cons_append,coreLines,List.foldlM_cons,readRoutine,first,coreLine_routine]
  cases newFunct options (['r'] :: rest) with
  | error message => rfl
  | ok f =>
    show coreLines options (core.1 ++ [f],core.2) _ = _
    rw [coreLines_append,coreLines_quiet quiet.names]
    show coreLines options (core.1 ++ [f],core.2) _ = _
    rw [coreLines_append,coreLines_quiet ((mangled_quiet routine).mpr quiet.mangled),pieces_tuples plain]
    exact coreLines_tuples plain core.1 routine.tuples f core.2

theorem exists_of_forall₂ {α β : Type} {R S : α → β → Prop} {as : List α} {bs : List β} (first : List.Forall₂ R as bs)
    (second : List.Forall₂ S as bs) : ∀ a ∈ as, ∃ b, R a b ∧ S a b := by
  induction first with
  | nil => exact fun a member => absurd member List.not_mem_nil
  | @cons a b as bs holds first ih =>
    cases second with
    | cons also second =>
      intro other member
      rcases List.mem_cons.mp member with rfl | later
      · exact ⟨b,holds,also⟩
      · exact ih second other later

theorem forall₂_of_exists {α β : Type} {R S : α → β → Prop} {as : List α} (each : ∀ a ∈ as, ∃ b, R a b ∧ S a b) :
    ∃ bs, List.Forall₂ R as bs ∧ List.Forall₂ S as bs := by
  induction as with
  | nil => exact ⟨[],.nil,.nil⟩
  | cons a as ih =>
    obtain ⟨b,holds,also⟩ := each a List.mem_cons_self
    obtain ⟨bs,first,second⟩ := ih fun a member => each a (List.mem_cons_of_mem _ member)
    exact ⟨b :: bs,.cons holds first,.cons also second⟩

def allCalls (routines : List PrintedRoutine) : Int := (routines.map fun routine => callsOf routine.tuples).sum

theorem coreLines_routines (plain : cfg.collectCCT = false) {routines : List PrintedRoutine}
    (quiet : ∀ routine ∈ routines, QuietRoutine routine) (core result : List (AFunct numpy) × Int) :
    coreLines options core (pieces (routines.flatMap (PrintedRoutine.lines cfg))) = .ok result ↔
      ∃ fs, List.Forall₂ (fun routine f => readRoutine options cfg routine = .ok f) routines fs ∧
        result = (core.1 ++ fs,core.2 + allCalls routines) := by
  induction routines generalizing core with
  | nil =>
    have same : core = (core.1 ++ [],core.2 + allCalls []) := by
      rw [List.append_nil,allCalls,List.map_nil,List.sum_nil,add_zero]
    constructor
    · intro done
      obtain rfl := Except.ok.inj done
      exact ⟨[],.nil,same⟩
    · rintro ⟨_,⟨⟩,rfl⟩
      exact congrArg Except.ok same
  | cons routine routines ih =>
    have rest := @ih fun routine member => quiet routine (List.mem_cons_of_mem _ member)
    rw [List.flatMap_cons,pieces_append,coreLines_append,coreLines_routine plain (quiet routine List.mem_cons_self)]
    constructor
    · intro done
      obtain ⟨middle,first,done⟩ := except_bind.mp done
      cases read : readRoutine options cfg routine with
      | error message =>
        rw [read] at first
        cases first
      | ok f =>
        rw [read] at first
        obtain rfl := Except.ok.inj first
        obtain ⟨fs,reads,rfl⟩ := (rest _).mp done
        refine ⟨f :: fs,.cons read reads,?_⟩
        rw [List.append_assoc,allCalls,allCalls,List.map_cons,List.sum_cons,add_assoc]
        rfl
    · rintro ⟨_,reads,rfl⟩
      cases reads with
      | cons read reads =>
        rw [read]
        refine except_bind.mpr ⟨_,rfl,(rest _).mpr ⟨_,reads,?_⟩⟩
        rw [List.append_assoc,allCalls,allCalls,List.map_cons,List.sum_cons,add_assoc]
        rfl

variable {r : ReportRuntime} {rtnHt : Option (HashTable RoutineInfo)}

theorem readReport_core (options : FitOptions) (cfg : Config) (r : ReportRuntime) (rtnHt : Option (HashTable RoutineInfo)) (cost : UInt64)
    (root : List CCTNode) (short : ∀ line ∈ reportLines cfg r rtnHt cost root, line.length < 4095) : (readReport numpy options (printReport cfg r rtnHt cost root)).map Reading.core =
      coreLines options ([],0) (pieces (reportLines cfg r rtnHt cost root)) := by
  rw [readReport,readLines_core,printReport_short short,splitOn_flatMap]
  show coreLines options ([],0) (pieces _ ++ [[]]) = _
  rw [coreLines_append]
  cases coreLines options ([],0) (pieces (reportLines cfg r rtnHt cost root)) <;> rfl

theorem readsReport_core (plain : cfg.collectCCT = false) (cost : UInt64) (root : List CCTNode)
    (short : ∀ line ∈ reportLines cfg r rtnHt cost root, line.length < 4095) :
    ReadsReport numpy options cfg r rtnHt cost root ↔ ∃ result : List (AFunct numpy) × Int,
      coreLines options ([],0) (pieces (headerLines cfg r cost) ++
        pieces ((printedRoutines cfg r rtnHt).flatMap (PrintedRoutine.lines cfg))) = .ok result ∧
      List.Forall₂ ReadAs (printedRoutines cfg r rtnHt) result.1 ∧ result.2 = allCalls (printedRoutines cfg r rtnHt) := by
  have lines : pieces (reportLines cfg r rtnHt cost root) = pieces (headerLines cfg r cost) ++
      pieces ((printedRoutines cfg r rtnHt).flatMap (PrintedRoutine.lines cfg)) := by
    rw [reportLines,if_neg (by rw [plain]; exact Bool.false_ne_true),List.append_nil,pieces_append]
  have core := @readReport_core numpy options cfg r rtnHt cost root short
  rw [lines] at core
  rw [← core,ReadsReport]
  cases readReport numpy options (printReport cfg r rtnHt cost root) with
  | error message =>
    constructor
    · rintro ⟨_,⟨⟩,-⟩
    · rintro ⟨_,⟨⟩,-⟩
  | ok state =>
    constructor
    · rintro ⟨_,⟨⟩,reads⟩
      exact ⟨_,rfl,reads⟩
    · rintro ⟨_,⟨⟩,reads⟩
      exact ⟨_,rfl,reads⟩

theorem rowCount_le {routines : List PrintedRoutine} {fs : List (AFunct numpy)} (reads : List.Forall₂ ReadAs routines fs) (total : Int) :
    rowCount (fs,total) ≤ (routines.map fun routine => 1 + routine.tuples.length).sum := by
  induction reads with
  | nil => exact Nat.zero_le _
  | @cons routine f routines fs read reads ih =>
    have rows := congrArg List.length read.rows
    rw [List.length_map,List.length_map,List.length_tail] at rows
    replace ih : (fs.map fun f => (numpy.tolist f.rmsSet).length).sum ≤ _ := ih
    rw [rowCount,List.map_cons,List.map_cons,List.sum_cons,List.sum_cons]
    omega

theorem noisy_routines (plain : cfg.collectCCT = false) (routines : List PrintedRoutine) :
    noisyLines (pieces (routines.flatMap (PrintedRoutine.lines cfg))) =
      (routines.map fun routine => 1 + routine.tuples.length).sum +
      (routines.map fun routine => noisyLines (otherPieces '\n' routine.routineLine) +
        noisyLines (pieces (routine.fn.mangled.toList.map routine.mangledLine))).sum := by
  induction routines with
  | nil => rfl
  | cons routine routines ih =>
    rw [List.flatMap_cons,pieces_append,noisyLines_append,noisy_routine plain,ih,List.map_cons,List.map_cons,List.sum_cons,
      List.sum_cons]
    omega

theorem quiet_of_reads (documented : numpy.Documented) (plain : cfg.collectCCT = false) {header : List Str}
    {routines : List PrintedRoutine} {result : List (AFunct numpy) × Int}
    (done : coreLines options ([],0) (header ++ pieces (routines.flatMap (PrintedRoutine.lines cfg))) = .ok result)
    (reads : List.Forall₂ ReadAs routines result.1) :
    (∀ line ∈ header, Quiet (split line)) ∧ ∀ routine ∈ routines, QuietRoutine routine := by
  obtain ⟨count,kinds⟩ := coreLines_count documented done
  have rows : rowCount result ≤ _ := rowCount_le reads result.2
  rw [noisyLines_append,noisy_routines plain] at count
  replace count : rowCount result = 0 + _ := count
  have quiet {lines : List Str} (within : ∀ line ∈ lines, line ∈ header ++ pieces (routines.flatMap (PrintedRoutine.lines cfg)))
      (none : noisyLines lines = 0) : ∀ line ∈ lines, Quiet (split line) := fun line member =>
    (kinds line (within line member)).resolve_left (List.countP_eq_zero.mp none line member)
  refine ⟨quiet (fun line member => List.mem_append_left _ member) (by omega),fun routine inside => ?_⟩
  have zero := List.sum_eq_zero_iff_forall_eq_nat.mp (show (routines.map fun routine => noisyLines (otherPieces '\n' routine.routineLine) +
    noisyLines (pieces (routine.fn.mangled.toList.map routine.mangledLine))).sum = 0 by omega) _ (List.mem_map_of_mem inside)
  have within {line : Str} (member : line ∈ pieces (routine.lines cfg)) :
      line ∈ header ++ pieces (routines.flatMap (PrintedRoutine.lines cfg)) := by
    refine List.mem_append_right _ ?_
    rw [pieces,List.flatMap_assoc]
    exact List.mem_flatMap.mpr ⟨routine,inside,member⟩
  have parts := pieces_lines cfg routine
  refine ⟨quiet (fun line member => within ?_) (by omega),(mangled_quiet routine).mp (quiet (fun line member => within ?_) (by omega))⟩
  · rw [parts]
    exact List.mem_append_left _ (List.mem_cons_of_mem _ member)
  · rw [parts]
    exact List.mem_append_right _ (List.mem_append_left _ member)

theorem readsReport_routines (documented : numpy.Documented) (plain : cfg.collectCCT = false) (cost : UInt64) (root : List CCTNode)
    (short : ∀ line ∈ reportLines cfg r rtnHt cost root, line.length < 4095) :
    ReadsReport numpy options cfg r rtnHt cost root ↔
      (QuietLines r.application ∧ split (firstPiece '\n' r.cmdLine) ≠ [] ∧ QuietLines r.cmdLine) ∧
      ∀ routine ∈ printedRoutines cfg r rtnHt, QuietRoutine routine ∧
        ∃ f : AFunct numpy, readRoutine options cfg routine = .ok f ∧ ReadAs routine f := by
  rw [readsReport_core plain cost root short,← header_quiet cfg r cost]
  generalize printedRoutines cfg r rtnHt = routines
  constructor
  · rintro ⟨result,done,reads,-⟩
    obtain ⟨header,quiet⟩ := quiet_of_reads documented plain done reads
    refine ⟨header,fun routine inside => ⟨quiet routine inside,?_⟩⟩
    rw [coreLines_append,coreLines_quiet header] at done
    obtain ⟨fs,read,rfl⟩ := (coreLines_routines plain quiet _ _).mp done
    exact exists_of_forall₂ read reads routine inside
  · rintro ⟨header,each⟩
    have quiet := fun routine inside => (each routine inside).1
    obtain ⟨fs,read,reads⟩ : ∃ fs : List (AFunct numpy),
        List.Forall₂ (fun routine f => readRoutine options cfg routine = .ok f) routines fs ∧ List.Forall₂ ReadAs routines fs :=
      forall₂_of_exists fun routine inside => (each routine inside).2
    refine ⟨(fs,allCalls routines),?_,reads,rfl⟩
    rw [coreLines_append,coreLines_quiet header]
    refine (coreLines_routines plain quiet _ _).mpr ⟨fs,read,?_⟩
    rw [List.nil_append,zero_add]

theorem readRoutine_iff (documented : numpy.Documented) (plain : cfg.collectCCT = false) (routine : PrintedRoutine) :
    (QuietRoutine routine ∧ ∃ f : AFunct numpy, readRoutine options cfg routine = .ok f ∧ ReadAs routine f) ↔
      LegibleRoutine cfg routine := by
  constructor
  · rintro ⟨quiet,f,read,exactly⟩
    obtain ⟨rms,fresh,made⟩ := readRoutine_ok documented plain read
    obtain ⟨f',read',⟨rName,lib,fid⟩,-,-,stacked⟩ := readRoutine_made documented plain rms made
    obtain rfl := Except.ok.inj (read.symm.trans read')
    obtain ⟨name,object⟩ := (@names_iff numpy options routine).mp
      ⟨quiet.names,fresh,made,rName.symm.trans exactly.rName,lib.symm.trans exactly.lib,fid.symm.trans exactly.fid⟩
    exact ⟨name,object,quiet.mangled,rms,(rows_iff documented stacked).mp exactly.rows⟩
  · rintro ⟨name,object,mangled,rms,numbers⟩
    obtain ⟨names,fresh,made,rName,lib,fid⟩ := (@names_iff numpy options routine).mpr ⟨name,object⟩
    obtain ⟨f,read,⟨sameName,sameLib,sameId⟩,calls,cost,stacked⟩ := readRoutine_made documented plain rms made
    exact ⟨⟨names,mangled⟩,f,read,sameName.trans rName,sameLib.trans lib,sameId.trans fid,
      (rows_iff documented stacked).mpr numbers,calls,cost⟩

/-- A report whose lines fit into the buffer of `fprintf` is read as it was printed exactly if it
is legible. -/
theorem reads_report_iff (documented : numpy.Documented) (plain : cfg.collectCCT = false) (options : FitOptions)
    (r : ReportRuntime) (rtnHt : Option (HashTable RoutineInfo)) (cost : UInt64) (root : List CCTNode)
    (short : ∀ line ∈ reportLines cfg r rtnHt cost root, line.length < 4095) :
    ReadsReport numpy options cfg r rtnHt cost root ↔ Legible cfg r rtnHt := by
  rw [readsReport_routines documented plain cost root short]
  constructor
  · rintro ⟨⟨application,command,further⟩,routines⟩
    exact ⟨application,⟨command,further⟩,fun routine inside => (readRoutine_iff documented plain routine).mp (routines routine inside)⟩
  · rintro ⟨application,command,routines⟩
    exact ⟨⟨application,command⟩,fun routine inside => (readRoutine_iff documented plain routine).mpr (routines routine inside)⟩

end

theorem reads_report_pow : ReadsReport listNumpy ⟨false,[]⟩ (smallConfig .rms) (oneRoutine "pow".toList) none 40 [] := by
  have short : (reportLines (smallConfig .rms) (oneRoutine "pow".toList) none 40 []).all (fun line => decide (line.length < 4095)) =
      true := by decide +kernel
  refine (reads_report_iff listNumpy_documented rfl _ _ _ _ _ fun line member =>
    of_decide_eq_true (List.all_eq_true.mp short line member)).mpr ⟨quietLines_plain (by decide),⟨by decide,quietLines_plain (by decide)⟩,?_⟩
  refine List.forall_mem_singleton.mpr ⟨unspaced_of_all rfl,.inl ⟨unspaced_of_all rfl,by decide⟩,?_,?_,?_⟩
  · intro mangled named
    cases named
  · intro drms
    cases drms
  · refine .inl (List.forall_mem_singleton.mpr fun n inside => ?_)
    exact of_decide_eq_true (List.all_eq_true.mp (show List.all _ (fun n => decide (n.toNat < 2 ^ 63)) = true from rfl) n inside)

/-- The second word of a name stands where the path is looked for, and the path where the id is. -/
example : readReport listNumpy ⟨false,[]⟩ (printReport (smallConfig .rms) (oneRoutine "operator new".toList) none 40 []) =
  .error "ValueError" := rfl

/-- The first row of a drms report -/
example : readReport listNumpy ⟨false,[]⟩ (printReport (smallConfig .drms) (oneRoutine "pow".toList) none 40 []) =
  .error "ValueError" := rfl

end Aprof.PyPlot
