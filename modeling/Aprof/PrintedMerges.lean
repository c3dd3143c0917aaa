import Aprof.MergedReports
import Aprof.ReportTokens

/-! Printed reports that are merged: every tuple of the runtime is the fold of the printed
tuples with its function and input size. -/
namespace Aprof

section
variable {D : Type} {squares : Squares D} {report : Str}

def mergeItems (squares : Squares D) : Merging D → List (Char × List Str) → Result (Bool × Merging D)
  | state, [] => .ok (true,state)
  | state, (tag,args) :: items => do
    let (invalid,state) ← mergeLine squares state tag args
    if invalid then .ok (false,state) else mergeItems squares state items

/-- The buffers of `merge_report` and `merge_tuple` hold the lines. -/
def Fits (report : Str) (lines : List Str) : Prop := ∀ line ∈ lines, line.length < 1024 ∧ line.length + report.length + 1 < 2048

theorem Fits.printed {report : Str} {lines : List Str} (fits : Fits report lines) : ∀ line ∈ lines, line.length < 4095 :=
  fun line member => lt_of_lt_of_le (fits line member).1 (by decide)

theorem mergeLines_items {state : Merging D} {lines : List Str} {items : List (Char × List Str)}
    (reads : List.Forall₂ Reads lines items) (fits : Fits report lines) :
    mergeLines squares report state (lines ++ [[]]) = mergeItems squares state items := by
  induction reads generalizing state with
  | nil => rfl
  | @cons line item lines items read reads ih =>
    obtain ⟨tag,args⟩ := item
    obtain ⟨short,together⟩ := fits line List.mem_cons_self
    have nonempty : line ≠ [] := by
      rintro rfl
      cases read.read
    have applied : mergeTuple squares report state line = mergeLine squares state tag args := by
      rw [mergeTuple,if_neg nonempty,check,if_pos (decide_eq_true together),ok_bind,read.read]
    rw [List.cons_append,mergeLines,check,if_pos (decide_eq_true short),ok_bind,cString_whole read.oneLine.2,applied,mergeItems]
    cases mergeLine squares state tag args with
    | error failure => rfl
    | ok outcome =>
      obtain ⟨invalid,next⟩ := outcome
      cases invalid with
      | true => rfl
      | false => exact ih fun other member => fits other (List.mem_cons_of_mem _ member)

theorem mergeItems_cons {state next : Merging D} {tag : Char} {args : List Str} (items : List (Char × List Str))
    (applied : mergeLine squares state tag args = .ok (false,next)) :
    mergeItems squares state ((tag,args) :: items) = mergeItems squares next items := by
  rw [mergeItems,applied]
  rfl

theorem strtoull10_number (n : Nat) : strtoull10 (decimal n) = (UInt64.ofNat n,true) := by
  have read := strtoull10_decimal n [] (by rintro char ⟨⟩)
  rw [List.append_nil] at read
  exact read

theorem nextNumber_decimal (message : String) (n : Nat) (args : List Str) :
    nextNumber message (decimal n :: args) = .ok (UInt64.ofNat n,args) := by
  show Except.ok ((strtoull10 (decimal n)).1,args) = _
  rw [strtoull10_number]

theorem nextId_decimal (n : Nat) (args : List Str) : nextId (decimal n :: args) = .ok (UInt64.ofNat n,args) := by
  rw [nextId]
  show (check (strtoull10 (decimal n)).2 _ >>= fun _ => Except.ok ((strtoull10 (decimal n)).1,args)) = _
  rw [strtoull10_number]
  rfl

theorem nextName_quoted (message : String) {name : Str} (nonempty : name ≠ []) (args : List Str) :
    nextName message (quoted name :: args) = .ok (name,args) := by
  rw [nextName]
  show (check (decide (unquote (quoted name) ≠ [])) _ >>= fun _ => Except.ok (unquote (quoted name),args)) = _
  rw [unquote_quoted,check,if_pos (decide_eq_true nonempty)]
  rfl

/-- A runtime into which reports of one program and configuration go. -/
structure Awaits (cfg : Config) (r : ReportRuntime) (rt : Profile D) : Prop where
  metric : rt.inputMetric = .invalid ∨ rt.inputMetric = cfg.inputMetric
  resolution : rt.memoryResolution = 0 ∨ rt.memoryResolution = UInt32.ofNat cfg.memoryResolution
  mtime : rt.binaryMtime = 0 ∨ rt.binaryMtime = r.binaryMtime
  application : rt.application = none ∨ rt.application = some (joinWords (lineTokens r.application))

def Profile.withHeader (cfg : Config) (r : ReportRuntime) (rt : Profile D) : Profile D :=
  {rt with
    application := some (joinWords (lineTokens r.application))
    binaryMtime := r.binaryMtime
    inputMetric := cfg.inputMetric
    memoryResolution := UInt32.ofNat cfg.memoryResolution}

/-- A header that `merge_tuple` accepts. -/
structure HeaderReads (cfg : Config) (r : ReportRuntime) (cost : UInt64) : Prop where
  metric : cfg.inputMetric ≠ .invalid
  cost : 0 < cost
  application : lineTokens r.application ≠ [] ∧ (joinWords (lineTokens r.application)).length + 1 < 1024

section
variable {cfg : Config} {r : ReportRuntime} {cost : UInt64} {state : Merging D}

theorem mergeTotal_number (positive : 0 < cost) :
    mergeLine squares state 'k' [decimal cost.toNat] = .ok (false,{state with totalCost := cost}) := by
  show mergeTotal state _ = _
  rw [mergeTotal,nextNumber_decimal,ok_bind]
  dsimp only
  rw [UInt64.ofNat_toNat,check,if_pos (decide_eq_true positive)]
  rfl

theorem mergeMtime_number (awaits : state.rt.binaryMtime = 0 ∨ state.rt.binaryMtime = r.binaryMtime) :
    mergeLine squares state 'e' [decimal r.binaryMtime.toNat] =
      .ok (false,{state with rt := {state.rt with binaryMtime := r.binaryMtime}}) := by
  show mergeMtime state _ = _
  rw [mergeMtime,nextNumber_decimal,ok_bind]
  dsimp only
  rw [UInt64.ofNat_toNat]
  split
  · rw [if_neg (not_not.mpr rfl)]
    rfl
  · next known =>
    have same := awaits.resolve_left known
    rw [if_neg (not_not.mpr same.symm),← same]
    rfl

theorem mergeMetric_printed (valid : cfg.inputMetric ≠ .invalid)
    (awaits : state.rt.inputMetric = .invalid ∨ state.rt.inputMetric = cfg.inputMetric) :
    mergeLine squares state 'i' [if cfg.inputMetric = .rms then "rms".toList else "drms".toList] =
      .ok (false,{state with rt := {state.rt with inputMetric := cfg.inputMetric}}) := by
  have read : readMetric (if cfg.inputMetric = .rms then "rms".toList else "drms".toList) = cfg.inputMetric := by
    cases metric : cfg.inputMetric with
    | rms => rfl
    | drms => rfl
    | invalid => exact absurd metric valid
  show mergeMetric state _ = _
  rw [mergeMetric]
  show (if state.rt.inputMetric = .rms ∨ state.rt.inputMetric = .drms then
    if readMetric _ ≠ state.rt.inputMetric then reject state else accept state else _) = _
  rw [read]
  rcases awaits with unknown | same
  · rw [if_neg (by rw [unknown]; rintro (⟨⟨⟩⟩ | ⟨⟨⟩⟩))]
    rfl
  · have known : state.rt.inputMetric = .rms ∨ state.rt.inputMetric = .drms := by
      rw [same]
      cases metric : cfg.inputMetric with
      | rms => exact .inl rfl
      | drms => exact .inr rfl
      | invalid => exact absurd metric valid
    rw [if_pos known,if_neg (not_not.mpr same.symm),← same]
    rfl

theorem mergeResolution_number
    (awaits : state.rt.memoryResolution = 0 ∨ state.rt.memoryResolution = UInt32.ofNat cfg.memoryResolution) :
    mergeLine squares state 't' [decimal cfg.memoryResolution] =
      .ok (false,{state with rt := {state.rt with memoryResolution := UInt32.ofNat cfg.memoryResolution}}) := by
  have supported : UInt32.ofNat cfg.memoryResolution ∈ ([1,2,4,8,16] : List UInt32) :=
    List.mem_map_of_mem (f := UInt32.ofNat) cfg.supported
  show mergeResolution state _ = _
  rw [mergeResolution,nextNumber_decimal,ok_bind]
  dsimp only
  rw [UInt64.toUInt32_ofNat',check,if_pos (decide_eq_true supported),ok_bind]
  split
  · rw [if_neg (not_not.mpr rfl)]
    rfl
  · next known =>
    have same := awaits.resolve_left known
    rw [if_neg (not_not.mpr same),← same]
    rfl

theorem mergeApplication_printed (reads : HeaderReads cfg r cost)
    (awaits : state.rt.application = none ∨ state.rt.application = some (joinWords (lineTokens r.application))) :
    mergeLine squares state 'a' (lineTokens r.application) =
      .ok (false,{state with rt := {state.rt with application := some (joinWords (lineTokens r.application))}}) := by
  obtain ⟨nonempty,short⟩ := reads.application
  show mergeApplication state _ = _
  rw [mergeApplication,check,if_pos (decide_eq_true nonempty),ok_bind,check,if_pos (decide_eq_true short),ok_bind]
  rcases awaits with unknown | same
  · rw [unknown]
    rfl
  · rw [same]
    show (if _ ≠ _ then reject state else accept state) = _
    rw [if_neg (not_not.mpr rfl),← same]
    rfl

theorem mergeItems_header (reads : HeaderReads cfg r cost) (awaits : Awaits cfg r state.rt) (items : List (Char × List Str)) :
    mergeItems squares state (headerItems cfg r cost ++ items) =
      mergeItems squares {state with rt := state.rt.withHeader cfg r, totalCost := cost} items := by
  refine (mergeItems_cons _ rfl).trans ((mergeItems_cons _ rfl).trans ((mergeItems_cons _ rfl).trans ?_))
  refine (mergeItems_cons _ rfl).trans ((mergeItems_cons _ (mergeTotal_number reads.cost)).trans ?_)
  refine (mergeItems_cons _ (mergeMtime_number ?_)).trans ((mergeItems_cons _ rfl).trans ?_)
  · exact awaits.mtime
  refine (mergeItems_cons _ (mergeMetric_printed reads.metric ?_)).trans ?_
  · exact awaits.metric
  refine (mergeItems_cons _ (mergeResolution_number ?_)).trans ?_
  · exact awaits.resolution
  refine (mergeItems_cons _ (mergeApplication_printed reads ?_)).trans ((mergeItems_cons _ rfl).trans ?_)
  · exact awaits.application
  rfl

end

/-- The values of a printed tuple as a line gives them. -/
def printedLine (cfg : Config) (tuple : Input UInt64) : TupleLine where
  inputSize := tuple.inputSize
  min := tuple.minCumulativeCost
  max := tuple.maxCumulativeCost
  sum := tuple.sumCumulativeCost
  sqrSum := decimal tuple.sqrCumulativeCost.toNat
  occ := tuple.calls
  cumulReal := tuple.sumCumulRealCost
  self := tuple.sumSelfCost
  selfMin := tuple.minSelfCost
  selfMax := tuple.maxSelfCost
  selfSqr := decimal tuple.sqrSelfCost.toNat
  sumCumulSyscall := if cfg.inputMetric = .drms then tuple.sumCumulSyscall else 0
  sumCumulThread := if cfg.inputMetric = .drms then tuple.sumCumulThread else 0
  sumSelfSyscall := if cfg.inputMetric = .drms then tuple.sumSelfSyscall else 0
  sumSelfThread := if cfg.inputMetric = .drms then tuple.sumSelfThread else 0

theorem readTuple_printed (cfg : Config) (tuple : Input UInt64) :
    readTuple ((PrintedRoutine.tupleNumbers cfg tuple).map fun n => decimal n.toNat) = .ok (printedLine cfg tuple) := by
  have induced : inducedInputs ((if cfg.inputMetric = .drms then
      [0,0,tuple.sumCumulSyscall,tuple.sumCumulThread,tuple.sumSelfSyscall,tuple.sumSelfThread] else []).map fun n : UInt64 =>
        decimal n.toNat) = .ok ((printedLine cfg tuple).sumCumulSyscall,(printedLine cfg tuple).sumCumulThread,
          (printedLine cfg tuple).sumSelfSyscall,(printedLine cfg tuple).sumSelfThread) := by
    unfold printedLine
    split
    · simp only [List.map_cons,List.map_nil,inducedInputs,nextNumber_decimal,ok_bind,nextToken,UInt64.ofNat_toNat]
    · rfl
  rw [PrintedRoutine.tupleNumbers,List.map_append]
  simp only [List.map_cons,List.map_nil,List.cons_append,List.nil_append,readTuple,nextNumber_decimal,ok_bind,nextToken,
    UInt64.ofNat_toNat,induced]
  rfl

/-- The lines for one function and input size, merged one after the other -/
def foldLines (squares : Squares D) (metric : InputMetric) (size : UInt64) (lines : List TupleLine) : Result (Input D) :=
  lines.foldlM (fun tuple line => mergeInput squares metric line tuple) (emptyTuple squares size)

def linesAt (points : List Point) (name : Str) (size : UInt64) : List TupleLine :=
  (points.filter fun point => point.name = name ∧ point.line.inputSize = size).map Point.line

theorem linesAt_append (points more : List Point) (name : Str) (size : UInt64) :
    linesAt (points ++ more) name size = linesAt points name size ++ linesAt more name size := by
  rw [linesAt,List.filter_append,List.map_append]
  rfl

theorem linesAt_own (name : Str) (line : TupleLine) : linesAt [⟨name,line⟩] name line.inputSize = [line] := by
  rw [linesAt,List.filter_singleton,decide_eq_true ⟨rfl,rfl⟩]
  rfl

theorem linesAt_other {name other : Str} {line : TupleLine} {size : UInt64} (apart : ¬ (other = name ∧ size = line.inputSize)) :
    linesAt [⟨name,line⟩] other size = [] := by
  rw [linesAt,List.filter_singleton,decide_eq_false fun same => apart ⟨same.1.symm,same.2.symm⟩]
  rfl

/-- Every tuple of the runtime is the fold of the lines for it. -/
structure Stocked (squares : Squares D) (metric : InputMetric) (rt : Profile D) (points : List Point) : Prop where
  named : rt.Named
  keyed : ∀ name, (entry rt name).1.Keyed
  folds : ∀ name size, foldLines squares metric size (linesAt points name size) =
    .ok ((tupleOf rt name size).getD (emptyTuple squares size))
  present : ∀ name size, tupleOf rt name size = none ↔ linesAt points name size = []

theorem Stocked.keep {metric : InputMetric} {rt after : Profile D} {points : List Point} (stocked : Stocked squares metric rt points)
    (keeps : KeepsEntries rt after) : Stocked squares metric after points := by
  obtain ⟨named,same⟩ := keeps stocked.named
  have tuples : ∀ name size, tupleOf after name size = tupleOf rt name size := by
    intro name size
    rw [tupleOf,same]
    rfl
  refine ⟨named,fun name => ?_,fun name size => ?_,fun name size => ?_⟩
  · rw [same]
    exact stocked.keyed name
  · rw [tuples]
    exact stocked.folds name size
  · rw [tuples]
    exact stocked.present name size

theorem mergeInputMap_new {metric : InputMetric} {line : TupleLine} {inputMap : HashTable (Input D)} {new : Input D}
    (merged : mergeInput squares metric line ((htFind inputMap line.inputSize.toNat fun _ => true).getD
      (emptyTuple squares line.inputSize)) = .ok new) : ∃ after, mergeInputMap squares metric line inputMap = .ok after := by
  unfold mergeInputMap
  dsimp only
  cases found : htFind inputMap line.inputSize.toNat fun _ => true with
  | none =>
    rw [found] at merged
    exact ⟨_,bind_ok.mpr ⟨new,merged,rfl⟩⟩
  | some tuple =>
    rw [found] at merged
    exact ⟨_,bind_ok.mpr ⟨new,merged,rfl⟩⟩

/-- The name of the object of a function, where both are known -/
def objectOf (rt : Profile D) (name : Str) : Option (Option Str) := (findFunction rt name).map fun fn => fn.obj.map Object.name

theorem findFunction_search {rt : Profile D} (named : rt.Named) (name other : Str) :
    findFunction (searchFunction rt name) other = if other = name
      then some ((findFunction rt name).getD (freshFunction name rt.nextFunctionId)) else findFunction rt other := by
  cases found : findFunction rt name with
  | some fn =>
    have same : searchFunction rt name = rt := by simp only [searchFunction,found]
    rw [same]
    split
    · next own =>
      rw [own]
      exact found
    · rfl
  | none =>
    have added : searchFunction rt name = {rt with
        fnHt := htAddNode rt.fnHt (freshFunction name rt.nextFunctionId)
        nextFunctionId := rt.nextFunctionId + 1} := by simp only [searchFunction,found]
    have missing : htFind rt.fnHt (strHash (freshFunction (D := D) name rt.nextFunctionId).name).toNat
        (fun fn => fn.name == name) = none := found
    rw [added]
    exact htFind_named_add named rfl missing other

theorem findFunction_set {rt : Profile D} (named : rt.Named) {name : Str} {change : Function D → Function D}
    {keeps : ∀ fn, HashNode.key (change fn) = HashNode.key fn} (names : ∀ fn, (change fn).name = fn.name) (other : Str) :
    findFunction (setFunction rt name change keeps) other =
      if other = name then (findFunction rt name).map change else findFunction rt other :=
  htFind_named_update named name change keeps names other

theorem objectOf_set {rt : Profile D} (named : rt.Named) {name : Str} {change : Function D → Function D}
    {keeps : ∀ fn, HashNode.key (change fn) = HashNode.key fn} (names : ∀ fn, (change fn).name = fn.name)
    (objects : ∀ fn, (change fn).obj = fn.obj) (other : Str) : objectOf (setFunction rt name change keeps) other = objectOf rt other := by
  rw [objectOf,findFunction_set named names]
  split
  · next own =>
    rw [own,Option.map_map,objectOf]
    congr 1
    funext fn
    rw [Function.comp_apply,objects]
  · rfl

theorem objectOf_search {rt : Profile D} (named : rt.Named) (name other : Str) :
    objectOf (searchFunction rt name) other = if other = name then some (objectOf rt name).join else objectOf rt other := by
  rw [objectOf,findFunction_search named]
  split
  · rw [objectOf]
    cases findFunction rt name <;> rfl
  · rfl

theorem objectOf_searchObject {rt : Profile D} (named : rt.Named) {name : Str} (known : findFunction rt name ≠ none)
    (objName other : Str) : objectOf (searchObject rt name objName) other =
      if other = name then some (some ((objectOf rt name).join.getD objName)) else objectOf rt other := by
  cases found : findFunction rt name with
  | none => exact absurd found known
  | some fn =>
    have own : objectOf rt name = some (fn.obj.map Object.name) := by rw [objectOf,found]; rfl
    have change (rt' : Profile D) (same : rt'.fnHt = rt.fnHt) (obj : Object) (missing : fn.obj = none) (labelled : obj.name = objName) :
        objectOf (setFunction rt' name (fun fn => {fn with obj := some obj}) fun _ => rfl) other =
          if other = name then some (some ((objectOf rt name).join.getD objName)) else objectOf rt other := by
      have named' : rt'.Named := show rt'.fnHt.Named _ _ from same ▸ named
      have table (name : Str) : findFunction rt' name = findFunction rt name := by rw [findFunction,same]; rfl
      rw [objectOf,@findFunction_set _ _ named' name (fun fn => {fn with obj := some obj}) (fun _ => rfl) (fun _ => rfl) other,
        table,table,found,own,missing]
      split
      · exact congrArg (fun label => some (some label)) labelled
      · rfl
    unfold searchObject
    rw [found]
    dsimp only
    cases object : fn.obj with
    | some obj =>
      dsimp only
      split
      · next same => rw [same,own,object]; rfl
      · rfl
    | none =>
      dsimp only
      cases look : htFind rt.objHt (strHash objName).toNat fun obj => obj.name == objName with
      | some obj => exact change rt rfl obj object (beq_iff_eq.mp (htFind_some look).2)
      | none => exact change {rt with objHt := htAddNode rt.objHt ⟨strHash objName,objName⟩} rfl ⟨strHash objName,objName⟩ object rfl

/-- What the header lines of a report are compared with -/
def Profile.header (rt : Profile D) : InputMetric × UInt32 × Option Str × UInt64 :=
  (rt.inputMetric,rt.memoryResolution,rt.application,rt.binaryMtime)

def PrintedRoutine.points (cfg : Config) (routine : PrintedRoutine) : List Point :=
  routine.tuples.map fun tuple => ⟨routine.fn.name,printedLine cfg tuple⟩

def firstNamed (routines : List PrintedRoutine) (name : Str) : Option PrintedRoutine :=
  routines.find? fun routine => routine.fn.name = name

/-- The runtime after some routines, the last of them perhaps with a part of its tuples. -/
structure Loaded (squares : Squares D) (cfg : Config) (rt : Profile D) (routines : List PrintedRoutine) (points : List Point) :
    Prop where
  stocked : Stocked squares cfg.inputMetric rt points
  objects : ∀ name, objectOf rt name = (firstNamed routines name).map fun routine => some routine.objName

def Folds (squares : Squares D) (metric : InputMetric) (points : List Point) : Prop :=
  ∀ name size, ∃ tuple, foldLines squares metric size (linesAt points name size) = .ok tuple

theorem Folds.front {metric : InputMetric} {points more : List Point} (folds : Folds squares metric (points ++ more)) :
    Folds squares metric points := by
  intro name size
  obtain ⟨tuple,all⟩ := folds name size
  rw [linesAt_append,foldLines,List.foldlM_append] at all
  obtain ⟨middle,first,-⟩ := bind_ok.mp all
  exact ⟨middle,first⟩

theorem searchFunction_header (rt : Profile D) (name : Str) : (searchFunction rt name).header = rt.header := by
  unfold searchFunction
  split <;> rfl

theorem searchObject_header (rt : Profile D) (name objName : Str) : (searchObject rt name objName).header = rt.header := by
  unfold searchObject
  split
  · rfl
  · split
    · rfl
    · split <;> rfl

section
variable {cfg : Config} {state : Merging D} {routine : PrintedRoutine} {routines : List PrintedRoutine} {points : List Point}

theorem Loaded.table {rt after : Profile D} (loaded : Loaded squares cfg rt routines points) (same : after.fnHt = rt.fnHt) :
    Loaded squares cfg after routines points := by
  refine ⟨loaded.stocked.keep (.table same),fun name => ?_⟩
  rw [← loaded.objects name,objectOf,objectOf,findFunction,findFunction,same]

theorem firstNamed_append (routines : List PrintedRoutine) (routine : PrintedRoutine) (name : Str) :
    firstNamed (routines ++ [routine]) name =
      (firstNamed routines name).or (if routine.fn.name = name then some routine else none) := by
  rw [firstNamed,List.find?_append,List.find?_singleton]
  by_cases own : routine.fn.name = name
  · rw [if_pos own,if_pos (decide_eq_true own)]
    rfl
  · rw [if_neg own,if_neg (by rw [decide_eq_false own]; exact Bool.false_ne_true)]
    rfl

theorem Loaded.routineLine (loaded : Loaded squares cfg state.rt routines points) (restorable : routine.Restorable) {extraCost : UInt64}
    (counted : addTotal state = .ok extraCost) : ∃ rt,
      mergeLine squares state 'r' routine.routineItem.2 =
        .ok (false,{state with rt := rt, curr := some routine.fn.name, rid := routine.routineId}) ∧
      Loaded squares cfg rt (routines ++ [routine]) points ∧ rt.extraCost = extraCost ∧ rt.header = state.rt.header := by
  let paid : Profile D := {state.rt with extraCost := extraCost}
  let searched := searchFunction paid routine.fn.name
  have paidLoaded : Loaded squares cfg paid routines points := loaded.table rfl
  have named := paidLoaded.stocked.named
  have function := @searchFunction_keeps _ paid routine.fn.name
  have object := @searchObject_keeps _ searched routine.fn.name routine.objName
  have known : findFunction searched routine.fn.name ≠ none := by
    rw [findFunction_search named,if_pos rfl]
    exact Option.some_ne_none _
  refine ⟨searchObject searched routine.fn.name routine.objName,?_,⟨?_,fun name => ?_⟩,?_,?_⟩
  · show (addTotal state >>= _) = _
    rw [counted,ok_bind]
    show (nextName _ (quoted routine.fn.name :: _) >>= _) = _
    rw [nextName_quoted _ restorable.name.1,ok_bind]
    show (nextName _ (quoted routine.objName :: _) >>= _) = _
    rw [nextName_quoted _ restorable.object.1,ok_bind]
    show (nextId [decimal routine.routineId.toNat] >>= _) = _
    rw [nextId_decimal,ok_bind]
    show accept {state with
      rt := searchObject searched routine.fn.name routine.objName
      curr := some routine.fn.name
      rid := (UInt64.ofNat routine.routineId.toNat).toUInt32} = _
    rw [UInt64.toUInt32_ofNat',UInt32.ofNat_toNat]
    rfl
  · exact (paidLoaded.stocked.keep function).keep object
  · rw [objectOf_searchObject (function named).1 known,objectOf_search named,objectOf_search named,if_pos rfl,firstNamed_append,
      paidLoaded.objects,paidLoaded.objects]
    by_cases own : name = routine.fn.name
    · rw [if_pos own,own,if_pos rfl]
      cases firstNamed routines routine.fn.name <;> rfl
    · rw [if_neg own,if_neg own,if_neg (Ne.symm own),Option.or_none]
  · exact (searchObject_rest _ _ _).2.trans (searchFunction_rest _ _).2
  · exact (searchObject_header _ _ _).trans (searchFunction_header _ _)

structure InRoutine (cfg : Config) (routine : PrintedRoutine) (state : Merging D) : Prop where
  curr : state.curr = some routine.fn.name
  rid : state.rid = routine.routineId
  metric : state.rt.inputMetric = cfg.inputMetric

theorem Stocked.point {rt after : Profile D} {metric : InputMetric} {name : Str} {line : TupleLine} {inputMap : HashTable (Input D)}
    (stocked : Stocked squares metric rt points) (named : after.Named)
    (merged : mergeInputMap squares metric line (entry rt name).1 = .ok inputMap)
    (entries : ∀ other, (entry after other).1 = if other = name then inputMap else (entry rt other).1) :
    Stocked squares metric after (points ++ [⟨name,line⟩]) := by
  obtain ⟨keyed,new,input,find⟩ := mergeInputMap_find (stocked.keyed name) merged
  have tuples (other : Str) (size : UInt64) : tupleOf after other size =
      if other = name ∧ size = line.inputSize then some new else tupleOf rt other size := by
    rw [tupleOf,entries]
    by_cases own : other = name
    · rw [if_pos own,find]
      by_cases same : size = line.inputSize
      · rw [if_pos same,if_pos ⟨own,same⟩]
      · rw [if_neg same,if_neg fun both => same both.2,own]
        rfl
    · rw [if_neg own,if_neg fun both => own both.1]
      rfl
  refine ⟨named,fun other => ?_,fun other size => ?_,fun other size => ?_⟩
  · rw [entries]
    split
    · exact keyed
    · exact stocked.keyed other
  · rw [linesAt_append,tuples]
    by_cases same : other = name ∧ size = line.inputSize
    · obtain ⟨rfl,rfl⟩ := same
      rw [if_pos ⟨rfl,rfl⟩,linesAt_own,foldLines,List.foldlM_append]
      refine bind_ok.mpr ⟨_,stocked.folds other line.inputSize,?_⟩
      rw [List.foldlM_cons]
      exact bind_ok.mpr ⟨new,input,rfl⟩
    · rw [if_neg same,linesAt_other same,List.append_nil]
      exact stocked.folds other size
  · rw [linesAt_append,tuples]
    by_cases same : other = name ∧ size = line.inputSize
    · obtain ⟨rfl,rfl⟩ := same
      rw [if_pos ⟨rfl,rfl⟩,linesAt_own]
      exact iff_of_false (Option.some_ne_none _) (List.append_ne_nil_of_right_ne_nil _ (List.cons_ne_nil _ _))
    · rw [if_neg same,linesAt_other same,List.append_nil]
      exact stocked.present other size

theorem Loaded.tupleLine (loaded : Loaded squares cfg state.rt routines points) (within : InRoutine cfg routine state)
    (known : ∃ other ∈ routines, other.fn.name = routine.fn.name) (tuple : Input UInt64)
    (folds : Folds squares cfg.inputMetric (points ++ [⟨routine.fn.name,printedLine cfg tuple⟩])) : ∃ rt,
      mergeLine squares state 'p' (routine.tupleItem cfg tuple).2 = .ok (false,{state with rt := rt}) ∧
      Loaded squares cfg rt routines (points ++ [⟨routine.fn.name,printedLine cfg tuple⟩]) ∧
      rt.extraCost = state.rt.extraCost ∧ rt.header = state.rt.header := by
  obtain ⟨fn,found⟩ : ∃ fn, findFunction state.rt routine.fn.name = some fn := by
    obtain ⟨other,inside,same⟩ := known
    have object := loaded.objects routine.fn.name
    cases first : firstNamed routines routine.fn.name with
    | none => exact absurd (decide_eq_true same) (List.find?_eq_none.mp first other inside)
    | some other =>
      rw [first,objectOf] at object
      cases found : findFunction state.rt routine.fn.name with
      | none =>
        rw [found] at object
        cases object
      | some fn => exact ⟨fn,rfl⟩
  have own : entry state.rt routine.fn.name = (fn.inputMap,fn.totalCalls) := by rw [entry,found]
  obtain ⟨inputMap,merged⟩ : ∃ inputMap, mergeInputMap squares cfg.inputMetric (printedLine cfg tuple) fn.inputMap = .ok inputMap := by
    obtain ⟨new,all⟩ := folds routine.fn.name tuple.inputSize
    have line : linesAt [⟨routine.fn.name,printedLine cfg tuple⟩] routine.fn.name tuple.inputSize = [printedLine cfg tuple] :=
      linesAt_own routine.fn.name (printedLine cfg tuple)
    rw [linesAt_append,line,foldLines,List.foldlM_append] at all
    obtain ⟨middle,first,last⟩ := bind_ok.mp all
    have before := Except.ok.inj (first.symm.trans (loaded.stocked.folds routine.fn.name tuple.inputSize))
    rw [List.foldlM_cons] at last
    obtain ⟨next,input,-⟩ := bind_ok.mp last
    rw [before,tupleOf,own] at input
    exact mergeInputMap_new input
  let change (fn : Function D) : Function D := {fn with inputMap := inputMap}
  obtain ⟨named,entries⟩ := @setFunction_entry _ _ _ _ change (fun _ => rfl) loaded.stocked.named (fun _ => rfl) found
  refine ⟨setFunction state.rt routine.fn.name change fun _ => rfl,?_,⟨?_,fun name => ?_⟩,rfl,rfl⟩
  · show (nextId (decimal routine.routineId.toNat :: _) >>= _) = _
    rw [nextId_decimal,ok_bind]
    show (check (state.rid.toUInt64 == UInt64.ofNat routine.routineId.toNat) _ >>= _) = _
    rw [within.rid,UInt64.ofNat_uInt32ToNat,check,if_pos (beq_self_eq_true _),ok_bind]
    show (readTuple ((PrintedRoutine.tupleNumbers cfg tuple).map fun n => decimal n.toNat) >>= _) = _
    rw [readTuple_printed,ok_bind,within.curr]
    dsimp only
    rw [found]
    dsimp only
    rw [within.metric,merged,ok_bind]
    rfl
  · refine loaded.stocked.point named (by rw [own]; exact merged) fun other => ?_
    rw [entries]
    split <;> rfl
  · exact (@objectOf_set _ _ loaded.stocked.named _ change (fun _ => rfl) (fun _ => rfl) (fun _ => rfl) name).trans
      (loaded.objects name)

theorem Loaded.tupleLines (tuples : List (Input UInt64)) (items : List (Char × List Str)) : ∀ {state : Merging D}
    {points : List Point}, Loaded squares cfg state.rt routines points → InRoutine cfg routine state →
    (∃ other ∈ routines, other.fn.name = routine.fn.name) →
    Folds squares cfg.inputMetric (points ++ tuples.map fun tuple => ⟨routine.fn.name,printedLine cfg tuple⟩) → ∃ rt,
      mergeItems squares state (tuples.map (routine.tupleItem cfg) ++ items) = mergeItems squares {state with rt := rt} items ∧
      Loaded squares cfg rt routines (points ++ tuples.map fun tuple => ⟨routine.fn.name,printedLine cfg tuple⟩) ∧
      rt.extraCost = state.rt.extraCost ∧ rt.header = state.rt.header := by
  induction tuples with
  | nil =>
    intro state points loaded _ _ _
    exact ⟨state.rt,rfl,by simpa using loaded,rfl,rfl⟩
  | cons tuple tuples ih =>
    intro state points loaded within known folds
    rw [List.map_cons,← List.singleton_append,← List.append_assoc] at folds
    obtain ⟨middle,first,more,cost,header⟩ := loaded.tupleLine within known tuple folds.front
    have metric : middle.inputMetric = state.rt.inputMetric := congrArg Prod.fst header
    have inner : InRoutine cfg routine {state with rt := middle} := ⟨within.curr,within.rid,metric.trans within.metric⟩
    obtain ⟨rt,rest,all,cost',header'⟩ := @ih {state with rt := middle} _ more inner known folds
    refine ⟨rt,?_,?_,cost'.trans cost,header'.trans header⟩
    · rw [List.map_cons,List.cons_append]
      exact (mergeItems_cons _ first).trans rest
    · rw [List.map_cons,← List.singleton_append,← List.append_assoc]
      exact all

theorem Loaded.lines (loaded : Loaded squares cfg state.rt routines points) (metric : state.rt.inputMetric = cfg.inputMetric)
    (restorable : routine.Restorable) {extraCost : UInt64} (counted : addTotal state = .ok extraCost)
    (folds : Folds squares cfg.inputMetric (points ++ routine.points cfg)) (items : List (Char × List Str)) : ∃ rt,
      mergeItems squares state (routine.items cfg ++ items) =
        mergeItems squares {state with rt := rt, curr := some routine.fn.name, rid := routine.routineId} items ∧
      Loaded squares cfg rt (routines ++ [routine]) (points ++ routine.points cfg) ∧ rt.extraCost = extraCost ∧
      rt.header = state.rt.header := by
  obtain ⟨middle,first,loaded',cost,header⟩ := loaded.routineLine restorable counted
  let next : Merging D := {state with rt := middle, curr := some routine.fn.name, rid := routine.routineId}
  have same : middle.inputMetric = state.rt.inputMetric := congrArg Prod.fst header
  obtain ⟨rt,rest,all,cost',header'⟩ := @Loaded.tupleLines D squares cfg routine (routines ++ [routine]) routine.tuples items next
    points loaded' ⟨rfl,rfl,same.trans metric⟩ ⟨routine,List.mem_append_right _ (List.mem_singleton_self _),rfl⟩ folds
  refine ⟨rt,?_,all,cost'.trans cost,header'.trans header⟩
  have mangled : mergeItems squares next (routine.fn.mangled.toList.map routine.mangledItem ++
      (routine.tuples.map (routine.tupleItem cfg) ++ items)) =
        mergeItems squares next (routine.tuples.map (routine.tupleItem cfg) ++ items) := by
    cases routine.fn.mangled <;> rfl
  rw [PrintedRoutine.items,List.cons_append,List.append_assoc]
  exact (mergeItems_cons _ first).trans (mangled.trans rest)

/-- The cost that a report with these routines adds -/
def printedCost (routines : List PrintedRoutine) (cost : UInt64) : Nat := if routines = [] then 0 else cost.toNat

theorem addTotal_fits (fits : state.rt.extraCost.toNat + state.totalCost.toNat < 2 ^ 64) : ∃ extraCost,
    addTotal state = .ok extraCost ∧ extraCost.toNat =
      state.rt.extraCost.toNat + if state.curr = none then state.totalCost.toNat else 0 := by
  have counted : ∃ extraCost, addTotal state = .ok extraCost := by
    unfold addTotal
    split
    · have le : state.rt.extraCost ≤ state.rt.extraCost + state.totalCost := by
        rw [UInt64.le_iff_toNat_le,UInt64.toNat_add,Nat.mod_eq_of_lt fits]
        exact Nat.le_add_right _ _
      exact ⟨_,bind_ok.mpr ⟨(),check_ok.mpr (decide_eq_true le),rfl⟩⟩
    · exact ⟨_,rfl⟩
  obtain ⟨extraCost,counted⟩ := counted
  exact ⟨extraCost,counted,addTotal_ok counted⟩

theorem Loaded.routineLines (more : List PrintedRoutine) : ∀ {state : Merging D} {routines : List PrintedRoutine}
    {points : List Point}, Loaded squares cfg state.rt routines points → state.rt.inputMetric = cfg.inputMetric →
    (∀ routine ∈ more, routine.Restorable) → state.curr ≠ none →
    Folds squares cfg.inputMetric (points ++ more.flatMap (PrintedRoutine.points cfg)) → ∃ after : Merging D,
      mergeItems squares state (more.flatMap (PrintedRoutine.items cfg)) = .ok (true,after) ∧
      Loaded squares cfg after.rt (routines ++ more) (points ++ more.flatMap (PrintedRoutine.points cfg)) ∧
      after.rt.extraCost = state.rt.extraCost ∧ after.rt.header = state.rt.header := by
  induction more with
  | nil =>
    intro state routines points loaded _ _ _ _
    exact ⟨state,rfl,by simpa using loaded,rfl,rfl⟩
  | cons routine more ih =>
    intro state routines points loaded metric restorable later folds
    rw [List.flatMap_cons,← List.append_assoc] at folds
    have counted : addTotal state = .ok state.rt.extraCost := if_neg later
    obtain ⟨middle,first,loaded',cost,header⟩ := loaded.lines metric (restorable routine List.mem_cons_self) counted folds.front
      (more.flatMap (PrintedRoutine.items cfg))
    let next : Merging D := {state with rt := middle, curr := some routine.fn.name, rid := routine.routineId}
    obtain ⟨after,rest,all,cost',header'⟩ := @ih next _ _ loaded' ((congrArg Prod.fst header).trans metric)
      (fun other member => restorable other (List.mem_cons_of_mem _ member)) (Option.some_ne_none _) folds
    refine ⟨after,?_,?_,cost'.trans cost,header'.trans header⟩
    · rw [List.flatMap_cons]
      exact first.trans rest
    · rw [List.flatMap_cons,← List.append_assoc,← List.singleton_append,← List.append_assoc]
      exact all

theorem Loaded.reportLines (more : List PrintedRoutine) (loaded : Loaded squares cfg state.rt routines points)
    (metric : state.rt.inputMetric = cfg.inputMetric) (restorable : ∀ routine ∈ more, routine.Restorable) (start : state.curr = none)
    (fits : state.rt.extraCost.toNat + printedCost more state.totalCost < 2 ^ 64)
    (folds : Folds squares cfg.inputMetric (points ++ more.flatMap (PrintedRoutine.points cfg))) : ∃ after : Merging D,
      mergeItems squares state (more.flatMap (PrintedRoutine.items cfg)) = .ok (true,after) ∧
      Loaded squares cfg after.rt (routines ++ more) (points ++ more.flatMap (PrintedRoutine.points cfg)) ∧
      after.rt.extraCost.toNat = state.rt.extraCost.toNat + printedCost more state.totalCost ∧ after.rt.header = state.rt.header := by
  cases more with
  | nil => exact ⟨state,rfl,by simpa using loaded,rfl,rfl⟩
  | cons routine more =>
    rw [printedCost,if_neg (List.cons_ne_nil _ _)] at fits ⊢
    rw [List.flatMap_cons,← List.append_assoc] at folds
    obtain ⟨extraCost,counted,sum⟩ := addTotal_fits fits
    obtain ⟨middle,first,loaded',cost,header⟩ := loaded.lines metric (restorable routine List.mem_cons_self) counted folds.front
      (more.flatMap (PrintedRoutine.items cfg))
    let next : Merging D := {state with rt := middle, curr := some routine.fn.name, rid := routine.routineId}
    obtain ⟨after,rest,all,cost',header'⟩ := @Loaded.routineLines D squares cfg more next _ _ loaded'
      ((congrArg Prod.fst header).trans metric) (fun other member => restorable other (List.mem_cons_of_mem _ member))
      (Option.some_ne_none _) folds
    refine ⟨after,?_,?_,?_,header'.trans header⟩
    · rw [List.flatMap_cons]
      exact first.trans rest
    · rw [List.flatMap_cons,← List.append_assoc,← List.singleton_append,← List.append_assoc]
      exact all
    · rw [cost']
      show middle.extraCost.toNat = _
      rw [cost,sum,if_pos start]

end

end

end Aprof
