import Aprof.Rejections
import Aprof.HelperMerge
import Aprof.General.Aggregation
import Mathlib.Algebra.BigOperators.Group.Multiset.Basic
import Mathlib.Data.Multiset.Bind

/-! What merged reports add up to, for either build: the tuples and the cost as
functions of the multiset of reports, and the tables of a runtime that holds them. -/
namespace Aprof

structure Report where
  name : Str
  file : File

/-- How a build reads a number, and the values of a line `p` behind its id. -/
structure Reading where
  number : Str → UInt64
  tuple : List Str → Option TupleLine

/-- A line `p` and the function it is merged into. -/
structure Point where
  name : Str
  line : TupleLine

def File.lines : File → List (Char × List Str)
  | .unreadable => []
  | .broken content => (content.splitOn '\n').dropLast.filterMap fun line => readLine (cString line)
  | .whole content => (content.splitOn '\n').filterMap fun line => readLine (cString line)

section
variable (reading : Reading)

def pointAt (curr : Option Str) (tag : Char) (args : List Str) : Option Point :=
  if tag = 'p' then curr.bind fun name => (reading.tuple args.tail).map fun line => ⟨name,line⟩ else none

def pointsOf : Option Str → List (Char × List Str) → List Point
  | _, [] => []
  | curr, (tag,args) :: lines => (pointAt reading curr tag args).toList ++ pointsOf (currAfter curr tag args) lines

/-- The value of the last line `k` above the first routine, `none` without a routine. -/
def costCounted : UInt64 → List (Char × List Str) → Option UInt64
  | _, [] => none
  | cost, (tag,args) :: lines =>
    if tag = 'r' then some cost else costCounted (if tag = 'k' then reading.number (args.headD []) else cost) lines

def Report.points (report : Report) : List Point := pointsOf reading none report.file.lines

def Report.cost (report : Report) : Option UInt64 := costCounted reading 0 report.file.lines

def allPoints (reports : Multiset Report) : Multiset Point := reports.bind fun report => report.points reading

/-- The lines `p` for one function and input size. -/
def linesFor (reports : Multiset Report) (name : Str) (size : UInt64) : Multiset TupleLine :=
  ((allPoints reading reports).filter fun point => point.name = name ∧ point.line.inputSize = size).map Point.line

def total (field : TupleLine → UInt64) (lines : Multiset TupleLine) : Nat := (lines.map fun line => (field line).toNat).sum

end

section
variable {D : Type}

/-- A tuple that holds the sums and the extremes of its lines. -/
structure Aggregate (tuple : Input D) (lines : Multiset TupleLine) : Prop where
  calls : tuple.calls.toNat = total TupleLine.occ lines
  sumCumulative : tuple.sumCumulativeCost.toNat = total TupleLine.sum lines
  sumCumulReal : tuple.sumCumulRealCost.toNat = total TupleLine.cumulReal lines
  sumSelf : tuple.sumSelfCost.toNat = total TupleLine.self lines
  cumulSyscall : tuple.sumCumulSyscall.toNat = total TupleLine.sumCumulSyscall lines
  cumulThread : tuple.sumCumulThread.toNat = total TupleLine.sumCumulThread lines
  selfSyscall : tuple.sumSelfSyscall.toNat = total TupleLine.sumSelfSyscall lines
  selfThread : tuple.sumSelfThread.toNat = total TupleLine.sumSelfThread lines
  min : IsLeast {cost | cost ∈ lines.map fun line => line.min.toNat} tuple.minCumulativeCost.toNat
  max : IsGreatest {cost | cost ∈ lines.map fun line => line.max.toNat} tuple.maxCumulativeCost.toNat
  selfMin : IsLeast {cost | cost ∈ lines.map fun line => line.selfMin.toNat} tuple.minSelfCost.toNat
  selfMax : IsGreatest {cost | cost ∈ lines.map fun line => line.selfMax.toNat} tuple.maxSelfCost.toNat

/-- The tuples of a function and its `total_calls`; those of a new one when it is unknown. -/
def entry (rt : Profile D) (name : Str) : HashTable (Input D) × UInt64 :=
  match findFunction rt name with
  | none => (htConstruct,0)
  | some fn => (fn.inputMap,fn.totalCalls)

def tupleOf (rt : Profile D) (name : Str) (size : UInt64) : Option (Input D) :=
  htFind (entry rt name).1 size.toNat fun _ => true

structure Aggregated (reading : Reading) (rt : Profile D) (reports : Multiset Report) : Prop where
  tuples : ∀ name size, linesFor reading reports name size ≠ 0 →
    ∃ tuple, tupleOf rt name size = some tuple ∧ Aggregate tuple (linesFor reading reports name size)
  extraCost : rt.extraCost.toNat = ((reports.filterMap (Report.cost reading)).map UInt64.toNat).sum

/-- A tuple after its lines, each with the metric of the runtime it was merged into. -/
structure Summed (tuple : Input D) (lines : List (InputMetric × TupleLine)) : Prop where
  calls : tuple.calls.toNat = (lines.map fun line => line.2.occ.toNat).sum
  sumCumulative : tuple.sumCumulativeCost.toNat = (lines.map fun line => line.2.sum.toNat).sum
  sumCumulReal : tuple.sumCumulRealCost.toNat = (lines.map fun line => line.2.cumulReal.toNat).sum
  sumSelf : tuple.sumSelfCost.toNat = (lines.map fun line => line.2.self.toNat).sum
  cumulSyscall : tuple.sumCumulSyscall.toNat =
    (lines.map fun line => if line.1 = .drms then line.2.sumCumulSyscall.toNat else 0).sum
  cumulThread : tuple.sumCumulThread.toNat =
    (lines.map fun line => if line.1 = .drms then line.2.sumCumulThread.toNat else 0).sum
  selfSyscall : tuple.sumSelfSyscall.toNat =
    (lines.map fun line => if line.1 = .drms then line.2.sumSelfSyscall.toNat else 0).sum
  selfThread : tuple.sumSelfThread.toNat =
    (lines.map fun line => if line.1 = .drms then line.2.sumSelfThread.toNat else 0).sum
  min : Lowest (2^64 - 1) (lines.map fun line => line.2.min.toNat) tuple.minCumulativeCost.toNat
  max : Highest 0 (lines.map fun line => line.2.max.toNat) tuple.maxCumulativeCost.toNat
  selfMin : Lowest (2^64 - 1) (lines.map fun line => line.2.selfMin.toNat) tuple.minSelfCost.toNat
  selfMax : Highest 0 (lines.map fun line => line.2.selfMax.toNat) tuple.maxSelfCost.toNat

theorem emptyTuple_summed (squares : Squares D) (key : UInt64) : Summed (emptyTuple squares key) [] :=
  ⟨rfl,rfl,rfl,rfl,rfl,rfl,rfl,rfl,.empty _,.empty _,.empty _,.empty _⟩

theorem toNat_lower (old new : UInt64) : (if new < old then new else old).toNat = min new.toNat old.toNat := by
  split
  · next less => exact (min_eq_left (UInt64.lt_iff_toNat_lt.mp less).le).symm
  · next not => exact (min_eq_right (UInt64.le_iff_toNat_le.mp (UInt64.not_lt.mp not))).symm

theorem toNat_raise (old new : UInt64) : (if old < new then new else old).toNat = max new.toNat old.toNat := by
  split
  · next less => exact (max_eq_left (UInt64.lt_iff_toNat_lt.mp less).le).symm
  · next not => exact (max_eq_right (UInt64.le_iff_toNat_le.mp (UInt64.not_lt.mp not))).symm

theorem Summed.add {squares : Squares D} {metric : InputMetric} {line : TupleLine} {tuple merged : Input D}
    {lines : List (InputMetric × TupleLine)} (summed : Summed tuple lines)
    (ok : mergeInput squares metric line tuple = .ok merged) : Summed merged (lines ++ [(metric,line)]) := by
  obtain ⟨sum,sqrSum,calls,real,self,selfSqr,cumulThread,cumulSyscall,selfThread,selfSyscall,sumOk,-,callsOk,realOk,
    selfOk,-,drms,other,rfl⟩ := mergeInput_ok ok
  have induced : ∀ {old value new : UInt64}, (metric = .drms → new.toNat = old.toNat + value.toNat) →
      (metric ≠ .drms → new = old) → new.toNat = old.toNat + if metric = .drms then value.toNat else 0 := by
    intro old value new counted kept
    split
    · next drms => exact counted drms
    · next other => rw [kept other,Nat.add_zero]
  constructor
  case min => simpa only [List.map_append,List.map_cons,List.map_nil,toNat_lower] using summed.min.add line.min.toNat
  case max => simpa only [List.map_append,List.map_cons,List.map_nil,toNat_raise] using summed.max.add line.max.toNat
  case selfMin =>
    simpa only [List.map_append,List.map_cons,List.map_nil,toNat_lower] using summed.selfMin.add line.selfMin.toNat
  case selfMax =>
    simpa only [List.map_append,List.map_cons,List.map_nil,toNat_raise] using summed.selfMax.add line.selfMax.toNat
  all_goals rw [List.map_append,List.sum_append,List.map_singleton,List.sum_singleton]
  · rw [← summed.calls]
    exact (add_ok callsOk).1
  · rw [← summed.sumCumulative]
    exact (add_ok sumOk).1
  · rw [← summed.sumCumulReal]
    exact (add_ok realOk).1
  · rw [← summed.sumSelf]
    exact (add_ok selfOk).1
  · rw [← summed.cumulSyscall]
    exact induced (fun holds => (add_ok (drms holds).2.1).1) fun fails => (other fails).2.1
  · rw [← summed.cumulThread]
    exact induced (fun holds => (add_ok (drms holds).1).1) fun fails => (other fails).1
  · rw [← summed.selfSyscall]
    exact induced (fun holds => (add_ok (drms holds).2.2.2).1) fun fails => (other fails).2.2.2
  · rw [← summed.selfThread]
    exact induced (fun holds => (add_ok (drms holds).2.2.1).1) fun fails => (other fails).2.2.1

theorem mergeInputMap_find {squares : Squares D} {metric : InputMetric} {line : TupleLine}
    {inputMap merged : HashTable (Input D)} (keyed : inputMap.Keyed)
    (ok : mergeInputMap squares metric line inputMap = .ok merged) : merged.Keyed ∧
      ∃ new, mergeInput squares metric line ((htFind inputMap line.inputSize.toNat fun _ => true).getD
        (emptyTuple squares line.inputSize)) = .ok new ∧
      ∀ size : UInt64, htFind merged size.toNat (fun _ => true) =
        if size = line.inputSize then some new else htFind inputMap size.toNat fun _ => true := by
  have sizes : ∀ size : UInt64, size.toNat = line.inputSize.toNat ↔ size = line.inputSize := fun size => UInt64.toNat_inj
  unfold mergeInputMap at ok
  dsimp only at ok
  cases found : htFind inputMap line.inputSize.toNat fun _ => true with
  | some tuple =>
    rw [found] at ok
    obtain ⟨new,input,ok⟩ := bind_ok.mp ok
    cases ok
    refine ⟨keyed.update _ _ _ _,new,input,fun size => ?_⟩
    rw [htFind_update keyed,found,Option.map_some]
    have same : {new with key := tuple.key} = new := by rw [← (mergeInput_climbs input).1]
    simp only [sizes,same]
  | none =>
    rw [found] at ok
    obtain ⟨new,input,ok⟩ := bind_ok.mp ok
    cases ok
    have key : HashNode.key new = line.inputSize.toNat := congrArg UInt64.toNat (mergeInput_climbs input).1
    have fresh : HashNode.key new ∉ inputMap.nodes.map HashNode.key := key ▸ htFind_absent found
    refine ⟨keyed.add fresh,new,input,fun size => ?_⟩
    have project := htAddNode_project keyed fresh id size.toNat
    simpa only [Option.map_id,id_eq,key,sizes] using project

def sized (lines : List (InputMetric × TupleLine)) (size : UInt64) : List (InputMetric × TupleLine) :=
  lines.filter fun line => line.2.inputSize = size

theorem sized_add (lines : List (InputMetric × TupleLine)) (metric : InputMetric) (line : TupleLine) (size : UInt64) :
    sized (lines ++ [(metric,line)]) size = if size = line.inputSize then sized lines size ++ [(metric,line)] else sized lines size := by
  unfold sized
  rw [List.filter_append,List.filter_singleton]
  by_cases same : size = line.inputSize
  · rw [if_pos same,decide_eq_true same.symm]
    rfl
  · rw [if_neg same,decide_eq_false fun other => same other.symm]
    exact List.append_nil _

structure Collects (inputMap : HashTable (Input D)) (lines : List (InputMetric × TupleLine)) : Prop where
  keyed : inputMap.Keyed
  missing : ∀ size : UInt64, htFind inputMap size.toNat (fun _ => true) = none → sized lines size = []
  found : ∀ (size : UInt64) tuple, htFind inputMap size.toNat (fun _ => true) = some tuple → Summed tuple (sized lines size)

theorem htConstruct_collects : Collects (htConstruct : HashTable (Input D)) [] := by
  refine ⟨htConstruct_keyed,fun size _ => rfl,fun size tuple found => ?_⟩
  have member := (htFind_some found).1
  rw [htConstruct_nodes] at member
  cases member

theorem Collects.merge {squares : Squares D} {metric : InputMetric} {line : TupleLine} {inputMap merged : HashTable (Input D)}
    {lines : List (InputMetric × TupleLine)} (collects : Collects inputMap lines)
    (ok : mergeInputMap squares metric line inputMap = .ok merged) : Collects merged (lines ++ [(metric,line)]) := by
  obtain ⟨keyed,new,input,find⟩ := mergeInputMap_find collects.keyed ok
  have old : Summed ((htFind inputMap line.inputSize.toNat fun _ => true).getD (emptyTuple squares line.inputSize))
      (sized lines line.inputSize) := by
    cases found : htFind inputMap line.inputSize.toNat fun _ => true with
    | some tuple => exact collects.found _ tuple found
    | none =>
      rw [collects.missing _ found]
      exact emptyTuple_summed squares line.inputSize
  refine ⟨keyed,fun size missing => ?_,fun size tuple found => ?_⟩
  · rw [find] at missing
    rw [sized_add]
    split at missing
    · cases missing
    · next other =>
      rw [if_neg other]
      exact collects.missing size missing
  · rw [find] at found
    rw [sized_add]
    split at found
    · next same =>
      cases found
      rw [if_pos same,same]
      exact old.add input
    · next other =>
      rw [if_neg other]
      exact collects.found size tuple found

def Profile.Named (rt : Profile D) : Prop := rt.fnHt.Named Function.name fun name => (strHash name).toNat

/-- The functions may have got an object or a mangled name, and there may be new ones. -/
def KeepsEntries (rt after : Profile D) : Prop :=
  rt.Named → after.Named ∧ ∀ name, entry after name = entry rt name

theorem KeepsEntries.refl (rt : Profile D) : KeepsEntries rt rt := fun named => ⟨named,fun _ => rfl⟩

theorem KeepsEntries.table {rt after : Profile D} (same : after.fnHt = rt.fnHt) : KeepsEntries rt after := by
  intro named
  refine ⟨show after.fnHt.Named _ _ from same ▸ named,fun name => ?_⟩
  unfold entry findFunction
  rw [same]

theorem KeepsEntries.trans {rt middle after : Profile D} (first : KeepsEntries rt middle) (second : KeepsEntries middle after) :
    KeepsEntries rt after := by
  intro named
  obtain ⟨named',same⟩ := first named
  obtain ⟨named'',same'⟩ := second named'
  exact ⟨named'',fun name => (same' name).trans (same name)⟩

section
variable {rt : Profile D} {name : Str}

theorem setFunction_entry {fn : Function D} {change : Function D → Function D}
    {keeps : ∀ fn, HashNode.key (change fn) = HashNode.key fn} (named : rt.Named)
    (names : ∀ fn, (change fn).name = fn.name) (found : findFunction rt name = some fn) :
    (setFunction rt name change keeps).Named ∧ ∀ other, entry (setFunction rt name change keeps) other =
      if other = name then ((change fn).inputMap,(change fn).totalCalls) else entry rt other := by
  refine ⟨HashTable.Named.update named _ _ _ keeps names,fun other => ?_⟩
  have look : findFunction (setFunction rt name change keeps) other =
      if other = name then (findFunction rt name).map change else findFunction rt other :=
    htFind_named_update named name change keeps names other
  unfold entry
  rw [look,found]
  by_cases own : other = name
  · rw [if_pos own,if_pos own]
    rfl
  · rw [if_neg own,if_neg own]

theorem setFunction_keeps {change : Function D → Function D} {keeps : ∀ fn, HashNode.key (change fn) = HashNode.key fn}
    {fn : Function D} (names : ∀ fn, (change fn).name = fn.name) (found : findFunction rt name = some fn)
    (same : (change fn).inputMap = fn.inputMap ∧ (change fn).totalCalls = fn.totalCalls) :
    KeepsEntries rt (setFunction rt name change keeps) := by
  intro named
  obtain ⟨named',entries⟩ := @setFunction_entry _ _ _ _ _ keeps named names found
  refine ⟨named',fun other => ?_⟩
  rw [entries]
  split
  · next own =>
    rw [own,same.1,same.2]
    unfold entry
    rw [found]
  · rfl

theorem searchFunction_keeps : KeepsEntries rt (searchFunction rt name) := by
  cases found : findFunction rt name with
  | some fn =>
    have same : searchFunction rt name = rt := by simp only [searchFunction,found]
    rw [same]
    exact .refl rt
  | none =>
    have added : searchFunction rt name = {rt with
        fnHt := htAddNode rt.fnHt (freshFunction name rt.nextFunctionId)
        nextFunctionId := rt.nextFunctionId + 1} := by simp only [searchFunction,found]
    intro named
    rw [added]
    have missing : htFind rt.fnHt (strHash (freshFunction (D := D) name rt.nextFunctionId).name).toNat
        (fun fn => fn.name == name) = none := found
    refine ⟨HashTable.Named.add named rfl missing,fun other => ?_⟩
    have look : findFunction {rt with
        fnHt := htAddNode rt.fnHt (freshFunction name rt.nextFunctionId)
        nextFunctionId := rt.nextFunctionId + 1} other =
          if other = name then some (freshFunction name rt.nextFunctionId) else findFunction rt other :=
      htFind_named_add named rfl missing other
    unfold entry
    rw [look]
    by_cases own : other = name
    · rw [if_pos own,own,found]
      rfl
    · rw [if_neg own]

theorem searchObject_keeps {objName : Str} : KeepsEntries rt (searchObject rt name objName) := by
  unfold searchObject
  split
  · exact .refl rt
  · next fn found =>
    split
    · exact .refl rt
    · split
      · exact setFunction_keeps (fun _ => rfl) found ⟨rfl,rfl⟩
      · have added : KeepsEntries rt {rt with objHt := htAddNode rt.objHt ⟨strHash objName,objName⟩} := .table rfl
        exact added.trans (@setFunction_keeps D {rt with objHt := htAddNode rt.objHt ⟨strHash objName,objName⟩} name _ _ fn
          (fun _ => rfl) found ⟨rfl,rfl⟩)

end

end

end Aprof
