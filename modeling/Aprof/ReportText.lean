import Aprof.ContextLines
import Aprof.ReportNames

/-! The text of a report as `print_report` writes it. -/
namespace Aprof

/-- What `print_report` reads of the runtime beside the options. -/
structure ReportRuntime where
  binaryMtime : UInt64
  application : Str
  cmdLine : Str
  fnHt : HashTable (Function UInt64)

/-- A routine as the loop takes it from its table. -/
structure PrintedRoutine where
  fn : Function UInt64
  inputMap : HashTable (Input UInt64)
  routineId : UInt32

/-- The routines in the order in which `HT_RemoveNext` gives them: that of the chains. -/
def takenRoutines (cfg : Config) (r : ReportRuntime) : Option (HashTable RoutineInfo) → List PrintedRoutine
  | none => r.fnHt.nodes.map fun fn => ⟨fn,fn.inputMap,fn.functionId.toUInt32⟩
  | some rtnHt => rtnHt.nodes.map fun rtn => ⟨cfg.fn rtn.fn,rtn.inputMap,rtn.routineId.toUInt32⟩

def printedRoutines (cfg : Config) (r : ReportRuntime) (rtnHt : Option (HashTable RoutineInfo)) : List PrintedRoutine :=
  (takenRoutines cfg r rtnHt).filter fun routine => !routine.fn.discard

namespace PrintedRoutine
variable (cfg : Config) (routine : PrintedRoutine)

def objName : Str :=
  match routine.fn.obj with
  | none => "NONE".toList
  | some obj => obj.name

def tuples : List (Input UInt64) := routine.inputMap.nodes

/-- What follows the name in an `r` line -/
def objectText : Str := routine.objName ++ "\" ".toList ++ decimal routine.routineId.toNat

def routineLine : Str := "r \"".toList ++ routine.fn.name ++ "\" \"".toList ++ routine.objectText

def mangledLine (mangled : Str) : Str := "u ".toList ++ decimal routine.routineId.toNat ++ " \"".toList ++ mangled ++ "\"".toList

/-- `"%llu "` -/
def spaced (n : UInt64) : Str := decimal n.toNat ++ [' ']

/-- The texts of the calls of `fprintf` for a tuple; the two zeros are deprecated. -/
def tupleCalls (tuple : Input UInt64) : List Str :=
  [if cfg.collectCCT then "q ".toList ++ spaced tuple.contextId else "p ".toList ++ decimal routine.routineId.toNat ++ [' '],
    spaced tuple.inputSize ++ spaced tuple.minCumulativeCost ++ spaced tuple.maxCumulativeCost ++ spaced tuple.sumCumulativeCost,
    spaced tuple.sqrCumulativeCost,
    spaced tuple.calls ++ spaced tuple.sumCumulRealCost ++ spaced tuple.sumSelfCost ++ spaced tuple.minSelfCost ++
      spaced tuple.maxSelfCost,
    decimal tuple.sqrSelfCost.toNat] ++
  (if cfg.inputMetric = .drms then
    [" 0 0 ".toList ++ spaced tuple.sumCumulSyscall ++ spaced tuple.sumCumulThread ++ spaced tuple.sumSelfSyscall ++
      decimal tuple.sumSelfThread.toNat]
  else []) ++ ["\n".toList]

def calls : List (List Str) :=
  [routine.routineLine ++ ['\n']] :: (routine.fn.mangled.toList.map fun mangled => [routine.mangledLine mangled ++ ['\n']]) ++
    routine.tuples.map (routine.tupleCalls cfg)

/-- The numbers of a tuple behind the id of its routine. -/
def tupleNumbers (tuple : Input UInt64) : List UInt64 :=
  [tuple.inputSize,tuple.minCumulativeCost,tuple.maxCumulativeCost,tuple.sumCumulativeCost,tuple.sqrCumulativeCost,
    tuple.calls,tuple.sumCumulRealCost,tuple.sumSelfCost,tuple.minSelfCost,tuple.maxSelfCost,tuple.sqrSelfCost] ++
  if cfg.inputMetric = .drms then
    [0,0,tuple.sumCumulSyscall,tuple.sumCumulThread,tuple.sumSelfSyscall,tuple.sumSelfThread]
  else []

def tupleLine (tuple : Input UInt64) : Str :=
  (if cfg.collectCCT then "q ".toList ++ decimal tuple.contextId.toNat else "p ".toList ++ decimal routine.routineId.toNat) ++
    (tupleNumbers cfg tuple).flatMap fun n => ' ' :: decimal n.toNat

def lines : List Str :=
  routine.routineLine :: (routine.fn.mangled.toList.map routine.mangledLine ++ routine.tuples.map (routine.tupleLine cfg))

end PrintedRoutine

/-- `REPORT_VERSION` is 6 and `COST` is `BB_COUNT`. -/
def headerLines (cfg : Config) (r : ReportRuntime) (cost : UInt64) : List Str :=
  ["c -------------------------------------".toList,
    "c report generated by aprof (valgrind) ".toList,
    "c -------------------------------------".toList,
    "v 6".toList,
    "k ".toList ++ decimal cost.toNat,
    "e ".toList ++ decimal r.binaryMtime.toNat,
    "m bb-count".toList,
    if cfg.inputMetric = .rms then "i rms".toList else "i drms".toList,
    "t ".toList ++ decimal cfg.memoryResolution,
    "a ".toList ++ r.application,
    "f ".toList ++ r.cmdLine]

def ContextLine.text (line : ContextLine) : Str :=
  "x ".toList ++ decimal line.routineId.toNat ++ ' ' :: (decimal line.contextId.toNat ++
    if line.parentId > 0 then ' ' :: decimal line.parentId.toNat else " -1".toList)

/-- The texts of the calls of `fprintf`, those for one line together. -/
def reportCalls (cfg : Config) (r : ReportRuntime) (rtnHt : Option (HashTable RoutineInfo)) (cost : UInt64)
    (root : List CCTNode) : List (List Str) :=
  ((headerLines cfg r cost).map fun line => [line ++ ['\n']]) ++
    (printedRoutines cfg r rtnHt).flatMap (PrintedRoutine.calls cfg) ++
    if cfg.collectCCT then (contextLines root).map fun line => [line.text ++ ['\n']] else []

/-- What `fprintf` leaves of a text in its buffer of 4096 bytes: `VG_(vsnprintf)` ends it
with a zero, and counts the zero when the text was longer. -/
def fprintf (text : Str) : Str := if text.length < 4096 then text else text.take 4095 ++ [Char.ofNat 0]

def printReport (cfg : Config) (r : ReportRuntime) (rtnHt : Option (HashTable RoutineInfo)) (cost : UInt64)
    (root : List CCTNode) : Str :=
  (reportCalls cfg r rtnHt cost root).flatten.flatMap fprintf

/-- The lines, without the `\n` that ends each of them. -/
def reportLines (cfg : Config) (r : ReportRuntime) (rtnHt : Option (HashTable RoutineInfo)) (cost : UInt64)
    (root : List CCTNode) : List Str :=
  headerLines cfg r cost ++ (printedRoutines cfg r rtnHt).flatMap (PrintedRoutine.lines cfg) ++
    if cfg.collectCCT then (contextLines root).map ContextLine.text else []

/-- One routine of a library, called twice with input size 2 -/
def oneRoutine (name : Str) : ReportRuntime where
  binaryMtime := 1700000000
  application := "/usr/bin/awk".toList
  cmdLine := "/usr/bin/awk -f".toList
  fnHt := htAddNode htConstruct ⟨3,name,some ⟨5,"/usr/lib/libm.so".toList⟩,none,false,false,
    htAddNode htConstruct ⟨2,2,0,2,7,8,15,7,8,15,15,113,113,0,0,0,0⟩,4,2⟩

theorem decimal_word (n : Nat) : decimal n ≠ [] ∧ ∀ char ∈ decimal n, isSpace char = false := by
  obtain ⟨digit,digits,shape⟩ := decimal_cons n
  exact ⟨shape ▸ List.cons_ne_nil _ _,fun char inside => (digit_not_space (decimal_digits char inside)).1⟩

theorem newline_digits (n : Nat) : '\n' ∉ decimal n := fun inside => absurd (decimal_digits _ inside) (by decide)

def quoted (text : Str) : Str := '"' :: text ++ ['"']

theorem unquote_quoted (text : Str) : unquote (quoted text) = text := by
  rw [unquote,quoted,List.dropLast_concat]
  rfl

theorem tupleCalls_line (cfg : Config) (routine : PrintedRoutine) (tuple : Input UInt64) :
    (routine.tupleCalls cfg tuple).flatten = routine.tupleLine cfg tuple ++ ['\n'] := by
  unfold PrintedRoutine.tupleCalls PrintedRoutine.tupleLine PrintedRoutine.tupleNumbers PrintedRoutine.spaced
  by_cases context : cfg.collectCCT = true <;> by_cases drms : cfg.inputMetric = .drms <;>
    simp [context,drms,decimal]

theorem reportCalls_lines (cfg : Config) (r : ReportRuntime) (rtnHt : Option (HashTable RoutineInfo)) (cost : UInt64)
    (root : List CCTNode) : (reportCalls cfg r rtnHt cost root).map List.flatten =
      (reportLines cfg r rtnHt cost root).map (· ++ ['\n']) := by
  have single : ∀ line : Str, [line ++ ['\n']].flatten = line ++ ['\n'] := fun line => List.flatten_singleton
  have routines : ∀ routine : PrintedRoutine,
      (routine.calls cfg).map List.flatten = (routine.lines cfg).map (· ++ ['\n']) := by
    intro routine
    simp only [PrintedRoutine.calls,PrintedRoutine.lines,List.map_append,List.map_cons,List.map_map,Function.comp_def,single,
      tupleCalls_line,List.cons_append]
  unfold reportCalls reportLines
  simp only [List.map_append,List.map_map,Function.comp_def,single,List.map_flatMap,routines]
  split
  · simp only [List.map_map,Function.comp_def,single]
  · rfl

theorem printReport_short {cfg : Config} {r : ReportRuntime} {rtnHt : Option (HashTable RoutineInfo)} {cost : UInt64}
    {root : List CCTNode} (short : ∀ line ∈ reportLines cfg r rtnHt cost root, line.length < 4095) :
    printReport cfg r rtnHt cost root = (reportLines cfg r rtnHt cost root).flatMap (· ++ ['\n']) := by
  have whole : ∀ calls ∈ reportCalls cfg r rtnHt cost root, calls.flatten.length < 4096 := by
    intro calls member
    have listed := List.mem_map_of_mem (f := List.flatten) member
    rw [reportCalls_lines] at listed
    obtain ⟨line,inside,same⟩ := List.mem_map.mp listed
    have fits := short line inside
    rw [← same,List.length_append,List.length_singleton]
    omega
  have kept : (reportCalls cfg r rtnHt cost root).flatten.map fprintf = (reportCalls cfg r rtnHt cost root).flatten := by
    refine (List.map_congr_left fun text member => ?_).trans (List.map_id _)
    obtain ⟨calls,listed,inside⟩ := List.mem_flatten.mp member
    have part := (List.sublist_flatten_of_mem inside).length_le
    exact if_pos (lt_of_le_of_lt part (whole calls listed))
  rw [printReport,List.flatMap_def,kept,List.flatten_flatten,reportCalls_lines,List.flatMap_def]

end Aprof
