import Aprof.Merge
import Aprof.Resolver
import Aprof.SquareSums

/-! How `BB_start` registers a new block: its function and its object in the tables
that `merge_tuple` fills as well, and whether it is part of the dynamic linker's
resolver. A function is known by its name here. -/
namespace Aprof

structure DebugInfo where
  filename : Option Str
  textAvma : UInt64
  textSize : UInt64

/-- What `BB_start` reads for a new block beside its own tables: Valgrind's answers,
the memory, and through the last block of the thread the object of its function. -/
structure BlockInfo where
  target : UInt64
  objSection : Nat
  fnnameIfEntry : Option Str
  fnname : Option Str
  mangled : Option Str
  debugInfo : Option DebugInfo
  memory : UInt64 → UInt8
  lastObj : Option (Option Object)

/-- A registered `BB`; `instr_offset` and `exit` are left out. -/
structure Block where
  key : UInt64
  objSection : Nat
  isEntry : Bool
  isDlRuntimeResolve : Bool
  fn : Str
  deriving DecidableEq

instance : HashNode Block := ⟨fun bb => bb.key.toNat⟩

/-- The tables of the runtime. A routine of a thread has an input map of its own
when reports are separate. -/
structure Registry where
  rt : Profile UInt64
  bbHt : HashTable Block
  dlRuntimeResolveAddr : UInt64
  dlRuntimeResolveLength : Nat
  inputMaps : Nat → HashTable (Input UInt64)

def resolverName : Str := "_dl_runtime_resolve".toList

/-- Both names Valgrind gives go through this test. -/
def belowMain (name : Str) : Str := if name = "(below main)".toList then "below_main".toList else name

/-- The name of the function, if Valgrind knows it. -/
def BlockInfo.name (info : BlockInfo) : Option Str := (info.fnnameIfEntry.or info.fnname).map belowMain

def BlockInfo.isResolver (info : BlockInfo) : Bool := info.name = some resolverName

def BlockInfo.objName (info : BlockInfo) : Option Str := info.debugInfo.bind DebugInfo.filename

/-- `Vg_SectPLT`. -/
def sectPLT : Nat := 5

/-- What `VG_(sprintf)` prints for `%p`. -/
def pointerText (addr : UInt64) : Str := "0x".toList ++ (Nat.toDigits 16 addr.toNat).map Char.toUpper

/-- The name of a function that Valgrind does not know. -/
def BlockInfo.addressName (info : BlockInfo) : Str :=
  if info.objSection = sectPLT then "PLT_".toList ++ pointerText info.target else pointerText info.target

example : pointerText 0x4c2db8f = "0x4C2DB8F".toList := by decide

def findObject {D : Type} (rt : Profile D) (objName : Str) : Option Object :=
  htFind rt.objHt (strHash objName).toNat fun obj => obj.name == objName

def registerObject {D : Type} (rt : Profile D) (objName : Option Str) : Profile D × Option Object :=
  match objName with
  | none => (rt,none)
  | some objName =>
    match findObject rt objName with
    | some obj => (rt,some obj)
    | none => ({rt with objHt := htAddNode rt.objHt ⟨strHash objName,objName⟩},some ⟨strHash objName,objName⟩)

/-- The function that is added for a block; one without a name gets no id and is
discarded. -/
def blockFunction (rt : Profile UInt64) (info : BlockInfo) (fn : Str) (unknown : Bool) (obj : Option Object)
    (skip : Bool) : Function UInt64 where
  key := strHash fn
  name := fn
  obj := obj
  mangled := if unknown then none else (info.mangled.map belowMain).filter (· ≠ fn)
  discard := unknown
  skip := skip
  inputMap := htConstruct
  functionId := if unknown then 0 else rt.nextFunctionId
  totalCalls := 0

namespace Registry

section
variable (platform : Platform) (st : Registry) (info : BlockInfo)

/-- A named resolver means that the linker is not stripped. -/
def noted : Registry := if info.isResolver then {st with dlRuntimeResolveAddr := 1} else st

/-- The first look-up, by the name Valgrind gives. -/
def firstLook : Option (Function UInt64) := info.name.bind (findFunction st.rt)

/-- The value of `hash` after the first look-up. -/
def firstHash : UInt32 := (info.name.map strHash).getD 0

def needsObject : Bool := ((st.firstLook info).bind Function.obj).isNone

def objectStep : Profile UInt64 × Option Object :=
  if st.needsObject info then registerObject st.rt info.objName else (st.rt,none)

/-- The search of the object, made when control crosses into it. -/
def search : Option (UInt64 × Nat) :=
  match info.debugInfo with
  | none => none
  | some di =>
    match di.filename with
    | none => none
    | some objName =>
      if st.needsObject info = true ∧ (st.noted info).dlRuntimeResolveAddr = 0 ∧ info.isResolver = false ∧
          info.lastObj.any (· ≠ (st.objectStep info).2) = true then
        searchRuntimeResolve platform info.memory objName di.textAvma di.textSize
      else none

/-- The global variables once the search is made. -/
def range : UInt64 × Nat :=
  (st.search platform info).getD ((st.noted info).dlRuntimeResolveAddr,st.dlRuntimeResolveLength)

/-- Whether the address lies in the resolver, for a block not flagged yet. -/
def inRange : Bool :=
  let (addr,length) := st.range platform info
  !info.isResolver && (st.search platform info).isNone && 1 < addr && addr ≤ info.target &&
    info.target < addr + length.toUInt64

/-- Whether `fn` is overwritten with the name of the resolver. -/
def renamed : Bool := (st.search platform info).isSome || st.inRange platform info

def isDlRuntimeResolve : Bool := info.isResolver || st.renamed platform info

/-- `fn` at the second look-up, if there is a name. -/
def knownName : Option Str := if st.renamed platform info then some resolverName else info.name

def blockName : Str := (st.knownName platform info).getD (info.addressName)

/-- The second look-up, left out when the hash has not changed. -/
def secondLook : Option (Function UInt64) :=
  if firstHash info ≠ strHash (st.blockName platform info) then
    findFunction st.rt (st.blockName platform info)
  else none

/-- The function the block gets, unless a new one has to be made. -/
def found : Option (Function UInt64) := (st.firstLook info).or (st.secondLook platform info)

/-- The flag `skip` is set on the function found or in the one that is added. -/
def functionStep : Profile UInt64 × Str :=
  let (rt,obj) := st.objectStep info
  let skip := st.isDlRuntimeResolve platform info
  match st.found platform info with
  | some f => (if skip then setFunction rt f.name (fun fn => {fn with skip := true}) fun _ => rfl else rt,f.name)
  | none =>
    let fn := st.blockName platform info
    let unknown := (st.knownName platform info).isNone
    ({rt with
      fnHt := htAddNode rt.fnHt (blockFunction rt info fn unknown obj skip)
      nextFunctionId := if unknown then rt.nextFunctionId else rt.nextFunctionId + 1},fn)

def block : Block :=
  ⟨info.target,info.objSection,info.fnnameIfEntry.isSome,st.isDlRuntimeResolve platform info,
    (st.functionStep platform info).2⟩

/-- `BB_start` for a block with no key yet, up to the registration in `bb_ht`. -/
def newBlock : Registry where
  rt := (st.functionStep platform info).1
  bbHt := htAddNode st.bbHt (st.block platform info)
  dlRuntimeResolveAddr := (st.range platform info).1
  dlRuntimeResolveLength := (st.range platform info).2
  inputMaps := st.inputMaps

end

end Registry

/-- A registered block, with the tables it was registered in. -/
structure Registration where
  st : Registry
  info : BlockInfo

/-- Where `function_exit` records an activation of a function: with one report for
all in the function's input map, else in that of the routine. -/
def recordInto (cfg : Config) (st : Registry) (fn : Str) (routine : Nat) (exit : Recorded) : Registry :=
  match findFunction st.rt fn with
  | none => st
  | some f =>
    if f.discard then st
    else if cfg.singleReport then
      {st with rt := setFunction st.rt fn (fun f => {f with inputMap := exit.into cfg f.inputMap}) fun _ => rfl}
    else {st with inputMaps := Function.update st.inputMaps routine (exit.into cfg (st.inputMaps routine))}

def emptyRegistry (rt : Profile UInt64) : Registry :=
  ⟨{rt with fnHt := htConstruct, objHt := htConstruct},htConstruct,0,0,fun _ => htConstruct⟩

/-- Blocks, lines `r` and `p` of reports and exits of functions, in any order; every
block is registered under the condition `entry`. The tool loads reports only when it
writes incremental ones. -/
inductive Registering (cfg : Config) (squares : Squares UInt64) (platform : Platform)
    (entry : Registry → BlockInfo → Prop) : List Registration → Registry → Prop where
  | start (rt : Profile UInt64) : Registering cfg squares platform entry [] (emptyRegistry rt)
  | block {log : List Registration} {st : Registry} (run : Registering cfg squares platform entry log st)
      (info : BlockInfo) (permitted : entry st info) :
      Registering cfg squares platform entry (⟨st,info⟩ :: log) (st.newBlock platform info)
  | routine {log : List Registration} {st : Registry} (run : Registering cfg squares platform entry log st)
      (incremental : cfg.incrementalReport = true) (curr : Option Str) (rid : UInt32) (totalCost : UInt64) (args : List Str) {invalid : Bool} {after : Merging UInt64}
      (ok : mergeRoutine ⟨st.rt,curr,rid,totalCost⟩ args = .ok (invalid,after)) :
      Registering cfg squares platform entry log {st with rt := after.rt}
  | point {log : List Registration} {st : Registry} (run : Registering cfg squares platform entry log st)
      (incremental : cfg.incrementalReport = true) (curr : Option Str) (rid : UInt32) (totalCost : UInt64) (args : List Str) {invalid : Bool} {after : Merging UInt64}
      (ok : mergePoint squares ⟨st.rt,curr,rid,totalCost⟩ args = .ok (invalid,after)) :
      Registering cfg squares platform entry log {st with rt := after.rt}
  | exit {log : List Registration} {st : Registry} (run : Registering cfg squares platform entry log st)
      (fn : Str) (routine : Nat) (exit : Recorded) :
      Registering cfg squares platform entry log (recordInto cfg st fn routine exit)

end Aprof
