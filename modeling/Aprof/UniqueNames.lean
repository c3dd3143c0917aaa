import Aprof.ResolverBlocks
import Aprof.SingleLog

/-! Names and tuples are stored once. A table whose nodes have different names, each
under the hash of its name, finds every name by the walk along a chain, whatever
collides and however often the chains were moved. -/
namespace Aprof

open Relation

section
variable {D : Type}

def tupleName (tuple : Input D) : UInt64 × UInt64 := (tuple.inputSize,tuple.contextId)

/-- The key a tuple is stored under, with contexts or without. -/
def tupleHash (collect : Bool) (name : UInt64 × UInt64) : Nat :=
  if collect then (hash name.1.toUInt32 name.2.toUInt32).toNat else name.1.toNat

structure TupleTable (collect : Bool) (inputMap : HashTable (Input D)) : Prop where
  named : inputMap.Named tupleName (tupleHash collect)
  plain : collect = false → ∀ tuple ∈ inputMap.nodes, tuple.contextId = 0

/-- The look-up of `function_exit`. -/
def Recorded.look (collect : Bool) (exit : Recorded) (inputMap : HashTable (Input UInt64)) : Option (Input UInt64) :=
  htFind inputMap (if collect then (hash exit.act.inputSize exit.context).toUInt64 else exit.act.inputSize.toUInt64).toNat
    fun tuple => !collect || (tuple.contextId == exit.context.toUInt64 && tuple.inputSize == exit.act.inputSize.toUInt64)

/-- The tuple has the input size of the activation, and its context if contexts are collected. -/
def Recorded.Fits (collect : Bool) (exit : Recorded) (tuple : Input UInt64) : Prop :=
  tuple.inputSize = exit.act.inputSize.toUInt64 ∧ (collect = true → tuple.contextId = exit.context.toUInt64)

/-- An input map has one tuple for an input size, with contexts one for a size and a
context, and the exit of an activation with these finds it. -/
structure TuplesUnique (collect : Bool) (inputMap : HashTable (Input UInt64)) : Prop where
  distinct : (inputMap.nodes.map fun tuple => (tuple.inputSize,if collect then tuple.contextId else 0)).Nodup
  found : ∀ exit : Recorded, ∀ tuple ∈ inputMap.nodes, exit.Fits collect tuple → exit.look collect inputMap = some tuple

theorem htConstruct_tuples (collect : Bool) : TupleTable collect (htConstruct : HashTable (Input D)) := by
  refine ⟨⟨?_,?_⟩,fun _ => ?_⟩
  all_goals rw [htConstruct_nodes]
  · exact List.nodup_nil
  · exact fun node member => absurd member List.not_mem_nil
  · exact fun node member => absurd member List.not_mem_nil

theorem TupleTable.congr {collect : Bool} {inputMap other : HashTable (Input D)} (table : TupleTable collect inputMap)
    (same : other.nodes.map (fun tuple => (HashNode.key tuple,tupleName tuple)) =
      inputMap.nodes.map fun tuple => (HashNode.key tuple,tupleName tuple)) : TupleTable collect other := by
  refine ⟨table.named.congr same,fun separate tuple member => ?_⟩
  have inside := List.mem_map_of_mem (f := fun tuple => (HashNode.key tuple,tupleName tuple)) member
  rw [same] at inside
  obtain ⟨old,present,pair⟩ := List.mem_map.mp inside
  have context : old.contextId = tuple.contextId := congrArg (fun pair => pair.2.2) pair
  exact context.symm.trans (table.plain separate old present)

theorem TupleTable.find {inputMap : HashTable (Input D)} (table : TupleTable false inputMap) (size : UInt64) (tuple : Input D) :
    htFind inputMap size.toNat (fun _ => true) = some tuple ↔ tuple ∈ inputMap.nodes ∧ tuple.inputSize = size := by
  have sized : ∀ other, htFind inputMap size.toNat (fun _ => true) = some other →
      other ∈ inputMap.nodes ∧ other.inputSize = size := by
    intro other found
    have member := (htFind_some found).1
    have key := Buckets.find_first HashNode.key inputMap.chains _ other found
    exact ⟨member,UInt64.toNat_inj.mp ((table.named.hashed other member).symm.trans key)⟩
  constructor
  · exact sized tuple
  · rintro ⟨member,rfl⟩
    cases found : htFind inputMap tuple.inputSize.toNat fun _ => true with
    | none => exact absurd rfl (htFind_missing found member (table.named.hashed tuple member))
    | some other =>
      obtain ⟨inside,same⟩ := sized other found
      have context : other.contextId = tuple.contextId :=
        (table.plain rfl other inside).trans (table.plain rfl tuple member).symm
      rw [List.inj_on_of_nodup_map table.named.nodup inside member (Prod.ext same context)]

theorem TupleTable.sizes {inputMap : HashTable (Input D)} (table : TupleTable false inputMap) :
    (inputMap.nodes.map Input.inputSize).Nodup := by
  have names : inputMap.nodes.map tupleName = (inputMap.nodes.map Input.inputSize).map fun size => (size,0) := by
    rw [List.map_map]
    apply List.map_congr_left
    intro tuple member
    exact Prod.ext rfl (table.plain rfl tuple member)
  have nodup := table.named.nodup
  rw [names] at nodup
  exact nodup.of_map

theorem TupleTable.look {collect : Bool} {inputMap : HashTable (Input UInt64)} (table : TupleTable collect inputMap)
    (exit : Recorded) (tuple : Input UInt64) :
    exit.look collect inputMap = some tuple ↔ tuple ∈ inputMap.nodes ∧ exit.Fits collect tuple := by
  cases collect with
  | false =>
    have look := table.find exit.act.inputSize.toUInt64 tuple
    unfold Recorded.look Recorded.Fits
    simp only [Bool.not_false,Bool.true_or,Bool.false_eq_true,if_false,false_imp_iff,and_true]
    exact look
  | true =>
    have look := htFind_named table.named (exit.act.inputSize.toUInt64,exit.context.toUInt64) tuple
    have wanted : (fun tuple : Input UInt64 => !true || (tuple.contextId == exit.context.toUInt64 &&
        tuple.inputSize == exit.act.inputSize.toUInt64)) =
        fun tuple => tupleName tuple == (exit.act.inputSize.toUInt64,exit.context.toUInt64) := by
      funext tuple
      exact Bool.and_comm _ _
    have key : (hash exit.act.inputSize exit.context).toUInt64.toNat =
        tupleHash true (exit.act.inputSize.toUInt64,exit.context.toUInt64) := by
      simp [tupleHash]
    unfold Recorded.look Recorded.Fits
    rw [wanted,if_pos rfl,key,look]
    refine and_congr_right fun _ => ?_
    unfold tupleName
    rw [Prod.mk.injEq]
    exact and_congr_right fun _ => ⟨fun same _ => same,fun same => same rfl⟩

theorem TupleTable.unique {collect : Bool} {inputMap : HashTable (Input UInt64)} (table : TupleTable collect inputMap) :
    TuplesUnique collect inputMap := by
  refine ⟨?_,fun exit tuple member fits => (table.look exit tuple).mpr ⟨member,fits⟩⟩
  have names : (inputMap.nodes.map fun tuple => (tuple.inputSize,if collect then tuple.contextId else 0)) =
      inputMap.nodes.map tupleName := by
    apply List.map_congr_left
    intro tuple member
    cases collect with
    | true => rfl
    | false => exact Prod.ext rfl (table.plain rfl tuple member).symm
  rw [names]
  exact table.named.nodup

theorem Recorded.fresh_hashed (exit : Recorded) (cfg : Config) : HashNode.key (exit.add (exit.fresh cfg)) =
    tupleHash cfg.collectCCT (tupleName (exit.add (exit.fresh cfg))) := by
  change (exit.fresh cfg).key.toNat = tupleHash cfg.collectCCT ((exit.fresh cfg).inputSize,(exit.fresh cfg).contextId)
  unfold Recorded.fresh newTuple tupleHash
  cases cfg.collectCCT <;> simp

theorem TupleTable.into {cfg : Config} {inputMap : HashTable (Input UInt64)} (table : TupleTable cfg.collectCCT inputMap)
    (exit : Recorded) : TupleTable cfg.collectCCT (exit.into cfg inputMap) := by
  change TupleTable cfg.collectCCT (recordTuple cfg exit.act exit.context exit.cumul exit.self exit.outermost inputMap)
  unfold recordTuple
  dsimp only
  split
  · next found =>
    have missing : exit.look cfg.collectCCT inputMap = none := found
    have fits : ∀ other : Input UInt64, tupleName other = tupleName (exit.add (exit.fresh cfg)) →
        exit.Fits cfg.collectCCT other := by
      intro other same
      obtain ⟨size,context⟩ := Prod.mk.inj same
      refine ⟨size,fun collects => context.trans ?_⟩
      exact if_pos collects
    refine ⟨table.named.add (exit.fresh_hashed cfg) ?_,?_⟩
    · cases look : htFind inputMap _ _ with
      | none => rfl
      | some other =>
        obtain ⟨member,same⟩ := htFind_some look
        have present := (table.look exit other).mpr ⟨member,fits other (eq_of_beq same)⟩
        exact absurd (missing.symm.trans present) (Option.some_ne_none other).symm
    · intro separate other member
      rcases mem_htAddNode.mp member with rfl | old
      · exact if_neg (by rw [separate]; exact Bool.false_ne_true)
      · exact table.plain separate other old
  · exact table.congr (htUpdate_map inputMap _ _ exit.add (fun _ => rfl) _ fun _ => rfl)

end

theorem TupleTable.merge {D : Type} {squares : Squares D} {metric : InputMetric} {line : TupleLine}
    {inputMap merged : HashTable (Input D)} (table : TupleTable false inputMap)
    (ok : mergeInputMap squares metric line inputMap = .ok merged) : TupleTable false merged := by
  have same : ∀ {tuple new : Input D}, mergeInput squares metric line tuple = .ok new →
      new.key = tuple.key ∧ new.inputSize = tuple.inputSize ∧ new.contextId = tuple.contextId := by
    intro tuple new input
    obtain ⟨_,_,_,_,_,_,_,_,_,_,_,_,_,_,_,_,_,_,rfl⟩ := mergeInput_ok input
    exact ⟨rfl,rfl,rfl⟩
  unfold mergeInputMap at ok
  dsimp only at ok
  cases found : htFind inputMap line.inputSize.toNat fun _ => true with
  | some tuple =>
    rw [found] at ok
    obtain ⟨new,input,ok⟩ := bind_ok.mp ok
    cases ok
    obtain ⟨key,size,context⟩ := same input
    refine table.congr (htUpdate_map_found found _ ?_)
    exact Prod.ext rfl (Prod.ext size context)
  | none =>
    rw [found] at ok
    obtain ⟨new,input,ok⟩ := bind_ok.mp ok
    cases ok
    obtain ⟨key,size,context⟩ := same input
    have hashed : HashNode.key new = tupleHash false (tupleName new) := by
      change new.key.toNat = new.inputSize.toNat
      rw [key,size]
      rfl
    refine ⟨table.named.add hashed ?_,?_⟩
    · cases look : htFind inputMap (tupleHash false (tupleName new)) fun other => tupleName other == tupleName new with
      | none => rfl
      | some other =>
        obtain ⟨member,equal⟩ := htFind_some look
        have sized : other.inputSize = line.inputSize := (congrArg Prod.fst (eq_of_beq equal)).trans size
        exact absurd ((table.find line.inputSize other).mpr ⟨member,sized⟩) (found ▸ nofun)
    · intro separate other member
      rcases mem_htAddNode.mp member with rfl | old
      · exact context
      · exact table.plain separate other old

inductive LineStep {D : Type} (squares : Squares D) (inputMap : HashTable (Input D)) : HashTable (Input D) → Prop where
  | same : LineStep squares inputMap inputMap
  | line {merged : HashTable (Input D)} (metric : InputMetric) (line : TupleLine)
      (ok : mergeInputMap squares metric line inputMap = .ok merged) : LineStep squares inputMap merged

theorem LineStep.table {D : Type} {squares : Squares D} {inputMap after : HashTable (Input D)}
    (table : TupleTable false inputMap) (step : LineStep squares inputMap after) : TupleTable false after := by
  cases step with
  | same => exact table
  | line metric line ok => exact table.merge ok

/-- What can happen to the input map of a function in the tool. -/
inductive MapStep (cfg : Config) (squares : Squares UInt64) (inputMap : HashTable (Input UInt64)) :
    HashTable (Input UInt64) → Prop where
  | same : MapStep cfg squares inputMap inputMap
  | line {merged : HashTable (Input UInt64)} (incremental : cfg.incrementalReport = true)
      (step : LineStep squares inputMap merged) : MapStep cfg squares inputMap merged
  | exit (exit : Recorded) : MapStep cfg squares inputMap (exit.into cfg inputMap)

structure TablesNamed (cfg : Config) (st : Registry) : Prop where
  functions : st.rt.Named
  objects : st.rt.ObjectsNamed
  shared : ∀ fn ∈ st.rt.fnHt.nodes, TupleTable cfg.collectCCT fn.inputMap
  own : ∀ routine, TupleTable cfg.collectCCT (st.inputMaps routine)

/-- No name is stored twice, and every look-up by name finds what is stored. -/
structure NamesOnce {D : Type} (rt : Profile D) : Prop where
  functions : (rt.fnHt.nodes.map Function.name).Nodup
  objects : (rt.objHt.nodes.map Object.name).Nodup
  functionFound : ∀ fn ∈ rt.fnHt.nodes, findFunction rt fn.name = some fn
  objectFound : ∀ obj ∈ rt.objHt.nodes, findObject rt obj.name = some obj

/-- The same for every input map, and each exit finds the tuple it belongs to. -/
structure StoredOnce (cfg : Config) (st : Registry) : Prop extends NamesOnce st.rt where
  functionTuples : ∀ fn ∈ st.rt.fnHt.nodes, TuplesUnique cfg.collectCCT fn.inputMap
  routineTuples : ∀ routine, TuplesUnique cfg.collectCCT (st.inputMaps routine)

theorem namesOnce {D : Type} {rt : Profile D} (functions : rt.Named) (objects : rt.ObjectsNamed) : NamesOnce rt where
  functions := functions.nodup
  objects := objects.nodup
  functionFound fn member := (htFind_named functions fn.name fn).mpr ⟨member,rfl⟩
  objectFound obj member := (htFind_named objects obj.name obj).mpr ⟨member,rfl⟩

theorem TablesNamed.storedOnce {cfg : Config} {st : Registry} (tables : TablesNamed cfg st) : StoredOnce cfg st where
  toNamesOnce := namesOnce tables.functions tables.objects
  functionTuples fn member := (tables.shared fn member).unique
  routineTuples routine := (tables.own routine).unique

/-- Lines `r` and `p` in the helper. -/
inductive HelperLines {D : Type} (squares : Squares D) : Profile D → Prop where
  | start (rt : Profile D) : HelperLines squares {rt with fnHt := htConstruct, objHt := htConstruct}
  | routine {state after : HelperMerging D} (run : HelperLines squares state.rt) (args : List Str) {invalid : Bool}
      (ok : Helper.mergeRoutine state args = .ok (invalid,after)) : HelperLines squares after.rt
  | point {state after : HelperMerging D} (run : HelperLines squares state.rt) (args : List Str) {invalid : Bool}
      (ok : Helper.mergePoint squares state args = .ok (invalid,after)) : HelperLines squares after.rt

namespace Helper

section
variable {D : Type} {R : HashTable (Input D) → HashTable (Input D) → Prop} {S : Str → Prop} {unique : Prop}
  {squares : Squares D} {state after : HelperMerging D} {args : List Str} {invalid : Bool}

theorem mergeRoutine_steps (same : ∀ map, R map map) (ok : mergeRoutine state args = .ok (invalid,after)) :
    ReflTransGen (ProfileStep R S unique) state.rt after.rt := by
  obtain ⟨extraCost,_,ok⟩ := bind_ok.mp ok
  obtain ⟨⟨name,_⟩,_,ok⟩ := bind_ok.mp ok
  obtain ⟨⟨objName,_⟩,_,ok⟩ := bind_ok.mp ok
  obtain ⟨⟨id,_⟩,_,ok⟩ := bind_ok.mp ok
  cases ok
  exact routine_steps same extraCost name objName

theorem mergePoint_steps (merges : ∀ metric line map map', mergeInputMap squares metric line map = .ok map' → R map map')
    (ok : mergePoint squares state args = .ok (invalid,after)) :
    ReflTransGen (ProfileStep R S unique) state.rt after.rt := by
  obtain ⟨⟨id,rest⟩,_,ok⟩ := bind_ok.mp ok
  obtain ⟨_,_,ok⟩ := bind_ok.mp ok
  obtain ⟨line,_,ok⟩ := bind_ok.mp ok
  cases current : state.curr with
  | none =>
    simp only [current] at ok
    cases ok
  | some name =>
    cases found : findFunction state.rt name with
    | none =>
      simp only [current,found] at ok
      cases ok
    | some fn =>
      simp only [current,found] at ok
      obtain ⟨inputMap,merged,ok⟩ := bind_ok.mp ok
      cases stored : htFind inputMap line.inputSize.toNat fun _ => true with
      | none =>
        simp only [stored] at ok
        cases ok
      | some input =>
        simp only [stored] at ok
        obtain ⟨totalCalls,_,ok⟩ := bind_ok.mp ok
        obtain ⟨_,_,ok⟩ := bind_ok.mp ok
        obtain ⟨_,_,ok⟩ := bind_ok.mp ok
        cases ok
        exact .single (.change found _ _ (fun _ => rfl) (merges _ _ _ _ merged) Or.inl)

end

end Helper

theorem HelperLines.tables {D : Type} {squares : Squares D} {rt : Profile D} (run : HelperLines squares rt) :
    rt.Named ∧ rt.ObjectsNamed ∧ ∀ fn ∈ rt.fnHt.nodes, TupleTable false fn.inputMap := by
  have kept : ∀ {rt after : Profile D}, ReflTransGen (ProfileStep (LineStep squares) (fun _ => False) True) rt after →
      (rt.Named ∧ rt.ObjectsNamed ∧ ∀ fn ∈ rt.fnHt.nodes, TupleTable false fn.inputMap) →
      after.Named ∧ after.ObjectsNamed ∧ ∀ fn ∈ after.fnHt.nodes, TupleTable false fn.inputMap := by
    intro rt after steps ⟨functions,objects,tables⟩
    obtain ⟨functions',objects'⟩ := steps_named steps trivial functions objects
    exact ⟨functions',objects',
      steps_maps steps (fun _ => .same) (htConstruct_tuples false) (fun _ _ table step => step.table table) tables⟩
  induction run with
  | start rt => exact ⟨named_empty rfl,objectsNamed_empty rfl,fun fn member => absurd member (by simp)⟩
  | routine run args ok ih => exact kept (Helper.mergeRoutine_steps (fun _ => .same) ok) ih
  | point run args ok ih =>
    exact kept (Helper.mergePoint_steps (fun metric line _ _ merged => .line metric line merged) ok) ih

section
variable {cfg : Config} {squares : Squares UInt64} {platform : Platform} {st : Registry} {info : BlockInfo}
  (accepted : cmdLine cfg = true)
include accepted

theorem MapStep.table {inputMap after : HashTable (Input UInt64)} (table : TupleTable cfg.collectCCT inputMap)
    (step : MapStep cfg squares inputMap after) : TupleTable cfg.collectCCT after := by
  cases step with
  | same => exact table
  | line incremental step =>
    have separate : cfg.collectCCT = false := by
      unfold cmdLine at accepted
      rw [incremental] at accepted
      simpa using accepted
    rw [separate] at table ⊢
    exact step.table table
  | exit exit => exact table.into exit

theorem TablesNamed.steps {unique : Prop} {S : Str → Prop} (tables : TablesNamed cfg st) {after : Registry} (holds : unique)
    (steps : ReflTransGen (ProfileStep (MapStep cfg squares) S unique) st.rt after.rt)
    (own : ∀ routine, TupleTable cfg.collectCCT (after.inputMaps routine)) : TablesNamed cfg after := by
  obtain ⟨functions,objects⟩ := steps_named steps holds tables.functions tables.objects
  refine ⟨functions,objects,?_,own⟩
  exact steps_maps steps (fun _ => .same) (htConstruct_tuples _) (fun _ _ table step => MapStep.table accepted table step)
    tables.shared

theorem Registering.tablesNamed {log : List Registration}
    (run : Registering cfg squares platform (Registry.Looked platform) log st) : TablesNamed cfg st := by
  induction run with
  | start rt =>
    exact ⟨named_empty rfl,objectsNamed_empty rfl,fun fn member => absurd member (by simp [emptyRegistry]),
      fun _ => htConstruct_tuples _⟩
  | @block log st run info permitted ih =>
    have steps := @newBlock_steps (MapStep cfg squares) platform st info fun _ => .same
    exact ih.steps accepted permitted steps ih.own
  | routine run incremental curr rid totalCost args ok ih =>
    have steps := @mergeRoutine_steps _ (MapStep cfg squares) (fun _ => False) True _ _ _ _ (fun _ => .same) ok
    exact ih.steps accepted trivial steps ih.own
  | point run incremental curr rid totalCost args ok ih =>
    have steps := @mergePoint_steps _ (MapStep cfg squares) (fun _ => False) True _ _ _ _ _
      (fun metric line _ _ merged => .line incremental (.line metric line merged)) ok
    exact ih.steps accepted trivial steps ih.own
  | @exit log st run fn routine exit ih =>
    have steps := @recordInto_steps (MapStep cfg squares) st (fun _ => False) True cfg (fun exit _ => .exit exit)
      fn routine exit
    refine ih.steps accepted trivial steps fun other => ?_
    unfold recordInto
    split
    · exact ih.own other
    · split
      · exact ih.own other
      · split
        · exact ih.own other
        · dsimp only
          rw [Function.update_apply]
          split
          · exact (ih.own routine).into exit
          · exact ih.own other

omit accepted in
theorem escaped_twice (nodup : ((st.newBlock platform info).rt.fnHt.nodes.map Function.name).Nodup)
    (first : st.firstLook info = none) (same : Registry.firstHash info = strHash (st.blockName platform info)) :
    findFunction st.rt (st.blockName platform info) = none := by
  cases present : findFunction st.rt (st.blockName platform info) with
  | none => rfl
  | some f =>
    obtain ⟨member,named⟩ := htFind_some present
    have missing : st.found platform info = none := by
      refine Option.or_eq_none_iff.mpr ⟨first,?_⟩
      exact if_neg (not_not.mpr same)
    unfold Registry.newBlock Registry.functionStep at nodup
    rw [missing] at nodup
    dsimp only at nodup
    have perm := (htAddNode_perm (st.objectStep info).1.fnHt (blockFunction (st.objectStep info).1 info
      (st.blockName platform info) (st.knownName platform info).isNone (st.objectStep info).2
      (st.isDlRuntimeResolve platform info))).map Function.name
    have apart := (List.nodup_cons.mp (perm.nodup_iff.mp nodup)).1
    rw [objectStep_functions] at apart
    refine absurd ?_ apart
    change st.blockName platform info ∈ _
    rw [← eq_of_beq named]
    exact List.mem_map_of_mem member

omit accepted in
theorem looked_of_nodup (nodup : ((st.newBlock platform info).rt.fnHt.nodes.map Function.name).Nodup) :
    st.Looked platform info := by
  intro first
  constructor
  · intro renamed same
    rw [← blockName_renamed renamed] at same ⊢
    exact escaped_twice nodup first same
  · intro kept unnamed zero
    have name : st.blockName platform info = info.addressName := by
      rw [blockName_kept kept,unnamed]
      rfl
    rw [← name] at zero ⊢
    refine escaped_twice nodup first ?_
    unfold Registry.firstHash
    rw [unnamed]
    exact zero.symm

/-- In every run in which no block gets a name that escapes the second look-up, the
tables store every name and every tuple once and find it; and after the next block
they still do if and only if its name does not escape either. The helper, which has
no blocks, stores every name and every tuple once in every run. -/
theorem stored_once_iff {log : List Registration}
    (run : Registering cfg squares platform (Registry.Looked platform) log st) : StoredOnce cfg st ∧
      (∀ info, StoredOnce cfg (st.newBlock platform info) ↔ st.Looked platform info) ∧
      ∀ {D : Type} (squares : Squares D) (rt : Profile D), HelperLines squares rt → NamesOnce rt ∧
        ∀ fn ∈ rt.fnHt.nodes, (fn.inputMap.nodes.map Input.inputSize).Nodup := by
  refine ⟨(run.tablesNamed accepted).storedOnce,fun info => ⟨fun once => looked_of_nodup once.functions,fun looked => ?_⟩,?_⟩
  · exact ((run.block info looked).tablesNamed accepted).storedOnce
  · intro D squares rt lines
    obtain ⟨functions,objects,tables⟩ := lines.tables
    exact ⟨namesOnce functions objects,fun fn member => (tables fn member).sizes⟩

end

/-- The tables when a block without a name has been found to be the resolver. -/
def resolverRegistered : Registry := mainRegistered.newBlock .amd64Linux (linkerBlock 0x4010 none)

theorem stored_once_renamed : ∃ log st, Registering (smallConfig .rms) toolSquares .amd64Linux (Registry.Looked .amd64Linux) log st ∧
    log.length = 2 ∧ StoredOnce (smallConfig .rms) st := by
  have first : Registry.Looked .amd64Linux (emptyRegistry freshProfile) mainBlock := by
    intro _
    exact ⟨fun renamed => absurd renamed (by decide +kernel),fun _ unnamed => absurd unnamed (by decide +kernel)⟩
  have second : Registry.Looked .amd64Linux mainRegistered (linkerBlock 0x4010 none) := by
    intro _
    exact ⟨fun _ collides => absurd collides (by decide +kernel),fun kept => absurd kept (by decide +kernel)⟩
  have run : Registering (smallConfig .rms) toolSquares .amd64Linux (Registry.Looked .amd64Linux)
      [⟨mainRegistered,linkerBlock 0x4010 none⟩,⟨emptyRegistry freshProfile,mainBlock⟩] resolverRegistered :=
    .block (.block (.start freshProfile) mainBlock first) (linkerBlock 0x4010 none) second
  exact ⟨_,_,run,rfl,(stored_once_iff rfl run).1⟩

/-- A block of the resolver whose own name has the hash of the name it is given: the
function of the resolver is added a second time. -/
theorem resolver_stored_twice : ∃ log st, Registering (smallConfig .rms) toolSquares .amd64Linux (fun _ _ => True) log st ∧
    ¬StoredOnce (smallConfig .rms) st := by
  have run : Registering (smallConfig .rms) toolSquares .amd64Linux (fun _ _ => True)
      [⟨resolverRegistered,linkerBlock 0x4020 (some "_eM_runtime_resolve".toList)⟩,⟨mainRegistered,linkerBlock 0x4010 none⟩,
        ⟨emptyRegistry freshProfile,mainBlock⟩]
      (resolverRegistered.newBlock .amd64Linux (linkerBlock 0x4020 (some "_eM_runtime_resolve".toList))) :=
    .block (.block (.block (.start freshProfile) mainBlock trivial) (linkerBlock 0x4010 none) trivial) _ trivial
  refine ⟨_,_,run,fun once => ?_⟩
  have twice : ¬((resolverRegistered.newBlock .amd64Linux (linkerBlock 0x4020 (some "_eM_runtime_resolve".toList))).rt.fnHt.nodes.map
      Function.name).Nodup := by decide +kernel
  exact twice once.functions

end Aprof
