import Aprof.Aggregates
import Aprof.Registration

/-! What one operation can do to the tables of functions and objects, whether it is a
block, a line of a report or the exit of a function. Every invariant of the tables
comes from this. -/
namespace Aprof

open Relation

/-- An input map changes by `R`, the flag `skip` is set for the names in `S`, and a
function that is added has a new name if `unique` holds. -/
inductive ProfileStep {D : Type} (R : HashTable (Input D) → HashTable (Input D) → Prop) (S : Str → Prop) (unique : Prop)
    (rt : Profile D) : Profile D → Prop where
  | rest {after : Profile D} (functions : after.fnHt = rt.fnHt) (objects : after.objHt = rt.objHt) :
      ProfileStep R S unique rt after
  | object {after : Profile D} (objName : Str) (missing : findObject rt objName = none)
      (functions : after.fnHt = rt.fnHt) (objects : after.objHt = htAddNode rt.objHt ⟨strHash objName,objName⟩) :
      ProfileStep R S unique rt after
  | function {after : Profile D} (fn : Function D) (hashed : fn.key = strHash fn.name) (empty : fn.inputMap = htConstruct)
      (skips : fn.skip = true → S fn.name) (missing : unique → findFunction rt fn.name = none)
      (functions : after.fnHt = htAddNode rt.fnHt fn) (objects : after.objHt = rt.objHt) :
      ProfileStep R S unique rt after
  | change {name : Str} {f : Function D} (found : findFunction rt name = some f) (change : Function D → Function D)
      (keeps : ∀ fn, HashNode.key (change fn) = HashNode.key fn) (names : ∀ fn, (change fn).name = fn.name)
      (map : R f.inputMap (change f).inputMap) (skips : (change f).skip = true → f.skip = true ∨ S name) :
      ProfileStep R S unique rt (setFunction rt name change keeps)

section
variable {D : Type} {R : HashTable (Input D) → HashTable (Input D) → Prop} {S : Str → Prop} {unique : Prop}
  {rt after : Profile D}

/-- The objects have different names, each stored under the hash of its name. -/
def Profile.ObjectsNamed (rt : Profile D) : Prop := rt.objHt.Named Object.name fun name => (strHash name).toNat

theorem named_empty (empty : rt.fnHt = htConstruct) : rt.Named := by
  unfold Profile.Named
  rw [empty]
  constructor
  · rw [htConstruct_nodes]
    exact List.nodup_nil
  · exact fun node member => absurd member (by simp)

theorem objectsNamed_empty (empty : rt.objHt = htConstruct) : rt.ObjectsNamed := by
  unfold Profile.ObjectsNamed
  rw [empty]
  constructor
  · rw [htConstruct_nodes]
    exact List.nodup_nil
  · exact fun node member => absurd member (by simp)

theorem ProfileStep.named (step : ProfileStep R S unique rt after) (holds : unique) (named : rt.Named) : after.Named := by
  unfold Profile.Named at *
  cases step with
  | rest functions objects => exact functions ▸ named
  | object objName missing functions objects => exact functions ▸ named
  | function fn hashed empty skips missing functions objects =>
    rw [functions]
    exact named.add (congrArg UInt32.toNat hashed) (missing holds)
  | change found change keeps names map skips => exact named.update _ _ _ keeps names

theorem ProfileStep.objectsNamed (step : ProfileStep R S unique rt after) (named : rt.ObjectsNamed) : after.ObjectsNamed := by
  unfold Profile.ObjectsNamed at *
  cases step with
  | rest functions objects => exact objects ▸ named
  | object objName missing functions objects =>
    rw [objects]
    exact HashTable.Named.add named rfl missing
  | function fn hashed empty skips missing functions objects => exact objects ▸ named
  | change found change keeps names map skips => exact named

theorem ProfileStep.nodes (step : ProfileStep R S unique rt after) (same : ∀ map, R map map) {fn : Function D}
    (member : fn ∈ after.fnHt.nodes) : (fn.inputMap = htConstruct ∧ (fn.skip = true → S fn.name)) ∨
      ∃ f ∈ rt.fnHt.nodes, fn.name = f.name ∧ R f.inputMap fn.inputMap ∧ (fn.skip = true → f.skip = true ∨ S f.name) := by
  have kept : fn ∈ rt.fnHt.nodes → ∃ f ∈ rt.fnHt.nodes, fn.name = f.name ∧ R f.inputMap fn.inputMap ∧
      (fn.skip = true → f.skip = true ∨ S f.name) := fun inside => ⟨fn,inside,rfl,same _,Or.inl⟩
  cases step with
  | rest functions objects => exact Or.inr (kept (functions ▸ member))
  | object objName missing functions objects => exact Or.inr (kept (functions ▸ member))
  | function added hashed empty skips missing functions objects =>
    rw [functions] at member
    rcases mem_htAddNode.mp member with rfl | inside
    · exact Or.inl ⟨empty,skips⟩
    · exact Or.inr (kept inside)
  | @change name f found change keeps names map skips =>
    right
    obtain ⟨before,rest,nodes,changed⟩ := @htUpdate_split _ _ _ _ _ change keeps _ found
    have own : f.name = name := eq_of_beq (htFind_some found).2
    change fn ∈ (htUpdate rt.fnHt _ _ change keeps).nodes at member
    rw [changed] at member
    rcases List.mem_append.mp member with inside | inside
    · exact kept (nodes ▸ List.mem_append_left _ inside)
    · rcases List.mem_cons.mp inside with rfl | inside
      · refine ⟨f,nodes ▸ List.mem_append_right _ List.mem_cons_self,names f,map,?_⟩
        rw [own]
        exact skips
      · exact kept (nodes ▸ List.mem_append_right _ (List.mem_cons_of_mem _ inside))

theorem steps_named (steps : ReflTransGen (ProfileStep R S unique) rt after) (holds : unique) (named : rt.Named)
    (objects : rt.ObjectsNamed) : after.Named ∧ after.ObjectsNamed := by
  induction steps with
  | refl => exact ⟨named,objects⟩
  | tail first step ih => exact ⟨step.named holds ih.1,step.objectsNamed ih.2⟩

theorem steps_maps (steps : ReflTransGen (ProfileStep R S unique) rt after) (same : ∀ map, R map map)
    {P : HashTable (Input D) → Prop} (empty : P htConstruct) (keeps : ∀ map map', P map → R map map' → P map')
    (holds : ∀ fn ∈ rt.fnHt.nodes, P fn.inputMap) : ∀ fn ∈ after.fnHt.nodes, P fn.inputMap := by
  induction steps with
  | refl => exact holds
  | tail first step ih =>
    intro fn member
    rcases step.nodes same member with ⟨fresh,-⟩ | ⟨f,inside,-,map,-⟩
    · exact fresh ▸ empty
    · exact keeps _ _ (ih f inside) map

theorem steps_skips (steps : ReflTransGen (ProfileStep R S unique) rt after) (same : ∀ map, R map map) {Q : Str → Prop}
    (holds : ∀ fn ∈ rt.fnHt.nodes, fn.skip = true → Q fn.name) :
    ∀ fn ∈ after.fnHt.nodes, fn.skip = true → Q fn.name ∨ S fn.name := by
  induction steps with
  | refl => exact fun fn member skipped => Or.inl (holds fn member skipped)
  | tail first step ih =>
    intro fn member skipped
    rcases step.nodes same member with ⟨-,new⟩ | ⟨f,inside,named,-,flag⟩
    · exact Or.inr (new skipped)
    · rw [named]
      exact (flag skipped).elim (ih f inside) Or.inr

theorem searchFunction_step (name : Str) : ProfileStep R S unique rt (searchFunction rt name) := by
  unfold searchFunction
  split
  · exact .rest rfl rfl
  · next missing => exact .function (freshFunction name rt.nextFunctionId) rfl rfl nofun (fun _ => missing) rfl rfl

theorem searchObject_steps (same : ∀ map, R map map) (name objName : Str) :
    ReflTransGen (ProfileStep R S unique) rt (searchObject rt name objName) := by
  unfold searchObject
  split
  · exact .refl
  · next fn found =>
    split
    · exact .refl
    · split
      · exact .single (.change found _ _ (fun _ => rfl) (same _) Or.inl)
      · next missing =>
        have added : ProfileStep R S unique rt {rt with objHt := htAddNode rt.objHt ⟨strHash objName,objName⟩} :=
          .object objName missing rfl rfl
        have again : findFunction {rt with objHt := htAddNode rt.objHt ⟨strHash objName,objName⟩} name = some fn := found
        exact .tail (.single added) (.change again _ _ (fun _ => rfl) (same _) Or.inl)

/-- What a line `r` does to the tables. -/
theorem routine_steps (same : ∀ map, R map map) (extraCost : UInt64) (name objName : Str) :
    ReflTransGen (ProfileStep R S unique) rt (searchObject (searchFunction {rt with extraCost := extraCost} name) name objName) := by
  have counted : ProfileStep R S unique rt {rt with extraCost := extraCost} := .rest rfl rfl
  exact (ReflTransGen.single counted).trans (.head (searchFunction_step name) (searchObject_steps same name objName))

theorem mergeRoutine_steps {state after : Merging D} {args : List Str} {invalid : Bool} (same : ∀ map, R map map)
    (ok : mergeRoutine state args = .ok (invalid,after)) : ReflTransGen (ProfileStep R S unique) state.rt after.rt := by
  obtain ⟨extraCost,_,ok⟩ := bind_ok.mp ok
  obtain ⟨⟨name,_⟩,_,ok⟩ := bind_ok.mp ok
  obtain ⟨⟨objName,_⟩,_,ok⟩ := bind_ok.mp ok
  obtain ⟨⟨id,_⟩,_,ok⟩ := bind_ok.mp ok
  obtain ⟨-,rfl⟩ := accept_ok ok
  exact routine_steps same extraCost name objName

theorem mergePoint_steps {squares : Squares D} {state after : Merging D} {args : List Str} {invalid : Bool}
    (merges : ∀ metric line map map', mergeInputMap squares metric line map = .ok map' → R map map')
    (ok : mergePoint squares state args = .ok (invalid,after)) :
    ReflTransGen (ProfileStep R S unique) state.rt after.rt := by
  obtain ⟨⟨id,rest⟩,_,ok⟩ := bind_ok.mp ok
  obtain ⟨_,_,ok⟩ := bind_ok.mp ok
  obtain ⟨line,_,ok⟩ := bind_ok.mp ok
  cases current : state.curr with
  | none =>
    simp only [current] at ok
    cases ok
  | some name =>
    cases found : findFunction state.rt name with
    | none =>
      simp only [current,found] at ok
      cases ok
    | some fn =>
      simp only [current,found] at ok
      obtain ⟨inputMap,merged,ok⟩ := bind_ok.mp ok
      obtain ⟨-,rfl⟩ := accept_ok ok
      exact .single (.change found _ _ (fun _ => rfl) (merges _ _ _ _ merged) Or.inl)

end

/-- The condition under which `BB_start` does not add a function that is there. When no
function has the name Valgrind gives, the block may get another one: that of the
resolver or its address. Then the hash that name has is not the one compared with
it, or no function has the name. -/
def Registry.Looked (platform : Platform) (st : Registry) (info : BlockInfo) : Prop :=
  st.firstLook info = none →
    (st.renamed platform info = true → Registry.firstHash info = strHash resolverName →
      findFunction st.rt resolverName = none) ∧
    (st.renamed platform info = false → info.name = none → strHash info.addressName = 0 →
      findFunction st.rt info.addressName = none)

section
variable {R : HashTable (Input UInt64) → HashTable (Input UInt64) → Prop} {platform : Platform} {st : Registry}
  {info : BlockInfo}

theorem blockName_renamed (renamed : st.renamed platform info = true) : st.blockName platform info = resolverName := by
  unfold Registry.blockName Registry.knownName
  rw [renamed]
  rfl

theorem blockName_kept (kept : st.renamed platform info = false) :
    st.blockName platform info = info.name.getD info.addressName := by
  unfold Registry.blockName Registry.knownName
  rw [kept]
  rfl

theorem secondLook_none (missing : st.secondLook platform info = none) :
    Registry.firstHash info = strHash (st.blockName platform info) ∨ findFunction st.rt (st.blockName platform info) = none := by
  unfold Registry.secondLook at missing
  split at missing
  · exact Or.inr missing
  · next same => exact Or.inl (not_not.mp same)

theorem found_none (missing : st.found platform info = none) (looked : st.Looked platform info) :
    findFunction st.rt (st.blockName platform info) = none := by
  obtain ⟨first,second⟩ := Option.or_eq_none_iff.mp missing
  rcases secondLook_none second with same | none
  · cases renamed : st.renamed platform info with
    | true =>
      rw [blockName_renamed renamed] at same ⊢
      exact (looked first).1 renamed same
    | false =>
      rw [blockName_kept renamed] at same ⊢
      unfold Registry.firstLook at first
      unfold Registry.firstHash at same
      cases named : info.name with
      | some name =>
        rw [named] at first
        exact first
      | none =>
        rw [named] at same
        exact (looked (by unfold Registry.firstLook; rw [named]; rfl)).2 renamed named same.symm
  · exact none

theorem objectStep_step {S : Str → Prop} {unique : Prop} : ProfileStep R S unique st.rt (st.objectStep info).1 := by
  unfold Registry.objectStep
  split
  · unfold registerObject
    split
    · exact .rest rfl rfl
    · next objName _ =>
      split
      · exact .rest rfl rfl
      · next missing => exact .object objName missing rfl rfl
  · exact .rest rfl rfl

theorem objectStep_functions : (st.objectStep info).1.fnHt = st.rt.fnHt := by
  unfold Registry.objectStep registerObject
  split
  · split
    · rfl
    · split <;> rfl
  · rfl

theorem findFunction_objectStep (name : Str) : findFunction (st.objectStep info).1 name = findFunction st.rt name := by
  unfold findFunction
  rw [objectStep_functions]

theorem found_some {f : Function UInt64} (found : st.found platform info = some f) : findFunction st.rt f.name = some f := by
  have self : ∀ name, findFunction st.rt name = some f → findFunction st.rt f.name = some f := by
    intro name look
    have same : f.name = name := eq_of_beq (htFind_some look).2
    rw [same]
    exact look
  rcases Option.or_eq_some_iff.mp found with first | ⟨-,second⟩
  · obtain ⟨name,-,look⟩ := Option.bind_eq_some_iff.mp first
    exact self name look
  · unfold Registry.secondLook at second
    split at second
    · exact self _ second
    · cases second

theorem newBlock_steps (same : ∀ map, R map map) : ReflTransGen (ProfileStep R
    (fun name => st.isDlRuntimeResolve platform info = true ∧ name = (st.block platform info).fn) (st.Looked platform info))
    st.rt (st.newBlock platform info).rt := by
  refine .head (@objectStep_step R st info _ _) ?_
  unfold Registry.newBlock Registry.block Registry.functionStep
  dsimp only
  cases found : st.found platform info with
  | some f =>
    dsimp only
    split
    · next flagged =>
      have look : findFunction (st.objectStep info).1 f.name = some f := (findFunction_objectStep _).trans (found_some found)
      exact .single (.change look _ _ (fun _ => rfl) (same _) fun _ => Or.inr ⟨flagged,rfl⟩)
    · exact .refl
  | none =>
    dsimp only
    refine .single (.function (blockFunction _ info (st.blockName platform info) _ _ _) rfl rfl (fun flagged => ⟨flagged,rfl⟩)
      (fun looked => ?_) rfl rfl)
    exact (findFunction_objectStep _).trans (found_none found looked)

theorem recordInto_steps {S : Str → Prop} {unique : Prop} {cfg : Config}
    (records : ∀ (exit : Recorded) map, R map (exit.into cfg map)) (fn : Str) (routine : Nat) (exit : Recorded) : ReflTransGen (ProfileStep R S unique) st.rt (recordInto cfg st fn routine exit).rt := by
  unfold recordInto
  split
  · exact .refl
  · next f found =>
    split
    · exact .refl
    · split
      · exact .single (.change found _ _ (fun _ => rfl) (records exit _) Or.inl)
      · exact .refl

end

end Aprof
