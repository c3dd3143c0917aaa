import Aprof.Calls
import Aprof.Erasure

/-! What memory accesses leave alone. They count inputs and move timestamps; the
stack, the costs, the routines and the context tree, the control part of a
thread, stay as they are. -/
namespace Aprof

open Lockstep

def Activation.control (act : Activation) : Activation :=
  {act with activationId := 0, inputSize := 0, cumulSyscall := 0, cumulThread := 0, selfSyscall := 0, selfThread := 0}

def ThreadData.control (tdata : ThreadData) : ThreadData :=
  {tdata with
    shadowMemory := blankTable
    nextActivationId := 0
    stack := fun i => (tdata.stack i).control}

theorem control_erase (tdata : ThreadData) : tdata.erase.control = tdata.control := rfl

theorem control_of_erase {tdata after : ThreadData} (same : after.erase = tdata.erase) : after.control = tdata.control := by
  rw [← control_erase,same,control_erase]

structure ControlFields (tdata after : ThreadData) : Prop where
  depth : after.stackDepth = tdata.stackDepth
  skip : after.skip = tdata.skip
  cost : after.cost = tdata.cost
  skipCost : after.skipCost = tdata.skipCost
  routines : after.rtnHt = tdata.rtnHt
  root : after.root = tdata.root
  next : after.nextContextId = tdata.nextContextId
  slots : ∀ i, (after.stack i).control = (tdata.stack i).control

theorem control_fields {tdata after : ThreadData} (same : after.control = tdata.control) : ControlFields tdata after where
  depth := by have kept := congrArg ThreadData.stackDepth same; exact kept
  skip := by have kept := congrArg ThreadData.skip same; exact kept
  cost := by have kept := congrArg ThreadData.cost same; exact kept
  skipCost := by have kept := congrArg ThreadData.skipCost same; exact kept
  routines := by have kept := congrArg ThreadData.rtnHt same; exact kept
  root := by have kept := congrArg ThreadData.root same; exact kept
  next := by have kept := congrArg ThreadData.nextContextId same; exact kept
  slots := fun i => by have kept := congrArg (fun base : ThreadData => base.stack i) same; exact kept

section
variable {tdata after : ThreadData} (fields : ControlFields tdata after) (i : Nat)
include fields

theorem ControlFields.routineInfo : (after.stack i).routineInfo = (tdata.stack i).routineInfo := by
  have kept := congrArg Activation.routineInfo (fields.slots i)
  exact kept

theorem ControlFields.start : (after.stack i).start = (tdata.stack i).start := by
  have kept := congrArg Activation.start (fields.slots i)
  exact kept

theorem ControlFields.sumChildrenCost : (after.stack i).sumChildrenCost = (tdata.stack i).sumChildrenCost := by
  have kept := congrArg Activation.sumChildrenCost (fields.slots i)
  exact kept

theorem ControlFields.node : (after.stack i).node = (tdata.stack i).node := by
  have kept := congrArg Activation.node (fields.slots i)
  exact kept

theorem ControlFields.counted {cfg : Config} (counted : SkipCounted cfg tdata) :
    SkipCounted cfg after ∧ recordedDepth cfg after = recordedDepth cfg tdata :=
  counted.congr fields.skip fields.depth fun i _ => fields.routineInfo i

end

theorem control_setSlot (tdata : ThreadData) (i : Nat) (f : Activation → Activation)
    (counts : ∀ act, (f act).control = act.control) : (tdata.setSlot i f).control = tdata.control := by
  have stack : (fun j => ((tdata.setSlot i f).stack j).control) = tdata.control.stack := by
    ext1 j
    simp only [ThreadData.setSlot,ThreadData.control,Function.update_apply]
    split
    · next same =>
      subst same
      exact counts _
    · rfl
  simp only [ThreadData.control,stack]
  rfl

theorem control_setTop (tdata : ThreadData) (f : Activation → Activation)
    (counts : ∀ act, (f act).control = act.control) : (tdata.setTop f).control = tdata.control :=
  control_setSlot tdata _ f counts

section
variable {c : Counter} {cfg : Config}

theorem accessCellRms_control {type : AccessType} {tdata after : ThreadData} {addr : Nat}
    (ok : accessCellRms type tdata addr = .ok after) : after.control = tdata.control := by
  obtain ⟨⟨oldAid,shadow⟩,_,ok⟩ := bind_ok.mp ok
  have counted : (({tdata with shadowMemory := shadow} : ThreadData).setTop incInput).control = tdata.control :=
    control_setTop _ _ fun _ => rfl
  dsimp only at ok
  split at ok
  · split at ok
    · obtain ⟨i,_,ok⟩ := bind_ok.mp ok
      cases ok
      exact (control_setSlot _ i decInput fun _ => rfl).trans counted
    · cases ok
      exact counted
  · cases ok
    rfl

/-- The word an access finds in the global shadow memory, and the memory after it. -/
def globalAccess (c : Counter) (ts : Nat) (type : AccessType) (kernelAccess : Bool) (global : LookupTable c.Word) (addr : Nat) :
    Result (c.Word × LookupTable c.Word) :=
  match type with
  | .load => do
    let wts ← lkLookup global addr
    .ok (wts,global)
  | _ => lkInsert global addr (if kernelAccess then setSyscall c (plainWord c ts) else plainWord c ts)

/-- The part of an access that looks at the thread. -/
def countAccess (c : Counter) (ts : Nat) (type : AccessType) (wts : c.Word) (tdata : ThreadData) (addr : Nat) :
    Result ThreadData := do
  let (oldTs,shadow) ← lkInsert tdata.shadowMemory addr ts
  let tdata := {tdata with shadowMemory := shadow}
  if type = .store then .ok tdata
  else if oldTs < tsOf c wts then
    let tdata := tdata.setTop incInput
    .ok (tdata.setTop (if syscallOf c wts then incSyscall else incThread))
  else if oldTs < tdata.top.activationId then
    let tdata := tdata.setTop incInput
    if oldTs > 0 ∧ oldTs ≥ (tdata.stack 0).activationId then
      let i ← getActivationByAid tdata oldTs
      .ok (tdata.setSlot i decInput)
    else .ok tdata
  else .ok tdata

theorem accessCellDrms_eq (ts : Nat) (type : AccessType) (kernelAccess : Bool) (global : LookupTable c.Word) (tdata : ThreadData)
    (addr : Nat) : accessCellDrms c ts type kernelAccess (global,tdata) addr = (do
      let (wts,global) ← globalAccess c ts type kernelAccess global addr
      if kernelAccess ∧ type ≠ .load then .ok (global,tdata)
      else do
        let tdata ← countAccess c ts type wts tdata addr
        .ok (global,tdata)) := by
  have counts : ∀ (wts : c.Word) (global : LookupTable c.Word), (do
      let (oldTs,shadow) ← lkInsert tdata.shadowMemory addr ts
      let tdata := {tdata with shadowMemory := shadow}
      if type = .store then .ok (global,tdata)
      else if oldTs < tsOf c wts then
        let tdata := tdata.setTop incInput
        .ok (global,tdata.setTop (if syscallOf c wts then incSyscall else incThread))
      else if oldTs < tdata.top.activationId then
        let tdata := tdata.setTop incInput
        if oldTs > 0 ∧ oldTs ≥ (tdata.stack 0).activationId then
          let i ← getActivationByAid tdata oldTs
          .ok (global,tdata.setSlot i decInput)
        else .ok (global,tdata)
      else .ok (global,tdata) : Result (LookupTable c.Word × ThreadData)) = (do
        let tdata ← countAccess c ts type wts tdata addr
        .ok (global,tdata)) := by
    intro wts global
    unfold countAccess
    cases lkInsert tdata.shadowMemory addr ts with
    | error fault => rfl
    | ok inserted =>
      simp only [ok_bind]
      split
      · rfl
      · split
        · rfl
        · split
          · split
            · cases getActivationByAid _ inserted.1 <;> rfl
            · rfl
          · rfl
  unfold accessCellDrms globalAccess
  simp only [counts]
  cases type with
  | load => cases lkLookup global addr <;> rfl
  | store => rfl
  | modify => rfl

theorem accessCellDrms_cases {ts : Nat} {type : AccessType} {kernelAccess : Bool}
    {state after : LookupTable c.Word × ThreadData} {addr : Nat}
    (ok : accessCellDrms c ts type kernelAccess state addr = .ok after) :
    ∃ wts, globalAccess c ts type kernelAccess state.1 addr = .ok (wts,after.1) ∧
      (after.2 = state.2 ∨ countAccess c ts type wts state.2 addr = .ok after.2) := by
  obtain ⟨global,tdata⟩ := state
  rw [accessCellDrms_eq] at ok
  obtain ⟨⟨wts,global'⟩,looked,ok⟩ := bind_ok.mp ok
  dsimp only at ok
  split at ok
  · cases ok
    exact ⟨wts,looked,Or.inl rfl⟩
  · obtain ⟨tdata',counted,ok⟩ := bind_ok.mp ok
    cases ok
    exact ⟨wts,looked,Or.inr counted⟩

theorem countAccess_keeps {P : ThreadData → Prop} {ts : Nat} {type : AccessType} {wts : c.Word} {tdata after : ThreadData}
    {addr : Nat} (shadow : ∀ oldTs lk, lkInsert tdata.shadowMemory addr ts = .ok (oldTs,lk) → P {tdata with shadowMemory := lk})
    (counts : ∀ tdata i count, count ∈ [incInput,decInput,incSyscall,incThread] → P tdata → P (tdata.setSlot i count))
    (ok : countAccess c ts type wts tdata addr = .ok after) : P after := by
  obtain ⟨⟨oldTs,lk⟩,inserted,ok⟩ := bind_ok.mp ok
  have moved := shadow oldTs lk inserted
  have read := counts _ (({tdata with shadowMemory := lk} : ThreadData).stackDepth - 1) incInput (by simp) moved
  dsimp only at ok
  split at ok
  · cases ok
    exact moved
  · split at ok
    · cases ok
      refine counts _ _ _ ?_ read
      split <;> simp
    · split at ok
      · split at ok
        · obtain ⟨i,_,ok⟩ := bind_ok.mp ok
          cases ok
          exact counts _ i decInput (by simp) read
        · cases ok
          exact read
      · cases ok
        exact moved

theorem accessCellDrms_control {ts : Nat} {type : AccessType} {kernelAccess : Bool}
    {state after : LookupTable c.Word × ThreadData} {addr : Nat}
    (ok : accessCellDrms c ts type kernelAccess state addr = .ok after) : after.2.control = state.2.control := by
  obtain ⟨wts,-,same | counted⟩ := accessCellDrms_cases ok
  · rw [same]
  · refine countAccess_keeps (P := fun tdata => tdata.control = state.2.control) (fun _ _ _ => rfl) ?_ counted
    intro tdata i count known same
    refine (control_setSlot tdata i count fun act => ?_).trans same
    simp only [List.mem_cons,List.not_mem_nil,or_false] at known
    rcases known with rfl | rfl | rfl | rfl <;> rfl

/-- The same control part of every thread, and everything else that is not a
timestamp. -/
structure SameControl (rt after : Runtime c) : Prop where
  tid : after.currentTid = rt.currentTid
  shared : after.shared = rt.shared
  reported : after.reported = rt.reported
  threads : ∀ tid, (after.threads tid).map ThreadData.control = (rt.threads tid).map ThreadData.control

theorem SameControl.refl (rt : Runtime c) : SameControl rt rt := ⟨rfl,rfl,rfl,fun _ => rfl⟩

theorem SameControl.trans {rt middle after : Runtime c} (first : SameControl rt middle) (second : SameControl middle after) :
    SameControl rt after :=
  ⟨second.tid.trans first.tid,second.shared.trans first.shared,second.reported.trans first.reported,
    fun tid => (second.threads tid).trans (first.threads tid)⟩

theorem control_put (threads : Nat → Option ThreadData) {tid : Nat} {tdata after : ThreadData}
    (found : threads tid = some tdata) (same : after.control = tdata.control) (other : Nat) :
    (Function.update threads tid (some after) other).map ThreadData.control = (threads other).map ThreadData.control := by
  rw [Function.update_apply]
  split
  · next equal =>
    rw [equal,found,Option.map_some,Option.map_some,same]
  · rfl

theorem control_erased {threads threads' : Nat → Option ThreadData}
    (same : ∀ tid, (threads' tid).map ThreadData.erase = (threads tid).map ThreadData.erase) (tid : Nat) :
    (threads' tid).map ThreadData.control = (threads tid).map ThreadData.control := by
  have kept := congrArg (Option.map ThreadData.control) (same tid)
  rwa [Option.map_map,Option.map_map] at kept

theorem traceAccess_control {rt after : Runtime c} {type : AccessType} {addr size : Nat} {kernelAccess : Bool}
    (ok : traceAccess cfg rt type addr size kernelAccess = .ok after) : SameControl rt after := by
  obtain ⟨tdata,current,ok⟩ := bind_ok.mp ok
  have found : rt.threads rt.currentTid = some tdata := by
    unfold Runtime.current at current
    split at current
    · cases current
    · next stored =>
      cases current
      exact stored
  split at ok
  · obtain ⟨tdata',traced,ok⟩ := bind_ok.mp ok
    cases ok
    refine ⟨rfl,rfl,rfl,control_put rt.threads found ?_⟩
    unfold traceAccessRms at traced
    split at traced
    · cases traced
      rfl
    · exact foldlM_keeps (P := fun after => after.control = tdata.control)
        (fun _ _ _ same ok => (accessCellRms_control ok).trans same) _ _ _ rfl traced
  · obtain ⟨⟨global,tdata'⟩,traced,ok⟩ := bind_ok.mp ok
    cases ok
    refine ⟨rfl,rfl,rfl,control_put rt.threads found ?_⟩
    unfold traceAccessDrms at traced
    split at traced
    · cases traced
      rfl
    · exact foldlM_keeps (P := fun after : LookupTable c.Word × ThreadData => after.2.control = tdata.control)
        (fun _ _ _ same ok => (accessCellDrms_control ok).trans same) _ (rt.globalShadow,tdata) _ rfl traced

theorem assignIdDrms_erase {rt after : Runtime c} {tid : Nat} {tdata named : ThreadData} (nonempty : 0 < tdata.stackDepth)
    (ok : assignIdDrms cfg rt tid tdata = .ok (after,named)) : named.erase = tdata.erase ∧
      after.currentTid = rt.currentTid ∧ after.shared = rt.shared ∧ after.reported = rt.reported ∧ ∀ other, other ≠ tid →
        (after.threads other).map ThreadData.erase = (rt.threads other).map ThreadData.erase := by
  unfold assignIdDrms at ok
  dsimp only at ok
  split at ok
  · obtain ⟨⟨counter,rt'⟩,handled,ok⟩ := bind_ok.mp ok
    obtain ⟨tids,shared,reported,erased⟩ := overflowHandler_erase handled
    dsimp only at ok
    split at ok
    · cases ok
    · next found present =>
      cases ok
      have same := erased tid
      rw [present] at same
      simp only [Runtime.put,Function.update_self,Option.map_some,Option.some.injEq] at same
      refine ⟨?_,tids,shared,reported,?_⟩
      · have depth : found.stackDepth = tdata.stackDepth - 1 := congrArg ThreadData.stackDepth same
        have taller : ({found with stackDepth := found.stackDepth + 1} : ThreadData).erase =
            (tdata.setTop fun act => {act with activationId := rt.globalCounter + 1}).erase := by
          have grown := congrArg (fun base : ThreadData => {base with stackDepth := found.stackDepth + 1}) same
          refine grown.trans ?_
          have restored : tdata.stackDepth - 1 + 1 = tdata.stackDepth := by omega
          rw [depth,restored]
          rfl
        exact (erase_setId _ _ _).trans (taller.trans (erase_setId _ _ _))
      · intro other different
        have kept := erased other
        simp only [Runtime.put,Function.update_of_ne different] at kept
        exact kept
  · cases ok
    exact ⟨erase_setId _ _ _,rfl,rfl,rfl,fun _ _ => rfl⟩

theorem assignId_erase {rt after : Runtime c} {tid : Nat} {tdata named : ThreadData} (nonempty : 0 < tdata.stackDepth)
    (ok : assignId cfg rt tid tdata = .ok (after,named)) : named.erase = tdata.erase ∧
      after.currentTid = rt.currentTid ∧ after.shared = rt.shared ∧ after.reported = rt.reported ∧ ∀ other, other ≠ tid →
        (after.threads other).map ThreadData.erase = (rt.threads other).map ThreadData.erase := by
  unfold assignId at ok
  split at ok
  · cases ok
    exact ⟨assignIdRms_erase c tdata,rfl,rfl,rfl,fun _ _ => rfl⟩
  · exact assignIdDrms_erase nonempty ok

theorem increaseGlobalCounter_erase {rt after : Runtime c} (ok : increaseGlobalCounter cfg rt = .ok after) :
    after.currentTid = rt.currentTid ∧ after.shared = rt.shared ∧ after.reported = rt.reported ∧
      ∀ tid, (after.threads tid).map ThreadData.erase = (rt.threads tid).map ThreadData.erase := by
  unfold increaseGlobalCounter at ok
  dsimp only at ok
  split at ok
  · obtain ⟨⟨counter,rt'⟩,handled,ok⟩ := bind_ok.mp ok
    cases ok
    obtain ⟨tids,shared,reported,erased⟩ := overflowHandler_erase handled
    exact ⟨tids,shared,reported,erased⟩
  · cases ok
    exact ⟨rfl,rfl,rfl,fun _ => rfl⟩

theorem kernelStore_control {rt after : Runtime c} {buffer : Nat × Int} (ok : kernelStore cfg rt buffer = .ok after) :
    SameControl rt after :=
  foldlM_keeps (P := SameControl rt) (fun _ _ _ same ok => same.trans (traceAccess_control ok)) _ rt _
    (.refl rt) ok

end

end Aprof
