import Aprof.General.Lockstep
import Aprof.Runtime

/-! What the calls and returns of a thread do to everything but its timestamps:
they commute with erasing the activation ids and the shadow memory. -/
namespace Aprof

open Lockstep

def Activation.erase (act : Activation) : Activation := {act with activationId := 0}

def blankTable : LookupTable Nat := ⟨.flat fun _ => none,65536,0,sized_bytes⟩

def ThreadData.erase (tdata : ThreadData) : ThreadData :=
  {tdata with
    shadowMemory := blankTable
    nextActivationId := 0
    stack := fun i => (tdata.stack i).erase}

section
variable (tdata : ThreadData)

@[simp] theorem erase_stackDepth : tdata.erase.stackDepth = tdata.stackDepth := rfl
@[simp] theorem erase_skip : tdata.erase.skip = tdata.skip := rfl
@[simp] theorem erase_top : tdata.erase.top = tdata.top.erase := rfl
@[simp] theorem erase_stack (i : Nat) : tdata.erase.stack i = (tdata.stack i).erase := rfl
@[simp] theorem erase_routineInfo (act : Activation) : act.erase.routineInfo = act.routineInfo := rfl
@[simp] theorem erase_erase : tdata.erase.erase = tdata.erase := rfl

theorem erase_setSlot (i : Nat) (f : Activation → Activation)
    (commutes : ∀ act : Activation, (f act).erase = f act.erase) :
    (tdata.setSlot i f).erase = tdata.erase.setSlot i f := by
  have stack : (fun j => ((tdata.setSlot i f).stack j).erase) = (tdata.erase.setSlot i f).stack := by
    ext1 j
    simp only [ThreadData.setSlot,Function.update_apply,erase_stack]
    split
    · exact commutes _
    · rfl
  simp only [ThreadData.erase,stack]
  rfl

theorem erase_setTop (f : Activation → Activation)
    (commutes : ∀ act : Activation, (f act).erase = f act.erase) :
    (tdata.setTop f).erase = tdata.erase.setTop f :=
  erase_setSlot tdata _ f commutes

theorem erase_setId (i id : Nat) :
    (tdata.setSlot i fun act => {act with activationId := id}).erase = tdata.erase := by
  have stack : (fun j => ((tdata.setSlot i fun act => {act with activationId := id}).stack j).erase) =
      tdata.erase.stack := by
    ext1 j
    simp only [ThreadData.setSlot,Function.update_apply,erase_stack]
    split
    · next same =>
      subst same
      rfl
    · rfl
  simp only [ThreadData.erase,stack]
  rfl

theorem erase_enterStart : (enterStart tdata).erase = enterStart tdata.erase :=
  erase_setTop tdata _ fun _ => rfl

theorem parentNode_erase (depth : Nat) : parentNode tdata.erase depth = parentNode tdata depth := by
  induction depth with
  | zero => rfl
  | succ depth ih =>
    simp only [parentNode,erase_stack,ih]
    rfl

theorem erase_enterContext : (enterContext tdata).erase = enterContext tdata.erase := by
  have parent : parentCCT tdata.erase = parentCCT tdata := parentNode_erase tdata _
  have routine : (tdata.erase.routine tdata.erase.top.routineInfo).routineId =
      (tdata.routine tdata.top.routineInfo).routineId := rfl
  have root : tdata.erase.root = tdata.root := rfl
  unfold enterContext
  simp only [parent,routine,root]
  split
  · exact erase_setTop tdata _ fun _ => rfl
  · exact erase_setTop _ _ fun _ => rfl

theorem erase_enterRecorded (cfg : Config) :
    (enterRecorded cfg tdata).erase = enterRecorded cfg tdata.erase := by
  let counted := tdata.setRecursion tdata.top.routineInfo (· + 1)
  have reset : (counted.setTop fun act => {act with
      sumChildrenCost := 0, inputSize := 0
      cumulSyscall := 0, cumulThread := 0, selfSyscall := 0, selfThread := 0}).erase = _ :=
    erase_setTop counted _ fun _ => rfl
  unfold enterRecorded
  by_cases context : (!(cfg.fn tdata.top.routineInfo).discard && cfg.collectCCT) = true
  · rw [if_pos context,erase_enterContext,reset]
    exact (if_pos context).symm
  · rw [if_neg context]
    exact reset.trans (if_neg context).symm

theorem erase_dope (cfg : Config) : (dope cfg tdata).erase = dope cfg tdata.erase := by
  unfold dope
  by_cases doped : cfg.dopeFn = some (cfg.fn tdata.top.routineInfo).name
  · rw [if_pos doped]
    exact (if_pos doped).symm
  · rw [if_neg doped]
    exact (if_neg doped).symm

theorem erase_exitSkipped (cfg : Config) :
    (exitSkipped cfg tdata).erase = exitSkipped cfg tdata.erase := by
  unfold exitSkipped
  by_cases skip : (cfg.fn tdata.top.routineInfo).skip = true
  · rw [if_pos skip]
    exact (if_pos skip).symm
  · rw [if_neg skip]
    exact (if_neg skip).symm

theorem erase_recordExit (cfg : Config) :
    (recordExit cfg tdata).erase = recordExit cfg tdata.erase := by
  unfold recordExit
  by_cases discard : (cfg.fn tdata.top.routineInfo).discard = true
  · simp only [if_pos discard]
    exact (if_pos discard).symm
  · simp only [if_neg discard]
    exact (if_neg discard).symm

theorem erase_exitRecorded (cfg : Config) :
    (exitRecorded cfg tdata).erase = exitRecorded cfg tdata.erase := by
  unfold exitRecorded
  by_cases nested : tdata.stackDepth > 1
  · rw [if_pos nested,if_pos (show tdata.erase.stackDepth > 1 from nested),
      erase_setSlot _ _ (propagate tdata.top (cumulCost tdata)) fun _ => rfl,erase_recordExit]
    rfl
  · rw [if_neg nested,if_neg (show ¬ tdata.erase.stackDepth > 1 from nested)]
    exact erase_recordExit tdata cfg

theorem erase_functionExit (cfg : Config) :
    (functionExit cfg tdata).erase = functionExit cfg tdata.erase := by
  unfold functionExit
  rw [← erase_dope]
  by_cases skipping : (dope cfg tdata).skip > 0
  · exact (congrArg _ (if_pos skipping)).trans ((erase_exitSkipped _ cfg).trans (if_pos skipping).symm)
  · exact (congrArg _ (if_neg skipping)).trans ((erase_exitRecorded _ cfg).trans (if_neg skipping).symm)

theorem erase_newRoutineInfo (cfg : Config) (f : FnPtr) :
    (newRoutineInfo cfg tdata f).erase = newRoutineInfo cfg tdata.erase f := by
  unfold newRoutineInfo
  split
  · rfl
  · split <;> rfl

def Erased (tdata erased : ThreadData) : Prop := erased = tdata.erase

theorem erase_getActivation (depth : Nat) :
    Matches Erased (getActivation tdata depth) (getActivation tdata.erase depth) := by
  have size : tdata.erase.maxStackSize = tdata.maxStackSize := rfl
  unfold getActivation resizeStack
  rw [size]
  by_cases full : depth ≥ tdata.maxStackSize
  · simp only [if_pos full]
    cases check (0 < depth && depth < maxStack) "Invalid depth" with
    | error fault => exact trivial
    | ok _ =>
      simp only [ok_bind]
      split
      · exact rfl
      · exact rfl
  · simp only [if_neg full]
    exact rfl

theorem erase_pushFrame (cfg : Config) (sp : UInt64) (f : FnPtr) :
    Matches Erased (pushFrame cfg tdata sp f) (pushFrame cfg tdata.erase sp f) := by
  unfold pushFrame
  apply (erase_getActivation {tdata with stackDepth := tdata.stackDepth + 1} (tdata.stackDepth + 1)).bind
  intro grown erased _ same
  subst same
  have table : grown.erase.rtnHt = grown.rtnHt := rfl
  rw [table]
  let frame := fun act : Activation => {act with sp := sp, routineInfo := f, retAddr := 0}
  cases htFind grown.rtnHt f fun _ => true with
  | none =>
    simp only
    rw [← erase_newRoutineInfo]
    exact (erase_setTop (newRoutineInfo cfg grown f) frame fun _ => rfl).symm
  | some rtnInfo => exact (erase_setTop grown frame fun _ => rfl).symm

end

theorem erase_exitShared (cfg : Config) (shared : Shared) (tdata : ThreadData) :
    exitShared cfg shared tdata.erase =
      ((exitShared cfg shared tdata).1,(exitShared cfg shared tdata).2.erase) := by
  let loaded := {tdata.setInputMap tdata.top.routineInfo fun _ => shared.inputMaps tdata.top.routineInfo
    with root := shared.root}
  let stored := fun after : ThreadData => Shared.mk (Function.update shared.inputMaps
    tdata.top.routineInfo (after.routine tdata.top.routineInfo).inputMap) shared.root
  have exited : functionExit cfg loaded.erase = (functionExit cfg loaded).erase :=
    (erase_functionExit loaded cfg).symm
  unfold exitShared
  cases cfg.singleReport with
  | false => simp [erase_functionExit]
  | true =>
    simp only [if_true]
    have kept := congrArg stored exited
    exact Prod.ext kept exited

theorem erase_popShared (cfg : Config) (shared : Shared) (tdata : ThreadData) :
    popShared cfg shared tdata.erase =
      ((popShared cfg shared tdata).1,(popShared cfg shared tdata).2.erase) := by
  unfold popShared
  rw [erase_exitShared]
  rfl

theorem erase_unwindShared (cfg : Config) (n : Nat) (shared : Shared) (tdata : ThreadData) :
    unwindShared cfg n (shared,tdata.erase) =
      ((unwindShared cfg n (shared,tdata)).1,(unwindShared cfg n (shared,tdata)).2.erase) := by
  induction n generalizing shared tdata with
  | zero => rfl
  | succ n ih =>
    unfold unwindShared
    rw [erase_popShared]
    exact ih _ _

theorem erase_enterShared (cfg : Config) (shared : Shared) (tdata : ThreadData) :
    enterShared cfg shared tdata.erase =
      ((enterShared cfg shared tdata).1,(enterShared cfg shared tdata).2.erase) := by
  let stored := fun after : ThreadData => Shared.mk shared.inputMaps after.root
  have entered := (erase_enterRecorded {tdata with root := shared.root} cfg).symm
  unfold enterShared
  cases cfg.singleReport with
  | false => simp [erase_enterRecorded]
  | true =>
    have kept := congrArg stored entered
    exact Prod.ext kept entered

theorem assignIdRms_erase (c : Counter) (tdata : ThreadData) : (assignIdRms c tdata).erase = tdata.erase := by
  have named : ({tdata.setTop fun act => {act with activationId := tdata.nextActivationId} with
      nextActivationId := c.next tdata.nextActivationId} : ThreadData).erase = tdata.erase := erase_setId tdata _ _
  have handled : ∀ tdata : ThreadData, (overflowHandlerRms tdata).2.erase = tdata.erase := by
    intro tdata
    have stack : (fun j => ((overflowHandlerRms tdata).2.stack j).erase) = tdata.erase.stack := by
      ext1 j
      simp only [overflowHandlerRms,erase_stack]
      split <;> rfl
    exact congrArg (fun slots => ({tdata.erase with stack := slots} : ThreadData)) stack
  unfold assignIdRms
  dsimp only
  split
  · exact (handled _).trans named
  · exact named

theorem mergeIds_erase {live : List Nat} {i : Nat} {threads threads' : Nat → Option ThreadData}
    {depths activeTs activeTs' : Nat → Nat} (ok : mergeIds live i threads depths activeTs = .ok (threads',activeTs'))
    (tid : Nat) : (threads' tid).map ThreadData.erase = (threads tid).map ThreadData.erase := by
  induction i generalizing threads depths activeTs with
  | zero =>
    cases ok
    rfl
  | succ i ih =>
    unfold mergeIds at ok
    split at ok
    · cases ok
    · next max other found =>
      rw [ih ok]
      by_cases same : tid = other
      · subst same
        rw [Function.update_self]
        cases threads tid with
        | none => rfl
        | some tdata => exact congrArg some (erase_setId tdata _ _)
      · rw [Function.update_of_ne same]

theorem overflowHandler_erase {c : Counter} {cfg : Config} {rt rt' : Runtime c} {counter : Nat}
    (ok : overflowHandler cfg rt = .ok (counter,rt')) : rt'.currentTid = rt.currentTid ∧ rt'.shared = rt.shared ∧ rt'.reported = rt.reported ∧
      ∀ tid, (rt'.threads tid).map ThreadData.erase = (rt.threads tid).map ThreadData.erase := by
  obtain ⟨⟨n,global,threads⟩,handled,ok⟩ := bind_ok.mp ok
  cases ok
  obtain ⟨⟨merged,activeTs⟩,merge,handled⟩ := bind_ok.mp handled
  obtain ⟨⟨global',compressed⟩,compress,handled⟩ := bind_ok.mp handled
  cases handled
  obtain ⟨_,_,compress⟩ := bind_ok.mp compress
  cases compress
  refine ⟨rfl,rfl,rfl,fun tid => ?_⟩
  rw [← mergeIds_erase merge tid]
  dsimp only
  split
  · cases merged tid <;> rfl
  · rfl

end Aprof
