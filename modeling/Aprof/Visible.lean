import Aprof.Accesses

/-! What accesses and activation ids see of a thread. They work on the shadow
memory, the ids and the counts of the slots; so they commute with hiding the
tables, the sizes and, from slot `n` on, what a frame leaves behind in its slot. -/
namespace Aprof

open Lockstep

/-- A slot without what `push_stack` and `function_enter` write for every call. -/
def Activation.hide (act : Activation) : Activation :=
  {act with start := 0, routineInfo := 0, node := none, sp := 0, retAddr := 0}

def Activation.veil (act : Activation) : Activation := {act with node := none}

def veilStack (n : Nat) (stack : Nat → Activation) (i : Nat) : Activation :=
  if i < n then (stack i).veil else (stack i).hide

def ThreadData.visible (n : Nat) (tdata : ThreadData) : ThreadData :=
  {tdata with
    rtnHt := htConstruct
    cost := time tdata
    stack := veilStack n tdata.stack
    maxStackSize := 0
    nextRoutineId := 0
    skipCost := 0
    root := []
    nextContextId := 0}

/-- A change of a slot that does not look at what is hidden. -/
structure Blind (f : Activation → Activation) : Prop where
  veil : ∀ act, (f act).veil = f act.veil
  hide : ∀ act, (f act).hide = f act.hide

theorem blind_inc : Blind incInput := ⟨fun _ => rfl,fun _ => rfl⟩
theorem blind_dec : Blind decInput := ⟨fun _ => rfl,fun _ => rfl⟩

theorem blind_id (id : Nat) : Blind fun act => {act with activationId := id} := ⟨fun _ => rfl,fun _ => rfl⟩

theorem blind_induced (bySyscall : Bool) : Blind (if bySyscall then incSyscall else incThread) := by
  cases bySyscall with
  | false => exact ⟨fun _ => rfl,fun _ => rfl⟩
  | true => exact ⟨fun _ => rfl,fun _ => rfl⟩

section
variable (n : Nat) (tdata : ThreadData)

theorem veilStack_id (stack : Nat → Activation) (i : Nat) : (veilStack n stack i).activationId = (stack i).activationId := by
  unfold veilStack
  split <;> rfl

theorem visible_setSlot (i : Nat) {f : Activation → Activation} (blind : Blind f) :
    (tdata.visible n).setSlot i f = (tdata.setSlot i f).visible n := by
  have stack : ((tdata.visible n).setSlot i f).stack = veilStack n (tdata.setSlot i f).stack := by
    ext1 j
    simp only [ThreadData.setSlot,ThreadData.visible,veilStack,Function.update_apply]
    by_cases here : j = i
    · subst here
      simp only [if_true]
      split
      · exact (blind.veil _).symm
      · exact (blind.hide _).symm
    · simp only [if_neg here]
  exact congrArg (fun slots => {tdata.visible n with stack := slots}) stack

theorem visible_setTop {f : Activation → Activation} (blind : Blind f) :
    (tdata.visible n).setTop f = (tdata.setTop f).visible n := visible_setSlot n tdata _ blind

theorem visible_walkDown (aid k : Nat) : walkDown (tdata.visible n) aid k = walkDown tdata aid k := by
  induction k with
  | zero => rfl
  | succ k ih =>
    unfold walkDown
    rw [ih]
    show (if (veilStack n tdata.stack k).activationId > aid then _ else _) = _
    rw [veilStack_id]

theorem visible_getActivationByAid (aid : Nat) : getActivationByAid (tdata.visible n) aid = getActivationByAid tdata aid :=
  visible_walkDown n tdata aid _

theorem decrease_visible (tdata : ThreadData) (oldId : Nat) : Matches (fun after hidden => hidden = after.visible n)
    (do
      let i ← getActivationByAid tdata oldId
      .ok (tdata.setSlot i decInput))
    (do
      let i ← getActivationByAid (tdata.visible n) oldId
      .ok ((tdata.visible n).setSlot i decInput)) := by
  rw [visible_getActivationByAid]
  cases getActivationByAid tdata oldId with
  | error fault => trivial
  | ok i => exact visible_setSlot n tdata i blind_dec

theorem accessCellRms_visible (type : AccessType) (addr : Nat) : Matches (fun after hidden => hidden = after.visible n)
    (accessCellRms type tdata addr) (accessCellRms type (tdata.visible n) addr) := by
  have top : (tdata.visible n).top.activationId = tdata.top.activationId := veilStack_id n tdata.stack _
  unfold accessCellRms
  dsimp only
  rw [top,show (tdata.visible n).shadowMemory = tdata.shadowMemory from rfl]
  cases lkInsert tdata.shadowMemory addr tdata.top.activationId with
  | error fault => trivial
  | ok inserted =>
    obtain ⟨oldAid,shadow⟩ := inserted
    let moved : ThreadData := {tdata with shadowMemory := shadow}
    have counted : ({tdata.visible n with shadowMemory := shadow} : ThreadData).setTop incInput =
        (moved.setTop incInput).visible n := visible_setTop n moved blind_inc
    have first : (((moved.setTop incInput).visible n).stack 0).activationId = ((moved.setTop incInput).stack 0).activationId :=
      veilStack_id n _ 0
    simp only [ok_bind]
    rw [counted,first]
    by_cases fresh : type ≠ .store ∧ oldAid < tdata.top.activationId
    · rw [if_pos fresh,if_pos fresh]
      by_cases inside : oldAid ≥ ((moved.setTop incInput).stack 0).activationId
      · rw [if_pos inside,if_pos inside]
        exact decrease_visible n _ oldAid
      · rw [if_neg inside,if_neg inside]
        exact rfl
    · rw [if_neg fresh,if_neg fresh]
      exact rfl

theorem traceAccessRms_visible (cfg : Config) (type : AccessType) (addr size : Nat) :
    Matches (fun after hidden => hidden = after.visible n)
      (traceAccessRms cfg tdata type addr size) (traceAccessRms cfg (tdata.visible n) type addr size) := by
  unfold traceAccessRms
  rw [show (tdata.visible n).stackDepth = tdata.stackDepth from rfl,show (tdata.visible n).skip = tdata.skip from rfl]
  by_cases outside : tdata.stackDepth = 0 ∨ tdata.skip > 0
  · rw [if_pos outside,if_pos outside]
    exact rfl
  · rw [if_neg outside,if_neg outside]
    generalize accessAddrs cfg.memoryResolution addr size = addrs
    refine Matches.foldlM ?_ addrs tdata (tdata.visible n) rfl
    intro after hidden addr same
    rw [same]
    exact accessCellRms_visible n after type addr

/-- The global shadow memory and the thread after an access. -/
def SameAccess {c : Counter} (n : Nat) (after hidden : LookupTable c.Word × ThreadData) : Prop :=
  hidden = (after.1,after.2.visible n)

theorem countAccess_visible {c : Counter} (ts : Nat) (type : AccessType) (wts : c.Word) (addr : Nat) :
    Matches (fun after hidden => hidden = after.visible n) (countAccess c ts type wts tdata addr)
      (countAccess c ts type wts (tdata.visible n) addr) := by
  unfold countAccess
  dsimp only
  rw [show (tdata.visible n).shadowMemory = tdata.shadowMemory from rfl]
  cases lkInsert tdata.shadowMemory addr ts with
  | error fault => trivial
  | ok inserted =>
    obtain ⟨oldTs,shadow⟩ := inserted
    let moved : ThreadData := {tdata with shadowMemory := shadow}
    have counted : ({tdata.visible n with shadowMemory := shadow} : ThreadData).setTop incInput =
        (moved.setTop incInput).visible n := visible_setTop n moved blind_inc
    have top : ({tdata.visible n with shadowMemory := shadow} : ThreadData).top.activationId = moved.top.activationId :=
      veilStack_id n tdata.stack _
    have first : (((moved.setTop incInput).visible n).stack 0).activationId = ((moved.setTop incInput).stack 0).activationId :=
      veilStack_id n _ 0
    simp only [ok_bind]
    rw [counted,top,first]
    by_cases stores : type = .store
    · rw [if_pos stores,if_pos stores]
      exact rfl
    rw [if_neg stores,if_neg stores]
    by_cases written : oldTs < tsOf c wts
    · rw [if_pos written,if_pos written]
      have both := visible_setTop n (moved.setTop incInput) (blind_induced (syscallOf c wts))
      rw [both]
      exact rfl
    rw [if_neg written,if_neg written]
    by_cases fresh : oldTs < moved.top.activationId
    · rw [if_pos fresh,if_pos fresh]
      by_cases inside : oldTs > 0 ∧ oldTs ≥ ((moved.setTop incInput).stack 0).activationId
      · rw [if_pos inside,if_pos inside]
        exact decrease_visible n _ oldTs
      · rw [if_neg inside,if_neg inside]
        exact rfl
    · rw [if_neg fresh,if_neg fresh]
      exact rfl

theorem accessCellDrms_visible {c : Counter} (ts : Nat) (type : AccessType) (kernelAccess : Bool) (global : LookupTable c.Word)
    (addr : Nat) : Matches (SameAccess n) (accessCellDrms c ts type kernelAccess (global,tdata) addr)
      (accessCellDrms c ts type kernelAccess (global,tdata.visible n) addr) := by
  rw [accessCellDrms_eq,accessCellDrms_eq]
  cases globalAccess c ts type kernelAccess global addr with
  | error fault => trivial
  | ok result =>
    simp only [ok_bind]
    by_cases kernel : kernelAccess ∧ type ≠ .load
    · rw [if_pos kernel,if_pos kernel]
      exact rfl
    · rw [if_neg kernel,if_neg kernel]
      refine (countAccess_visible n tdata ts type result.1 addr).bind ?_
      intro after hidden _ same
      rw [same]
      exact rfl

theorem traceAccessDrms_visible {c : Counter} (cfg : Config) (ts : Nat) (global : LookupTable c.Word) (type : AccessType)
    (addr size : Nat) (kernelAccess : Bool) : Matches (SameAccess n)
      (traceAccessDrms c cfg ts global tdata type addr size kernelAccess)
      (traceAccessDrms c cfg ts global (tdata.visible n) type addr size kernelAccess) := by
  unfold traceAccessDrms
  rw [show (tdata.visible n).stackDepth = tdata.stackDepth from rfl,show (tdata.visible n).skip = tdata.skip from rfl]
  by_cases outside : tdata.stackDepth = 0 ∨ tdata.skip > 0
  · rw [if_pos outside,if_pos outside]
    exact rfl
  · rw [if_neg outside,if_neg outside]
    generalize accessAddrs cfg.memoryResolution addr size = addrs
    refine Matches.foldlM ?_ addrs (global,tdata) (global,tdata.visible n) rfl
    intro after hidden addr same
    rw [same]
    exact accessCellDrms_visible n after.2 ts type kernelAccess after.1 addr

theorem overflowHandlerRms_visible (n : Nat) (tdata : ThreadData) :
    (overflowHandlerRms (tdata.visible n)).1 = (overflowHandlerRms tdata).1 ∧
      (overflowHandlerRms (tdata.visible n)).2 = (overflowHandlerRms tdata).2.visible n := by
  refine ⟨rfl,?_⟩
  have ids : (fun j => ((tdata.visible n).stack j).activationId) = fun j => (tdata.stack j).activationId := by
    ext1 j
    exact veilStack_id n tdata.stack j
  have stack : (overflowHandlerRms (tdata.visible n)).2.stack = veilStack n (overflowHandlerRms tdata).2.stack := by
    ext1 j
    simp only [overflowHandlerRms,ThreadData.visible,veilStack]
    by_cases kept : j < n
    · simp only [if_pos kept]
      split <;> rfl
    · simp only [if_neg kept]
      split <;> rfl
  have shadow : (overflowHandlerRms (tdata.visible n)).2.shadowMemory = (overflowHandlerRms tdata).2.shadowMemory := by
    unfold overflowHandlerRms
    dsimp only
    rw [ids]
    rfl
  exact congr (congrArg (fun shadow slots => {tdata.visible n with shadowMemory := shadow, stack := slots}) shadow) stack

def renumberFull (tdata : ThreadData) : ThreadData :=
  if tdata.nextActivationId = 0 then {(overflowHandlerRms tdata).2 with nextActivationId := (overflowHandlerRms tdata).1}
  else tdata

theorem renumberFull_visible (n : Nat) (tdata : ThreadData) : renumberFull (tdata.visible n) = (renumberFull tdata).visible n := by
  unfold renumberFull
  by_cases full : tdata.nextActivationId = 0
  · have handled := overflowHandlerRms_visible n tdata
    rw [if_pos full,if_pos (show (tdata.visible n).nextActivationId = 0 from full),handled.1,handled.2]
    rfl
  · rw [if_neg full,if_neg (show ¬(tdata.visible n).nextActivationId = 0 from full)]

theorem assignIdRms_visible (c : Counter) (n : Nat) (tdata : ThreadData) :
    assignIdRms c (tdata.visible n) = (assignIdRms c tdata).visible n := by
  have full : ∀ base : ThreadData, assignIdRms c base = renumberFull
      {base.setTop fun act => {act with activationId := base.nextActivationId} with
        nextActivationId := c.next base.nextActivationId} := fun _ => rfl
  have named := visible_setTop n tdata (blind_id tdata.nextActivationId)
  rw [full,full,← renumberFull_visible]
  exact congrArg (fun base : ThreadData => renumberFull {base with nextActivationId := c.next tdata.nextActivationId}) named

section
variable (ns : Nat → Nat)

def veilThreads (threads : Nat → Option ThreadData) (tid : Nat) : Option ThreadData :=
  (threads tid).map (ThreadData.visible (ns tid))

theorem topId_veil (threads : Nat → Option ThreadData) (depths : Nat → Nat) (tid : Nat) :
    topId (veilThreads ns threads) depths tid = topId threads depths tid := by
  unfold topId veilThreads
  cases threads tid with
  | none => rfl
  | some tdata => exact veilStack_id (ns tid) tdata.stack _

theorem findMax_veil (threads : Nat → Option ThreadData) (depths : Nat → Nat) (live : List Nat) (best : Nat × Option Nat) :
    findMax (veilThreads ns threads) depths live best = findMax threads depths live best := by
  induction live generalizing best with
  | nil => rfl
  | cons tid live ih =>
    unfold findMax
    rw [topId_veil,ih,ih]

theorem veilThreads_update (threads : Nat → Option ThreadData) (tid : Nat) (thread : Option ThreadData) :
    veilThreads ns (Function.update threads tid thread) =
      Function.update (veilThreads ns threads) tid (thread.map (ThreadData.visible (ns tid))) := by
  ext1 other
  unfold veilThreads
  rw [Function.update_apply,Function.update_apply]
  split
  · next same =>
    rw [same]
  · rfl

theorem mergeIds_veil (live : List Nat) (i : Nat) (threads : Nat → Option ThreadData) (depths activeTs : Nat → Nat) :
    mergeIds live i (veilThreads ns threads) depths activeTs =
      (mergeIds live i threads depths activeTs).map fun merged => (veilThreads ns merged.1,merged.2) := by
  induction i generalizing threads depths activeTs with
  | zero => rfl
  | succ i ih =>
    unfold mergeIds
    rw [findMax_veil]
    rcases findMax threads depths live (0,none) with ⟨max,_ | tid⟩
    · rfl
    · dsimp only
      rw [← ih,veilThreads_update]
      have renumbered : (veilThreads ns threads tid).map (fun tdata : ThreadData =>
          tdata.setSlot (depths tid - 1) fun act => {act with activationId := (i + 1) * 3}) =
          ((threads tid).map fun tdata : ThreadData =>
            tdata.setSlot (depths tid - 1) fun act => {act with activationId := (i + 1) * 3}).map
              (ThreadData.visible (ns tid)) := by
        unfold veilThreads
        cases threads tid with
        | none => rfl
        | some tdata => exact congrArg some (visible_setSlot (ns tid) tdata _ (blind_id _))
      rw [renumbered]

theorem lkCompressDrms_veil {c : Counter} (array : Nat → Nat) (size : Nat) (global : LookupTable c.Word) (live : List Nat)
    (threads : Nat → Option ThreadData) : lkCompressDrms c array size global live (veilThreads ns threads) =
      (lkCompressDrms c array size global live threads).map fun after => (after.1,veilThreads ns after.2) := by
  have shadows : (live.filterMap fun tid => (veilThreads ns threads tid).map ThreadData.shadowMemory) =
      live.filterMap fun tid => (threads tid).map ThreadData.shadowMemory := by
    refine congrArg (List.filterMap · live) ?_
    ext1 tid
    unfold veilThreads
    rw [Option.map_map]
    rfl
  unfold lkCompressDrms
  dsimp only
  rw [shadows]
  cases check _ "Binary search fail" with
  | error fault => rfl
  | ok _ =>
    refine congrArg (fun threads => Except.ok (compressGlobal c array size global,threads)) ?_
    ext1 tid
    unfold veilThreads
    dsimp only
    split
    · rw [Option.map_map,Option.map_map]
      rfl
    · rfl

theorem depthOf_veil (threads : Nat → Option ThreadData) : depthOf (veilThreads ns threads) = depthOf threads := by
  ext1 tid
  unfold depthOf veilThreads
  rw [Option.map_map]
  rfl

theorem overflowHandlerDrms_veil {c : Counter} (live : List Nat) (global : LookupTable c.Word)
    (threads : Nat → Option ThreadData) : overflowHandlerDrms c live global (veilThreads ns threads) =
      (overflowHandlerDrms c live global threads).map fun after => (after.1,after.2.1,veilThreads ns after.2.2) := by
  unfold overflowHandlerDrms
  rw [depthOf_veil]
  dsimp only
  rw [mergeIds_veil]
  cases mergeIds live ((live.map (depthOf threads)).sum + 1 - 1) threads (depthOf threads) fun _ => 0 with
  | error fault => rfl
  | ok merged =>
    show (lkCompressDrms c merged.2 _ global live (veilThreads ns merged.1) >>= _) = _
    rw [lkCompressDrms_veil]
    show _ = Except.map _ (lkCompressDrms c merged.2 _ global live merged.1 >>= _)
    cases lkCompressDrms c merged.2 ((live.map (depthOf threads)).sum + 1) global live merged.1 <;> rfl

end

end

end Aprof
