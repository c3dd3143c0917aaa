import Aprof.Compression
import Aprof.ThreadRuns

/-! The timestamps of the global shadow memory in a run: whatever the threads do
and however the counter is renumbered, none is above the counter, and after the
counter has moved all are below it. -/
namespace Aprof

open Lockstep

section
variable {c : Counter} {cfg : Config} {global : LookupTable c.Word} {counter : Nat} {rt after : Runtime c}

structure Stamped (cfg : Config) (global : LookupTable c.Word) (counter : Nat) : Prop where
  limit : global.table.limit = cfg.layout.limit
  scale : 2 ^ global.resShift = cfg.memoryResolution
  below : ∀ g, tsOf c (global.value g) ≤ counter

theorem Stamped.later (stamped : Stamped cfg global counter) {counter' : Nat} (le : counter ≤ counter') :
    Stamped cfg global counter' :=
  ⟨stamped.limit,stamped.scale,fun g => (stamped.below g).trans le⟩

theorem Stamped.write (stamped : Stamped cfg global counter) (g : Nat) {mark : c.Word} (le : tsOf c mark ≤ counter) :
    Stamped cfg (global.write g mark) counter := by
  refine ⟨(LookupTable.write_limit global g mark).trans stamped.limit,stamped.scale,?_⟩
  intro other
  rw [LookupTable.value_write]
  split
  · exact le
  · exact stamped.below other

theorem Stamped.insert (stamped : Stamped cfg global counter) {addr : Nat} {mark old : c.Word} {inserted : LookupTable c.Word}
    (le : tsOf c mark ≤ counter) (ok : lkInsert global addr mark = .ok (old,inserted)) : Stamped cfg inserted counter := by
  by_cases admitted : addr < global.table.limit
  · rw [lkInsert_eq global addr mark admitted] at ok
    cases ok
    exact stamped.write _ le
  · obtain ⟨fault,refused⟩ := lkInsert_refused global addr mark (Nat.le_of_not_lt admitted)
    rw [refused] at ok
    cases ok

theorem Stamped.compress (stamped : Stamped cfg global counter) {array : Nat → Nat} {size : Nat} (nonempty : 0 < size) :
    Stamped cfg (compressGlobal c array size global) (3 * size) := by
  refine ⟨(LookupTable.mapCells_limit _ _).trans stamped.limit,stamped.scale,?_⟩
  intro g
  rw [compressGlobal,LookupTable.value_mapCells]
  split
  · have floor := @searchGts_lt array size nonempty (tsOf c (global.value g))
    exact (tsOf_compressWord_le _ _).trans (by omega)
  · rw [tsOf_zero]
    exact Nat.zero_le _

theorem overflow_stamped {counter' : Nat} (ok : overflowHandler cfg rt = .ok (counter',after))
    (stamped : Stamped cfg rt.globalShadow counter) : ∃ n, n < counter' ∧ Stamped cfg after.globalShadow n := by
  obtain ⟨⟨n,global,threads⟩,handled,ok⟩ := bind_ok.mp ok
  cases ok
  obtain ⟨⟨merged,activeTs⟩,-,handled⟩ := bind_ok.mp handled
  obtain ⟨⟨global',compressed⟩,compress,handled⟩ := bind_ok.mp handled
  cases handled
  obtain ⟨_,_,compress⟩ := bind_ok.mp compress
  cases compress
  exact ⟨_,by omega,stamped.compress (Nat.succ_pos _)⟩

theorem Stamped.increase (stamped : Stamped cfg rt.globalShadow rt.globalCounter)
    (ok : increaseGlobalCounter cfg rt = .ok after) : ∃ n, n < after.globalCounter ∧ Stamped cfg after.globalShadow n := by
  unfold increaseGlobalCounter at ok
  dsimp only at ok
  split at ok
  · obtain ⟨⟨counter,rt'⟩,handled,ok⟩ := bind_ok.mp ok
    cases ok
    obtain ⟨n,lt,renumbered⟩ := overflow_stamped handled stamped
    exact ⟨n,lt,renumbered⟩
  · cases ok
    exact ⟨_,Nat.lt_succ_self _,stamped⟩

theorem Stamped.assignId {tid : Nat} {tdata named : ThreadData} (stamped : Stamped cfg rt.globalShadow rt.globalCounter)
    (ok : assignId cfg rt tid tdata = .ok (after,named)) : Stamped cfg after.globalShadow after.globalCounter := by
  unfold Aprof.assignId at ok
  split at ok
  · cases ok
    exact stamped
  · unfold assignIdDrms at ok
    dsimp only at ok
    split at ok
    · obtain ⟨⟨counter,rt'⟩,handled,ok⟩ := bind_ok.mp ok
      obtain ⟨n,lt,renumbered⟩ := overflow_stamped handled stamped
      dsimp only at ok
      split at ok
      · cases ok
      · cases ok
        exact renumbered.later (Nat.le_of_lt lt)
    · cases ok
      exact stamped.later (Nat.le_succ _)

theorem Stamped.globalAccess {type : AccessType} {kernelAccess : Bool} {addr : Nat} {wts : c.Word} {inserted : LookupTable c.Word}
    (stamped : Stamped cfg global counter)
    (ok : globalAccess c counter type kernelAccess global addr = .ok (wts,inserted)) : Stamped cfg inserted counter := by
  have marks : tsOf c (if kernelAccess then setSyscall c (plainWord c counter) else plainWord c counter) ≤ counter := by
    split
    · exact tsOf_setSyscall_le c counter
    · exact tsOf_plainWord_le c counter
  cases type with
  | load =>
    obtain ⟨word,-,ok⟩ := bind_ok.mp ok
    cases ok
    exact stamped
  | store => exact stamped.insert marks ok
  | modify => exact stamped.insert marks ok

theorem Stamped.traceAccess {type : AccessType} {addr size : Nat} {kernelAccess : Bool}
    (stamped : Stamped cfg rt.globalShadow rt.globalCounter)
    (ok : traceAccess cfg rt type addr size kernelAccess = .ok after) :
    Stamped cfg after.globalShadow after.globalCounter := by
  obtain ⟨tdata,-,ok⟩ := bind_ok.mp ok
  split at ok
  · obtain ⟨tdata',-,ok⟩ := bind_ok.mp ok
    cases ok
    exact stamped
  · obtain ⟨⟨global,tdata'⟩,traced,ok⟩ := bind_ok.mp ok
    cases ok
    unfold traceAccessDrms at traced
    split at traced
    · cases traced
      exact stamped
    · refine foldlM_keeps (P := fun state : LookupTable c.Word × ThreadData => Stamped cfg state.1 rt.globalCounter)
        ?_ _ (rt.globalShadow,tdata) _ stamped traced
      intro state addr after kept ok
      obtain ⟨wts,looked,-⟩ := accessCellDrms_cases ok
      exact kept.globalAccess looked

/-- The shadow memory of a run, and no thread has the invalid thread id 0. -/
structure Runtime.Stamps (cfg : Config) (rt : Runtime c) : Prop where
  stamped : Stamped cfg rt.globalShadow rt.globalCounter
  invalid : rt.threads 0 = none

theorem Runtime.Stamps.current (stamps : rt.Stamps cfg) {tdata : ThreadData} (found : rt.current = .ok tdata) :
    rt.currentTid ≠ 0 := by
  intro zero
  have stored := current_ok.mp found
  rw [zero,stamps.invalid] at stored
  cases stored

theorem Runtime.Stamps.put (stamps : rt.Stamps cfg) {tdata tdata' : ThreadData} (found : rt.current = .ok tdata) :
    (rt.put rt.currentTid tdata').threads 0 = none :=
  (Function.update_of_ne (stamps.current found).symm _ _).trans stamps.invalid

theorem none_of_map {α β : Type} {f : α → β} {value value' : Option α} (same : value'.map f = value.map f)
    (missing : value = none) : value' = none := by
  rw [missing] at same
  exact Option.map_eq_none_iff.mp same

theorem Runtime.Stamps.increase (stamps : rt.Stamps cfg) (ok : increaseGlobalCounter cfg rt = .ok after) :
    after.Stamps cfg := by
  obtain ⟨n,lt,stamped⟩ := stamps.stamped.increase ok
  exact ⟨stamped.later (Nat.le_of_lt lt),none_of_map ((increaseGlobalCounter_erase ok).2.2.2 0) stamps.invalid⟩

theorem Runtime.Stamps.threadStart {tid : Nat} (stamps : rt.Stamps cfg) (ok : threadStart cfg rt tid = .ok after) :
    after.Stamps cfg := by
  obtain ⟨_,valid,ok⟩ := bind_ok.mp ok
  obtain ⟨_,_,ok⟩ := bind_ok.mp ok
  obtain ⟨shadow,_,ok⟩ := bind_ok.mp ok
  cases ok
  have positive : 0 ≠ tid := by
    have := check_ok.mp valid
    simp only [Bool.and_eq_true,decide_eq_true_eq] at this
    omega
  exact ⟨stamps.stamped,(Function.update_of_ne positive _ _).trans stamps.invalid⟩

theorem Runtime.Stamps.threadSwitch {tid : Nat} (stamps : rt.Stamps cfg) (ok : threadSwitch cfg rt tid = .ok after) :
    after.Stamps cfg := by
  have moved : ({rt with currentTid := tid} : Runtime c).Stamps cfg := ⟨stamps.stamped,stamps.invalid⟩
  refine threadSwitch_keeps (P := fun rt : Runtime c => rt.Stamps cfg) stamps moved ?_ ?_ ok
  · intro middle counted
    exact moved.increase counted
  · intro middle after kept started
    exact kept.threadStart started

theorem Runtime.Stamps.pushStack {sp : UInt64} {f : FnPtr} (stamps : rt.Stamps cfg) (ok : pushStack cfg rt sp f = .ok after) :
    after.Stamps cfg := by
  obtain ⟨tdata,current,ok⟩ := bind_ok.mp ok
  obtain ⟨pushed,push,entered⟩ := bind_ok.mp ok
  have depth : 0 < pushed.stackDepth := by
    rw [pushFrame_depth push]
    exact Nat.succ_pos _
  refine ⟨?_,none_of_map ((functionEnter_control depth entered).2.2.2.2 0 (stamps.current current).symm) stamps.invalid⟩
  unfold functionEnter at entered
  dsimp only at entered
  split at entered
  · cases entered
    exact stamps.stamped
  · split at entered
    · cases entered
      exact stamps.stamped
    · obtain ⟨⟨rt',named⟩,assigned,entered⟩ := bind_ok.mp entered
      cases entered
      have named' := stamps.stamped.assignId assigned
      exact named'

theorem Runtime.Stamps.step {event : Event} (stamps : rt.Stamps cfg) (ok : step cfg rt event = .ok after) :
    after.Stamps cfg := by
  cases event with
  | threadCreate child => exact stamps.threadStart ok
  | threadSwitch tid => exact stamps.threadSwitch ok
  | threadExit tid =>
    change threadExit cfg rt tid = .ok after at ok
    unfold threadExit at ok
    split at ok
    · cases ok
    · cases ok
      refine ⟨stamps.stamped,?_⟩
      dsimp only
      rw [Function.update_apply]
      split
      · rfl
      · exact stamps.invalid
  | bbStart =>
    obtain ⟨tdata,current,ok⟩ := bind_ok.mp ok
    cases ok
    exact ⟨stamps.stamped,stamps.put current⟩
  | functionEnter sp f => exact stamps.pushStack ok
  | functionExit =>
    obtain ⟨tdata,current,ok⟩ := bind_ok.mp ok
    obtain ⟨_,_,ok⟩ := bind_ok.mp ok
    cases ok
    exact ⟨stamps.stamped,stamps.put current⟩
  | access type addr size =>
    exact ⟨stamps.stamped.traceAccess ok,none_of_map ((traceAccess_control ok).threads 0) stamps.invalid⟩
  | postSyscall tid buffers =>
    refine postSyscall_keeps stamps ?_ ?_ ?_ ok
    · intro middle _ moved
      exact stamps.threadSwitch moved
    · intro middle _ counted
      exact stamps.increase counted
    · intro middle buffer after kept stored
      refine ⟨?_,none_of_map ((kernelStore_control stored).threads 0) kept.invalid⟩
      exact foldlM_keeps (P := fun rt : Runtime c => Stamped cfg rt.globalShadow rt.globalCounter)
        (fun _ _ _ kept ok => kept.traceAccess ok) _ middle _ kept.stamped stored

theorem Runtime.Stamps.initial (created : initial c cfg = .ok rt) : rt.Stamps cfg := by
  obtain ⟨global,made,ok⟩ := bind_ok.mp created
  obtain ⟨lk,made',empty⟩ := lkCreate_ok (α := c.Word) cfg.layout cfg.memoryResolution cfg.supported
  rw [made'] at made
  cases made
  cases ok
  refine ⟨⟨empty.limit,empty.scale,fun g => ?_⟩,rfl⟩
  dsimp only
  rw [empty.value g,tsOf_zero]
  exact Nat.zero_le _

theorem Runtime.Stamps.run {events : List Event} (stamps : rt.Stamps cfg) (ok : run cfg rt events = .ok after) :
    after.Stamps cfg :=
  foldlM_keeps (P := fun rt : Runtime c => rt.Stamps cfg) (fun _ _ _ stamps ok => stamps.step ok) events rt after stamps ok

end

end Aprof
