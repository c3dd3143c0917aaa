import Aprof.BlockRuns
import Aprof.RecursionCosts

/-! Whether a recorded call can have zero cost. A tick comes between a call and the
first chance to return from it, except when the thread exits right after the block
that made the call. -/
namespace Aprof

open Intervals

/-- `function_exit` finds a positive cost and a positive self cost. -/
def Costly (cfg : Config) (tdata : ThreadData) : Prop :=
  0 < exitCumul cfg tdata ∧ 0 < exitCumul cfg tdata - tdata.top.sumChildrenCost

/-- A return that `function_exit` records in a tuple. -/
def InTuple (cfg : Config) (entry : ThreadOp × ThreadData) : Prop :=
  entry.1 = .exit ∧ entry.2.skip = 0 ∧ (cfg.fn entry.2.top.routineInfo).discard = false

/-- The log after `unwind_stack`. -/
def unwindLog (cfg : Config) : Nat → Shared × ThreadData → ThreadLog → ThreadLog
  | 0, _, log => log
  | n + 1, state, log => unwindLog cfg n (popShared cfg state.1 state.2) ((.exit,state.2) :: log)

def CostsSettled (cfg : Config) (tdata : ThreadData) (now : Nat) : Prop :=
  Nested (starts tdata) (fun i => childrenCosts tdata i + 1) (recordedDepth cfg tdata) now

/-- The last recorded call was entered now, and those below have had time of their own. -/
structure JustCalled (tdata : ThreadData) (now : Nat) : Prop where
  running : tdata.skip = 0
  nonempty : 0 < tdata.stackDepth
  start : starts tdata (tdata.stackDepth - 1) = now
  fresh : childrenCosts tdata (tdata.stackDepth - 1) = 0
  below : Nested (starts tdata) (fun i => childrenCosts tdata i + 1) (tdata.stackDepth - 1) now

section
variable {cfg : Config} {tdata after : ThreadData} {log : ThreadLog} {now : Nat}

theorem CostsSettled.same (settled : CostsSettled cfg tdata now) (recorded : recordedDepth cfg after = recordedDepth cfg tdata)
    (slots : ∀ i, i < recordedDepth cfg tdata → starts after i = starts tdata i ∧ childrenCosts after i = childrenCosts tdata i) :
    CostsSettled cfg after now := by
  rw [CostsSettled,recorded]
  exact Nested.congr settled (fun i below => (slots i below).1) fun i below => congrArg (· + 1) (slots i below).2

theorem CostsSettled.nested (settled : CostsSettled cfg tdata now) :
    Nested (starts tdata) (childrenCosts tdata) (recordedDepth cfg tdata) now :=
  Nested.mono settled fun _ _ => Nat.le_succ _

theorem JustCalled.same (called : JustCalled tdata now) (skip : after.skip = tdata.skip)
    (depth : after.stackDepth = tdata.stackDepth)
    (slots : ∀ i, starts after i = starts tdata i ∧ childrenCosts after i = childrenCosts tdata i) : JustCalled after now := by
  refine ⟨skip.trans called.running,by rw [depth]; exact called.nonempty,?_,?_,?_⟩
  · rw [depth,(slots _).1]
    exact called.start
  · rw [depth,(slots _).2]
    exact called.fresh
  · rw [depth]
    exact called.below.congr (fun i _ => (slots i).1) fun i _ => congrArg (· + 1) (slots i).2

theorem JustCalled.nested (called : JustCalled tdata now) (clock : Clock cfg log tdata) :
    Nested (starts tdata) (childrenCosts tdata) (recordedDepth cfg tdata) now := by
  obtain ⟨n,height⟩ : ∃ n, tdata.stackDepth = n + 1 := ⟨tdata.stackDepth - 1,by have := called.nonempty; omega⟩
  obtain ⟨running,-,start,fresh,below⟩ := called
  rw [height,Nat.add_sub_cancel] at start fresh below
  rw [clock.counted.recorded_iff.mp running,height]
  exact (below.mono fun _ _ => Nat.le_succ _).push start fresh

theorem settled_tick (clock : Clock cfg log tdata)
    (charged : CostsSettled cfg tdata (outsideTicks cfg log) ∨ JustCalled tdata (outsideTicks cfg log)) :
    CostsSettled cfg {tdata with cost := tdata.cost + 1} (outsideTicks cfg ((.tick,tdata) :: log)) := by
  have passed : outsideTicks cfg log ≤ outsideTicks cfg ((.tick,tdata) :: log) := Nat.le_add_left _ _
  rcases charged with settled | called
  · exact Nested.advance settled passed
  · obtain ⟨n,height⟩ : ∃ n, tdata.stackDepth = n + 1 := ⟨tdata.stackDepth - 1,by have := called.nonempty; omega⟩
    obtain ⟨running,-,start,fresh,below⟩ := called
    rw [height,Nat.add_sub_cancel] at start fresh below
    have later : outsideTicks cfg ((.tick,tdata) :: log) = 1 + outsideTicks cfg log := outside_running .tick running
    have depth : recordedDepth cfg {tdata with cost := tdata.cost + 1} = n + 1 :=
      (clock.counted.recorded_iff.mp running).trans height
    have inside : starts tdata n + (childrenCosts tdata n + 1) ≤ outsideTicks cfg ((.tick,tdata) :: log) := by omega
    rw [CostsSettled,depth]
    refine ⟨inside,?_⟩
    change Nested (starts tdata) (fun i => childrenCosts tdata i + 1) n (starts tdata n)
    rw [start]
    exact below

theorem charged_enter (clock : Clock cfg log tdata) (few : outsideTicks cfg log < 2 ^ 64) {sp : UInt64} {f : FnPtr}
    (settled : CostsSettled cfg tdata (outsideTicks cfg log)) (entered : CostsEntered cfg tdata after f) :
    CostsSettled cfg after (outsideTicks cfg ((.enter sp f,tdata) :: log)) ∨
      JustCalled after (outsideTicks cfg ((.enter sp f,tdata) :: log)) := by
  have still : outsideTicks cfg ((.enter sp f,tdata) :: log) = outsideTicks cfg log := by
    rcases Nat.eq_zero_or_pos tdata.skip with running | stopped
    · rw [outside_running _ running,ticks,Nat.zero_add]
    · exact outside_stopped _ stopped
  have le := recordedDepth_le cfg tdata
  have slots : ∀ i, i < tdata.stackDepth → starts after i = starts tdata i ∧ childrenCosts after i = childrenCosts tdata i := by
    intro i bound
    simp only [starts,childrenCosts,entered.slots i (Nat.ne_of_lt bound)]
    exact ⟨trivial,trivial⟩
  rw [still]
  by_cases hidden : (cfg.fn f).skip = true ∨ 0 < tdata.skip
  · exact .inl (settled.same (entered.hidden hidden).2 fun i below => slots i (by omega))
  · have plain : (cfg.fn f).skip = false := by
      by_contra skipped
      exact hidden (Or.inl (by simpa using skipped))
    have running : tdata.skip = 0 := Nat.eq_zero_of_not_pos fun pending => hidden (Or.inr pending)
    obtain ⟨running',children⟩ := entered.recorded plain running
    refine .inr ⟨running',by rw [entered.depth]; exact Nat.succ_pos _,?_,?_,?_⟩
    · rw [entered.depth,Nat.add_sub_cancel,starts,entered.start]
      exact toNat_ticks (clock.running running) few
    · rw [entered.depth,Nat.add_sub_cancel,childrenCosts,children]
      rfl
    · rw [entered.depth,Nat.add_sub_cancel]
      rw [CostsSettled,clock.counted.recorded_iff.mp running] at settled
      exact settled.congr (fun i below => (slots i below).1) fun i below => congrArg (· + 1) (slots i below).2

theorem settled_pop {n : Nat} (running : tdata.skip = 0) (height : tdata.stackDepth = n + 1) (shared : Shared)
    (lower : recordedDepth cfg (popShared cfg shared tdata).2 = n)
    (below : Nested (starts tdata) (fun i => childrenCosts tdata i + 1) n (starts tdata n)) (le : starts tdata n ≤ now)
    (few : now < 2 ^ 64) (cumul : (exitCumul cfg tdata).toNat = now - starts tdata n) :
    CostsSettled cfg (popShared cfg shared tdata).2 now := by
  have same : ∀ i, starts (popShared cfg shared tdata).2 i = starts tdata i := fun i =>
    congrArg UInt64.toNat (popShared_starts cfg shared tdata i)
  rw [CostsSettled,lower]
  cases n with
  | zero => trivial
  | succ m =>
    obtain ⟨others,adds⟩ := @popShared_spent cfg tdata m running height shared
    obtain ⟨inside,deeper⟩ := below
    have inside : starts tdata m + (childrenCosts tdata m + 1) ≤ starts tdata (m + 1) := inside
    rw [cumul] at adds
    have adds := adds (by omega)
    constructor
    · dsimp only
      rw [same,adds]
      omega
    · rw [same]
      exact deeper.congr (fun i _ => same i) fun i less => congrArg (· + 1) (others i (Nat.ne_of_lt less))

theorem settled_exit (clock : Clock cfg log tdata) (settled : CostsSettled cfg tdata (outsideTicks cfg log))
    (nonempty : 0 < tdata.stackDepth) (shared : Shared) (few : outsideTicks cfg ((.exit,tdata) :: log) < 2 ^ 64) :
    (tdata.skip = 0 → Costly cfg tdata) ∧
      CostsSettled cfg (popShared cfg shared tdata).2 (outsideTicks cfg ((.exit,tdata) :: log)) := by
  have depth := popShared_recordedDepth clock.counted shared nonempty
  have passed : outsideTicks cfg log ≤ outsideTicks cfg ((.exit,tdata) :: log) := Nat.le_add_left _ _
  rcases Nat.eq_zero_or_pos tdata.skip with running | stopped
  · obtain ⟨n,height⟩ : ∃ n, tdata.stackDepth = n + 1 := ⟨tdata.stackDepth - 1,by omega⟩
    obtain ⟨le,cumul⟩ := clock.exitCost settled.nested nonempty running few
    rw [if_pos running] at depth
    rw [height,Nat.add_sub_cancel] at le cumul depth
    have top : tdata.top = tdata.stack n := by rw [ThreadData.top,height,Nat.add_sub_cancel]
    rw [CostsSettled,clock.counted.recorded_iff.mp running,height] at settled
    obtain ⟨inside,below⟩ := settled
    have inside : starts tdata n + (childrenCosts tdata n + 1) ≤ outsideTicks cfg log := inside
    have covered : childrenCosts tdata n < (exitCumul cfg tdata).toNat := by omega
    have less : tdata.top.sumChildrenCost < exitCumul cfg tdata := by
      rw [UInt64.lt_iff_toNat_lt,top]
      exact covered
    refine ⟨fun _ => ⟨?_,?_⟩,settled_pop running height shared depth below le few cumul⟩
    · exact UInt64.lt_iff_toNat_lt.mpr (Nat.lt_of_le_of_lt (Nat.zero_le _) covered)
    · rw [UInt64.lt_iff_toNat_lt,UInt64.toNat_sub_of_le _ _ (UInt64.le_of_lt less)]
      exact Nat.sub_pos_of_lt (UInt64.lt_iff_toNat_lt.mp less)
  · rw [if_neg (Nat.pos_iff_ne_zero.mp stopped)] at depth
    obtain ⟨table,root,same⟩ := popShared_skipped cfg shared tdata stopped
    refine ⟨fun running => absurd running (Nat.pos_iff_ne_zero.mp stopped),?_⟩
    have settled' : CostsSettled cfg (popShared cfg shared tdata).2 (outsideTicks cfg log) := by
      refine settled.same depth fun i _ => ?_
      rw [same]
      exact ⟨rfl,rfl⟩
    exact Nested.advance settled' passed

theorem called_exit (clock : Clock cfg log tdata) (called : JustCalled tdata (outsideTicks cfg log)) (shared : Shared)
    (few : outsideTicks cfg ((.exit,tdata) :: log) < 2 ^ 64) :
    (exitCumul cfg tdata).toNat = ticks cfg (.exit,tdata) ∧ tdata.top.sumChildrenCost = 0 ∧
      CostsSettled cfg (popShared cfg shared tdata).2 (outsideTicks cfg ((.exit,tdata) :: log)) := by
  obtain ⟨n,height⟩ : ∃ n, tdata.stackDepth = n + 1 := ⟨tdata.stackDepth - 1,by have := called.nonempty; omega⟩
  obtain ⟨le,cumul⟩ := clock.exitCost (called.nested clock) called.nonempty called.running few
  have depth := popShared_recordedDepth clock.counted shared called.nonempty
  have later : outsideTicks cfg ((.exit,tdata) :: log) = ticks cfg (.exit,tdata) + outsideTicks cfg log :=
    outside_running .exit called.running
  obtain ⟨running,-,start,fresh,below⟩ := called
  rw [if_pos running] at depth
  rw [height,Nat.add_sub_cancel] at le cumul depth start fresh below
  have top : tdata.top = tdata.stack n := by rw [ThreadData.top,height,Nat.add_sub_cancel]
  refine ⟨by omega,?_,settled_pop running height shared depth (start.symm ▸ below) le few cumul⟩
  rw [top]
  exact UInt64.toNat_inj.mp fresh

end

/-- Inside a block every recorded call has had time of its own, after it perhaps not
the one that it made. -/
def Charged (cfg : Config) (tdata : ThreadData) (now : Nat) : Phase → Prop
  | .starting => CostsSettled cfg tdata now
  | .running => CostsSettled cfg tdata now ∨ JustCalled tdata now

section
variable {cfg : Config} {tid : Nat} {phase : Phase} {tdata : ThreadData} {log : ThreadLog}

theorem storeReturn_slots (tdata : ThreadData) (retAddr : UInt64) (i : Nat) :
    let after := tdata.setTop fun act => {act with retAddr := retAddr}
    (after.stack i).routineInfo = (tdata.stack i).routineInfo ∧ (after.stack i).start = (tdata.stack i).start ∧
      (after.stack i).sumChildrenCost = (tdata.stack i).sumChildrenCost := by
  simp only [ThreadData.setTop,ThreadData.setSlot,Function.update_apply]
  split
  · next equal =>
    rw [equal]
    exact ⟨rfl,rfl,rfl⟩
  · exact ⟨rfl,rfl,rfl⟩

theorem BlockRun.clock (life : BlockRun cfg tid phase log tdata) : Clock cfg log tdata := by
  induction life with
  | fresh shadow => exact .fresh tid shadow
  | tick life ih => exact ih.tick
  | exit life shared nonempty ih => exact ih.exit shared nonempty
  | @storeReturn log tdata life retAddr ih =>
    have slots := storeReturn_slots tdata retAddr
    exact ih.same rfl rfl rfl rfl (fun i => (slots i).1) fun i => (slots i).2.1
  | enter life shared sp f push ih => exact ih.enter (functionEnter_costs ih.counted shared push)
  | plain life ih => exact ih
  | access life same ih =>
    have fields := control_fields same
    exact ih.same fields.cost fields.skipCost fields.skip fields.depth fields.routineInfo fields.start

theorem outside_cons_le (op : ThreadOp) : outsideTicks cfg log ≤ outsideTicks cfg ((op,tdata) :: log) :=
  Nat.le_add_left _ _

theorem BlockRun.charged (life : BlockRun cfg tid phase log tdata) (few : outsideTicks cfg log < 2 ^ 64) :
    Charged cfg tdata (outsideTicks cfg log) phase ∧ ∀ exit ∈ log, exit.1 = .exit → exit.2.skip = 0 → Costly cfg exit.2 := by
  induction life with
  | fresh shadow => exact ⟨.inl trivial,nofun⟩
  | tick life ih =>
    obtain ⟨charged,costs⟩ := ih (lt_of_le_of_lt (outside_cons_le _) few)
    exact ⟨settled_tick life.clock charged,List.forall_mem_cons.mpr ⟨nofun,costs⟩⟩
  | exit life shared nonempty ih =>
    obtain ⟨settled,costs⟩ := ih (lt_of_le_of_lt (outside_cons_le _) few)
    obtain ⟨cost,after⟩ := settled_exit life.clock settled nonempty shared few
    exact ⟨after,List.forall_mem_cons.mpr ⟨fun _ => cost,costs⟩⟩
  | @storeReturn log tdata life retAddr ih =>
    obtain ⟨settled,costs⟩ := ih few
    have slots := storeReturn_slots tdata retAddr
    have counted := @SkipCounted.congr cfg tdata (tdata.setTop fun act => {act with retAddr := retAddr}) life.clock.counted
      rfl rfl fun i _ => (slots i).1
    exact ⟨CostsSettled.same settled counted.2 fun i _ => ⟨congrArg UInt64.toNat (slots i).2.1,congrArg UInt64.toNat (slots i).2.2⟩,
      costs⟩
  | enter life shared sp f push ih =>
    obtain ⟨settled,costs⟩ := ih (lt_of_le_of_lt (outside_cons_le _) few)
    have earlier := lt_of_le_of_lt (outside_cons_le _) few
    exact ⟨charged_enter life.clock earlier settled (functionEnter_costs life.clock.counted shared push),
      List.forall_mem_cons.mpr ⟨nofun,costs⟩⟩
  | plain life ih =>
    obtain ⟨settled,costs⟩ := ih few
    exact ⟨.inl settled,costs⟩
  | @access log tdata after life same ih =>
    obtain ⟨charged,costs⟩ := ih few
    have fields := control_fields same
    have slots : ∀ i, starts after i = starts tdata i ∧ childrenCosts after i = childrenCosts tdata i := fun i =>
      ⟨congrArg UInt64.toNat (fields.start i),congrArg UInt64.toNat (fields.sumChildrenCost i)⟩
    refine ⟨?_,costs⟩
    rcases charged with settled | called
    · exact .inl (settled.same (fields.counted life.clock.counted).2 fun i _ => slots i)
    · exact .inr (called.same fields.skip fields.depth slots)

theorem outside_unwind_le (n : Nat) (state : Shared × ThreadData) (log : ThreadLog) :
    outsideTicks cfg log ≤ outsideTicks cfg (unwindLog cfg n state log) := by
  induction n generalizing state log with
  | zero => exact Nat.le_refl _
  | succ n ih => exact (outside_cons_le _).trans (ih _ _)

theorem mem_unwindLog (n : Nat) (state : Shared × ThreadData) {entry : ThreadOp × ThreadData} (member : entry ∈ log) :
    entry ∈ unwindLog cfg n state log := by
  induction n generalizing state log with
  | zero => exact member
  | succ n ih => exact ih _ (List.mem_cons_of_mem _ member)

theorem unwind_costly {n : Nat} {shared : Shared} (bound : n ≤ tdata.stackDepth) (clock : Clock cfg log tdata)
    (settled : CostsSettled cfg tdata (outsideTicks cfg log))
    (few : outsideTicks cfg (unwindLog cfg n (shared,tdata) log) < 2 ^ 64)
    (costs : ∀ exit ∈ log, InTuple cfg exit → Costly cfg exit.2) :
    ∀ exit ∈ unwindLog cfg n (shared,tdata) log, InTuple cfg exit → Costly cfg exit.2 := by
  induction n generalizing tdata log shared with
  | zero => exact costs
  | succ n ih =>
    have earlier := lt_of_le_of_lt (outside_unwind_le n (popShared cfg shared tdata) ((.exit,tdata) :: log)) few
    obtain ⟨cost,after⟩ := settled_exit clock settled (by omega) shared earlier
    have inside : n ≤ (popShared cfg shared tdata).2.stackDepth := by
      rw [popShared_depth]
      omega
    exact ih inside (clock.exit shared (by omega)) after few
      (List.forall_mem_cons.mpr ⟨fun recorded => cost recorded.2.1,costs⟩)

/-- The last block made a call that will be recorded, and the exit adds nothing to its cost. -/
def EntersLast (cfg : Config) (tdata : ThreadData) : Prop :=
  (tdata.skip = 0 ∧ 0 < tdata.stackDepth) ∧ (cfg.fn tdata.top.routineInfo).discard = false ∧ tdata.top.start = time tdata ∧
    ticks cfg (.exit,tdata) = 0

theorem BlockRun.costly_iff (life : BlockRun cfg tid .running log tdata) (shared : Shared)
    (few : outsideTicks cfg (unwindLog cfg tdata.stackDepth (shared,tdata) log) < 2 ^ 64) :
    (∀ exit ∈ unwindLog cfg tdata.stackDepth (shared,tdata) log, InTuple cfg exit → Costly cfg exit.2) ↔
      ¬ EntersLast cfg tdata := by
  have before := lt_of_le_of_lt (outside_unwind_le tdata.stackDepth (shared,tdata) log) few
  obtain ⟨charged,costs⟩ := life.charged before
  have costs : ∀ exit ∈ log, InTuple cfg exit → Costly cfg exit.2 := fun exit member recorded =>
    costs exit member recorded.1 recorded.2.1
  have clock := life.clock
  constructor
  · rintro costly ⟨⟨running,nonempty⟩,kept,start,free⟩
    obtain ⟨n,height⟩ : ∃ n, tdata.stackDepth = n + 1 := ⟨tdata.stackDepth - 1,by omega⟩
    have member : (.exit,tdata) ∈ unwindLog cfg tdata.stackDepth (shared,tdata) log := by
      rw [height]
      exact mem_unwindLog n _ List.mem_cons_self
    have cost := (costly _ member ⟨rfl,running,kept⟩).1
    have none : exitCumul cfg tdata = 0 := by
      rw [exitCumul,exitTicks_eq,free,start,time]
      grind
    rw [none] at cost
    exact absurd cost (by decide)
  · intro clean
    rcases charged with settled | called
    · exact unwind_costly (Nat.le_refl _) clock settled few costs
    · obtain ⟨n,height⟩ : ∃ n, tdata.stackDepth = n + 1 := ⟨tdata.stackDepth - 1,by have := called.nonempty; omega⟩
      rw [height] at few ⊢
      have earlier := lt_of_le_of_lt (outside_unwind_le n (popShared cfg shared tdata) ((.exit,tdata) :: log)) few
      obtain ⟨cumul,children,settled⟩ := called_exit clock called shared earlier
      have inside : n ≤ (popShared cfg shared tdata).2.stackDepth := by
        rw [popShared_depth]
        omega
      refine @unwind_costly cfg (popShared cfg shared tdata).2 ((.exit,tdata) :: log) n (popShared cfg shared tdata).1 inside
        (clock.exit shared called.nonempty) settled few (List.forall_mem_cons.mpr ⟨?_,costs⟩)
      intro recorded
      -- the call is recorded, so the dope function has made it cost something
      have positive : 0 < ticks cfg (.exit,tdata) := by
        by_contra free
        refine clean ⟨⟨called.running,called.nonempty⟩,recorded.2.2,?_,by omega⟩
        rw [clock.running called.running,← called.start]
        exact UInt64.ofNat_toNat.symm
      have cost : 0 < exitCumul cfg tdata := by
        rw [UInt64.lt_iff_toNat_lt,cumul]
        exact positive
      rw [Costly,children,UInt64.sub_zero]
      exact ⟨cost,cost⟩

end

theorem xorMin_eq (x y : UInt64) : xorMin x y = if y < x then y else x := by
  unfold xorMin
  split
  · have ones : (0 : UInt64) - 1 = -1 := by decide
    rw [ones,UInt64.and_neg_one,UInt64.xor_comm y,← UInt64.xor_assoc,UInt64.xor_self,UInt64.zero_xor]
  · rw [UInt64.and_zero,UInt64.xor_zero]

def PositiveMinima (inputMap : HashTable (Input UInt64)) : Prop :=
  ∀ tuple ∈ inputMap.nodes, 0 < tuple.minCumulativeCost ∧ 0 < tuple.minSelfCost

section
variable {cfg : Config} {tdata : ThreadData}

theorem positiveMinima_record {act : Activation} {context : UInt32} {cumul self : UInt64} {outermost : Bool}
    {inputMap : HashTable (Input UInt64)} (positive : PositiveMinima inputMap) (cost : 0 < cumul ∧ 0 < self) :
    PositiveMinima (recordTuple cfg act context cumul self outermost inputMap) := by
  have added : ∀ tuple : Input UInt64, 0 < tuple.minCumulativeCost ∧ 0 < tuple.minSelfCost →
      0 < (accumulate act cumul self outermost tuple).minCumulativeCost ∧
        0 < (accumulate act cumul self outermost tuple).minSelfCost := by
    rintro tuple ⟨first,second⟩
    change 0 < xorMin _ _ ∧ 0 < xorMin _ _
    rw [xorMin_eq,xorMin_eq]
    constructor
    · split
      · exact cost.1
      · exact first
    · split
      · exact cost.2
      · exact second
  unfold recordTuple
  dsimp only
  split
  · intro tuple member
    rcases mem_htAddNode.mp member with rfl | older
    · refine added _ ⟨?_,?_⟩
      · exact (by decide : (0 : UInt64) < 0 - 1)
      · exact (by decide : (0 : UInt64) < 0 - 1)
    · exact positive tuple older
  · next found tuple =>
    obtain ⟨before,after,split,changed⟩ :=
      @htUpdate_split _ _ _ _ _ (accumulate act cumul self outermost) (fun _ => rfl) _ tuple
    rw [PositiveMinima,split] at positive
    rw [PositiveMinima,changed]
    intro tuple member
    rcases List.mem_append.mp member with first | rest
    · exact positive tuple (List.mem_append_left _ first)
    · rcases List.mem_cons.mp rest with rfl | last
      · exact added _ (positive _ (List.mem_append_right _ List.mem_cons_self))
      · exact positive tuple (List.mem_append_right _ (List.mem_cons_of_mem _ last))

/-- A costly return keeps the minima of every function positive, wherever its tuples are kept. -/
theorem popShared_minima (table : RoutineTable tdata) (nonempty : 0 < tdata.stackDepth) (shared : Shared)
    (costly : InTuple cfg (.exit,tdata) → Costly cfg tdata) {f : FnPtr}
    (positive : PositiveMinima (keptTuples cfg shared tdata f)) :
    PositiveMinima (keptTuples cfg (popShared cfg shared tdata).1 (popShared cfg shared tdata).2 f) := by
  obtain ⟨context,same⟩ := @keptTuples_pop cfg tdata table nonempty shared f
  rw [same]
  split
  · next recorded =>
    obtain ⟨⟨running,called⟩,kept⟩ := recorded
    exact positiveMinima_record positive (costly ⟨rfl,running,called ▸ kept⟩)
  · exact positive

end

section
variable {cfg : Config} {tid : Nat} {phase : Phase} {tdata : ThreadData} {log : ThreadLog}

theorem BlockRun.table (life : BlockRun cfg tid phase log tdata) :
    RoutineTable tdata ∧ ∀ exit ∈ log, exit.1 = .exit → 0 < exit.2.stackDepth ∧ RoutineTable exit.2 := by
  induction life with
  | fresh shadow => exact ⟨⟨htConstruct_keyed,nofun⟩,nofun⟩
  | tick life ih =>
    obtain ⟨table,exits⟩ := ih
    exact ⟨⟨table.keyed,table.registered⟩,List.forall_mem_cons.mpr ⟨nofun,exits⟩⟩
  | @exit log tdata life shared nonempty ih =>
    obtain ⟨table,exits⟩ := ih
    refine ⟨table.kept (popShared_kept cfg shared tdata) (by rw [popShared_depth]; omega)
      fun i _ => popShared_routines cfg shared tdata i,List.forall_mem_cons.mpr ⟨fun _ => ⟨nonempty,table⟩,exits⟩⟩
  | @storeReturn log tdata life retAddr ih =>
    obtain ⟨table,exits⟩ := ih
    exact ⟨table.kept (.same rfl) (Nat.le_refl _) fun i _ => (storeReturn_slots tdata retAddr i).1,exits⟩
  | enter life shared sp f push ih =>
    obtain ⟨table,exits⟩ := ih
    obtain ⟨-,table',-,-⟩ := functionEnter_tables table shared push
    exact ⟨table',List.forall_mem_cons.mpr ⟨nofun,exits⟩⟩
  | plain life ih => exact ih
  | access life same ih =>
    have fields := control_fields same
    exact ⟨ih.1.kept (.same fields.routines) (Nat.le_of_eq fields.depth) fun i _ => fields.routineInfo i,ih.2⟩

theorem keptTuples_own (separate : cfg.singleReport = false) (shared : Shared) (tdata : ThreadData) (f : FnPtr) :
    keptTuples cfg shared tdata f = (tdata.routine f).inputMap := if_neg (by simp [separate])

theorem BlockRun.minima (separate : cfg.singleReport = false) (life : BlockRun cfg tid phase log tdata)
    (costs : ∀ exit ∈ log, InTuple cfg exit → Costly cfg exit.2) (f : FnPtr) : PositiveMinima (tdata.routine f).inputMap := by
  induction life with
  | fresh shadow =>
    rw [newThread_routine]
    intro tuple member
    rw [show emptyRoutine.inputMap = htConstruct from rfl,htConstruct_nodes] at member
    cases member
  | tick life ih => exact ih (List.forall_mem_cons.mp costs).2
  | @exit log tdata life shared nonempty ih =>
    obtain ⟨own,earlier⟩ := List.forall_mem_cons.mp costs
    have kept := popShared_minima (f := f) life.table.1 nonempty shared own
    rw [keptTuples_own separate,keptTuples_own separate] at kept
    exact kept (ih earlier)
  | storeReturn life retAddr ih => exact ih costs
  | enter life shared sp g push ih =>
    obtain ⟨-,-,inputMap,-⟩ := functionEnter_tables life.table.1 shared push
    rw [inputMap separate]
    exact ih (List.forall_mem_cons.mp costs).2
  | plain life ih => exact ih costs
  | @access log tdata after life same ih =>
    have fields := control_fields same
    rw [ThreadData.routine,fields.routines]
    exact ih costs

theorem unwind_table {n : Nat} {shared : Shared} (bound : n ≤ tdata.stackDepth) (table : RoutineTable tdata)
    (exits : ∀ exit ∈ log, exit.1 = .exit → 0 < exit.2.stackDepth ∧ RoutineTable exit.2) :
    ∀ exit ∈ unwindLog cfg n (shared,tdata) log, exit.1 = .exit → 0 < exit.2.stackDepth ∧ RoutineTable exit.2 := by
  induction n generalizing tdata log shared with
  | zero => exact exits
  | succ n ih =>
    have inside : n ≤ (popShared cfg shared tdata).2.stackDepth := by
      rw [popShared_depth]
      omega
    have table' := table.kept (popShared_kept cfg shared tdata) (by rw [popShared_depth]; omega)
      fun i _ => popShared_routines cfg shared tdata i
    have nonempty : 0 < tdata.stackDepth := by omega
    exact ih inside table' (List.forall_mem_cons.mpr ⟨fun _ => ⟨nonempty,table⟩,exits⟩)

theorem unwind_minima (separate : cfg.singleReport = false) {n : Nat} {shared : Shared} {f : FnPtr}
    (bound : n ≤ tdata.stackDepth) (table : RoutineTable tdata) (positive : PositiveMinima (tdata.routine f).inputMap)
    (costs : ∀ exit ∈ unwindLog cfg n (shared,tdata) log, InTuple cfg exit → Costly cfg exit.2) :
    PositiveMinima ((unwindShared cfg n (shared,tdata)).2.routine f).inputMap := by
  induction n generalizing tdata log shared with
  | zero => exact positive
  | succ n ih =>
    have inside : n ≤ (popShared cfg shared tdata).2.stackDepth := by
      rw [popShared_depth]
      omega
    have table' := table.kept (popShared_kept cfg shared tdata) (by rw [popShared_depth]; omega)
      fun i _ => popShared_routines cfg shared tdata i
    have own := costs (.exit,tdata) (mem_unwindLog n _ List.mem_cons_self)
    have kept := popShared_minima (f := f) table (by omega) shared own
    rw [keptTuples_own separate,keptTuples_own separate] at kept
    exact ih inside table' (kept positive) costs

end

/-- No recorded call of the thread has zero cost, up to its exit: the report prints
positive minima, and with a single report the returns keep the shared ones positive. -/
structure NoZeroCosts (cfg : Config) (log : ThreadLog) (shared : Shared) (tdata : ThreadData) : Prop where
  costly : ∀ exit ∈ unwindLog cfg tdata.stackDepth (shared,tdata) log, InTuple cfg exit → Costly cfg exit.2
  printed : cfg.singleReport = false →
    ∀ f, PositiveMinima ((unwindShared cfg tdata.stackDepth (shared,tdata)).2.routine f).inputMap
  kept : ∀ exit ∈ unwindLog cfg tdata.stackDepth (shared,tdata) log, exit.1 = .exit → ∀ shared f,
    PositiveMinima (keptTuples cfg shared exit.2 f) →
      PositiveMinima (keptTuples cfg (popShared cfg shared exit.2).1 (popShared cfg shared exit.2).2 f)

/-- A thread that exits has recorded no call of zero cost just when its last block made
no call that is recorded. The threads of a traced run live and exit so. -/
theorem no_zero_costs_iff (cfg : Config) :
    (∀ tid log tdata shared, BlockRun cfg tid .running log tdata →
      outsideTicks cfg (unwindLog cfg tdata.stackDepth (shared,tdata) log) < 2 ^ 64 →
      (NoZeroCosts cfg log shared tdata ↔ ¬ EntersLast cfg tdata)) ∧
    ∀ (c : Counter) events (first tr : Tracer c), Tracer.initial c cfg = .ok first → first.run cfg events = .ok tr →
      BlockLives cfg tr.rt fun _ => .running := by
  refine ⟨?_,fun c events first tr created ok => trace_lives created ok⟩
  intro tid log tdata shared life few
  constructor
  · intro clean
    exact (life.costly_iff shared few).mp clean.costly
  · intro last
    have costly := (life.costly_iff shared few).mpr last
    obtain ⟨table,exits⟩ := life.table
    refine ⟨costly,fun separate f => ?_,?_⟩
    · have minima := life.minima separate (fun exit member => costly exit (mem_unwindLog _ _ member)) f
      exact unwind_minima separate (Nat.le_refl _) table minima costly
    · intro exit member left shared' f positive
      obtain ⟨nonempty,table'⟩ := unwind_table (Nat.le_refl _) table exits exit member left
      obtain ⟨op,tdata'⟩ := exit
      cases left
      exact popShared_minima table' nonempty shared' (costly _ member) positive

/-- A call, and one more block before the exit. -/
theorem no_zero_costs_one_call : ∃ log tdata, BlockRun (smallConfig .rms) 1 .running log tdata ∧
    tdata.stackDepth = 1 ∧ NoZeroCosts (smallConfig .rms) log ⟨fun _ => htConstruct,[]⟩ tdata := by
  have life : ∃ log tdata, BlockRun (smallConfig .rms) 1 .running log tdata ∧ tdata.stackDepth = 1 ∧
      outsideTicks (smallConfig .rms) (unwindLog (smallConfig .rms) tdata.stackDepth (⟨fun _ => htConstruct,[]⟩,tdata) log) =
        2 ∧ tdata.top.start ≠ time tdata := by
    have started : BlockRun (smallConfig .rms) 1 .running [] _ := .fresh blankTable
    have called := started.tick.enter ⟨fun _ => htConstruct,[]⟩ 100 0 rfl
    exact ⟨_,_,called.tick.plain,rfl,rfl,by decide⟩
  obtain ⟨log,tdata,life,one,few,passed⟩ := life
  refine ⟨log,tdata,life,one,?_⟩
  exact ((no_zero_costs_iff (smallConfig .rms)).1 1 log tdata _ life (by rw [few]; norm_num)).mpr fun last => passed last.2.2.1

def calledBlock : BB := ⟨200,4,.bbOther,0,false,true,0⟩

/-- The thread exits in the first block of a function: its call has cost 0. -/
theorem zero_cost_call : ∃ (first tr : Tracer .wrapping) (tdata : ThreadData),
    Tracer.initial .wrapping (smallConfig .rms) = .ok first ∧
    first.run (smallConfig .rms) [.threadSwitch 1,.bbStart {calledBlock with isEntry := false} 100,.bbEnd,
      .bbStart calledBlock 100,.bbEnd,.threadExit 1] = .ok tr ∧ tr.rt.reported = [(1,tdata)] ∧
    ∃ tuple ∈ (tdata.routine 0).inputMap.nodes, tuple.calls = 1 ∧ tuple.minCumulativeCost = 0 ∧ tuple.minSelfCost = 0 := by
  refine ⟨_,_,_,rfl,rfl,rfl,_,List.mem_singleton.mpr rfl,rfl,?_,?_⟩
  · decide
  · decide

end Aprof
