import Aprof.General.Intervals
import Aprof.ThreadRuns

/-! The cost of a thread. Time stands still while a skipped call is pending, so
the intervals of the recorded activations nest on one clock, the ticks that fell
outside skipped calls. -/
namespace Aprof

/-- By how much an operation raises the cost: `dope` raises it at a return. -/
def ticks (cfg : Config) : ThreadOp × ThreadData → Nat
  | (.tick,_) => 1
  | (.enter _ _,_) => 0
  | (.exit,tdata) =>
    if cfg.dopeFn = some (cfg.fn tdata.top.routineInfo).name then
      (tdata.top.inputSize.toUInt64 * tdata.top.inputSize.toUInt64).toNat
    else 0

/-- The ticks of the operations that were applied to states with the property. -/
def ticksWhen (cfg : Config) (when : ThreadData → Bool) (log : ThreadLog) : Nat :=
  (log.map fun entry => if when entry.2 then ticks cfg entry else 0).sum

def allTicks (cfg : Config) : ThreadLog → Nat := ticksWhen cfg fun _ => true

/-- Ticks outside skipped calls, and those inside. -/
def outsideTicks (cfg : Config) : ThreadLog → Nat := ticksWhen cfg fun tdata => tdata.skip == 0

def insideTicks (cfg : Config) : ThreadLog → Nat := ticksWhen cfg fun tdata => tdata.skip != 0

theorem ticksWhen_cons (cfg : Config) (when : ThreadData → Bool) (entry : ThreadOp × ThreadData) (log : ThreadLog) :
    ticksWhen cfg when (entry :: log) = (if when entry.2 then ticks cfg entry else 0) + ticksWhen cfg when log := rfl

theorem outside_inside (cfg : Config) (log : ThreadLog) :
    allTicks cfg log = outsideTicks cfg log + insideTicks cfg log := by
  induction log with
  | nil => rfl
  | cons entry log ih =>
    unfold allTicks outsideTicks insideTicks at ih ⊢
    rw [ticksWhen_cons,ticksWhen_cons,ticksWhen_cons,ih]
    by_cases recorded : entry.2.skip = 0
    · simp [recorded]
      omega
    · simp [recorded]
      omega

theorem exitTicks_eq (cfg : Config) (tdata : ThreadData) :
    exitTicks cfg tdata = tdata.cost + UInt64.ofNat (ticks cfg (.exit,tdata)) := by
  unfold exitTicks
  simp only [ticks]
  split
  · rw [UInt64.ofNat_toNat]
  · exact (UInt64.add_zero _).symm

section
variable {cfg : Config} {tdata : ThreadData}

structure CostsEntered (cfg : Config) (tdata after : ThreadData) (f : FnPtr) : Prop where
  cost : after.cost = tdata.cost
  skipCost : after.skipCost = tdata.skipCost
  depth : after.stackDepth = tdata.stackDepth + 1
  slots : ∀ i, i ≠ tdata.stackDepth → after.stack i = tdata.stack i
  start : (after.stack tdata.stackDepth).start = time tdata
  counted : SkipCounted cfg after
  hidden : (cfg.fn f).skip = true ∨ 0 < tdata.skip → 0 < after.skip ∧ recordedDepth cfg after = recordedDepth cfg tdata
  recorded : (cfg.fn f).skip = false → tdata.skip = 0 → after.skip = 0 ∧
    (after.stack tdata.stackDepth).sumChildrenCost = 0

theorem functionEnter_costs (counted : SkipCounted cfg tdata) (shared : Shared) {pushed : ThreadData} {sp : UInt64}
    {f : FnPtr} (push : pushFrame cfg tdata sp f = .ok pushed) :
    CostsEntered cfg tdata (Levels.functionEnter cfg shared pushed).2 f := by
  have opened := pushFrame_opened push
  have called : (enterStart pushed).top.routineInfo = f := pushFrame_routine push
  have flag : skipFlag cfg (enterStart pushed) tdata.stackDepth = (cfg.fn f).skip := by
    rw [skipFlag,← called,ThreadData.top,opened.more.depth,Nat.add_sub_cancel]
  have costs : (enterStart pushed).cost = tdata.cost ∧ (enterStart pushed).skipCost = tdata.skipCost ∧
      ((enterStart pushed).stack tdata.stackDepth).start = time tdata := by
    obtain ⟨size,table,next,rfl,-⟩ := pushFrame_ok push
    refine ⟨rfl,rfl,?_⟩
    simp [enterStart_eq,time]
  obtain ⟨cost,skipCost,start⟩ := costs
  have slots : ∀ i, i ≠ tdata.stackDepth →
      (Levels.functionEnter cfg shared pushed).2.stack i = tdata.stack i := by
    cases functionEnter_entered counted shared push with
    | hidden _ _ slots => exact slots
    | recorded _ _ _ slots => exact slots
  have counted' : SkipCounted cfg (Levels.functionEnter cfg shared pushed).2 := by
    cases functionEnter_entered counted shared push with
    | hidden counted => exact counted
    | recorded _ counted => exact counted
  have depth := functionEnter_depth shared push
  have skip := opened.skip
  unfold Levels.functionEnter at slots counted' depth ⊢
  dsimp only at slots counted' depth ⊢
  rw [called] at slots counted' depth ⊢
  by_cases skipped : (cfg.fn f).skip = true
  · rw [if_pos skipped] at slots counted' depth ⊢
    obtain ⟨-,same⟩ := opened.hidden counted (Or.inl (flag.trans skipped)) ((enterStart pushed).skip + 1)
      (by rw [flag,skip,if_pos skipped])
    exact ⟨cost,skipCost,depth,slots,start,counted',fun _ => ⟨Nat.succ_pos _,same⟩,
      fun plain => by rw [skipped] at plain; cases plain⟩
  · rw [if_neg skipped] at slots counted' depth ⊢
    by_cases skipping : (enterStart pushed).skip > 0
    · rw [if_pos skipping] at slots counted' depth ⊢
      obtain ⟨-,same⟩ := opened.hidden counted (Or.inr (by rw [← skip]; exact skipping)) (enterStart pushed).skip
        (by rw [flag,skip,if_neg skipped]; rfl)
      exact ⟨cost,skipCost,depth,slots,start,counted',fun _ => ⟨skipping,same⟩,fun _ free => by omega⟩
    · rw [if_neg skipping] at slots counted' depth ⊢
      obtain ⟨table,root,next,node,same⟩ := enterShared_eq cfg shared (enterStart pushed)
      have stack := congrArg ThreadData.stack same
      have top : (enterShared cfg shared (enterStart pushed)).2.stack tdata.stackDepth =
          resetCounts node (enterStart pushed).top := by
        rw [stack]
        simp only [opened.more.depth,Nat.add_sub_cancel,Function.update_self]
      have own : (enterStart pushed).top = (enterStart pushed).stack tdata.stackDepth := by
        rw [ThreadData.top,opened.more.depth,Nat.add_sub_cancel]
      refine ⟨(congrArg ThreadData.cost same).trans cost,(congrArg ThreadData.skipCost same).trans skipCost,depth,slots,
        ?_,counted',?_,?_⟩
      · rw [top,own]
        exact start
      · rintro (skip' | pending)
        · exact absurd skip' skipped
        · omega
      · intro _ free
        exact ⟨(congrArg ThreadData.skip same).trans (skip.trans free),by rw [top]; rfl⟩

end

/-- Time runs with the ticks outside skipped calls, and the lowest pending skipped
call has stopped it. Both sides count in 64 bits. -/
structure Clock (cfg : Config) (log : ThreadLog) (tdata : ThreadData) : Prop where
  counted : SkipCounted cfg tdata
  cost : tdata.cost = UInt64.ofNat (allTicks cfg log)
  running : tdata.skip = 0 → time tdata = UInt64.ofNat (outsideTicks cfg log)
  stopped : 0 < tdata.skip → (tdata.stack (recordedDepth cfg tdata)).start = UInt64.ofNat (outsideTicks cfg log)

section
variable {cfg : Config} {tdata after : ThreadData} {log : ThreadLog}

theorem outside_running (op : ThreadOp) (running : tdata.skip = 0) :
    outsideTicks cfg ((op,tdata) :: log) = ticks cfg (op,tdata) + outsideTicks cfg log := by
  simp [outsideTicks,ticksWhen_cons,running]

theorem outside_stopped (op : ThreadOp) (stopped : 0 < tdata.skip) :
    outsideTicks cfg ((op,tdata) :: log) = outsideTicks cfg log := by
  simp [outsideTicks,ticksWhen_cons,Nat.pos_iff_ne_zero.mp stopped]

theorem all_cons (op : ThreadOp) : allTicks cfg ((op,tdata) :: log) = ticks cfg (op,tdata) + allTicks cfg log := by
  simp [allTicks,ticksWhen_cons]

theorem ofNat_later (m n : Nat) : UInt64.ofNat (m + n) = UInt64.ofNat n + UInt64.ofNat m := by
  rw [UInt64.ofNat_add,UInt64.add_comm]

theorem later_sub (now skipped passed : UInt64) : now + passed - skipped = now - skipped + passed := by grind

theorem Clock.tick (clock : Clock cfg log tdata) :
    Clock cfg ((.tick,tdata) :: log) {tdata with cost := tdata.cost + 1} := by
  obtain ⟨counted,same⟩ := @SkipCounted.congr cfg tdata {tdata with cost := tdata.cost + 1} clock.counted rfl rfl
    fun _ _ => rfl
  refine ⟨counted,?_,?_,?_⟩
  · rw [all_cons,ofNat_later,← clock.cost]
    rfl
  · intro (running : tdata.skip = 0)
    have now := clock.running running
    rw [outside_running .tick running,ofNat_later,← now]
    simp only [time,ticks,UInt64.ofNat_one]
    exact later_sub _ _ _
  · intro (stopped : 0 < tdata.skip)
    rw [outside_stopped .tick stopped,same]
    exact clock.stopped stopped

theorem Clock.enter (clock : Clock cfg log tdata) {sp : UInt64} {f : FnPtr} (entered : CostsEntered cfg tdata after f) :
    Clock cfg ((.enter sp f,tdata) :: log) after := by
  have still : outsideTicks cfg ((.enter sp f,tdata) :: log) = outsideTicks cfg log := by
    rcases Nat.eq_zero_or_pos tdata.skip with running | stopped
    · rw [outside_running _ running,ticks,Nat.zero_add]
    · exact outside_stopped _ stopped
  have hides := clock.counted.hidden_iff
  have le := recordedDepth_le cfg tdata
  refine ⟨entered.counted,?_,?_,?_⟩
  · rw [entered.cost,all_cons,ticks,Nat.zero_add]
    exact clock.cost
  · intro running
    have plain : (cfg.fn f).skip = false ∧ tdata.skip = 0 := by
      by_contra hidden
      have either : (cfg.fn f).skip = true ∨ 0 < tdata.skip := by
        rcases flag : (cfg.fn f).skip with _ | _
        · right
          by_contra none
          exact hidden ⟨flag,by omega⟩
        · exact Or.inl rfl
      have pending := (entered.hidden either).1
      omega
    rw [still,time,entered.cost,entered.skipCost]
    exact clock.running plain.2
  · intro stopped
    rw [still]
    by_cases pending : 0 < tdata.skip
    · have inside := hides.mp pending
      rw [(entered.hidden (Or.inr pending)).2,entered.slots _ (by omega)]
      exact clock.stopped pending
    · have skipped : (cfg.fn f).skip = true := by
        by_contra plain
        have zero := (entered.recorded (by simpa using plain) (by omega)).1
        omega
      have all := clock.counted.recorded_iff.mp (by omega)
      rw [(entered.hidden (Or.inl skipped)).2,all,entered.start]
      exact clock.running (by omega)

/-- The time when `function_exit` takes it, of a recorded activation. -/
theorem Clock.exitTime (clock : Clock cfg log tdata) (running : tdata.skip = 0) :
    exitTicks cfg tdata - tdata.skipCost = UInt64.ofNat (outsideTicks cfg ((.exit,tdata) :: log)) := by
  rw [outside_running .exit running,ofNat_later,← clock.running running,exitTicks_eq,time,later_sub]

theorem Clock.exit (clock : Clock cfg log tdata) (shared : Shared) (nonempty : 0 < tdata.stackDepth) :
    Clock cfg ((.exit,tdata) :: log) (popShared cfg shared tdata).2 := by
  have counted := popShared_counted clock.counted shared nonempty
  have depth := popShared_recordedDepth clock.counted shared nonempty
  have cost : (popShared cfg shared tdata).2.cost = exitTicks cfg tdata := by
    rcases Nat.eq_zero_or_pos tdata.skip with running | stopped
    · obtain ⟨table,root,same⟩ := popShared_recorded cfg shared tdata running
      rw [same]
    · obtain ⟨table,root,same⟩ := popShared_skipped cfg shared tdata stopped
      rw [same]
  have total : (popShared cfg shared tdata).2.cost = UInt64.ofNat (allTicks cfg ((.exit,tdata) :: log)) := by
    rw [cost,exitTicks_eq,all_cons,ofNat_later,← clock.cost]
  rcases Nat.eq_zero_or_pos tdata.skip with running | stopped
  · obtain ⟨table,root,same⟩ := popShared_recorded cfg shared tdata running
    refine ⟨counted,total,?_,?_⟩
    · intro _
      rw [← clock.exitTime running,time,same]
    · intro stopped
      rw [same] at stopped
      exact absurd running (Nat.pos_iff_ne_zero.mp stopped)
  · obtain ⟨table,root,same⟩ := popShared_skipped cfg shared tdata stopped
    rw [if_neg (Nat.pos_iff_ne_zero.mp stopped)] at depth
    have frozen := clock.stopped stopped
    refine ⟨counted,total,?_,?_⟩
    · intro running
      -- the skipped call on top is the lowest one, its length is added to the skipped cost
      have top : recordedDepth cfg tdata = tdata.stackDepth - 1 := by
        rw [← depth]
        exact counted.recorded_iff.mp running
      have last : skipFlag cfg tdata (tdata.stackDepth - 1) = true := by
        by_contra plain
        rw [same] at running
        simp only [plain] at running
        simp at running
        omega
      rw [outside_stopped .exit stopped,← frozen,top,same]
      simp only [time,last,if_true,exitCumul,ThreadData.top]
      generalize exitTicks cfg tdata = now
      generalize (tdata.stack (tdata.stackDepth - 1)).start = start
      grind
    · intro _
      rw [outside_stopped .exit stopped,depth,← frozen,same]

theorem Clock.same (clock : Clock cfg log tdata) (cost : after.cost = tdata.cost) (skipCost : after.skipCost = tdata.skipCost)
    (skip : after.skip = tdata.skip) (depth : after.stackDepth = tdata.stackDepth)
    (routines : ∀ i, (after.stack i).routineInfo = (tdata.stack i).routineInfo)
    (starts : ∀ i, (after.stack i).start = (tdata.stack i).start) : Clock cfg log after := by
  obtain ⟨counted,recorded⟩ := clock.counted.congr skip depth fun i _ => routines i
  refine ⟨counted,cost.trans clock.cost,fun running => ?_,fun stopped => ?_⟩
  · rw [time,cost,skipCost]
    exact clock.running (skip ▸ running)
  · rw [recorded,starts]
    exact clock.stopped (skip ▸ stopped)

theorem Clock.fresh (tid : Nat) (shadow : LookupTable Nat) : Clock cfg [] (newThread cfg tid shadow) :=
  ⟨(Nat.count_zero _).symm,rfl,fun _ => UInt64.sub_self 0,fun stopped => absurd stopped (Nat.lt_irrefl 0)⟩

theorem ThreadRun.clock {entry : ThreadData → FnPtr → Prop} {tid : Nat} (life : ThreadRun cfg entry tid log tdata) :
    Clock cfg log tdata := by
  induction life with
  | fresh shadow => exact .fresh tid shadow
  | tick life ih => exact ih.tick
  | enter life shared sp f permitted push ih => exact ih.enter (functionEnter_costs ih.counted shared push)
  | exit life shared nonempty ih => exact ih.exit shared nonempty
  | @access log tdata after life same ih =>
    have fields := control_fields same
    exact ih.same fields.cost fields.skipCost fields.skip fields.depth fields.routineInfo fields.start

end

/-- The costs of the returns that are recorded, the discarded functions included. -/
def selfOf (cfg : Config) : ThreadOp × ThreadData → Nat
  | (.exit,tdata) => if tdata.skip = 0 then (exitCumul cfg tdata - tdata.top.sumChildrenCost).toNat else 0
  | _ => 0

def outermostOf (cfg : Config) : ThreadOp × ThreadData → Nat
  | (.exit,tdata) => if tdata.skip = 0 ∧ tdata.stackDepth = 1 then (exitCumul cfg tdata).toNat else 0
  | _ => 0

def selfCosts (cfg : Config) (log : ThreadLog) : Nat := (log.map (selfOf cfg)).sum

def outermostCosts (cfg : Config) (log : ThreadLog) : Nat := (log.map (outermostOf cfg)).sum

/-- Ticks while there is a pending activation and none of a skipped function. -/
def busyTicks (cfg : Config) : ThreadLog → Nat :=
  ticksWhen cfg fun tdata => tdata.skip == 0 && decide (0 < tdata.stackDepth)

def starts (tdata : ThreadData) (i : Nat) : Nat := (tdata.stack i).start.toNat

def childrenCosts (tdata : ThreadData) (i : Nat) : Nat := (tdata.stack i).sumChildrenCost.toNat

/-- The recorded activations nest on the clock, their own time so far and the self
costs already recorded make up the busy ticks, and so do the outermost calls. -/
structure Accounts (cfg : Config) (log : ThreadLog) (tdata : ThreadData) : Prop where
  nested : Intervals.Nested (starts tdata) (childrenCosts tdata) (recordedDepth cfg tdata) (outsideTicks cfg log)
  self : selfCosts cfg log + Intervals.own (starts tdata) (childrenCosts tdata) (recordedDepth cfg tdata)
    (outsideTicks cfg log) = busyTicks cfg log
  outermost : outermostCosts cfg log +
    (if 0 < recordedDepth cfg tdata then outsideTicks cfg log - starts tdata 0 else 0) = busyTicks cfg log
  exits : ∀ entry ∈ log, entry.1 = .exit → entry.2.skip = 0 → entry.2.top.sumChildrenCost ≤ exitCumul cfg entry.2

section
variable {cfg : Config} {tdata after : ThreadData} {log : ThreadLog}

theorem busy_cons (op : ThreadOp) : busyTicks cfg ((op,tdata) :: log) =
    (if tdata.skip = 0 ∧ 0 < tdata.stackDepth then ticks cfg (op,tdata) else 0) + busyTicks cfg log := by
  simp [busyTicks,ticksWhen_cons]

theorem self_cons (op : ThreadOp) : selfCosts cfg ((op,tdata) :: log) = selfOf cfg (op,tdata) + selfCosts cfg log := rfl

theorem outermost_cons (op : ThreadOp) :
    outermostCosts cfg ((op,tdata) :: log) = outermostOf cfg (op,tdata) + outermostCosts cfg log := rfl

theorem costs_cons {op : ThreadOp} (other : op ≠ .exit) : selfCosts cfg ((op,tdata) :: log) = selfCosts cfg log ∧
    outermostCosts cfg ((op,tdata) :: log) = outermostCosts cfg log := by
  rw [self_cons,outermost_cons]
  cases op with
  | tick => exact ⟨Nat.zero_add _,Nat.zero_add _⟩
  | enter sp f => exact ⟨Nat.zero_add _,Nat.zero_add _⟩
  | exit => exact absurd rfl other

theorem toNat_ticks {n : Nat} {now : UInt64} (same : now = UInt64.ofNat n) (few : n < 2 ^ 64) : now.toNat = n := by
  rw [same]
  exact UInt64.toNat_ofNat_of_lt few

theorem Accounts.still (accounts : Accounts cfg log tdata) {log' : ThreadLog}
    (depth : recordedDepth cfg after = recordedDepth cfg tdata)
    (slots : ∀ i, i < recordedDepth cfg tdata → starts after i = starts tdata i ∧ childrenCosts after i = childrenCosts tdata i)
    (outside : outsideTicks cfg log' = outsideTicks cfg log) (self : selfCosts cfg log' = selfCosts cfg log)
    (outermost : outermostCosts cfg log' = outermostCosts cfg log) (busy : busyTicks cfg log' = busyTicks cfg log)
    (exits : ∀ entry ∈ log', entry.1 = .exit → entry.2.skip = 0 → entry.2.top.sumChildrenCost ≤ exitCumul cfg entry.2) :
    Accounts cfg log' after := by
  refine ⟨?_,?_,?_,exits⟩
  · rw [depth,outside]
    exact accounts.nested.congr (fun i bound => (slots i bound).1) fun i bound => (slots i bound).2
  · rw [depth,outside,self,busy,
      Intervals.own_congr (fun i bound => (slots i bound).1) fun i bound => (slots i bound).2]
    exact accounts.self
  · rw [depth,outside,outermost,busy,← accounts.outermost]
    split
    · next some => rw [(slots 0 some).1]
    · rfl

theorem Accounts.exits_cons (accounts : Accounts cfg log tdata) {op : ThreadOp} (other : op ≠ .exit) :
    ∀ entry ∈ (op,tdata) :: log, entry.1 = .exit → entry.2.skip = 0 →
      entry.2.top.sumChildrenCost ≤ exitCumul cfg entry.2 := by
  intro entry member exit
  rcases List.mem_cons.mp member with rfl | older
  · exact absurd exit other
  · exact accounts.exits entry older exit

theorem Accounts.tick (accounts : Accounts cfg log tdata) (clock : Clock cfg log tdata) :
    Accounts cfg ((.tick,tdata) :: log) {tdata with cost := tdata.cost + 1} := by
  have depth : recordedDepth cfg {tdata with cost := tdata.cost + 1} = recordedDepth cfg tdata := rfl
  have exits := accounts.exits_cons (show ThreadOp.tick ≠ .exit by nofun)
  obtain ⟨selfs,outermosts⟩ := @costs_cons cfg tdata log .tick nofun
  rcases Nat.eq_zero_or_pos tdata.skip with running | stopped
  · have all := clock.counted.recorded_iff.mp running
    have outside : outsideTicks cfg ((.tick,tdata) :: log) = 1 + outsideTicks cfg log := outside_running .tick running
    have busy := @busy_cons cfg tdata log .tick
    rcases Nat.eq_zero_or_pos tdata.stackDepth with empty | positive
    · have none : recordedDepth cfg tdata = 0 := by omega
      refine ⟨?_,?_,?_,exits⟩
      · rw [depth,none]
        trivial
      · have self := accounts.self
        rw [none] at self
        rw [depth,none,busy,if_neg (by omega),Nat.zero_add,← self,selfs]
        rfl
      · have outermost := accounts.outermost
        rw [none,if_neg (Nat.lt_irrefl 0)] at outermost
        rw [depth,none,if_neg (Nat.lt_irrefl 0),busy,if_neg (by omega),Nat.zero_add,← outermost,outermosts]
    · obtain ⟨n,height⟩ : ∃ n, recordedDepth cfg tdata = n + 1 := ⟨tdata.stackDepth - 1,by omega⟩
      have nested := accounts.nested
      have self := accounts.self
      have outermost := accounts.outermost
      rw [height] at nested self outermost
      have first := nested.first
      rw [if_pos (Nat.succ_pos n)] at outermost
      have busy' : busyTicks cfg ((.tick,tdata) :: log) = 1 + busyTicks cfg log := by
        rw [busy,if_pos ⟨running,positive⟩]
        rfl
      refine ⟨?_,?_,?_,exits⟩
      · rw [depth,height,outside]
        exact nested.advance (Nat.le_add_left _ _)
      · have advanced := Intervals.own_advance nested (Nat.le_add_left (outsideTicks cfg log) 1)
        rw [depth,height,outside,busy',← self,selfs]
        change selfCosts cfg log + Intervals.own (starts tdata) (childrenCosts tdata) (n + 1) _ = _
        rw [advanced]
        omega
      · rw [depth,height,if_pos (Nat.succ_pos n),outside,busy',← outermost,outermosts]
        change outermostCosts cfg log + (1 + outsideTicks cfg log - starts tdata 0) = _
        omega
  · refine accounts.still depth (fun _ _ => ⟨rfl,rfl⟩) (outside_stopped .tick stopped) selfs outermosts ?_ exits
    rw [busy_cons,if_neg (by omega),Nat.zero_add]

theorem Accounts.enter (accounts : Accounts cfg log tdata) (clock : Clock cfg log tdata)
    (few : outsideTicks cfg log < 2 ^ 64) {sp : UInt64} {f : FnPtr} (entered : CostsEntered cfg tdata after f) :
    Accounts cfg ((.enter sp f,tdata) :: log) after := by
  have exits := accounts.exits_cons (show ThreadOp.enter sp f ≠ .exit by nofun)
  have le := recordedDepth_le cfg tdata
  have outside : outsideTicks cfg ((.enter sp f,tdata) :: log) = outsideTicks cfg log := by
    rcases Nat.eq_zero_or_pos tdata.skip with running | stopped
    · rw [outside_running _ running,ticks,Nat.zero_add]
    · exact outside_stopped _ stopped
  obtain ⟨self,outermost⟩ := @costs_cons cfg tdata log (.enter sp f) nofun
  have busy : busyTicks cfg ((.enter sp f,tdata) :: log) = busyTicks cfg log := by
    rw [busy_cons,ticks,ite_self,Nat.zero_add]
  have slots : ∀ i, i < tdata.stackDepth → starts after i = starts tdata i ∧ childrenCosts after i = childrenCosts tdata i := by
    intro i bound
    simp only [starts,childrenCosts,entered.slots i (Nat.ne_of_lt bound)]
    exact ⟨trivial,trivial⟩
  by_cases hidden : (cfg.fn f).skip = true ∨ 0 < tdata.skip
  · exact accounts.still (entered.hidden hidden).2 (fun i bound => slots i (by omega)) outside self outermost busy exits
  · have plain : (cfg.fn f).skip = false := by
      by_contra skipped
      exact hidden (Or.inl (by simpa using skipped))
    have running : tdata.skip = 0 := Nat.eq_zero_of_not_pos fun pending => hidden (Or.inr pending)
    obtain ⟨running',children⟩ := entered.recorded plain running
    have all := clock.counted.recorded_iff.mp running
    have all' : recordedDepth cfg after = tdata.stackDepth + 1 :=
      (entered.counted.recorded_iff.mp running').trans entered.depth
    have now : starts after tdata.stackDepth = outsideTicks cfg log := by
      rw [starts,entered.start]
      exact toNat_ticks (clock.running running) few
    have fresh : childrenCosts after tdata.stackDepth = 0 := by
      rw [childrenCosts,children]
      rfl
    have nested := accounts.nested
    rw [all] at nested
    have lower : Intervals.Nested (starts after) (childrenCosts after) tdata.stackDepth (outsideTicks cfg log) :=
      nested.congr (fun i bound => (slots i bound).1) fun i bound => (slots i bound).2
    refine ⟨?_,?_,?_,exits⟩
    · rw [all',outside]
      exact lower.push now fresh
    · rw [all',outside,self,busy,Intervals.own_push now fresh,
        Intervals.own_congr (fun i bound => (slots i bound).1) fun i bound => (slots i bound).2,← all]
      exact accounts.self
    · have before := accounts.outermost
      rw [all',if_pos (Nat.succ_pos _),outside,outermost,busy,← before]
      rcases Nat.eq_zero_or_pos tdata.stackDepth with empty | positive
      · rw [empty] at now all
        rw [now,all,if_neg (Nat.lt_irrefl 0),Nat.sub_self]
      · rw [all,if_pos positive,(slots 0 positive).1]

theorem Clock.exitCost (clock : Clock cfg log tdata)
    (nested : Intervals.Nested (starts tdata) (childrenCosts tdata) (recordedDepth cfg tdata) (outsideTicks cfg log))
    (nonempty : 0 < tdata.stackDepth) (running : tdata.skip = 0)
    (few : outsideTicks cfg ((.exit,tdata) :: log) < 2 ^ 64) :
    starts tdata (tdata.stackDepth - 1) ≤ outsideTicks cfg ((.exit,tdata) :: log) ∧
      (exitCumul cfg tdata).toNat =
        outsideTicks cfg ((.exit,tdata) :: log) - starts tdata (tdata.stackDepth - 1) := by
  obtain ⟨n,height⟩ : ∃ n, tdata.stackDepth = n + 1 := ⟨tdata.stackDepth - 1,by omega⟩
  rw [clock.counted.recorded_iff.mp running,height] at nested
  have passed := @outside_running cfg tdata log .exit running
  have time : exitCumul cfg tdata =
      UInt64.ofNat (outsideTicks cfg ((.exit,tdata) :: log)) - (tdata.stack n).start := by
    rw [exitCumul,clock.exitTime running,ThreadData.top,height,Nat.add_sub_cancel]
  generalize outsideTicks cfg ((.exit,tdata) :: log) = now at few passed time
  have opened := (nested.advance (show outsideTicks cfg log ≤ now by omega)).first
  have nowNat : (UInt64.ofNat now).toNat = now := UInt64.toNat_ofNat_of_lt few
  have inside := nested.1
  rw [height,Nat.add_sub_cancel,time]
  have le : starts tdata n ≤ now := by omega
  refine ⟨le,?_⟩
  rw [UInt64.toNat_sub_of_le _ _ (UInt64.le_iff_toNat_le.mpr (by rw [nowNat]; exact le)),nowNat]
  rfl

theorem popShared_starts (cfg : Config) (shared : Shared) (tdata : ThreadData) (i : Nat) :
    ((popShared cfg shared tdata).2.stack i).start = (tdata.stack i).start := by
  rcases Nat.eq_zero_or_pos tdata.skip with running | stopped
  · obtain ⟨table,root,same⟩ := popShared_recorded cfg shared tdata running
    simp only [same,afterExit]
    split
    · rw [Function.update_apply]
      split
      · next equal =>
        rw [equal]
        rfl
      · rfl
    · rfl
  · obtain ⟨table,root,same⟩ := popShared_skipped cfg shared tdata stopped
    rw [same]

theorem popShared_spent {m : Nat} (running : tdata.skip = 0) (height : tdata.stackDepth = m + 2) (shared : Shared) :
    (∀ i, i ≠ m → childrenCosts (popShared cfg shared tdata).2 i = childrenCosts tdata i) ∧
      (childrenCosts tdata m + (exitCumul cfg tdata).toNat < 2 ^ 64 →
        childrenCosts (popShared cfg shared tdata).2 m = childrenCosts tdata m + (exitCumul cfg tdata).toNat) := by
  obtain ⟨table,root,same⟩ := popShared_recorded cfg shared tdata running
  have stack : (popShared cfg shared tdata).2.stack =
      Function.update tdata.stack m (propagate (tdata.stack (m + 1)) (exitCumul cfg tdata) (tdata.stack m)) := by
    rw [same,height]
    simp only [afterExit,if_pos (show m + 2 > 1 by omega)]
    rfl
  constructor
  · intro i other
    simp only [childrenCosts,stack,Function.update_of_ne other]
  · intro room
    simp only [childrenCosts,stack,Function.update_self,propagate,UInt64.toNat_add]
    exact Nat.mod_eq_of_lt room

/-- A recorded return adds its own time to the self costs, and its whole time to
what the caller has spent. -/
theorem Accounts.exitRecorded (accounts : Accounts cfg log tdata) (clock : Clock cfg log tdata) (shared : Shared)
    (nonempty : 0 < tdata.stackDepth) (running : tdata.skip = 0)
    (few : outsideTicks cfg ((.exit,tdata) :: log) < 2 ^ 64) :
    Accounts cfg ((.exit,tdata) :: log) (popShared cfg shared tdata).2 := by
  obtain ⟨n,height⟩ : ∃ n, tdata.stackDepth = n + 1 := ⟨tdata.stackDepth - 1,by omega⟩
  have all := clock.counted.recorded_iff.mp running
  have top : tdata.top = tdata.stack n := by rw [ThreadData.top,height,Nat.add_sub_cancel]
  have lower : recordedDepth cfg (popShared cfg shared tdata).2 = n := by
    rw [popShared_recordedDepth clock.counted shared nonempty,if_pos running,height,Nat.add_sub_cancel]
  have nested := accounts.nested
  have self := accounts.self
  have outermost := accounts.outermost
  rw [all,height] at nested self outermost
  rw [if_pos (Nat.succ_pos n)] at outermost
  have passed := @outside_running cfg tdata log .exit running
  have cumul := (clock.exitCost accounts.nested nonempty running few).2
  rw [height,Nat.add_sub_cancel] at cumul
  generalize later : outsideTicks cfg ((.exit,tdata) :: log) = now at few passed cumul
  have le : outsideTicks cfg log ≤ now := by omega
  have advanced := Intervals.own_advance nested le
  have began := nested.first
  have nested := nested.advance le
  have inside := nested.1
  have covered : tdata.top.sumChildrenCost ≤ exitCumul cfg tdata := by
    rw [UInt64.le_iff_toNat_le,cumul,top]
    change childrenCosts tdata n ≤ _
    omega
  have selfs : selfCosts cfg ((.exit,tdata) :: log) =
      now - starts tdata n - childrenCosts tdata n + selfCosts cfg log := by
    rw [self_cons,selfOf,if_pos running,UInt64.toNat_sub_of_le _ _ covered,cumul,top]
    rfl
  have busy : busyTicks cfg ((.exit,tdata) :: log) = now - outsideTicks cfg log + busyTicks cfg log := by
    rw [busy_cons,if_pos ⟨running,nonempty⟩]
    omega
  have exits : ∀ entry ∈ (ThreadOp.exit,tdata) :: log, entry.1 = .exit → entry.2.skip = 0 →
      entry.2.top.sumChildrenCost ≤ exitCumul cfg entry.2 := by
    intro entry member exit recorded
    rcases List.mem_cons.mp member with rfl | older
    · exact covered
    · exact accounts.exits entry older exit recorded
  cases n with
  | zero =>
    refine ⟨by rw [lower]; trivial,?_,?_,exits⟩
    · rw [lower,selfs,busy,← self]
      have none : ∀ now, Intervals.own (starts (popShared cfg shared tdata).2)
        (childrenCosts (popShared cfg shared tdata).2) 0 now = 0 := fun _ => rfl
      have total : Intervals.own (starts tdata) (childrenCosts tdata) (0 + 1) (outsideTicks cfg log) +
        (now - outsideTicks cfg log) = now - starts tdata 0 - childrenCosts tdata 0 := advanced.symm
      rw [none]
      omega
    · rw [lower,if_neg (Nat.lt_irrefl 0),outermost_cons,outermostOf,if_pos ⟨running,height⟩,cumul,busy,← outermost]
      omega
  | succ m =>
    have room := nested.2.1
    obtain ⟨others,adds⟩ := popShared_spent running height shared
    have keeps : ∀ i, starts (popShared cfg shared tdata).2 i = starts tdata i := fun i =>
      congrArg UInt64.toNat (popShared_starts cfg shared tdata i)
    rw [cumul] at adds
    have adds := adds (by omega)
    obtain ⟨nested',owned⟩ := nested.pop (fun i _ => keeps i)
      (fun i below => others i (Nat.ne_of_lt below)) adds
    refine ⟨by rw [lower,later]; exact nested',?_,?_,exits⟩
    · rw [lower,later,selfs,busy,← self]
      have total := advanced.symm.trans owned
      omega
    · rw [lower,if_pos (Nat.succ_pos m),later,keeps,outermost_cons,outermostOf,
        if_neg (by omega),Nat.zero_add,busy,← outermost]
      omega

theorem Accounts.exit (accounts : Accounts cfg log tdata) (clock : Clock cfg log tdata) (shared : Shared)
    (nonempty : 0 < tdata.stackDepth) (few : outsideTicks cfg ((.exit,tdata) :: log) < 2 ^ 64) :
    Accounts cfg ((.exit,tdata) :: log) (popShared cfg shared tdata).2 := by
  rcases Nat.eq_zero_or_pos tdata.skip with running | stopped
  · exact accounts.exitRecorded clock shared nonempty running few
  · obtain ⟨table,root,same⟩ := popShared_skipped cfg shared tdata stopped
    have depth := popShared_recordedDepth clock.counted shared nonempty
    rw [if_neg (Nat.pos_iff_ne_zero.mp stopped)] at depth
    refine accounts.still depth (fun i _ => ?_) (outside_stopped .exit stopped) ?_ ?_ ?_ ?_
    · rw [same]
      exact ⟨rfl,rfl⟩
    · rw [self_cons,selfOf,if_neg (Nat.pos_iff_ne_zero.mp stopped),Nat.zero_add]
    · rw [outermost_cons,outermostOf,if_neg (show ¬ (tdata.skip = 0 ∧ tdata.stackDepth = 1) by omega),Nat.zero_add]
    · rw [busy_cons,if_neg (show ¬ (tdata.skip = 0 ∧ 0 < tdata.stackDepth) by omega),Nat.zero_add]
    · intro entry member exit recorded
      rcases List.mem_cons.mp member with rfl | older
      · exact absurd recorded (Nat.pos_iff_ne_zero.mp stopped)
      · exact accounts.exits entry older exit recorded

theorem ThreadRun.accounts {entry : ThreadData → FnPtr → Prop} {tid : Nat} (life : ThreadRun cfg entry tid log tdata)
    (few : outsideTicks cfg log < 2 ^ 64) : Accounts cfg log tdata := by
  have before : ∀ (op : ThreadOp) (tdata : ThreadData) (log : ThreadLog),
      outsideTicks cfg log ≤ outsideTicks cfg ((op,tdata) :: log) := by
    intro op tdata log
    exact Nat.le_add_left _ _
  induction life with
  | fresh shadow => exact ⟨trivial,rfl,rfl,nofun⟩
  | @tick log tdata life ih => exact (ih (lt_of_le_of_lt (before _ _ _) few)).tick life.clock
  | @enter log tdata pushed life shared sp f permitted push ih =>
    have earlier := lt_of_le_of_lt (before _ _ _) few
    exact (ih earlier).enter life.clock earlier (functionEnter_costs life.clock.counted shared push)
  | @exit log tdata life shared nonempty ih =>
    exact (ih (lt_of_le_of_lt (before _ _ _) few)).exit life.clock shared nonempty few
  | @access log tdata after life same ih =>
    have fields := control_fields same
    have accounts := ih few
    refine accounts.still (fields.counted life.clock.counted).2 (fun i _ => ?_) rfl rfl rfl rfl accounts.exits
    simp only [starts,childrenCosts,fields.start,fields.sumChildrenCost]
    exact ⟨trivial,trivial⟩

end

/-- No self cost wraps and the accounts of a whole life balance: the self costs of
all recorded returns, the costs of the outermost ones and the ticks while a
recorded activation was pending agree. The threads of a run live such lives. -/
theorem costs_conserved (cfg : Config) :
    (∀ entry tid log tdata, ThreadRun cfg entry tid log tdata → outsideTicks cfg log < 2 ^ 64 →
      (∀ exit ∈ log, exit.1 = .exit → exit.2.skip = 0 → exit.2.top.sumChildrenCost ≤ exitCumul cfg exit.2) ∧
      (tdata.stackDepth = 0 → selfCosts cfg log = outermostCosts cfg log ∧
        outermostCosts cfg log = busyTicks cfg log)) ∧
    ∀ (c : Counter) events (rt : Runtime c), (initial c cfg >>= fun rt => run cfg rt events) = .ok rt →
      ∀ tid tdata, rt.threads tid = some tdata ∨ (tid,tdata) ∈ rt.reported →
        ∃ log, ThreadRun cfg (fun _ _ => True) tid log tdata := by
  refine ⟨?_,fun c events rt reached => run_lives reached⟩
  intro entry tid log tdata life few
  have accounts := life.accounts few
  refine ⟨accounts.exits,?_⟩
  intro empty
  have none : recordedDepth cfg tdata = 0 := Nat.le_zero.mp (empty ▸ recordedDepth_le cfg tdata)
  have self := accounts.self
  have outermost := accounts.outermost
  rw [none] at self outermost
  exact ⟨self.trans outermost.symm,outermost⟩

theorem ThreadRun.ticks {cfg : Config} {entry : ThreadData → FnPtr → Prop} {tid : Nat} {log : ThreadLog}
    {tdata : ThreadData} (life : ThreadRun cfg entry tid log tdata) (busy : tdata.skip = 0 ∧ 0 < tdata.stackDepth)
    (n : Nat) : ∃ log', ThreadRun cfg entry tid log' {tdata with cost := tdata.cost + UInt64.ofNat n} ∧
      busyTicks cfg log' = n + busyTicks cfg log ∧ outermostCosts cfg log' = outermostCosts cfg log := by
  induction n with
  | zero =>
    have same : ({tdata with cost := tdata.cost + UInt64.ofNat 0} : ThreadData) = tdata := by simp
    rw [same]
    exact ⟨log,life,(Nat.zero_add _).symm,rfl⟩
  | succ n ih =>
    obtain ⟨log',life',ticked,outermost⟩ := ih
    have next := life'.tick
    have sum : tdata.cost + UInt64.ofNat n + 1 = tdata.cost + UInt64.ofNat (n + 1) := by
      rw [UInt64.ofNat_add,UInt64.ofNat_one,UInt64.add_assoc]
    refine ⟨_,sum ▸ next,?_,?_⟩
    · rw [busy_cons,if_pos (by exact busy),ticked]
      change 1 + _ = _
      omega
    · rw [(costs_cons (by nofun)).2,outermost]

/-- Function 0 calls function 2 twice, and a skipped one between two blocks of its own. -/
def nestedOps : List ThreadOp :=
  [.enter 100 0,.tick,.enter 96 2,.tick,.exit,.tick,.enter 96 2,.tick,.tick,.exit,.enter 96 1,.tick,.exit,.tick,.exit]

theorem costs_conserved_nested : ∃ log tdata, ThreadRun (smallConfig .rms) (fun _ _ => True) 1 log tdata ∧
    selfCosts (smallConfig .rms) log = outermostCosts (smallConfig .rms) log ∧
    outermostCosts (smallConfig .rms) log = busyTicks (smallConfig .rms) log ∧
    busyTicks (smallConfig .rms) log = 6 := by
  have life : ∃ state, live (smallConfig .rms) 1 nestedOps = .ok state ∧ state.2.stackDepth = 0 ∧
      outsideTicks (smallConfig .rms) state.1 < 2 ^ 64 ∧ busyTicks (smallConfig .rms) state.1 = 6 := by
    decide +kernel
  obtain ⟨⟨log,tdata⟩,lived,empty,few,six⟩ := life
  have balanced := ((costs_conserved (smallConfig .rms)).1 _ _ _ _ (live_run lived) few).2 empty
  exact ⟨log,tdata,live_run lived,balanced.1,balanced.2,six⟩

/-- With 2^64 ticks in one activation its cost is 0. -/
theorem costs_lost_after_wrap : ∃ log tdata, ThreadRun (smallConfig .rms) (fun _ _ => True) 1 log tdata ∧
    tdata.stackDepth = 0 ∧ outermostCosts (smallConfig .rms) log ≠ busyTicks (smallConfig .rms) log := by
  have entered : ∃ log tdata, ThreadRun (smallConfig .rms) (fun _ _ => True) 1 log tdata ∧
      (tdata.skip = 0 ∧ 0 < tdata.stackDepth) ∧ tdata.stackDepth = 1 ∧ busyTicks (smallConfig .rms) log = 0 ∧
      outermostCosts (smallConfig .rms) log = 0 ∧ exitCumul (smallConfig .rms) tdata = 0 := by
    have started : ThreadRun (smallConfig .rms) (fun _ _ => True) 1 [] _ := .fresh blankTable
    exact ⟨_,_,started.enter ⟨fun _ => htConstruct,[]⟩ 100 0 trivial rfl,by decide,rfl,rfl,rfl,rfl⟩
  obtain ⟨log,tdata,life,busy,one,none,none',zero⟩ := entered
  obtain ⟨log',life',ticked,outermost⟩ := life.ticks busy (2 ^ 64)
  have wrapped : ({tdata with cost := tdata.cost + UInt64.ofNat (2 ^ 64)} : ThreadData) = tdata := by
    have full : UInt64.ofNat (2 ^ 64) = 0 := rfl
    rw [full,UInt64.add_zero]
  rw [wrapped] at life'
  refine ⟨_,_,life'.exit ⟨fun _ => htConstruct,[]⟩ busy.2,?_,?_⟩
  · rw [popShared_depth,one]
  · have cost : outermostCosts (smallConfig .rms) ((.exit,tdata) :: log') = 0 := by
      rw [outermost_cons,outermost,none',outermostOf,if_pos ⟨busy.1,one⟩,zero]
      rfl
    rw [cost,busy_cons,ticked]
    omega

end Aprof
