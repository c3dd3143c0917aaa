import Aprof.Compression
import Aprof.Related

/-! Runs of the tool with the DRMS metric refine the runs without timestamps. One
counter orders calls, switches and system calls; a granule is dirty for a thread
when its global timestamp is above the thread's own. -/
namespace Aprof

open Lockstep Levels Floor

/-- The timestamp of a granule in the global shadow memory. -/
def Runtime.stamp {c : Counter} (rt : Runtime c) (g : Nat) : Nat := tsOf c (rt.globalShadow.value g)

/-- `behind` says that the thread has accessed nothing since the counter moved, and
`owner` which thread holds an id, so that no two threads hold the same. -/
structure DrmsThread (cfg : Config) (owner : Nat → Nat) (counter : Nat) (stamp : Nat → Nat) (written : Nat → Bool) (behind : Prop)
    (tid : Nat) (tdata : ThreadData) (thread : LevelThread) : Prop where
  follows : Follows cfg tdata thread
  named : 0 < tid ∧ tid ≤ cfg.maxThreads
  idsBelow : ∀ i, i < recordedDepth cfg tdata → tdata.ids i ≤ counter
  cellsBelow : ∀ g, tdata.shadowMemory.value g ≤ counter
  idsBehind : behind → ∀ i, i < recordedDepth cfg tdata → tdata.ids i < counter
  cellsBehind : behind → ∀ g, tdata.shadowMemory.value g < counter
  dirty : ∀ g, thread.dirty g = true ↔ written g = true ∧ tdata.shadowMemory.value g < stamp g
  owned : ∀ i, i < recordedDepth cfg tdata → owner (tdata.ids i) = tid

section
variable {cfg : Config} {owner : Nat → Nat} {counter : Nat} {stamp : Nat → Nat} {written : Nat → Bool} {behind : Prop} {tid : Nat}
  {tdata after : ThreadData} {thread : LevelThread}

theorem DrmsThread.same (rel : DrmsThread cfg owner counter stamp written behind tid tdata thread)
    (stamps : SameStamps tdata after) (recorded : recordedDepth cfg after ≤ recordedDepth cfg tdata)
    {levels : Nat → Nat} (follows : Follows cfg after {thread with core := after.erase, levels := levels}) :
    DrmsThread cfg owner counter stamp written behind tid after {thread with core := after.erase, levels := levels} := by
  obtain ⟨-,named,idsBelow,cellsBelow,idsBehind,cellsBehind,dirty,owned⟩ := rel
  refine ⟨follows,named,?_,?_,?_,?_,?_,?_⟩
  · intro i bound
    rw [stamps.ids]
    exact idsBelow i (by omega)
  · rw [stamps.shadow]
    exact cellsBelow
  · intro now i bound
    rw [stamps.ids]
    exact idsBehind now i (by omega)
  · rw [stamps.shadow]
    exact cellsBehind
  · rw [stamps.shadow]
    exact dirty
  · intro i bound
    rw [stamps.ids]
    exact owned i (by omega)

theorem DrmsThread.later (rel : DrmsThread cfg owner counter stamp written behind tid tdata thread) {counter' : Nat}
    {behind' : Prop} (le : counter ≤ counter') (strict : behind' → counter < counter' ∨ behind) :
    DrmsThread cfg owner counter' stamp written behind' tid tdata thread := by
  obtain ⟨follows,named,idsBelow,cellsBelow,idsBehind,cellsBehind,dirty,owned⟩ := rel
  refine ⟨follows,named,?_,?_,?_,?_,dirty,owned⟩
  · intro i bound
    exact Nat.le_trans (idsBelow i bound) le
  · intro g
    exact Nat.le_trans (cellsBelow g) le
  · intro now i bound
    rcases strict now with lt | before
    · exact Nat.lt_of_le_of_lt (idsBelow i bound) lt
    · exact Nat.lt_of_lt_of_le (idsBehind before i bound) le
  · intro now g
    rcases strict now with lt | before
    · exact Nat.lt_of_le_of_lt (cellsBelow g) lt
    · exact Nat.lt_of_lt_of_le (cellsBehind before g) le

theorem drmsKeeps (cfg : Config) (owner : Nat → Nat) (counter : Nat) (stamp : Nat → Nat) (written : Nat → Bool) (behind : Prop)
    (tid : Nat) : Keeps cfg (DrmsThread cfg owner counter stamp written behind tid) where
  follows _ _ rel := rel.follows
  same tdata after thread rel stamps frames := by
    have depth := (frames.counted rel.follows.counted).2
    exact rel.same stamps (by rw [depth]) (rel.follows.same stamps frames)
  pop tdata thread shared rel nonempty := by
    have depth := popShared_recordedDepth rel.follows.counted shared nonempty
    have all := rel.follows.counted.recorded_iff
    apply rel.same (stamps_popShared cfg shared tdata) ?_ (rel.follows.pop shared nonempty)
    rw [depth]
    split
    · next recorded =>
      have := all.mp recorded
      omega
    · exact Nat.le_refl _
  hide tdata opened thread skip rel frame hidden counts := by
    obtain ⟨follows,depth⟩ := rel.follows.hide frame hidden skip counts
    obtain ⟨-,named,idsBelow,cellsBelow,idsBehind,cellsBehind,dirty,owned⟩ := rel
    have shadow : {opened with skip := skip}.shadowMemory = tdata.shadowMemory := frame.shadow
    have ids : ∀ i, {opened with skip := skip}.ids i = tdata.ids i := frame.ids
    refine ⟨follows,named,?_,?_,?_,?_,?_,?_⟩
    · intro i bound
      rw [ids i]
      exact idsBelow i (depth ▸ bound)
    · rw [shadow]
      exact cellsBelow
    · intro now i bound
      rw [ids i]
      exact idsBehind now i (depth ▸ bound)
    · rw [shadow]
      exact cellsBehind
    · rw [shadow]
      exact dirty
    · intro i bound
      rw [ids i]
      exact owned i (depth ▸ bound)

end

/-- Threads other than the current one have accessed nothing since the counter moved. -/
def Runtime.Waits {c : Counter} (rt : Runtime c) (tid : Nat) : Prop := rt.currentTid ≠ 0 ∧ tid ≠ rt.currentTid

/-- `pristine` says that no timestamp has been renumbered. -/
structure DrmsState (c : Counter) (cfg : Config) (pristine : Prop) (owner : Nat → Nat) (behind : Nat → Prop) (rt : Runtime c)
    (levels : LevelRuntime) : Prop where
  related : Related (fun tid => DrmsThread cfg owner rt.globalCounter rt.stamp levels.written (behind tid) tid) rt levels
  fits : c.Fits rt.globalCounter
  stampsBelow : ∀ g, rt.stamp g ≤ rt.globalCounter
  known : ∀ g, levels.written g = true → 0 < rt.stamp g ∧ syscallOf c (rt.globalShadow.value g) = levels.byKernel g
  unknown : pristine → ∀ g, levels.written g = false → rt.stamp g = 0
  limit : rt.globalShadow.table.limit = cfg.layout.limit
  scale : 2 ^ rt.globalShadow.resShift = cfg.memoryResolution

structure DrmsRelated (c : Counter) (cfg : Config) (pristine : Prop) (owner : Nat → Nat) (rt : Runtime c)
    (levels : LevelRuntime) : Prop where
  state : DrmsState c cfg pristine owner rt.Waits rt levels
  started : rt.currentTid ≠ 0 → 0 < rt.globalCounter

/-- The runtime follows the run without timestamps. -/
def DrmsFollows (c : Counter) (cfg : Config) (pristine : Prop) (rt : Runtime c) (levels : LevelRuntime) : Prop :=
  ∃ owner, DrmsRelated c cfg pristine owner rt levels

section
variable {c : Counter} {cfg : Config} {pristine : Prop} {owner owner' : Nat → Nat} {behind : Nat → Prop} {rt : Runtime c}
  {levels : LevelRuntime}

theorem DrmsState.threads (state : DrmsState c cfg pristine owner behind rt levels) {rt' : Runtime c}
    {levels' : LevelRuntime} {behind' : Nat → Prop} (counter : rt'.globalCounter = rt.globalCounter)
    (shadow : rt'.globalShadow = rt.globalShadow)
    (written : levels'.written = levels.written) (byKernel : levels'.byKernel = levels.byKernel)
    (related : Related (fun tid => DrmsThread cfg owner' rt.globalCounter rt.stamp levels.written (behind' tid) tid) rt' levels') :
    DrmsState c cfg pristine owner' behind' rt' levels' := by
  have stamp : rt'.stamp = rt.stamp := by
    ext1 g
    simp only [Runtime.stamp,shadow]
  obtain ⟨-,fits,stampsBelow,known,unknown,limit,scale⟩ := state
  refine ⟨?_,?_,?_,?_,?_,?_,?_⟩
  · rw [counter,stamp,written]
    exact related
  · rw [counter]
    exact fits
  · rw [counter,stamp]
    exact stampsBelow
  · rw [stamp,shadow,written,byKernel]
    exact known
  · rw [stamp,written]
    exact unknown
  · rw [shadow]
    exact limit
  · rw [shadow]
    exact scale

theorem DrmsState.weaken (state : DrmsState c cfg pristine owner behind rt levels) (behind' : Nat → Prop)
    (weaker : ∀ tid, behind' tid → behind tid) : DrmsState c cfg pristine owner behind' rt levels :=
  state.threads rfl rfl rfl rfl
    (state.related.mono fun tid _ _ rel => rel.later (Nat.le_refl _) fun now => Or.inr (weaker tid now))

theorem DrmsState.reown (state : DrmsState c cfg pristine owner (fun _ => True) rt levels)
    (same : ∀ id, id < rt.globalCounter → owner' id = owner id) :
    DrmsState c cfg pristine owner' (fun _ => True) rt levels := by
  apply state.threads rfl rfl rfl rfl
  apply state.related.mono
  rintro tid tdata thread ⟨follows,named,idsBelow,cellsBelow,idsBehind,cellsBehind,dirty,owned⟩
  refine ⟨follows,named,idsBelow,cellsBelow,idsBehind,cellsBehind,dirty,?_⟩
  intro i bound
  rw [same _ (idsBehind trivial i bound)]
  exact owned i bound

theorem DrmsState.bump (state : DrmsState c cfg pristine owner behind rt levels)
    (fits : c.Fits (rt.globalCounter + 1)) :
    DrmsState c cfg pristine owner (fun _ => True) {rt with globalCounter := rt.globalCounter + 1} levels := by
  obtain ⟨related,-,stampsBelow,known,unknown,limit,scale⟩ := state
  refine ⟨?_,fits,?_,known,unknown,limit,scale⟩
  · have later : ∀ tid tdata thread,
        DrmsThread cfg owner rt.globalCounter rt.stamp levels.written (behind tid) tid tdata thread →
        DrmsThread cfg owner (rt.globalCounter + 1) rt.stamp levels.written True tid tdata thread :=
      fun tid _ _ rel => rel.later (Nat.le_succ _) fun _ => Or.inl (Nat.lt_succ_self _)
    have moved := related.mono later
    exact ⟨moved.tid,moved.shared,moved.reported,moved.threads⟩
  · intro g
    exact Nat.le_succ_of_le (stampsBelow g)

theorem Runtime.nodup_live (cfg : Config) (rt : Runtime c) : (rt.live cfg).Nodup :=
  List.Nodup.filter _ List.nodup_range'

theorem mem_live {tid : Nat} : tid ∈ rt.live cfg ↔ (rt.threads tid).isSome ∧ 0 < tid ∧ tid ≤ cfg.maxThreads := by
  simp only [Runtime.live,List.mem_filter,List.mem_range'_1]
  constructor
  · rintro ⟨⟨low,high⟩,present⟩
    exact ⟨present,by omega,by omega⟩
  · rintro ⟨present,low,high⟩
    exact ⟨⟨by omega,by omega⟩,present⟩

/-- The number of pending frames, `sum - 1` in the handler. -/
def Runtime.pendingFrames (cfg : Config) (rt : Runtime c) : Nat := ((rt.live cfg).map (depthOf rt.threads)).sum

theorem Renumbered.tracks {array : Nat → Nat} {n : Nat} {global : LookupTable c.Word} {tdata tdata' : ThreadData}
    (renumbered : Renumbered c array n global tdata tdata') (zero : array 0 = 0) (inc : Increasing array (n + 1))
    {levels : Nat → Nat} {depth : Nat} (le : depth ≤ tdata.stackDepth)
    (tracks : Tracks tdata.ids depth tdata.shadowMemory.value levels) :
    Tracks tdata'.ids depth tdata'.shadowMemory.value levels := by
  obtain ⟨-,shadow,ids⟩ := renumbered
  apply tracks.renumber
  · intro i j lt bound
    obtain ⟨k,_,high,rank,moved⟩ := ids i (by omega)
    obtain ⟨l,_,high',rank',moved'⟩ := ids j (by omega)
    have order := tracks.increasing i j lt bound
    have le := (inc.le (i := l) (j := k) · (by omega))
    simp only [ThreadData.ids] at order ⊢
    rw [moved,moved']
    by_contra back
    have := le (by omega)
    omega
  · intro i bound
    obtain ⟨k,low,_,_,moved⟩ := ids i (by omega)
    simp only [ThreadData.ids]
    omega
  · intro g i bound
    obtain ⟨k,low,high,rank,moved⟩ := ids i (by omega)
    obtain ⟨floor,global'⟩ := exists_isFloor inc (Nat.succ_pos n) (tsOf c (global.value g))
      (by rw [zero]; exact Nat.zero_le _)
    obtain ⟨v,⟨⟨l,lower,small,large⟩,_⟩,value⟩ :=
      compressLocal_value inc zero (Nat.succ_pos n) global tdata.shadowMemory global'
    simp only [ThreadData.ids]
    rw [shadow,value,moved,← rank]
    split
    · rw [lower.le_iff inc (by omega)]
      omega
    · next absent =>
      have first := inc 0 k (by omega) (by omega)
      rw [LookupTable.value_unallocated _ _ (by simpa using absent)]
      omega

theorem DrmsThread.renumber {array : Nat → Nat} {n counter tid : Nat} {stamp : Nat → Nat}
    {written : Nat → Bool} {behind behind' : Prop} {tdata tdata' : ThreadData} {thread : LevelThread}
    (rel : DrmsThread cfg owner counter stamp written behind tid tdata thread) {global : LookupTable c.Word}
    (renumbered : Renumbered c array n global tdata tdata') (zero : array 0 = 0) (inc : Increasing array (n + 1))
    (fits : c.Fits (3 * (n + 2))) (stamps : ∀ g, stamp g = tsOf c (global.value g))
    (known : ∀ g, written g = true → 0 < stamp g) :
    DrmsThread cfg (fun id => owner (array (id / 3))) (3 * (n + 2)) (fun g => tsOf c ((compressGlobal c array (n + 1) global).value g)) written behind'
      tid tdata' thread := by
  have frames := sameFrames renumbered.erase
  obtain ⟨counted,depth⟩ := frames.counted rel.follows.counted
  have le := recordedDepth_le cfg tdata
  have below : ∀ g, tdata'.shadowMemory.value g < 3 * (n + 2) ∧ (written g = true →
      (tdata.shadowMemory.value g < stamp g ↔ tdata'.shadowMemory.value g <
        tsOf c ((compressGlobal c array (n + 1) global).value g))) := by
    intro g
    obtain ⟨k,floor⟩ := exists_isFloor inc (Nat.succ_pos n) (tsOf c (global.value g))
      (by rw [zero]; exact Nat.zero_le _)
    obtain ⟨v,⟨⟨l,lower,small,large⟩,side⟩,value⟩ :=
      compressLocal_value inc zero (Nat.succ_pos n) global tdata.shadowMemory floor
    have inside := lower.inside
    have inside' := floor.inside
    have kept := compressGlobal_value inc zero global floor
    rw [renumbered.shadow,value]
    refine ⟨by split <;> omega,fun writes => ?_⟩
    have positive := known g writes
    rw [stamps g] at positive ⊢
    have allocated : global.allocated (g / global.fltSize) = true := by
      by_contra absent
      rw [LookupTable.value_unallocated global g (by simpa using absent),tsOf_zero] at positive
      omega
    have small : c.Fits (3 * k + 1) := fun wrapping => by
      have := fits wrapping
      omega
    rw [kept,if_pos allocated,tsOf_compressWord small]
    split
    · exact side.symm
    · next absent =>
      rw [LookupTable.value_unallocated _ _ (by simpa using absent)]
      omega
  have idsBelow : ∀ i, i < recordedDepth cfg tdata' → tdata'.ids i < 3 * (n + 2) := by
    intro i bound
    obtain ⟨k,_,high,_,moved⟩ := renumbered.ids i (by omega)
    simp only [ThreadData.ids]
    omega
  refine ⟨⟨?_,counted,?_,?_,?_⟩,rel.named,?_,?_,?_,?_,?_,?_⟩
  · rw [renumbered.erase]
    exact rel.follows.core
  · rw [depth]
    exact renumbered.tracks zero inc le rel.follows.tracks
  · rw [renumbered.shadow]
    exact (LookupTable.mapCells_limit _ _).trans rel.follows.limit
  · rw [renumbered.shadow]
    exact rel.follows.scale
  · intro i bound
    exact Nat.le_of_lt (idsBelow i bound)
  · intro g
    exact Nat.le_of_lt (below g).1
  · intro _
    exact idsBelow
  · intro _ g
    exact (below g).1
  · intro g
    rw [rel.dirty g]
    constructor
    · rintro ⟨writes,less⟩
      exact ⟨writes,((below g).2 writes).mp less⟩
    · rintro ⟨writes,less⟩
      exact ⟨writes,((below g).2 writes).mpr less⟩
  · intro i bound
    obtain ⟨k,_,_,rank,moved⟩ := renumbered.ids i (by omega)
    have old := rel.owned i (by omega)
    simp only [ThreadData.ids] at old ⊢
    rw [moved,Nat.mul_div_cancel_left k (by norm_num),rank]
    exact old

theorem DrmsState.overflow (state : DrmsState c cfg pristine owner behind rt levels)
    (mergeable : Mergeable (rt.live cfg) rt.threads (depthOf rt.threads))
    (fits : c.Fits (3 * (rt.pendingFrames cfg + 2))) :
    ∃ global threads owner',
      (∀ counter, overflowHandler cfg {rt with globalCounter := counter} = .ok (3 * (rt.pendingFrames cfg + 2),
        {rt with globalCounter := counter, globalShadow := global, threads := threads})) ∧
      DrmsState c cfg False owner' (fun _ => True) {rt with
        globalCounter := 3 * (rt.pendingFrames cfg + 2), globalShadow := global, threads := threads} levels := by
  obtain ⟨threads',array,ok,zero,inc,absent,present⟩ :=
    overflowHandlerDrms_ok c rt.globalShadow (rt.nodup_live cfg) mergeable
  have sum : ((rt.live cfg).map (depthOf rt.threads)).sum = rt.pendingFrames cfg := rfl
  rw [sum] at ok inc present
  generalize rt.pendingFrames cfg = n at ok inc present fits ⊢
  obtain ⟨related,-,-,known,-,limit,scale⟩ := state
  have word : ∀ g, ∃ k, k < n + 1 ∧ tsOf c ((compressGlobal c array (n + 1) rt.globalShadow).value g) ≤ 3 * k + 1 ∧
      (0 < rt.stamp g → tsOf c ((compressGlobal c array (n + 1) rt.globalShadow).value g) = 3 * k + 1 ∧
        syscallOf c ((compressGlobal c array (n + 1) rt.globalShadow).value g) =
          syscallOf c (rt.globalShadow.value g)) := by
    intro g
    obtain ⟨k,floor⟩ := exists_isFloor inc (Nat.succ_pos n) (rt.stamp g) (by rw [zero]; exact Nat.zero_le _)
    have inside := floor.inside
    have small : c.Fits (3 * k + 1) := fun wrapping => by
      have := fits wrapping
      omega
    refine ⟨k,inside,?_⟩
    rw [compressGlobal_value inc zero rt.globalShadow floor]
    split
    · exact ⟨Nat.le_of_eq (tsOf_compressWord small _),fun _ => ⟨tsOf_compressWord small _,
        syscallOf_compressWord small _⟩⟩
    · next unallocated =>
      refine ⟨by rw [tsOf_zero]; exact Nat.zero_le _,fun positive => ?_⟩
      rw [Runtime.stamp,LookupTable.value_unallocated rt.globalShadow g (by simpa using unallocated),tsOf_zero]
        at positive
      omega
  refine ⟨compressGlobal c array (n + 1) rt.globalShadow,threads',fun id => owner (array (id / 3)),?_,?_,fits,?_,?_,fun never => never.elim,?_,scale⟩
  · intro counter
    have live : ({rt with globalCounter := counter} : Runtime c).live cfg = rt.live cfg := rfl
    unfold overflowHandler
    rw [live,ok]
    rfl
  · refine ⟨related.tid,related.shared,related.reported,fun tid => ?_⟩
    rcases related.lookup tid with ⟨none,none'⟩ | ⟨tdata,thread,some,some',rel⟩
    · rw [none']
      dsimp only
      rw [absent tid none]
      exact .none
    · have member : tid ∈ rt.live cfg := mem_live.mpr ⟨by rw [some]; rfl,rel.named⟩
      obtain ⟨tdata',found,renumbered⟩ := present tid member tdata some
      rw [some']
      dsimp only
      rw [found]
      exact .some (rel.renumber renumbered zero inc fits (fun _ => rfl) fun g writes => (known g writes).1)
  · intro g
    obtain ⟨k,inside,le,_⟩ := word g
    simp only [Runtime.stamp]
    omega
  · intro g writes
    obtain ⟨positive,bit⟩ := known g writes
    obtain ⟨k,_,_,moved⟩ := word g
    obtain ⟨stamp,syscall⟩ := moved positive
    simp only [Runtime.stamp]
    exact ⟨by omega,syscall.trans bit⟩
  · exact (LookupTable.mapCells_limit _ _).trans limit

/-- No thread is inside a skipped call, or the slots of the skipped calls happen to
hold ids in order. -/
def Runtime.Orderly (cfg : Config) (rt : Runtime c) : Prop :=
  (∀ tid tdata, rt.threads tid = some tdata → tdata.skip = 0) ∨
    Mergeable (rt.live cfg) rt.threads (depthOf rt.threads)

theorem DrmsState.mergeable (state : DrmsState c cfg pristine owner behind rt levels) (orderly : rt.Orderly cfg) :
    Mergeable (rt.live cfg) rt.threads (depthOf rt.threads) := by
  rcases orderly with recorded | mergeable
  · have frames : ∀ tid ∈ rt.live cfg, ∃ tdata thread, rt.threads tid = some tdata ∧
        DrmsThread cfg owner rt.globalCounter rt.stamp levels.written (behind tid) tid tdata thread ∧
        frameId rt.threads tid = tdata.ids ∧ depthOf rt.threads tid = recordedDepth cfg tdata := by
      intro tid inside
      rcases state.related.lookup tid with ⟨none,_⟩ | ⟨tdata,thread,some,_,rel⟩
      · have present := (mem_live.mp inside).1
        rw [none] at present
        cases present
      · refine ⟨tdata,thread,some,rel,?_,?_⟩
        · ext1 k
          simp only [frameId,some,Option.map_some,Option.getD_some]
          rfl
        · rw [rel.follows.counted.recorded_iff.mp (recorded tid tdata some)]
          simp only [depthOf,some,Option.map_some,Option.getD_some]
    refine ⟨?_,?_,?_⟩
    · intro tid inside k below
      obtain ⟨tdata,thread,_,rel,ids,depth⟩ := frames tid inside
      rw [ids]
      exact rel.follows.tracks.positive k (depth ▸ below)
    · intro tid inside
      obtain ⟨tdata,thread,_,rel,ids,depth⟩ := frames tid inside
      rw [ids,depth]
      exact rel.follows.tracks.increasing
    · intro tid inside other inside' k below l below' same
      obtain ⟨tdata,thread,_,rel,ids,depth⟩ := frames tid inside
      obtain ⟨tdata',thread',_,rel',ids',depth'⟩ := frames other inside'
      rw [ids,ids'] at same
      have left := rel.owned k (depth ▸ below)
      have right := rel'.owned l (depth' ▸ below')
      rw [← left,← right,same]
  · exact mergeable

/-- The next counter step does not overflow, or the handler can merge the ids. -/
def Runtime.Steady (cfg : Config) (pristine : Prop) (rt : Runtime c) : Prop :=
  c.full (rt.globalCounter + 1) = true → ¬ pristine ∧ rt.Orderly cfg ∧ 3 * (rt.pendingFrames cfg + 2) < 2 ^ 31

theorem fits_succ (fits : c.Fits rt.globalCounter) (room : ¬ c.full (rt.globalCounter + 1) = true) :
    c.Fits (rt.globalCounter + 1) := by
  rintro rfl
  have small := fits rfl
  simp only [Counter.full,maxCountVal,beq_iff_eq] at room
  omega

theorem DrmsState.renumbered (state : DrmsState c cfg False owner behind rt levels) (renumbered : ¬ pristine) :
    DrmsState c cfg pristine owner behind rt levels :=
  {state with unknown := fun never => absurd never renumbered}

theorem DrmsState.increase (state : DrmsState c cfg pristine owner behind rt levels) (steady : rt.Steady cfg pristine) :
    ∃ rt' owner', increaseGlobalCounter cfg rt = .ok rt' ∧ rt'.currentTid = rt.currentTid ∧ 0 < rt'.globalCounter ∧
      DrmsState c cfg pristine owner' (fun _ => True) rt' levels := by
  unfold increaseGlobalCounter
  dsimp only
  by_cases full : c.full (rt.globalCounter + 1) = true
  · obtain ⟨renumbered,orderly,small⟩ := steady full
    obtain ⟨global,threads,owner',ok,after⟩ := state.overflow (state.mergeable orderly) fun _ => small
    rw [if_pos full,ok]
    exact ⟨_,owner',rfl,rfl,by dsimp only; omega,after.renumbered renumbered⟩
  · rw [if_neg full]
    exact ⟨_,owner,rfl,rfl,Nat.succ_pos _,state.bump (fits_succ state.fits full)⟩

theorem DrmsState.advanced (state : DrmsState c cfg pristine owner (fun _ => True) rt levels)
    (positive : 0 < rt.globalCounter) : DrmsRelated c cfg pristine owner rt levels :=
  ⟨state.weaken _ fun _ _ => trivial,fun _ => positive⟩

theorem newThread_drms {counter tid : Nat} {stamp : Nat → Nat} {written : Nat → Bool} {waits : Prop}
    (named : 0 < tid ∧ tid ≤ cfg.maxThreads) (started : waits → 0 < counter)
    (known : ∀ g, written g = true → 0 < stamp g) (shadow : LookupTable Nat)
    (fresh : Empty cfg.layout cfg.memoryResolution shadow) :
    DrmsThread cfg owner counter stamp written waits tid (newThread cfg tid shadow)
      ⟨(newThread cfg tid blankTable).erase,fun _ => 0,written⟩ := by
  have empty : recordedDepth cfg (newThread cfg tid shadow) = 0 := rfl
  have zero : ∀ g, (newThread cfg tid shadow).shadowMemory.value g = 0 := fresh.value
  refine ⟨⟨rfl,(Nat.count_zero _).symm,?_,fresh.limit,fresh.scale⟩,named,?_,?_,?_,?_,?_,?_⟩
  · rw [empty]
    exact .start fun _ => rfl
  · intro i bound
    omega
  · intro g
    rw [zero]
    exact Nat.zero_le _
  · intro _ i bound
    omega
  · intro now g
    rw [zero]
    exact started now
  · intro g
    rw [zero]
    exact ⟨fun writes => ⟨writes,known g writes⟩,fun both => both.1⟩
  · intro i bound
    omega

variable (drms : cfg.inputMetric = .drms)
include drms

theorem DrmsState.threadStart (state : DrmsState c cfg pristine owner behind rt levels) (tid : Nat)
    (started : behind tid → 0 < rt.globalCounter) :
    Matches (DrmsState c cfg pristine owner behind) (threadStart cfg rt tid) (Levels.threadStart cfg levels tid) := by
  have start : ∀ shadow, 0 < tid ∧ tid ≤ cfg.maxThreads → Empty cfg.layout cfg.memoryResolution shadow →
      DrmsThread cfg owner rt.globalCounter rt.stamp levels.written (behind tid) tid (newThread cfg tid shadow)
        ⟨(newThread cfg tid blankTable).erase,fun _ => 0,unseen cfg levels⟩ := by
    intro shadow named fresh
    have seen : unseen cfg levels = levels.written := by
      ext1 g
      simp only [unseen,drms]
    rw [seen]
    exact newThread_drms named started (fun g writes => (state.known g writes).1) shadow fresh
  apply (state.related.threadStart tid start).mono
  intro rt' levels' ok ok' related
  obtain ⟨_,_,ok⟩ := bind_ok.mp ok
  obtain ⟨_,_,ok⟩ := bind_ok.mp ok
  obtain ⟨_,_,ok⟩ := bind_ok.mp ok
  cases ok
  obtain ⟨_,rfl⟩ := levels_threadStart_ok ok'
  exact state.threads rfl rfl rfl rfl related

theorem DrmsRelated.threadSwitch (rel : DrmsRelated c cfg pristine owner rt levels) (tid : Nat)
    (steady : tid ≠ rt.currentTid → tid ≠ 0 → rt.Steady cfg pristine) :
    Matches (fun rt' levels' => ∃ owner', DrmsRelated c cfg pristine owner' rt' levels' ∧
      (tid ≠ rt.currentTid → tid ≠ 0 → DrmsState c cfg pristine owner' (fun _ => True) rt' levels'))
      (threadSwitch cfg rt tid) (Levels.threadSwitch cfg levels tid) := by
  have related := rel.state.related
  have moved : ∀ behind', (∀ other, behind' other → rt.Waits other) →
      DrmsState c cfg pristine owner behind' {rt with currentTid := tid} {levels with currentTid := tid} := by
    intro behind' weaker
    have kept := (rel.state.weaken behind' weaker).related
    exact (rel.state.weaken behind' weaker).threads rfl rfl rfl rfl ⟨rfl,kept.shared,kept.reported,kept.threads⟩
  unfold Aprof.threadSwitch Levels.threadSwitch
  rw [related.tid]
  by_cases same : tid = rt.currentTid
  · rw [if_pos same,if_pos same]
    exact ⟨owner,rel,fun moved => absurd same moved⟩
  · rw [if_neg same,if_neg same]
    dsimp only
    by_cases zero : tid = 0
    · rw [if_pos zero,if_pos zero]
      exact ⟨owner,⟨moved _ fun other waits => absurd zero waits.1,fun current => absurd zero current⟩,
        fun _ nonzero => absurd zero nonzero⟩
    · rw [if_neg zero,if_neg zero,if_pos drms]
      obtain ⟨rt',owner',ok,current,positive,state⟩ := (moved rt.Waits fun _ => id).increase (steady same zero)
      rw [ok,ok_bind]
      rcases state.related.lookup tid with ⟨none,none'⟩ | ⟨_,_,some,some',_⟩
      · have before : levels.threads tid = Option.none := none'
        rw [none,before]
        apply (DrmsState.threadStart drms state tid fun _ => positive).mono
        intro rt'' levels'' started _ after
        obtain ⟨_,_,started⟩ := bind_ok.mp started
        obtain ⟨_,_,started⟩ := bind_ok.mp started
        obtain ⟨_,_,started⟩ := bind_ok.mp started
        cases started
        exact ⟨owner',after.advanced positive,fun _ _ => after⟩
      · have before : levels.threads tid = Option.some _ := some'
        rw [some,before]
        exact ⟨owner',state.advanced positive,fun _ _ => state⟩

omit drms in
theorem DrmsRelated.quiet (rel : DrmsRelated c cfg pristine owner rt levels) {rt' : Runtime c} {levels' : LevelRuntime}
    (counter : rt'.globalCounter = rt.globalCounter) (shadow : rt'.globalShadow = rt.globalShadow)
    (current : rt'.currentTid = 0 ∨ rt'.currentTid = rt.currentTid) (written : levels'.written = levels.written)
    (byKernel : levels'.byKernel = levels.byKernel)
    (related : Related (fun tid => DrmsThread cfg owner rt.globalCounter rt.stamp levels.written (rt.Waits tid) tid) rt' levels') :
    DrmsRelated c cfg pristine owner rt' levels' := by
  have weaker : ∀ tid, rt'.Waits tid → rt.Waits tid := by
    rintro tid ⟨nonzero,other⟩
    rcases current with zero | same
    · exact absurd zero nonzero
    · rw [same] at nonzero other
      exact ⟨nonzero,other⟩
  refine ⟨rel.state.threads counter shadow written byKernel (related.mono fun tid _ _ thread =>
    thread.later (Nat.le_refl _) fun waits => Or.inr (weaker tid waits)),?_⟩
  intro nonzero
  rw [counter]
  rcases current with zero | same
  · exact absurd zero nonzero
  · exact rel.started (same ▸ nonzero)

omit drms in
theorem DrmsRelated.popStack (rel : DrmsRelated c cfg pristine owner rt levels) :
    Matches (DrmsRelated c cfg pristine owner) (popStack cfg rt) (Levels.popStack cfg levels) := by
  apply (rel.state.related.popStack fun tid => drmsKeeps cfg _ _ _ _ _ tid).mono
  intro rt' levels' ok ok' related
  obtain ⟨_,_,ok⟩ := bind_ok.mp ok
  obtain ⟨_,_,ok⟩ := bind_ok.mp ok
  obtain ⟨_,_,ok'⟩ := bind_ok.mp ok'
  obtain ⟨_,_,ok'⟩ := bind_ok.mp ok'
  cases ok
  cases ok'
  exact rel.quiet rfl rfl (Or.inr rfl) rfl rfl related

omit drms in
theorem DrmsRelated.bbStart (rel : DrmsRelated c cfg pristine owner rt levels) :
    Matches (DrmsRelated c cfg pristine owner) (bbStart rt) (Levels.bbStart levels) := by
  have keeps := fun tid => drmsKeeps cfg owner rt.globalCounter rt.stamp levels.written (rt.Waits tid) tid
  apply (rel.state.related.bbStart keeps).mono
  intro rt' levels' ok ok' related
  obtain ⟨_,_,ok⟩ := bind_ok.mp ok
  obtain ⟨_,_,ok'⟩ := bind_ok.mp ok'
  cases ok
  cases ok'
  exact rel.quiet rfl rfl (Or.inr rfl) rfl rfl related

omit drms in
theorem DrmsRelated.threadExit (rel : DrmsRelated c cfg pristine owner rt levels) (tid : Nat) :
    Matches (DrmsRelated c cfg pristine owner) (threadExit cfg rt tid) (Levels.threadExit cfg levels tid) := by
  apply (rel.state.related.threadExit (fun tid => drmsKeeps cfg _ _ _ _ _ tid) tid).mono
  intro rt' levels' ok ok' related
  unfold Aprof.threadExit at ok
  unfold Levels.threadExit at ok'
  split at ok
  · cases ok
  · split at ok'
    · cases ok'
    · cases ok
      cases ok'
      exact rel.quiet rfl rfl (Or.inl rfl) rfl rfl related

/-- The id of a recorded call, and the runtime it was taken from. -/
structure Numbered (c : Counter) (cfg : Config) (pristine : Prop) (owner : Nat → Nat) (tid : Nat) (rt : Runtime c) (levels : LevelRuntime)
    (opened : ThreadData) (thread : LevelThread) (rt' : Runtime c) (named : ThreadData) : Prop where
  state : DrmsState c cfg pristine owner (fun _ => True) {rt' with threads := Function.update rt'.threads tid none}
    {levels with threads := Function.update levels.threads tid none}
  positive : 0 < rt'.globalCounter
  currentTid : rt'.currentTid = rt.currentTid
  shared : rt'.shared = rt.shared
  erase : named.erase = opened.erase
  tracks : Tracks named.ids opened.stackDepth named.shadowMemory.value thread.levels
  idsBelow : ∀ i, i < opened.stackDepth → named.ids i ≤ rt'.globalCounter
  cellsBelow : ∀ g, named.shadowMemory.value g ≤ rt'.globalCounter
  dirty : ∀ g, thread.dirty g = true ↔ levels.written g = true ∧ named.shadowMemory.value g < rt'.stamp g
  owned : ∀ i, i < opened.stackDepth → owner (named.ids i) = tid
  limit : named.shadowMemory.table.limit = cfg.layout.limit
  scale : 2 ^ named.shadowMemory.resShift = cfg.memoryResolution

omit drms in
theorem Mergeable.congr {live : List Nat} {threads threads' : Nat → Option ThreadData} {depths : Nat → Nat}
    (mergeable : Mergeable live threads depths)
    (same : ∀ tid k, k < depths tid → frameId threads' tid k = frameId threads tid k) :
    Mergeable live threads' depths := by
  refine ⟨?_,?_,?_⟩
  · intro tid inside k below
    rw [same tid k below]
    exact mergeable.positive tid inside k below
  · intro tid inside i j lt below
    rw [same tid i (by omega),same tid j below]
    exact mergeable.increasing tid inside i j lt below
  · intro tid inside other inside' k below l below' equal
    rw [same tid k below,same other l below'] at equal
    exact mergeable.distinct tid inside other inside' k below l below' equal

omit drms in
theorem live_put {tid : Nat} {tdata base : ThreadData} (found : rt.threads tid = some tdata) :
    (rt.put tid base).live cfg = rt.live cfg := by
  apply List.filter_congr
  intro other _
  simp only [Runtime.put,Function.update_apply]
  split
  · next same =>
    subst same
    rw [found]
    rfl
  · rfl

omit drms in
theorem base_merge {tid : Nat} {tdata base : ThreadData} (found : rt.threads tid = some tdata)
    (depth : base.stackDepth = tdata.stackDepth) (ids : ∀ k, k < tdata.stackDepth → base.ids k = tdata.ids k) :
    depthOf (rt.put tid base).threads = depthOf rt.threads ∧ ∀ other k, k < depthOf rt.threads other →
      frameId (rt.put tid base).threads other k = frameId rt.threads other k := by
  refine ⟨?_,?_⟩
  · ext1 other
    simp only [depthOf,Runtime.put,Function.update_apply]
    split
    · next same =>
      subst same
      simp only [found,Option.map_some,depth]
    · rfl
  · intro other k below
    simp only [frameId,Runtime.put,Function.update_apply]
    split
    · next same =>
      subst same
      simp only [depthOf,found,Option.map_some,Option.getD_some] at below
      simp only [found,Option.map_some,Option.getD_some]
      exact ids k below
    · rfl

omit drms in
theorem DrmsThread.base {counter tid : Nat} {stamp : Nat → Nat} {written : Nat → Bool} {waits : Prop}
    {tdata base : ThreadData} {thread : LevelThread}
    (rel : DrmsThread cfg owner counter stamp written waits tid tdata thread) (depth : base.stackDepth = tdata.stackDepth)
    (skip : base.skip = tdata.skip) (shadow : base.shadowMemory = tdata.shadowMemory)
    (ids : ∀ k, k < tdata.stackDepth → base.ids k = tdata.ids k)
    (routines : ∀ k, k < tdata.stackDepth → (base.stack k).routineInfo = (tdata.stack k).routineInfo) :
    DrmsThread cfg owner counter stamp written waits tid base {thread with core := base.erase} := by
  obtain ⟨follows,named,idsBelow,cellsBelow,idsBehind,cellsBehind,dirty,owned⟩ := rel
  obtain ⟨counted,recorded⟩ := follows.counted.congr skip depth routines
  have le := recordedDepth_le cfg tdata
  refine ⟨⟨rfl,counted,?_,?_,?_⟩,named,?_,?_,?_,?_,?_,?_⟩
  · rw [recorded,shadow]
    exact follows.tracks.congr (fun i bound => ids i (by omega)) fun _ => rfl
  · rw [shadow]
    exact follows.limit
  · rw [shadow]
    exact follows.scale
  · intro i bound
    rw [recorded] at bound
    rw [ids i (by omega)]
    exact idsBelow i bound
  · rw [shadow]
    exact cellsBelow
  · intro now i bound
    rw [recorded] at bound
    rw [ids i (by omega)]
    exact idsBehind now i bound
  · rw [shadow]
    exact cellsBehind
  · rw [shadow]
    exact dirty
  · intro i bound
    rw [recorded] at bound
    rw [ids i (by omega)]
    exact owned i bound

omit drms in
theorem DrmsState.without (state : DrmsState c cfg pristine owner behind rt levels) (tid : Nat) :
    DrmsState c cfg pristine owner behind {rt with threads := Function.update rt.threads tid none}
      {levels with threads := Function.update levels.threads tid none} := by
  have kept : Related (fun tid => DrmsThread cfg owner rt.globalCounter rt.stamp levels.written (behind tid) tid)
      {rt with threads := Function.update rt.threads tid none}
      {levels with threads := Function.update levels.threads tid none} := by
    refine ⟨state.related.tid,state.related.shared,state.related.reported,fun other => ?_⟩
    simp only [Function.update_apply]
    split
    · exact .none
    · exact state.related.threads other
  exact state.threads rfl rfl rfl rfl kept

omit drms in
theorem push_tracks {base named : ThreadData} {thread : LevelThread} {depth counter : Nat}
    (tracks : Tracks base.ids depth base.shadowMemory.value thread.levels)
    (shadow : named.shadowMemory = base.shadowMemory) (ids : ∀ i, i < depth → named.ids i = base.ids i)
    (top : named.ids depth = counter) (positive : 0 < counter) (idsBelow : ∀ i, i < depth → base.ids i < counter)
    (cellsBelow : ∀ g, base.shadowMemory.value g < counter) :
    Tracks named.ids (depth + 1) named.shadowMemory.value thread.levels := by
  rw [shadow]
  apply tracks.push ids
  · intro i bound
    rw [ids i bound,top]
    exact idsBelow i bound
  · rw [top]
    exact positive
  · intro g
    rw [top]
    exact cellsBelow g

omit drms in
/-- A stack whose ids are all behind the counter may take the counter for the id of a new top frame. -/
theorem Numbered.of {tid : Nat} {rt' : Runtime c} {base opened named : ThreadData} {thread : LevelThread} {core : ThreadData}
    {counter : Nat} (moved : rt'.globalCounter = counter)
    (state : DrmsState c cfg pristine owner (fun _ => True) {rt' with threads := Function.update rt'.threads tid none}
      {levels with threads := Function.update levels.threads tid none})
    (rel : DrmsThread cfg owner counter rt'.stamp levels.written True tid base {thread with core := core})
    (positive : 0 < counter) (currentTid : rt'.currentTid = rt.currentTid) (shared : rt'.shared = rt.shared)
    (erase : named.erase = opened.erase) (recorded : base.skip = 0) (depth : opened.stackDepth = base.stackDepth + 1)
    (shadow : named.shadowMemory = base.shadowMemory)
    (ids : ∀ i, named.ids i = if i = base.stackDepth then counter else base.ids i) :
    Numbered c cfg pristine (Function.update owner counter tid) tid rt levels opened thread rt' named := by
  subst moved
  have all := rel.follows.counted.recorded_iff.mp recorded
  have tracks := rel.follows.tracks
  rw [all] at tracks
  have behind : ∀ i, i < base.stackDepth → base.ids i < rt'.globalCounter := fun i bound => rel.idsBehind trivial i (by omega)
  refine ⟨state.reown fun id less => Function.update_of_ne (Nat.ne_of_lt less) _ _,positive,currentTid,shared,erase,?_,?_,?_,?_,?_,
    ?_,?_⟩
  · rw [depth]
    refine push_tracks tracks shadow ?_ (by rw [ids,if_pos rfl]) positive behind (rel.cellsBehind trivial)
    intro i bound
    rw [ids i,if_neg (by omega)]
  · intro i bound
    rw [ids i]
    split
    · exact Nat.le_refl _
    · exact (behind i (by omega)).le
  · rw [shadow]
    exact rel.cellsBelow
  · rw [shadow]
    exact rel.dirty
  · intro i bound
    rw [ids i]
    split
    · exact Function.update_self _ _ _
    · have less := behind i (by omega)
      exact (Function.update_of_ne (Nat.ne_of_lt less) _ _).trans (rel.owned i (by omega))
  · rw [shadow]
    exact rel.follows.limit
  · rw [shadow]
    exact rel.follows.scale

omit drms in
theorem assignIdDrms_spec {tid : Nat} {tdata opened : ThreadData} {thread : LevelThread}
    (rel : DrmsRelated c cfg pristine owner rt levels) (found : rt.threads tid = some tdata)
    (related : DrmsThread cfg owner rt.globalCounter rt.stamp levels.written (rt.Waits tid) tid tdata thread)
    (frame : Opened cfg tdata opened) (recorded : tdata.skip = 0) (steady : rt.Steady cfg pristine) :
    ∃ owner' rt' named, assignIdDrms cfg rt tid opened = .ok (rt',named) ∧
      Numbered c cfg pristine owner' tid rt levels opened thread rt' named := by
  have depth := frame.more.depth
  unfold assignIdDrms
  dsimp only
  by_cases full : c.full (rt.globalCounter + 1) = true
  · obtain ⟨renumbered,orderly,small⟩ := steady full
    have mergeable := rel.state.mergeable orderly
    let base : ThreadData := {opened.setTop fun act => {act with activationId := rt.globalCounter + 1} with
      stackDepth := (opened.setTop fun act => {act with activationId := rt.globalCounter + 1}).stackDepth - 1}
    have baseDepth : base.stackDepth = tdata.stackDepth := by
      change opened.stackDepth - 1 = tdata.stackDepth
      omega
    have slots : ∀ k, k < tdata.stackDepth → base.stack k = tdata.stack k := by
      intro k below
      have other : k ≠ opened.stackDepth - 1 := by omega
      exact (Function.update_of_ne other _ _).trans (frame.slots k (by omega))
    have baseRel := related.base baseDepth frame.skip frame.shadow
      (fun k below => congrArg Activation.activationId (slots k below))
      fun k below => congrArg Activation.routineInfo (slots k below)
    have stateBase : DrmsState c cfg pristine owner rt.Waits (rt.put tid base)
        (levels.put tid {thread with core := base.erase}) :=
      rel.state.threads rfl rfl rfl rfl (rel.state.related.put rfl baseRel)
    have live : (rt.put tid base).live cfg = rt.live cfg := live_put found
    obtain ⟨depths,frames⟩ := base_merge found baseDepth fun k below => congrArg Activation.activationId (slots k below)
    have pending : (rt.put tid base).pendingFrames cfg = rt.pendingFrames cfg := by
      unfold Runtime.pendingFrames
      rw [live,depths]
    obtain ⟨global,threads',owner',ok,after⟩ := stateBase.overflow
      (by rw [live,depths]; exact mergeable.congr frames) (by rw [pending]; exact fun _ => small)
    rw [pending] at ok after
    have handled : overflowHandler cfg (({rt with globalCounter := rt.globalCounter + 1} : Runtime c).put tid base) =
        .ok (3 * (rt.pendingFrames cfg + 2),{rt.put tid base with
          globalCounter := rt.globalCounter + 1, globalShadow := global, threads := threads'}) := ok _
    rw [if_pos full,handled,ok_bind]
    generalize counter : 3 * (rt.pendingFrames cfg + 2) = m at after
    have positive : 0 < m := by omega
    rcases after.related.lookup tid with ⟨_,none'⟩ | ⟨tdata',thread',some,some',rel'⟩
    · simp [LevelRuntime.put] at none'
    · have core : thread' = {thread with core := base.erase} := by
        simpa [LevelRuntime.put] using some'.symm
      subst core
      have erased : base.erase = tdata'.erase := rel'.follows.core
      have frames' := sameFrames erased
      have height : tdata'.stackDepth = tdata.stackDepth := frames'.depth.symm.trans baseDepth
      have free : tdata'.skip = 0 := frames'.skip.symm.trans (frame.skip.trans recorded)
      let taller : ThreadData := {tdata' with stackDepth := tdata'.stackDepth + 1}
      have restored : taller.erase = (opened.setTop fun act => {act with activationId := rt.globalCounter + 1}).erase := by
        have same : taller.erase = {base.erase with stackDepth := tdata'.stackDepth + 1} := by
          rw [erased]
          rfl
        rw [same,height,← depth]
        rfl
      have present : threads' tid = Option.some tdata' := some
      simp only [present]
      have removed := (after.renumbered renumbered).without tid
      simp only [LevelRuntime.put,Function.update_idem] at removed
      refine ⟨Function.update owner' m tid,_,taller.setTop fun act => {act with activationId := m},rfl,
        .of rfl removed rel' positive rfl rfl ?_ free ?_ ?_ ?_⟩
      · exact (erase_setId taller _ _).trans (restored.trans (erase_setId opened _ _))
      · rw [height]
        exact depth
      · rfl
      · intro i
        rw [ids_setTop]
        rfl
  · have fits := fits_succ rel.state.fits full
    have bumped := rel.state.bump fits
    have later := related.later (Nat.le_succ _) fun _ : True => Or.inl (Nat.lt_succ_self _)
    rw [if_neg full]
    refine ⟨Function.update owner (rt.globalCounter + 1) tid,_,
      opened.setTop fun act => {act with activationId := rt.globalCounter + 1},rfl,
      .of rfl (bumped.without tid) later (Nat.succ_pos _) rfl rfl (erase_setId opened _ _) recorded depth frame.shadow ?_⟩
    intro i
    rw [ids_setTop,depth,Nat.add_sub_cancel,frame.ids]

theorem DrmsRelated.pushStack (rel : DrmsRelated c cfg pristine owner rt levels) (sp : UInt64) (f : FnPtr)
    (steady : ∀ tdata, rt.threads rt.currentTid = some tdata → tdata.skip = 0 → (cfg.fn f).skip = false →
      rt.Steady cfg pristine) :
    Matches (DrmsFollows c cfg pristine) (pushStack cfg rt sp f) (Levels.pushStack cfg levels sp f) := by
  have related := rel.state.related
  apply related.pushStack (fun tid => drmsKeeps cfg _ _ _ _ _ tid) sp f rfl
  · intro after thread kept
    exact ⟨owner,rel.quiet rfl rfl (Or.inr rfl) rfl rfl (related.put related.tid kept)⟩
  · intro tdata thread opened found found' kept frame recorded plain visible
    obtain ⟨owner',rt',named,ok,numbered⟩ := assignIdDrms_spec rel found kept frame recorded
      (steady tdata found recorded visible)
    have same := sameFrames numbered.erase
    have depth := frame.more.depth
    have more : OneMore tdata named :=
      ⟨same.depth.trans depth,fun i bound => (same.routines i).trans (frame.more.below i bound)⟩
    have flag : skipFlag cfg named tdata.stackDepth = false := by
      rw [skipFlag,same.routines]
      exact plain
    have tracked := numbered.tracks
    rw [depth] at tracked
    obtain ⟨follows,entered⟩ := kept.follows.open recorded more (by rw [same.skip,frame.skip,recorded]) flag
      tracked numbered.limit numbered.scale rt.shared
    have stamps := enterShared_stamps cfg rt.shared named
    have erased := erase_enterShared cfg rt.shared named
    rw [numbered.erase] at erased
    simp only [assignId,drms,ok,ok_bind,erased,numbered.shared]
    have thread' : DrmsThread cfg owner' rt'.globalCounter rt'.stamp levels.written (rt'.Waits rt.currentTid) rt.currentTid
        (enterShared cfg rt.shared named).2 {thread with core := (enterShared cfg rt.shared named).2.erase} := by
      refine ⟨follows,kept.named,?_,?_,?_,?_,?_,?_⟩
      · intro i bound
        rw [stamps.ids]
        exact numbered.idsBelow i (by omega)
      · rw [stamps.shadow]
        exact numbered.cellsBelow
      · rintro ⟨_,other⟩
        exact absurd numbered.currentTid.symm other
      · rintro ⟨_,other⟩
        exact absurd numbered.currentTid.symm other
      · rw [stamps.shadow]
        exact numbered.dirty
      · intro i bound
        rw [stamps.ids]
        exact numbered.owned i (by omega)
    have others := numbered.state.weaken rt'.Waits fun _ _ => trivial
    have stored := others.related.putShared (enterShared cfg rt.shared named).1 related.tid thread'
    refine ⟨owner',others.threads rfl rfl rfl rfl ?_,fun _ => numbered.positive⟩
    rw [related.tid] at stored ⊢
    simp only [Runtime.put,LevelRuntime.put,Function.update_idem] at stored ⊢
    exact stored

omit drms in
theorem touchThread {counter tid ts : Nat} {stamp : Nat → Nat} {written : Nat → Bool} {waits : Prop}
    {tdata : ThreadData} {thread : LevelThread}
    (rel : DrmsThread cfg owner counter stamp written waits tid tdata thread) (recording : Recording tdata)
    (type : AccessType) (g : Nat) (wts : c.Word) (now : tsOf c wts = stamp g) (kernel : Bool)
    (writer : written g = true → syscallOf c wts = kernel)
    (sound : type ≠ .store → written g = false → stamp g ≤ tdata.shadowMemory.value g) (global : LookupTable c.Word) :
    ∃ touched, (let oldTs := tdata.shadowMemory.value g
      let stored := {tdata with shadowMemory := tdata.shadowMemory.write g ts}
      if type = .store then (.ok (global,stored) : Result (LookupTable c.Word × ThreadData))
      else if oldTs < tsOf c wts then
        .ok (global,(stored.setTop incInput).setTop (if syscallOf c wts then incSyscall else incThread))
      else if oldTs < stored.top.activationId then
        if oldTs > 0 ∧ oldTs ≥ ((stored.setTop incInput).stack 0).activationId then do
          let i ← getActivationByAid (stored.setTop incInput) oldTs
          .ok (global,(stored.setTop incInput).setSlot i decInput)
        else .ok (global,stored.setTop incInput)
      else .ok (global,stored)) = .ok (global,touched) ∧
      SameStamps {tdata with shadowMemory := tdata.shadowMemory.write g ts} touched ∧
      touched.erase = (Levels.touch type kernel thread g).core := by
  obtain ⟨nonempty,recorded⟩ := recording
  have follows := rel.follows
  dsimp only
  rcases eq_or_ne type .store with store | read
  · rw [if_pos store]
    refine ⟨_,rfl,⟨rfl,rfl,rfl,fun _ => rfl⟩,?_⟩
    exact follows.core.symm.trans (if_pos store).symm
  · have core : (Levels.touch type kernel thread g).core = readInput kernel thread g := if_neg read
    rw [if_neg read,core]
    let stored : ThreadData := {tdata with shadowMemory := tdata.shadowMemory.write g ts}
    by_cases induced : tdata.shadowMemory.value g < tsOf c wts
    · have writes : written g = true := by
        by_contra never
        have := sound read (by simpa using never)
        omega
      have dirty : thread.dirty g = true := (rel.dirty g).mpr ⟨writes,by omega⟩
      rw [if_pos induced]
      have stamps : SameStamps stored (stored.setTop incInput) := .setSlot _ _ fun _ => rfl
      refine ⟨_,rfl,stamps.trans (.setSlot _ _ fun act => ?_),?_⟩
      · split <;> rfl
      · have first := erase_setTop stored incInput fun _ => rfl
        have second := erase_setTop (stored.setTop incInput) (if syscallOf c wts then incSyscall else incThread)
          fun act => by split <;> rfl
        refine second.trans ?_
        rw [first]
        unfold readInput
        rw [follows.core,dirty,writer writes]
        rfl
    · have clean : thread.dirty g = false := by
        rw [← Bool.not_eq_true,rel.dirty g]
        omega
      rw [if_neg induced]
      by_cases fresh : tdata.shadowMemory.value g < tdata.top.activationId
      · obtain ⟨counted,ok,stamps,erased⟩ := follows.countRead nonempty recorded g clean kernel
          (tdata.shadowMemory.write g ts) fresh
        refine ⟨counted,?_,stamps,erased⟩
        have facts := follows.read nonempty recorded g
        have counting : SameStamps stored (stored.setTop incInput) := .setSlot _ _ fun _ => rfl
        have bottom : ((stored.setTop incInput).stack 0).activationId = (tdata.stack 0).activationId := counting.ids 0
        have entered : tdata.shadowMemory.value g < stored.top.activationId := fresh
        rw [if_pos entered]
        by_cases high : tdata.shadowMemory.value g ≥ ((stored.setTop incInput).stack 0).activationId
        · have positive := facts.positive (facts.known.mp (bottom ▸ high))
          obtain ⟨i,found,last⟩ := bind_ok.mp ((if_pos high).symm.trans ok)
          rw [if_pos ⟨positive,high⟩,found]
          cases last
          rfl
        · have last := (if_neg high).symm.trans ok
          rw [if_neg fun both => high both.2]
          cases last
          rfl
      · rw [if_neg (by exact fresh)]
        refine ⟨_,rfl,⟨rfl,rfl,rfl,fun _ => rfl⟩,?_⟩
        have old : ¬ thread.levels g < thread.core.stackDepth := by
          rw [follows.depth,← (follows.read nonempty recorded g).fresh]
          exact fresh
        unfold readInput
        simp only [clean,Bool.false_eq_true,if_false,if_neg old]
        exact follows.core.symm

omit drms in
theorem DrmsState.mark (state : DrmsState c cfg pristine owner behind rt levels)
    (waits : ∀ tid tdata, rt.threads tid = some tdata → behind tid) (positive : 0 < rt.globalCounter)
    (kernel : Bool) {word : c.Word} (ts : tsOf c word = rt.globalCounter) (bit : syscallOf c word = kernel) (g : Nat) :
    DrmsState c cfg pristine owner behind {rt with globalShadow := rt.globalShadow.write g word}
      (Levels.mark kernel levels g) := by
  obtain ⟨related,fits,stampsBelow,known,unknown,limit,scale⟩ := state
  have stamp : ∀ h, ({rt with globalShadow := rt.globalShadow.write g word} : Runtime c).stamp h =
      if h = g then rt.globalCounter else rt.stamp h := by
    intro h
    simp only [Runtime.stamp,LookupTable.value_write]
    split
    · exact ts
    · rfl
  refine ⟨⟨related.tid,related.shared,related.reported,fun tid => ?_⟩,fits,?_,?_,?_,?_,scale⟩
  · rcases related.lookup tid with ⟨none,none'⟩ | ⟨tdata,thread,some,some',rel⟩
    · simp only [Levels.mark,none,none',Option.map_none]
      exact .none
    · simp only [Levels.mark,some,some',Option.map_some]
      obtain ⟨⟨core,counted,tracks,limit,scale⟩,named,idsBelow,cellsBelow,idsBehind,cellsBehind,dirty,owned⟩ := rel
      refine .some ⟨⟨core,counted,tracks,limit,scale⟩,named,idsBelow,cellsBelow,idsBehind,cellsBehind,fun h => ?_,owned⟩
      rw [stamp h]
      simp only [Function.update_apply]
      by_cases same : h = g
      · simp only [same,if_true,true_and]
        exact ⟨fun _ => cellsBehind (waits tid tdata some) g,fun _ => trivial⟩
      · simp only [if_neg same]
        exact dirty h
  · intro h
    rw [stamp h]
    split
    · exact Nat.le_refl _
    · exact stampsBelow h
  · intro h
    rw [stamp h]
    simp only [Levels.mark,Function.update_apply,LookupTable.value_write]
    by_cases same : h = g
    · simp only [same,if_true]
      exact fun _ => ⟨positive,bit⟩
    · simp only [if_neg same]
      exact known h
  · intro now h
    rw [stamp h]
    simp only [Levels.mark,Function.update_apply]
    by_cases same : h = g
    · simp [same]
    · simp only [if_neg same]
      exact unknown now h
  · exact (LookupTable.write_limit _ _ _).trans limit

omit drms in
theorem mark_put (kernel : Bool) (levels : LevelRuntime) (g tid : Nat) (thread : LevelThread) :
    (Levels.mark kernel {levels with threads := Function.update levels.threads tid none} g).put tid thread =
      (Levels.mark kernel levels g).put tid thread := by
  simp only [Levels.mark,LevelRuntime.put]
  congr 1
  ext1 other
  by_cases same : other = tid
  · subst same
    simp
  · simp [Function.update_of_ne same]

/-- The current thread in the middle of an access. -/
structure DrmsAccess (c : Counter) (cfg : Config) (pristine : Prop) (owner : Nat → Nat) (rt : Runtime c)
    (state : LookupTable c.Word × ThreadData) (levels : LevelRuntime) : Prop where
  related : DrmsRelated c cfg pristine owner ({rt with globalShadow := state.1}.put rt.currentTid state.2) levels
  recording : Recording state.2

/-- No renumbered timestamp passes for a write that never happened. -/
def Sound (c : Counter) (state : LookupTable c.Word × ThreadData) (levels : LevelRuntime) (g : Nat) : Prop :=
  levels.written g = false → tsOf c (state.1.value g) ≤ state.2.shadowMemory.value g

omit drms in
theorem DrmsThread.touch {counter tid : Nat} {stamp stamp' : Nat → Nat} {written written' : Nat → Bool}
    {waits : Prop} {tdata touched : ThreadData} {thread : LevelThread}
    (rel : DrmsThread cfg owner counter stamp written waits tid tdata thread) (recording : Recording tdata)
    (type : AccessType) (g : Nat) (kernel : Bool) (current : ¬ waits) (below : ∀ h, stamp' h ≤ counter)
    (others : ∀ h, h ≠ g → stamp' h = stamp h ∧ written' h = written h)
    (stamps : SameStamps {tdata with shadowMemory := tdata.shadowMemory.write g counter} touched)
    (erased : touched.erase = (Levels.touch type kernel thread g).core) :
    DrmsThread cfg owner counter stamp' written' waits tid touched (Levels.touch type kernel thread g) := by
  obtain ⟨nonempty,recorded⟩ := recording
  have follows := rel.follows
  have all := follows.counted.recorded_iff.mp recorded
  have frames : SameFrames tdata touched := by
    have moved := frames_touch type kernel thread g
    rw [← erased,follows.core] at moved
    exact (frames_erase tdata).trans (moved.trans (frames_erase touched).symm)
  obtain ⟨counted,depth⟩ := frames.counted follows.counted
  have value : ∀ h, touched.shadowMemory.value h = if h = g then counter else tdata.shadowMemory.value h := by
    intro h
    rw [stamps.shadow]
    exact LookupTable.value_write _ _ _ _
  have reached : ∀ i, i < recordedDepth cfg tdata → tdata.ids i ≤ counter := rel.idsBelow
  refine ⟨⟨erased.symm,counted,?_,?_,?_⟩,rel.named,?_,?_,fun now => absurd now current,
    fun now => absurd now current,?_,?_⟩
  · rw [depth]
    have levels : (Levels.touch type kernel thread g).levels =
        Function.update thread.levels g (recordedDepth cfg tdata) := by
      rw [all,← follows.depth]
      rfl
    rw [levels]
    have tracks : Tracks tdata.ids (recordedDepth cfg tdata) touched.shadowMemory.value
        (Function.update thread.levels g (recordedDepth cfg tdata)) :=
      follows.tracks.touch reached value fun h => Function.update_apply _ _ _ _
    exact tracks.congr (fun i _ => stamps.ids i) fun _ => rfl
  · rw [stamps.shadow]
    exact (LookupTable.write_limit _ _ _).trans follows.limit
  · rw [stamps.shadow]
    exact follows.scale
  · intro i bound
    rw [stamps.ids]
    exact reached i (by omega)
  · intro h
    rw [value h]
    split
    · exact Nat.le_refl _
    · exact rel.cellsBelow h
  · intro h
    rw [value h]
    simp only [Levels.touch,Function.update_apply]
    by_cases same : h = g
    · have le := below g
      simp only [same,if_true,Bool.false_eq_true,false_iff,not_and]
      omega
    · obtain ⟨kept,kept'⟩ := others h same
      simp only [if_neg same,kept,kept']
      exact rel.dirty h
  · intro i bound
    rw [stamps.ids]
    exact rel.owned i (by omega)

omit drms in
theorem DrmsState.touched {tid : Nat} {global : LookupTable c.Word} {tdata touched : ThreadData}
    {thread : LevelThread} {waits : Nat → Prop}
    (state : DrmsState c cfg pristine owner waits ({rt with globalShadow := global}.put tid tdata) levels)
    (related : DrmsThread cfg owner rt.globalCounter (fun g => tsOf c (global.value g)) levels.written (waits tid) tid tdata
      thread) (recording : Recording tdata) (current : ¬ waits tid) (others : ∀ other, other ≠ tid → waits other)
    (positive : 0 < rt.globalCounter) (type : AccessType) (g : Nat) (kernel : Bool)
    (stamps : SameStamps {tdata with shadowMemory := tdata.shadowMemory.write g rt.globalCounter} touched)
    (erased : touched.erase = (Levels.touch type kernel thread g).core) :
    DrmsState c cfg pristine owner waits
      (({rt with globalShadow := if type = .load then global else global.write g (plainWord c rt.globalCounter)} :
        Runtime c).put tid touched)
      ((if type = .load then levels else Levels.mark false levels g).put tid (Levels.touch type kernel thread g)) := by
  have fits : c.Fits rt.globalCounter := state.fits
  rcases eq_or_ne type .load with load | writes
  · rw [if_pos load,if_pos load]
    have thread' := related.touch recording type g kernel current state.stampsBelow (fun _ _ => ⟨rfl,rfl⟩) stamps erased
    have put := state.related.put rfl thread'
    rw [Runtime.put_put] at put
    exact state.threads rfl rfl rfl rfl put
  · rw [if_neg writes,if_neg writes]
    have held : ∀ other data,
        Function.update (Function.update rt.threads tid (some tdata)) tid none other = some data → waits other := by
      intro other data found
      apply others
      rintro rfl
      simp at found
    have alone := (state.without tid).mark held positive false (tsOf_plainWord fits) (syscallOf_plainWord fits) g
    have thread' : DrmsThread cfg owner rt.globalCounter
        (fun h => tsOf c ((global.write g (plainWord c rt.globalCounter)).value h))
        (Function.update levels.written g true) (waits tid) tid touched (Levels.touch type kernel thread g) := by
      apply related.touch recording type g kernel current alone.stampsBelow ?_ stamps erased
      intro h other
      exact ⟨congrArg (tsOf c) ((LookupTable.value_write _ _ _ _).trans (if_neg other)),
        Function.update_of_ne other _ _⟩
    have put := alone.related.put rfl thread'
    rw [mark_put] at put
    simp only [Runtime.put,Function.update_idem] at put ⊢
    exact alone.threads rfl rfl rfl rfl put

theorem DrmsAccess.touch {state : LookupTable c.Word × ThreadData} (access : DrmsAccess c cfg pristine owner rt state levels)
    (type : AccessType) (addr : Nat)
    (sound : type ≠ .store → Sound c state levels (addr / cfg.memoryResolution)) :
    Matches (fun state' levels' => DrmsAccess c cfg pristine owner rt state' levels' ∧
      ∀ h, Sound c state levels h → Sound c state' levels' h)
      (accessCellDrms c rt.globalCounter type false state addr) (touchCell cfg type false levels addr) := by
  obtain ⟨global,tdata⟩ := state
  obtain ⟨⟨rel,started⟩,recording⟩ := access
  have tid : levels.currentTid = rt.currentTid := rel.related.tid
  have stored : (({rt with globalShadow := global} : Runtime c).put rt.currentTid tdata).threads rt.currentTid =
      some tdata := by simp [Runtime.put]
  rcases rel.related.lookup rt.currentTid with ⟨none,-⟩ | ⟨found,thread,some,some',related⟩
  · rw [stored] at none
    cases none
  · obtain rfl : tdata = found := by simpa [stored] using some
    have current : levels.current = .ok thread := by
      unfold LevelRuntime.current
      rw [tid,some']
    have nonzero : rt.currentTid ≠ 0 := Nat.pos_iff_ne_zero.mp related.named.1
    have granule : tdata.shadowMemory.granule addr = addr / cfg.memoryResolution := by
      rw [LookupTable.granule,related.follows.scale]
    have granule' : global.granule addr = addr / cfg.memoryResolution := by
      rw [LookupTable.granule]
      exact congrArg (addr / ·) rel.scale
    have limit : global.table.limit = cfg.layout.limit := rel.limit
    unfold touchCell
    simp only [current,ok_bind,drms]
    by_cases admitted : addr < cfg.layout.limit
    · let g := addr / cfg.memoryResolution
      let global' := if type = .load then global else global.write g (plainWord c rt.globalCounter)
      let kernel := levels.byKernel g
      obtain ⟨touched,ok,stamps,erased⟩ := touchThread related recording type g (global.value g) rfl kernel
        (fun writes => (rel.known g writes).2) sound global'
      have looked := lkLookup_eq global addr (by omega)
      have inserted := lkInsert_eq global addr (plainWord c rt.globalCounter) (by omega)
      rw [granule'] at looked inserted
      have local' := lkInsert_eq tdata.shadowMemory addr rt.globalCounter (by rw [related.follows.limit]; exact admitted)
      rw [granule] at local'
      have cell : accessCellDrms c rt.globalCounter type false (global,tdata) addr = .ok (global',touched) := by
        unfold accessCellDrms
        cases type with
        | load =>
          simp only [looked,ok_bind,local',Bool.false_eq_true,false_and,if_false]
          exact ok
        | store =>
          simp only [inserted,ok_bind,local',Bool.false_eq_true,false_and,if_false]
          exact ok
        | modify =>
          simp only [inserted,ok_bind,local',Bool.false_eq_true,false_and,if_false]
          exact ok
      rw [cell]
      have after := rel.touched related recording (fun waits => waits.2 rfl) (fun other different => ⟨nonzero,different⟩)
        (started nonzero) type g kernel stamps erased
      simp only [admitted,decide_true,check,if_true,ok_bind,Bool.false_eq_true,false_and,if_false]
      have frames : SameFrames tdata touched := by
        have moved := frames_touch type kernel thread g
        rw [← erased,related.follows.core] at moved
        exact (frames_erase tdata).trans (moved.trans (frames_erase touched).symm)
      refine ⟨⟨⟨?_,started⟩,by rw [frames.depth]; exact recording.1,by rw [frames.skip]; exact recording.2⟩,?_⟩
      · rw [tid]
        exact after
      · intro h kept never
        have below := after.stampsBelow h
        have value : touched.shadowMemory.value h =
            if h = g then rt.globalCounter else tdata.shadowMemory.value h := by
          rw [stamps.shadow]
          exact LookupTable.value_write _ _ _ _
        by_cases same : h = g
        · rw [if_pos same] at value
          exact Nat.le_trans below (Nat.le_of_eq value.symm)
        · rw [if_neg same] at value
          have word : global'.value h = global.value h := by
            simp only [global']
            split
            · rfl
            · rw [LookupTable.value_write,if_neg same]
          have before : levels.written h = false := by
            rcases eq_or_ne type .load with load | writes
            · rw [if_pos load] at never
              exact never
            · rw [if_neg writes] at never
              exact (Function.update_of_ne same _ _).symm.trans never
          change tsOf c (global'.value h) ≤ touched.shadowMemory.value h
          rw [word,value]
          exact kept before
    · have outside : global.table.limit ≤ addr := by omega
      obtain ⟨fault,refused⟩ := lkLookup_refused global addr outside
      obtain ⟨fault',refused'⟩ := lkInsert_refused global addr (plainWord c rt.globalCounter) outside
      unfold accessCellDrms
      cases type
      all_goals
        simp only [refused,refused',admitted,decide_false,check,error_bind,Bool.false_eq_true,if_false]
        exact trivial

theorem DrmsAccess.touches {state : LookupTable c.Word × ThreadData} (type : AccessType) (addrs : List Nat)
    (access : DrmsAccess c cfg pristine owner rt state levels)
    (sound : type ≠ .store → ∀ addr ∈ addrs, Sound c state levels (addr / cfg.memoryResolution)) :
    Matches (DrmsAccess c cfg pristine owner rt) (addrs.foldlM (accessCellDrms c rt.globalCounter type false) state)
      (addrs.foldlM (touchCell cfg type false) levels) := by
  induction addrs generalizing state levels with
  | nil => exact access
  | cons addr addrs ih =>
    simp only [List.foldlM_cons]
    apply (access.touch drms type addr fun read => sound read addr List.mem_cons_self).bind
    rintro state' levels' - ⟨access',kept⟩
    exact ih access' fun read other member => kept _ (sound read other (List.mem_cons_of_mem _ member))

/-- The reads of an access meet no renumbered timestamp of a granule that was never written. -/
def Runtime.Readable (cfg : Config) (rt : Runtime c) (written : Nat → Bool) (type : AccessType) (addr size : Nat) :
    Prop :=
  ∀ tdata, rt.threads rt.currentTid = some tdata → Recording tdata → type ≠ .store →
    ∀ a ∈ accessAddrs cfg.memoryResolution addr size, written (a / cfg.memoryResolution) = false →
      rt.stamp (a / cfg.memoryResolution) ≤ tdata.shadowMemory.value (a / cfg.memoryResolution)

omit drms in
theorem DrmsRelated.readable (rel : DrmsRelated c cfg True owner rt levels) (type : AccessType) (addr size : Nat) :
    rt.Readable cfg levels.written type addr size := by
  intro tdata _ _ _ a _ never
  rw [rel.state.unknown trivial _ never]
  exact Nat.zero_le _

omit drms in
theorem put_current {tid : Nat} {tdata : ThreadData} (found : rt.threads tid = some tdata) :
    ({rt with globalShadow := rt.globalShadow} : Runtime c).put tid tdata = rt := by
  simp only [Runtime.put,← found,Function.update_eq_self]

theorem DrmsRelated.access (rel : DrmsRelated c cfg pristine owner rt levels) (type : AccessType) (addr size : Nat)
    (readable : rt.Readable cfg levels.written type addr size) :
    Matches (DrmsRelated c cfg pristine owner) (traceAccess cfg rt type addr size false)
      (Levels.traceAccess cfg levels type addr size false) := by
  apply rel.state.related.withCurrent
  intro tdata thread found abstract related
  have read := readable tdata found
  simp only [drms,traceAccessDrms]
  rw [related.follows.depth,related.follows.skip]
  generalize accessAddrs cfg.memoryResolution addr size = addrs at read
  by_cases unrecorded : tdata.stackDepth = 0 ∨ tdata.skip > 0
  · simp only [if_pos unrecorded,ok_bind]
    rw [put_current found]
    exact rel
  · simp only [if_neg unrecorded]
    have recording : Recording tdata := by
      unfold Recording
      omega
    have start : DrmsAccess c cfg pristine owner rt (rt.globalShadow,tdata) levels := by
      refine ⟨?_,recording⟩
      rw [put_current found]
      exact rel
    have fold := DrmsAccess.touches drms type addrs start (read recording)
    exact fold.finish fun after l done => done.related

/-- Before a kernel store every thread is behind the counter. -/
structure KernelReady (c : Counter) (cfg : Config) (pristine : Prop) (owner : Nat → Nat) (rt : Runtime c) (levels : LevelRuntime) :
    Prop where
  related : DrmsRelated c cfg pristine owner rt levels
  behind : rt.currentTid ≠ 0 → DrmsState c cfg pristine owner (fun _ => True) rt levels

theorem KernelReady.cell (ready : KernelReady c cfg pristine owner rt levels) {tdata : ThreadData}
    (found : rt.threads rt.currentTid = some tdata) (addr : Nat) :
    Matches (fun state levels' => state.2 = tdata ∧
      KernelReady c cfg pristine owner {rt with globalShadow := state.1} levels')
      (accessCellDrms c rt.globalCounter .store true (rt.globalShadow,tdata) addr)
      (touchCell cfg .store true levels addr) := by
  obtain ⟨rel,behind⟩ := ready
  have related := rel.state.related
  rcases related.lookup rt.currentTid with ⟨none,-⟩ | ⟨data,thread,some,some',thread'⟩
  · rw [found] at none
    cases none
  · have nonzero : rt.currentTid ≠ 0 := Nat.pos_iff_ne_zero.mp thread'.named.1
    have state := behind nonzero
    have positive := rel.started nonzero
    have current : levels.current = .ok thread := by
      unfold LevelRuntime.current
      rw [related.tid,some']
    unfold touchCell accessCellDrms
    simp only [current,ok_bind,drms,if_true,ne_eq,reduceCtorEq,not_false_iff,and_self]
    by_cases admitted : addr < cfg.layout.limit
    · have inserted := lkInsert_eq rt.globalShadow addr (setSyscall c (plainWord c rt.globalCounter))
        (by rw [state.limit]; exact admitted)
      have granule : rt.globalShadow.granule addr = addr / cfg.memoryResolution := by
        rw [LookupTable.granule,state.scale]
      rw [granule] at inserted
      have marked := state.mark (fun _ _ _ => trivial) positive true (tsOf_setSyscall state.fits)
        (syscallOf_setSyscall state.fits) (addr / cfg.memoryResolution)
      simp only [inserted,ok_bind,admitted,decide_true,check,if_true]
      exact ⟨rfl,⟨marked.weaken _ fun _ _ => trivial,fun _ => positive⟩,fun _ => marked⟩
    · obtain ⟨fault,refused⟩ := lkInsert_refused rt.globalShadow addr (setSyscall c (plainWord c rt.globalCounter))
        (by rw [state.limit]; omega)
      simp only [refused,admitted,decide_false,check,error_bind]
      exact trivial

theorem KernelReady.cells {tdata : ThreadData} (addrs : List Nat) {global : LookupTable c.Word}
    (ready : KernelReady c cfg pristine owner {rt with globalShadow := global} levels)
    (found : rt.threads rt.currentTid = some tdata) :
    Matches (fun state levels' => KernelReady c cfg pristine owner ({rt with globalShadow := state.1}.put rt.currentTid state.2)
      levels') (addrs.foldlM (accessCellDrms c rt.globalCounter .store true) (global,tdata))
      (addrs.foldlM (touchCell cfg .store true) levels) := by
  induction addrs generalizing global levels with
  | nil =>
    have same : ({rt with globalShadow := global} : Runtime c).put rt.currentTid tdata =
        {rt with globalShadow := global} := put_current found
    change KernelReady c cfg pristine owner (({rt with globalShadow := global} : Runtime c).put rt.currentTid tdata) levels
    rw [same]
    exact ready
  | cons addr addrs ih =>
    simp only [List.foldlM_cons]
    apply (ready.cell drms found addr).bind
    rintro ⟨global',tdata'⟩ levels' - ⟨same,ready'⟩
    obtain rfl : tdata' = tdata := same
    exact ih ready'

theorem KernelReady.access (ready : KernelReady c cfg pristine owner rt levels) (addr size : Nat) :
    Matches (KernelReady c cfg pristine owner) (traceAccess cfg rt .store addr size true)
      (Levels.traceAccess cfg levels .store addr size true) := by
  apply ready.related.state.related.withCurrent
  intro tdata thread found abstract related
  simp only [drms,traceAccessDrms]
  rw [related.follows.depth,related.follows.skip]
  generalize accessAddrs cfg.memoryResolution addr size = addrs
  by_cases unrecorded : tdata.stackDepth = 0 ∨ tdata.skip > 0
  · simp only [if_pos unrecorded,ok_bind]
    rw [put_current found]
    exact ready
  · simp only [if_neg unrecorded]
    have start : KernelReady c cfg pristine owner {rt with globalShadow := rt.globalShadow} levels := ready
    have fold := KernelReady.cells drms addrs start found
    exact fold.finish fun _ _ done => done

theorem DrmsRelated.postSyscall (rel : DrmsRelated c cfg pristine owner rt levels) (tid : Nat)
    (buffers : List (Nat × Int)) (steady : ¬ (tid = 0 ∧ rt.currentTid ≠ 0) → rt.Steady cfg pristine) :
    Matches (DrmsFollows c cfg pristine) (postSyscall cfg rt tid buffers) (Levels.postSyscall cfg levels tid buffers) := by
  have stores : ∀ owner rt levels, KernelReady c cfg pristine owner rt levels →
      Matches (DrmsFollows c cfg pristine) (buffers.foldlM (kernelStore cfg) rt)
        (buffers.foldlM (Levels.kernelStore cfg) levels) := by
    intro owner rt levels ready
    apply (Matches.foldlM (R := KernelReady c cfg pristine owner) ?_ buffers rt levels ready).mono
    · intro rt levels _ _ ready
      exact ⟨owner,ready.related⟩
    · intro rt levels buffer ready
      unfold kernelStore Levels.kernelStore
      dsimp only
      generalize sweep cfg.memoryResolution _ _ _ = addrs
      exact Matches.foldlM (fun rt levels addr ready => KernelReady.access drms ready addr cfg.memoryResolution)
        addrs rt levels ready
  unfold Aprof.postSyscall Levels.postSyscall
  rw [if_pos drms,if_pos drms,rel.state.related.tid]
  by_cases moved : tid ≠ rt.currentTid
  · simp only [if_pos moved]
    apply (DrmsRelated.threadSwitch drms rel tid fun _ nonzero => steady fun zero => nonzero zero.1).bind
    rintro rt' levels' ok ⟨owner',rel',behind⟩
    apply stores owner' rt' levels' ⟨rel',fun current => behind moved ?_⟩
    rintro rfl
    simp only [Aprof.threadSwitch,if_neg moved,if_true] at ok
    cases ok
    exact current rfl
  · have same : tid = rt.currentTid := not_not.mp moved
    obtain ⟨rt',owner',ok,_,positive,state⟩ := rel.state.increase (steady fun zero => zero.2 (same ▸ zero.1))
    simp only [if_neg moved,ok_bind,ok]
    exact stores owner' rt' levels ⟨state.advanced positive,fun _ => state⟩

def Runtime.Moves (cfg : Config) (rt : Runtime c) : Event → Prop
  | .threadSwitch tid => tid ≠ rt.currentTid ∧ tid ≠ 0
  | .functionEnter _ f => ∃ tdata, rt.threads rt.currentTid = some tdata ∧ tdata.skip = 0 ∧ (cfg.fn f).skip = false
  | .postSyscall tid _ => ¬ (tid = 0 ∧ rt.currentTid ≠ 0)
  | _ => False

/-- The event can be followed without timestamps. -/
def Runtime.Followable (cfg : Config) (pristine : Prop) (written : Nat → Bool) (rt : Runtime c) (event : Event) :
    Prop :=
  (rt.Moves cfg event → rt.Steady cfg pristine) ∧
    ∀ type addr size, event = .access type addr size → rt.Readable cfg written type addr size

theorem DrmsFollows.step (follows : DrmsFollows c cfg pristine rt levels) (event : Event)
    (followable : rt.Followable cfg pristine levels.written event) :
    Matches (DrmsFollows c cfg pristine) (step cfg rt event) (Levels.step cfg levels event) := by
  obtain ⟨owner,rel⟩ := follows
  obtain ⟨steady,readable⟩ := followable
  have same : ∀ rt' levels', DrmsRelated c cfg pristine owner rt' levels' → DrmsFollows c cfg pristine rt' levels' :=
    fun _ _ after => ⟨owner,after⟩
  cases event with
  | threadCreate child =>
    apply (DrmsState.threadStart drms rel.state child fun waits => rel.started waits.1).mono
    intro rt' levels' ok _ state
    obtain ⟨_,_,ok⟩ := bind_ok.mp ok
    obtain ⟨_,_,ok⟩ := bind_ok.mp ok
    obtain ⟨_,_,ok⟩ := bind_ok.mp ok
    cases ok
    exact ⟨owner,state,rel.started⟩
  | threadSwitch tid =>
    apply (DrmsRelated.threadSwitch drms rel tid fun moved nonzero => steady ⟨moved,nonzero⟩).mono
    rintro rt' levels' _ _ ⟨owner',after,_⟩
    exact ⟨owner',after⟩
  | threadExit tid => exact (rel.threadExit tid).mono fun _ _ _ _ => same _ _
  | bbStart => exact rel.bbStart.mono fun _ _ _ _ => same _ _
  | functionEnter sp f =>
    exact DrmsRelated.pushStack drms rel sp f fun tdata found recorded visible =>
      steady ⟨tdata,found,recorded,visible⟩
  | functionExit => exact rel.popStack.mono fun _ _ _ _ => same _ _
  | access type addr size =>
    exact (DrmsRelated.access drms rel type addr size (readable type addr size rfl)).mono fun _ _ _ _ => same _ _
  | postSyscall tid buffers => exact DrmsRelated.postSyscall drms rel tid buffers steady

omit drms in
theorem DrmsFollows.related (follows : DrmsFollows c cfg pristine rt levels) :
    Related (fun _ => Follows cfg) rt levels := by
  obtain ⟨owner,rel⟩ := follows
  exact rel.state.related.mono fun _ _ _ thread => thread.follows

omit drms in
theorem DrmsFollows.readable (follows : DrmsFollows c cfg True rt levels) (type : AccessType) (addr size : Nat) :
    rt.Readable cfg levels.written type addr size := by
  obtain ⟨owner,rel⟩ := follows
  exact rel.readable type addr size

end

theorem drms_initial (c : Counter) (cfg : Config) (pristine : Prop) :
    ∃ rt, initial c cfg = .ok rt ∧ DrmsFollows c cfg pristine rt (Levels.initial cfg) := by
  obtain ⟨global,ok,fresh⟩ := lkCreate_ok (α := c.Word) cfg.layout cfg.memoryResolution cfg.supported
  have zero : ∀ g, tsOf c (global.value g) = 0 := fun g => by rw [fresh.value,tsOf_zero]
  refine ⟨_,by rw [initial,ok]; rfl,fun _ => 0,⟨⟨rfl,rfl,rfl,fun _ => .none⟩,fun _ => by norm_num,?_,?_,?_,fresh.limit,fresh.scale⟩,?_⟩
  · intro g
    exact Nat.le_trans (Nat.le_of_eq (zero g)) (Nat.zero_le _)
  · intro g never
    cases never
  · intro _ g _
    exact zero g
  · intro current
    exact absurd rfl current

end Aprof
