import Aprof.Related

/-! Runs of the tool with the RMS metric refine the runs without timestamps. The
activation ids may overflow any number of times: the handler keeps the levels,
so the counter's kind makes no difference. -/
namespace Aprof

open Lockstep Levels Floor

section
variable (tdata : ThreadData)

theorem overflowHandlerRms_ids (i : Nat) (pending : i < tdata.stackDepth) :
    (overflowHandlerRms tdata).2.ids i = i + 1 := by
  simp [overflowHandlerRms,ThreadData.ids,pending]

theorem overflowHandlerRms_value (positive : ∀ i, i < tdata.stackDepth → 0 < tdata.ids i) (g : Nat) :
    (overflowHandlerRms tdata).2.shadowMemory.value g =
      level tdata.ids (tdata.shadowMemory.value g) tdata.stackDepth := by
  have zero : level tdata.ids 0 tdata.stackDepth = 0 := by
    rcases Nat.eq_zero_or_pos (level tdata.ids 0 tdata.stackDepth) with none | some
    · exact none
    · have le := level_le tdata.ids 0 tdata.stackDepth
      have small := at_level tdata.ids 0 tdata.stackDepth (level tdata.ids 0 tdata.stackDepth - 1) (by omega)
      have := positive (level tdata.ids 0 tdata.stackDepth - 1) (by omega)
      omega
  simp only [overflowHandlerRms,lkCompressRms,LookupTable.value_mapCells]
  split
  · split
    · next unused => rw [unused,zero]
    · rfl
  · next absent =>
    rw [LookupTable.value_unallocated _ _ (by simpa using absent),zero]

theorem overflowHandlerRms_counter : (overflowHandlerRms tdata).1 = tdata.stackDepth + 1 := rfl

theorem overflowHandlerRms_erase : (overflowHandlerRms tdata).2.erase = tdata.erase := by
  have stack : (fun j => ((overflowHandlerRms tdata).2.stack j).erase) = tdata.erase.stack := by
    ext1 j
    simp only [overflowHandlerRms,erase_stack]
    split <;> rfl
  exact congrArg (fun slots => ({tdata.erase with stack := slots} : ThreadData)) stack

theorem overflowHandlerRms_tracks {value levels : Nat → Nat}
    (tracks : Tracks tdata.ids tdata.stackDepth value levels)
    (cells : ∀ g, value g = tdata.shadowMemory.value g) :
    Tracks (overflowHandlerRms tdata).2.ids tdata.stackDepth
      (overflowHandlerRms tdata).2.shadowMemory.value levels := by
  apply tracks.renumber
  · intro i j lt bound
    rw [overflowHandlerRms_ids tdata i (by omega),overflowHandlerRms_ids tdata j bound]
    omega
  · intro i bound
    rw [overflowHandlerRms_ids tdata i bound]
    omega
  · intro g i bound
    rw [overflowHandlerRms_ids tdata i bound,overflowHandlerRms_value tdata tracks.positive,cells g,
      ← lt_level_iff tracks.increasing _ i bound]
    omega

end

structure RmsThread (c : Counter) (cfg : Config) (tdata : ThreadData) (thread : LevelThread) : Prop where
  follows : Follows cfg tdata thread
  idsBelow : ∀ i, i < recordedDepth cfg tdata → tdata.ids i < tdata.nextActivationId
  cellsBelow : ∀ g, tdata.shadowMemory.value g < tdata.nextActivationId
  clean : ∀ g, thread.dirty g = false
  fits : c = .wrapping → tdata.nextActivationId < 2 ^ 32
  room : Roomy tdata.stackDepth tdata.maxStackSize

section
variable {c : Counter} {cfg : Config} {tdata after : ThreadData} {thread : LevelThread}

theorem RmsThread.same (rel : RmsThread c cfg tdata thread) (stamps : SameStamps tdata after)
    (depth : after.stackDepth ≤ tdata.stackDepth)
    (recorded : recordedDepth cfg after ≤ recordedDepth cfg tdata) {levels : Nat → Nat}
    (follows : Follows cfg after {thread with core := after.erase, levels := levels}) :
    RmsThread c cfg after {thread with core := after.erase, levels := levels} := by
  obtain ⟨-,idsBelow,cellsBelow,clean,fits,room⟩ := rel
  refine ⟨follows,?_,?_,clean,?_,?_⟩
  · intro i bound
    rw [stamps.ids,stamps.next]
    exact idsBelow i (by omega)
  · intro g
    rw [stamps.shadow,stamps.next]
    exact cellsBelow g
  · rw [stamps.next]
    exact fits
  · rw [stamps.size]
    exact ⟨Nat.le_trans depth room.1,room.2⟩

theorem RmsThread.pop (rel : RmsThread c cfg tdata thread) (shared : Shared)
    (nonempty : 0 < tdata.stackDepth) :
    RmsThread c cfg (popShared cfg shared tdata).2 {thread with
      core := (popShared cfg shared tdata).2.erase
      levels := fun g => min (thread.levels g) (recordedDepth cfg (popShared cfg shared tdata).2)} := by
  have depth := popShared_recordedDepth rel.follows.counted shared nonempty
  have all := rel.follows.counted.recorded_iff
  apply rel.same (stamps_popShared cfg shared tdata)
  · rw [popShared_depth]
    omega
  · rw [depth]
    split
    · next recorded =>
      have := all.mp recorded
      omega
    · exact Nat.le_refl _
  · exact rel.follows.pop shared nonempty

theorem RmsThread.hide (rel : RmsThread c cfg tdata thread) (opened : Opened cfg tdata after)
    (hidden : skipFlag cfg after tdata.stackDepth = true ∨ 0 < tdata.skip)
    (skip : Nat) (counts : skip = tdata.skip + if skipFlag cfg after tdata.stackDepth = true then 1 else 0) :
    RmsThread c cfg {after with skip := skip} {thread with core := {after with skip := skip}.erase} := by
  obtain ⟨follows,depth⟩ := rel.follows.hide opened hidden skip counts
  refine ⟨follows,?_,?_,rel.clean,?_,opened.room rel.room⟩
  · intro i bound
    rw [depth] at bound
    have id := opened.ids i
    have below := rel.idsBelow i bound
    rw [← id,← opened.next] at below
    exact below
  · intro g
    have below := rel.cellsBelow g
    rw [← opened.shadow,← opened.next] at below
    exact below
  · have fits := rel.fits
    rw [← opened.next] at fits
    exact fits

/-- What `assignIdRms` leaves for the rest of `function_enter`. -/
structure Assigned (c : Counter) (opened assigned : ThreadData) (levels : Nat → Nat) : Prop where
  erase : assigned.erase = opened.erase
  tracks : Tracks assigned.ids opened.stackDepth assigned.shadowMemory.value levels
  idsBelow : ∀ i, i < opened.stackDepth → assigned.ids i < assigned.nextActivationId
  cellsBelow : ∀ g, assigned.shadowMemory.value g < assigned.nextActivationId
  fits : c = .wrapping → assigned.nextActivationId < 2 ^ 32
  limit : assigned.shadowMemory.table.limit = opened.shadowMemory.table.limit
  scale : assigned.shadowMemory.resShift = opened.shadowMemory.resShift

/-- The thread as `function_enter` hands it to the overflow handler. -/
def named (c : Counter) (opened : ThreadData) : ThreadData :=
  {opened.setTop fun act => {act with activationId := opened.nextActivationId} with
    nextActivationId := c.next opened.nextActivationId}

theorem named_ids (opened : ThreadData) {depth : Nat} (nonempty : opened.stackDepth = depth + 1) (i : Nat) :
    (named c opened).ids i = if i = depth then opened.nextActivationId else opened.ids i := by
  refine (ids_setTop opened opened.nextActivationId i).trans ?_
  rw [nonempty,Nat.add_sub_cancel]

theorem named_tracks {levels : Nat → Nat} (opened : ThreadData) {depth : Nat}
    (nonempty : opened.stackDepth = depth + 1) (tracks : Tracks opened.ids depth opened.shadowMemory.value levels)
    (idsBelow : ∀ i, i < depth → opened.ids i < opened.nextActivationId)
    (cellsBelow : ∀ g, opened.shadowMemory.value g < opened.nextActivationId) :
    Tracks (named c opened).ids (depth + 1) opened.shadowMemory.value levels := by
  have ids := named_ids (c := c) opened nonempty
  apply tracks.push
  · intro i bound
    rw [ids i,if_neg (by omega)]
  · intro i bound
    rw [ids i,ids depth,if_neg (by omega),if_pos rfl]
    exact idsBelow i bound
  · rw [ids depth,if_pos rfl]
    exact Nat.zero_lt_of_lt (cellsBelow 0)
  · intro g
    rw [ids depth,if_pos rfl]
    exact cellsBelow g

theorem overflowHandlerRms_below {tdata : ThreadData} (positive : ∀ i, i < tdata.stackDepth → 0 < tdata.ids i) :
    (∀ i, i < tdata.stackDepth → (overflowHandlerRms tdata).2.ids i < (overflowHandlerRms tdata).1) ∧
    ∀ g, (overflowHandlerRms tdata).2.shadowMemory.value g < (overflowHandlerRms tdata).1 := by
  have counter := overflowHandlerRms_counter tdata
  constructor
  · intro i bound
    rw [overflowHandlerRms_ids tdata i bound,counter]
    exact Nat.succ_lt_succ bound
  · intro g
    rw [overflowHandlerRms_value tdata positive g,counter]
    exact Nat.lt_succ_of_le (level_le _ _ _)

theorem assignIdRms_spec {levels : Nat → Nat} (opened : ThreadData) (depth : Nat)
    (nonempty : opened.stackDepth = depth + 1) (tracks : Tracks opened.ids depth opened.shadowMemory.value levels)
    (idsBelow : ∀ i, i < depth → opened.ids i < opened.nextActivationId)
    (cellsBelow : ∀ g, opened.shadowMemory.value g < opened.nextActivationId)
    (fits : c = .wrapping → opened.nextActivationId < 2 ^ 32)
    (room : Roomy opened.stackDepth opened.maxStackSize) :
    Assigned c opened (assignIdRms c opened) levels := by
  have ids := named_ids (c := c) opened nonempty
  have erased : (named c opened).erase = opened.erase := erase_setId opened _ _
  have pushed := named_tracks (c := c) opened nonempty tracks idsBelow cellsBelow
  have named_eq : assignIdRms c opened = if c.next opened.nextActivationId = 0 then
      {(overflowHandlerRms (named c opened)).2 with
        nextActivationId := (overflowHandlerRms (named c opened)).1} else named c opened := rfl
  rw [named_eq]
  split
  · next overflow =>
    have depths : (named c opened).stackDepth = depth + 1 := nonempty
    have handled := overflowHandlerRms_tracks (named c opened) (depths ▸ pushed) fun _ => rfl
    have below := overflowHandlerRms_below (depths ▸ pushed.positive)
    refine ⟨?_,?_,?_,?_,?_,?_,?_⟩
    · exact (overflowHandlerRms_erase (named c opened)).trans erased
    · exact handled
    · exact below.1
    · exact below.2
    · intro _
      change opened.stackDepth + 1 < 2 ^ 32
      have small := room.2.2
      have le := room.1
      simp only [maxStack] at small
      omega
    · simp [overflowHandlerRms,lkCompressRms,named,ThreadData.setTop,ThreadData.setSlot]
    · simp [overflowHandlerRms,lkCompressRms,named,ThreadData.setTop,ThreadData.setSlot]
  · next fresh =>
    have next : c.next opened.nextActivationId = opened.nextActivationId + 1 := by
      cases c with
      | unbounded => rfl
      | wrapping =>
        have small := fits rfl
        simp only [Counter.next] at fresh ⊢
        omega
    refine ⟨erased,by rw [nonempty]; exact pushed,?_,?_,?_,rfl,rfl⟩
    · intro i bound
      change (named c opened).ids i < c.next opened.nextActivationId
      rw [ids i,next]
      split
      · omega
      · have := idsBelow i (by omega)
        omega
    · intro g
      change opened.shadowMemory.value g < c.next opened.nextActivationId
      rw [next]
      have := cellsBelow g
      omega
    · intro wrapping
      change c.next opened.nextActivationId < 2 ^ 32
      subst wrapping
      exact Nat.mod_lt _ (by norm_num)

theorem RmsThread.assigned (rel : RmsThread c cfg tdata thread) (opened : Opened cfg tdata after)
    (recorded : tdata.skip = 0) : Assigned c after (assignIdRms c after) thread.levels := by
  have all := rel.follows.counted.recorded_iff.mp recorded
  have tracks := rel.follows.tracks
  rw [all] at tracks
  apply assignIdRms_spec after tdata.stackDepth opened.more.depth
  · refine tracks.congr (fun i _ => opened.ids i) fun g => ?_
    rw [opened.shadow]
  · intro i bound
    rw [opened.ids,opened.next]
    exact rel.idsBelow i (by omega)
  · intro g
    rw [opened.shadow,opened.next]
    exact rel.cellsBelow g
  · rw [opened.next]
    exact rel.fits
  · exact opened.room rel.room

theorem RmsThread.open (rel : RmsThread c cfg tdata thread) (opened : Opened cfg tdata after)
    (recorded : tdata.skip = 0) (plain : skipFlag cfg after tdata.stackDepth = false) (shared : Shared) :
    RmsThread c cfg (enterShared cfg shared (assignIdRms c after)).2
      {thread with core := (enterShared cfg shared (assignIdRms c after)).2.erase} := by
  have assigned := rel.assigned opened recorded
  generalize assignIdRms c after = named at assigned ⊢
  have same := sameFrames assigned.erase
  have more : OneMore tdata named :=
    ⟨same.depth.trans opened.more.depth,fun i bound => (same.routines i).trans (opened.more.below i bound)⟩
  have flag : skipFlag cfg named tdata.stackDepth = false := by
    rw [skipFlag,same.routines]
    exact plain
  have stamps := enterShared_stamps cfg shared named
  have tracked := assigned.tracks
  rw [opened.more.depth] at tracked
  obtain ⟨follows,depth⟩ := rel.follows.open recorded more (by rw [same.skip,opened.skip,recorded]) flag
    tracked (by rw [assigned.limit,opened.shadow]; exact rel.follows.limit)
    (by rw [assigned.scale,opened.shadow]; exact rel.follows.scale) shared
  refine ⟨follows,?_,?_,rel.clean,?_,?_⟩
  · intro i bound
    rw [stamps.ids,stamps.next]
    exact assigned.idsBelow i (by rw [opened.more.depth]; omega)
  · intro g
    rw [stamps.shadow,stamps.next]
    exact assigned.cellsBelow g
  · rw [stamps.next]
    exact assigned.fits
  · rw [stamps.size,(enterShared_frames cfg shared named).depth,same.depth,same.size]
    exact opened.room rel.room

theorem admitted_granule (follows : Follows cfg tdata thread) (addr : Nat) :
    tdata.shadowMemory.granule addr = addr / cfg.memoryResolution := by
  rw [LookupTable.granule,follows.scale]

theorem RmsThread.touch (rel : RmsThread c cfg tdata thread) (recording : Recording tdata)
    (type : AccessType) (addr : Nat) (admitted : addr < cfg.layout.limit) :
    ∃ touched, accessCellRms type tdata addr = .ok touched ∧ Recording touched ∧
      RmsThread c cfg touched (Levels.touch type false thread (addr / cfg.memoryResolution)) := by
  obtain ⟨nonempty,recorded⟩ := recording
  have follows := rel.follows
  have all := follows.counted.recorded_iff.mp recorded
  let g := addr / cfg.memoryResolution
  let shadow := tdata.shadowMemory.write g tdata.top.activationId
  let stored := {tdata with shadowMemory := shadow}
  have insert : lkInsert tdata.shadowMemory addr tdata.top.activationId =
      .ok (tdata.shadowMemory.value g,shadow) := by
    rw [lkInsert_eq _ _ _ (by rw [follows.limit]; exact admitted),admitted_granule follows]
  have reached : ∀ i, i < recordedDepth cfg tdata → tdata.ids i ≤ tdata.top.activationId := by
    intro i bound
    exact follows.tracks.increasing.le (j := tdata.stackDepth - 1) (by omega) (by omega)
  have tracks : Tracks tdata.ids (recordedDepth cfg tdata) shadow.value
      (Function.update thread.levels g (recordedDepth cfg tdata)) :=
    follows.tracks.touch reached (fun h => LookupTable.value_write _ _ _ _) fun h => Function.update_apply _ _ _ _
  have close : ∀ after : ThreadData, SameStamps stored after →
      after.erase = (Levels.touch type false thread g).core →
      Recording after ∧ RmsThread c cfg after (Levels.touch type false thread g) := by
    intro after stamps erased
    have frames : SameFrames tdata after := by
      have touched := frames_touch type false thread g
      rw [← erased,follows.core] at touched
      exact (frames_erase tdata).trans (touched.trans (frames_erase after).symm)
    obtain ⟨counted,depth⟩ := frames.counted follows.counted
    refine ⟨⟨by rw [frames.depth]; exact nonempty,by rw [frames.skip]; exact recorded⟩,?_⟩
    refine ⟨⟨erased.symm,counted,?_,?_,?_⟩,?_,?_,?_,?_,?_⟩
    · rw [depth,stamps.shadow]
      have levels : (Levels.touch type false thread g).levels =
          Function.update thread.levels g (recordedDepth cfg tdata) := by
        rw [all,← follows.depth]
        rfl
      rw [levels]
      exact tracks.congr (fun i _ => stamps.ids i) fun _ => rfl
    · rw [stamps.shadow]
      exact (LookupTable.write_limit _ _ _).trans follows.limit
    · rw [stamps.shadow]
      exact follows.scale
    · intro i bound
      rw [stamps.ids,stamps.next]
      exact rel.idsBelow i (by omega)
    · intro h
      rw [stamps.shadow,stamps.next]
      have value := LookupTable.value_write tdata.shadowMemory g h tdata.top.activationId
      rw [value]
      split
      · exact rel.idsBelow (tdata.stackDepth - 1) (by omega)
      · exact rel.cellsBelow h
    · intro h
      simp only [Levels.touch,Function.update_apply]
      split
      · rfl
      · exact rel.clean h
    · rw [stamps.next]
      exact rel.fits
    · rw [frames.depth,stamps.size]
      exact rel.room
  unfold accessCellRms
  simp only [insert,ok_bind]
  by_cases counts : type ≠ .store ∧ tdata.shadowMemory.value g < tdata.top.activationId
  · obtain ⟨read,fresh⟩ := counts
    obtain ⟨counted,ok,stamps,erased⟩ :=
      follows.countRead nonempty recorded g (rel.clean g) false shadow fresh
    rw [if_pos ⟨read,fresh⟩]
    refine ⟨counted,ok,close counted stamps ?_⟩
    rw [erased]
    exact (if_neg read).symm
  · rw [if_neg counts]
    refine ⟨stored,rfl,close stored ⟨rfl,rfl,rfl,fun _ => rfl⟩ ?_⟩
    change tdata.erase = _
    rw [← follows.core]
    rcases eq_or_ne type .store with store | read
    · exact (if_pos store).symm
    · have old : ¬ thread.levels g < thread.core.stackDepth := by
        rw [follows.depth,← (follows.read nonempty recorded g).fresh]
        exact fun fresh => counts ⟨read,fresh⟩
      refine Eq.trans ?_ (if_neg read).symm
      unfold readInput
      simp only [rel.clean g,if_neg old]
      rfl

end

theorem rmsKeeps (c : Counter) (cfg : Config) : Keeps cfg (RmsThread c cfg) where
  follows _ _ rel := rel.follows
  same tdata after thread rel stamps frames := by
    have depth := (frames.counted rel.follows.counted).2
    exact rel.same stamps (by rw [frames.depth]) (by rw [depth]) (rel.follows.same stamps frames)
  pop _ _ shared rel nonempty := rel.pop shared nonempty
  hide _ _ _ skip rel opened hidden counts := rel.hide opened hidden skip counts

abbrev RmsRelated (c : Counter) (cfg : Config) : Runtime c → LevelRuntime → Prop :=
  Related fun _ => RmsThread c cfg

section
variable {c : Counter} {cfg : Config} {rt : Runtime c} {levels : LevelRuntime}

theorem newThread_rms (tid : Nat) (shadow : LookupTable Nat) (fresh : Empty cfg.layout cfg.memoryResolution shadow)
    (dirty : Nat → Bool) (clean : ∀ g, dirty g = false) :
    RmsThread c cfg (newThread cfg tid shadow) ⟨(newThread cfg tid blankTable).erase,fun _ => 0,dirty⟩ := by
  have empty : recordedDepth cfg (newThread cfg tid shadow) = 0 := rfl
  refine ⟨⟨rfl,(Nat.count_zero _).symm,?_,fresh.limit,fresh.scale⟩,?_,?_,clean,?_,?_⟩
  · rw [empty]
    exact .start fun _ => rfl
  · intro i bound
    omega
  · intro g
    change shadow.value g < 1
    rw [fresh.value]
    exact Nat.one_pos
  · intro _
    change 1 < 2 ^ 32
    norm_num
  · exact ⟨Nat.zero_le 64,by change 0 < 64; norm_num,by change 64 < 2 * 15000; norm_num⟩

variable (rms : cfg.inputMetric = .rms)
include rms

/-- The current thread in the middle of an access. -/
structure RmsAccess (c : Counter) (cfg : Config) (rt : Runtime c) (tdata : ThreadData)
    (levels : LevelRuntime) : Prop where
  related : RmsRelated c cfg (rt.put rt.currentTid tdata) levels
  recording : Recording tdata

theorem RmsAccess.touch {tdata : ThreadData} (rel : RmsAccess c cfg rt tdata levels) (type : AccessType)
    (addr : Nat) : Matches (RmsAccess c cfg rt) (accessCellRms type tdata addr)
      (touchCell cfg type false levels addr) := by
  have tid : levels.currentTid = rt.currentTid := rel.related.tid
  have stored : (rt.put rt.currentTid tdata).threads rt.currentTid = some tdata := by
    simp [Runtime.put]
  rcases rel.related.lookup rt.currentTid with ⟨none,-⟩ | ⟨found,thread,some,some',related⟩
  · rw [stored] at none
    cases none
  · obtain rfl : tdata = found := by simpa [stored] using some
    have current : levels.current = .ok thread := by
      unfold LevelRuntime.current
      rw [tid,some']
    unfold touchCell
    rw [current,ok_bind]
    simp only [rms]
    by_cases admitted : addr < cfg.layout.limit
    · obtain ⟨touched,ok,recording,after⟩ := related.touch rel.recording type addr admitted
      simp only [ok,admitted,decide_true,check,if_true,ok_bind]
      refine ⟨?_,recording⟩
      have moved := rel.related.put tid after
      rwa [Runtime.put_put] at moved
    · obtain ⟨fault,refused⟩ := lkInsert_refused tdata.shadowMemory addr tdata.top.activationId
        (by rw [related.follows.limit]; omega)
      unfold accessCellRms
      simp only [refused,admitted,decide_false,check,error_bind]
      exact trivial

theorem RmsRelated.access (rel : RmsRelated c cfg rt levels) (type : AccessType) (addr size : Nat) :
    Matches (RmsRelated c cfg) (traceAccess cfg rt type addr size false)
      (Levels.traceAccess cfg levels type addr size false) := by
  apply rel.withCurrent
  intro tdata thread _ abstract related
  simp only [rms,traceAccessRms]
  have kept : RmsRelated c cfg (rt.put rt.currentTid tdata) levels := by
    have stored : RmsRelated c cfg (rt.put rt.currentTid tdata) (levels.put rt.currentTid thread) :=
      rel.put rfl related
    rwa [LevelRuntime.put_same abstract] at stored
  rw [related.follows.depth,related.follows.skip]
  generalize accessAddrs cfg.memoryResolution addr size = addrs
  by_cases unrecorded : tdata.stackDepth = 0 ∨ tdata.skip > 0
  · simp only [if_pos unrecorded]
    exact kept
  · simp only [if_neg unrecorded]
    have start : RmsAccess c cfg rt tdata levels := ⟨kept,by unfold Recording; omega⟩
    have cell : ∀ t l a, RmsAccess c cfg rt t l →
        Matches (RmsAccess c cfg rt) (accessCellRms type t a) (touchCell cfg type false l a) :=
      fun t l a access => access.touch rms type a
    have fold := Matches.foldlM cell addrs tdata levels start
    exact fold.finish fun after l done => done.related

theorem RmsRelated.threadStart (rel : RmsRelated c cfg rt levels) (tid : Nat) :
    Matches (RmsRelated c cfg) (threadStart cfg rt tid) (Levels.threadStart cfg levels tid) := by
  apply Related.threadStart rel
  intro shadow _ fresh
  apply newThread_rms tid shadow fresh
  intro g
  simp only [unseen,rms]

theorem RmsRelated.threadSwitch (rel : RmsRelated c cfg rt levels) (tid : Nat) :
    Matches (RmsRelated c cfg) (threadSwitch cfg rt tid) (Levels.threadSwitch cfg levels tid) := by
  have moved : RmsRelated c cfg {rt with currentTid := tid} {levels with currentTid := tid} :=
    ⟨rfl,rel.shared,rel.reported,rel.threads⟩
  unfold Aprof.threadSwitch Levels.threadSwitch
  rw [rel.tid]
  split
  · exact rel
  · simp only [rms,reduceCtorEq,if_false]
    split
    · exact moved
    · rcases rel.lookup tid with ⟨none,none'⟩ | ⟨_,_,some,some',_⟩
      · simp only [ok_bind,none,none']
        exact RmsRelated.threadStart rms moved tid
      · simp only [ok_bind,some,some']
        exact moved

theorem RmsRelated.step (rel : RmsRelated c cfg rt levels) (event : Event) :
    Matches (RmsRelated c cfg) (step cfg rt event) (Levels.step cfg levels event) := by
  have keeps := fun _ : Nat => rmsKeeps c cfg
  cases event with
  | threadCreate child => exact RmsRelated.threadStart rms rel child
  | threadSwitch tid => exact RmsRelated.threadSwitch rms rel tid
  | threadExit tid => exact rel.threadExit keeps tid
  | bbStart => exact rel.bbStart keeps
  | functionEnter sp f =>
    apply rel.pushStack keeps sp f rfl
    · intro after thread related
      exact rel.put rel.tid related
    · intro tdata thread opened _ _ related frame recorded plain _
      have entered := related.open frame recorded plain rt.shared
      have erased := erase_enterShared cfg rt.shared (assignIdRms c opened)
      rw [(related.assigned frame recorded).erase] at erased
      simp only [assignId,rms,ok_bind,erased]
      exact rel.putShared _ rel.tid entered
  | functionExit => exact rel.popStack keeps
  | access type addr size => exact RmsRelated.access rms rel type addr size
  | postSyscall tid buffers =>
    change Matches _ (postSyscall cfg rt tid buffers) (Levels.postSyscall cfg levels tid buffers)
    simp only [postSyscall,Levels.postSyscall,rms,reduceCtorEq,if_false]
    exact rel

end

theorem rms_initial (c : Counter) (cfg : Config) :
    ∃ rt, initial c cfg = .ok rt ∧ RmsRelated c cfg rt (Levels.initial cfg) := by
  obtain ⟨global,ok,_⟩ := lkCreate_ok (α := c.Word) cfg.layout cfg.memoryResolution cfg.supported
  refine ⟨_,by rw [initial,ok]; rfl,rfl,rfl,rfl,fun _ => .none⟩

theorem rms_run (c : Counter) {cfg : Config} (rms : cfg.inputMetric = .rms) (events : List Event) :
    Matches (RmsRelated c cfg) (initial c cfg >>= fun rt => run cfg rt events)
      (Levels.run cfg (Levels.initial cfg) events) := by
  obtain ⟨rt,ok,rel⟩ := rms_initial c cfg
  rw [ok]
  exact Matches.foldlM (fun rt levels event rel => RmsRelated.step rms rel event) events rt _ rel

end Aprof
