import Aprof.Levels

/-! A thread of the tool and the same thread without timestamps. The relation is
independent of how timestamps are issued; both input metrics and both kinds of
counter use it. -/
namespace Aprof

open Lockstep Levels Floor

def ThreadData.ids (tdata : ThreadData) (i : Nat) : Nat := (tdata.stack i).activationId

theorem ids_setTop (tdata : ThreadData) (id i : Nat) :
    (tdata.setTop fun act => {act with activationId := id}).ids i =
      if i = tdata.stackDepth - 1 then id else tdata.ids i := by
  simp only [ThreadData.ids,ThreadData.setTop,ThreadData.setSlot,Function.update_apply]
  split <;> rfl

structure Follows (cfg : Config) (tdata : ThreadData) (thread : LevelThread) : Prop where
  core : thread.core = tdata.erase
  counted : SkipCounted cfg tdata
  tracks : Tracks tdata.ids (recordedDepth cfg tdata) tdata.shadowMemory.value thread.levels
  limit : tdata.shadowMemory.table.limit = cfg.layout.limit
  scale : 2 ^ tdata.shadowMemory.resShift = cfg.memoryResolution

/-- Neither the shadow memory nor an activation id differs. -/
structure SameStamps (tdata after : ThreadData) : Prop where
  shadow : after.shadowMemory = tdata.shadowMemory
  next : after.nextActivationId = tdata.nextActivationId
  size : after.maxStackSize = tdata.maxStackSize
  ids : ∀ i, after.ids i = tdata.ids i

section
variable {cfg : Config} {tdata after : ThreadData} {thread : LevelThread}

theorem SameStamps.trans {last : ThreadData} (first : SameStamps tdata after)
    (second : SameStamps after last) : SameStamps tdata last :=
  ⟨second.shadow.trans first.shadow,second.next.trans first.next,second.size.trans first.size,
    fun i => (second.ids i).trans (first.ids i)⟩

theorem SameStamps.setSlot (i : Nat) (f : Activation → Activation)
    (keeps : ∀ act, (f act).activationId = act.activationId) : SameStamps tdata (tdata.setSlot i f) := by
  refine ⟨rfl,rfl,rfl,fun j => ?_⟩
  simp only [ThreadData.ids,ThreadData.setSlot,Function.update_apply]
  split
  · next same =>
    subst same
    exact keeps _
  · rfl

theorem Follows.depth (follows : Follows cfg tdata thread) :
    thread.core.stackDepth = tdata.stackDepth := by
  rw [follows.core]
  rfl

theorem Follows.skip (follows : Follows cfg tdata thread) : thread.core.skip = tdata.skip := by
  rw [follows.core]
  rfl

/-- Frames, skip count and allocated slots agree. -/
structure SameFrames (tdata after : ThreadData) : Prop where
  depth : after.stackDepth = tdata.stackDepth
  skip : after.skip = tdata.skip
  size : after.maxStackSize = tdata.maxStackSize
  routines : ∀ i, (after.stack i).routineInfo = (tdata.stack i).routineInfo

theorem SameFrames.trans {last : ThreadData} (first : SameFrames tdata after)
    (second : SameFrames after last) : SameFrames tdata last :=
  ⟨second.depth.trans first.depth,second.skip.trans first.skip,second.size.trans first.size,
    fun i => (second.routines i).trans (first.routines i)⟩

theorem SameFrames.symm (frames : SameFrames tdata after) : SameFrames after tdata :=
  ⟨frames.depth.symm,frames.skip.symm,frames.size.symm,fun i => (frames.routines i).symm⟩

theorem frames_erase (tdata : ThreadData) : SameFrames tdata tdata.erase := ⟨rfl,rfl,rfl,fun _ => rfl⟩

theorem sameFrames (same : after.erase = tdata.erase) : SameFrames tdata after := by
  have frames := (frames_erase after).symm
  rw [same] at frames
  exact (frames_erase tdata).trans frames

theorem frames_setSlot (tdata : ThreadData) (i : Nat) (f : Activation → Activation)
    (keeps : ∀ act, (f act).routineInfo = act.routineInfo) : SameFrames tdata (tdata.setSlot i f) := by
  refine ⟨rfl,rfl,rfl,fun j => ?_⟩
  simp only [ThreadData.setSlot,Function.update_apply]
  split
  · next same =>
    subst same
    exact keeps _
  · rfl

theorem frames_readInput (kernel : Bool) (thread : LevelThread) (g : Nat) :
    SameFrames thread.core (readInput kernel thread g) := by
  have counted : SameFrames thread.core (thread.core.setTop incInput) := frames_setSlot _ _ _ fun _ => rfl
  unfold readInput
  dsimp only
  split
  · refine counted.trans (frames_setSlot _ _ _ fun _ => ?_)
    split <;> rfl
  · split
    · split
      · exact counted.trans (frames_setSlot _ _ _ fun _ => rfl)
      · exact counted
    · exact ⟨rfl,rfl,rfl,fun _ => rfl⟩

theorem frames_touch (type : AccessType) (kernel : Bool) (thread : LevelThread) (g : Nat) :
    SameFrames thread.core (touch type kernel thread g).core := by
  unfold touch
  dsimp only
  split
  · exact ⟨rfl,rfl,rfl,fun _ => rfl⟩
  · exact frames_readInput kernel thread g

theorem SameFrames.counted (frames : SameFrames tdata after) (counted : SkipCounted cfg tdata) :
    SkipCounted cfg after ∧ recordedDepth cfg after = recordedDepth cfg tdata :=
  counted.congr frames.skip frames.depth fun i _ => frames.routines i

theorem Follows.same (follows : Follows cfg tdata thread) (stamps : SameStamps tdata after)
    (frames : SameFrames tdata after) : Follows cfg after {thread with core := after.erase} := by
  obtain ⟨counted,recorded⟩ := frames.counted follows.counted
  refine ⟨rfl,counted,?_,by rw [stamps.shadow]; exact follows.limit,by rw [stamps.shadow]; exact follows.scale⟩
  rw [recorded,stamps.shadow]
  exact follows.tracks.congr (fun i _ => stamps.ids i) fun _ => rfl

theorem stamps_popShared (cfg : Config) (shared : Shared) (tdata : ThreadData) :
    SameStamps tdata (popShared cfg shared tdata).2 := by
  rcases Nat.eq_zero_or_pos tdata.skip with recorded | skipping
  · obtain ⟨table,root,same⟩ := popShared_recorded cfg shared tdata recorded
    rw [same]
    refine ⟨rfl,rfl,rfl,fun i => ?_⟩
    simp only [ThreadData.ids,afterExit]
    split
    · rw [Function.update_apply]
      split
      · next same =>
        rw [same]
        rfl
      · rfl
    · rfl
  · obtain ⟨table,root,same⟩ := popShared_skipped cfg shared tdata skipping
    rw [same]
    exact ⟨rfl,rfl,rfl,fun _ => rfl⟩

theorem popShared_depth (cfg : Config) (shared : Shared) (tdata : ThreadData) :
    (popShared cfg shared tdata).2.stackDepth = tdata.stackDepth - 1 := rfl

theorem popShared_routines (cfg : Config) (shared : Shared) (tdata : ThreadData) (i : Nat) :
    ((popShared cfg shared tdata).2.stack i).routineInfo = (tdata.stack i).routineInfo := by
  rcases Nat.eq_zero_or_pos tdata.skip with recorded | skipping
  · obtain ⟨table,root,same⟩ := popShared_recorded cfg shared tdata recorded
    rw [same]
    simp only [afterExit]
    split
    · rw [Function.update_apply]
      split
      · next same =>
        rw [same]
        rfl
      · rfl
    · rfl
  · obtain ⟨table,root,same⟩ := popShared_skipped cfg shared tdata skipping
    rw [same]

theorem popShared_skip (cfg : Config) (shared : Shared) (tdata : ThreadData) :
    (popShared cfg shared tdata).2.skip =
      if skipFlag cfg tdata (tdata.stackDepth - 1) then tdata.skip - 1 else tdata.skip := by
  rcases Nat.eq_zero_or_pos tdata.skip with recorded | skipping
  · obtain ⟨table,root,same⟩ := popShared_recorded cfg shared tdata recorded
    rw [same]
    split <;> simp [recorded]
  · obtain ⟨table,root,same⟩ := popShared_skipped cfg shared tdata skipping
    rw [same]

theorem popShared_oneMore (cfg : Config) (shared : Shared) (tdata : ThreadData)
    (nonempty : 0 < tdata.stackDepth) : OneMore (popShared cfg shared tdata).2 tdata := by
  refine ⟨?_,fun i _ => (popShared_routines cfg shared tdata i).symm⟩
  rw [popShared_depth]
  omega

theorem popShared_counted (counted : SkipCounted cfg tdata) (shared : Shared)
    (nonempty : 0 < tdata.stackDepth) : SkipCounted cfg (popShared cfg shared tdata).2 :=
  counted.leave (popShared_oneMore cfg shared tdata nonempty) (by rw [popShared_skip,popShared_depth])

theorem popShared_recordedDepth (counted : SkipCounted cfg tdata) (shared : Shared)
    (nonempty : 0 < tdata.stackDepth) : recordedDepth cfg (popShared cfg shared tdata).2 =
      if tdata.skip = 0 then tdata.stackDepth - 1 else recordedDepth cfg tdata := by
  have more := popShared_oneMore cfg shared tdata nonempty
  have popped := popShared_counted counted shared nonempty
  have skip := popShared_skip cfg shared tdata
  split
  · next recorded =>
    have still : (popShared cfg shared tdata).2.skip = 0 := by
      rw [skip]
      split <;> omega
    exact popped.recorded_iff.mp still
  · next skipping =>
    symm
    apply more.hidden
    rw [popShared_depth]
    rcases flag : skipFlag cfg tdata (tdata.stackDepth - 1) with _ | _
    · right
      rw [flag] at skip
      have pending : 0 < (popShared cfg shared tdata).2.skip := by
        rw [skip]
        simpa using Nat.pos_of_ne_zero skipping
      exact popped.hidden_iff.mp pending
    · exact Or.inl rfl

theorem Follows.pop (follows : Follows cfg tdata thread) (shared : Shared)
    (nonempty : 0 < tdata.stackDepth) :
    Follows cfg (popShared cfg shared tdata).2 {thread with
      core := (popShared cfg shared tdata).2.erase
      levels := fun g => min (thread.levels g) (recordedDepth cfg (popShared cfg shared tdata).2)} := by
  have stamps := stamps_popShared cfg shared tdata
  have tracks := follows.tracks
  have depth := popShared_recordedDepth follows.counted shared nonempty
  refine ⟨rfl,popShared_counted follows.counted shared nonempty,?_,by rw [stamps.shadow]; exact follows.limit,
    by rw [stamps.shadow]; exact follows.scale⟩
  rw [stamps.shadow]
  rcases Nat.eq_zero_or_pos tdata.skip with recorded | skipping
  · rw [if_pos recorded] at depth
    have all := follows.counted.recorded_iff.mp recorded
    have top : recordedDepth cfg tdata = tdata.stackDepth - 1 + 1 := by omega
    rw [top] at tracks
    rw [depth]
    exact tracks.pop.congr (fun i _ => stamps.ids i) fun _ => rfl
  · rw [if_neg (by omega)] at depth
    rw [depth]
    have kept : (fun g => min (thread.levels g) (recordedDepth cfg tdata)) = thread.levels := by
      ext1 g
      exact Nat.min_eq_left (tracks.le g)
    simp only [kept]
    exact tracks.congr (fun i _ => stamps.ids i) fun _ => rfl

theorem enterStart_eq (tdata : ThreadData) : enterStart tdata = {tdata with
    stack := Function.update tdata.stack (tdata.stackDepth - 1) {tdata.top with start := time tdata}} := rfl

/-- The frame on top once `push_stack` and the first lines of `function_enter` are done. -/
structure Opened (cfg : Config) (tdata opened : ThreadData) : Prop where
  more : OneMore tdata opened
  slots : ∀ i, i ≠ tdata.stackDepth → opened.stack i = tdata.stack i
  skip : opened.skip = tdata.skip
  shadow : opened.shadowMemory = tdata.shadowMemory
  next : opened.nextActivationId = tdata.nextActivationId
  ids : ∀ i, opened.ids i = tdata.ids i
  room : Roomy tdata.stackDepth tdata.maxStackSize → Roomy opened.stackDepth opened.maxStackSize

theorem pushFrame_opened {pushed : ThreadData} {sp : UInt64} {f : FnPtr}
    (ok : pushFrame cfg tdata sp f = .ok pushed) : Opened cfg tdata (enterStart pushed) := by
  obtain ⟨size,table,next,rfl,room⟩ := pushFrame_ok ok
  rw [enterStart_eq]
  refine ⟨⟨rfl,?_⟩,?_,rfl,rfl,rfl,?_,room⟩
  · intro i below
    simp only [Nat.add_sub_cancel]
    rw [Function.update_of_ne (by omega),Function.update_of_ne (by omega)]
  · intro i other
    simp only [Nat.add_sub_cancel]
    rw [Function.update_of_ne other,Function.update_of_ne other]
  · intro i
    simp only [ThreadData.ids,Nat.add_sub_cancel,ThreadData.top,Function.update_self,Function.update_apply]
    split
    · next same =>
      rw [same]
      rfl
    · rfl

theorem pushFrame_routine {pushed : ThreadData} {sp : UInt64} {f : FnPtr}
    (ok : pushFrame cfg tdata sp f = .ok pushed) : (enterStart pushed).top.routineInfo = f := by
  obtain ⟨size,table,next,rfl,_⟩ := pushFrame_ok ok
  simp [enterStart_eq,ThreadData.top,framed]

theorem enterShared_stamps (cfg : Config) (shared : Shared) (tdata : ThreadData) :
    SameStamps tdata (enterShared cfg shared tdata).2 := by
  obtain ⟨table,root,next,node,same⟩ := enterShared_eq cfg shared tdata
  rw [same]
  refine ⟨rfl,rfl,rfl,fun i => ?_⟩
  simp only [ThreadData.ids,Function.update_apply]
  split
  · next same =>
    rw [same]
    rfl
  · rfl

theorem enterShared_frames (cfg : Config) (shared : Shared) (tdata : ThreadData) :
    SameFrames tdata (enterShared cfg shared tdata).2 := by
  obtain ⟨table,root,next,node,same⟩ := enterShared_eq cfg shared tdata
  rw [same]
  refine ⟨rfl,rfl,rfl,fun i => ?_⟩
  simp only [Function.update_apply]
  split
  · next same =>
    rw [same]
    rfl
  · rfl

theorem Opened.hidden (counted : SkipCounted cfg tdata) (opened : Opened cfg tdata after)
    (hidden : skipFlag cfg after tdata.stackDepth = true ∨ 0 < tdata.skip)
    (skip : Nat) (counts : skip = tdata.skip + if skipFlag cfg after tdata.stackDepth = true then 1 else 0) :
    SkipCounted cfg {after with skip := skip} ∧
      recordedDepth cfg {after with skip := skip} = recordedDepth cfg tdata := by
  have more : OneMore tdata {after with skip := skip} := ⟨opened.more.depth,opened.more.below⟩
  exact ⟨counted.enter more counts,more.hidden (hidden.imp_right counted.hidden_iff.mp)⟩

theorem Follows.hide (follows : Follows cfg tdata thread) (opened : Opened cfg tdata after)
    (hidden : skipFlag cfg after tdata.stackDepth = true ∨ 0 < tdata.skip)
    (skip : Nat) (counts : skip = tdata.skip + if skipFlag cfg after tdata.stackDepth = true then 1 else 0) :
    Follows cfg {after with skip := skip} {thread with core := {after with skip := skip}.erase} ∧
      recordedDepth cfg {after with skip := skip} = recordedDepth cfg tdata := by
  obtain ⟨counted,depth⟩ := opened.hidden follows.counted hidden skip counts
  refine ⟨⟨rfl,counted,?_,?_,?_⟩,depth⟩
  · rw [depth]
    refine follows.tracks.congr (fun i _ => opened.ids i) fun g => ?_
    exact congrArg (·.value g) opened.shadow
  · exact (congrArg (·.table.limit) opened.shadow).trans follows.limit
  · exact (congrArg (2 ^ ·.resShift) opened.shadow).trans follows.scale

theorem Follows.open (follows : Follows cfg tdata thread) (recorded : tdata.skip = 0)
    (more : OneMore tdata after) (skip : after.skip = 0)
    (plain : skipFlag cfg after tdata.stackDepth = false)
    (tracks : Tracks after.ids (tdata.stackDepth + 1) after.shadowMemory.value thread.levels)
    (limit : after.shadowMemory.table.limit = cfg.layout.limit)
    (scale : 2 ^ after.shadowMemory.resShift = cfg.memoryResolution) (shared : Shared) :
    Follows cfg (enterShared cfg shared after).2
      {thread with core := (enterShared cfg shared after).2.erase} ∧
      recordedDepth cfg (enterShared cfg shared after).2 = tdata.stackDepth + 1 := by
  have all := follows.counted.recorded_iff.mp recorded
  have visible := more.visible all plain
  have counted : SkipCounted cfg after := follows.counted.enter more (by simp [skip,recorded,plain])
  have opened : Follows cfg after {thread with core := after.erase} :=
    ⟨rfl,counted,by rwa [visible],limit,scale⟩
  have frames := enterShared_frames cfg shared after
  refine ⟨opened.same (enterShared_stamps cfg shared after) frames,?_⟩
  exact (frames.counted counted).2.trans visible

theorem walkDown_eq (tdata : ThreadData) (aid k i : Nat) (found : level tdata.ids aid k = i + 1) :
    walkDown tdata aid k = .ok i := by
  induction k with
  | zero => simp [level] at found
  | succ k ih =>
    unfold level at found
    unfold walkDown
    split at found
    · next small =>
      have same : k = i := by omega
      subst same
      have stop : ¬ (tdata.stack k).activationId > aid := by
        simp only [ThreadData.ids] at small
        omega
      rw [if_neg stop]
    · next large =>
      have go : (tdata.stack k).activationId > aid := by
        simp only [ThreadData.ids] at large
        omega
      rw [if_pos go]
      exact ih found

theorem walkDown_congr {tdata after : ThreadData} (same : ∀ i, after.ids i = tdata.ids i) (aid k : Nat) :
    walkDown after aid k = walkDown tdata aid k := by
  induction k with
  | zero => rfl
  | succ k ih =>
    have id := same k
    simp only [ThreadData.ids] at id
    simp only [walkDown,id,ih]

/-- What the comparisons of a read of granule `g` find out. -/
structure ReadFacts (tdata : ThreadData) (thread : LevelThread) (g : Nat) : Prop where
  fresh : tdata.shadowMemory.value g < tdata.top.activationId ↔ thread.levels g < tdata.stackDepth
  known : (tdata.stack 0).activationId ≤ tdata.shadowMemory.value g ↔ 0 < thread.levels g
  owner : thread.levels g < tdata.stackDepth → 0 < thread.levels g →
    getActivationByAid tdata (tdata.shadowMemory.value g) = .ok (thread.levels g - 1)
  positive : 0 < thread.levels g → 0 < tdata.shadowMemory.value g

theorem Follows.read (follows : Follows cfg tdata thread) (nonempty : 0 < tdata.stackDepth)
    (recorded : tdata.skip = 0) (g : Nat) : ReadFacts tdata thread g := by
  have all := follows.counted.recorded_iff.mp recorded
  have tracks := follows.tracks
  rw [all] at tracks
  have le := tracks.le g
  have top := tracks.reaches g (tdata.stackDepth - 1) (by omega)
  have bottom := tracks.reaches g 0 nonempty
  have positive := tracks.positive 0 nonempty
  simp only [ThreadData.ids] at top bottom positive
  refine ⟨?_,bottom.symm,?_,?_⟩
  · simp only [ThreadData.top]
    omega
  · intro fresh known
    apply walkDown_eq
    have floor := level_pop (n := tdata.stackDepth - 1)
      (by rw [Nat.sub_add_cancel nonempty]; exact tracks.increasing) (tdata.shadowMemory.value g)
    rw [Nat.sub_add_cancel nonempty,← tracks.floor g] at floor
    omega
  · intro known
    have := bottom.mp known
    omega

theorem Follows.countRead (follows : Follows cfg tdata thread) (nonempty : 0 < tdata.stackDepth)
    (recorded : tdata.skip = 0) (g : Nat) (clean : thread.dirty g = false) (kernel : Bool)
    (shadow : LookupTable Nat) (fresh : tdata.shadowMemory.value g < tdata.top.activationId) :
    ∃ counted, (let stored := {tdata with shadowMemory := shadow}.setTop incInput
      if tdata.shadowMemory.value g ≥ (stored.stack 0).activationId then do
        let i ← getActivationByAid stored (tdata.shadowMemory.value g)
        .ok (stored.setSlot i decInput)
      else .ok stored) = .ok counted ∧
      SameStamps {tdata with shadowMemory := shadow} counted ∧ counted.erase = readInput kernel thread g := by
  have facts := follows.read nonempty recorded g
  let stored := {tdata with shadowMemory := shadow}.setTop incInput
  have stamps : SameStamps {tdata with shadowMemory := shadow} stored := .setSlot _ _ fun _ => rfl
  have erased : stored.erase = tdata.erase.setTop incInput :=
    erase_setTop {tdata with shadowMemory := shadow} incInput fun _ => rfl
  have below := facts.fresh.mp fresh
  have bottom : (stored.stack 0).activationId = (tdata.stack 0).activationId := stamps.ids 0
  have ids : ∀ i, stored.ids i = tdata.ids i := stamps.ids
  have walk : getActivationByAid stored (tdata.shadowMemory.value g) =
      getActivationByAid tdata (tdata.shadowMemory.value g) := walkDown_congr ids _ _
  have input : readInput kernel thread g = if 0 < thread.levels g then
      (tdata.erase.setTop incInput).setSlot (thread.levels g - 1) decInput
      else tdata.erase.setTop incInput := by
    unfold readInput
    rw [clean,follows.core]
    simp only [erase_stackDepth,below,if_true]
    rfl
  rw [input]
  rcases Nat.eq_zero_or_pos (thread.levels g) with unknown | known
  · have low : ¬ tdata.shadowMemory.value g ≥ (stored.stack 0).activationId := by
      rw [bottom]
      intro reached
      have := facts.known.mp reached
      omega
    refine ⟨stored,if_neg low,stamps,?_⟩
    rw [erased,if_neg (by omega)]
  · have high : tdata.shadowMemory.value g ≥ (stored.stack 0).activationId := by
      rw [bottom]
      exact facts.known.mpr known
    refine ⟨stored.setSlot (thread.levels g - 1) decInput,?_,stamps.trans (.setSlot _ _ fun _ => rfl),?_⟩
    · have found : getActivationByAid stored (tdata.shadowMemory.value g) = .ok (thread.levels g - 1) :=
        walk.trans (facts.owner below known)
      refine (if_pos high).trans ?_
      rw [found]
      rfl
    · rw [erase_setSlot stored _ decInput fun _ => rfl,erased,if_pos known]

end

end Aprof
