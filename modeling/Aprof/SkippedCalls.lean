import Aprof.TracedRuns

/-! Calls of skipped functions leave no trace: a run in which such a call is made,
with everything the thread does until the call returns, and the run without it
end in runtimes that are traced alike. -/
namespace Aprof

open Lockstep

/-- Ticks, accesses and calls that return, of one thread. -/
inductive WellNested : List Event → Prop where
  | nil : WellNested []
  | bbStart {events : List Event} (rest : WellNested events) : WellNested (.bbStart :: events)
  | access {events : List Event} (type : AccessType) (addr size : Nat) (rest : WellNested events) :
      WellNested (.access type addr size :: events)
  | call {body events : List Event} (sp : UInt64) (f : FnPtr) (inside : WellNested body) (rest : WellNested events) :
      WellNested (.functionEnter sp f :: (body ++ .functionExit :: events))

/-- What the events inside a skipped call leave of a thread and of its `n` frames. -/
structure Untouched (cfg : Config) (n : Nat) (tdata after : ThreadData) : Prop where
  shadow : after.shadowMemory = tdata.shadowMemory
  nextId : after.nextActivationId = tdata.nextActivationId
  kept : ∀ i, i < n → (after.stack i).veil = (tdata.stack i).veil
  hidden : ∀ i, n ≤ i → (after.stack i).hide = (tdata.stack i).hide
  table : RoutineTable after
  tables : SameTables cfg tdata after
  small : after.maxStackSize < 29998
  doubled : ∃ k, after.maxStackSize = tdata.maxStackSize * 2 ^ k

section
variable {cfg : Config} {n : Nat} {tdata middle after : ThreadData}

theorem Untouched.trans (first : Untouched cfg n tdata middle) (second : Untouched cfg n middle after) :
    Untouched cfg n tdata after := by
  obtain ⟨k,doubled⟩ := first.doubled
  obtain ⟨l,again⟩ := second.doubled
  refine ⟨second.shadow.trans first.shadow,second.nextId.trans first.nextId,
    fun i below => (second.kept i below).trans (first.kept i below),
    fun i above => (second.hidden i above).trans (first.hidden i above),second.table,
    ⟨fun g => (second.tables.pending g).trans (first.tables.pending g),
      fun separate g => (second.tables.inputMap separate g).trans (first.tables.inputMap separate g)⟩,second.small,k + l,?_⟩
  rw [again,doubled,Nat.pow_add,Nat.mul_assoc]

theorem Untouched.mono {m : Nat} (untouched : Untouched cfg n tdata after) (le : m ≤ n) : Untouched cfg m tdata after := by
  refine ⟨untouched.shadow,untouched.nextId,fun i below => untouched.kept i (Nat.lt_of_lt_of_le below le),fun i above => ?_,
    untouched.table,untouched.tables,untouched.small,untouched.doubled⟩
  by_cases here : i < n
  · exact veil_hide (untouched.kept i here)
  · exact untouched.hidden i (Nat.le_of_not_lt here)

theorem Untouched.tick (cfg : Config) (n : Nat) (table : RoutineTable tdata) (small : tdata.maxStackSize < 29998) (cost : UInt64) :
    Untouched cfg n tdata {tdata with cost := cost} :=
  ⟨rfl,rfl,fun _ _ => rfl,fun _ _ => rfl,⟨table.keyed,table.registered⟩,⟨fun _ => rfl,fun _ _ => rfl⟩,small,0,
    (Nat.mul_one _).symm⟩

theorem Untouched.push (table : RoutineTable tdata) (small : tdata.maxStackSize < 29998) {pushed : ThreadData} {sp : UInt64}
    {f : FnPtr} (ok : pushFrame cfg tdata sp f = .ok pushed) (skip : Nat) :
    Untouched cfg tdata.stackDepth tdata {enterStart pushed with skip := skip} := by
  have tables := pushFrame_tables table.keyed ok
  have opened := table.push ok
  obtain ⟨_,_,pushes⟩ := pushFrame_size cfg tdata sp f
  rw [pushes] at ok
  cases grows : grownSize tdata.maxStackSize tdata.stackDepth with
  | error fault =>
    rw [grows] at ok
    cases ok
  | ok size =>
    rw [grows] at ok
    cases ok
    have slot := enterStart_slot tdata sp f size
    refine ⟨rfl,rfl,fun i below => ?_,fun i above => ?_,⟨opened.keyed,opened.registered⟩,⟨tables.pending,tables.inputMap⟩,?_,?_⟩
    · dsimp only
      rw [slot,if_neg (Nat.ne_of_lt below)]
    · dsimp only
      rw [slot]
      split
      · next top =>
        rw [top]
        rfl
      · rfl
    · change size < 29998
      have bound : maxStack = 15000 := rfl
      rcases grownSize_ok grows with ⟨-,rfl⟩ | ⟨-,enough,rfl⟩
      · exact small
      · split
        · omega
        · exact small
    · change ∃ k, size = tdata.maxStackSize * 2 ^ k
      rcases grownSize_ok grows with ⟨-,rfl⟩ | ⟨-,-,rfl⟩
      · exact ⟨0,(Nat.mul_one _).symm⟩
      · split
        · exact ⟨1,rfl⟩
        · exact ⟨0,(Nat.mul_one _).symm⟩

theorem Untouched.pop (cfg : Config) (n : Nat) (table : RoutineTable tdata) (small : tdata.maxStackSize < 29998) (nonempty : 0 < tdata.stackDepth)
    (skipping : 0 < tdata.skip) (shared : Shared) : Untouched cfg n tdata (popShared cfg shared tdata).2 ∧
      (popShared cfg shared tdata).1.inputMaps = shared.inputMaps := by
  obtain ⟨attached,routine⟩ := attach_table cfg table nonempty shared
  have seen := @attach_seen tdata cfg 0 shared
  have left : ∀ g, (functionExit cfg (attach cfg shared tdata)).routine g = (attach cfg shared tdata).routine g := by
    intro g
    rw [functionExit_routine attached (by rw [seen.depth]; exact nonempty)]
    exact if_neg fun both => Nat.pos_iff_ne_zero.mp skipping (seen.skip ▸ both.1)
  have size := popShared_size cfg shared tdata
  have popped : RoutineTable (popShared cfg shared tdata).2 := table.pop shared
  have look : ∀ g, (popShared cfg shared tdata).2.routine g = (attach cfg shared tdata).routine g := by
    intro g
    rw [popShared_look,left]
  have tables : SameTables cfg tdata (popShared cfg shared tdata).2 := by
    refine ⟨fun g => ?_,fun separate g => ?_⟩
    · rw [look,routine]
      split
      · next own => rw [own.2]
      · rfl
    · rw [look,routine,if_neg fun both => absurd (both.1.symm.trans separate) nofun]
  refine ⟨?_,?_⟩
  · obtain ⟨_,_,same⟩ := popShared_skipped cfg shared tdata skipping
    refine ⟨?_,?_,fun i _ => ?_,fun i _ => ?_,popped,tables,by rw [size]; exact small,0,by rw [size,Nat.pow_zero,Nat.mul_one]⟩
    all_goals rw [same]
  · rw [popShared_inputMaps]
    split
    · next single =>
      have own : cfg.singleReport = true ∧ tdata.top.routineInfo = tdata.top.routineInfo := ⟨single,rfl⟩
      rw [left,routine,if_pos own]
      exact Function.update_eq_self ..
    · rfl
end

section
variable {c : Counter} {cfg : Config} {rt middle after : Runtime c} {tdata last : ThreadData}

/-- Nothing but the current thread has changed; the shared tuples are the same. -/
def Only (rt after : Runtime c) (last : ThreadData) : Prop :=
  ∃ shared, after = {rt with shared := shared}.put rt.currentTid last ∧ shared.inputMaps = rt.shared.inputMaps

theorem Only.put (rt : Runtime c) (last : ThreadData) : Only rt (rt.put rt.currentTid last) last := ⟨rt.shared,rfl,rfl⟩

theorem Only.found (only : Only rt after last) : after.threads after.currentTid = some last := by
  obtain ⟨shared,rfl,-⟩ := only
  exact Function.update_self ..

theorem Only.trans {between : ThreadData} (first : Only rt middle between) (second : Only middle after last) :
    Only rt after last := by
  obtain ⟨shared,rfl,maps⟩ := first
  obtain ⟨shared',rfl,maps'⟩ := second
  refine ⟨shared',?_,maps'.trans maps⟩
  simp only [Runtime.put,Function.update_idem]

theorem current_some (found : rt.threads rt.currentTid = some tdata) : rt.current = .ok tdata := by
  unfold Runtime.current
  rw [found]

/-- A thread inside a skipped call, after some of its events. -/
structure Underway (cfg : Config) (rt after : Runtime c) (tdata last : ThreadData) : Prop where
  only : Only rt after last
  untouched : Untouched cfg tdata.stackDepth tdata last
  depth : last.stackDepth = tdata.stackDepth
  skip : last.skip = tdata.skip

theorem Underway.trans {between : ThreadData} (first : Underway cfg rt middle tdata between)
    (second : Underway cfg middle after between last) : Underway cfg rt after tdata last := by
  have untouched := second.untouched
  rw [first.depth] at untouched
  exact ⟨first.only.trans second.only,first.untouched.trans untouched,second.depth.trans first.depth,
    second.skip.trans first.skip⟩

theorem pushStack_hidden (found : rt.threads rt.currentTid = some tdata) (table : RoutineTable tdata)
    (small : tdata.maxStackSize < 29998) {sp : UInt64} {f : FnPtr} (hidden : (cfg.fn f).skip = true ∨ 0 < tdata.skip)
    (ok : pushStack cfg rt sp f = .ok after) : ∃ last, Only rt after last ∧
      Untouched cfg tdata.stackDepth tdata last ∧ last.stackDepth = tdata.stackDepth + 1 ∧
      last.skip = tdata.skip + (if (cfg.fn f).skip then 1 else 0) ∧
      (last.stack tdata.stackDepth).routineInfo = f ∧ (last.stack tdata.stackDepth).start = time tdata := by
  unfold pushStack at ok
  rw [current_some found,ok_bind] at ok
  obtain ⟨pushed,push,ok⟩ := bind_ok.mp ok
  have untouched := Untouched.push table small push
  obtain ⟨size,_,_,same,-⟩ := pushFrame_ok push
  have slot := fun table next => enterStart_slot tdata sp f size table next tdata.stackDepth
  have routine : ((enterStart pushed).stack tdata.stackDepth).routineInfo = f := by
    rw [same,slot,if_pos rfl]
    rfl
  have start : ((enterStart pushed).stack tdata.stackDepth).start = time tdata := by
    rw [same,slot,if_pos rfl]
  have depth : (enterStart pushed).stackDepth = tdata.stackDepth + 1 := by
    rw [same]
    rfl
  have skip : (enterStart pushed).skip = tdata.skip := by
    rw [same]
    rfl
  have top : (enterStart pushed).top.routineInfo = f := by
    rw [ThreadData.top,depth,Nat.add_sub_cancel]
    exact routine
  unfold functionEnter at ok
  dsimp only at ok
  rw [top,skip] at ok
  by_cases flag : (cfg.fn f).skip = true
  · rw [if_pos flag] at ok
    cases ok
    rw [if_pos flag]
    exact ⟨_,.put rt _,untouched _,depth,rfl,routine,start⟩
  · rw [if_neg flag,if_pos (hidden.resolve_left flag)] at ok
    cases ok
    rw [if_neg flag]
    exact ⟨_,.put rt _,untouched (enterStart pushed).skip,depth,skip,routine,start⟩

theorem popStack_hidden (found : rt.threads rt.currentTid = some tdata) (table : RoutineTable tdata)
    (small : tdata.maxStackSize < 29998) (skipping : 0 < tdata.skip) (ok : popStack cfg rt = .ok after) :
    ∃ last, Only rt after last ∧ (∀ n, Untouched cfg n tdata last) ∧ last.stackDepth = tdata.stackDepth - 1 ∧
      last.skip = (if skipFlag cfg tdata (tdata.stackDepth - 1) then tdata.skip - 1 else tdata.skip) ∧
      (skipFlag cfg tdata (tdata.stackDepth - 1) = true → time last = tdata.top.start) := by
  unfold popStack at ok
  rw [current_some found,ok_bind] at ok
  obtain ⟨_,nonempty,ok⟩ := bind_ok.mp ok
  have nonempty : 0 < tdata.stackDepth := by simpa using check_ok.mp nonempty
  cases ok
  have popped := fun n => Untouched.pop cfg n table small nonempty skipping rt.shared
  refine ⟨_,⟨_,rfl,(popped 0).2⟩,fun n => (popped n).1,rfl,popShared_skip cfg rt.shared tdata,fun flag => ?_⟩
  obtain ⟨_,_,same⟩ := popShared_skipped cfg rt.shared tdata skipping
  change time (popShared cfg rt.shared tdata).2 = _
  rw [same,Aprof.time]
  dsimp only
  rw [if_pos flag,exitCumul]
  grind

theorem run_cons {event : Event} {events : List Event} (ok : run cfg rt (event :: events) = .ok after) :
    ∃ middle, step cfg rt event = .ok middle ∧ run cfg middle events = .ok after := by
  unfold run at ok
  rw [List.foldlM_cons] at ok
  exact bind_ok.mp ok

theorem run_split {first second : List Event} (ok : run cfg rt (first ++ second) = .ok after) :
    ∃ middle, run cfg rt first = .ok middle ∧ run cfg middle second = .ok after := by
  unfold run at ok
  rw [List.foldlM_append] at ok
  exact bind_ok.mp ok

theorem access_hidden (found : rt.threads rt.currentTid = some tdata) (skipping : 0 < tdata.skip) {type : AccessType}
    {addr size : Nat} (ok : traceAccess cfg rt type addr size false = .ok after) : Only rt after tdata := by
  unfold traceAccess at ok
  rw [current_some found] at ok
  have outside : tdata.stackDepth = 0 ∨ tdata.skip > 0 := .inr skipping
  simp only [ok_bind] at ok
  split at ok
  · unfold traceAccessRms at ok
    rw [if_pos outside] at ok
    cases ok
    exact .put rt tdata
  · unfold traceAccessDrms at ok
    rw [if_pos outside] at ok
    cases ok
    exact .put rt tdata

theorem run_hidden {events : List Event} (nested : WellNested events) (found : rt.threads rt.currentTid = some tdata)
    (table : RoutineTable tdata) (small : tdata.maxStackSize < 29998) (skipping : 0 < tdata.skip)
    (ok : run cfg rt events = .ok after) : ∃ last, Underway cfg rt after tdata last := by
  induction nested generalizing rt tdata after with
  | nil =>
    cases ok
    have same : rt.put rt.currentTid tdata = rt := by simp only [Runtime.put,← found,Function.update_eq_self]
    exact ⟨tdata,⟨rt.shared,same.symm,rfl⟩,.tick cfg _ table small tdata.cost,rfl,rfl⟩
  | bbStart rest ih =>
    obtain ⟨middle,first,ok⟩ := run_cons ok
    change bbStart rt = .ok middle at first
    unfold bbStart at first
    rw [current_some found] at first
    cases first
    have untouched := Untouched.tick cfg tdata.stackDepth table small (tdata.cost + 1)
    have ticked : Underway cfg rt _ tdata _ := ⟨.put rt _,untouched,rfl,rfl⟩
    obtain ⟨last,inside⟩ := ih ticked.only.found untouched.table small skipping ok
    exact ⟨last,ticked.trans inside⟩
  | access type addr size rest ih =>
    obtain ⟨middle,first,ok⟩ := run_cons ok
    have only := access_hidden found skipping first
    have traced : Underway cfg rt middle tdata tdata := ⟨only,.tick cfg _ table small tdata.cost,rfl,rfl⟩
    obtain ⟨last,inside⟩ := ih only.found table small skipping ok
    exact ⟨last,traced.trans inside⟩
  | call sp f body rest ih ih' =>
    obtain ⟨entered,first,ok⟩ := run_cons ok
    obtain ⟨left,ran,ok⟩ := run_split ok
    obtain ⟨returned,popped,ok⟩ := run_cons ok
    obtain ⟨opened,only,untouched,depth,skip,routine,-⟩ := pushStack_hidden found table small (.inr skipping) first
    obtain ⟨ended,inside⟩ := ih only.found untouched.table untouched.small (by omega) ran
    have below := inside.untouched
    rw [depth] at below
    obtain ⟨last,only',popped,depth',skip',-⟩ := popStack_hidden inside.only.found below.table below.small
      (by rw [inside.skip]; omega) popped
    have flag : skipFlag cfg ended (ended.stackDepth - 1) = (cfg.fn f).skip := by
      rw [skipFlag,inside.depth,depth,Nat.add_sub_cancel,veil_routineInfo (below.kept _ (Nat.lt_succ_self _)),routine]
    have call : Underway cfg rt returned tdata last := by
      refine ⟨only.trans (inside.only.trans only'),
        untouched.trans ((below.mono (Nat.le_succ _)).trans (popped _)),?_,?_⟩
      · rw [depth',inside.depth,depth,Nat.add_sub_cancel]
      · rw [skip',flag,inside.skip,skip]
        split <;> omega
    obtain ⟨final,inside'⟩ := ih' only'.found (popped 0).table (popped 0).small (by rw [call.skip]; exact skipping) ok
    exact ⟨final,call.trans inside'⟩

theorem skipped_call (alike : RunsAlike cfg rt rt) {sp : UInt64} {f : FnPtr} (skipped : (cfg.fn f).skip = true)
    {body : List Event} (nested : WellNested body)
    (ok : run cfg rt (.functionEnter sp f :: (body ++ [.functionExit])) = .ok after) : RunsAlike cfg after rt := by
  obtain ⟨entered,first,ok⟩ := run_cons ok
  obtain ⟨left,ran,ok⟩ := run_split ok
  obtain ⟨returned,popped,ok⟩ := run_cons ok
  cases ok
  obtain ⟨tdata,current,-⟩ := bind_ok.mp first
  have found := current_ok.mp current
  have traced : TracedAlike cfg tdata tdata := by
    have same := alike.threads rt.currentTid
    rw [found] at same
    cases same with
    | some traced => exact traced
  obtain ⟨opened,only,untouched,depth,skip,routine,start⟩ :=
    pushStack_hidden found traced.table traced.room.small (.inl skipped) first
  rw [if_pos skipped] at skip
  obtain ⟨ended,inside⟩ := run_hidden nested only.found untouched.table untouched.small (by omega) ran
  have below := inside.untouched
  rw [depth] at below
  obtain ⟨last,only',popped,depth',skip',clock⟩ := popStack_hidden inside.only.found below.table below.small
    (by rw [inside.skip]; omega) popped
  have slot := below.kept _ (Nat.lt_succ_self _)
  have height : ended.stackDepth - 1 = tdata.stackDepth := by rw [inside.depth,depth,Nat.add_sub_cancel]
  have flag : skipFlag cfg ended (ended.stackDepth - 1) = true := by
    rw [skipFlag,height,veil_routineInfo slot,routine]
    exact skipped
  have time : time last = time tdata := by
    rw [clock flag,ThreadData.top,height,veil_start slot,start]
  have whole : Untouched cfg tdata.stackDepth tdata last := untouched.trans ((below.mono (Nat.le_succ _)).trans (popped _))
  rw [if_pos flag,inside.skip,skip,Nat.add_sub_cancel] at skip'
  rw [height] at depth'
  have back : TracedAlike cfg last tdata := by
    refine ⟨⟨whole.shadow,depth',skip',whole.nextId,time,?_,?_⟩,whole.table,traced.table,
      ⟨fun g => (whole.tables.pending g).symm,fun separate g => (whole.tables.inputMap separate g).symm⟩,?_⟩
    · rw [depth']
      exact whole.kept
    · rw [depth']
      exact whole.hidden
    · rw [depth']
      exact ⟨traced.room.fits,traced.room.positive,whole.small,whole.doubled⟩
  obtain ⟨shared,rfl,maps⟩ := only.trans (inside.only.trans only')
  have same : rt.put rt.currentTid tdata = rt := by simp only [Runtime.put,← found,Function.update_eq_self]
  have stored : RunsAlike cfg ({rt with shared := shared}.put rt.currentTid last) (rt.put rt.currentTid tdata) :=
    alike.putShared maps rfl back
  rw [same] at stored
  exact stored

end

/-- The tuples of a routine, wherever they are kept. -/
def recordedTuples (cfg : Config) (shared : Shared) (tdata : ThreadData) (f : FnPtr) : HashTable (Input UInt64) :=
  if cfg.singleReport then shared.inputMaps f else (tdata.routine f).inputMap

/-- What a thread has measured, and what it will measure with. -/
structure SameMeasures (cfg : Config) (shared shared' : Shared) (tdata tdata' : ThreadData) : Prop where
  time : time tdata = time tdata'
  depth : tdata.stackDepth = tdata'.stackDepth
  inputSize : ∀ i, i < tdata.stackDepth → (tdata.stack i).inputSize = (tdata'.stack i).inputSize
  pending : ∀ f, (tdata.routine f).recursionPending = (tdata'.routine f).recursionPending
  tuples : ∀ f, recordedTuples cfg shared tdata f = recordedTuples cfg shared' tdata' f

/-- The same measures in every thread, whether it is registered or reported. -/
structure NoTrace {c : Counter} (cfg : Config) (rt rt' : Runtime c) : Prop where
  threads : ∀ tid, Option.Rel (SameMeasures cfg rt.shared rt'.shared) (rt.threads tid) (rt'.threads tid)
  reported : List.Forall₂ (fun report report' =>
    report.1 = report'.1 ∧ SameMeasures cfg rt.shared rt'.shared report.2 report'.2) rt.reported rt'.reported

section
variable {c : Counter} {cfg : Config} {rt rt' : Runtime c}

theorem TracedAlike.measures {tdata tdata' : ThreadData} (traced : TracedAlike cfg tdata tdata') {shared shared' : Shared}
    (maps : shared.inputMaps = shared'.inputMaps) : SameMeasures cfg shared shared' tdata tdata' := by
  have seen := traced.seen
  refine ⟨seen.time,seen.depth,fun i below => veil_inputSize (seen.kept i below),fun f => (traced.tables.pending f).symm,
    fun f => ?_⟩
  unfold recordedTuples
  split
  · rw [maps]
  · next separate => exact (traced.tables.inputMap (Bool.eq_false_of_not_eq_true separate) f).symm

theorem RunsAlike.noTrace (alike : RunsAlike cfg rt rt') : NoTrace cfg rt rt' := by
  refine ⟨fun tid => ?_,alike.reported.imp fun _ _ same => ⟨same.1,same.2.measures alike.maps⟩⟩
  rcases alike.lookup tid with ⟨none,none'⟩ | ⟨tdata,tdata',some,some',traced⟩
  · rw [none,none']
    exact .none
  · rw [some,some']
    exact .some (traced.measures alike.maps)

/-- Without the call the run goes on as before, and every thread measures the same. -/
theorem skipped_call_leaves_no_trace (plain : cfg.collectCCT = false) {sp : UInt64} {f : FnPtr}
    (skipped : (cfg.fn f).skip = true) {body : List Event} (nested : WellNested body) (before rest : List Event)
    (ran : (initial c cfg >>= fun rt =>
      run cfg rt (before ++ ((.functionEnter sp f :: (body ++ [.functionExit])) ++ rest))) = .ok rt) :
    ∃ rt', (initial c cfg >>= fun rt => run cfg rt (before ++ rest)) = .ok rt' ∧ NoTrace cfg rt rt' := by
  obtain ⟨first,created,ran⟩ := bind_ok.mp ran
  obtain ⟨middle,past,ran⟩ := run_split ran
  obtain ⟨returned,call,ran⟩ := run_split ran
  have reached : (initial c cfg >>= fun rt => run cfg rt before) = .ok middle := by
    rw [created]
    exact past
  have alike := skipped_call (RunsAlike.reached plain reached) skipped nested call
  obtain ⟨rt',ran',final⟩ := alike.run plain rest rt ran
  refine ⟨rt',?_,final.noTrace⟩
  rw [created,ok_bind]
  unfold run at past ran' ⊢
  rw [List.foldlM_append,past]
  exact ran'

/-- A skipped call that calls another function, which ticks and reads. -/
theorem skipped_call_leaves_no_trace_nested : ∃ rt rt' : Runtime .wrapping,
    (initial .wrapping (smallConfig .rms) >>= fun rt => run (smallConfig .rms) rt
      [.threadSwitch 1,.functionEnter 9 0,.functionEnter 7 1,.bbStart,.functionEnter 5 2,.access .load 64 4,
        .functionExit,.functionExit,.bbStart]) = .ok rt ∧
    (initial .wrapping (smallConfig .rms) >>= fun rt => run (smallConfig .rms) rt
      [.threadSwitch 1,.functionEnter 9 0,.bbStart]) = .ok rt' ∧ NoTrace (smallConfig .rms) rt rt' := by
  have nested : WellNested [.bbStart,.functionEnter 5 2,.access .load 64 4,.functionExit] :=
    .bbStart (.call 5 2 (.access .load 64 4 .nil) .nil)
  obtain ⟨rt,ran⟩ : ∃ rt : Runtime .wrapping, (initial .wrapping (smallConfig .rms) >>= fun rt => run (smallConfig .rms) rt
      [.threadSwitch 1,.functionEnter 9 0,.functionEnter 7 1,.bbStart,.functionEnter 5 2,.access .load 64 4,
        .functionExit,.functionExit,.bbStart]) = .ok rt := ⟨_,rfl⟩
  obtain ⟨rt',ran',same⟩ := @skipped_call_leaves_no_trace _ (smallConfig .rms) _ rfl 7 1 rfl _ nested
    [.threadSwitch 1,.functionEnter 9 0] [.bbStart] ran
  exact ⟨rt,rt',ran,ran',same⟩

end

end Aprof
