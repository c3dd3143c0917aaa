import Aprof.TracedAlike

/-! Two runtimes whose threads are traced alike stay so, whatever events come. The
runtime with less room in its stacks never stops where the other one goes on. -/
namespace Aprof

open Lockstep

/-- Threads that are traced alike, with the same timestamps and the same tuples. -/
structure RunsAlike {c : Counter} (cfg : Config) (rt rt' : Runtime c) : Prop where
  tid : rt.currentTid = rt'.currentTid
  counter : rt.globalCounter = rt'.globalCounter
  shadow : rt.globalShadow = rt'.globalShadow
  maps : rt.shared.inputMaps = rt'.shared.inputMaps
  threads : ∀ tid, Option.Rel (TracedAlike cfg) (rt.threads tid) (rt'.threads tid)
  reported : List.Forall₂ (fun report report' => report.1 = report'.1 ∧ TracedAlike cfg report.2 report'.2)
    rt.reported rt'.reported

section
variable {c : Counter} {cfg : Config} {rt rt' : Runtime c}

theorem RunsAlike.lookup (alike : RunsAlike cfg rt rt') (tid : Nat) :
    (rt.threads tid = none ∧ rt'.threads tid = none) ∨
      ∃ tdata tdata', rt.threads tid = some tdata ∧ rt'.threads tid = some tdata' ∧ TracedAlike cfg tdata tdata' := by
  have related := alike.threads tid
  cases first : rt.threads tid with
  | none =>
    cases second : rt'.threads tid with
    | none => exact .inl ⟨rfl,rfl⟩
    | some tdata' =>
      rw [first,second] at related
      cases related
  | some tdata =>
    cases second : rt'.threads tid with
    | none =>
      rw [first,second] at related
      cases related
    | some tdata' =>
      rw [first,second] at related
      cases related with
      | some related => exact .inr ⟨tdata,tdata',rfl,rfl,related⟩

theorem RunsAlike.putShared (alike : RunsAlike cfg rt rt') {shared shared' : Shared} (maps : shared.inputMaps = shared'.inputMaps)
    {tid tid' : Nat} (same : tid = tid') {tdata tdata' : ThreadData} (traced : TracedAlike cfg tdata tdata') :
    RunsAlike cfg ({rt with shared := shared}.put tid tdata) ({rt' with shared := shared'}.put tid' tdata') := by
  subst same
  refine ⟨alike.tid,alike.counter,alike.shadow,maps,fun other => ?_,alike.reported⟩
  simp only [Runtime.put,Function.update_apply]
  split
  · exact .some traced
  · exact alike.threads other

theorem RunsAlike.put (alike : RunsAlike cfg rt rt') {tid tid' : Nat} (same : tid = tid') {tdata tdata' : ThreadData}
    (traced : TracedAlike cfg tdata tdata') : RunsAlike cfg (rt.put tid tdata) (rt'.put tid' tdata') :=
  alike.putShared alike.maps same traced

theorem RunsAlike.withCurrent (alike : RunsAlike cfg rt rt') {S A : Type} {R : S → A → Prop} {f : ThreadData → Result S}
    {g : ThreadData → Result A} (next : ∀ tdata tdata', rt.threads rt.currentTid = some tdata →
      rt'.threads rt.currentTid = some tdata' → TracedAlike cfg tdata tdata' → Leads R (f tdata) (g tdata')) :
    Leads R (rt.current >>= f) (rt'.current >>= g) := by
  unfold Runtime.current
  rw [← alike.tid]
  rcases alike.lookup rt.currentTid with ⟨none,none'⟩ | ⟨tdata,tdata',some,some',traced⟩
  · rw [none,none']
    exact nofun
  · rw [some,some']
    exact next tdata tdata' some some' traced

theorem RunsAlike.live (alike : RunsAlike cfg rt rt') : rt.live cfg = rt'.live cfg := by
  have present : ∀ tid, (rt.threads tid).isSome = (rt'.threads tid).isSome := by
    intro tid
    rcases alike.lookup tid with ⟨none,none'⟩ | ⟨tdata,tdata',some,some',-⟩
    · rw [none,none']
    · rw [some,some']
      rfl
  simp only [Runtime.live,present]

theorem RunsAlike.seen (alike : RunsAlike cfg rt rt') : veilThreads (depthOf rt.threads) rt.threads =
    veilThreads (depthOf rt.threads) rt'.threads := by
  ext1 tid
  rcases alike.lookup tid with ⟨none,none'⟩ | ⟨tdata,tdata',some,some',traced⟩
  · simp only [veilThreads,none,none']
  · simp only [veilThreads,depthOf,some,some',Option.map_some,Option.getD_some]
    exact congrArg Option.some (seenAlike_iff.mp traced.seen)

theorem RunsAlike.kept (alike : RunsAlike cfg rt rt') {threads threads' : Nat → Option ThreadData}
    (fields : ∀ tid, (threads tid).map ThreadData.control = (rt.threads tid).map ThreadData.control)
    (fields' : ∀ tid, (threads' tid).map ThreadData.control = (rt'.threads tid).map ThreadData.control)
    {ns : Nat → Nat} (high : ∀ tid, depthOf rt.threads tid ≤ ns tid) (seen : veilThreads ns threads = veilThreads ns threads')
    (tid : Nat) : Option.Rel (TracedAlike cfg) (threads tid) (threads' tid) := by
  have field := fields tid
  have field' := fields' tid
  have depth := high tid
  have same := congrFun seen tid
  rcases alike.lookup tid with ⟨none,none'⟩ | ⟨tdata,tdata',some,some',traced⟩
  · rw [none,Option.map_none,Option.map_eq_none_iff] at field
    rw [none',Option.map_none,Option.map_eq_none_iff] at field'
    rw [field,field']
    exact .none
  · rw [some,Option.map_some] at field
    rw [some',Option.map_some] at field'
    obtain ⟨after,stored,control⟩ := Option.map_eq_some_iff.mp field
    obtain ⟨after',stored',control'⟩ := Option.map_eq_some_iff.mp field'
    simp only [veilThreads,stored,stored',Option.map_some,Option.some.injEq] at same
    simp only [depthOf,some,Option.map_some,Option.getD_some] at depth
    rw [stored,stored']
    refine .some (traced.control control control' ((seenAlike_iff.mpr same).mono ?_))
    rw [(control_fields control).depth]
    exact depth

theorem RunsAlike.overflow (alike : RunsAlike cfg rt rt') {ns : Nat → Nat} (high : ∀ tid, depthOf rt.threads tid ≤ ns tid)
    (seen : veilThreads ns rt.threads = veilThreads ns rt'.threads) :
    Leads (fun after after' => after.1 = after'.1 ∧ RunsAlike cfg after.2 after'.2 ∧
      veilThreads ns after.2.threads = veilThreads ns after'.2.threads)
      (overflowHandler cfg rt) (overflowHandler cfg rt') := by
  intro after ok
  have handles := overflowHandlerDrms_veil (c := c) ns (rt.live cfg) rt.globalShadow rt.threads
  have handles' := overflowHandlerDrms_veil (c := c) ns (rt.live cfg) rt.globalShadow rt'.threads
  have whole := ok
  obtain ⟨⟨counter,global,threads⟩,handled,ok⟩ := bind_ok.mp ok
  cases ok
  rw [← seen,handles,handled] at handles'
  cases second : overflowHandlerDrms c (rt.live cfg) rt.globalShadow rt'.threads with
  | error fault =>
    rw [second] at handles'
    cases handles'
  | ok handled' =>
    obtain ⟨counter',global',threads'⟩ := handled'
    rw [second] at handles'
    simp only [Except.map,Except.ok.injEq,Prod.mk.injEq] at handles'
    obtain ⟨rfl,rfl,veiled⟩ := handles'
    have whole' : overflowHandler cfg rt' = .ok (counter,{rt' with globalShadow := global, threads := threads'}) := by
      unfold overflowHandler
      rw [← alike.live,← alike.shadow,second]
      rfl
    obtain ⟨-,-,-,erased⟩ := overflowHandler_erase whole
    obtain ⟨-,-,-,erased'⟩ := overflowHandler_erase whole'
    have threads := alike.kept (control_erased erased) (control_erased erased') high veiled
    exact ⟨_,whole',rfl,⟨alike.tid,alike.counter,rfl,alike.maps,threads,alike.reported⟩,veiled⟩
theorem RunsAlike.counts (alike : RunsAlike cfg rt rt') (counter : Nat) :
    RunsAlike cfg {rt with globalCounter := counter} {rt' with globalCounter := counter} :=
  ⟨alike.tid,rfl,alike.shadow,alike.maps,alike.threads,alike.reported⟩

theorem RunsAlike.increaseGlobalCounter (alike : RunsAlike cfg rt rt') :
    Leads (RunsAlike cfg) (increaseGlobalCounter cfg rt) (increaseGlobalCounter cfg rt') := by
  have counted := alike.counts (rt.globalCounter + 1)
  unfold Aprof.increaseGlobalCounter
  rw [← alike.counter]
  dsimp only
  split
  · refine (counted.overflow (fun _ => Nat.le_refl _) counted.seen).bind ?_
    rintro ⟨counter,after⟩ ⟨counter',after'⟩ - - ⟨same,handled,-⟩
    dsimp only at same handled ⊢
    rw [← same]
    exact .ok (handled.counts counter)
  · exact .ok counted

theorem newThread_alike (cfg : Config) (tid : Nat) (shadow : LookupTable Nat) :
    TracedAlike cfg (newThread cfg tid shadow) (newThread cfg tid shadow) := by
  have table : RoutineTable (newThread cfg tid shadow) := ⟨htConstruct_keyed,fun _ below => absurd below (Nat.not_lt_zero _)⟩
  exact ⟨seenAlike_iff.mpr rfl,table,table,⟨fun _ => rfl,fun _ _ => rfl⟩,⟨Nat.zero_le 64,Nat.succ_pos 63,show 64 < 29998 by decide,0,rfl⟩⟩

theorem RunsAlike.threadStart (alike : RunsAlike cfg rt rt') (tid : Nat) :
    Leads (RunsAlike cfg) (threadStart cfg rt tid) (threadStart cfg rt' tid) := by
  have present : (rt.threads tid).isNone = (rt'.threads tid).isNone := by
    rcases alike.lookup tid with ⟨none,none'⟩ | ⟨tdata,tdata',some,some',-⟩
    · rw [none,none']
    · rw [some,some']
      rfl
  unfold Aprof.threadStart
  rw [← present]
  intro after ok
  obtain ⟨_,valid,ok⟩ := bind_ok.mp ok
  obtain ⟨_,free,ok⟩ := bind_ok.mp ok
  obtain ⟨shadow,created,ok⟩ := bind_ok.mp ok
  cases ok
  refine ⟨_,?_,alike.put rfl (newThread_alike cfg tid shadow)⟩
  rw [valid,free,created]
  rfl

theorem RunsAlike.threadSwitch (alike : RunsAlike cfg rt rt') (tid : Nat) :
    Leads (RunsAlike cfg) (threadSwitch cfg rt tid) (threadSwitch cfg rt' tid) := by
  have moved : RunsAlike cfg ({rt with currentTid := tid} : Runtime c) {rt' with currentTid := tid} :=
    ⟨rfl,alike.counter,alike.shadow,alike.maps,alike.threads,alike.reported⟩
  unfold Aprof.threadSwitch
  rw [← alike.tid]
  split
  · exact .ok alike
  dsimp only
  split
  · exact .ok moved
  have started : ∀ {middle middle' : Runtime c}, RunsAlike cfg middle middle' → Leads (RunsAlike cfg)
      (startIfNew cfg middle tid) (startIfNew cfg middle' tid) := by
    intro middle middle' alike
    unfold startIfNew
    rcases alike.lookup tid with ⟨none,none'⟩ | ⟨tdata,tdata',some,some',-⟩
    · rw [none,none']
      exact alike.threadStart tid
    · rw [some,some']
      exact .ok alike
  split
  · exact moved.increaseGlobalCounter.bind fun _ _ _ _ middle => started middle
  · exact started moved

theorem RunsAlike.bbStart (alike : RunsAlike cfg rt rt') : Leads (RunsAlike cfg) (bbStart rt) (bbStart rt') := by
  refine alike.withCurrent ?_
  intro tdata tdata' _ _ traced
  refine .ok (alike.put alike.tid ⟨?_,⟨traced.table.keyed,traced.table.registered⟩,
    ⟨traced.table'.keyed,traced.table'.registered⟩,⟨traced.tables.pending,traced.tables.inputMap⟩,traced.room⟩)
  have seen := traced.seen
  refine ⟨seen.shadow,seen.depth,seen.skip,seen.nextId,?_,seen.kept,seen.hidden⟩
  have ticks : ∀ now skipped : UInt64, now + 1 - skipped = now - skipped + 1 := by
    intro now skipped
    grind
  have clock := seen.time
  unfold Aprof.time at clock ⊢
  rw [ticks,ticks,clock]

theorem RunsAlike.traceAccess (alike : RunsAlike cfg rt rt') (type : AccessType) (addr size : Nat) (kernelAccess : Bool) :
    Leads (RunsAlike cfg) (traceAccess cfg rt type addr size kernelAccess) (traceAccess cfg rt' type addr size kernelAccess) := by
  have traces : Leads (fun after after' : Runtime c => after.globalCounter = after'.globalCounter ∧ after.globalShadow = after'.globalShadow ∧
      veilThreads (depthOf rt.threads) after.threads = veilThreads (depthOf rt.threads) after'.threads)
      (Aprof.traceAccess cfg rt type addr size kernelAccess) (Aprof.traceAccess cfg rt' type addr size kernelAccess) := by
    refine alike.withCurrent ?_
    intro tdata tdata' found found' traced
    have height : depthOf rt.threads rt.currentTid = tdata.stackDepth := by simp [depthOf,found]
    have stored : ∀ {after after' : ThreadData}, after.visible tdata.stackDepth = after'.visible tdata.stackDepth →
        veilThreads (depthOf rt.threads) (Function.update rt.threads rt.currentTid (some after)) =
          veilThreads (depthOf rt.threads) (Function.update rt'.threads rt'.currentTid (some after')) := by
      intro after after' same
      rw [veilThreads_update,veilThreads_update,← alike.tid,alike.seen,Option.map_some,Option.map_some,height,same]
    have same := seenAlike_iff.mp traced.seen
    rw [← alike.counter,← alike.shadow]
    cases cfg.inputMetric with
    | rms =>
      have left := traceAccessRms_visible tdata.stackDepth tdata cfg type addr size
      have right := traceAccessRms_visible tdata.stackDepth tdata' cfg type addr size
      rw [← same] at right
      refine (left.join right).leads.bind ?_
      rintro after after' - - ⟨hidden,seen,seen'⟩
      exact .ok ⟨alike.counter,alike.shadow,stored (seen.symm.trans seen')⟩
    | _ =>
      have left := traceAccessDrms_visible tdata.stackDepth tdata cfg rt.globalCounter rt.globalShadow type addr size kernelAccess
      have right := traceAccessDrms_visible tdata.stackDepth tdata' cfg rt.globalCounter rt.globalShadow type addr size kernelAccess
      rw [← same] at right
      refine (left.join right).leads.bind ?_
      rintro ⟨global,after⟩ ⟨global',after'⟩ - - ⟨hidden,seen,seen'⟩
      have both := seen.symm.trans seen'
      exact .ok ⟨rfl,congrArg Prod.fst both,stored (congrArg Prod.snd both)⟩
  intro after ok
  obtain ⟨after',ok',counter,shadow,seen⟩ := traces after ok
  have same := traceAccess_control ok
  have same' := traceAccess_control ok'
  refine ⟨after',ok',?_,counter,shadow,?_,?_,?_⟩
  · rw [same.tid,same'.tid,alike.tid]
  · rw [same.shared,same'.shared,alike.maps]
  · exact alike.kept same.threads same'.threads (fun _ => Nat.le_refl _) seen
  · rw [same.reported,same'.reported]
    exact alike.reported

theorem RunsAlike.postSyscall (alike : RunsAlike cfg rt rt') (tid : Nat) (buffers : List (Nat × Int)) :
    Leads (RunsAlike cfg) (postSyscall cfg rt tid buffers) (postSyscall cfg rt' tid buffers) := by
  have stores : ∀ (first second : Runtime c) (buffer : Nat × Int), RunsAlike cfg first second →
      Leads (RunsAlike cfg) (kernelStore cfg first buffer) (kernelStore cfg second buffer) := by
    intro first second buffer alike
    exact Leads.foldlM (fun _ _ addr alike => alike.traceAccess .store addr cfg.memoryResolution true) _ first second alike
  unfold Aprof.postSyscall
  rw [← alike.tid]
  split
  · dsimp only
    split
    · exact (alike.threadSwitch tid).bind fun _ _ _ _ middle => Leads.foldlM stores buffers _ _ middle
    · exact alike.increaseGlobalCounter.bind fun _ _ _ _ middle => Leads.foldlM stores buffers _ _ middle
  · exact .ok alike

theorem RunsAlike.popStack (plain : cfg.collectCCT = false) (alike : RunsAlike cfg rt rt') :
    Leads (RunsAlike cfg) (popStack cfg rt) (popStack cfg rt') := by
  refine alike.withCurrent ?_
  intro tdata tdata' _ _ traced
  rw [← traced.seen.depth]
  intro after ok
  obtain ⟨_,nonempty,ok⟩ := bind_ok.mp ok
  cases ok
  obtain ⟨popped,maps⟩ := traced.exit plain (by simpa using check_ok.mp nonempty) alike.maps
  refine ⟨_,?_,alike.putShared maps alike.tid popped⟩
  rw [nonempty]
  rfl

theorem TracedAlike.unwind (plain : cfg.collectCCT = false) {n : Nat} {tdata tdata' : ThreadData}
    (traced : TracedAlike cfg tdata tdata') (inside : n ≤ tdata.stackDepth) {shared shared' : Shared}
    (maps : shared.inputMaps = shared'.inputMaps) :
    TracedAlike cfg (unwindShared cfg n (shared,tdata)).2 (unwindShared cfg n (shared',tdata')).2 ∧
      (unwindShared cfg n (shared,tdata)).1.inputMaps = (unwindShared cfg n (shared',tdata')).1.inputMaps := by
  induction n generalizing tdata tdata' shared shared' with
  | zero => exact ⟨traced,maps⟩
  | succ n ih =>
    obtain ⟨popped,maps⟩ := traced.exit plain (by omega) maps
    refine ih popped ?_ maps
    rw [popShared_depth]
    omega

theorem RunsAlike.threadExit (plain : cfg.collectCCT = false) (alike : RunsAlike cfg rt rt') (tid : Nat) :
    Leads (RunsAlike cfg) (threadExit cfg rt tid) (threadExit cfg rt' tid) := by
  unfold Aprof.threadExit
  rcases alike.lookup tid with ⟨none,none'⟩ | ⟨tdata,tdata',some,some',traced⟩
  · rw [none,none']
    exact nofun
  · rw [some,some']
    obtain ⟨unwound,maps⟩ := traced.unwind plain (Nat.le_refl _) alike.maps
    dsimp only
    rw [← traced.seen.depth]
    refine .ok ⟨rfl,alike.counter,alike.shadow,maps,fun other => ?_,.cons ⟨rfl,unwound⟩ alike.reported⟩
    dsimp only
    rw [Function.update_apply,Function.update_apply]
    split
    · exact .none
    · exact alike.threads other

section
variable {tdata tdata' : ThreadData}

theorem TracedAlike.skips (traced : TracedAlike cfg tdata tdata') :
    TracedAlike cfg {tdata with skip := tdata.skip + 1} {tdata' with skip := tdata'.skip + 1} := by
  have seen := traced.seen
  exact ⟨⟨seen.shadow,seen.depth,congrArg (· + 1) seen.skip,seen.nextId,seen.time,seen.kept,seen.hidden⟩,
    ⟨traced.table.keyed,traced.table.registered⟩,⟨traced.table'.keyed,traced.table'.registered⟩,
    ⟨traced.tables.pending,traced.tables.inputMap⟩,traced.room⟩

theorem TracedAlike.lower (traced : TracedAlike cfg tdata tdata') : TracedAlike cfg
    {tdata with stackDepth := tdata.stackDepth - 1} {tdata' with stackDepth := tdata'.stackDepth - 1} := by
  have seen := traced.seen.mono (Nat.sub_le tdata.stackDepth 1)
  have room := traced.room
  refine ⟨⟨seen.shadow,congrArg (· - 1) seen.depth,seen.skip,seen.nextId,seen.time,seen.kept,seen.hidden⟩,
    ⟨traced.table.keyed,fun i below => traced.table.registered i ?_⟩,
    ⟨traced.table'.keyed,fun i below => traced.table'.registered i ?_⟩,
    ⟨traced.tables.pending,traced.tables.inputMap⟩,
    ⟨Nat.le_trans (Nat.sub_le _ _) room.fits,room.positive,room.small,room.doubled⟩⟩
  · exact Nat.lt_of_lt_of_le below (Nat.sub_le _ _)
  · exact Nat.lt_of_lt_of_le below (Nat.sub_le _ _)

theorem visible_id {n : Nat} (same : tdata.visible n = tdata'.visible n) (id : Nat) :
    (tdata.setTop fun act => {act with activationId := id}).visible n =
      (tdata'.setTop fun act => {act with activationId := id}).visible n := by
  rw [← visible_setTop n tdata (blind_id id),← visible_setTop n tdata' (blind_id id),same]

theorem TracedAlike.named (traced : TracedAlike cfg tdata tdata') (id : Nat) :
    TracedAlike cfg (tdata.setTop fun act => {act with activationId := id})
      (tdata'.setTop fun act => {act with activationId := id}) :=
  traced.control (control_setTop tdata _ fun _ => rfl) (control_setTop tdata' _ fun _ => rfl)
    (seenAlike_iff.mpr (visible_id (seenAlike_iff.mp traced.seen) id))

end

theorem RunsAlike.overflowBelow (alike : RunsAlike cfg rt rt') (tid : Nat) {tdata tdata' : ThreadData}
    (traced : TracedAlike cfg tdata tdata') : Leads (fun after after' => after.1 = after'.1 ∧ RunsAlike cfg after.2 after'.2 ∧
      (after.2.threads tid).map (ThreadData.visible tdata.stackDepth) =
        (after'.2.threads tid).map (ThreadData.visible tdata.stackDepth))
      (overflowHandler cfg (rt.put tid {tdata with stackDepth := tdata.stackDepth - 1}))
      (overflowHandler cfg (rt'.put tid {tdata' with stackDepth := tdata'.stackDepth - 1})) := by
  let ns := Function.update (depthOf rt.threads) tid tdata.stackDepth
  have height : ns tid = tdata.stackDepth := Function.update_self ..
  have high : ∀ other, depthOf (rt.put tid {tdata with stackDepth := tdata.stackDepth - 1}).threads other ≤ ns other := by
    intro other
    simp only [depthOf,Runtime.put,ns,Function.update_apply]
    split
    · exact Nat.sub_le _ _
    · exact Nat.le_refl _
  have seen : veilThreads ns (rt.put tid {tdata with stackDepth := tdata.stackDepth - 1}).threads =
      veilThreads ns (rt'.put tid {tdata' with stackDepth := tdata'.stackDepth - 1}).threads := by
    ext1 other
    by_cases own : other = tid
    · subst own
      have lower := congrArg (fun base : ThreadData => {base with stackDepth := base.stackDepth - 1})
        (seenAlike_iff.mp traced.seen)
      simp only [veilThreads,Runtime.put,Function.update_self,height,Option.map_some]
      exact congrArg some lower
    · have same := congrFun alike.seen other
      simp only [veilThreads,Runtime.put,ns,Function.update_of_ne own] at same ⊢
      exact same
  refine ((alike.put (Eq.refl tid) traced.lower).overflow high seen).mono ?_
  rintro after after' - - ⟨counter,handled,veiled⟩
  have same := congrFun veiled tid
  rw [veilThreads,veilThreads,height] at same
  exact ⟨counter,handled,same⟩

theorem RunsAlike.assignId (alike : RunsAlike cfg rt rt') (tid : Nat) {tdata tdata' : ThreadData}
    (traced : TracedAlike cfg tdata tdata') (nonempty : 0 < tdata.stackDepth) :
    Leads (fun after after' => RunsAlike cfg after.1 after'.1 ∧ TracedAlike cfg after.2 after'.2)
      (assignId cfg rt tid tdata) (assignId cfg rt' tid tdata') := by
  have same := seenAlike_iff.mp traced.seen
  have names : Leads (fun after after' => RunsAlike cfg after.1 after'.1 ∧
      after.2.visible tdata.stackDepth = after'.2.visible tdata.stackDepth)
      (Aprof.assignId cfg rt tid tdata) (Aprof.assignId cfg rt' tid tdata') := by
    unfold Aprof.assignId
    cases cfg.inputMetric with
    | rms =>
      refine .ok ⟨alike,?_⟩
      rw [← assignIdRms_visible,same,assignIdRms_visible]
    | _ =>
      dsimp only
      unfold assignIdDrms
      rw [← alike.counter]
      have counted := alike.counts (rt.globalCounter + 1)
      have named := traced.named (rt.globalCounter + 1)
      dsimp only
      split
      · refine (counted.overflowBelow tid named).bind ?_
        rintro ⟨counter,after⟩ ⟨counter',after'⟩ - - ⟨equal,handled,seen⟩
        dsimp only at equal handled seen ⊢
        rw [← equal]
        rcases handled.lookup tid with ⟨none,none'⟩ | ⟨base,base',some,some',-⟩
        · rw [none,none']
          exact nofun
        · rw [some,some'] at seen ⊢
          have taller := congrArg (fun base : ThreadData => {base with stackDepth := base.stackDepth + 1})
            (Option.some.inj seen)
          exact .ok ⟨handled.counts counter,visible_id taller counter⟩
      · exact .ok ⟨counted,seenAlike_iff.mp named.seen⟩
  refine names.mono ?_
  rintro after after' ok ok' ⟨alike,seen⟩
  have control := control_of_erase (assignId_erase nonempty ok).1
  have control' := control_of_erase (assignId_erase (traced.seen.depth ▸ nonempty) ok').1
  refine ⟨alike,traced.control control control' ?_⟩
  rw [(control_fields control).depth]
  exact seenAlike_iff.mpr seen

theorem enterShared_maps (cfg : Config) (shared : Shared) (tdata : ThreadData) :
    (enterShared cfg shared tdata).1.inputMaps = shared.inputMaps := by
  unfold enterShared
  split <;> rfl

theorem RunsAlike.functionEnter (alike : RunsAlike cfg rt rt') (tid : Nat) {pushed pushed' : ThreadData}
    (traced : TracedAlike cfg (enterStart pushed) (enterStart pushed')) (nonempty : 0 < pushed.stackDepth) :
    Leads (RunsAlike cfg) (functionEnter cfg rt tid pushed) (functionEnter cfg rt' tid pushed') := by
  have called := veil_routineInfo (traced.seen.top (Nat.sub_lt nonempty Nat.one_pos))
  unfold Aprof.functionEnter
  dsimp only
  rw [← called,← traced.seen.skip]
  split
  · have skips := traced.skips
    rw [← traced.seen.skip] at skips
    exact .ok (alike.put rfl skips)
  split
  · exact .ok (alike.put rfl traced)
  refine (alike.assignId tid traced nonempty).bind ?_
  rintro ⟨after,named⟩ ⟨after',named'⟩ ok ok' ⟨alike,traced⟩
  have depth : 0 < named.stackDepth := by
    have opened : 0 < (enterStart pushed).stackDepth := nonempty
    have kept := control_fields (control_of_erase (assignId_erase opened ok).1)
    rw [kept.depth]
    exact nonempty
  refine .ok (alike.putShared ?_ rfl (traced.record depth after.shared after'.shared))
  rw [enterShared_maps,enterShared_maps,alike.maps]

theorem RunsAlike.pushStack (alike : RunsAlike cfg rt rt') (sp : UInt64) (f : FnPtr) :
    Leads (RunsAlike cfg) (pushStack cfg rt sp f) (pushStack cfg rt' sp f) := by
  refine alike.withCurrent ?_
  intro tdata tdata' _ _ traced after ok
  obtain ⟨pushed,push,ok⟩ := bind_ok.mp ok
  obtain ⟨pushed',push',opened⟩ := traced.push push
  have depth : 0 < pushed.stackDepth := by
    rw [pushFrame_depth push]
    exact Nat.succ_pos _
  rw [push',← alike.tid]
  exact alike.functionEnter rt.currentTid opened depth after ok

theorem RunsAlike.step (plain : cfg.collectCCT = false) (alike : RunsAlike cfg rt rt') (event : Event) :
    Leads (RunsAlike cfg) (step cfg rt event) (step cfg rt' event) := by
  cases event with
  | threadCreate child => exact alike.threadStart child
  | threadSwitch tid => exact alike.threadSwitch tid
  | threadExit tid => exact alike.threadExit plain tid
  | bbStart => exact alike.bbStart
  | functionEnter sp f => exact alike.pushStack sp f
  | functionExit => exact alike.popStack plain
  | access type addr size => exact alike.traceAccess type addr size false
  | postSyscall tid buffers => exact alike.postSyscall tid buffers

theorem RunsAlike.run (plain : cfg.collectCCT = false) (alike : RunsAlike cfg rt rt') (events : List Event) :
    Leads (RunsAlike cfg) (run cfg rt events) (run cfg rt' events) :=
  Leads.foldlM (fun _ _ event alike => alike.step plain event) events rt rt' alike

theorem RunsAlike.initial (created : initial c cfg = .ok rt) : RunsAlike cfg rt rt := by
  obtain ⟨global,_,ok⟩ := bind_ok.mp created
  cases ok
  exact ⟨rfl,rfl,rfl,rfl,fun _ => .none,.nil⟩

theorem RunsAlike.reached (plain : cfg.collectCCT = false) {events : List Event}
    (reached : (Aprof.initial c cfg >>= fun rt => Aprof.run cfg rt events) = .ok rt) : RunsAlike cfg rt rt := by
  obtain ⟨first,created,ran⟩ := bind_ok.mp reached
  obtain ⟨last,ran',alike⟩ := (RunsAlike.initial created).run plain events rt ran
  rw [ran] at ran'
  cases ran'
  exact alike

end

end Aprof
