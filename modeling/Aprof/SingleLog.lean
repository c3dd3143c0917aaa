import Aprof.ContextLines

/-! A single report with contexts. The threads share the tree of the runtime, but
every one of them numbers its contexts on its own, and each exit frees the tree.
The report is right as long as there is never a second thread. -/
namespace Aprof

open Lockstep

section
variable {c : Counter} {cfg : Config}

/-- A thread is started only before any other one has been. -/
def StartsAlone (rt : Runtime c) (tid : Nat) : Prop :=
  rt.threads tid = none → (∀ other, rt.threads other = none) ∧ rt.reported = []

def FindsAlone (cfg : Config) (rt : Runtime c) : Event → Prop
  | .threadCreate child => StartsAlone rt child
  | .threadSwitch tid => tid = 0 ∨ StartsAlone rt tid
  | .postSyscall tid _ => tid = 0 ∨ StartsAlone rt tid
  | .functionEnter _ f => ∀ tdata, rt.current = .ok tdata → EntersClean cfg tdata f
  | _ => True

/-- The one thread has the tree of the runtime for its own. -/
structure LoneThread (cfg : Config) (rt : Runtime c) : Prop where
  kept : ∀ tid tdata, rt.threads tid = some tdata → ContextsKept cfg tdata ∧ tdata.root = rt.shared.root
  tree : ContextTree rt.shared.root
  numbered : ∀ node, node < rt.shared.root.length → (cctNode rt.shared.root node).contextId.toNat = node
  fresh : (∀ tid, rt.threads tid = none) → rt.reported = [] → rt.shared.root = [⟨[],0,0⟩]
  lone : ∀ tid other, rt.threads tid ≠ none → rt.threads other ≠ none → tid = other

/-- The invariant goes on, and the tree of the runtime has only grown. -/
structure Onward (cfg : Config) (rt after : Runtime c) : Prop where
  thread : LoneThread cfg after
  grows : Grows rt.shared.root after.shared.root

variable {rt after : Runtime c}

theorem LoneThread.onward (lone : LoneThread cfg rt) : Onward cfg rt rt := ⟨lone,.refl _⟩

theorem Onward.trans {middle : Runtime c} (first : Onward cfg rt middle) (second : Onward cfg middle after) :
    Onward cfg rt after := ⟨second.thread,first.grows.trans second.grows⟩

theorem none_iff_control {thread thread' : Option ThreadData}
    (same : thread'.map ThreadData.control = thread.map ThreadData.control) : thread' = none ↔ thread = none := by
  rw [← Option.map_eq_none_iff,same,Option.map_eq_none_iff]

theorem LoneThread.control (lone : LoneThread cfg rt) (shared : after.shared = rt.shared)
    (reported : after.reported = rt.reported)
    (same : ∀ tid, (after.threads tid).map ThreadData.control = (rt.threads tid).map ThreadData.control) :
    Onward cfg rt after := by
  refine ⟨⟨?_,by rw [shared]; exact lone.tree,by rw [shared]; exact lone.numbered,?_,?_⟩,by rw [shared]; exact .refl _⟩
  · intro tid tdata found
    have kept := same tid
    rw [found,Option.map_some] at kept
    obtain ⟨before,stored,equal⟩ := Option.map_eq_some_iff.mp kept.symm
    obtain ⟨contexts,root⟩ := lone.kept tid before stored
    refine ⟨contexts.access equal.symm,?_⟩
    rw [(control_fields equal.symm).root,root,shared]
  · intro none nobody
    rw [shared]
    exact lone.fresh (fun tid => (none_iff_control (same tid)).mp (none tid)) (reported ▸ nobody)
  · intro tid other here there
    exact lone.lone tid other (fun none => here ((none_iff_control (same tid)).mpr none))
      fun none => there ((none_iff_control (same other)).mpr none)

theorem LoneThread.put (lone : LoneThread cfg rt) {tid : Nat} {before tdata : ThreadData}
    (stored : rt.threads tid = some before) (found : after.threads tid = some tdata) (kept : ContextsKept cfg tdata)
    (root : tdata.root = after.shared.root) (grows : Grows rt.shared.root after.shared.root)
    (same : ∀ other, other ≠ tid →
      (after.threads other).map ThreadData.control = (rt.threads other).map ThreadData.control) :
    Onward cfg rt after := by
  have only : ∀ other, after.threads other ≠ none → other = tid := by
    intro other there
    by_contra different
    have present : rt.threads other ≠ none := fun none => there ((none_iff_control (same other different)).mpr none)
    exact different (lone.lone other tid present (by rw [stored]; exact Option.some_ne_none _))
  refine ⟨⟨?_,by rw [← root]; exact kept.contexts.tree,by rw [← root]; exact kept.contexts.ids,?_,?_⟩,grows⟩
  · intro other tdata' found'
    obtain rfl := only other (by rw [found']; exact Option.some_ne_none _)
    rw [found] at found'
    cases found'
    exact ⟨kept,root⟩
  · intro none _
    rw [none tid] at found
    cases found
  · intro first second here there
    rw [only first here,only second there]

theorem LoneThread.threadStart {tid : Nat} (lone : LoneThread cfg rt) (alone : StartsAlone rt tid)
    (ok : threadStart cfg rt tid = .ok after) : Onward cfg rt after := by
  obtain ⟨_,_,ok⟩ := bind_ok.mp ok
  obtain ⟨_,absent,ok⟩ := bind_ok.mp ok
  obtain ⟨shadow,_,ok⟩ := bind_ok.mp ok
  cases ok
  obtain ⟨nobody,reported⟩ := alone (by simpa using check_ok.mp absent)
  have root := lone.fresh nobody reported
  have look : ∀ other, (rt.put tid (newThread cfg tid shadow)).threads other =
      if other = tid then some (newThread cfg tid shadow) else none := by
    intro other
    change Function.update rt.threads tid _ other = _
    rw [Function.update_apply,nobody other]
  refine ⟨⟨?_,lone.tree,lone.numbered,?_,?_⟩,.refl _⟩
  · intro other tdata found
    rw [look] at found
    split at found
    · cases found
      exact ⟨.fresh tid shadow,root.symm⟩
    · cases found
  · intro none _
    have present := none tid
    rw [look,if_pos rfl] at present
    cases present
  · intro first second here there
    rw [look] at here there
    have own : first = tid := by
      by_contra different
      exact here (if_neg different)
    have own' : second = tid := by
      by_contra different
      exact there (if_neg different)
    rw [own,own']

theorem LoneThread.threadSwitch {tid : Nat} (lone : LoneThread cfg rt) (alone : tid = 0 ∨ StartsAlone rt tid)
    (ok : threadSwitch cfg rt tid = .ok after) : Onward cfg rt after := by
  unfold Aprof.threadSwitch at ok
  split at ok
  · cases ok
    exact lone.onward
  · dsimp only at ok
    have moved : Onward cfg rt ({rt with currentTid := tid} : Runtime c) := lone.control rfl rfl fun _ => rfl
    split at ok
    · cases ok
      exact moved
    · next other =>
      have counted : ∃ middle : Runtime c, Onward cfg rt middle ∧ StartsAlone middle tid ∧
          startIfNew cfg middle tid = .ok after := by
        have starts := alone.resolve_left other
        split at ok
        · obtain ⟨middle,counted,ok⟩ := bind_ok.mp ok
          obtain ⟨-,shared,reported,erased⟩ := increaseGlobalCounter_erase counted
          have same := control_erased erased
          refine ⟨middle,moved.trans (moved.thread.control shared reported same),?_,ok⟩
          intro absent
          obtain ⟨nobody,none⟩ := starts ((none_iff_control (same tid)).mp absent)
          exact ⟨fun other => (none_iff_control (same other)).mpr (nobody other),reported.trans none⟩
        · exact ⟨_,moved,starts,ok⟩
      obtain ⟨middle,onward,starts,ok⟩ := counted
      unfold startIfNew at ok
      split at ok
      · exact onward.trans (onward.thread.threadStart starts ok)
      · cases ok
        exact onward

theorem popShared_root (cfg : Config) (shared : Shared) (tdata : ThreadData) :
    (popShared cfg shared tdata).1.root = shared.root := by
  change (exitShared cfg shared tdata).1.root = shared.root
  unfold exitShared
  split <;> rfl

theorem unwindShared_contexts {n : Nat} {shared : Shared} {tdata : ThreadData} (kept : ContextsKept cfg tdata)
    (own : tdata.root = shared.root) (bound : n ≤ tdata.stackDepth) :
    (unwindShared cfg n (shared,tdata)).1.root = shared.root := by
  induction n generalizing shared tdata with
  | zero => rfl
  | succ n ih =>
    have mine : OwnTree cfg shared tdata := fun _ => own.symm
    have root : (popShared cfg shared tdata).2.root = (popShared cfg shared tdata).1.root := by
      rw [(popShared_tree mine).1,popShared_root,own]
    have inside : n ≤ (popShared cfg shared tdata).2.stackDepth := by
      rw [popShared_depth]
      omega
    exact (ih (kept.exit mine (by omega)) root inside).trans (popShared_root cfg shared tdata)

theorem LoneThread.threadExit {tid : Nat} (lone : LoneThread cfg rt) (ok : threadExit cfg rt tid = .ok after) :
    Onward cfg rt after ∧ (∀ other, after.threads other = none) ∧ after.reported ≠ [] := by
  unfold Aprof.threadExit at ok
  split at ok
  · cases ok
  · next tdata found =>
    obtain ⟨kept,own⟩ := lone.kept tid tdata found
    have root := unwindShared_contexts kept own (Nat.le_refl _)
    cases ok
    have gone : ∀ other, Function.update rt.threads tid none other = none := by
      intro other
      rw [Function.update_apply]
      split
      · rfl
      · next different =>
        by_contra present
        exact different (lone.lone other tid present (by rw [found]; exact Option.some_ne_none _))
    refine ⟨⟨⟨?_,?_,?_,?_,?_⟩,?_⟩,gone,List.cons_ne_nil _ _⟩
    · intro other tdata' found'
      exact absurd ((gone other).symm.trans found') (Option.some_ne_none _).symm
    · exact root ▸ lone.tree
    · exact root ▸ lone.numbered
    · intro _ nobody
      exact absurd nobody (List.cons_ne_nil _ _)
    · intro first _ here
      exact absurd (gone first) here
    · exact root ▸ .refl _

theorem functionEnter_root (single : cfg.singleReport = true) {shared : Shared} {tdata : ThreadData}
    (own : tdata.root = shared.root) (tree : ContextTree shared.root) {pushed : ThreadData} {sp : UInt64} {f : FnPtr}
    (push : pushFrame cfg tdata sp f = .ok pushed) :
    (Levels.functionEnter cfg shared pushed).2.root = (Levels.functionEnter cfg shared pushed).1.root ∧
      Grows shared.root (Levels.functionEnter cfg shared pushed).1.root := by
  obtain ⟨size,table,next,rfl,-⟩ := pushFrame_ok push
  unfold Levels.functionEnter
  dsimp only
  split
  · exact ⟨own,.refl _⟩
  · split
    · exact ⟨own,.refl _⟩
    · unfold enterShared
      rw [if_pos single]
      exact ⟨rfl,enterRecorded_grows cfg rfl tree⟩

theorem LoneThread.pushStack {sp : UInt64} {f : FnPtr} (lone : LoneThread cfg rt) (collects : cfg.collectCCT = true)
    (single : cfg.singleReport = true) (permitted : ∀ tdata, rt.current = .ok tdata → EntersClean cfg tdata f)
    (ok : pushStack cfg rt sp f = .ok after) : Onward cfg rt after := by
  obtain ⟨tdata,current,ok⟩ := bind_ok.mp ok
  obtain ⟨pushed,push,ok⟩ := bind_ok.mp ok
  have stored := current_ok.mp current
  obtain ⟨kept,own⟩ := lone.kept _ _ stored
  have depth : 0 < pushed.stackDepth := by
    rw [pushFrame_depth push]
    exact Nat.succ_pos _
  obtain ⟨-,shared,-,⟨entered,found,same⟩,others⟩ := functionEnter_control depth ok
  have entering := @ContextsKept.enter cfg tdata kept collects rt.shared (fun _ => own.symm) pushed sp f
    (permitted tdata current) push
  obtain ⟨root,grows⟩ := functionEnter_root single own lone.tree push
  refine lone.put stored found (entering.access same) ?_ ?_ others
  · rw [(control_fields same).root,root,shared]
  · rw [shared]
    exact grows

theorem LoneThread.popStack (lone : LoneThread cfg rt) (ok : popStack cfg rt = .ok after) : Onward cfg rt after := by
  obtain ⟨tdata,current,ok⟩ := bind_ok.mp ok
  obtain ⟨_,nonempty,ok⟩ := bind_ok.mp ok
  cases ok
  have stored := current_ok.mp current
  obtain ⟨kept,own⟩ := lone.kept _ _ stored
  have mine : OwnTree cfg rt.shared tdata := fun _ => own.symm
  refine lone.put stored (Function.update_self ..) (kept.exit mine (by simpa using check_ok.mp nonempty)) ?_ ?_
    fun other different => congrArg _ (Function.update_of_ne different _ _)
  · exact (popShared_tree mine).1.trans (own.trans (popShared_root cfg rt.shared tdata).symm)
  · exact (popShared_root cfg rt.shared tdata).symm ▸ .refl _

theorem LoneThread.step {event : Event} (lone : LoneThread cfg rt) (collects : cfg.collectCCT = true)
    (single : cfg.singleReport = true) (alone : FindsAlone cfg rt event) (ok : step cfg rt event = .ok after) :
    Onward cfg rt after := by
  cases event with
  | threadCreate child => exact lone.threadStart alone ok
  | threadSwitch tid => exact lone.threadSwitch alone ok
  | threadExit tid => exact (lone.threadExit ok).1
  | bbStart =>
    obtain ⟨tdata,current,ok⟩ := bind_ok.mp ok
    cases ok
    have stored := current_ok.mp current
    obtain ⟨kept,own⟩ := lone.kept _ _ stored
    exact lone.put stored (Function.update_self ..)
      (kept.still rfl rfl rfl rfl rfl ⟨fun _ _ => rfl,fun _ _ => rfl⟩) own (.refl _)
      fun other different => congrArg _ (Function.update_of_ne different _ _)
  | functionEnter sp f => exact lone.pushStack collects single alone ok
  | functionExit => exact lone.popStack ok
  | access type addr size =>
    have same := traceAccess_control ok
    exact lone.control same.shared same.reported same.threads
  | postSyscall tid buffers =>
    refine postSyscall_keeps lone.onward ?_ ?_ ?_ ok
    · intro middle _ moved
      exact lone.threadSwitch alone moved
    · intro middle _ counted
      obtain ⟨-,shared,reported,erased⟩ := increaseGlobalCounter_erase counted
      exact lone.control shared reported (control_erased erased)
    · intro middle buffer after onward stored
      have same := kernelStore_control stored
      exact onward.trans (onward.thread.control same.shared same.reported same.threads)

/-- The thread has been reported, and there will be no other one. -/
structure Over (rt : Runtime c) : Prop where
  nobody : ∀ tid, rt.threads tid = none
  reported : rt.reported ≠ []

theorem Over.idle (ended : Over rt) {tdata : ThreadData} : rt.current ≠ .ok tdata := by
  intro current
  have found := current_ok.mp current
  rw [ended.nobody] at found
  cases found

theorem Over.control (ended : Over rt) (reported : after.reported = rt.reported)
    (same : ∀ tid, (after.threads tid).map ThreadData.control = (rt.threads tid).map ThreadData.control) : Over after :=
  ⟨fun tid => (none_iff_control (same tid)).mpr (ended.nobody tid),reported ▸ ended.reported⟩

theorem Over.threadSwitch {tid : Nat} (ended : Over rt) (alone : tid = 0 ∨ StartsAlone rt tid)
    (ok : threadSwitch cfg rt tid = .ok after) : Over after ∧ after.shared = rt.shared := by
  unfold Aprof.threadSwitch at ok
  split at ok
  · cases ok
    exact ⟨ended,rfl⟩
  · dsimp only at ok
    split at ok
    · cases ok
      exact ⟨⟨ended.nobody,ended.reported⟩,rfl⟩
    · next other => exact absurd (alone.resolve_left other (ended.nobody tid)).2 ended.reported

theorem Over.step {event : Event} (ended : Over rt) (alone : FindsAlone cfg rt event)
    (ok : step cfg rt event = .ok after) : Over after ∧ after.shared = rt.shared := by
  cases event with
  | threadCreate child => exact absurd (alone (ended.nobody child)).2 ended.reported
  | threadSwitch tid => exact ended.threadSwitch alone ok
  | threadExit tid =>
    change threadExit cfg rt tid = .ok after at ok
    unfold threadExit at ok
    rw [ended.nobody] at ok
    cases ok
  | postSyscall tid buffers =>
    refine postSyscall_keeps (P := fun middle => Over middle ∧ middle.shared = rt.shared) ⟨ended,rfl⟩ ?_ ?_ ?_ ok
    · intro middle _ moved
      exact ended.threadSwitch alone moved
    · intro middle _ counted
      obtain ⟨-,shared,reported,erased⟩ := increaseGlobalCounter_erase counted
      exact ⟨ended.control reported (control_erased erased),shared⟩
    · intro middle buffer after kept stored
      have same := kernelStore_control stored
      exact ⟨kept.1.control same.reported same.threads,same.shared.trans kept.2⟩
  | bbStart | functionEnter sp f | functionExit | access type addr size =>
    obtain ⟨tdata,current,_⟩ := bind_ok.mp ok
    exact absurd current ended.idle

/-- The runtime with what happens to the shared tree: whether `free_CCT` has been
called on its root, and the reports that have been written of it. -/
structure SingleLog (c : Counter) where
  rt : Runtime c
  freed : Bool
  written : List Shared

/-- The handlers that follow a pointer into the tree. An exit walks it whole. -/
def touchesTree (cfg : Config) (rt : Runtime c) : Event → Bool
  | .functionEnter _ f => match rt.current with
    | .ok tdata => tdata.skip == 0 && !(cfg.fn f).skip && !(cfg.fn f).discard
    | .error _ => false
  | .functionExit => match rt.current with
    | .ok tdata => tdata.skip == 0 && !(cfg.fn tdata.top.routineInfo).discard
    | .error _ => false
  | .threadExit _ => true
  | _ => false

/-- The log after an event that has left `rt`. `thread_exit` writes the report when
the thread is the last one, and then frees the tree whoever is left. -/
def SingleLog.advance (cfg : Config) (log : SingleLog c) (rt : Runtime c) : Event → SingleLog c
  | .threadExit _ =>
    ⟨rt,true,if (log.rt.live cfg).length > 1 then log.written else rt.shared :: log.written⟩
  | _ => {log with rt := rt}

def singleStep (cfg : Config) (log : SingleLog c) (event : Event) : Result (SingleLog c) := do
  if log.freed && touchesTree cfg log.rt event then .error .invalidPointer
  else
    let rt ← step cfg log.rt event
    .ok (log.advance cfg rt event)

def singleRun (cfg : Config) (log : SingleLog c) (events : List Event) : Result (SingleLog c) :=
  events.foldlM (singleStep cfg) log

structure LogStands (cfg : Config) (log : SingleLog c) : Prop where
  lone : LoneThread cfg log.rt
  ended : log.freed = true → Over log.rt
  written : ∀ report ∈ log.written, log.freed = true ∧ report = log.rt.shared

theorem Over.untouched {event : Event} (ended : Over rt) (ok : Aprof.step cfg rt event = .ok after) :
    touchesTree cfg rt event = false ∧ ∀ tid, event ≠ .threadExit tid := by
  have idle : ∃ fault, rt.current = .error fault := by
    cases current : rt.current with
    | error fault => exact ⟨fault,rfl⟩
    | ok tdata => exact absurd current ended.idle
  obtain ⟨fault,idle⟩ := idle
  cases event with
  | threadExit tid =>
    change threadExit cfg rt tid = .ok after at ok
    unfold threadExit at ok
    rw [ended.nobody] at ok
    cases ok
  | functionEnter sp f => exact ⟨by simp only [touchesTree,idle],nofun⟩
  | functionExit => exact ⟨by simp only [touchesTree,idle],nofun⟩
  | threadCreate | threadSwitch | bbStart | access | postSyscall => exact ⟨rfl,nofun⟩

theorem LogStands.step {log : SingleLog c} {event : Event} (stands : LogStands cfg log) (collects : cfg.collectCCT = true)
    (single : cfg.singleReport = true) (alone : FindsAlone cfg log.rt event)
    (ok : Aprof.step cfg log.rt event = .ok after) :
    ∃ log', singleStep cfg log event = .ok log' ∧ log'.rt = after ∧ LogStands cfg log' := by
  have onward := stands.lone.step collects single alone ok
  obtain ⟨rt,freed,written⟩ := log
  have advanced : (freed && touchesTree cfg rt event) = false →
      singleStep cfg ⟨rt,freed,written⟩ event = .ok (SingleLog.advance cfg ⟨rt,freed,written⟩ after event) := by
    intro untouched
    unfold singleStep
    dsimp only at ok ⊢
    rw [untouched,ok]
    rfl
  cases freed with
  | true =>
    have ended := stands.ended rfl
    obtain ⟨untouched,stays⟩ := ended.untouched ok
    obtain ⟨ended',shared⟩ := ended.step alone ok
    have same : SingleLog.advance cfg ⟨rt,true,written⟩ after event = ⟨after,true,written⟩ := by
      cases event with
      | threadExit tid => exact absurd rfl (stays tid)
      | _ => rfl
    refine ⟨⟨after,true,written⟩,same ▸ advanced untouched,rfl,onward.thread,fun _ => ended',fun report member => ⟨rfl,?_⟩⟩
    exact (stands.written report member).2.trans shared.symm
  | false =>
    have none : written = [] := by
      rw [List.eq_nil_iff_forall_not_mem]
      intro report member
      exact Bool.false_ne_true (stands.written report member).1
    subst none
    refine ⟨_,advanced rfl,?_⟩
    cases event with
    | threadExit tid =>
      obtain ⟨-,nobody,reported⟩ := stands.lone.threadExit ok
      refine ⟨rfl,onward.thread,fun _ => ⟨nobody,reported⟩,fun report member => ⟨rfl,?_⟩⟩
      dsimp only [SingleLog.advance] at member
      split at member
      · cases member
      · exact List.mem_singleton.mp member
    | _ => exact ⟨rfl,onward.thread,nofun,nofun⟩

theorem popShared_shared (collects : cfg.collectCCT = true) (single : cfg.singleReport = true) {tdata : ThreadData}
    (keyed : tdata.rtnHt.Keyed)
    (known : (htFind tdata.rtnHt tdata.top.routineInfo fun _ => true).isSome = true) (shared : Shared) {f : FnPtr}
    {tuple : Input UInt64} (member : tuple ∈ ((popShared cfg shared tdata).1.inputMaps f).nodes) :
    tuple ∈ (shared.inputMaps f).nodes ∨ (f = tdata.top.routineInfo ∧ tdata.skip = 0 ∧
      (cfg.fn f).discard = false ∧
      tuple.contextId = (contextOf {tdata with root := shared.root} tdata.top).toUInt64) := by
  have exited : (popShared cfg shared tdata).1.inputMaps f =
      Function.update shared.inputMaps tdata.top.routineInfo
        ((functionExit cfg (attach cfg shared tdata)).routine tdata.top.routineInfo).inputMap f := by
    change (exitShared cfg shared tdata).1.inputMaps f = _
    unfold exitShared attach
    rw [if_pos single,if_pos single]
  rw [exited,Function.update_apply] at member
  split at member
  · next own =>
    subst own
    have attached : attach cfg shared tdata = {tdata.setInputMap tdata.top.routineInfo
        (fun _ => shared.inputMaps tdata.top.routineInfo) with root := shared.root} := if_pos single
    have table : (attach cfg shared tdata).rtnHt = (tdata.setInputMap tdata.top.routineInfo
        fun _ => shared.inputMaps tdata.top.routineInfo).rtnHt := by rw [attached]
    have same : (attach cfg shared tdata).top = tdata.top ∧ (attach cfg shared tdata).skip = tdata.skip ∧
        contextOf (attach cfg shared tdata) tdata.top = contextOf {tdata with root := shared.root} tdata.top := by
      rw [attached]
      exact ⟨rfl,rfl,rfl⟩
    have routine := routine_setInputMap keyed known (fun _ => shared.inputMaps tdata.top.routineInfo)
      tdata.top.routineInfo
    obtain ⟨keyed',known'⟩ := setInputMap_known keyed tdata.top.routineInfo
      fun _ => shared.inputMaps tdata.top.routineInfo
    have found := (known' tdata.top.routineInfo).trans known
    have loaded : (attach cfg shared tdata).routine tdata.top.routineInfo =
        (tdata.setInputMap tdata.top.routineInfo fun _ => shared.inputMaps tdata.top.routineInfo).routine
          tdata.top.routineInfo := by
      rw [ThreadData.routine,table,ThreadData.routine]
    rw [routine,if_pos rfl] at loaded
    rw [← table] at keyed' found
    rw [← same.1] at found
    rcases functionExit_context collects keyed' found member with old | new
    · rw [loaded] at old
      exact Or.inl old
    · rw [same.1,same.2.1,same.2.2] at new
      exact Or.inr new
  · exact Or.inl member

/-- What a single report with contexts promises in the middle of a run: the node of
a recorded activation is at the end of the path of its callers in the shared tree,
a return accumulates into tuples of that context, and the lines stand. -/
structure SingleStands (cfg : Config) (rt : Runtime c) : Prop where
  path : ∀ tid tdata, rt.threads tid = some tdata → ∀ i < tdata.stackDepth, (∀ j ≤ i, skipFlag cfg tdata j = false) →
    (cfg.fn (tdata.stack i).routineInfo).discard = false → ∃ node, (tdata.stack i).node = some node ∧
      ∀ ids, PathTo rt.shared.root node ids ↔ ids = contextIds (slotId cfg tdata) (i + 1)
  tuples : ∀ tid tdata, rt.threads tid = some tdata → 0 < tdata.stackDepth → ∀ f,
    ∀ tuple ∈ ((popShared cfg rt.shared tdata).1.inputMaps f).nodes, tuple ∈ (rt.shared.inputMaps f).nodes ∨
      ∃ node, f = tdata.top.routineInfo ∧
        PathTo rt.shared.root node (contextIds (slotId cfg tdata) tdata.stackDepth) ∧
        tuple.contextId = (cctNode rt.shared.root node).contextId.toUInt64
  lines : LinesStand rt.shared.root

theorem LoneThread.stands (lone : LoneThread cfg rt) (collects : cfg.collectCCT = true)
    (single : cfg.singleReport = true) : SingleStands cfg rt := by
  refine ⟨?_,?_,linesStand lone.tree lone.numbered⟩
  · intro tid tdata found i bound plain recorded
    obtain ⟨kept,own⟩ := lone.kept tid tdata found
    rw [← own]
    exact kept.paths bound plain recorded
  · intro tid tdata found nonempty f tuple member
    obtain ⟨kept,own⟩ := lone.kept tid tdata found
    have known := kept.contexts.registered (tdata.stackDepth - 1) (by omega)
    rcases popShared_shared collects single kept.contexts.keyed known rt.shared member with old | ⟨mine,free,plain,context⟩
    · exact Or.inl old
    · right
      rw [mine] at plain
      obtain ⟨node,stored,path⟩ := kept.returning nonempty free plain
      rw [own] at path
      refine ⟨node,mine,path,?_⟩
      rw [context,contextOf,stored]

theorem LoneThread.initial (created : initial c cfg = .ok rt) : LoneThread cfg rt := by
  obtain ⟨global,_,ok⟩ := bind_ok.mp created
  cases ok
  have started : ContextsKept cfg (newThread cfg 0 blankTable) := .fresh _ _
  exact ⟨nofun,started.contexts.tree,started.contexts.ids,fun _ _ => rfl,fun _ _ here => absurd rfl here⟩

theorem LoneThread.run {events : List Event} (lone : LoneThread cfg rt) (collects : cfg.collectCCT = true)
    (single : cfg.singleReport = true) (along : Along cfg (FindsAlone cfg) rt events)
    (ok : run cfg rt events = .ok after) : Onward cfg rt after := by
  induction events generalizing rt with
  | nil =>
    cases ok
    exact lone.onward
  | cons event events ih =>
    obtain ⟨middle,first,ok⟩ := bind_ok.mp ok
    have onward := lone.step collects single along.1 first
    exact onward.trans (ih onward.thread (along.2 middle first) ok)

theorem LogStands.run {events : List Event} {log : SingleLog c} (stands : LogStands cfg log)
    (collects : cfg.collectCCT = true) (single : cfg.singleReport = true)
    (along : Along cfg (FindsAlone cfg) log.rt events) (ok : Aprof.run cfg log.rt events = .ok after) :
    ∃ log', singleRun cfg log events = .ok log' ∧ log'.rt = after ∧ LogStands cfg log' := by
  induction events generalizing log with
  | nil =>
    cases ok
    exact ⟨log,rfl,rfl,stands⟩
  | cons event events ih =>
    obtain ⟨middle,first,ok⟩ := bind_ok.mp ok
    obtain ⟨log',stepped,rfl,stands'⟩ := stands.step collects single along.1 first
    obtain ⟨log'',rest,same,stands''⟩ := ih stands' (along.2 _ first) ok
    exact ⟨log'',bind_ok.mpr ⟨log',stepped,rest⟩,same,stands''⟩

end

/-- In a run that starts no thread after another one and calls with clean slots, the
contexts of the single report stand for the calls, none of them is lost, no
handler reaches a node that has been freed, and what is written is the whole of it. -/
theorem single_log_contexts {cfg : Config} (collects : cfg.collectCCT = true) (single : cfg.singleReport = true)
    {c : Counter} {first middle rt : Runtime c} {before after : List Event} (created : initial c cfg = .ok first)
    (along : Along cfg (FindsAlone cfg) first before) (ran : run cfg first before = .ok middle)
    (along' : Along cfg (FindsAlone cfg) middle after) (ran' : run cfg middle after = .ok rt) :
    SingleStands cfg middle ∧ Grows middle.shared.root rt.shared.root ∧
      ∃ log, singleRun cfg ⟨first,false,[]⟩ (before ++ after) = .ok log ∧ log.rt = rt ∧
        (log.freed = true → ∀ tid, rt.threads tid = none) ∧
        ∀ report ∈ log.written, report = rt.shared ∧ LinesStand report.root := by
  have lone : LoneThread cfg first := .initial created
  have onward := lone.run collects single along ran
  have onward' := onward.thread.run collects single along' ran'
  refine ⟨onward.thread.stands collects single,onward'.grows,?_⟩
  have stands : LogStands cfg (⟨first,false,[]⟩ : SingleLog c) := ⟨lone,nofun,nofun⟩
  obtain ⟨log,logged,rfl,stands⟩ := stands.run collects single along ran
  obtain ⟨log',logged',rfl,stands'⟩ := stands.run collects single along' ran'
  refine ⟨log',?_,rfl,fun freed => (stands'.ended freed).nobody,fun report member => ?_⟩
  · unfold singleRun
    rw [List.foldlM_append]
    exact bind_ok.mpr ⟨log,logged,logged'⟩
  · obtain ⟨-,rfl⟩ := stands'.written report member
    exact ⟨rfl,(onward'.thread.stands collects single).lines⟩

/-- The test at the end of `cmd_line`. Its message names `--single-log`. -/
def cmdLine (cfg : Config) : Bool := !(cfg.incrementalReport && cfg.collectCCT)

/-- A single report with contexts, whose functions have their numbers for ids; function 1 is discarded. -/
def singleLogConfig : Config :=
  {smallConfig .rms with
    collectCCT := true
    singleReport := true
    fn := fun f => {plainFunction false with functionId := UInt64.ofNat f, discard := f == 1}}

/-- Function 7 calls function 8 through a discarded one. -/
def nestedCalls : List Event := [.functionEnter 100 7,.functionEnter 96 1,.functionEnter 92 8,.functionExit]

theorem single_log_contexts_nested_calls : ∃ (first middle rt : Runtime .wrapping) (log : SingleLog .wrapping),
    initial .wrapping singleLogConfig = .ok first ∧ run singleLogConfig first (.threadSwitch 1 :: nestedCalls) = .ok middle ∧
    run singleLogConfig middle [.functionExit,.functionExit,.threadExit 1] = .ok rt ∧ SingleStands singleLogConfig middle ∧
    singleRun singleLogConfig ⟨first,false,[]⟩ (.threadSwitch 1 :: nestedCalls ++ [.functionExit,.functionExit,.threadExit 1]) = .ok log ∧
    (log.written.map fun report => contextLines report.root) = [[⟨7,1,0⟩,⟨8,2,1⟩]] := by
  have state : ∃ first, initial .wrapping singleLogConfig = .ok first ∧
      ∃ second, step singleLogConfig first (.threadSwitch 1) = .ok second ∧
      Along singleLogConfig (Permits (EntersClean singleLogConfig)) second nestedCalls ∧
      ∃ middle, run singleLogConfig second nestedCalls = .ok middle ∧
      ∃ rt, run singleLogConfig middle [.functionExit,.functionExit,.threadExit 1] = .ok rt ∧
      ∃ log, singleRun singleLogConfig ⟨first,false,[]⟩
        (.threadSwitch 1 :: nestedCalls ++ [.functionExit,.functionExit,.threadExit 1]) = .ok log ∧
        (log.written.map fun report => contextLines report.root) = [[⟨7,1,0⟩,⟨8,2,1⟩]] := by
    decide +kernel
  obtain ⟨first,created,second,switched,permitted,middle,ran,rt,ran',log,logged,lines⟩ := state
  have alone : FindsAlone singleLogConfig first (.threadSwitch 1) := by
    obtain ⟨global,-,ok⟩ := bind_ok.mp created
    cases ok
    exact .inr fun _ => ⟨fun _ => rfl,rfl⟩
  have calls : ∀ event ∈ nestedCalls, ∀ rt : Runtime .wrapping,
      Permits (EntersClean singleLogConfig) rt event → FindsAlone singleLogConfig rt event := by
    have each : ∀ event ∈ nestedCalls, event = .functionExit ∨ ∃ sp f, event = .functionEnter sp f := by
      simp [nestedCalls]
    intro event inside rt permits
    rcases each event inside with rfl | ⟨sp,f,rfl⟩
    · trivial
    · exact permits
  have run : run singleLogConfig first (.threadSwitch 1 :: nestedCalls) = .ok middle := by
    rw [Aprof.run,List.foldlM_cons,switched]
    exact ran
  have stands := (@single_log_contexts singleLogConfig rfl rfl _ first middle rt _ [.functionExit,.functionExit,.threadExit 1] created
    (.cons alone switched (.imp _ calls permitted)) run ⟨trivial,fun _ _ => ⟨trivial,fun _ _ => ⟨trivial,fun _ _ => trivial⟩⟩⟩ ran').1
  exact ⟨first,middle,rt,log,created,run,ran',stands,logged,lines⟩

/-- Two threads with a context each: both are number 1, and the first exit frees
the tree that the last one prints. -/
theorem second_thread_breaks_contexts : cmdLine singleLogConfig = true ∧ ∃ (first middle rt : Runtime .wrapping),
    initial .wrapping singleLogConfig = .ok first ∧
    run singleLogConfig first [.threadSwitch 1,.functionEnter 100 7,.threadSwitch 2,.functionEnter 100 8] = .ok middle ∧
    run singleLogConfig middle [.threadExit 2,.threadExit 1] = .ok rt ∧
    contextLines middle.shared.root = [⟨8,1,0⟩,⟨7,1,0⟩] ∧ ¬ SingleStands singleLogConfig middle ∧
    singleRun singleLogConfig ⟨first,false,[]⟩ [.threadSwitch 1,.functionEnter 100 7,.threadSwitch 2,
      .functionEnter 100 8,.threadExit 2,.threadExit 1] = .error .invalidPointer := by
  have state : ∃ (first middle rt : Runtime .wrapping), initial .wrapping singleLogConfig = .ok first ∧
      run singleLogConfig first [.threadSwitch 1,.functionEnter 100 7,.threadSwitch 2,.functionEnter 100 8] = .ok middle ∧
      run singleLogConfig middle [.threadExit 2,.threadExit 1] = .ok rt ∧
      contextLines middle.shared.root = [⟨8,1,0⟩,⟨7,1,0⟩] ∧
      singleRun singleLogConfig ⟨first,false,[]⟩ [.threadSwitch 1,.functionEnter 100 7,.threadSwitch 2,
        .functionEnter 100 8,.threadExit 2,.threadExit 1] = .error .invalidPointer :=
    ⟨_,_,_,rfl,rfl,rfl,by decide,rfl⟩
  obtain ⟨first,middle,rt,created,ran,ran',lines,broken⟩ := state
  refine ⟨rfl,first,middle,rt,created,ran,ran',lines,?_,broken⟩
  intro stands
  have distinct := stands.lines.distinct
  rw [lines] at distinct
  exact absurd distinct (by decide)

end Aprof
