import Aprof.Activations
import Aprof.DrmsRefinement
import Aprof.Twins

/-! When the overflows of the DRMS counter leave no trace: no skipped call holds a
stale id when the counter is full, and no read meets a renumbered timestamp of a
granule that was never written. -/
namespace Aprof

open Lockstep Levels

def everWritten (past : List Touch) (g : Nat) : Bool := past.any fun x => x.granule = g ∧ x.writes

theorem everWritten_append (past : List Touch) (x : Touch) (g : Nat) :
    everWritten (past ++ [x]) g = (everWritten past g || decide (x.granule = g ∧ x.writes)) := by
  simp [everWritten,List.any_append]

def Written (past : List Touch) (levels : LevelRuntime) : Prop := ∀ g, levels.written g = everWritten past g

section
variable {cfg : Config} {past : List Touch} {levels after : LevelRuntime}

theorem Written.touched (drms : cfg.inputMetric ≠ .rms) (written : Written past levels) {x : Touch}
    (touched : Touched cfg levels x after) : Written (past ++ [x]) after := by
  intro h
  rw [everWritten_append,← written h]
  cases touched with
  | rms metric tid g type th found recorded => exact absurd metric drms
  | kernel _ g =>
    simp only [mark,Function.update_apply,Touch.writes,eq_comm (a := h)]
    by_cases same : g = h
    · simp [same]
    · simp [same]
  | drms _ author g type th found recorded =>
    rcases eq_or_ne type .load with load | write
    · simp [load,LevelRuntime.put,Touch.writes]
    · simp only [LevelRuntime.put,if_neg write,mark,Function.update_apply,Touch.writes,eq_comm (a := h)]
      by_cases same : g = h
      · simp [same,write]
      · simp [same]

theorem Written.step (drms : cfg.inputMetric ≠ .rms) (written : Written past levels) {event : Event}
    (ok : Levels.step cfg levels event = .ok after) :
    Written (past ++ touchesOf cfg levels.cores levels.currentTid event) after := by
  apply step_keeps (P := Written) (Q := fun _ => True) (A := fun _ => True) (fun _ _ _ _ => trivial)
    (fun _ => trivial) ?_ ?_ written trivial ok trivial
  · intro past levels event after written quiet _ ok _ g
    rw [(quietStep quiet ok).1]
    exact written g
  · intro past levels x after written touched
    exact written.touched drms touched

end

section
variable {c : Counter} {cfg : Config}

theorem run_append (rt : Runtime c) (past : List Event) (event : Event) :
    run cfg rt (past ++ [event]) = run cfg rt past >>= fun rt => step cfg rt event := by
  simp [run,List.foldlM_append]

theorem history_append {rt last : Runtime c} {past : List Event} (ok : run cfg rt past = .ok last) (event : Event) :
    history cfg rt (past ++ [event]) = history cfg rt past ++ touchesOf cfg last.threads last.currentTid event := by
  induction past generalizing rt with
  | nil =>
    cases ok
    simp only [List.nil_append,history]
    cases step cfg last event <;> exact List.append_nil _
  | cons first past ih =>
    obtain ⟨middle,taken,rest⟩ := bind_ok.mp ok
    simp only [List.cons_append,history,taken,ih rest,List.append_assoc]

/-- Every step is taken where an overflow leaves no trace. -/
def Unnoticed (cfg : Config) (first : Runtime c) (events : List Event) : Prop :=
  ∀ past event rest, events = past ++ event :: rest → ∀ rt, run cfg first past = .ok rt →
    rt.Followable cfg False (everWritten (history cfg first past)) event

theorem Unnoticed.init {first : Runtime c} {past : List Event} {event : Event}
    (unnoticed : Unnoticed cfg first (past ++ [event])) : Unnoticed cfg first past := by
  intro before event' rest split
  apply unnoticed before event' (rest ++ [event])
  rw [split,List.append_assoc,List.cons_append]

theorem drms_run (drms : cfg.inputMetric = .drms) {first : Runtime c} {levels : LevelRuntime}
    (start : DrmsFollows c cfg False first levels) (never : Written [] levels) (events : List Event)
    (unnoticed : Unnoticed cfg first events) :
    Matches (fun rt levels => DrmsFollows c cfg False rt levels ∧ Written (history cfg first events) levels)
      (run cfg first events) (Levels.run cfg levels events) := by
  have metric : cfg.inputMetric ≠ .rms := by simp [drms]
  induction events using List.reverseRecOn with
  | nil => exact ⟨start,never⟩
  | append_singleton past event ih =>
    have split : Levels.run cfg levels (past ++ [event]) =
        Levels.run cfg levels past >>= fun levels => Levels.step cfg levels event := by
      simp [Levels.run,List.foldlM_append]
    rw [run_append,split]
    apply (ih unnoticed.init).bind
    rintro rt levels' ok ⟨follows,written⟩
    have followable := unnoticed past event [] rfl rt ok
    rw [← funext written] at followable
    apply (DrmsFollows.step drms follows event followable).mono
    intro rt' levels'' _ taken follows'
    refine ⟨follows',?_⟩
    rw [history_append ok event,← touchesOf_related follows.related event]
    exact written.step metric taken

theorem drms_run_unbounded (drms : cfg.inputMetric = .drms) {first : Runtime .unbounded} {levels : LevelRuntime}
    (start : DrmsFollows .unbounded cfg True first levels) (events : List Event) :
    Matches (DrmsFollows .unbounded cfg True) (run cfg first events) (Levels.run cfg levels events) := by
  apply Matches.foldlM ?_ events first levels start
  intro rt levels event follows
  apply DrmsFollows.step drms follows event
  refine ⟨fun _ full => Bool.noConfusion full,?_⟩
  intro type addr size _
  exact follows.readable type addr size

/-- Where overflows go unnoticed, both runs fail or both end with the same profile. -/
theorem drms_overflow_invisible (drms : cfg.inputMetric = .drms) (events : List Event)
    {first : Runtime .wrapping} {first' : Runtime .unbounded} (created : initial .wrapping cfg = .ok first)
    (created' : initial .unbounded cfg = .ok first') (unnoticed : Unnoticed cfg first events) :
    Matches Twins (run cfg first events) (run cfg first' events) := by
  obtain ⟨rt,ok,start⟩ := drms_initial .wrapping cfg False
  obtain ⟨rt',ok',start'⟩ := drms_initial .unbounded cfg True
  rw [created] at ok
  rw [created'] at ok'
  cases ok
  cases ok'
  have bounded := drms_run drms start (fun _ => rfl) events unnoticed
  have unbounded := drms_run_unbounded drms start' events
  apply (bounded.join unbounded).mono
  rintro rt rt' _ _ ⟨levels,⟨follows,_⟩,follows'⟩
  exact follows.related.twins follows'.related

theorem step_syscall (drms : cfg.inputMetric = .drms) {rt : Runtime c} {tid : Nat} (current : rt.currentTid = tid) :
    step cfg rt (.postSyscall tid []) = increaseGlobalCounter cfg rt := by
  subst current
  simp only [step,postSyscall,drms,if_true,ne_eq,not_true_eq_false,if_false,List.foldlM_nil]
  cases increaseGlobalCounter cfg rt <;> rfl

theorem run_syscalls (drms : cfg.inputMetric = .drms) (rt : Runtime c) (n : Nat)
    (room : ∀ k, k < n → c.full (rt.globalCounter + k + 1) = false) :
    run cfg rt (List.replicate n (.postSyscall rt.currentTid [])) =
      .ok {rt with globalCounter := rt.globalCounter + n} := by
  induction n with
  | zero => rfl
  | succ n ih =>
    rw [List.replicate_succ',run_append,ih fun k less => room k (Nat.lt_succ_of_lt less),ok_bind]
    have moved := @step_syscall c cfg drms {rt with globalCounter := rt.globalCounter + n} rt.currentTid rfl
    have free := room n (Nat.lt_succ_self n)
    simp only [moved,increaseGlobalCounter,free,Bool.false_eq_true,if_false]
    rfl

theorem Unnoticed.nil {first : Runtime c} : Unnoticed cfg first [] := by
  intro past event rest split
  cases past <;> cases split

theorem Unnoticed.snoc {first : Runtime c} {past : List Event} {event : Event} (unnoticed : Unnoticed cfg first past)
    (last : ∀ rt, run cfg first past = .ok rt → rt.Followable cfg False (everWritten (history cfg first past)) event) :
    Unnoticed cfg first (past ++ [event]) := by
  intro before other rest split
  rcases List.eq_nil_or_concat rest with rfl | ⟨front,final,rfl⟩
  · obtain ⟨rfl,same⟩ := List.append_inj' split rfl
    cases same
    exact last
  · rw [List.concat_eq_append,← List.cons_append,← List.append_assoc] at split
    obtain ⟨same,-⟩ := List.append_inj' split rfl
    exact unnoticed before other front same

theorem Runtime.followable {rt : Runtime c} {written : Nat → Bool} {event : Event}
    (room : c.full (rt.globalCounter + 1) = false)
    (readable : ∀ type addr size, event = .access type addr size → rt.Readable cfg written type addr size) :
    rt.Followable cfg False written event := by
  refine ⟨fun _ full => ?_,readable⟩
  rw [room] at full
  cases full

theorem Unnoticed.quiet {first rt : Runtime c} {past : List Event} (unnoticed : Unnoticed cfg first past) (event : Event)
    (ran : run cfg first past = .ok rt) (room : c.full (rt.globalCounter + 1) = false)
    (plain : ∀ type addr size, event ≠ .access type addr size) : Unnoticed cfg first (past ++ [event]) := by
  refine unnoticed.snoc fun rt' ran' => ?_
  cases ran.symm.trans ran'
  exact Runtime.followable room fun type addr size same => absurd same (plain type addr size)

theorem Unnoticed.syscalls (drms : cfg.inputMetric = .drms) {first rt : Runtime c} {past : List Event} {tid : Nat} (n : Nat)
    (unnoticed : Unnoticed cfg first past) (ok : run cfg first past = .ok rt) (current : rt.currentTid = tid)
    (room : ∀ k, k < n → c.full (rt.globalCounter + k + 1) = false) :
    Unnoticed cfg first (past ++ List.replicate n (.postSyscall tid [])) := by
  subst current
  induction n with
  | zero => simpa using unnoticed
  | succ n ih =>
    rw [List.replicate_succ',← List.append_assoc]
    refine (ih fun k less => room k (Nat.lt_succ_of_lt less)).snoc fun rt' reached => ?_
    have calls := run_syscalls drms rt n fun k less => room k (Nat.lt_succ_of_lt less)
    have joined : run cfg first (past ++ List.replicate n (.postSyscall rt.currentTid [])) =
        .ok {rt with globalCounter := rt.globalCounter + n} := by
      rw [run,List.foldlM_append]
      change (run cfg first past >>= fun rt => run cfg rt _) = _
      rw [ok,ok_bind,calls]
    rw [joined] at reached
    cases reached
    exact Runtime.followable (room n (Nat.lt_succ_self n)) nofun

theorem overflow_counter {rt after : Runtime c} (full : c.full (rt.globalCounter + 1) = true)
    (ok : increaseGlobalCounter cfg rt = .ok after) : after.globalCounter = 3 * (rt.pendingFrames cfg + 2) := by
  unfold increaseGlobalCounter at ok
  dsimp only at ok
  rw [if_pos full] at ok
  obtain ⟨⟨counter,middle⟩,handled,ok⟩ := bind_ok.mp ok
  cases ok
  unfold overflowHandler at handled
  obtain ⟨⟨_,_,_⟩,merged,same⟩ := bind_ok.mp handled
  cases same
  unfold overflowHandlerDrms at merged
  obtain ⟨⟨_,_⟩,-,compressed⟩ := bind_ok.mp merged
  obtain ⟨⟨_,_⟩,-,same⟩ := bind_ok.mp compressed
  cases same
  rfl

theorem run_snoc {first after : Runtime c} {past : List Event} {event : Event} (ok : run cfg first (past ++ [event]) = .ok after) :
    ∃ rt, run cfg first past = .ok rt ∧ step cfg rt event = .ok after := by
  rw [run_append] at ok
  exact bind_ok.mp ok

theorem history_before (first : Runtime c) (past later : List Event) :
    history cfg first past <+: history cfg first (past ++ later) := by
  induction past generalizing first with
  | nil => exact List.nil_prefix
  | cons event past ih =>
    rw [List.cons_append,history,history]
    apply (List.prefix_append_right_inj _).mpr
    cases step cfg first event with
    | error fault => exact List.prefix_refl _
    | ok rt => exact ih rt

theorem everWritten_later {first : Runtime c} {past later : List Event} {g : Nat} (front : past <+: later)
    (written : everWritten (history cfg first past) g = true) : everWritten (history cfg first later) g = true := by
  obtain ⟨rest,rfl⟩ := front
  obtain ⟨x,member,writes⟩ := List.any_eq_true.mp written
  exact List.any_eq_true.mpr ⟨x,(history_before first past rest).subset member,writes⟩

/-- Two threads with three calls pending, and a granule that the first one has written. -/
def busyStart : List Event :=
  [.threadSwitch 1,.functionEnter 0 0,.functionEnter 0 0,.access .store 8 1,.threadSwitch 2,.functionEnter 0 0,.threadSwitch 1]

def busyFull : List Event := busyStart ++ List.replicate (2 ^ 31 - 8) (.postSyscall 1 [])

/-- The granule is read by both threads behind the overflow, and their calls return. -/
def busyOverflow : List Event :=
  busyFull ++ [.postSyscall 1 []] ++ [.access .load 8 1] ++ [.functionExit] ++ [.threadSwitch 2] ++ [.access .load 8 1] ++
    [.functionExit]

/-- What the witness needs of the state behind `busyStart`. -/
structure Busy (first rt : Runtime c) : Prop where
  ran : run (smallConfig .drms) first busyStart = .ok rt
  tid : rt.currentTid = 1
  counter : rt.globalCounter = 7
  pending : rt.pendingFrames (smallConfig .drms) = 3
  recorded : ∀ tid tdata, rt.threads tid = some tdata → tdata.skip = 0
  written : everWritten (history (smallConfig .drms) first busyStart) 8 = true

theorem busy_recorded {threads : Nat → Option ThreadData} {one two : ThreadData} (first : threads 1 = some one)
    (second : threads 2 = some two) (others : ∀ tid, tid ≠ 1 → tid ≠ 2 → threads tid = none) (plain : one.skip = 0)
    (plain' : two.skip = 0) (tid : Nat) (tdata : ThreadData) (found : threads tid = some tdata) : tdata.skip = 0 := by
  by_cases own : tid = 1
  · subst own
    cases first.symm.trans found
    exact plain
  · by_cases other : tid = 2
    · subst other
      cases second.symm.trans found
      exact plain'
    · rw [others tid own other] at found
      cases found

theorem busyStart_unnoticed {first : Runtime .wrapping} (created : initial .wrapping (smallConfig .drms) = .ok first) :
    Unnoticed (smallConfig .drms) first busyStart := by
  have stored : ∀ {rt : Runtime .wrapping} {written : Nat → Bool} {addr size : Nat},
      rt.Followable (smallConfig .drms) False written (.access .store addr size) := by
    intro rt written addr size
    refine ⟨False.elim,fun type addr size same => ?_⟩
    cases same
    exact fun _ _ _ loads => absurd rfl loads
  have never : Unnoticed (smallConfig .drms) first [] := .nil
  cases created
  have switched := never.quiet (.threadSwitch 1) rfl rfl nofun
  have called := switched.quiet (.functionEnter 0 0) rfl rfl nofun
  have called' := called.quiet (.functionEnter 0 0) rfl rfl nofun
  have wrote := called'.snoc fun _ _ => @stored _ _ 8 1
  have switched' := wrote.quiet (.threadSwitch 2) rfl rfl nofun
  have called'' := switched'.quiet (.functionEnter 0 0) rfl rfl nofun
  exact called''.quiet (.threadSwitch 1) rfl rfl nofun

theorem Busy.full {first rt : Runtime c} (busy : Busy first rt) (room : ∀ k, k < 2 ^ 31 - 8 → c.full (7 + k + 1) = false) :
    run (smallConfig .drms) first busyFull = .ok {rt with globalCounter := 2 ^ 31 - 1} := by
  have metric : (smallConfig .drms).inputMetric = .drms := rfl
  have calls := run_syscalls metric rt (2 ^ 31 - 8) (busy.counter.symm ▸ room)
  have reached : rt.globalCounter + (2 ^ 31 - 8) = 2 ^ 31 - 1 := by
    rw [busy.counter]
    norm_num
  rw [busy.tid,reached] at calls
  rw [busyFull,run,List.foldlM_append]
  change (run (smallConfig .drms) first _ >>= fun rt => run (smallConfig .drms) rt _) = _
  rw [busy.ran,ok_bind,calls,busy.tid]

theorem busy_room (k : Nat) (below : k < 2 ^ 31 - 8) : Counter.wrapping.full (7 + k + 1) = false := by
  simp only [Counter.full,maxCountVal,beq_eq_false_iff_ne]
  omega

theorem Busy.unnoticed {first rt : Runtime .wrapping} (created : initial .wrapping (smallConfig .drms) = .ok first)
    (busy : Busy first rt) : Unnoticed (smallConfig .drms) first busyOverflow := by
  have metric : (smallConfig .drms).inputMetric = .drms := rfl
  have filled := busy.full busy_room
  have full : Counter.wrapping.full (2 ^ 31 - 1 + 1) = true := rfl
  have start : Unnoticed (smallConfig .drms) first busyFull :=
    (busyStart_unnoticed created).syscalls metric _ busy.ran busy.tid (busy.counter.symm ▸ busy_room)
  have ticked := start.snoc fun rt' reached => by
    cases filled.symm.trans reached
    have orderly : Runtime.Orderly (smallConfig .drms) {rt with globalCounter := 2 ^ 31 - 1} := .inl busy.recorded
    have small : 3 * (rt.pendingFrames (smallConfig .drms) + 2) < 2 ^ 31 := by
      rw [busy.pending]
      decide
    exact (⟨fun _ _ => ⟨not_false,orderly,small⟩,nofun⟩ :
      Runtime.Followable (smallConfig .drms) False (everWritten _) {rt with globalCounter := 2 ^ 31 - 1} (.postSyscall 1 []))
  have readable : ∀ {later : List Event} {rt' : Runtime .wrapping}, busyStart <+: later → rt'.Followable (smallConfig .drms) False
      (everWritten (history (smallConfig .drms) first later)) (.access .load 8 1) := by
    intro later rt' front
    refine ⟨False.elim,fun type addr size same tdata _ _ _ a member never => ?_⟩
    cases same
    cases List.mem_singleton.mp member
    have clash : true = false := (everWritten_later front busy.written).symm.trans never
    cases clash
  have front : busyStart <+: busyFull := List.prefix_append _ _
  have counted := front.trans (List.prefix_append busyFull [.postSyscall 1 []])
  have read := ticked.snoc fun _ _ => readable counted
  have returned : Unnoticed (smallConfig .drms) first (busyFull ++ [.postSyscall 1 []] ++ [.access .load 8 1] ++ [.functionExit]) :=
    read.snoc fun _ _ => ⟨False.elim,nofun⟩
  have moved : Unnoticed (smallConfig .drms) first
      (busyFull ++ [.postSyscall 1 []] ++ [.access .load 8 1] ++ [.functionExit] ++ [.threadSwitch 2]) := by
    refine returned.snoc fun rt₃ reached => ?_
    obtain ⟨rt₂,reached,popped⟩ := run_snoc reached
    obtain ⟨rt₁,reached,accessed⟩ := run_snoc reached
    obtain ⟨rt₀,reached,overflowed⟩ := run_snoc reached
    cases filled.symm.trans reached
    have current : ({rt with globalCounter := 2 ^ 31 - 1} : Runtime .wrapping).currentTid = 1 := busy.tid
    rw [step_syscall metric current] at overflowed
    have low : rt₁.globalCounter = 3 * (rt.pendingFrames (smallConfig .drms) + 2) :=
      @overflow_counter .wrapping _ {rt with globalCounter := 2 ^ 31 - 1} rt₁ full overflowed
    have loaded : traceAccess (smallConfig .drms) rt₁ .load 8 1 false = .ok rt₂ := accessed
    have exited : popStack (smallConfig .drms) rt₂ = .ok rt₃ := popped
    rw [busy.pending,← traceAccess_counter loaded,← popStack_counter exited] at low
    refine Runtime.followable ?_ nofun
    rw [low]
    rfl
  have read' := moved.snoc fun _ _ => readable (((counted.trans (List.prefix_append _ _)).trans
    (List.prefix_append _ _)).trans (List.prefix_append _ _))
  exact read'.snoc fun _ _ => ⟨False.elim,nofun⟩

def busyEnd : List Event :=
  [.postSyscall 1 [],.access .load 8 1,.functionExit,.threadSwitch 2,.access .load 8 1,.functionExit]

theorem busyOverflow_eq : busyOverflow = busyFull ++ busyEnd := by
  simp only [busyOverflow,busyEnd,List.append_assoc,List.cons_append,List.nil_append]

theorem Busy.overflow {first rt : Runtime c} (busy : Busy first rt) (room : ∀ k, k < 2 ^ 31 - 8 → c.full (7 + k + 1) = false) :
    run (smallConfig .drms) first busyOverflow = run (smallConfig .drms) {rt with globalCounter := 2 ^ 31 - 1} busyEnd := by
  rw [busyOverflow_eq,run,List.foldlM_append]
  change (run (smallConfig .drms) first _ >>= fun rt => run (smallConfig .drms) rt _) = _
  rw [busy.full room,ok_bind]

theorem busy_wrapping : ∃ (first rt : Runtime .wrapping), initial .wrapping (smallConfig .drms) = .ok first ∧ Busy first rt := by
  refine ⟨_,_,rfl,rfl,rfl,rfl,rfl,busy_recorded rfl rfl (fun tid first second => ?_) rfl rfl,rfl⟩
  simp [Runtime.put,first,second]

/-- The handler runs in the middle, with three activations of two threads pending. Behind
it thread 2 reads what thread 1 has written, which is counted as in the unbounded run. -/
theorem drms_overflow_busy : ∃ (first rt before : Runtime .wrapping) (first' rt' : Runtime .unbounded),
    initial .wrapping (smallConfig .drms) = .ok first ∧ initial .unbounded (smallConfig .drms) = .ok first' ∧
    run (smallConfig .drms) first busyFull = .ok before ∧ Counter.wrapping.full (before.globalCounter + 1) = true ∧
    run (smallConfig .drms) first busyOverflow = .ok rt ∧ run (smallConfig .drms) first' busyOverflow = .ok rt' ∧
    Twins rt rt' ∧ ∃ tdata tuple, rt'.threads 2 = some tdata ∧
      htFind (tdata.routine 0).inputMap 1 (fun _ => true) = some tuple ∧ tuple.calls = 1 ∧ tuple.sumCumulThread = 1 := by
  obtain ⟨first,middle,created,busy⟩ := busy_wrapping
  obtain ⟨first',middle',last,tdata,tuple,created',busy',ran,found,kept,calls,induced⟩ :
      ∃ (first rt last : Runtime .unbounded) (tdata : ThreadData) (tuple : Input UInt64),
        initial .unbounded (smallConfig .drms) = .ok first ∧ Busy first rt ∧
        run (smallConfig .drms) {rt with globalCounter := 2 ^ 31 - 1} busyEnd = .ok last ∧ last.threads 2 = some tdata ∧
        htFind (tdata.routine 0).inputMap 1 (fun _ => true) = some tuple ∧ tuple.calls = 1 ∧ tuple.sumCumulThread = 1 := by
    refine ⟨_,_,_,_,_,rfl,⟨rfl,rfl,rfl,rfl,busy_recorded rfl rfl (fun tid first second => ?_) rfl rfl,rfl⟩,rfl,rfl,rfl,rfl,rfl⟩
    simp [Runtime.put,first,second]
  have matched := drms_overflow_invisible rfl busyOverflow created created' (busy.unnoticed created)
  rw [busy'.overflow fun _ _ => rfl,ran] at matched
  cases reached : run (smallConfig .drms) first busyOverflow with
  | error fault =>
    rw [reached] at matched
    exact matched.elim
  | ok rt =>
    rw [reached] at matched
    refine ⟨first,rt,_,first',last,created,created',busy.full busy_room,rfl,reached,
      (busy'.overflow fun _ _ => rfl).trans ran,matched,tdata,tuple,found,kept,calls,induced⟩

/-- A call of the skipped function, and system calls until the counter is full. -/
def hiddenOverflow : List Event :=
  [.threadSwitch 1,.functionEnter 0 1] ++ List.replicate (2 ^ 31 - 2) (.postSyscall 1 [])

/-- The skipped call never got an id: the handler finds none to renumber and
follows a null pointer. -/
theorem drms_overflow_hidden : ∃ (first : Runtime .wrapping) (first' : Runtime .unbounded),
    initial .wrapping (smallConfig .drms) = .ok first ∧ initial .unbounded (smallConfig .drms) = .ok first' ∧
    ¬ Matches Twins (run (smallConfig .drms) first hiddenOverflow) (run (smallConfig .drms) first' hiddenOverflow) := by
  have opened : ∀ c, ∃ (first rt : Runtime c), initial c (smallConfig .drms) = .ok first ∧
      run (smallConfig .drms) first [.threadSwitch 1,.functionEnter 0 1] = .ok rt ∧ rt.currentTid = 1 ∧
      rt.globalCounter = 2 ∧ ∀ counter, overflowHandler (smallConfig .drms) {rt with
        currentTid := 1, globalCounter := counter} = .error .invalidPointer := by
    intro c
    cases c
    · exact ⟨_,_,rfl,rfl,rfl,rfl,fun _ => rfl⟩
    · exact ⟨_,_,rfl,rfl,rfl,rfl,fun _ => rfl⟩
  have metric : (smallConfig .drms).inputMetric = .drms := rfl
  obtain ⟨first,rt,created,ok,tid,counter,handler⟩ := opened .wrapping
  obtain ⟨first',rt',created',ok',tid',counter',_⟩ := opened .unbounded
  refine ⟨first,first',created,created',?_⟩
  have fails : run (smallConfig .drms) first hiddenOverflow = .error .invalidPointer := by
    have calls := run_syscalls metric rt (2 ^ 31 - 3) fun k less => by
      simp only [Counter.full,maxCountVal,counter,beq_eq_false_iff_ne]
      omega
    rw [tid] at calls
    have full : Counter.wrapping.full (rt.globalCounter + (2 ^ 31 - 3) + 1) = true := by
      rw [counter]
      rfl
    have last : 2 ^ 31 - 2 = (2 ^ 31 - 3) + 1 := by norm_num
    rw [hiddenOverflow,run,List.foldlM_append]
    change (run (smallConfig .drms) first _ >>= fun rt => run (smallConfig .drms) rt _) = _
    rw [ok,ok_bind,last,List.replicate_succ',run_append,calls,ok_bind]
    have moved := @step_syscall _ _ metric {rt with
      currentTid := 1, globalCounter := rt.globalCounter + (2 ^ 31 - 3)} 1 rfl
    simp only [moved,increaseGlobalCounter,full,if_true,handler]
    rfl
  have returns : ∃ last, run (smallConfig .drms) first' hiddenOverflow = .ok last := by
    have calls := run_syscalls metric rt' (2 ^ 31 - 2) fun _ _ => rfl
    rw [tid'] at calls
    refine ⟨{rt' with currentTid := 1, globalCounter := rt'.globalCounter + (2 ^ 31 - 2)},?_⟩
    rw [hiddenOverflow,run,List.foldlM_append]
    change (run (smallConfig .drms) first' _ >>= fun rt => run (smallConfig .drms) rt _) = _
    rw [ok',ok_bind,calls]
  obtain ⟨last,returns⟩ := returns
  rw [fails,returns]
  exact id

end

end Aprof
