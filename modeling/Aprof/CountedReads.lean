import Aprof.Lifetimes
import Aprof.ThreadRuns

/-! The life of a thread with its reads: each granule that is read counts one input for
the top frame, perhaps one less for a frame below, or one induced input. -/
namespace Aprof

open Lockstep

/-- What a granule that is read changes in the frames of a thread -/
inductive Counts (tdata : ThreadData) : ThreadData → Prop where
  | first : Counts tdata (tdata.setTop incInput)
  | again (i : Nat) (below : i + 1 < tdata.stackDepth) : Counts tdata ((tdata.setTop incInput).setSlot i decInput)
  | foreign (kernel : Bool) : Counts tdata ((tdata.setTop incInput).setTop (if kernel then incSyscall else incThread))

/-- A life in which every read of a granule is told apart, and their number. -/
inductive CountedRun (cfg : Config) (tid : Nat) : Nat → ThreadLog → ThreadData → Prop where
  | fresh (shadow : LookupTable Nat) : CountedRun cfg tid 0 [] (newThread cfg tid shadow)
  | tick {reads : Nat} {log : ThreadLog} {tdata : ThreadData} (life : CountedRun cfg tid reads log tdata) :
      CountedRun cfg tid reads ((.tick,tdata) :: log) {tdata with cost := tdata.cost + 1}
  | enter {reads : Nat} {log : ThreadLog} {tdata pushed : ThreadData} (life : CountedRun cfg tid reads log tdata) (shared : Shared)
      (sp : UInt64) (f : FnPtr) (push : pushFrame cfg tdata sp f = .ok pushed) :
      CountedRun cfg tid reads ((.enter sp f,tdata) :: log) (Levels.functionEnter cfg shared pushed).2
  | exit {reads : Nat} {log : ThreadLog} {tdata : ThreadData} (life : CountedRun cfg tid reads log tdata) (shared : Shared)
      (nonempty : 0 < tdata.stackDepth) :
      CountedRun cfg tid reads ((.exit,tdata) :: log) (popShared cfg shared tdata).2
  | stamp {reads : Nat} {log : ThreadLog} {tdata after : ThreadData} (life : CountedRun cfg tid reads log tdata)
      (same : after.erase = tdata.erase) : CountedRun cfg tid reads log after
  | read {reads : Nat} {log : ThreadLog} {tdata after : ThreadData} (life : CountedRun cfg tid reads log tdata)
      (running : 0 < tdata.stackDepth ∧ tdata.skip = 0) (counts : Counts tdata after) : CountedRun cfg tid (reads + 1) log after

section
variable {cfg : Config} {tid reads : Nat} {log : ThreadLog} {tdata after : ThreadData}

theorem Counts.control (counts : Counts tdata after) : after.control = tdata.control := by
  cases counts with
  | first => exact control_setTop _ _ fun _ => rfl
  | again i below => exact (control_setSlot _ i decInput fun _ => rfl).trans (control_setTop _ _ fun _ => rfl)
  | foreign kernel =>
    refine (control_setTop _ _ fun act => ?_).trans (control_setTop _ _ fun _ => rfl)
    cases kernel <;> rfl

theorem CountedRun.run (life : CountedRun cfg tid reads log tdata) : ThreadRun cfg (fun _ _ => True) tid log tdata := by
  induction life with
  | fresh shadow => exact .fresh shadow
  | tick life ih => exact ih.tick
  | enter life shared sp f push ih => exact ih.enter shared sp f trivial push
  | exit life shared nonempty ih => exact ih.exit shared nonempty
  | stamp life same ih => exact ih.access (control_of_erase same)
  | read life running counts ih => exact ih.access counts.control

theorem walkDown_below {aid k i : Nat} (found : walkDown tdata aid k = .ok i) : i < k := by
  induction k with
  | zero => cases found
  | succ k ih =>
    unfold walkDown at found
    split at found
    · exact Nat.lt_succ_of_lt (ih found)
    · cases found
      exact Nat.lt_succ_self _

theorem getActivationByAid_below {aid i : Nat} (found : getActivationByAid tdata aid = .ok i) : i + 1 < tdata.stackDepth :=
  Nat.add_lt_of_lt_sub (walkDown_below found)

/-- A turn of an access handler gives the granule a stamp and counts at most one read. -/
inductive AccessTurn (tdata after : ThreadData) : Prop where
  | stamp (same : after.erase = tdata.erase)
  | read (middle : ThreadData) (same : middle.erase = tdata.erase) (counts : Counts middle after)

theorem accessCellRms_turn {type : AccessType} {addr : Nat} (ok : accessCellRms type tdata addr = .ok after) : AccessTurn tdata after := by
  obtain ⟨⟨oldAid,shadow⟩,-,ok⟩ := bind_ok.mp ok
  dsimp only at ok
  split at ok
  · split at ok
    · obtain ⟨i,found,ok⟩ := bind_ok.mp ok
      cases ok
      have below := getActivationByAid_below found
      exact .read {tdata with shadowMemory := shadow} rfl (.again i below)
    · cases ok
      exact .read {tdata with shadowMemory := shadow} rfl .first
  · cases ok
    exact .stamp rfl

theorem countAccess_turn {c : Counter} {ts : Nat} {type : AccessType} {wts : c.Word} {addr : Nat}
    (ok : countAccess c ts type wts tdata addr = .ok after) : AccessTurn tdata after := by
  obtain ⟨⟨oldTs,shadow⟩,-,ok⟩ := bind_ok.mp ok
  dsimp only at ok
  split at ok
  · cases ok
    exact .stamp rfl
  · split at ok
    · cases ok
      exact .read {tdata with shadowMemory := shadow} rfl (.foreign _)
    · split at ok
      · split at ok
        · obtain ⟨i,found,ok⟩ := bind_ok.mp ok
          cases ok
          have below := getActivationByAid_below found
          exact .read {tdata with shadowMemory := shadow} rfl (.again i below)
        · cases ok
          exact .read {tdata with shadowMemory := shadow} rfl .first
      · cases ok
        exact .stamp rfl

theorem accessCellDrms_turn {c : Counter} {ts : Nat} {type : AccessType} {kernelAccess : Bool}
    {state next : LookupTable c.Word × ThreadData} {addr : Nat}
    (ok : accessCellDrms c ts type kernelAccess state addr = .ok next) : AccessTurn state.2 next.2 := by
  obtain ⟨wts,-,same | counted⟩ := accessCellDrms_cases ok
  · exact .stamp (by rw [same])
  · exact countAccess_turn counted

theorem countAccess_store {c : Counter} {ts : Nat} {wts : c.Word} {addr : Nat}
    (ok : countAccess c ts .store wts tdata addr = .ok after) : after.erase = tdata.erase := by
  obtain ⟨⟨oldTs,shadow⟩,-,ok⟩ := bind_ok.mp ok
  dsimp only at ok
  rw [if_pos rfl] at ok
  cases ok
  rfl

theorem AccessTurn.running (turn : AccessTurn tdata after) (running : 0 < tdata.stackDepth ∧ tdata.skip = 0) :
    0 < after.stackDepth ∧ after.skip = 0 := by
  have same : after.control = tdata.control := by
    cases turn with
    | stamp same => exact control_of_erase same
    | read middle same counts => exact counts.control.trans (control_of_erase same)
  have fields := control_fields same
  rw [fields.depth,fields.skip]
  exact running

theorem CountedRun.turn (life : CountedRun cfg tid reads log tdata) (running : 0 < tdata.stackDepth ∧ tdata.skip = 0)
    (turn : AccessTurn tdata after) : ∃ more, more ≤ reads + 1 ∧ CountedRun cfg tid more log after := by
  cases turn with
  | stamp same => exact ⟨reads,Nat.le_succ _,life.stamp same⟩
  | read middle same counts =>
    exact ⟨reads + 1,Nat.le_refl _,(life.stamp same).read ((AccessTurn.stamp same).running running) counts⟩

theorem CountedRun.turns {A : Type} {core : A → ThreadData} {cell : A → Nat → Result A}
    (turn : ∀ {state next : A} {addr : Nat}, cell state addr = .ok next → AccessTurn (core state) (core next)) (addrs : List Nat) :
    ∀ {reads : Nat} {state last : A}, CountedRun cfg tid reads log (core state) →
      0 < (core state).stackDepth ∧ (core state).skip = 0 → addrs.foldlM cell state = .ok last →
      ∃ more, more ≤ reads + addrs.length ∧ CountedRun cfg tid more log (core last) := by
  induction addrs with
  | nil =>
    intro reads state last life _ done
    obtain rfl := Except.ok.inj done
    exact ⟨reads,Nat.le_refl _,life⟩
  | cons addr addrs ih =>
    intro reads state last life running done
    rw [List.foldlM_cons] at done
    obtain ⟨middle,first,done⟩ := bind_ok.mp done
    obtain ⟨some,few,lived⟩ := life.turn running (turn first)
    obtain ⟨more,bound,all⟩ := ih lived ((turn first).running running) done
    refine ⟨more,bound.trans ?_,all⟩
    rw [List.length_cons]
    omega

end

section
variable {c : Counter} {cfg : Config} {n : Nat} {rt after : Runtime c}

def granules (cfg : Config) : Event → Nat
  | .access _ addr size => (accessAddrs cfg.memoryResolution addr size).length
  | _ => 0

/-- Every registered thread and every reported one has lived with at most `n` reads. -/
structure Counting (cfg : Config) (n : Nat) (rt : Runtime c) : Prop where
  threads : ∀ tid tdata, rt.threads tid = some tdata → ∃ reads log, reads ≤ n ∧ CountedRun cfg tid reads log tdata
  reported : ∀ pair ∈ rt.reported, ∃ reads log, reads ≤ n ∧ CountedRun cfg pair.1 reads log pair.2

theorem Counting.more (counting : Counting cfg n rt) (extra : Nat) : Counting cfg (n + extra) rt := by
  constructor
  · intro tid tdata found
    obtain ⟨reads,log,few,life⟩ := counting.threads tid tdata found
    exact ⟨reads,log,few.trans (Nat.le_add_right _ _),life⟩
  · intro pair member
    obtain ⟨reads,log,few,life⟩ := counting.reported pair member
    exact ⟨reads,log,few.trans (Nat.le_add_right _ _),life⟩

theorem Counting.stamped (counting : Counting cfg n rt)
    (same : ∀ tid, (after.threads tid).map ThreadData.erase = (rt.threads tid).map ThreadData.erase)
    (reported : after.reported = rt.reported) : Counting cfg n after := by
  refine ⟨fun tid tdata found => ?_,by rw [reported]; exact counting.reported⟩
  have kept := same tid
  rw [found,Option.map_some] at kept
  obtain ⟨before,stored,equal⟩ := Option.map_eq_some_iff.mp kept.symm
  obtain ⟨reads,log,few,life⟩ := counting.threads tid before stored
  exact ⟨reads,log,few,life.stamp equal.symm⟩

theorem Counting.put (counting : Counting cfg n rt) {tid reads : Nat} {tdata : ThreadData} {log : ThreadLog} (few : reads ≤ n)
    (life : CountedRun cfg tid reads log tdata) (found : after.threads tid = some tdata)
    (same : ∀ other, other ≠ tid → (after.threads other).map ThreadData.erase = (rt.threads other).map ThreadData.erase)
    (reported : after.reported = rt.reported) : Counting cfg n after := by
  refine ⟨fun other tdata' found' => ?_,by rw [reported]; exact counting.reported⟩
  by_cases own : other = tid
  · subst own
    rw [found] at found'
    cases found'
    exact ⟨reads,log,few,life⟩
  · have kept := same other own
    rw [found',Option.map_some] at kept
    obtain ⟨before,stored,equal⟩ := Option.map_eq_some_iff.mp kept.symm
    obtain ⟨reads,log,few,life⟩ := counting.threads other before stored
    exact ⟨reads,log,few,life.stamp equal.symm⟩

theorem Counting.threadStart {tid : Nat} (counting : Counting cfg n rt) (ok : threadStart cfg rt tid = .ok after) :
    Counting cfg n after := by
  obtain ⟨_,_,ok⟩ := bind_ok.mp ok
  obtain ⟨_,_,ok⟩ := bind_ok.mp ok
  obtain ⟨shadow,_,ok⟩ := bind_ok.mp ok
  cases ok
  have life : CountedRun cfg tid 0 [] (newThread cfg tid shadow) := .fresh shadow
  exact counting.put (Nat.zero_le _) life (Function.update_self ..)
    (fun other different => congrArg _ (Function.update_of_ne different _ _)) rfl

theorem Counting.counted (counting : Counting cfg n rt) (ok : increaseGlobalCounter cfg rt = .ok after) : Counting cfg n after := by
  obtain ⟨-,-,reported,erased⟩ := increaseGlobalCounter_erase ok
  exact counting.stamped erased reported

theorem Counting.threadSwitch {tid : Nat} (counting : Counting cfg n rt) (ok : threadSwitch cfg rt tid = .ok after) :
    Counting cfg n after := by
  have moved : Counting cfg n ({rt with currentTid := tid} : Runtime c) := ⟨counting.threads,counting.reported⟩
  exact threadSwitch_keeps counting moved (fun middle counted => moved.counted counted)
    (fun middle after kept started => kept.threadStart started) ok

theorem CountedRun.unwind {tid reads : Nat} (n : Nat) : ∀ {shared : Shared} {log : ThreadLog} {tdata : ThreadData},
    CountedRun cfg tid reads log tdata → n ≤ tdata.stackDepth →
    ∃ log, CountedRun cfg tid reads log (unwindShared cfg n (shared,tdata)).2 := by
  induction n with
  | zero => exact fun life _ => ⟨_,life⟩
  | succ n ih =>
    intro shared log tdata life bound
    have inside : n ≤ (popShared cfg shared tdata).2.stackDepth := by
      rw [popShared_depth]
      omega
    exact ih (life.exit shared (by omega)) inside

theorem Counting.threadExit {tid : Nat} (counting : Counting cfg n rt) (ok : threadExit cfg rt tid = .ok after) :
    Counting cfg n after := by
  unfold Aprof.threadExit at ok
  split at ok
  · cases ok
  · next tdata found =>
    cases ok
    obtain ⟨reads,log,few,life⟩ := counting.threads tid tdata found
    constructor
    · intro other tdata' found'
      dsimp only at found'
      rw [Function.update_apply] at found'
      split at found'
      · cases found'
      · exact counting.threads other tdata' found'
    · intro pair member
      rcases List.mem_cons.mp member with rfl | older
      · obtain ⟨log,unwound⟩ := @CountedRun.unwind cfg tid reads tdata.stackDepth rt.shared log tdata life (Nat.le_refl _)
        exact ⟨reads,log,few,unwound⟩
      · exact counting.reported pair older

/-- `function_enter` does to the thread what it does without activation ids. -/
theorem functionEnter_erase {tid : Nat} {pushed : ThreadData} (nonempty : 0 < pushed.stackDepth)
    (ok : functionEnter cfg rt tid pushed = .ok after) : after.reported = rt.reported ∧
      (∃ tdata, after.threads tid = some tdata ∧ tdata.erase = (Levels.functionEnter cfg rt.shared pushed).2.erase) ∧
      ∀ other, other ≠ tid → (after.threads other).map ThreadData.erase = (rt.threads other).map ThreadData.erase := by
  unfold functionEnter at ok
  unfold Levels.functionEnter
  dsimp only at ok ⊢
  split at ok
  · next skipped =>
    cases ok
    rw [if_pos skipped]
    exact ⟨rfl,⟨_,Function.update_self ..,rfl⟩,fun other different => congrArg _ (Function.update_of_ne different _ _)⟩
  · next plain =>
    rw [if_neg plain]
    split at ok
    · next skipping =>
      cases ok
      rw [if_pos skipping]
      exact ⟨rfl,⟨_,Function.update_self ..,rfl⟩,fun other different => congrArg _ (Function.update_of_ne different _ _)⟩
    · next recorded =>
      rw [if_neg recorded]
      obtain ⟨⟨rt',named⟩,assigned,ok⟩ := bind_ok.mp ok
      cases ok
      have opened : 0 < (enterStart pushed).stackDepth := nonempty
      obtain ⟨erased,-,shared,reported,others⟩ := assignId_erase opened assigned
      have named' := erase_enterShared cfg rt.shared named
      rw [erased,erase_enterShared] at named'
      dsimp only
      rw [shared]
      refine ⟨reported,⟨_,Function.update_self ..,(congrArg Prod.snd named').symm⟩,fun other different => ?_⟩
      exact (congrArg _ (Function.update_of_ne different _ _)).trans (others other different)

theorem Counting.pushStack {sp : UInt64} {f : FnPtr} (counting : Counting cfg n rt) (ok : pushStack cfg rt sp f = .ok after) :
    Counting cfg n after := by
  obtain ⟨tdata,current,ok⟩ := bind_ok.mp ok
  obtain ⟨pushed,push,ok⟩ := bind_ok.mp ok
  obtain ⟨reads,log,few,life⟩ := counting.threads _ _ (current_ok.mp current)
  have depth : 0 < pushed.stackDepth := by
    rw [pushFrame_depth push]
    exact Nat.succ_pos _
  obtain ⟨reported,⟨entered,found,same⟩,others⟩ := functionEnter_erase depth ok
  exact counting.put few ((life.enter rt.shared sp f push).stamp same) found others reported

theorem Counting.popStack (counting : Counting cfg n rt) (ok : popStack cfg rt = .ok after) : Counting cfg n after := by
  obtain ⟨tdata,current,ok⟩ := bind_ok.mp ok
  obtain ⟨_,nonempty,ok⟩ := bind_ok.mp ok
  cases ok
  obtain ⟨reads,log,few,life⟩ := counting.threads _ _ (current_ok.mp current)
  exact counting.put few (life.exit rt.shared (of_decide_eq_true (check_ok.mp nonempty))) (Function.update_self ..)
    (fun other different => congrArg _ (Function.update_of_ne different _ _)) rfl

theorem Counting.traceAccess {type : AccessType} {addr size : Nat} {kernelAccess : Bool} (counting : Counting cfg n rt)
    (ok : traceAccess cfg rt type addr size kernelAccess = .ok after) :
    Counting cfg (n + (accessAddrs cfg.memoryResolution addr size).length) after := by
  obtain ⟨tdata,current,ok⟩ := bind_ok.mp ok
  obtain ⟨reads,log,few,life⟩ := counting.threads _ _ (current_ok.mp current)
  have others (last : ThreadData) : ∀ other, other ≠ rt.currentTid →
      (Function.update rt.threads rt.currentTid (some last) other).map ThreadData.erase = (rt.threads other).map ThreadData.erase :=
    fun other different => congrArg _ (Function.update_of_ne different _ _)
  -- while no frame is recorded, nothing is counted
  have idle {last : ThreadData} (same : last = tdata) : ∃ more, more ≤ n + (accessAddrs cfg.memoryResolution addr size).length ∧
      CountedRun cfg rt.currentTid more log last := ⟨reads,few.trans (Nat.le_add_right _ _),same ▸ life⟩
  have running (busy : ¬ (tdata.stackDepth = 0 ∨ tdata.skip > 0)) : 0 < tdata.stackDepth ∧ tdata.skip = 0 := by omega
  split at ok
  · obtain ⟨last,traced,ok⟩ := bind_ok.mp ok
    cases ok
    have lived : ∃ more, more ≤ n + (accessAddrs cfg.memoryResolution addr size).length ∧
        CountedRun cfg rt.currentTid more log last := by
      unfold traceAccessRms at traced
      split at traced
      · exact idle (Except.ok.inj traced).symm
      · next busy =>
        obtain ⟨more,bound,lived⟩ := @CountedRun.turns cfg rt.currentTid log ThreadData id (accessCellRms type)
          (fun turn => accessCellRms_turn turn) _ _ _ _ life (running busy) traced
        exact ⟨more,bound.trans (Nat.add_le_add_right few _),lived⟩
    obtain ⟨more,bound,lived⟩ := lived
    exact (counting.more _).put bound lived (Function.update_self ..) (others last) rfl
  · obtain ⟨⟨global,last⟩,traced,ok⟩ := bind_ok.mp ok
    cases ok
    have lived : ∃ more, more ≤ n + (accessAddrs cfg.memoryResolution addr size).length ∧
        CountedRun cfg rt.currentTid more log last := by
      unfold traceAccessDrms at traced
      split at traced
      · exact idle (congrArg Prod.snd (Except.ok.inj traced)).symm
      · next busy =>
        obtain ⟨more,bound,lived⟩ := @CountedRun.turns cfg rt.currentTid log (LookupTable c.Word × ThreadData) Prod.snd
          (accessCellDrms c rt.globalCounter type kernelAccess) (fun turn => accessCellDrms_turn turn) _ _ (rt.globalShadow,tdata) _
          life (running busy) traced
        exact ⟨more,bound.trans (Nat.add_le_add_right few _),lived⟩
    obtain ⟨more,bound,lived⟩ := lived
    exact (counting.more _).put bound lived (Function.update_self ..) (others last) rfl

theorem erase_put (threads : Nat → Option ThreadData) {tid : Nat} {tdata last : ThreadData} (found : threads tid = some tdata)
    (same : last.erase = tdata.erase) (other : Nat) :
    (Function.update threads tid (some last) other).map ThreadData.erase = (threads other).map ThreadData.erase := by
  rw [Function.update_apply]
  split
  · next own =>
    rw [own,found,Option.map_some,Option.map_some,same]
  · rfl

theorem traceAccess_store {addr size : Nat} {kernelAccess : Bool} (ok : traceAccess cfg rt .store addr size kernelAccess = .ok after) :
    after.reported = rt.reported ∧ ∀ tid, (after.threads tid).map ThreadData.erase = (rt.threads tid).map ThreadData.erase := by
  obtain ⟨tdata,current,ok⟩ := bind_ok.mp ok
  have found := current_ok.mp current
  split at ok
  · obtain ⟨last,traced,ok⟩ := bind_ok.mp ok
    cases ok
    refine ⟨rfl,erase_put rt.threads found ?_⟩
    unfold traceAccessRms at traced
    split at traced
    · cases traced
      rfl
    · refine foldlM_keeps (P := fun last => last.erase = tdata.erase) (fun _ _ _ same ok => ?_) _ _ _ rfl traced
      obtain ⟨⟨oldAid,shadow⟩,-,ok⟩ := bind_ok.mp ok
      dsimp only at ok
      rw [if_neg fun both => both.1 rfl] at ok
      cases ok
      exact same
  · obtain ⟨⟨global,last⟩,traced,ok⟩ := bind_ok.mp ok
    cases ok
    refine ⟨rfl,erase_put rt.threads found ?_⟩
    unfold traceAccessDrms at traced
    split at traced
    · cases traced
      rfl
    · refine foldlM_keeps (P := fun last : LookupTable c.Word × ThreadData => last.2.erase = tdata.erase)
        (fun _ _ _ same ok => ?_) _ (rt.globalShadow,tdata) _ rfl traced
      obtain ⟨wts,-,kept | counted⟩ := accessCellDrms_cases ok
      · rw [kept]
        exact same
      · exact (countAccess_store counted).trans same

theorem Counting.kernelStore {buffer : Nat × Int} (counting : Counting cfg n rt) (ok : kernelStore cfg rt buffer = .ok after) :
    Counting cfg n after :=
  foldlM_keeps (P := Counting cfg n) (fun _ _ _ kept ok => kept.stamped (traceAccess_store ok).2 (traceAccess_store ok).1) _ rt _
    counting ok

theorem Counting.step {event : Event} (counting : Counting cfg n rt) (ok : step cfg rt event = .ok after) :
    Counting cfg (n + granules cfg event) after := by
  cases event with
  | threadCreate child => exact counting.threadStart ok
  | threadSwitch tid => exact counting.threadSwitch ok
  | threadExit tid => exact counting.threadExit ok
  | bbStart =>
    obtain ⟨tdata,current,ok⟩ := bind_ok.mp ok
    cases ok
    obtain ⟨reads,log,few,life⟩ := counting.threads _ _ (current_ok.mp current)
    exact counting.put few life.tick (Function.update_self ..)
      (fun other different => congrArg _ (Function.update_of_ne different _ _)) rfl
  | functionEnter sp f => exact counting.pushStack ok
  | functionExit => exact counting.popStack ok
  | access type addr size =>
    show Counting cfg (n + (accessAddrs cfg.memoryResolution addr size).length) after
    have traced : Aprof.traceAccess cfg rt type addr size false = .ok after := ok
    exact counting.traceAccess traced
  | postSyscall tid buffers =>
    refine postSyscall_keeps (P := Counting cfg n) counting ?_ ?_ ?_ ok
    · exact fun middle _ moved => counting.threadSwitch moved
    · exact fun middle _ counted => counting.counted counted
    · exact fun middle buffer after kept stored => kept.kernelStore stored

theorem Counting.run {events : List Event} : ∀ {n : Nat} {rt : Runtime c}, Counting cfg n rt → run cfg rt events = .ok after →
    Counting cfg (n + (events.map (granules cfg)).sum) after := by
  induction events with
  | nil =>
    intro n rt counting ok
    cases ok
    exact counting
  | cons event events ih =>
    intro n rt counting ok
    obtain ⟨middle,first,ok⟩ := bind_ok.mp ok
    rw [List.map_cons,List.sum_cons,← Nat.add_assoc]
    exact ih (counting.step first) ok

theorem run_counts {events : List Event} (reached : (initial c cfg >>= fun rt => Aprof.run cfg rt events) = .ok rt) :
    Counting cfg (events.map (granules cfg)).sum rt := by
  obtain ⟨first,created,ran⟩ := bind_ok.mp reached
  obtain ⟨global,-,created⟩ := bind_ok.mp created
  cases created
  have none : Counting cfg 0 (⟨fun _ => Option.none,0,1,global,⟨fun f => (cfg.fn f).inputMap,[⟨[],0,0⟩]⟩,[]⟩ : Runtime c) := by
    constructor
    · intro tid tdata found
      cases found
    · intro pair member
      cases member
  have all := none.run ran
  rw [Nat.zero_add] at all
  exact all

end

end Aprof
