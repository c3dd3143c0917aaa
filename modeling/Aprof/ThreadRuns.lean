import Aprof.Accesses
import Aprof.Activations

/-! The life of one thread: its ticks, calls and returns, with the accesses and
the renumberings of its timestamps in between. Whatever the threads of a run do,
every one of them lives such a life, so facts about the calls and costs of a
thread are proved here once, by induction on its own operations. -/
namespace Aprof

open Lockstep

inductive ThreadOp where
  | tick
  | enter (sp : UInt64) (f : FnPtr)
  | exit

/-- Operations with the state they were applied to, the last one first. -/
abbrev ThreadLog := List (ThreadOp × ThreadData)

/-- A life in which every call is taken under the condition `entry`. -/
inductive ThreadRun (cfg : Config) (entry : ThreadData → FnPtr → Prop) (tid : Nat) : ThreadLog → ThreadData → Prop where
  | fresh (shadow : LookupTable Nat) : ThreadRun cfg entry tid [] (newThread cfg tid shadow)
  | tick {log : ThreadLog} {tdata : ThreadData} (life : ThreadRun cfg entry tid log tdata) :
      ThreadRun cfg entry tid ((.tick,tdata) :: log) {tdata with cost := tdata.cost + 1}
  | enter {log : ThreadLog} {tdata pushed : ThreadData} (life : ThreadRun cfg entry tid log tdata) (shared : Shared)
      (sp : UInt64) (f : FnPtr) (permitted : entry tdata f) (push : pushFrame cfg tdata sp f = .ok pushed) :
      ThreadRun cfg entry tid ((.enter sp f,tdata) :: log) (Levels.functionEnter cfg shared pushed).2
  | exit {log : ThreadLog} {tdata : ThreadData} (life : ThreadRun cfg entry tid log tdata) (shared : Shared)
      (nonempty : 0 < tdata.stackDepth) :
      ThreadRun cfg entry tid ((.exit,tdata) :: log) (popShared cfg shared tdata).2
  | access {log : ThreadLog} {tdata after : ThreadData} (life : ThreadRun cfg entry tid log tdata)
      (same : after.control = tdata.control) : ThreadRun cfg entry tid log after

section
variable {c : Counter} {cfg : Config} {entry : ThreadData → FnPtr → Prop} {rt after : Runtime c}

/-- Every registered thread and every reported one has lived. -/
structure Living (cfg : Config) (entry : ThreadData → FnPtr → Prop) (rt : Runtime c) : Prop where
  threads : ∀ tid tdata, rt.threads tid = some tdata → ∃ log, ThreadRun cfg entry tid log tdata
  reported : ∀ pair ∈ rt.reported, ∃ log, ThreadRun cfg entry pair.1 log pair.2

theorem Living.control (living : Living cfg entry rt)
    (same : ∀ tid, (after.threads tid).map ThreadData.control = (rt.threads tid).map ThreadData.control)
    (reported : after.reported = rt.reported) : Living cfg entry after := by
  refine ⟨?_,by rw [reported]; exact living.reported⟩
  intro tid tdata found
  have kept := same tid
  rw [found,Option.map_some] at kept
  obtain ⟨before,stored,equal⟩ := Option.map_eq_some_iff.mp kept.symm
  obtain ⟨log,life⟩ := living.threads tid before stored
  exact ⟨log,life.access equal.symm⟩

theorem Living.put (living : Living cfg entry rt) {tid : Nat} {tdata : ThreadData} {log : ThreadLog}
    (life : ThreadRun cfg entry tid log tdata) (found : after.threads tid = some tdata)
    (same : ∀ other, other ≠ tid →
      (after.threads other).map ThreadData.control = (rt.threads other).map ThreadData.control)
    (reported : after.reported = rt.reported) : Living cfg entry after := by
  refine ⟨?_,by rw [reported]; exact living.reported⟩
  intro other tdata' found'
  by_cases equal : other = tid
  · subst equal
    rw [found] at found'
    cases found'
    exact ⟨log,life⟩
  · have kept := same other equal
    rw [found',Option.map_some] at kept
    obtain ⟨before,stored,equal⟩ := Option.map_eq_some_iff.mp kept.symm
    obtain ⟨log,life⟩ := living.threads other before stored
    exact ⟨log,life.access equal.symm⟩

theorem Living.threadStart {tid : Nat} (living : Living cfg entry rt) (ok : threadStart cfg rt tid = .ok after) :
    Living cfg entry after := by
  obtain ⟨_,_,ok⟩ := bind_ok.mp ok
  obtain ⟨_,_,ok⟩ := bind_ok.mp ok
  obtain ⟨shadow,_,ok⟩ := bind_ok.mp ok
  cases ok
  have life : ThreadRun cfg entry tid [] (newThread cfg tid shadow) := .fresh shadow
  refine living.put life (Function.update_self ..) ?_ rfl
  intro other different
  exact congrArg _ (Function.update_of_ne different _ _)

theorem Living.threadSwitch {tid : Nat} (living : Living cfg entry rt) (ok : threadSwitch cfg rt tid = .ok after) :
    Living cfg entry after := by
  have moved : Living cfg entry ({rt with currentTid := tid} : Runtime c) := ⟨living.threads,living.reported⟩
  refine threadSwitch_keeps living moved ?_ ?_ ok
  · intro middle counted
    obtain ⟨-,-,reported,erased⟩ := increaseGlobalCounter_erase counted
    exact moved.control (control_erased erased) reported
  · intro middle after lives started
    exact lives.threadStart started

theorem ThreadRun.unwind {tid n : Nat} {log : ThreadLog} {tdata : ThreadData} (shared : Shared)
    (life : ThreadRun cfg entry tid log tdata) (bound : n ≤ tdata.stackDepth) :
    ∃ log, ThreadRun cfg entry tid log (unwindShared cfg n (shared,tdata)).2 := by
  induction n generalizing shared log tdata with
  | zero => exact ⟨log,life⟩
  | succ n ih =>
    have depth : (popShared cfg shared tdata).2.stackDepth = tdata.stackDepth - 1 := rfl
    have inside : n ≤ (popShared cfg shared tdata).2.stackDepth := by
      rw [depth]
      omega
    exact ih (popShared cfg shared tdata).1 (life.exit shared (by omega)) inside

theorem Living.threadExit {tid : Nat} (living : Living cfg entry rt) (ok : threadExit cfg rt tid = .ok after) :
    Living cfg entry after := by
  unfold Aprof.threadExit at ok
  split at ok
  · cases ok
  · next tdata found =>
    cases ok
    obtain ⟨log,life⟩ := living.threads tid tdata found
    refine ⟨?_,?_⟩
    · intro other tdata' found'
      dsimp only at found'
      rw [Function.update_apply] at found'
      split at found'
      · cases found'
      · exact living.threads other tdata' found'
    · intro pair member
      rcases List.mem_cons.mp member with rfl | older
      · exact life.unwind rt.shared (Nat.le_refl _)
      · exact living.reported pair older

/-- `function_enter` does to the thread what it does without activation ids. -/
theorem functionEnter_control {tid : Nat} {pushed : ThreadData} (nonempty : 0 < pushed.stackDepth)
    (ok : functionEnter cfg rt tid pushed = .ok after) : after.currentTid = rt.currentTid ∧
      after.shared = (Levels.functionEnter cfg rt.shared pushed).1 ∧ after.reported = rt.reported ∧
      (∃ tdata, after.threads tid = some tdata ∧
        tdata.control = (Levels.functionEnter cfg rt.shared pushed).2.control) ∧
      ∀ other, other ≠ tid →
        (after.threads other).map ThreadData.control = (rt.threads other).map ThreadData.control := by
  unfold functionEnter at ok
  unfold Levels.functionEnter
  dsimp only at ok ⊢
  split at ok
  · next skipped =>
    cases ok
    rw [if_pos skipped]
    exact ⟨rfl,rfl,rfl,⟨_,Function.update_self ..,rfl⟩,fun other different =>
      congrArg _ (Function.update_of_ne different _ _)⟩
  · next plain =>
    rw [if_neg plain]
    split at ok
    · next skipping =>
      cases ok
      rw [if_pos skipping]
      exact ⟨rfl,rfl,rfl,⟨_,Function.update_self ..,rfl⟩,fun other different =>
        congrArg _ (Function.update_of_ne different _ _)⟩
    · next recorded =>
      rw [if_neg recorded]
      obtain ⟨⟨rt',named⟩,assigned,ok⟩ := bind_ok.mp ok
      cases ok
      have opened : 0 < (enterStart pushed).stackDepth := nonempty
      obtain ⟨erased,tids,shared,reported,others⟩ := assignId_erase opened assigned
      have named' := erase_enterShared cfg rt.shared named
      have plain' := erase_enterShared cfg rt.shared (enterStart pushed)
      rw [erased,plain'] at named'
      dsimp only
      rw [shared]
      refine ⟨tids,(congrArg Prod.fst named').symm,reported,⟨_,Function.update_self ..,?_⟩,?_⟩
      · exact control_of_erase (congrArg Prod.snd named').symm
      · intro other different
        refine (congrArg _ (Function.update_of_ne different _ _)).trans ?_
        have kept := congrArg (Option.map ThreadData.control) (others other different)
        rwa [Option.map_map,Option.map_map] at kept

theorem pushFrame_depth {tdata pushed : ThreadData} {sp : UInt64} {f : FnPtr}
    (ok : pushFrame cfg tdata sp f = .ok pushed) : pushed.stackDepth = tdata.stackDepth + 1 := by
  obtain ⟨_,_,_,rfl,_⟩ := pushFrame_ok ok
  rfl

theorem Living.pushStack {sp : UInt64} {f : FnPtr} (living : Living cfg entry rt)
    (permitted : ∀ tdata, rt.current = .ok tdata → entry tdata f) (ok : pushStack cfg rt sp f = .ok after) :
    Living cfg entry after := by
  obtain ⟨tdata,current,ok⟩ := bind_ok.mp ok
  obtain ⟨pushed,push,ok⟩ := bind_ok.mp ok
  obtain ⟨log,life⟩ := living.threads _ _ (current_ok.mp current)
  have depth : 0 < pushed.stackDepth := by
    rw [pushFrame_depth push]
    exact Nat.succ_pos _
  obtain ⟨-,-,reported,⟨entered,found,same⟩,others⟩ := functionEnter_control depth ok
  exact living.put ((life.enter rt.shared sp f (permitted tdata current) push).access same) found others reported

theorem Living.popStack (living : Living cfg entry rt) (ok : popStack cfg rt = .ok after) : Living cfg entry after := by
  obtain ⟨tdata,current,ok⟩ := bind_ok.mp ok
  obtain ⟨_,nonempty,ok⟩ := bind_ok.mp ok
  cases ok
  obtain ⟨log,life⟩ := living.threads _ _ (current_ok.mp current)
  exact living.put (life.exit rt.shared (by simpa using check_ok.mp nonempty)) (Function.update_self ..)
    (fun other different => congrArg _ (Function.update_of_ne different _ _)) rfl

def Permits (entry : ThreadData → FnPtr → Prop) (rt : Runtime c) : Event → Prop
  | .functionEnter _ f => ∀ tdata, rt.current = .ok tdata → entry tdata f
  | _ => True

instance {entry : ThreadData → FnPtr → Prop} [∀ tdata f, Decidable (entry tdata f)] (rt : Runtime c) :
    ∀ event, Decidable (Permits entry rt event)
  | .functionEnter _ f => inferInstanceAs (Decidable (∀ tdata, rt.current = .ok tdata → entry tdata f))
  | .threadCreate _ | .threadSwitch _ | .threadExit _ | .bbStart | .functionExit | .access .. | .postSyscall .. => isTrue trivial

theorem Living.step {event : Event} (living : Living cfg entry rt) (permitted : Permits entry rt event)
    (ok : step cfg rt event = .ok after) : Living cfg entry after := by
  cases event with
  | threadCreate child => exact living.threadStart ok
  | threadSwitch tid => exact living.threadSwitch ok
  | threadExit tid => exact living.threadExit ok
  | bbStart =>
    obtain ⟨tdata,current,ok⟩ := bind_ok.mp ok
    cases ok
    obtain ⟨log,life⟩ := living.threads _ _ (current_ok.mp current)
    exact living.put life.tick (Function.update_self ..)
      (fun other different => congrArg _ (Function.update_of_ne different _ _)) rfl
  | functionEnter sp f => exact living.pushStack permitted ok
  | functionExit => exact living.popStack ok
  | access type addr size =>
    have same := traceAccess_control ok
    exact living.control same.threads same.reported
  | postSyscall tid buffers =>
    refine postSyscall_keeps living ?_ ?_ ?_ ok
    · intro middle _ moved
      exact living.threadSwitch moved
    · intro middle _ counted
      obtain ⟨-,-,reported,erased⟩ := increaseGlobalCounter_erase counted
      exact living.control (control_erased erased) reported
    · intro middle buffer after lives stored
      have same := kernelStore_control stored
      exact lives.control same.threads same.reported

theorem Living.run {events : List Event} (living : Living cfg entry rt) (along : Along cfg (Permits entry) rt events)
    (ok : run cfg rt events = .ok after) : Living cfg entry after := by
  induction events generalizing rt with
  | nil =>
    cases ok
    exact living
  | cons event events ih =>
    obtain ⟨middle,first,ok⟩ := bind_ok.mp ok
    exact ih (living.step along.1 first) (along.2 middle first) ok

theorem Living.initial (created : initial c cfg = .ok rt) : Living cfg entry rt := by
  obtain ⟨global,_,ok⟩ := bind_ok.mp created
  cases ok
  exact ⟨nofun,nofun⟩

theorem run_lives {events : List Event} (reached : (initial c cfg >>= fun rt => run cfg rt events) = .ok rt) (tid : Nat)
    (tdata : ThreadData) (present : rt.threads tid = some tdata ∨ (tid,tdata) ∈ rt.reported) :
    ∃ log, ThreadRun cfg (fun _ _ => True) tid log tdata := by
  obtain ⟨first,created,ran⟩ := bind_ok.mp reached
  have always : ∀ (events : List Event) (rt : Runtime c), Along cfg (Permits fun _ _ => True) rt events := by
    intro events
    induction events with
    | nil => exact fun _ => trivial
    | cons event events ih =>
      refine fun rt => ⟨?_,fun after _ => ih after⟩
      cases event with
      | functionEnter sp f => exact fun _ _ => trivial
      | _ => exact trivial
  have living := (Living.initial created).run (always events first) ran
  rcases present with found | member
  · exact living.threads tid tdata found
  · exact living.reported (tid,tdata) member

end

/-- One operation of a life without contexts and accesses -/
def liveOp (cfg : Config) (state : ThreadLog × ThreadData) (op : ThreadOp) : Result (ThreadLog × ThreadData) :=
  let shared : Shared := ⟨fun _ => htConstruct,[]⟩
  match op with
  | .tick => .ok ((.tick,state.2) :: state.1,{state.2 with cost := state.2.cost + 1})
  | .enter sp f => do
    let pushed ← pushFrame cfg state.2 sp f
    .ok ((.enter sp f,state.2) :: state.1,(Levels.functionEnter cfg shared pushed).2)
  | .exit => do
    check (0 < state.2.stackDepth) "Stack depth not valid"
    .ok ((.exit,state.2) :: state.1,(popShared cfg shared state.2).2)

def live (cfg : Config) (tid : Nat) (ops : List ThreadOp) : Result (ThreadLog × ThreadData) :=
  ops.foldlM (liveOp cfg) ([],newThread cfg tid blankTable)

theorem live_run {cfg : Config} {tid : Nat} {ops : List ThreadOp} {state : ThreadLog × ThreadData} (lived : live cfg tid ops = .ok state) :
    ThreadRun cfg (fun _ _ => True) tid state.1 state.2 := by
  refine foldlM_keeps (P := fun state => ThreadRun cfg (fun _ _ => True) tid state.1 state.2) ?_ _ _ _ (.fresh blankTable) lived
  intro state op after life ok
  cases op with
  | tick =>
    cases ok
    exact life.tick
  | enter sp f =>
    obtain ⟨pushed,push,ok⟩ := bind_ok.mp ok
    cases ok
    exact life.enter _ sp f trivial push
  | exit =>
    obtain ⟨_,nonempty,ok⟩ := bind_ok.mp ok
    cases ok
    exact life.exit _ (by simpa using check_ok.mp nonempty)

end Aprof
