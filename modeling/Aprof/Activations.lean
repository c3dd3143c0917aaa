import Aprof.Chronicles
import Aprof.Related

/-! One activation of a run of the tool, from the call to the return: the run is
followed by a run without timestamps, and what is known about the activation
there holds for the tool. -/
namespace Aprof

open Lockstep Levels Floor

theorem touchesOf_quiet (cfg : Config) (threads : Nat → Option ThreadData) (tid : Nat) {event : Event}
    (quiet : event.quiet = true) : touchesOf cfg threads tid event = [] := by
  cases event with
  | access type addr size => cases quiet
  | postSyscall tid buffers => cases quiet
  | _ => rfl

section
variable {cfg : Config} {levels after : LevelRuntime}

theorem threadSwitch_self (levels : LevelRuntime) : Levels.threadSwitch cfg levels levels.currentTid = .ok levels :=
  if_pos rfl

theorem recording_switch {tid : Nat} (ok : Levels.threadSwitch cfg levels tid = .ok after) :
    recording (after.cores tid) = recording (levels.cores tid) := by
  rcases levels_threadSwitch_ok ok with rfl | started
  · rfl
  · obtain ⟨free,rfl⟩ := levels_threadStart_ok started
    have none : levels.threads tid = none := free
    simp [LevelRuntime.cores,LevelRuntime.put,none,recording,newThread,ThreadData.erase]

theorem switch_tid {tid : Nat} (ok : Levels.threadSwitch cfg levels tid = .ok after) : after.currentTid = tid := by
  rcases levels_threadSwitch_ok ok with rfl | started
  · rfl
  · obtain ⟨_,rfl⟩ := levels_threadStart_ok started
    rfl

theorem step_split {event : Event} (ok : Levels.step cfg levels event = .ok after) : event.quiet = true ∨
    ∃ middle tid, Levels.threadSwitch cfg levels tid = .ok middle ∧
      Touches cfg middle (touchesOf cfg levels.cores levels.currentTid event) after := by
  cases event with
  | access type addr size =>
    refine Or.inr ⟨levels,levels.currentTid,threadSwitch_self levels,?_⟩
    have direct : false = true → cfg.inputMetric ≠ .rms ∧ type = .store := fun kernel => by cases kernel
    have touches := traceAccess_touches direct ok
    exact touches
  | postSyscall tid buffers =>
    simp only [Levels.step,Levels.postSyscall] at ok
    refine Or.inr ?_
    by_cases drms : cfg.inputMetric = .drms
    · have metric : cfg.inputMetric ≠ .rms := by simp [drms]
      rw [if_pos drms] at ok
      have moves : ∃ middle, Levels.threadSwitch cfg levels tid = .ok middle ∧
          buffers.foldlM (Levels.kernelStore cfg) middle = .ok after := by
        split at ok
        · exact bind_ok.mp ok
        · next same =>
          rw [not_not.mp same]
          exact ⟨levels,threadSwitch_self levels,ok⟩
      obtain ⟨middle,moved,rest⟩ := moves
      have touches := buffers_touches metric buffers rest
      rw [switch_tid moved,recording_switch moved] at touches
      refine ⟨middle,tid,moved,?_⟩
      simpa only [touchesOf,drms,true_and] using touches
    · rw [if_neg drms] at ok
      cases ok
      refine ⟨levels,levels.currentTid,threadSwitch_self levels,?_⟩
      simp only [touchesOf,drms,false_and,if_false]
      exact .nil levels
  | _ => exact Or.inl rfl

theorem Pending.still {t d : Nat} (pending : Pending after.cores t d) (still : Still levels after) :
    Pending levels.cores t d := by
  obtain ⟨tdata,found,above⟩ := pending
  obtain ⟨last,known,rfl⟩ := Option.map_eq_some_iff.mp found
  cases before : levels.threads t with
  | none =>
    rw [still.absent t before] at known
    cases known
  | some th =>
    obtain ⟨last',known',frames⟩ := still.frames t th before
    rw [known] at known'
    cases known'
    exact ⟨th.core,by simp only [LevelRuntime.cores,before,Option.map_some],by rw [← frames.depth]; exact above⟩

theorem step_keeps {P : List Touch → LevelRuntime → Prop} {Q : LevelRuntime → Prop} {A : Event → Prop}
    (back : ∀ levels after, Still levels after → Q after → Q levels)
    (switches : ∀ tid, A (.threadSwitch tid))
    (quiet : ∀ past levels event after, P past levels → event.quiet = true → A event →
      Levels.step cfg levels event = .ok after → Q after → P past after)
    (touched : ∀ past levels x after, P past levels → Touched cfg levels x after → P (past ++ [x]) after)
    {past : List Touch} {event : Event} (start : P past levels) (permitted : A event)
    (ok : Levels.step cfg levels event = .ok after) (good : Q after) :
    P (past ++ touchesOf cfg levels.cores levels.currentTid event) after := by
  rcases step_split ok with silent | ⟨middle,tid,moved,touches⟩
  · rw [touchesOf_quiet _ _ _ silent,List.append_nil]
    exact quiet past levels event after start silent permitted ok good
  · have between := quiet past levels (.threadSwitch tid) middle start rfl (switches tid) moved
      (back _ _ touches.still good)
    exact touches.keeps touched past between

end

section
variable {cfg : Config} {t d : Nat} {levels after : LevelRuntime}

theorem Buried.touched (buried : Buried cfg t d levels) {x : Touch} (touched : Touched cfg levels x after) :
    Buried cfg t d after := by
  obtain ⟨th,found,counted,below,inside⟩ := buried
  obtain ⟨th',found',frames⟩ := touched.still.frames t th found
  obtain ⟨counted',same⟩ := frames.counted counted
  exact ⟨th',found',counted',by omega,by rw [frames.depth]; exact inside⟩

/-- The input metric of the activation in slot `d` of thread `t`, unless it is not recorded. -/
def Measured (cfg : Config) (t d : Nat) (before during : List Touch) (levels : LevelRuntime) : Prop :=
  match cfg.inputMetric with
  | .rms => Clean levels ∧
    (Buried cfg t d levels ∨ Lived cfg t d (inputGranules t during).card 0 0 during levels)
  | _ => Chronicle (before ++ during) levels ∧
    (Buried cfg t d levels ∨ Lived cfg t d (tally (countsDrms t before) during)
      (tally (countsSyscall t before) during) (tally (countsThread t before) during) during levels)

theorem measured_rms (rms : cfg.inputMetric = .rms) (before during : List Touch) :
    Measured cfg t d before during levels ↔ Clean levels ∧
      (Buried cfg t d levels ∨ Lived cfg t d (inputGranules t during).card 0 0 during levels) := by
  simp only [Measured,rms]

theorem measured_drms (drms : cfg.inputMetric ≠ .rms) (before during : List Touch) :
    Measured cfg t d before during levels ↔ Chronicle (before ++ during) levels ∧
      (Buried cfg t d levels ∨ Lived cfg t d (tally (countsDrms t before) during)
        (tally (countsSyscall t before) during) (tally (countsThread t before) during) during levels) := by
  unfold Measured
  split
  · contradiction
  · rfl

theorem Measured.quiet {before during : List Touch} (measured : Measured cfg t d before during levels)
    {event : Event} (quiet : event.quiet = true) (stays : cfg.inputMetric ≠ .rms → event.exits = false)
    (ok : Levels.step cfg levels event = .ok after) (pending : Pending after.cores t d) :
    Measured cfg t d before during after := by
  rcases eq_or_ne cfg.inputMetric .rms with rms | drms
  · rw [measured_rms rms] at measured ⊢
    obtain ⟨clean,measured⟩ := measured
    exact ⟨clean.quiet rms quiet ok,measured.imp (·.quiet quiet ok pending) (·.quiet quiet ok pending)⟩
  · rw [measured_drms drms] at measured ⊢
    obtain ⟨chronicle,measured⟩ := measured
    exact ⟨chronicle.quiet drms quiet (stays drms) ok,
      measured.imp (·.quiet quiet ok pending) (·.quiet quiet ok pending)⟩

theorem Measured.touched {before during : List Touch} (measured : Measured cfg t d before during levels)
    {x : Touch} (touched : Touched cfg levels x after) : Measured cfg t d before (during ++ [x]) after := by
  rcases eq_or_ne cfg.inputMetric .rms with rms | drms
  · rw [measured_rms rms] at measured ⊢
    obtain ⟨clean,measured⟩ := measured
    refine ⟨clean.touched rms touched,measured.imp (·.touched touched) fun lived => ?_⟩
    obtain ⟨th,kernel,found,-,counted⟩ := lived.touched touched
    simp only [Counted,clean t th x.granule found,Bool.false_eq_true,false_or,false_and,and_false,if_false,Nat.add_zero]
      at counted
    rw [inputGranules_append]
    exact counted
  · rw [measured_drms drms] at measured ⊢
    obtain ⟨chronicle,measured⟩ := measured
    rw [← List.append_assoc]
    refine ⟨chronicle.touched drms touched,measured.imp (·.touched touched) fun lived => ?_⟩
    obtain ⟨th,kernel,found,byKernel,counted⟩ := lived.touched touched
    have dirty := chronicle.dirty t th x.granule found
    have writer := chronicle.byKernel t x.granule
    rw [tally_append,tally_append,tally_append]
    simp only [Counted,dirty,byKernel drms] at counted
    simp only [countsDrms,countsSyscall,countsThread,decide_eq_true_eq]
    convert counted using 4
    · rw [or_comm]
    · cases write : foreignWrite t (before ++ during) x.granule with
      | none => simp
      | some y => simp [writer y write]
    · cases write : foreignWrite t (before ++ during) x.granule with
      | none => simp
      | some y => simp [writer y write,Option.isSome_iff_ne_none]

end

section
variable {c : Counter} {cfg : Config}

/-- Every step of a run is taken under the condition. -/
def Along (cfg : Config) (cond : Runtime c → Event → Prop) : Runtime c → List Event → Prop
  | _, [] => True
  | rt, event :: events => cond rt event ∧ ∀ after, step cfg rt event = .ok after → Along cfg cond after events

def decideAlong {cond : Runtime c → Event → Prop} [∀ rt event, Decidable (cond rt event)] :
    ∀ (rt : Runtime c) (events : List Event), Decidable (Along cfg cond rt events)
  | _, [] => isTrue trivial
  | rt, event :: events =>
    have : DecidablePred fun after => Along cfg cond after events := fun after => decideAlong after events
    inferInstanceAs (Decidable (cond rt event ∧ ∀ after, step cfg rt event = .ok after → Along cfg cond after events))

instance {cond : Runtime c → Event → Prop} [∀ rt event, Decidable (cond rt event)] (rt : Runtime c) (events : List Event) :
    Decidable (Along cfg cond rt events) := decideAlong rt events

/-- Slot `d` of thread `t` is pending after every step of a run. -/
def Stays (cfg : Config) (t d : Nat) : Runtime c → List Event → Prop :=
  Along cfg fun rt event => ∀ after, step cfg rt event = .ok after → Pending after.threads t d

theorem Along.imp {cond cond' : Runtime c → Event → Prop} (events : List Event) : ∀ {rt : Runtime c},
    (∀ event ∈ events, ∀ rt, cond rt event → cond' rt event) → Along cfg cond rt events → Along cfg cond' rt events := by
  induction events with
  | nil => exact fun _ _ => trivial
  | cons event events ih =>
    intro rt implies along
    obtain ⟨own,implies⟩ := List.forall_mem_cons.mp implies
    exact ⟨own rt along.1,fun after ok => ih implies (along.2 after ok)⟩

theorem Along.cons {cond : Runtime c → Event → Prop} {rt after : Runtime c} {event : Event} {events : List Event}
    (here : cond rt event) (ok : step cfg rt event = .ok after) (rest : Along cfg cond after events) :
    Along cfg cond rt (event :: events) := by
  refine ⟨here,?_⟩
  intro after' ok'
  rw [ok] at ok'
  cases ok'
  exact rest

theorem Stays.cons {t d : Nat} {rt after : Runtime c} {event : Event} {events : List Event}
    (ok : step cfg rt event = .ok after) (pending : Pending after.threads t d) (rest : Stays cfg t d after events) :
    Stays cfg t d rt (event :: events) := by
  apply Along.cons ?_ ok rest
  intro after' ok'
  rw [ok] at ok'
  cases ok'
  exact pending

/-- A run followed by one without timestamps, where the steps are taken under `cond`. -/
structure Simulates (cfg : Config) (R : Runtime c → LevelRuntime → Prop) (cond : Runtime c → Event → Prop) :
    Prop where
  related : ∀ rt levels, R rt levels → Related (fun _ => Follows cfg) rt levels
  steps : ∀ rt levels event, R rt levels → cond rt event →
    Matches R (step cfg rt event) (Levels.step cfg levels event)
  begins : ∃ rt, initial c cfg = .ok rt ∧ R rt (Levels.initial cfg)

variable {rt : Runtime c} {levels : LevelRuntime}

theorem Related.cores (rel : Related (fun _ => Follows cfg) rt levels) (tid : Nat) :
    levels.cores tid = (rt.threads tid).map ThreadData.erase := by
  rcases rel.lookup tid with ⟨none,none'⟩ | ⟨tdata,thread,some,some',follows⟩
  · simp only [LevelRuntime.cores,none,none',Option.map_none]
  · simp only [LevelRuntime.cores,some,some',Option.map_some,follows.core]

theorem recording_erase (thread : Option ThreadData) : recording (thread.map ThreadData.erase) = recording thread := by
  cases thread <;> rfl

theorem touchesOf_related (rel : Related (fun _ => Follows cfg) rt levels) (event : Event) :
    touchesOf cfg levels.cores levels.currentTid event = touchesOf cfg rt.threads rt.currentTid event := by
  rw [rel.tid]
  cases event with
  | access type addr size => simp only [touchesOf,rel.cores,recording_erase]
  | postSyscall tid buffers => simp only [touchesOf,rel.cores,recording_erase]
  | _ => rfl

theorem pending_related (rel : Related (fun _ => Follows cfg) rt levels) {t d : Nat} :
    Pending levels.cores t d ↔ Pending rt.threads t d := by
  simp only [Pending,rel.cores,Option.map_eq_some_iff]
  constructor
  · rintro ⟨_,⟨tdata,found,rfl⟩,above⟩
    exact ⟨tdata,found,above⟩
  · rintro ⟨tdata,found,above⟩
    exact ⟨_,⟨tdata,found,rfl⟩,above⟩

variable {R : Runtime c → LevelRuntime → Prop} {cond : Runtime c → Event → Prop}

/-- What the steps without timestamps keep is kept by a run, as long as the states
it goes through are good. -/
theorem Simulates.run_keeps (sim : Simulates cfg R cond) {P : List Touch → LevelRuntime → Prop}
    {G : (Nat → Option ThreadData) → Prop} {A : Event → Prop}
    (same : ∀ rt levels, R rt levels → G rt.threads → G levels.cores)
    (keeps : ∀ past levels event after, P past levels → A event →
      Levels.step cfg levels event = .ok after → G after.cores →
      P (past ++ touchesOf cfg levels.cores levels.currentTid event) after)
    (events : List Event) {rt last : Runtime c} {levels : LevelRuntime} {past : List Touch} (rel : R rt levels)
    (start : P past levels) (permitted : ∀ event ∈ events, A event) (along : Along cfg cond rt events)
    (goods : Along cfg (fun rt event => ∀ after, step cfg rt event = .ok after → G after.threads) rt events)
    (finish : run cfg rt events = .ok last) :
    ∃ levels', R last levels' ∧ P (past ++ history cfg rt events) levels' := by
  induction events generalizing rt levels past with
  | nil =>
    cases finish
    exact ⟨levels,rel,by simpa [history] using start⟩
  | cons event events ih =>
    obtain ⟨middle,first,rest⟩ := bind_ok.mp finish
    have matched := sim.steps rt levels event rel along.1
    rw [first] at matched
    obtain ⟨levels',taken,rel'⟩ := matched.ok_left
    have kept := keeps past levels event levels' start (permitted event List.mem_cons_self) taken
      (same _ _ rel' (goods.1 middle first))
    obtain ⟨last',finished,all⟩ := ih rel' kept (fun event member => permitted event (List.mem_cons_of_mem _ member))
      (along.2 middle first) (goods.2 middle first) rest
    refine ⟨last',finished,?_⟩
    simp only [history,first]
    rwa [touchesOf_related (sim.related _ _ rel),List.append_assoc] at all

end

/-- After the events `before`, a call is made in state `start`; when the events
`during` have happened its frame, never popped so far, is on top and recorded. -/
structure Returning {c : Counter} (cfg : Config) (before : List Event) (sp : UInt64) (f : FnPtr)
    (during : List Event) (start entered last : Runtime c) (tdata : ThreadData) : Prop where
  reached : (initial c cfg >>= fun rt => run cfg rt before) = .ok start
  call : step cfg start (.functionEnter sp f) = .ok entered
  stays : Stays cfg start.currentTid (depthOf start.threads start.currentTid) entered during
  finish : run cfg entered during = .ok last
  found : last.threads start.currentTid = some tdata
  depth : tdata.stackDepth = depthOf start.threads start.currentTid + 1
  recorded : tdata.skip = 0

/-- The condition holds along the whole run up to the return. -/
structure Throughout {c : Counter} (cfg : Config) (cond : Runtime c → Event → Prop) (before : List Event)
    (sp : UInt64) (f : FnPtr) (during : List Event) (start entered : Runtime c) : Prop where
  before : ∀ rt, initial c cfg = .ok rt → Along cfg cond rt before
  call : cond start (.functionEnter sp f)
  during : Along cfg cond entered during

section
variable {c : Counter} {cfg : Config} {R : Runtime c → LevelRuntime → Prop} {cond : Runtime c → Event → Prop}
  {before during : List Event} {sp : UInt64} {f : FnPtr} {start entered last : Runtime c} {tdata : ThreadData}

def Backdrop (cfg : Config) (past : List Touch) (levels : LevelRuntime) : Prop :=
  if cfg.inputMetric = .rms then Clean levels else Chronicle past levels

theorem Backdrop.step {past : List Touch} {levels after : LevelRuntime} (backdrop : Backdrop cfg past levels)
    {event : Event} (stays : cfg.inputMetric ≠ .rms → event.exits = false)
    (ok : Levels.step cfg levels event = .ok after) :
    Backdrop cfg (past ++ touchesOf cfg levels.cores levels.currentTid event) after := by
  apply step_keeps (P := Backdrop cfg) (Q := fun _ => True)
    (A := fun event => cfg.inputMetric ≠ .rms → event.exits = false) (fun _ _ _ _ => trivial)
    (fun _ _ => rfl) ?_ ?_ backdrop stays ok trivial
  · intro past levels event after backdrop quiet stays ok _
    unfold Backdrop at backdrop ⊢
    split
    · next rms =>
      rw [if_pos rms] at backdrop
      exact backdrop.quiet rms quiet ok
    · next drms =>
      rw [if_neg drms] at backdrop
      exact backdrop.quiet drms quiet (stays drms) ok
  · intro past levels x after backdrop touched
    unfold Backdrop at backdrop ⊢
    split
    · next rms =>
      rw [if_pos rms] at backdrop
      exact backdrop.touched rms touched
    · next drms =>
      rw [if_neg drms] at backdrop
      exact backdrop.touched drms touched

theorem Measured.step {t d : Nat} {past touches : List Touch} {levels after : LevelRuntime}
    (measured : Measured cfg t d past touches levels)
    {event : Event} (stays : cfg.inputMetric ≠ .rms → event.exits = false)
    (ok : Levels.step cfg levels event = .ok after) (pending : Pending after.cores t d) :
    Measured cfg t d past (touches ++ touchesOf cfg levels.cores levels.currentTid event) after := by
  apply step_keeps (P := Measured cfg t d past) (Q := fun levels => Pending levels.cores t d)
    (A := fun event => cfg.inputMetric ≠ .rms → event.exits = false)
    (fun _ _ still pending => pending.still still) (fun _ _ => rfl) ?_ ?_ measured stays ok pending
  · intro past levels event after measured quiet stays ok pending
    exact measured.quiet quiet stays ok pending
  · intro past levels x after measured touched
    exact measured.touched touched

theorem measured_call {past : List Touch} {levels after : LevelRuntime} {th : LevelThread}
    (found : levels.threads levels.currentTid = some th) (follows : Follows cfg tdata th)
    (backdrop : Backdrop cfg past levels) (ok : Levels.step cfg levels (.functionEnter sp f) = .ok after) :
    Measured cfg levels.currentTid th.core.stackDepth past [] after := by
  have next := backdrop.step (fun _ => rfl) ok
  have zero : Buried cfg levels.currentTid th.core.stackDepth after ∨
      Lived cfg levels.currentTid th.core.stackDepth 0 0 0 [] after := by
    obtain ⟨th',current,ok⟩ := bind_ok.mp ok
    obtain ⟨pushed,push,ok⟩ := bind_ok.mp ok
    cases ok
    have same := levels_current_ok.mp current
    rw [found] at same
    cases same
    have counted : SkipCounted cfg th.core := follows.core ▸ follows.counted
    have le := recordedDepth_le cfg th.core
    have entered := functionEnter_entered counted levels.shared push
    have height := functionEnter_depth levels.shared push
    by_cases visible : recordedDepth cfg (Levels.functionEnter cfg levels.shared pushed).2 = th.core.stackDepth + 1
    · refine Or.inr ⟨_,Function.update_self _ _ _,?_⟩
      have free : th.core.skip = 0 := by
        cases entered with
        | hidden _ depth _ => omega
        | recorded free _ _ _ _ => exact free
      have tracks : ∀ g, th.levels g ≤ recordedDepth cfg th.core := by
        rw [follows.core]
        exact follows.tracks.le
      have seen : (fun g => !untouched levels.currentTid [] g) = fun _ => false := rfl
      rw [seen]
      exact Inside.start free counted tracks visible entered
    · refine Or.inl ⟨_,Function.update_self _ _ _,?_,?_,?_⟩
      · cases entered with
        | hidden counted' _ _ => exact counted'
        | recorded _ counted' _ _ _ => exact counted'
      · cases entered with
        | hidden _ depth _ => exact Nat.le_trans (Nat.le_of_eq depth) le
        | recorded _ _ depth _ _ => exact absurd depth visible
      · exact Nat.lt_of_lt_of_eq (Nat.lt_succ_self _) height.symm
  rcases eq_or_ne cfg.inputMetric .rms with rms | drms
  · rw [measured_rms rms]
    rw [Backdrop,if_pos rms] at next
    exact ⟨next,zero⟩
  · rw [measured_drms drms]
    rw [Backdrop,if_neg drms] at next
    exact ⟨next,zero⟩

theorem along_true (rt : Runtime c) (events : List Event) :
    Along cfg (fun rt event => ∀ after : Runtime c, step cfg rt event = .ok after → True) rt events := by
  induction events generalizing rt with
  | nil => exact trivial
  | cons event events ih => exact ⟨fun _ _ => trivial,fun after _ => ih after⟩

theorem Returning.measured (returning : Returning cfg before sp f during start entered last tdata)
    (sim : Simulates cfg R cond) (throughout : Throughout cfg cond before sp f during start entered)
    (stays : cfg.inputMetric ≠ .rms → ∀ event ∈ before ++ during, event.exits = false) :
    ∃ first levels, initial c cfg = .ok first ∧ R last levels ∧
      Measured cfg start.currentTid (depthOf start.threads start.currentTid) (history cfg first before)
        (history cfg entered during) levels := by
  obtain ⟨first,ok,rel⟩ := sim.begins
  have reached := returning.reached
  rw [ok,ok_bind] at reached
  have backdrop : Backdrop cfg [] (Levels.initial cfg) := by
    unfold Backdrop
    split
    · intro tid th g found
      cases found
    · exact .start cfg
  obtain ⟨levels,rel₁,known⟩ := sim.run_keeps (P := Backdrop cfg) (G := fun _ => True)
    (A := fun event => cfg.inputMetric ≠ .rms → event.exits = false) (fun _ _ _ _ => trivial)
    (fun past levels event after backdrop stays ok _ => backdrop.step stays ok) before rel backdrop
    (fun event member drms => stays drms event (List.mem_append_left _ member)) (throughout.before first ok)
    (along_true first before) reached
  have matched := sim.steps start levels (.functionEnter sp f) rel₁ throughout.call
  rw [returning.call] at matched
  obtain ⟨levels₁,taken,rel₂⟩ := matched.ok_left
  have related := sim.related _ _ rel₁
  have tid := related.tid
  obtain ⟨th,current,_⟩ := bind_ok.mp taken
  have found := levels_current_ok.mp current
  have callee : Measured cfg start.currentTid (depthOf start.threads start.currentTid)
      (history cfg first before) [] levels₁ := by
    rw [tid] at found
    rcases related.lookup start.currentTid with ⟨_,none⟩ | ⟨tdata,thread,some,some',follows⟩
    · rw [none] at found
      cases found
    · rw [found] at some'
      cases some'
      have measured := measured_call (by rw [tid]; exact found) follows known taken
      rw [tid,follows.depth] at measured
      simpa only [depthOf,some,Option.map_some,Option.getD_some,List.nil_append] using measured
  obtain ⟨levels₂,rel₃,measured⟩ := sim.run_keeps
    (P := Measured cfg start.currentTid (depthOf start.threads start.currentTid) (history cfg first before))
    (G := fun threads => Pending threads start.currentTid (depthOf start.threads start.currentTid))
    (A := fun event => cfg.inputMetric ≠ .rms → event.exits = false)
    (fun rt levels rel pending => (pending_related (sim.related _ _ rel)).mpr pending)
    (fun past levels event after measured stays ok pending => measured.step stays ok pending) during rel₂ callee
    (fun event member drms => stays drms event (List.mem_append_right _ member)) throughout.during
    returning.stays returning.finish
  exact ⟨first,levels₂,ok,rel₃,measured⟩

theorem Returning.counters (returning : Returning cfg before sp f during start entered last tdata)
    {levels : LevelRuntime} (rel : Related (fun _ => Follows cfg) last levels) {touches : List Touch}
    {size syscall thread : Nat}
    (followed : Buried cfg start.currentTid (depthOf start.threads start.currentTid) levels ∨
      Lived cfg start.currentTid (depthOf start.threads start.currentTid) size syscall thread touches levels) :
    tdata.top.inputSize = UInt32.ofNat size ∧ tdata.top.cumulSyscall = UInt64.ofNat syscall ∧
      tdata.top.cumulThread = UInt64.ofNat thread := by
  obtain ⟨-,-,-,-,found,depth,recorded⟩ := returning
  rcases rel.lookup start.currentTid with ⟨none,_⟩ | ⟨tdata',th,some,some',follows⟩
  · rw [none] at found
    cases found
  · rw [found] at some
    cases some
    have height := follows.depth.trans depth
    rcases followed with ⟨th',found',counted,below,_⟩ | ⟨th',found',inside⟩
    · rw [some'] at found'
      cases found'
      have all := counted.recorded_iff.mp (follows.skip.trans recorded)
      omega
    · rw [some'] at found'
      cases found'
      have top := inside.top height
      rw [follows.core] at top
      exact top

end

end Aprof
