import Aprof.BasicBlocks
import Aprof.CallStack

/-! Threads side by side when the input metric is RMS. Calls, returns and accesses
of the current thread read and write its own data only, so two runtimes that agree
on the thread stay in step on it. -/
namespace Aprof

open Lockstep

section
variable {c : Counter} {cfg : Config}

/-- The thread is the current one of both runtimes, which agree on it, and the
first has changed no other thread of `base`. -/
structure Together (base : Runtime c) (t : Nat) (rt solo : Runtime c) : Prop where
  here : rt.currentTid = t
  alone : solo.currentTid = t
  thread : solo.threads t = rt.threads t
  elsewhere : ∀ u, u ≠ t → rt.threads u = base.threads u

section
variable {base rt solo : Runtime c} {t : Nat}

theorem Together.current (together : Together base t rt solo) : Matches Eq rt.current solo.current := by
  unfold Runtime.current
  rw [together.here,together.alone,together.thread]
  cases rt.threads t with
  | none => trivial
  | some tdata => exact rfl

theorem Together.put (together : Together base t rt solo) (tdata : ThreadData) {shared shared' : Shared} :
    Together base t (({rt with shared := shared} : Runtime c).put rt.currentTid tdata)
      (({solo with shared := shared'} : Runtime c).put solo.currentTid tdata) := by
  obtain ⟨rfl,alone,thread,elsewhere⟩ := together
  refine ⟨rfl,alone,?_,fun u other => (Function.update_of_ne other _ _).trans (elsewhere u other)⟩
  change Function.update solo.threads solo.currentTid _ _ = Function.update rt.threads rt.currentTid _ _
  rw [alone,Function.update_self,Function.update_self]

theorem popShared_separate (separate : cfg.singleReport = false) (shared : Shared) (tdata : ThreadData) :
    popShared cfg shared tdata =
      (shared,{functionExit cfg tdata with stackDepth := tdata.stackDepth - 1}) := by
  unfold popShared exitShared
  rw [if_neg (show ¬ cfg.singleReport = true by simp [separate])]

theorem enterShared_separate (separate : cfg.singleReport = false) (shared : Shared) (tdata : ThreadData) :
    enterShared cfg shared tdata = (shared,enterRecorded cfg tdata) := by
  unfold enterShared
  rw [if_neg (show ¬ cfg.singleReport = true by simp [separate])]

theorem Together.functionEnter (together : Together base t rt solo) (rms : cfg.inputMetric = .rms)
    (separate : cfg.singleReport = false) (tdata : ThreadData) :
    Matches (Together base t) (functionEnter cfg rt rt.currentTid tdata)
      (functionEnter cfg solo solo.currentTid tdata) := by
  unfold Aprof.functionEnter
  dsimp only
  split
  · exact together.put _
  · split
    · exact together.put _
    · unfold assignId
      rw [rms]
      simp only [ok_bind,enterShared_separate separate]
      exact together.put _

theorem Together.pushStack (together : Together base t rt solo) (rms : cfg.inputMetric = .rms)
    (separate : cfg.singleReport = false) (sp : UInt64) (f : FnPtr) :
    Matches (Together base t) (pushStack cfg rt sp f) (pushStack cfg solo sp f) := by
  refine together.current.bind ?_
  rintro tdata _ _ rfl
  cases pushFrame cfg tdata sp f with
  | error fault => trivial
  | ok pushed => exact together.functionEnter rms separate pushed

theorem Together.popStack (together : Together base t rt solo) (separate : cfg.singleReport = false) :
    Matches (Together base t) (popStack cfg rt) (popStack cfg solo) := by
  refine together.current.bind ?_
  rintro tdata _ _ rfl
  cases check (0 < tdata.stackDepth) "Invalid stack depth" with
  | error fault => trivial
  | ok value =>
    simp only [ok_bind,popShared_separate separate]
    exact together.put _

theorem Together.tick (together : Together base t rt solo) :
    Matches (Together base t) (bbStart rt) (bbStart solo) := by
  refine together.current.bind ?_
  rintro tdata _ _ rfl
  exact together.put _

theorem Together.popStackTo (together : Together base t rt solo) (separate : cfg.singleReport = false) (csp : UInt64)
    (turns frames : Nat) :
    Matches (fun popped popped' : Runtime c × Nat => Together base t popped.1 popped'.1 ∧ popped.2 = popped'.2)
      (popStackTo cfg csp turns frames rt) (popStackTo cfg csp turns frames solo) := by
  induction turns generalizing frames rt solo with
  | zero => exact ⟨together,rfl⟩
  | succ turns ih =>
    refine together.current.bind ?_
    rintro tdata _ _ rfl
    split
    · refine (together.popStack separate).bind ?_
      intro rt' solo' _ popped
      refine (ih popped (frames - 1)).bind ?_
      rintro ⟨rt'',n⟩ ⟨solo'',_⟩ _ ⟨rest,rfl⟩
      exact ⟨rest,rfl⟩
    · exact ⟨together,rfl⟩

theorem Together.storeReturn (together : Together base t rt solo) (tdata : ThreadData) (last : Option BB) :
    Together base t (storeReturn rt tdata last) (storeReturn solo tdata last) := by
  unfold Aprof.storeReturn
  split
  · exact together
  · split
    · exact together.put _
    · exact together

theorem Together.adjustStack (together : Together base t rt solo) (rms : cfg.inputMetric = .rms)
    (separate : cfg.singleReport = false) (last : Option BB) (bb : BB) (csp : UInt64) (exit : Jump) (emulated : Bool) :
    Matches (Together base t) (adjustStack cfg rt last bb csp exit emulated)
      (adjustStack cfg solo last bb csp exit emulated) := by
  refine together.current.bind ?_
  rintro tdata _ _ rfl
  refine (together.popStackTo separate csp tdata.stackDepth 0).bind ?_
  rintro ⟨rt',n⟩ ⟨solo',_⟩ _ ⟨popped,rfl⟩
  dsimp only
  split
  · exact (popped.storeReturn tdata last).pushStack rms separate _ bb.fn
  · exact popped

theorem Together.leaveResolver (together : Together base t rt solo) (separate : cfg.singleReport = false)
    (last : Option BB) (emulated : Bool) (csp : UInt64) :
    Matches (fun left left' : Runtime c × UInt64 => Together base t left.1 left'.1 ∧ left.2 = left'.2)
      (leaveResolver cfg rt last emulated csp) (leaveResolver cfg solo last emulated csp) := by
  refine together.current.bind ?_
  rintro tdata _ _ rfl
  split
  · refine (together.popStack separate).bind ?_
    intro rt' solo' _ popped
    exact ⟨popped,rfl⟩
  · exact ⟨together,rfl⟩

theorem Together.transferTo (together : Together base t rt solo) (rms : cfg.inputMetric = .rms)
    (separate : cfg.singleReport = false) (last : Option BB) (bb : BB) (csp : UInt64) (exit : Jump) (returns : Nat) :
    Matches (Together base t) (transferTo cfg rt last bb csp exit returns)
      (transferTo cfg solo last bb csp exit returns) := by
  unfold Aprof.transferTo
  dsimp only
  generalize (if decide (exit = .bbRet ∧ returns = 0) = true then Jump.bbOther else exit) = exit'
  generalize (last.any fun last => emulates cfg last bb _ _) = emulated
  refine (together.leaveResolver separate last emulated csp).bind ?_
  rintro ⟨rt',csp'⟩ ⟨solo',_⟩ _ ⟨left,rfl⟩
  dsimp only at left ⊢
  generalize (if emulated = true then Jump.bbCall else _) = exit''
  split
  · refine left.current.bind ?_
    rintro tdata _ _ rfl
    refine (left.popStackTo separate csp' tdata.stackDepth returns).bind ?_
    rintro ⟨rt'',n⟩ ⟨solo'',_⟩ _ ⟨popped,-⟩
    exact popped
  · exact left.adjustStack rms separate last bb csp' _ _

theorem Together.traceAccess (together : Together base t rt solo) (rms : cfg.inputMetric = .rms) (type : AccessType)
    (addr size : Nat) (kernelAccess : Bool) :
    Matches (Together base t) (traceAccess cfg rt type addr size kernelAccess)
      (traceAccess cfg solo type addr size kernelAccess) := by
  refine together.current.bind ?_
  rintro tdata _ _ rfl
  rw [rms]
  dsimp only
  cases traceAccessRms cfg tdata type addr size with
  | error fault => trivial
  | ok tdata => exact together.put _

end

def TraceEvent.own : TraceEvent → Bool
  | .bbStart _ _ | .bbEnd | .access _ _ _ => true
  | _ => false

/-- A run of the thread alone is where the whole run is: with its data, its last
block, and the exit of that block wherever the whole run has put it. -/
structure Alike (tr solo : Tracer c) (t : Nat) : Prop where
  alone : solo.rt.currentTid = t
  thread : solo.rt.threads t = tr.rt.threads t
  lastBB : solo.lastBB t = tr.lastBB t
  exit : (tr.lastBB t).isSome = true →
    solo.lastExit = if tr.rt.currentTid = t then tr.lastExit else tr.savedExit t

/-- What an event of the current thread leaves as it was. -/
structure Undisturbed (tr after : Tracer c) (t : Nat) : Prop where
  current : after.rt.currentTid = t
  threads : ∀ u, u ≠ t → after.rt.threads u = tr.rt.threads u
  lastBB : ∀ u, u ≠ t → after.lastBB u = tr.lastBB u
  savedExit : after.savedExit = tr.savedExit

namespace Tracer

variable {tr solo after : Tracer c} {t : Nat}

theorem exitSeen_alike (alike : Alike tr solo t) (here : tr.rt.currentTid = t) : solo.exitSeen = tr.exitSeen := by
  unfold exitSeen
  rw [alike.alone,here,alike.lastBB]
  split
  · next seen =>
    rw [alike.exit seen,if_pos here]
  · rfl

theorem bbStart_alike (alike : Alike tr solo t) (here : tr.rt.currentTid = t) (rms : cfg.inputMetric = .rms)
    (separate : cfg.singleReport = false) (bb : BB) (csp : UInt64) :
    Matches (fun after solo' : Tracer c => Alike after solo' t ∧ Undisturbed tr after t)
      (tr.bbStart cfg bb csp) (solo.bbStart cfg bb csp) := by
  have together : Together tr.rt t tr.rt solo.rt := ⟨here,alike.alone,alike.thread,fun _ _ => rfl⟩
  unfold Tracer.bbStart
  rw [exitSeen_alike alike here]
  refine together.tick.bind ?_
  intro rt rt' _ ticked
  refine ticked.current.bind ?_
  rintro tdata _ _ rfl
  have analysed : ∀ analysis : Result Nat, Matches (fun after solo' : Tracer c => Alike after solo' t ∧ Undisturbed tr after t)
      (analysis >>= fun returns => transferTo cfg rt (tr.lastBB rt.currentTid) bb csp tr.exitSeen returns >>= fun rt =>
        .ok {tr with rt := rt, lastBB := Function.update tr.lastBB rt.currentTid (some bb), lastExit := .bbOther})
      (analysis >>= fun returns => transferTo cfg rt' (solo.lastBB rt'.currentTid) bb csp tr.exitSeen returns >>= fun rt =>
        .ok {solo with rt := rt, lastBB := Function.update solo.lastBB rt.currentTid (some bb), lastExit := .bbOther}) := by
    intro analysis
    cases analysis with
    | error fault => trivial
    | ok returns =>
      simp only [ok_bind]
      rw [ticked.here,ticked.alone,alike.lastBB]
      refine (ticked.transferTo rms separate (tr.lastBB t) bb csp tr.exitSeen returns).bind ?_
      intro rt rt' _ moved
      refine ⟨⟨moved.alone,moved.thread,?_,?_⟩,moved.here,moved.elsewhere,?_,rfl⟩
      · dsimp only
        rw [moved.here,moved.alone,Function.update_self,Function.update_self]
      · intro _
        exact (if_pos moved.here).symm
      · intro u other
        dsimp only
        rw [moved.here,Function.update_of_ne other]
  dsimp only
  split
  · exact analysed _
  · exact analysed _

theorem own_alike (alike : Alike tr solo t) (here : tr.rt.currentTid = t) (rms : cfg.inputMetric = .rms)
    (separate : cfg.singleReport = false) {event : TraceEvent} (own : event.own = true)
    (ok : tr.step cfg event = .ok after) :
    (∃ solo', solo.step cfg event = .ok solo' ∧ Alike after solo' t) ∧ Undisturbed tr after t := by
  cases event with
  | bbStart bb csp =>
    have same := bbStart_alike alike here rms separate bb csp
    rw [show tr.bbStart cfg bb csp = .ok after from ok] at same
    obtain ⟨solo',stepped,alike',undisturbed⟩ := same.ok_left
    exact ⟨⟨solo',stepped,alike'⟩,undisturbed⟩
  | bbEnd =>
    cases ok
    refine ⟨⟨solo.bbEnd,rfl,alike.alone,alike.thread,alike.lastBB,fun seen => ?_⟩,here,fun _ _ => rfl,fun _ _ => rfl,rfl⟩
    refine Eq.trans ?_ (if_pos here).symm
    unfold bbEnd
    dsimp only
    rw [alike.alone,alike.lastBB,here]
    obtain ⟨bb,last⟩ := Option.isSome_iff_exists.mp seen
    rw [show tr.lastBB t = some bb from last]
    rfl
  | access type addr size =>
    obtain ⟨rt,traced,ok⟩ := bind_ok.mp ok
    cases ok
    have together : Together tr.rt t tr.rt solo.rt := ⟨here,alike.alone,alike.thread,fun _ _ => rfl⟩
    have same := together.traceAccess rms type addr size false
    rw [traced] at same
    obtain ⟨rt',traced',moved⟩ := same.ok_left
    refine ⟨⟨{solo with rt := rt'},bind_ok.mpr ⟨rt',traced',rfl⟩,moved.alone,moved.thread,alike.lastBB,fun seen => ?_⟩,
      moved.here,moved.elsewhere,fun _ _ => rfl,rfl⟩
    rw [show solo.lastExit = _ from alike.exit seen,if_pos here,if_pos moved.here]
  | threadCreate child => cases own
  | threadSwitch tid => cases own
  | threadExit tid => cases own

end Tracer

/-- The own events of every thread since its start, with the switch that starts it. -/
def followOwn (tr after : Tracer c) (event : TraceEvent) (own : Nat → List TraceEvent) (t : Nat) : List TraceEvent :=
  if (tr.rt.threads t).isNone ∧ (after.rt.threads t).isSome then [.threadSwitch t]
  else if event.own ∧ t = tr.rt.currentTid then own t ++ [event]
  else own t

def ownEvents (cfg : Config) : Tracer c → (Nat → List TraceEvent) → List TraceEvent → Nat → List TraceEvent
  | _, own, [] => own
  | tr, own, event :: events => match tr.step cfg event with
    | .error _ => own
    | .ok after => ownEvents cfg after (followOwn tr after event own) events

/-- `thread_exit` forgets the current thread. When that is not the one that exits,
the exit of its last block is to be the one that was saved for it. -/
def ExitsSafely (tr : Tracer c) : TraceEvent → Prop
  | .threadExit tid => tid ≠ tr.rt.currentTid → (tr.rt.threads tr.rt.currentTid).isSome = true →
    (tr.lastBB tr.rt.currentTid).isSome = true → tr.savedExit tr.rt.currentTid = tr.lastExit
  | _ => True

/-- Every step of a run is taken under the condition. -/
def AlongTrace (cfg : Config) (cond : Tracer c → TraceEvent → Prop) : Tracer c → List TraceEvent → Prop
  | _, [] => True
  | tr, event :: events => cond tr event ∧ ∀ after, tr.step cfg event = .ok after → AlongTrace cfg cond after events

/-- Every thread is where the run of its own events is. -/
structure Isolated (cfg : Config) (first tr : Tracer c) (own : Nat → List TraceEvent) : Prop where
  nobody : tr.rt.threads 0 = none
  solo : ∀ t, (tr.rt.threads t).isSome = true → ∃ solo, first.run cfg (own t) = .ok solo ∧ Alike tr solo t

section
variable {first tr after : Tracer c} {own : Nat → List TraceEvent} {t : Nat}

theorem Alike.keep {solo : Tracer c} (alike : Alike tr solo t) (thread : after.rt.threads t = tr.rt.threads t)
    (lastBB : after.lastBB t = tr.lastBB t)
    (exit : (tr.lastBB t).isSome = true → (if after.rt.currentTid = t then after.lastExit else after.savedExit t) =
      if tr.rt.currentTid = t then tr.lastExit else tr.savedExit t) : Alike after solo t := by
  refine ⟨alike.alone,alike.thread.trans thread.symm,alike.lastBB.trans lastBB.symm,fun seen => ?_⟩
  rw [lastBB] at seen
  rw [exit seen]
  exact alike.exit seen

theorem followOwn_other {event : TraceEvent} (present : (tr.rt.threads t).isSome = true)
    (other : event.own = false ∨ t ≠ tr.rt.currentTid) : followOwn tr after event own t = own t := by
  unfold followOwn
  obtain ⟨tdata,found⟩ := Option.isSome_iff_exists.mp present
  rw [found,if_neg (by simp),if_neg]
  rintro ⟨mine,here⟩
  rcases other with foreign | elsewhere
  · rw [foreign] at mine
    cases mine
  · exact elsewhere here

theorem followOwn_start {event : TraceEvent} (absent : tr.rt.threads t = none)
    (present : (after.rt.threads t).isSome = true) : followOwn tr after event own t = [.threadSwitch t] := by
  unfold followOwn
  rw [absent,if_pos ⟨rfl,present⟩]

theorem start_alone (created : Tracer.initial c cfg = .ok first) (rms : cfg.inputMetric = .rms) {rt started : Runtime c}
    (ok : threadStart cfg rt t = .ok started) : ∃ solo, first.run cfg [.threadSwitch t] = .ok solo ∧
      solo.rt.currentTid = t ∧ solo.rt.threads t = started.threads t ∧ solo.lastBB t = none := by
  obtain ⟨base,made,created⟩ := bind_ok.mp created
  cases created
  obtain ⟨global,_,made⟩ := bind_ok.mp made
  cases made
  obtain ⟨_,valid,ok⟩ := bind_ok.mp ok
  obtain ⟨_,_,ok⟩ := bind_ok.mp ok
  obtain ⟨shadow,made,ok⟩ := bind_ok.mp ok
  cases ok
  have positive : t ≠ 0 := by
    have inside := check_ok.mp valid
    simp only [Bool.and_eq_true,decide_eq_true_eq] at inside
    omega
  let opened : Runtime c := ⟨fun _ => none,t,1,global,⟨fun f => (cfg.fn f).inputMap,[⟨[],0,0⟩]⟩,[]⟩
  have start : threadStart cfg opened t = .ok (opened.put t (newThread cfg t shadow)) := by
    have free : check (opened.threads t).isNone "Double thread" = .ok () := rfl
    unfold threadStart
    rw [valid,ok_bind,free,ok_bind,made,ok_bind]
  have switched : threadSwitch cfg ({opened with currentTid := 0} : Runtime c) t =
      .ok (opened.put t (newThread cfg t shadow)) := by
    unfold threadSwitch
    rw [if_neg positive]
    dsimp only
    rw [if_neg positive,if_neg (show ¬ cfg.inputMetric = .drms by rw [rms]; decide)]
    exact start
  let before : Tracer c := ⟨{opened with currentTid := 0},fun _ => none,fun _ => .none,.none⟩
  let joined := before.fresh t (opened.put t (newThread cfg t shadow))
  have stepped : before.threadSwitch cfg t = .ok {joined with lastExit := joined.savedExit t} := by
    unfold Tracer.threadSwitch
    rw [show threadSwitch cfg before.rt t = _ from switched,ok_bind]
    dsimp only
    rw [if_neg positive,if_neg positive]
    rfl
  have own : ∀ rt : Runtime c, (rt.put t (newThread cfg t shadow)).threads t = some (newThread cfg t shadow) :=
    fun _ => Function.update_self ..
  exact ⟨_,bind_ok.mpr ⟨_,stepped,rfl⟩,rfl,(own opened).trans (own rt).symm,Function.update_self ..⟩

theorem Isolated.started (isolated : Isolated cfg first tr own) {event : TraceEvent} {tid : Nat}
    (foreign : event.own = false) (absent : tr.rt.threads tid = none)
    (start : ∃ solo, first.run cfg [.threadSwitch tid] = .ok solo ∧ Alike after solo tid)
    (nobody : after.rt.threads 0 = none)
    (others : ∀ u, u ≠ tid → (after.rt.threads u).isSome = true → (tr.rt.threads u).isSome = true ∧
      ∀ solo, Alike tr solo u → Alike after solo u) :
    Isolated cfg first after (followOwn tr after event own) := by
  refine ⟨nobody,fun u present => ?_⟩
  by_cases same : u = tid
  · subst same
    rw [followOwn_start absent present]
    exact start
  · obtain ⟨before,keep⟩ := others u same present
    rw [followOwn_other before (Or.inl foreign)]
    obtain ⟨solo,ran,alike⟩ := isolated.solo u before
    exact ⟨solo,ran,keep solo alike⟩

theorem threadStart_ok {rt started : Runtime c} {tid : Nat} (ok : threadStart cfg rt tid = .ok started) :
    tid ≠ 0 ∧ rt.threads tid = none ∧ started.currentTid = rt.currentTid ∧ (started.threads tid).isSome = true ∧
      ∀ u, u ≠ tid → started.threads u = rt.threads u := by
  obtain ⟨_,valid,ok⟩ := bind_ok.mp ok
  obtain ⟨_,absent,ok⟩ := bind_ok.mp ok
  obtain ⟨shadow,_,ok⟩ := bind_ok.mp ok
  cases ok
  have inside := check_ok.mp valid
  simp only [Bool.and_eq_true,decide_eq_true_eq] at inside
  refine ⟨by omega,by simpa using check_ok.mp absent,rfl,?_,fun u other => Function.update_of_ne other _ _⟩
  change (Function.update rt.threads tid _ tid).isSome = true
  rw [Function.update_self]
  rfl

theorem fresh_lastBB (tr : Tracer c) (tid : Nat) (rt : Runtime c) : (tr.fresh tid rt).lastBB tid = none :=
  Function.update_self ..

theorem Isolated.threadCreate (isolated : Isolated cfg first tr own) (created : Tracer.initial c cfg = .ok first)
    (rms : cfg.inputMetric = .rms) {child : Nat} (ok : tr.threadCreate cfg child = .ok after) :
    Isolated cfg first after (followOwn tr after (.threadCreate child) own) := by
  obtain ⟨rt,started,ok⟩ := bind_ok.mp ok
  cases ok
  obtain ⟨positive,absent,current,-,others⟩ := threadStart_ok started
  obtain ⟨solo,ran,alone,thread,last⟩ := start_alone created rms started
  refine isolated.started rfl absent ⟨solo,ran,alone,thread,?_,fun seen => ?_⟩ ?_ fun u other found => ?_
  · exact last.trans (fresh_lastBB tr child rt).symm
  · rw [fresh_lastBB] at seen
    cases seen
  · exact (others 0 positive.symm).trans isolated.nobody
  · have same : (tr.fresh child rt).rt.threads u = tr.rt.threads u := others u other
    rw [same] at found
    refine ⟨found,fun solo alike => alike.keep same (Function.update_of_ne other _ _) fun _ => ?_⟩
    change (if rt.currentTid = u then tr.lastExit else Function.update tr.savedExit child .none u) = _
    rw [current,Function.update_of_ne other]

theorem Isolated.threadExit (isolated : Isolated cfg first tr own) {tid : Nat}
    (safe : ExitsSafely tr (.threadExit tid)) (ok : tr.threadExit cfg tid = .ok after) :
    Isolated cfg first after (followOwn tr after (.threadExit tid) own) := by
  obtain ⟨rt,exited,ok⟩ := bind_ok.mp ok
  cases ok
  unfold Aprof.threadExit at exited
  split at exited
  · cases exited
  · cases exited
    have look : ∀ u, Function.update tr.rt.threads tid none u = if u = tid then none else tr.rt.threads u :=
      fun u => Function.update_apply _ _ _ _
    refine ⟨?_,fun u present => ?_⟩
    · dsimp only
      rw [look,isolated.nobody,ite_self]
    · dsimp only at present
      rw [look] at present
      split at present
      · cases present
      · next other =>
        rw [followOwn_other present (Or.inl rfl)]
        obtain ⟨solo,ran,alike⟩ := isolated.solo u present
        refine ⟨solo,ran,alike.keep ((look u).trans (if_neg other)) rfl fun seen => ?_⟩
        have positive : u ≠ 0 := by
          rintro rfl
          rw [isolated.nobody] at present
          cases present
        refine (if_neg positive.symm).trans ?_
        split
        · next here =>
          -- the current thread goes on with the exit that was saved when it last was switched to
          subst here
          exact safe (Ne.symm other) present seen
        · rfl

theorem Isolated.foreign (isolated : Isolated cfg first tr own) {event : TraceEvent} (foreign : event.own = false)
    (nobody : after.rt.threads 0 = none)
    (same : ∀ u, after.rt.threads u = tr.rt.threads u)
    (keep : ∀ u solo, (tr.rt.threads u).isSome = true → Alike tr solo u → Alike after solo u) :
    Isolated cfg first after (followOwn tr after event own) := by
  refine ⟨nobody,fun u present => ?_⟩
  rw [same] at present
  rw [followOwn_other present (Or.inl foreign)]
  obtain ⟨solo,ran,alike⟩ := isolated.solo u present
  exact ⟨solo,ran,keep u solo present alike⟩

theorem Isolated.threadSwitch (isolated : Isolated cfg first tr own) (created : Tracer.initial c cfg = .ok first)
    (rms : cfg.inputMetric = .rms) {tid : Nat} (ok : tr.threadSwitch cfg tid = .ok after) :
    Isolated cfg first after (followOwn tr after (.threadSwitch tid) own) := by
  obtain ⟨rt,switched,ok⟩ := bind_ok.mp ok
  dsimp only at ok
  split at ok
  · cases ok
    exact isolated.foreign rfl isolated.nobody (fun _ => rfl) fun _ _ _ alike => alike
  · next moves =>
    have store : ∀ saving : Tracer c, (if (tr.rt.threads tr.rt.currentTid).isSome then
        {tr with savedExit := Function.update tr.savedExit tr.rt.currentTid tr.lastExit} else tr) = saving →
        saving.lastBB = tr.lastBB ∧ ∀ u, (tr.rt.threads u).isSome = true →
          saving.savedExit u = if tr.rt.currentTid = u then tr.lastExit else tr.savedExit u := by
      rintro _ rfl
      split
      · refine ⟨rfl,fun u _ => ?_⟩
        simp only [Function.update_apply,eq_comm]
      · next idle =>
        refine ⟨rfl,fun u present => (if_neg ?_).symm⟩
        rintro rfl
        exact idle present
    generalize saves : (if (tr.rt.threads tr.rt.currentTid).isSome then
      {tr with savedExit := Function.update tr.savedExit tr.rt.currentTid tr.lastExit} else tr) = saving at ok
    obtain ⟨last,saved⟩ := store saving saves
    unfold Aprof.threadSwitch at switched
    rw [if_neg moves] at switched
    dsimp only at switched
    have positive : ∀ u, (tr.rt.threads u).isSome = true → u ≠ 0 := by
      rintro u present rfl
      rw [isolated.nobody] at present
      cases present
    split at ok
    · next nobody =>
      rw [if_pos nobody] at switched
      cases switched
      cases ok
      refine isolated.foreign rfl isolated.nobody (fun _ => rfl) fun u solo present alike => ?_
      refine alike.keep rfl (congrFun last u) fun _ => ?_
      dsimp only
      rw [if_neg (show ¬ tid = u by rw [nobody]; exact (positive u present).symm)]
      exact saved u present
    · next somebody =>
      rw [if_neg somebody,if_neg (show ¬ cfg.inputMetric = .drms by rw [rms]; decide)] at switched
      simp only [ok_bind] at switched
      cases found : tr.rt.threads tid with
      | some tdata =>
        rw [found] at switched ok
        rw [if_pos (show (some tdata).isSome = true from rfl)] at ok
        cases switched
        cases ok
        refine isolated.foreign rfl isolated.nobody (fun _ => rfl)
          fun u solo present alike => ?_
        refine alike.keep rfl (congrFun last u) fun _ => ?_
        refine Eq.trans ?_ (saved u present)
        dsimp only
        split
        · next here =>
          subst here
          rfl
        · rfl
      | none =>
        rw [found] at switched ok
        rw [if_neg (show ¬ (none : Option ThreadData).isSome = true by decide)] at ok
        cases ok
        obtain ⟨-,-,current,-,others⟩ := threadStart_ok switched
        obtain ⟨solo,ran,alone,thread,empty⟩ := start_alone created rms switched
        refine isolated.started rfl found ⟨solo,ran,alone,thread,?_,fun seen => ?_⟩ ?_ fun u other there => ?_
        · exact empty.trans (fresh_lastBB saving tid rt).symm
        · rw [show (saving.fresh tid rt).lastBB tid = none from fresh_lastBB saving tid rt] at seen
          cases seen
        · exact (others 0 (Ne.symm somebody)).trans isolated.nobody
        · have same : rt.threads u = tr.rt.threads u := others u other
          change (rt.threads u).isSome = true at there
          rw [same] at there
          refine ⟨there,fun solo alike => alike.keep same ?_ fun _ => ?_⟩
          · exact (Function.update_of_ne other _ _).trans (congrFun last u)
          · refine Eq.trans ?_ (saved u there)
            change (if rt.currentTid = u then _ else Function.update saving.savedExit tid .none u) = _
            rw [if_neg (show ¬ rt.currentTid = u by rw [current]; exact Ne.symm other),Function.update_of_ne other]

theorem Isolated.ownEvent (isolated : Isolated cfg first tr own) (rms : cfg.inputMetric = .rms)
    (separate : cfg.singleReport = false) {event : TraceEvent} (mine : event.own = true)
    (ok : tr.step cfg event = .ok after) : Isolated cfg first after (followOwn tr after event own) := by
  rcases Option.eq_none_or_eq_some (tr.rt.threads tr.rt.currentTid) with none | ⟨tdata,found⟩
  · -- nobody runs, and the store at the end of a block reaches no thread
    have idle : ∀ tdata, tr.rt.current ≠ .ok tdata := by
      intro tdata current
      have found := current_ok.mp current
      rw [none] at found
      cases found
    cases event with
    | bbStart bb csp =>
      obtain ⟨rt,ticked,_⟩ := bind_ok.mp ok
      obtain ⟨tdata,current,_⟩ := bind_ok.mp ticked
      exact absurd current (idle tdata)
    | access type addr size =>
      obtain ⟨rt,traced,_⟩ := bind_ok.mp ok
      obtain ⟨tdata,current,_⟩ := bind_ok.mp traced
      exact absurd current (idle tdata)
    | bbEnd =>
      cases ok
      refine ⟨isolated.nobody,fun u present => ?_⟩
      have other : u ≠ tr.rt.currentTid := by
        rintro rfl
        change (tr.rt.threads _).isSome = true at present
        rw [none] at present
        cases present
      rw [@followOwn_other _ tr _ own u .bbEnd present (Or.inr other)]
      obtain ⟨solo,ran,alike⟩ := isolated.solo u present
      refine ⟨solo,ran,alike.keep rfl rfl fun _ => ?_⟩
      exact (if_neg other.symm).trans (if_neg other.symm).symm
    | threadCreate child => cases mine
    | threadSwitch tid => cases mine
    | threadExit tid => cases mine
  · obtain ⟨solo,ran,alike⟩ := isolated.solo _ (Option.isSome_of_eq_some found)
    obtain ⟨⟨solo',stepped,alike'⟩,kept⟩ := Tracer.own_alike alike rfl rms separate mine ok
    have positive : tr.rt.currentTid ≠ 0 := by
      intro zero
      rw [zero,isolated.nobody] at found
      cases found
    refine ⟨(kept.threads 0 positive.symm).trans isolated.nobody,fun u present => ?_⟩
    by_cases here : u = tr.rt.currentTid
    · subst here
      refine ⟨solo',?_,alike'⟩
      unfold followOwn
      rw [found,if_neg (by simp),if_pos ⟨mine,rfl⟩]
      unfold Tracer.run
      rw [List.foldlM_append]
      exact bind_ok.mpr ⟨solo,ran,bind_ok.mpr ⟨solo',stepped,rfl⟩⟩
    · have same := kept.threads u here
      rw [same] at present
      rw [followOwn_other present (Or.inr here)]
      obtain ⟨other,ran',alike''⟩ := isolated.solo u present
      refine ⟨other,ran',alike''.keep same (kept.lastBB u here) fun _ => ?_⟩
      rw [kept.current,kept.savedExit,if_neg (Ne.symm here),if_neg (Ne.symm here)]

theorem Isolated.step (isolated : Isolated cfg first tr own) (created : Tracer.initial c cfg = .ok first)
    (rms : cfg.inputMetric = .rms) (separate : cfg.singleReport = false) {event : TraceEvent}
    (safe : ExitsSafely tr event) (ok : tr.step cfg event = .ok after) :
    Isolated cfg first after (followOwn tr after event own) := by
  cases event with
  | threadCreate child => exact isolated.threadCreate created rms ok
  | threadSwitch tid => exact isolated.threadSwitch created rms ok
  | threadExit tid => exact isolated.threadExit safe ok
  | bbStart | bbEnd | access => exact isolated.ownEvent rms separate rfl ok

theorem Isolated.run {events : List TraceEvent} (isolated : Isolated cfg first tr own)
    (created : Tracer.initial c cfg = .ok first) (rms : cfg.inputMetric = .rms) (separate : cfg.singleReport = false)
    (along : AlongTrace cfg ExitsSafely tr events) (ok : tr.run cfg events = .ok after) :
    Isolated cfg first after (ownEvents cfg tr own events) := by
  induction events generalizing tr own with
  | nil =>
    cases ok
    exact isolated
  | cons event events ih =>
    obtain ⟨middle,stepped,ok⟩ := bind_ok.mp ok
    unfold ownEvents
    rw [stepped]
    exact ih (isolated.step created rms separate along.1 stepped) (along.2 middle stepped) ok

end

/-- With RMS and a report for each thread: after any run, every thread has the data
(stack, shadow memory, tuples), the last block and the exit of that block that it has
when its own events are run alone, as long as each exit of a thread that is not the
current one finds the exit of the current one's last block already saved. -/
theorem thread_isolated {cfg : Config} (rms : cfg.inputMetric = .rms) (separate : cfg.singleReport = false)
    {first tr : Tracer c} {events : List TraceEvent} (created : Tracer.initial c cfg = .ok first)
    (along : AlongTrace cfg ExitsSafely first events) (ran : first.run cfg events = .ok tr) :
    ∀ t tdata, tr.rt.threads t = some tdata → ∃ solo,
      first.run cfg (ownEvents cfg first (fun _ => []) events t) = .ok solo ∧ solo.rt.currentTid = t ∧
      solo.rt.threads t = some tdata ∧ solo.lastBB t = tr.lastBB t ∧
      (tr.rt.currentTid = t → solo.exitSeen = tr.exitSeen) := by
  intro t tdata found
  have start : Isolated cfg first first fun _ => [] := by
    obtain ⟨rt,made,created⟩ := bind_ok.mp created
    cases created
    obtain ⟨_,_,made⟩ := bind_ok.mp made
    cases made
    exact ⟨rfl,nofun⟩
  have isolated := start.run created rms separate along ran
  obtain ⟨solo,ran',alike⟩ := isolated.solo t (Option.isSome_of_eq_some found)
  exact ⟨solo,ran',alike.alone,alike.thread.trans found,alike.lastBB,Tracer.exitSeen_alike alike⟩

/-- A thread that has made a call is switched to and goes on; then another thread is
made and exits without having run, as after a failed `clone`. -/
def failedClone (exit : Jump) : List TraceEvent :=
  [.threadSwitch 1,.bbStart ⟨10,1,exit,0,false,false,0⟩ 100,.bbEnd,.threadSwitch 2,.threadSwitch 1,
    .bbStart ⟨20,1,.bbOther,0,false,false,0⟩ 100,.bbEnd,.threadCreate 3,.threadExit 3,.threadSwitch 1]

theorem thread_isolated_saved : ∃ (first tr solo : Tracer .wrapping) (tdata : ThreadData),
    Tracer.initial .wrapping (smallConfig .rms) = .ok first ∧
    first.run (smallConfig .rms) (failedClone .bbOther) = .ok tr ∧ tr.rt.threads 1 = some tdata ∧
    first.run (smallConfig .rms) [.threadSwitch 1,.bbStart ⟨10,1,.bbOther,0,false,false,0⟩ 100,.bbEnd,
      .bbStart ⟨20,1,.bbOther,0,false,false,0⟩ 100,.bbEnd] = .ok solo ∧
    solo.rt.threads 1 = some tdata ∧ solo.exitSeen = tr.exitSeen := by
  have state : ∃ (first tr : Tracer .wrapping) (tdata : ThreadData),
      Tracer.initial .wrapping (smallConfig .rms) = .ok first ∧
      first.run (smallConfig .rms) (failedClone .bbOther) = .ok tr ∧ tr.rt.threads 1 = some tdata ∧
      tr.rt.currentTid = 1 ∧ AlongTrace (smallConfig .rms) ExitsSafely first (failedClone .bbOther) ∧
      ownEvents (smallConfig .rms) first (fun _ => []) (failedClone .bbOther) 1 =
        [.threadSwitch 1,.bbStart ⟨10,1,.bbOther,0,false,false,0⟩ 100,.bbEnd,
          .bbStart ⟨20,1,.bbOther,0,false,false,0⟩ 100,.bbEnd] := by
    refine ⟨_,_,_,rfl,rfl,rfl,rfl,?_,rfl⟩
    refine ⟨trivial,?_⟩
    rintro _ ⟨⟩
    refine ⟨trivial,?_⟩
    rintro _ ⟨⟩
    refine ⟨trivial,?_⟩
    rintro _ ⟨⟩
    refine ⟨trivial,?_⟩
    rintro _ ⟨⟩
    refine ⟨trivial,?_⟩
    rintro _ ⟨⟩
    refine ⟨trivial,?_⟩
    rintro _ ⟨⟩
    refine ⟨trivial,?_⟩
    rintro _ ⟨⟩
    refine ⟨trivial,?_⟩
    rintro _ ⟨⟩
    refine ⟨fun _ _ _ => rfl,?_⟩
    rintro _ ⟨⟩
    exact ⟨trivial,fun _ _ => trivial⟩
  obtain ⟨first,tr,tdata,created,ran,found,here,along,mine⟩ := state
  obtain ⟨solo,alone,-,same,-,seen⟩ := thread_isolated rfl rfl created along ran 1 tdata found
  rw [mine] at alone
  exact ⟨first,tr,solo,tdata,created,ran,found,alone,same,seen here⟩

/-- The exit that was saved is the call of the earlier block: the next block seems to
have been called, and alone it does not. -/
theorem failed_clone_repeats_call : ∃ (first tr solo : Tracer .wrapping),
    Tracer.initial .wrapping (smallConfig .rms) = .ok first ∧
    first.run (smallConfig .rms) (failedClone .bbCall) = .ok tr ∧ tr.rt.currentTid = 1 ∧ tr.exitSeen = .bbCall ∧
    first.run (smallConfig .rms) (ownEvents (smallConfig .rms) first (fun _ => []) (failedClone .bbCall) 1) = .ok solo ∧
    solo.exitSeen = .bbOther := ⟨_,_,_,rfl,rfl,rfl,rfl,rfl,rfl⟩

end

end Aprof
