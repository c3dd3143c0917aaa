import Aprof.Instrumentation
import Aprof.ModifyAccess

/-! Queued events are the accesses themselves: whatever the queue holds, its
flush followed by the accesses still to come does what the handler does when it
is called at once. Only the merge of a store into the load before it changes the
calls, and a modify is a load followed by a store. -/
namespace Aprof

section
variable {c : Counter} {cfg : Config} {tmps : Nat → Nat} {xs ys zs : List HandlerCall}

theorem callHandlers_append (xs ys : List HandlerCall) (rt : Runtime c) :
    callHandlers cfg tmps (xs ++ ys) rt = callHandlers cfg tmps xs rt >>= callHandlers cfg tmps ys :=
  List.foldlM_append

theorem callHandlers_stamps {rt after : Runtime c} (stamps : rt.Stamps cfg) (ok : callHandlers cfg tmps xs rt = .ok after) :
    after.Stamps cfg := by
  refine Lockstep.foldlM_keeps (P := fun rt : Runtime c => rt.Stamps cfg) ?_ xs rt after stamps ok
  intro rt call after stamps ok
  have access : step cfg rt (.access call.1 (call.2.1.value tmps) call.2.2) = .ok after := ok
  exact stamps.step access

/-- The two lists of calls do the same to every runtime of a run. -/
def SameCalls (c : Counter) (cfg : Config) (tmps : Nat → Nat) (xs ys : List HandlerCall) : Prop :=
  ∀ rt : Runtime c, rt.Stamps cfg → callHandlers cfg tmps xs rt = callHandlers cfg tmps ys rt

theorem SameCalls.refl (xs : List HandlerCall) : SameCalls c cfg tmps xs xs := fun _ _ => rfl

theorem SameCalls.trans (first : SameCalls c cfg tmps xs ys) (second : SameCalls c cfg tmps ys zs) : SameCalls c cfg tmps xs zs :=
  fun rt stamps => (first rt stamps).trans (second rt stamps)

theorem SameCalls.append {xs' ys' : List HandlerCall} (first : SameCalls c cfg tmps xs ys) (second : SameCalls c cfg tmps xs' ys') :
    SameCalls c cfg tmps (xs ++ xs') (ys ++ ys') := by
  intro rt stamps
  rw [callHandlers_append,callHandlers_append,← first rt stamps]
  cases done : callHandlers cfg tmps xs rt with
  | error fault => rfl
  | ok after => exact second after (callHandlers_stamps stamps done)

theorem modify_calls (addr : IRAtom) (size : Nat) :
    SameCalls c cfg tmps [(.modify,addr,size)] [(.load,addr,size),(.store,addr,size)] := by
  intro rt stamps
  have split := traceAccess_modify stamps.stamped.scale (addr.value tmps) size
  simp only [callHandlers,List.foldlM_cons,List.foldlM_nil,callHandler,bind_pure]
  exact split

end

def queuedCalls (events : List MemEvent) : List HandlerCall := (flushEvents events).flatMap OutStmt.calls

theorem queuedCalls_append (events later : List MemEvent) :
    queuedCalls (events ++ later) = queuedCalls events ++ queuedCalls later := by
  simp only [queuedCalls,flushEvents,List.filterMap_append,List.flatMap_append]

theorem eqIRAtom_eq {atom atom' : IRAtom} (equal : eqIRAtom atom atom' = true) : atom = atom' := by
  cases atom with
  | rdTmp tmp =>
    cases atom' with
    | rdTmp tmp' => exact congrArg IRAtom.rdTmp (eq_of_beq equal)
    | const type value => cases equal
  | const type value =>
    cases atom' with
    | rdTmp tmp' => cases equal
    | const type' value' =>
      obtain ⟨types,values⟩ := Bool.and_eq_true_iff.mp equal
      rw [eq_of_beq types,eq_of_beq values]

/-- What is emitted and then queued does what the queue and some accesses would do. -/
structure Queues (c : Counter) (cfg : Config) (tmps : Nat → Nat) (events : List MemEvent) (accesses : List HandlerCall)
    (emitted : Emitted) : Prop where
  same : SameCalls c cfg tmps (emitted.1.flatMap OutStmt.calls ++ queuedCalls emitted.2) (queuedCalls events ++ accesses)
  stays : ∀ st ∈ emitted.1, st.isExit = false
  fits : events.length ≤ nEvents → emitted.2.length ≤ nEvents

section
variable {c : Counter} {cfg : Config} {tmps : Nat → Nat}

theorem flushEvents_stay (events : List MemEvent) : ∀ st ∈ flushEvents events, st.isExit = false := by
  intro st member
  obtain ⟨ev,-,flushed⟩ := List.mem_filterMap.mp member
  unfold flushEvent at flushed
  split at flushed
  · cases flushed
  · cases flushed
    rfl
  · cases flushed
    rfl
  · cases flushed
    rfl

theorem addEvent_queues (events : List MemEvent) (evt : MemEvent) :
    Queues c cfg tmps events (queuedCalls [evt]) (addEvent events evt) := by
  unfold addEvent
  split
  · exact ⟨.refl _,flushEvents_stay events,fun _ => by simp [nEvents]⟩
  · next room =>
    refine ⟨?_,by simp,?_⟩
    · rw [List.flatMap_nil,List.nil_append,queuedCalls_append]
      exact .refl _
    · intro le
      rw [List.length_append,List.length_singleton]
      omega

theorem addEventDw_queues (events : List MemEvent) (addr : IRAtom) (size : Nat) :
    Queues c cfg tmps events [(.store,addr,size)] (addEventDw events addr size) := by
  unfold addEventDw
  split
  · exact addEvent_queues events ⟨.eventDw,addr,size⟩
  · next lastEvt last =>
    split
    · next merges =>
      obtain ⟨kind,sizes,equal⟩ := merges
      obtain ⟨before,rfl⟩ := List.getLast?_eq_some_iff.mp last
      obtain ⟨ekind,addr',size'⟩ := lastEvt
      obtain rfl : ekind = .eventDr := kind
      obtain rfl : size' = size := sizes
      obtain rfl := eqIRAtom_eq equal
      refine ⟨?_,by simp,fun le => by simpa using le⟩
      rw [List.flatMap_nil,List.nil_append,List.dropLast_concat,queuedCalls_append,queuedCalls_append,List.append_assoc]
      exact .append (.refl _) (modify_calls addr' size')
    · exact addEvent_queues events ⟨.eventDw,addr,size⟩

theorem Queues.nothing (events : List MemEvent) : Queues c cfg tmps events [] ([],events) := by
  refine ⟨?_,by simp,fun le => le⟩
  rw [List.flatMap_nil,List.nil_append,List.append_nil]
  exact .refl _

theorem Queues.next {events middle : List MemEvent} {out : List OutStmt} {first later : List HandlerCall} {emitted : Emitted}
    (begins : Queues c cfg tmps events first (out,middle)) (continues : Queues c cfg tmps middle later emitted) :
    Queues c cfg tmps events (first ++ later) (out ++ emitted.1,emitted.2) := by
  refine ⟨?_,?_,fun le => continues.fits (begins.fits le)⟩
  · rw [List.flatMap_append,List.append_assoc,← List.append_assoc (queuedCalls events)]
    refine .trans (.append (.refl _) continues.same) ?_
    rw [← List.append_assoc]
    exact .append begins.same (.refl _)
  · intro st member
    rcases List.mem_append.mp member with earlier | after
    · exact begins.stays st earlier
    · exact continues.stays st after

theorem addEventDrDw_queues (events : List MemEvent) (addr : IRAtom) (size : Nat) :
    Queues c cfg tmps events [(.load,addr,size),(.store,addr,size)] (addEventDrDw events addr size) :=
  (addEvent_queues events ⟨.eventDr,addr,size⟩).next (addEventDw_queues _ addr size)

theorem stmtEvents_queues (events : List MemEvent) (st : IRStmt) (stays : st ≠ .exit) :
    Queues c cfg tmps events st.accesses (stmtEvents events st) := by
  cases st with
  | noOp => exact .nothing events
  | other => exact .nothing events
  | iMark addr len => exact addEvent_queues events ⟨.eventIr,addr,len⟩
  | wrTmp load =>
    cases load with
    | none => exact .nothing events
    | some read => exact addEvent_queues events ⟨.eventDr,read.1,read.2⟩
  | store addr size => exact addEventDw_queues events addr size
  | dirty mFx mAddr mSize =>
    cases mFx with
    | none => exact .nothing events
    | read => exact addEvent_queues events ⟨.eventDr,mAddr,mSize⟩
    | write => exact addEventDw_queues events mAddr mSize
    | modify => exact addEventDrDw_queues events mAddr mSize
  | cas addr dataSize double => exact addEventDrDw_queues events addr _
  | llsc storing addr size =>
    cases storing with
    | true => exact addEventDw_queues events addr size
    | false => exact addEvent_queues events ⟨.eventDr,addr,size⟩
  | exit => exact absurd rfl stays

section
variable {α : Type} {isExit : α → Bool}

theorem uptoExit_stays (n : Nat) {st : α} (rest : List α) (stays : isExit st = false) :
    uptoExit isExit n (st :: rest) = st :: uptoExit isExit n rest := by
  cases n with
  | zero => simp only [uptoExit,stays,Bool.false_eq_true,if_false]
  | succ n => simp only [uptoExit,stays,Bool.false_eq_true,if_false]

theorem uptoExit_leaves {st : α} (rest : List α) (leaves : isExit st = true) : uptoExit isExit 0 (st :: rest) = [] := by
  simp only [uptoExit,leaves,if_true]

theorem uptoExit_passes (n : Nat) {st : α} (rest : List α) (leaves : isExit st = true) :
    uptoExit isExit (n + 1) (st :: rest) = st :: uptoExit isExit n rest := by
  simp only [uptoExit,leaves,if_true]

theorem uptoExit_append (n : Nat) (front later : List α) (stays : ∀ st ∈ front, isExit st = false) :
    uptoExit isExit n (front ++ later) = front ++ uptoExit isExit n later := by
  induction front with
  | nil => rfl
  | cons st front ih =>
    obtain ⟨first,rest⟩ := List.forall_mem_cons.mp stays
    rw [List.cons_append,uptoExit_stays n _ first,ih rest,List.cons_append]

end

theorem uptoExit_flushed (n : Nat) (events : List MemEvent) (later : List OutStmt) :
    (uptoExit OutStmt.isExit n (flushEvents events ++ later)).flatMap OutStmt.calls =
      queuedCalls events ++ (uptoExit OutStmt.isExit n later).flatMap OutStmt.calls := by
  rw [uptoExit_append n _ _ (flushEvents_stay events),List.flatMap_append]
  rfl

def IRStmt.isExit (st : IRStmt) : Bool := st == .exit

theorem instrumentLoop_calls (stmts : List IRStmt) (events : List MemEvent) (n : Nat) :
    SameCalls c cfg tmps ((uptoExit OutStmt.isExit n (instrumentLoop events stmts)).flatMap OutStmt.calls)
      (queuedCalls events ++ (uptoExit IRStmt.isExit n stmts).flatMap IRStmt.accesses) := by
  induction stmts generalizing events n with
  | nil =>
    have flushed := uptoExit_flushed n events []
    rw [List.append_nil] at flushed
    rw [instrumentLoop,flushed]
    simp only [uptoExit]
    exact .refl _
  | cons st stmts ih =>
    by_cases leaves : st = .exit
    · subst leaves
      have loop : instrumentLoop events (.exit :: stmts) = flushEvents events ++ .stmt .exit :: instrumentLoop [] stmts := by
        simp only [instrumentLoop,stmtEvents,copied,List.append_assoc,List.singleton_append]
      rw [loop,uptoExit_flushed]
      apply SameCalls.append (.refl _)
      cases n with
      | zero =>
        rw [uptoExit_leaves _ rfl,uptoExit_leaves _ rfl]
        exact .refl _
      | succ n =>
        rw [uptoExit_passes n _ rfl,uptoExit_passes n _ rfl]
        exact ih [] n
    · have queues : Queues c cfg tmps events st.accesses (stmtEvents events st) := stmtEvents_queues events st leaves
      have copies : (copied st).flatMap OutStmt.calls = [] ∧ ∀ out ∈ copied st, out.isExit = false := by
        cases st with
        | noOp => exact ⟨rfl,by simp [copied]⟩
        | exit => exact absurd rfl leaves
        | _ => exact ⟨rfl,by simp [copied,OutStmt.isExit]⟩
      have stays : st.isExit = false := by simpa [IRStmt.isExit] using leaves
      have loop : instrumentLoop events (st :: stmts) =
          ((stmtEvents events st).1 ++ copied st) ++ instrumentLoop (stmtEvents events st).2 stmts := rfl
      have front : ∀ out ∈ (stmtEvents events st).1 ++ copied st, out.isExit = false := by
        intro out member
        rcases List.mem_append.mp member with emitted | copy
        · exact queues.stays out emitted
        · exact copies.2 out copy
      rw [loop,uptoExit_append n _ _ front,uptoExit_stays n _ stays,List.flatMap_append,List.flatMap_append,copies.1,
        List.append_nil,List.flatMap_cons,← List.append_assoc]
      refine .trans (.append (.refl _) (ih _ n)) ?_
      rw [← List.append_assoc]
      exact .append queues.same (.refl _)

theorem instrument_calls (block : List IRStmt) (n : Nat) :
    SameCalls c cfg tmps ((uptoExit OutStmt.isExit n (instrument block)).flatMap OutStmt.calls)
      ((guestCode (uptoExit IRStmt.isExit n block)).flatMap IRStmt.accesses) := by
  induction block generalizing n with
  | nil => exact .refl _
  | cons st block ih =>
    unfold instrument
    by_cases starts : st.isIMark = true
    · have stays : st.isExit = false := by
        cases st <;> first | rfl | cases starts
      have whole : guestCode (uptoExit IRStmt.isExit n (st :: block)) = uptoExit IRStmt.isExit n (st :: block) := by
        rw [uptoExit_stays n _ stays,guestCode,if_pos starts]
      rw [if_pos starts,whole]
      exact instrumentLoop_calls (st :: block) [] n
    · rw [if_neg starts]
      have skipped : ∀ rest, guestCode (st :: rest) = guestCode rest := fun rest => if_neg starts
      cases leaves : st.isExit with
      | false =>
        have stays : (OutStmt.stmt st).isExit = false := by
          cases st <;> first | rfl | cases leaves
        rw [uptoExit_stays n _ stays,uptoExit_stays n _ leaves,skipped]
        exact ih n
      | true =>
        have leaves' : (OutStmt.stmt st).isExit = true := by
          cases st <;> first | rfl | cases leaves
        cases n with
        | zero =>
          rw [uptoExit_leaves _ leaves,uptoExit_leaves _ leaves']
          exact .refl _
        | succ n =>
          rw [uptoExit_passes n _ leaves,uptoExit_passes n _ leaves',skipped]
          exact ih n

end

/-- Up to any exit of a block the helper calls do what the handler does when it is called once per access. -/
theorem queued_events_immediate {c : Counter} {cfg : Config} {first rt : Runtime c} {past : List Event}
    (created : initial c cfg = .ok first) (ran : run cfg first past = .ok rt) (tmps : Nat → Nat) (block : List IRStmt) (n : Nat) :
    callHandlers cfg tmps ((uptoExit OutStmt.isExit n (instrument block)).flatMap OutStmt.calls) rt =
      callHandlers cfg tmps ((guestCode (uptoExit IRStmt.isExit n block)).flatMap IRStmt.accesses) rt :=
  instrument_calls block n rt ((Runtime.Stamps.initial created).run ran)

/-- A load and a store of one word with an exit between two of them. -/
def incrementTwice : List IRStmt :=
  [.iMark (.const 0 4096) 4,.wrTmp (some (.rdTmp 1,4)),.store (.rdTmp 1) 4,.exit,.wrTmp (some (.rdTmp 1,4)),.store (.rdTmp 1) 4]

example : instrument incrementTwice =
    [.stmt (.iMark (.const 0 4096) 4),.stmt (.wrTmp (some (.rdTmp 1,4))),.stmt (.store (.rdTmp 1) 4),
      .helper .modify (.rdTmp 1) 4,.stmt .exit,.stmt (.wrTmp (some (.rdTmp 1,4))),.stmt (.store (.rdTmp 1) 4),
      .helper .modify (.rdTmp 1) 4] := by decide

theorem queued_events_increment : ∃ first rt : Runtime .wrapping, initial .wrapping (smallConfig .drms) = .ok first ∧
    run (smallConfig .drms) first [.threadSwitch 1,.functionEnter 100 0] = .ok rt ∧
    callHandlers (smallConfig .drms) (fun _ => 64)
        ((uptoExit OutStmt.isExit 0 (instrument incrementTwice)).flatMap OutStmt.calls) rt =
      callHandlers (smallConfig .drms) (fun _ => 64)
        ((guestCode (uptoExit IRStmt.isExit 0 incrementTwice)).flatMap IRStmt.accesses) rt :=
  ⟨_,_,rfl,rfl,@queued_events_immediate .wrapping (smallConfig .drms) _ _ [.threadSwitch 1,.functionEnter 100 0] rfl rfl
    (fun _ => 64) incrementTwice 0⟩

end Aprof
