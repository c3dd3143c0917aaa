import Aprof.ReturnAnalysis

/-! The shadow stack is ordered by stack pointer. What `BB_start` does not decide
is left open: the exit the last block has stored and the record in front of the
stack, which the walk for a return address reads when no pending activation
stops it. -/
namespace Aprof

open Lockstep

/-- `returnWalk`, going on to the record `below` slot 0. -/
def walkOver (below : Activation) (stack : Nat → Activation) (csp target : UInt64) : Nat → Nat → Nat
  | 0, n =>
    if (stack 0).retAddr = target then n
    else if below.sp = csp then
      if below.retAddr = target then n + 1 else 0
    else 0
  | i + 1, n =>
    if (stack (i + 1)).retAddr = target then n
    else if (stack i).sp = csp then walkOver below stack csp target i (n + 1)
    else 0

/-- `countReturns` with the same walk; only a return on an empty stack has no meaning. -/
def countOver (below : Activation) (tdata : ThreadData) (csp target : UInt64) : Result Nat :=
  if tdata.stackDepth = 0 then .error .invalidPointer
  else if csp < tdata.top.sp then .ok 0
  else if csp = tdata.top.sp then .ok (walkOver below tdata.stack csp target (tdata.stackDepth - 1) 1)
  else .ok 1

/-- An event, with what the blocks have left in `last_exit` and with the record in
front of the stack. -/
structure Turn where
  event : TraceEvent
  exit : Jump
  below : Activation

section
variable {c : Counter}

namespace Tracer

def bbStartOver (cfg : Config) (below : Activation) (tr : Tracer c) (bb : BB) (csp : UInt64) : Result (Tracer c) := do
  let rt ← Aprof.bbStart tr.rt
  let tdata ← rt.current
  let returns ← if tr.exitSeen = .bbRet then countOver below tdata csp bb.key else .ok 1
  let rt ← transferTo cfg rt (tr.lastBB rt.currentTid) bb csp tr.exitSeen returns
  .ok {tr with rt := rt, lastBB := Function.update tr.lastBB rt.currentTid (some bb), lastExit := .bbOther}

def turn (cfg : Config) (tr : Tracer c) (turn : Turn) : Result (Tracer c) :=
  match turn.event with
  | .bbStart bb csp => bbStartOver cfg turn.below {tr with lastExit := turn.exit} bb csp
  | event => tr.step cfg event

end Tracer

theorem walkOver_agrees {below : Activation} {stack : Nat → Activation} {csp target : UInt64} {i n k : Nat}
    (ok : returnWalk stack csp target i n = .ok k) : walkOver below stack csp target i n = k := by
  induction i generalizing n with
  | zero =>
    unfold returnWalk at ok
    split at ok
    · next found =>
      cases ok
      exact if_pos found
    · cases ok
  | succ i ih =>
    unfold returnWalk at ok
    unfold walkOver
    split at ok
    · next found =>
      cases ok
      exact if_pos found
    · next missed =>
      rw [if_neg missed]
      split at ok
      · next equal =>
        rw [if_pos equal]
        exact ih ok
      · next other =>
        cases ok
        exact if_neg other

theorem countOver_agrees {below : Activation} {tdata : ThreadData} {csp target : UInt64} {k : Nat}
    (ok : countReturns tdata csp target = .ok k) : countOver below tdata csp target = .ok k := by
  unfold countReturns at ok
  unfold countOver
  split_ifs at ok ⊢
  · exact ok
  · exact congrArg Except.ok (walkOver_agrees ok)
  · exact ok

/-- What `BB_start` does without leaving the stack it does for any record in front of it. -/
theorem Tracer.bbStartOver_agrees {cfg : Config} {tr after : Tracer c} {bb : BB} {csp : UInt64} (below : Activation)
    (ok : tr.bbStart cfg bb csp = .ok after) : bbStartOver cfg below tr bb csp = .ok after := by
  obtain ⟨rt,tick,ok⟩ := bind_ok.mp ok
  obtain ⟨tdata,current,ok⟩ := bind_ok.mp ok
  refine bind_ok.mpr ⟨rt,tick,bind_ok.mpr ⟨tdata,current,?_⟩⟩
  dsimp only at ok ⊢
  split at ok
  · next returned =>
    obtain ⟨returns,counted,ok⟩ := bind_ok.mp ok
    rw [if_pos returned]
    exact bind_ok.mpr ⟨returns,countOver_agrees counted,ok⟩
  · next other =>
    rw [if_neg other]
    exact ok

/-- Every frame is at or above the stack pointer. -/
def Above (csp : UInt64) (frames : List Frame) : Prop := ∀ frame ∈ frames, csp ≤ frame.sp

theorem popFrames_above {csp : UInt64} {frames : List Frame} (ordered : Ordered frames) (n : Nat) :
    Above csp (popFrames csp n frames) := by
  induction frames generalizing n with
  | nil => exact fun _ none => absurd none List.not_mem_nil
  | cons top rest ih =>
    unfold popFrames
    split
    · exact ih (ordered.suffix (List.suffix_cons _ _)) (n - 1)
    · next stays =>
      exact ordered.above (UInt64.not_lt.mp fun less => stays (Or.inl less))

theorem callerFrames_above {csp : UInt64} {frames : List Frame} (above : Above csp frames) (last : Option BB) :
    Above csp (callerFrames last frames) := by
  intro frame member
  have stored := List.mem_map_of_mem (f := Frame.sp) member
  rw [callerFrames_sp] at stored
  obtain ⟨before,inside,same⟩ := List.mem_map.mp stored
  rw [← same]
  exact above before inside

theorem enterFrames_above {csp : UInt64} {frames : List Frame} (above : Above csp frames) (last : Option BB) (bb : BB)
    (emulated : Bool) : Above csp (enterFrames last bb csp emulated frames) := by
  intro frame member
  rcases List.mem_cons.mp member with rfl | pending
  · cases frames with
    | nil => exact UInt64.le_refl _
    | cons top rest =>
      cases emulated
      · exact UInt64.le_refl _
      · exact above top List.mem_cons_self
  · exact callerFrames_above above last frame pending

theorem adjustFrames_above {csp : UInt64} {frames : List Frame} (ordered : Ordered frames) (last : Option BB) (bb : BB)
    (exit : Jump) (emulated : Bool) : Above csp (adjustFrames last bb csp exit emulated frames) := by
  have popped : Above csp (popFrames csp 0 frames) := popFrames_above ordered 0
  unfold adjustFrames
  split
  · next calls =>
    rw [(popFrames_suffix csp 0 frames).eq_of_length calls.1] at popped
    exact enterFrames_above popped last bb emulated
  · exact popped

/-- Only a call out of the resolver moves the stack pointer `BB_start` works with. -/
theorem leaveFrames_plain {last : Option BB} (plain : last.any BB.isDlRuntimeResolve = false) (emulated : Bool)
    (csp : UInt64) (frames : List Frame) : leaveFrames last emulated csp frames = (frames,csp) := by
  cases frames with
  | nil => rfl
  | cons top rest =>
    unfold leaveFrames
    rw [plain]
    simp

theorem transferFrames_above {cfg : Config} {last : Option BB} {frames : List Frame} (ordered : Ordered frames)
    (plain : last.any BB.isDlRuntimeResolve = false) (bb : BB) (csp : UInt64) (exit : Jump) (returns : Nat) :
    Above csp (transferFrames cfg last bb csp exit returns frames) := by
  unfold transferFrames
  dsimp only
  generalize decide (exit = .bbRet ∧ returns = 0) = retAsCall
  generalize (if retAsCall = true then .bbOther else exit) = exit
  generalize (last.any fun last => emulates cfg last bb exit retAsCall) = emulated
  generalize (if emulated = true then Jump.bbCall else exit) = exit
  rw [leaveFrames_plain plain]
  dsimp only
  split
  · exact popFrames_above ordered returns
  · exact adjustFrames_above ordered last bb _ _

end

theorem mem_framesBelow {stack : Nat → Activation} {n i : Nat} (below : i < n) : frameOf (stack i) ∈ framesBelow stack n := by
  induction n with
  | zero => omega
  | succ n ih =>
    rcases Nat.lt_succ_iff_lt_or_eq.mp below with inner | rfl
    · exact List.mem_cons_of_mem _ (ih inner)
    · exact List.mem_cons_self

theorem ordered_slots {stack : Nat → Activation} {n : Nat} (ordered : Ordered (framesBelow stack n)) {i j : Nat}
    (le : i ≤ j) (below : j < n) : (stack j).sp ≤ (stack i).sp := by
  induction n with
  | zero => omega
  | succ n ih =>
    rcases Nat.lt_succ_iff_lt_or_eq.mp below with inner | rfl
    · exact ih (ordered.suffix (List.suffix_cons _ _)) inner
    · exact ordered.above (UInt64.le_refl _) _ (mem_framesBelow (Nat.lt_succ_of_le le))

section
variable {c : Counter} {cfg : Config} {tr after : Tracer c}

namespace Tracer

theorem bbStartOver_frames {below : Activation} {bb : BB} {csp : UInt64} (ok : bbStartOver cfg below tr bb csp = .ok after) :
    ∃ tdata returns, tr.rt.current = .ok tdata ∧ after.rt.frames = Function.update tr.rt.frames tr.rt.currentTid
      (some (transferFrames cfg (tr.lastBB tr.rt.currentTid) bb csp tr.exitSeen returns tdata.frames)) ∧
      after.rt.currentTid = tr.rt.currentTid := by
  obtain ⟨ticked,tick,ok⟩ := bind_ok.mp ok
  obtain ⟨tdata,current,ok⟩ := bind_ok.mp ok
  have tids : ticked.currentTid = tr.rt.currentTid := (bbStart_frames tick).2
  have rest : ∃ returns moved, transferTo cfg ticked (tr.lastBB ticked.currentTid) bb csp tr.exitSeen returns = .ok moved ∧
      after.rt = moved := by
    dsimp only at ok
    split at ok
    · obtain ⟨returns,_,ok⟩ := bind_ok.mp ok
      obtain ⟨moved,transferred,ok⟩ := bind_ok.mp ok
      cases ok
      exact ⟨returns,moved,transferred,rfl⟩
    · obtain ⟨one,same,ok⟩ := bind_ok.mp ok
      cases same
      obtain ⟨moved,transferred,ok⟩ := bind_ok.mp ok
      cases ok
      exact ⟨1,moved,transferred,rfl⟩
  obtain ⟨returns,moved,transferred,same⟩ := rest
  obtain ⟨base,before,-,frames,tid⟩ := ticked_frames tick current transferred
  rw [tids] at frames
  rw [same]
  exact ⟨base,returns,before,frames,tid⟩

theorem turn_ordered {next : Turn} (ordered : AllOrdered tr.rt) (ok : tr.turn cfg next = .ok after) :
    AllOrdered after.rt := by
  obtain ⟨event,exit,below⟩ := next
  cases event with
  | bbStart bb csp =>
    obtain ⟨tdata,returns,current,same,-⟩ := bbStartOver_frames ok
    intro tid frames found
    rw [same,Function.update_apply] at found
    split at found
    · cases found
      exact (ordered _ _ (current_frames current)).transfer cfg _ bb csp _ returns
    · exact ordered tid frames found
  | threadCreate child => exact @step_ordered _ _ _ _ (.threadCreate child) ordered ok
  | threadSwitch tid => exact @step_ordered _ _ _ _ (.threadSwitch tid) ordered ok
  | threadExit tid => exact @step_ordered _ _ _ _ (.threadExit tid) ordered ok
  | bbEnd =>
    cases ok
    exact ordered
  | access type addr size => exact @step_ordered _ _ _ _ (.access type addr size) ordered ok

theorem turns_ordered {turns : List Turn} (reached : (initial c cfg >>= fun tr => turns.foldlM (turn cfg) tr) = .ok tr) :
    AllOrdered tr.rt := by
  obtain ⟨first,created,ran⟩ := bind_ok.mp reached
  exact foldlM_keeps (P := fun tr : Tracer c => AllOrdered tr.rt) (fun _ _ _ ordered ok => turn_ordered ordered ok)
    turns first tr (initial_ordered created) ran

theorem bbStartOver_above {below : Activation} {bb : BB} {csp : UInt64} (ordered : AllOrdered tr.rt)
    (ok : bbStartOver cfg below tr bb csp = .ok after)
    (plain : (tr.lastBB tr.rt.currentTid).any BB.isDlRuntimeResolve = false) {tdata : ThreadData}
    (current : after.rt.current = .ok tdata) : Above csp tdata.frames := by
  obtain ⟨before,returns,found,same,tid⟩ := bbStartOver_frames ok
  have pending := current_frames current
  rw [same,tid,Function.update_self] at pending
  rw [← Option.some.inj pending]
  exact transferFrames_above (ordered _ _ (current_frames found)) plain bb csp _ returns

end Tracer

/-- After every `BB_start` the stack pointers of every thread do not increase from
the bottom of its stack to the top, and unless the last block was part of the
resolver, nothing that is pending in the thread lies below its stack pointer. -/
theorem shadow_stack_ordered {turns : List Turn}
    (reached : (Tracer.initial c cfg >>= fun tr => turns.foldlM (Tracer.turn cfg) tr) = .ok tr) {bb : BB} {csp : UInt64}
    {exit : Jump} {below : Activation} (started : tr.turn cfg ⟨.bbStart bb csp,exit,below⟩ = .ok after) :
    (∀ tid tdata, after.rt.threads tid = some tdata →
      ∀ i j, i ≤ j → j < tdata.stackDepth → (tdata.stack j).sp ≤ (tdata.stack i).sp) ∧
    ((tr.lastBB tr.rt.currentTid).any BB.isDlRuntimeResolve = false →
      ∀ tdata, after.rt.current = .ok tdata → ∀ i < tdata.stackDepth, csp ≤ (tdata.stack i).sp) := by
  have before := Tracer.turns_ordered reached
  constructor
  · intro tid tdata stored i j le inside
    have found : after.rt.frames tid = some tdata.frames := congrArg (Option.map ThreadData.frames) stored
    exact ordered_slots (Tracer.turn_ordered before started tid tdata.frames found) le inside
  · intro plain tdata current i inside
    have above : Above csp tdata.frames := @Tracer.bbStartOver_above c cfg {tr with lastExit := exit} _ _ _ _ before started plain _ current
    exact above _ (mem_framesBelow inside)

/-- Calls of functions 5, 6 and 7, one in the other -/
def nestedTurns : List Turn :=
  [⟨.threadSwitch 1,.none,zeroActivation⟩,⟨.bbStart (plainBlock 1 .bbCall) 16,.none,zeroActivation⟩,
    ⟨.bbStart (plainBlock 5 .bbCall) 12,.bbCall,zeroActivation⟩,⟨.bbStart (plainBlock 6 .bbCall) 8,.bbCall,zeroActivation⟩,
    ⟨.bbStart (plainBlock 7 .bbRet) 4,.bbCall,zeroActivation⟩]

/-- The return of function 7 leaves two frames. -/
theorem shadow_stack_ordered_nested : ∃ tr after : Tracer .wrapping, ∃ tdata,
    (Tracer.initial .wrapping (smallConfig .rms) >>= fun tr => nestedTurns.foldlM (Tracer.turn (smallConfig .rms)) tr) = .ok tr ∧
    tr.turn (smallConfig .rms) ⟨.bbStart (plainBlock 6 .bbOther) 8,.bbRet,zeroActivation⟩ = .ok after ∧
    after.rt.current = .ok tdata ∧ tdata.stackDepth = 2 ∧
    (∀ i j, i ≤ j → j < tdata.stackDepth → (tdata.stack j).sp ≤ (tdata.stack i).sp) ∧ ∀ i < tdata.stackDepth, 8 ≤ (tdata.stack i).sp := by
  have state : ∃ tr, (Tracer.initial .wrapping (smallConfig .rms) >>= fun tr =>
        nestedTurns.foldlM (Tracer.turn (smallConfig .rms)) tr) = .ok tr ∧
      ∃ after, tr.turn (smallConfig .rms) ⟨.bbStart (plainBlock 6 .bbOther) 8,.bbRet,zeroActivation⟩ = .ok after ∧
      ∃ tdata, after.rt.current = .ok tdata ∧ (tr.lastBB tr.rt.currentTid).any BB.isDlRuntimeResolve = false ∧ tdata.stackDepth = 2 := by
    decide +kernel
  obtain ⟨tr,reached,after,started,tdata,current,plain,depth⟩ := state
  obtain ⟨ordered,above⟩ := shadow_stack_ordered reached started
  exact ⟨tr,after,tdata,reached,started,current,depth,ordered _ tdata (current_ok.mp current),above plain tdata current⟩

end

end Aprof
