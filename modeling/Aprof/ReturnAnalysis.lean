import Aprof.CallStack

/-! What `BB_start` does when the last block ended in a return. The stack pointers
of the pending activations never grow towards the top, so the documented rule
and the two loops of the code agree wherever the walk stays on the stack. -/
namespace Aprof

open Lockstep

/-- Stack pointers do not decrease from the innermost frame outwards. -/
def Ordered (frames : List Frame) : Prop := (frames.map Frame.sp).Pairwise (· ≤ ·)

theorem popFrames_suffix (csp : UInt64) (n : Nat) (frames : List Frame) : popFrames csp n frames <:+ frames := by
  induction frames generalizing n with
  | nil => exact List.suffix_refl _
  | cons frame rest ih =>
    unfold popFrames
    split
    · exact (ih (n - 1)).trans (List.suffix_cons _ _)
    · exact List.suffix_refl _

theorem Ordered.suffix {frames rest : List Frame} (ordered : Ordered frames) (suffix : rest <:+ frames) :
    Ordered rest :=
  List.Pairwise.sublist (suffix.sublist.map Frame.sp) ordered

theorem callerFrames_sp (last : Option BB) (frames : List Frame) :
    (callerFrames last frames).map Frame.sp = frames.map Frame.sp := by
  cases frames with
  | nil => rfl
  | cons top rest =>
    cases last with
    | none => rfl
    | some last =>
      unfold callerFrames
      dsimp only
      split <;> rfl

theorem popFrames_stays {csp : UInt64} {top : Frame} {rest : List Frame}
    (stays : (popFrames csp 0 (top :: rest)).length = (top :: rest).length) : csp ≤ top.sp := by
  by_contra above
  have less := UInt64.not_le.mp above
  have popped : popFrames csp 0 (top :: rest) = popFrames csp 0 rest := if_pos (Or.inl less)
  have short := (popFrames_suffix csp 0 rest).length_le
  rw [popped,List.length_cons] at stays
  omega

theorem Ordered.enter {frames : List Frame} (ordered : Ordered frames) (last : Option BB) (bb : BB) {csp : UInt64}
    (emulated : Bool) (stays : (popFrames csp 0 frames).length = frames.length) :
    Ordered (enterFrames last bb csp emulated frames) := by
  unfold Ordered enterFrames
  rw [List.map_cons,callerFrames_sp,List.pairwise_cons]
  refine ⟨?_,ordered⟩
  cases frames with
  | nil =>
    intro sp member
    cases member
  | cons top rest =>
    have below : calleeSp csp emulated (top :: rest) ≤ top.sp := by
      cases emulated
      · exact popFrames_stays stays
      · exact UInt64.le_refl _
    intro sp member
    rw [List.map_cons,List.mem_cons] at member
    rcases member with rfl | inside
    · exact below
    · exact UInt64.le_trans below ((List.pairwise_cons.mp ordered).1 sp inside)

theorem leaveFrames_suffix (last : Option BB) (emulated : Bool) (csp : UInt64) (frames : List Frame) :
    (leaveFrames last emulated csp frames).1 <:+ frames := by
  cases frames with
  | nil => exact List.suffix_refl _
  | cons top rest =>
    unfold leaveFrames
    dsimp only
    split
    · exact List.suffix_cons _ _
    · exact List.suffix_refl _

theorem Ordered.transfer {frames : List Frame} (ordered : Ordered frames) (cfg : Config) (last : Option BB) (bb : BB)
    (csp : UInt64) (exit : Jump) (returns : Nat) : Ordered (transferFrames cfg last bb csp exit returns frames) := by
  unfold transferFrames
  dsimp only
  generalize decide (exit = .bbRet ∧ returns = 0) = retAsCall
  generalize (if retAsCall = true then .bbOther else exit) = exit
  generalize (last.any fun last => emulates cfg last bb exit retAsCall) = emulated
  generalize (if emulated = true then Jump.bbCall else exit) = exit
  have left := ordered.suffix (leaveFrames_suffix last emulated csp frames)
  split
  · exact left.suffix (popFrames_suffix _ _ _)
  · unfold adjustFrames
    split
    · next calls => exact left.enter last bb emulated calls.1
    · exact left.suffix (popFrames_suffix _ _ _)

section
variable {c : Counter} {cfg : Config}

theorem frames_control (tdata : ThreadData) : tdata.control.frames = tdata.frames := framesBelow_congr fun _ _ => rfl

theorem traceAccess_frames {rt after : Runtime c} {type : AccessType} {addr size : Nat} {kernelAccess : Bool}
    (ok : traceAccess cfg rt type addr size kernelAccess = .ok after) :
    after.frames = rt.frames ∧ after.currentTid = rt.currentTid := by
  have same := traceAccess_control ok
  refine ⟨?_,same.tid⟩
  ext1 tid
  have kept := congrArg (Option.map ThreadData.frames) (same.threads tid)
  have control : ThreadData.frames ∘ ThreadData.control = ThreadData.frames := by
    ext1 tdata
    exact frames_control tdata
  rwa [Option.map_map,Option.map_map,control] at kept

theorem threadStart_frames {rt after : Runtime c} {tid : Nat} (ok : threadStart cfg rt tid = .ok after) :
    after.frames = Function.update rt.frames tid (some []) ∧ after.currentTid = rt.currentTid := by
  obtain ⟨_,_,ok⟩ := bind_ok.mp ok
  obtain ⟨_,_,ok⟩ := bind_ok.mp ok
  obtain ⟨shadow,_,ok⟩ := bind_ok.mp ok
  cases ok
  exact ⟨frames_put _ _,rfl⟩

theorem threadSwitch_frames {rt after : Runtime c} {tid : Nat} (ok : threadSwitch cfg rt tid = .ok after) :
    (after.frames = rt.frames ∨ after.frames = Function.update rt.frames tid (some [])) ∧ after.currentTid = tid := by
  unfold threadSwitch at ok
  split at ok
  · next same =>
    cases ok
    exact ⟨Or.inl rfl,same.symm⟩
  · dsimp only at ok
    split at ok
    · cases ok
      exact ⟨Or.inl rfl,rfl⟩
    · have moved : ∃ middle : Runtime c, middle.frames = rt.frames ∧ middle.currentTid = tid ∧
          startIfNew cfg middle tid = .ok after := by
        split at ok
        · obtain ⟨middle,moved,ok⟩ := bind_ok.mp ok
          obtain ⟨tids,-,-,erased⟩ := increaseGlobalCounter_erase moved
          exact ⟨middle,frames_erased erased,tids,ok⟩
        · exact ⟨{rt with currentTid := tid},rfl,rfl,ok⟩
      obtain ⟨middle,frames,tids,ok⟩ := moved
      unfold startIfNew at ok
      split at ok
      · obtain ⟨started,tids'⟩ := threadStart_frames ok
        rw [frames] at started
        exact ⟨Or.inr started,tids'.trans tids⟩
      · cases ok
        exact ⟨Or.inl frames,tids⟩

theorem threadExit_frames {rt after : Runtime c} {tid : Nat} (ok : threadExit cfg rt tid = .ok after) :
    after.frames = Function.update rt.frames tid none := by
  unfold threadExit at ok
  split at ok
  · cases ok
  · cases ok
    ext1 other
    simp only [Runtime.frames,Function.update_apply]
    split <;> rfl

/-- The tick of `BB_start` leaves the frames alone, the transfer does the rest. -/
theorem ticked_frames {rt ticked moved : Runtime c} {tdata : ThreadData} {last : Option BB} {bb : BB} {csp : UInt64}
    {exit : Jump} {returns : Nat} (tick : bbStart rt = .ok ticked) (current : ticked.current = .ok tdata)
    (transferred : transferTo cfg ticked last bb csp exit returns = .ok moved) : ∃ base, rt.current = .ok base ∧
      tdata.frames = base.frames ∧ moved.frames = Function.update rt.frames rt.currentTid
        (some (transferFrames cfg last bb csp exit returns base.frames)) ∧ moved.currentTid = rt.currentTid := by
  obtain ⟨kept,_⟩ := bbStart_frames tick
  obtain ⟨base,before,tick⟩ := bind_ok.mp tick
  cases tick
  have ticks : tdata.frames = base.frames := by
    have stored := current_ok.mp current
    simp only [Runtime.put,Function.update_self,Option.some.injEq] at stored
    rw [← stored]
    rfl
  have found := current_frames current
  obtain ⟨moved,tid⟩ := transferTo_frames found transferred
  rw [kept,ticks] at moved
  exact ⟨base,before,ticks,moved,tid⟩

namespace Tracer

variable {tr after : Tracer c}

theorem bbStart_inv {bb : BB} {csp : UInt64} (ok : tr.bbStart cfg bb csp = .ok after) : ∃ tdata returns,
    tr.rt.current = .ok tdata ∧ (tr.exitSeen = .bbRet → countFrames csp bb.key tdata.frames = some returns) ∧
    after.rt.frames = Function.update tr.rt.frames tr.rt.currentTid
      (some (transferFrames cfg (tr.lastBB tr.rt.currentTid) bb csp tr.exitSeen returns tdata.frames)) ∧
    after.rt.currentTid = tr.rt.currentTid ∧
    after.lastBB = Function.update tr.lastBB tr.rt.currentTid (some bb) ∧ after.lastExit = .bbOther := by
  obtain ⟨rt,tdata,returns,rt',ticked,current,counted,transferred,rfl⟩ := Tracer.bbStart_cases ok
  obtain ⟨base,before,ticks,moved,tid⟩ := ticked_frames ticked current transferred
  have same : rt.currentTid = tr.rt.currentTid := (bbStart_frames ticked).2
  refine ⟨base,returns,before,?_,?_,tid,congrArg (Function.update tr.lastBB · (some bb)) tid,rfl⟩
  · intro returned
    have counted := counted returned
    rw [countReturns_eq,ticks] at counted
    split at counted
    · cases counted
    · next k same =>
      cases counted
      exact same
  · rw [← same] at moved ⊢
    exact moved

/-- One step keeps the frames of a thread, starts or ends the thread, or is the
start of a block. -/
theorem step_frames {event : TraceEvent} (ok : tr.step cfg event = .ok after) (tid : Nat) {frames' : List Frame}
    (found : after.rt.frames tid = some frames') : frames' = [] ∨ tr.rt.frames tid = some frames' ∨
      ∃ bb csp returns frames, event = .bbStart bb csp ∧ tid = tr.rt.currentTid ∧ tr.rt.frames tid = some frames ∧
        frames' = transferFrames cfg (tr.lastBB tid) bb csp tr.exitSeen returns frames := by
  have updated : ∀ {frames : Nat → Option (List Frame)} {other : Nat},
      Function.update frames other (some []) tid = some frames' → frames' = [] ∨ frames tid = some frames' := by
    intro frames other same
    rw [Function.update_apply] at same
    split at same
    · cases same
      exact Or.inl rfl
    · exact Or.inr same
  cases event with
  | threadCreate child =>
    obtain ⟨rt,started,ok⟩ := bind_ok.mp ok
    cases ok
    have same := (threadStart_frames started).1
    rw [show (tr.fresh child rt).rt.frames = rt.frames from rfl,same] at found
    exact (updated found).imp_right Or.inl
  | threadSwitch other =>
    obtain ⟨rt,switched,ok⟩ := bind_ok.mp ok
    have moved := (threadSwitch_frames switched).1
    have kept : after.rt.frames = rt.frames ∨ after = tr := by
      dsimp only at ok
      split_ifs at ok
      all_goals cases ok
      all_goals first | exact Or.inr rfl | exact Or.inl rfl
    rcases kept with same | rfl
    · rw [same] at found
      rcases moved with still | started
      · rw [still] at found
        exact Or.inr (Or.inl found)
      · rw [started] at found
        exact (updated found).imp_right Or.inl
    · exact Or.inr (Or.inl found)
  | threadExit other =>
    obtain ⟨rt,exited,ok⟩ := bind_ok.mp ok
    cases ok
    have same := threadExit_frames exited
    dsimp only at found
    rw [same,Function.update_apply] at found
    split at found
    · cases found
    · exact Or.inr (Or.inl found)
  | bbStart bb csp =>
    obtain ⟨tdata,returns,current,-,same,-,-,-⟩ := bbStart_inv ok
    rw [same,Function.update_apply] at found
    split at found
    · next here =>
      cases found
      subst here
      exact Or.inr (Or.inr ⟨bb,csp,returns,tdata.frames,rfl,rfl,current_frames current,rfl⟩)
    · exact Or.inr (Or.inl found)
  | bbEnd =>
    cases ok
    exact Or.inr (Or.inl found)
  | access type addr size =>
    obtain ⟨rt,traced,ok⟩ := bind_ok.mp ok
    cases ok
    dsimp only at found
    rw [(traceAccess_frames traced).1] at found
    exact Or.inr (Or.inl found)

/-- The stack pointers of every thread are ordered. -/
def AllOrdered (rt : Runtime c) : Prop := ∀ tid frames, rt.frames tid = some frames → Ordered frames

theorem initial_ordered (created : initial c cfg = .ok tr) : AllOrdered tr.rt := by
  obtain ⟨rt,made,created⟩ := bind_ok.mp created
  cases created
  obtain ⟨_,_,made⟩ := bind_ok.mp made
  cases made
  intro tid frames none
  cases none

theorem step_ordered {event : TraceEvent} (ordered : AllOrdered tr.rt) (ok : tr.step cfg event = .ok after) :
    AllOrdered after.rt := by
  intro tid frames' found
  rcases step_frames ok tid found with rfl | same | ⟨bb,csp,returns,frames,-,-,before,rfl⟩
  · exact .nil
  · exact ordered tid frames' same
  · exact (ordered tid frames before).transfer cfg _ bb csp _ returns

theorem run_ordered {events : List TraceEvent} (reached : (initial c cfg >>= fun tr => tr.run cfg events) = .ok tr)
    {tid : Nat} {frames : List Frame} (found : tr.rt.frames tid = some frames) : Ordered frames := by
  obtain ⟨first,created,ran⟩ := bind_ok.mp reached
  exact foldlM_keeps (P := fun tr : Tracer c => AllOrdered tr.rt) (fun tr event after ordered ok => step_ordered ordered ok)
    events first tr (initial_ordered created) ran tid frames found

end Tracer

end

/-- A return may leave `k` frames: they have the stack pointer of the return, and
the outermost one expects control at `target`. -/
def Leaves (csp target : UInt64) (frames : List Frame) (k : Nat) : Prop :=
  (∀ i < k, ∃ frame, frames[i]? = some frame ∧ frame.sp = csp) ∧
    ∃ i frame, k = i + 1 ∧ frames[i]? = some frame ∧ frame.retAddr = target

theorem not_leaves_zero (csp target : UInt64) (frames : List Frame) : ¬ Leaves csp target frames 0 := by
  rintro ⟨_,i,_,same,_⟩
  cases same

theorem leaves_one {csp target : UInt64} {frame : Frame} {rest : List Frame} (sp : frame.sp = csp) :
    Leaves csp target (frame :: rest) 1 ↔ frame.retAddr = target := by
  constructor
  · rintro ⟨_,i,found,same,here,matches'⟩
    obtain rfl : i = 0 := by omega
    cases here
    exact matches'
  · intro matches'
    refine ⟨?_,0,frame,rfl,rfl,matches'⟩
    intro i less
    obtain rfl : i = 0 := by omega
    exact ⟨frame,rfl,sp⟩

theorem leaves_succ {csp target : UInt64} {frame : Frame} {rest : List Frame} (sp : frame.sp = csp) (k : Nat) :
    Leaves csp target (frame :: rest) (k + 2) ↔ Leaves csp target rest (k + 1) := by
  constructor
  · rintro ⟨equal,i,found,same,here,matches'⟩
    obtain rfl : i = k + 1 := by omega
    exact ⟨fun j less => equal (j + 1) (by omega),k,found,rfl,here,matches'⟩
  · rintro ⟨equal,i,found,same,here,matches'⟩
    obtain rfl : i = k := by omega
    refine ⟨?_,i + 1,found,rfl,here,matches'⟩
    intro j less
    cases j with
    | zero => exact ⟨frame,rfl,sp⟩
    | succ j => exact equal j (by omega)

/-- The walk finds the least number of frames to leave; it runs off the stack when
no frame stops it. -/
theorem walkFrames_spec {csp : UInt64} (target : UInt64) {frame : Frame} (rest : List Frame) (sp : frame.sp = csp) (n : Nat) :
    match walkFrames csp target (frame :: rest) (n + 1) with
    | none => ∀ other ∈ frame :: rest, other.sp = csp ∧ other.retAddr ≠ target
    | some 0 => (∀ k, ¬ Leaves csp target (frame :: rest) k) ∧ ∃ other ∈ frame :: rest, other.sp ≠ csp
    | some (m + 1) => n ≤ m ∧ Leaves csp target (frame :: rest) (m - n + 1) ∧
        ∀ k, Leaves csp target (frame :: rest) k → m - n + 1 ≤ k := by
  induction rest generalizing frame n with
  | nil =>
    unfold walkFrames
    by_cases found : frame.retAddr = target
    · rw [if_pos found]
      refine ⟨Nat.le_refl _,?_,?_⟩
      · rw [Nat.sub_self]
        exact (leaves_one sp).mpr found
      intro k leaves
      cases k with
      | zero => exact absurd leaves (not_leaves_zero _ _ _)
      | succ k => omega
    · rw [if_neg found]
      intro other member
      rw [List.mem_singleton] at member
      subst member
      exact ⟨sp,found⟩
  | cons next rest ih =>
    unfold walkFrames
    by_cases found : frame.retAddr = target
    · rw [if_pos found]
      refine ⟨Nat.le_refl _,?_,?_⟩
      · rw [Nat.sub_self]
        exact (leaves_one sp).mpr found
      intro k leaves
      cases k with
      | zero => exact absurd leaves (not_leaves_zero _ _ _)
      | succ k => omega
    · rw [if_neg found]
      by_cases equal : next.sp = csp
      · rw [if_pos equal]
        have walked := ih equal (n + 1)
        have shift : ∀ k, Leaves csp target (frame :: next :: rest) k ↔ ∃ l, k = l + 1 ∧ Leaves csp target (next :: rest) l := by
          intro k
          rcases k with _ | _ | k
          · refine ⟨fun leaves => absurd leaves (not_leaves_zero _ _ _),?_⟩
            rintro ⟨l,same,-⟩
            cases same
          · refine ⟨fun leaves => absurd ((leaves_one sp).mp leaves) found,?_⟩
            rintro ⟨l,same,leaves⟩
            obtain rfl : l = 0 := by omega
            exact absurd leaves (not_leaves_zero _ _ _)
          · rw [leaves_succ sp]
            constructor
            · intro leaves
              exact ⟨k + 1,rfl,leaves⟩
            · rintro ⟨l,same,leaves⟩
              obtain rfl : l = k + 1 := by omega
              exact leaves
        generalize walkFrames csp target (next :: rest) (n + 1 + 1) = result at walked ⊢
        rcases result with _ | _ | m
        · intro other member
          rcases List.mem_cons.mp member with rfl | inside
          · exact ⟨sp,found⟩
          · exact walked other inside
        · refine ⟨?_,?_⟩
          · intro k leaves
            obtain ⟨l,_,inner⟩ := (shift k).mp leaves
            exact walked.1 l inner
          · obtain ⟨other,inside,different⟩ := walked.2
            exact ⟨other,List.mem_cons_of_mem _ inside,different⟩
        · obtain ⟨le,leaves,least⟩ := walked
          refine ⟨by omega,(shift _).mpr ⟨m - (n + 1) + 1,by omega,leaves⟩,?_⟩
          intro k other
          obtain ⟨l,same,inner⟩ := (shift k).mp other
          have := least l inner
          omega
      · rw [if_neg equal]
        refine ⟨?_,next,by simp,equal⟩
        intro k leaves
        rcases k with _ | _ | k
        · exact not_leaves_zero _ _ _ leaves
        · exact found ((leaves_one sp).mp leaves)
        · obtain ⟨frame',here,same⟩ := leaves.1 1 (by omega)
          cases here
          exact equal same

theorem Ordered.above {csp : UInt64} {top : Frame} {rest : List Frame} (ordered : Ordered (top :: rest))
    (below : csp ≤ top.sp) : ∀ frame ∈ top :: rest, csp ≤ frame.sp := by
  intro frame member
  rcases List.mem_cons.mp member with rfl | inside
  · exact below
  · exact UInt64.le_trans below ((List.pairwise_cons.mp ordered).1 frame.sp (List.mem_map_of_mem inside))

theorem popFrames_none {csp : UInt64} {frames : List Frame} (above : ∀ frame ∈ frames, csp ≤ frame.sp) :
    popFrames csp 0 frames = frames := by
  cases frames with
  | nil => rfl
  | cons top rest =>
    have stays := UInt64.not_lt.mpr (above top List.mem_cons_self)
    exact if_neg (by simp [stays])

theorem popFrames_filter {csp : UInt64} {frames : List Frame} (ordered : Ordered frames) :
    popFrames csp 0 frames = frames.filter fun frame => csp ≤ frame.sp := by
  induction frames with
  | nil => rfl
  | cons top rest ih =>
    by_cases above : top.sp < csp
    · have popped : popFrames csp 0 (top :: rest) = popFrames csp 0 rest := if_pos (Or.inl above)
      rw [popped,ih (ordered.suffix (List.suffix_cons _ _)),List.filter_cons_of_neg]
      simpa using above
    · have kept := ordered.above (UInt64.not_lt.mp above)
      rw [popFrames_none kept]
      symm
      apply List.filter_eq_self.mpr
      intro frame member
      simpa using kept frame member

theorem popFrames_exact {csp : UInt64} {frames : List Frame} (above : ∀ frame ∈ frames, csp ≤ frame.sp) (k : Nat)
    (equal : ∀ i < k, ∃ frame, frames[i]? = some frame ∧ frame.sp = csp) :
    popFrames csp k frames = frames.drop k := by
  induction k generalizing frames with
  | zero => exact popFrames_none above
  | succ k ih =>
    obtain ⟨top,here,same⟩ := equal 0 (Nat.succ_pos k)
    cases frames with
    | nil => cases here
    | cons head rest =>
      cases here
      have popped : popFrames csp (k + 1) (top :: rest) = popFrames csp k rest :=
        if_pos (Or.inr ⟨same.symm,Nat.succ_pos k⟩)
      rw [popped,List.drop_succ_cons]
      apply ih
      · intro frame member
        exact above frame (List.mem_cons_of_mem _ member)
      · intro i less
        exact equal (i + 1) (Nat.succ_lt_succ less)

/-- The stack after a transfer that is treated as a call, out of a frame of
`_dl_runtime_resolve` or not. -/
def calledFrames (last : Option BB) (bb : BB) (csp : UInt64) (frames : List Frame) : List Frame :=
  enterFrames last bb (leaveFrames last true csp frames).2 true (leaveFrames last true csp frames).1

theorem transfer_called {cfg : Config} {last : BB} {bb : BB} {csp : UInt64} {top : Frame} {rest : List Frame}
    (ordered : Ordered (top :: rest)) (below : csp ≤ top.sp) :
    transferFrames cfg (some last) bb csp .bbRet 0 (top :: rest) = calledFrames (some last) bb csp (top :: rest) := by
  have stays : (popFrames (leaveFrames (some last) true csp (top :: rest)).2 0
      (leaveFrames (some last) true csp (top :: rest)).1).length =
        (leaveFrames (some last) true csp (top :: rest)).1.length := by
    congr 1
    apply popFrames_none
    unfold leaveFrames
    dsimp only
    split
    · intro frame member
      exact (List.pairwise_cons.mp ordered).1 frame.sp (List.mem_map_of_mem member)
    · exact ordered.above below
  have emulated : emulates cfg last bb .bbOther true = true := by simp [emulates]
  unfold transferFrames
  simp only [and_self,decide_true,if_true,Option.any_some,emulated,reduceCtorEq,if_false]
  exact if_pos ⟨stays,rfl⟩

theorem transfer_returned {cfg : Config} {last : Option BB} {bb : BB} {csp : UInt64} {frames : List Frame} (k : Nat) :
    transferFrames cfg last bb csp .bbRet (k + 1) frames = popFrames csp (k + 1) frames := by
  have called : (last.any fun last => emulates cfg last bb .bbRet false) = false := by
    cases last with
    | none => rfl
    | some last => simp [emulates]
  unfold transferFrames
  simp only [Nat.succ_ne_zero,and_false,decide_false,Bool.false_eq_true,if_false,called,if_true]
  cases frames with
  | nil => rfl
  | cons top rest => simp [leaveFrames]

/-- What the comments of `BB_start` say about a block that follows a return. -/
structure ReturnsAsDocumented {c : Counter} (cfg : Config) (tr : Tracer c) (tdata : ThreadData) (bb : BB)
    (csp : UInt64) : Prop where
  inside : ∃ returns, countReturns tdata csp bb.key = .ok returns
  called : ∀ after frames', tr.bbStart cfg bb csp = .ok after →
    after.rt.frames tr.rt.currentTid = some frames' → (∀ frame ∈ tdata.frames.head?, csp < frame.sp) →
      frames' = calledFrames (tr.lastBB tr.rt.currentTid) bb csp tdata.frames
  left : ∀ after frames', tr.bbStart cfg bb csp = .ok after →
    after.rt.frames tr.rt.currentTid = some frames' → (∀ frame ∈ tdata.frames.head?, frame.sp < csp) →
      frames' = tdata.frames.filter fun frame => csp ≤ frame.sp
  returned : ∀ after frames' k, tr.bbStart cfg bb csp = .ok after →
    after.rt.frames tr.rt.currentTid = some frames' → Leaves csp bb.key tdata.frames k →
      (∀ i, Leaves csp bb.key tdata.frames i → k ≤ i) → frames' = tdata.frames.drop k
  unmatched : ∀ after frames', tr.bbStart cfg bb csp = .ok after →
    after.rt.frames tr.rt.currentTid = some frames' → (∀ frame ∈ tdata.frames.head?, frame.sp = csp) →
      (∀ k, ¬ Leaves csp bb.key tdata.frames k) →
        frames' = calledFrames (tr.lastBB tr.rt.currentTid) bb csp tdata.frames

theorem countFrames_cons (csp target : UInt64) (top : Frame) (rest : List Frame) :
    countFrames csp target (top :: rest) = if csp < top.sp then some 0
      else if csp = top.sp then walkFrames csp target (top :: rest) 1 else some 1 := rfl

theorem countFrames_none (csp target : UInt64) (frames : List Frame) :
    countFrames csp target frames = none ↔ ∀ frame ∈ frames, frame.sp = csp ∧ frame.retAddr ≠ target := by
  cases frames with
  | nil => simp [countFrames]
  | cons top rest =>
    rw [countFrames_cons]
    by_cases below : csp < top.sp
    · rw [if_pos below]
      refine ⟨fun none => absurd none (Option.some_ne_none _),fun all => ?_⟩
      rw [(all top List.mem_cons_self).1] at below
      exact absurd below (UInt64.lt_irrefl _)
    · rw [if_neg below]
      by_cases equal : csp = top.sp
      · rw [if_pos equal]
        have walked := walkFrames_spec target rest equal.symm 0
        generalize walkFrames csp target (top :: rest) (0 + 1) = result at walked ⊢
        rcases result with _ | _ | m
        · exact ⟨fun _ => walked,fun _ => rfl⟩
        · obtain ⟨_,other,inside,different⟩ := walked
          exact ⟨fun none => absurd none (Option.some_ne_none _),fun all => absurd (all other inside).1 different⟩
        · obtain ⟨_,⟨_,i,frame,_,found,matches'⟩,_⟩ := walked
          have inside := List.mem_of_getElem? found
          exact ⟨fun none => absurd none (Option.some_ne_none _),fun all => absurd matches' (all frame inside).2⟩
      · rw [if_neg equal]
        refine ⟨fun none => absurd none (Option.some_ne_none _),fun all => ?_⟩
        exact absurd (all top List.mem_cons_self).1.symm equal

section
variable {c : Counter} {cfg : Config} {tr : Tracer c} {tdata : ThreadData} {bb : BB} {csp : UInt64}

theorem countReturns_ok : (∃ returns, countReturns tdata csp bb.key = .ok returns) ↔
    ∃ frame ∈ tdata.frames, frame.sp ≠ csp ∨ frame.retAddr = bb.key := by
  have outside := countFrames_none csp bb.key tdata.frames
  rw [countReturns_eq]
  cases counted : countFrames csp bb.key tdata.frames with
  | none =>
    have all := outside.mp counted
    refine ⟨nofun,?_⟩
    rintro ⟨frame,inside,different | matches'⟩
    · exact absurd (all frame inside).1 different
    · exact absurd matches' (all frame inside).2
  | some returns =>
    refine ⟨fun _ => ?_,fun _ => ⟨returns,rfl⟩⟩
    by_contra unstopped
    have : countFrames csp bb.key tdata.frames = none := by
      apply outside.mpr
      intro frame inside
      constructor
      · by_contra different
        exact unstopped ⟨frame,inside,Or.inl different⟩
      · intro matches'
        exact unstopped ⟨frame,inside,Or.inr matches'⟩
    rw [this] at counted
    cases counted

/-- What the analysis tells the rest of `BB_start` to do with the frames. -/
theorem transfer_documented {last : BB} {returns : Nat} (ordered : Ordered tdata.frames)
    (counted : countFrames csp bb.key tdata.frames = some returns) :
    ((∀ frame ∈ tdata.frames.head?, csp < frame.sp) →
      transferFrames cfg (some last) bb csp .bbRet returns tdata.frames = calledFrames (some last) bb csp tdata.frames) ∧
    ((∀ frame ∈ tdata.frames.head?, frame.sp < csp) →
      transferFrames cfg (some last) bb csp .bbRet returns tdata.frames = tdata.frames.filter fun frame => csp ≤ frame.sp) ∧
    (∀ k, Leaves csp bb.key tdata.frames k → (∀ i, Leaves csp bb.key tdata.frames i → k ≤ i) →
      transferFrames cfg (some last) bb csp .bbRet returns tdata.frames = tdata.frames.drop k) ∧
    ((∀ frame ∈ tdata.frames.head?, frame.sp = csp) → (∀ k, ¬ Leaves csp bb.key tdata.frames k) →
      transferFrames cfg (some last) bb csp .bbRet returns tdata.frames = calledFrames (some last) bb csp tdata.frames) := by
  generalize tdata.frames = frames at ordered counted
  cases frames with
  | nil => cases counted
  | cons top rest =>
    rw [countFrames_cons] at counted
    simp only [List.head?_cons,Option.mem_def,Option.some.injEq,forall_eq']
    refine ⟨?_,?_,?_,?_⟩
    · intro below
      rw [if_pos below] at counted
      cases counted
      exact transfer_called ordered (UInt64.le_of_lt below)
    · intro above
      have exceeds : ¬ csp < top.sp := UInt64.not_lt.mpr (UInt64.le_of_lt above)
      have different : ¬ csp = top.sp := fun same => UInt64.lt_irrefl _ (same ▸ above)
      rw [if_neg exceeds,if_neg different] at counted
      cases counted
      rw [transfer_returned]
      have popped : popFrames csp 1 (top :: rest) = popFrames csp 0 rest := if_pos (Or.inl above)
      rw [popped,popFrames_filter (ordered.suffix (List.suffix_cons _ _)),List.filter_cons_of_neg]
      simpa using above
    · intro k leaves least
      obtain ⟨frame,here,same⟩ := leaves.1 0 (by
        obtain ⟨_,i,_,found,_⟩ := leaves
        omega)
      cases here
      subst same
      rw [if_neg (UInt64.lt_irrefl _),if_pos rfl] at counted
      have walked := walkFrames_spec bb.key rest (rfl : top.sp = top.sp) 0
      rw [counted] at walked
      rcases returns with _ | m
      · exact absurd leaves (walked.1 k)
      · obtain ⟨_,found,minimal⟩ := walked
        have equal : k = m + 1 := Nat.le_antisymm (least _ found) (minimal k leaves)
        rw [transfer_returned,equal]
        exact popFrames_exact (ordered.above (UInt64.le_refl _)) (m + 1) (equal ▸ leaves.1)
    · intro same unmatched
      subst same
      rw [if_neg (UInt64.lt_irrefl _),if_pos rfl] at counted
      have walked := walkFrames_spec bb.key rest (rfl : top.sp = top.sp) 0
      rw [counted] at walked
      rcases returns with _ | m
      · exact transfer_called ordered (UInt64.le_refl _)
      · exact absurd walked.2.1 (unmatched _)

theorem return_documented_iff {events : List TraceEvent}
    (reached : (Tracer.initial c cfg >>= fun tr => tr.run cfg events) = .ok tr) (current : tr.rt.current = .ok tdata)
    (returned : tr.exitSeen = .bbRet) : ReturnsAsDocumented cfg tr tdata bb csp ↔
      ∃ frame ∈ tdata.frames, frame.sp ≠ csp ∨ frame.retAddr = bb.key := by
  constructor
  · intro documented
    exact countReturns_ok.mp documented.inside
  · intro stops
    have ordered := Tracer.run_ordered reached (current_frames current)
    obtain ⟨last,known⟩ : ∃ last, tr.lastBB tr.rt.currentTid = some last := by
      unfold Tracer.exitSeen at returned
      split at returned
      · next known => exact Option.isSome_iff_exists.mp known
      · cases returned
    have outcome : ∀ after frames', tr.bbStart cfg bb csp = .ok after →
        after.rt.frames tr.rt.currentTid = some frames' → ∃ returns,
          countFrames csp bb.key tdata.frames = some returns ∧
          frames' = transferFrames cfg (some last) bb csp .bbRet returns tdata.frames := by
      intro after frames' ok found
      obtain ⟨tdata',returns,current',counted,same,-,-,-⟩ := Tracer.bbStart_inv ok
      rw [current] at current'
      cases current'
      rw [same,Function.update_self,known,returned] at found
      exact ⟨returns,counted returned,(Option.some.inj found).symm⟩
    refine ⟨countReturns_ok.mpr stops,?_,?_,?_,?_⟩
    · intro after frames' ok found below
      obtain ⟨returns,counted,rfl⟩ := outcome after frames' ok found
      rw [known]
      exact (transfer_documented ordered counted).1 below
    · intro after frames' ok found above
      obtain ⟨returns,counted,rfl⟩ := outcome after frames' ok found
      exact (transfer_documented ordered counted).2.1 above
    · intro after frames' k ok found leaves least
      obtain ⟨returns,counted,rfl⟩ := outcome after frames' ok found
      exact (transfer_documented ordered counted).2.2.1 k leaves least
    · intro after frames' ok found same unmatched
      obtain ⟨returns,counted,rfl⟩ := outcome after frames' ok found
      rw [known]
      exact (transfer_documented ordered counted).2.2.2 same unmatched

/-- In every state of a run the pending activations alone decide what `BB_start`
leaves of the stack, and a return is treated as documented if and only if one of
them stops the walk: its stack pointer differs from that of the return, or it
expects control at the target. -/
theorem bbStart_as_documented {events : List TraceEvent}
    (reached : (Tracer.initial c cfg >>= fun tr => tr.run cfg events) = .ok tr) (current : tr.rt.current = .ok tdata)
    (bb : BB) (csp : UInt64) :
    (∀ after, tr.bbStart cfg bb csp = .ok after → ∃ returns, after.rt.frames = Function.update tr.rt.frames
      tr.rt.currentTid (some (transferFrames cfg (tr.lastBB tr.rt.currentTid) bb csp tr.exitSeen returns tdata.frames))) ∧
    (tr.exitSeen = .bbRet → (ReturnsAsDocumented cfg tr tdata bb csp ↔
      ∃ frame ∈ tdata.frames, frame.sp ≠ csp ∨ frame.retAddr = bb.key)) := by
  refine ⟨?_,return_documented_iff reached current⟩
  intro after ok
  obtain ⟨tdata',returns,current',-,same,-,-,-⟩ := Tracer.bbStart_inv ok
  rw [current] at current'
  cases current'
  exact ⟨returns,same⟩

end

/-- A block of function 0 at address `key`. -/
def plainBlock (key : UInt64) (exit : Jump) : BB := ⟨key,1,exit,0,false,false,0⟩

theorem bbStart_as_documented_pushed : ∃ (tr : Tracer .wrapping) (tdata : ThreadData),
    (Tracer.initial .wrapping (smallConfig .rms) >>= fun tr => tr.run (smallConfig .rms) [.threadSwitch 1,
      .bbStart (plainBlock 1 .bbCall) 8,.bbEnd,.bbStart (plainBlock 5 .bbRet) 4,.bbEnd]) = .ok tr ∧
    tr.exitSeen = .bbRet ∧ (ReturnsAsDocumented (smallConfig .rms) tr tdata (plainBlock 2 .bbOther) 8 ↔
      ∃ frame ∈ tdata.frames, frame.sp ≠ 8 ∨ frame.retAddr = 2) := by
  have state : ∃ (tr : Tracer .wrapping) (tdata : ThreadData),
      (Tracer.initial .wrapping (smallConfig .rms) >>= fun tr => tr.run (smallConfig .rms) [.threadSwitch 1,
        .bbStart (plainBlock 1 .bbCall) 8,.bbEnd,.bbStart (plainBlock 5 .bbRet) 4,.bbEnd]) = .ok tr ∧
      tr.rt.current = .ok tdata ∧ tr.exitSeen = .bbRet := ⟨_,_,rfl,rfl,rfl⟩
  obtain ⟨tr,tdata,reached,current,returned⟩ := state
  exact ⟨tr,tdata,reached,returned,(bbStart_as_documented reached current (plainBlock 2 .bbOther) 8).2 returned⟩

/-- A return with nothing on the shadow stack: the code compares the stack pointer
with an activation below the first slot. -/
theorem return_on_empty_stack : ∃ (tr : Tracer .wrapping) (tdata : ThreadData),
    (Tracer.initial .wrapping (smallConfig .rms) >>= fun tr => tr.run (smallConfig .rms) [.threadSwitch 1,
      .bbStart (plainBlock 1 .bbRet) 8,.bbEnd]) = .ok tr ∧ tr.rt.current = .ok tdata ∧ tr.exitSeen = .bbRet ∧
    ¬ ReturnsAsDocumented (smallConfig .rms) tr tdata (plainBlock 2 .bbOther) 12 := by
  refine ⟨_,_,rfl,rfl,rfl,?_⟩
  intro documented
  obtain ⟨returns,counted⟩ := documented.inside
  cases counted

end Aprof
