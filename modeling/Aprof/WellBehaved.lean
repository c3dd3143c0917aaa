import Aprof.ReturnAnalysis

/-! Programs whose calls and returns are ordinary, as an abstract machine with its
own call stack. The shadow stack that `BB_start` keeps is the call stack of the
machine, and no transfer of such a program stops the tool. -/
namespace Aprof

structure Call where
  fn : FnPtr
  entrySp : UInt64
  returnAddr : UInt64

/-- `exit` is how the block was left: a side exit is a jump, whatever the block
ends in. -/
structure Machine where
  calls : List Call
  block : Option BB
  exit : Jump

def Machine.initial : Machine := ⟨[],none,.none⟩

def Layout.word : Layout → Nat
  | .i386 => 4
  | .amd64 => 8

/-- The stack pointer is at least `room` below the entry of the running function;
the first function of a thread was not called and bounds nothing. -/
def Below (csp : UInt64) (room : Nat) (calls : List Call) : Prop :=
  ∀ running ∈ calls.head?, csp.toNat + room ≤ running.entrySp.toNat

inductive Machine.Step (cfg : Config) : Machine → TraceEvent → Machine → Prop where
  | first (bb : BB) (csp : UInt64) : Step cfg initial (.bbStart bb csp) ⟨[],some bb,.bbOther⟩
  | leave (calls : List Call) (last : BB) : Step cfg ⟨calls,some last,.bbOther⟩ .bbEnd ⟨calls,some last,last.exit⟩
  | jump (calls : List Call) (last bb : BB) (csp : UInt64) (inside : bb.isEntry = false)
      (obj : (cfg.fn bb.fn).obj = (cfg.fn last.fn).obj) (objSection : bb.objSection = last.objSection)
      (below : Below csp 0 calls) :
      Step cfg ⟨calls,some last,.bbOther⟩ (.bbStart bb csp) ⟨calls,some bb,.bbOther⟩
  | call (calls : List Call) (last bb : BB) (csp : UInt64) (entry : bb.isEntry = true)
      (below : Below csp cfg.layout.word calls) (room : calls.length + 1 < maxStack) :
      Step cfg ⟨calls,some last,.bbCall⟩ (.bbStart bb csp)
        ⟨⟨bb.fn,csp,last.key + last.instrOffset.toUInt64⟩ :: calls,some bb,.bbOther⟩
  | ret (call : Call) (calls : List Call) (last bb : BB) (csp : UInt64) (target : bb.key = call.returnAddr)
      (above : call.entrySp.toNat + cfg.layout.word ≤ csp.toNat) (below : Below csp 0 calls) :
      Step cfg ⟨call :: calls,some last,.bbRet⟩ (.bbStart bb csp) ⟨calls,some bb,.bbOther⟩
  | access (m : Machine) (type : AccessType) (addr size : Nat) : Step cfg m (.access type addr size) m

inductive Machine.Executes (cfg : Config) : Machine → List TraceEvent → Machine → Prop where
  | nil (m : Machine) : Executes cfg m [] m
  | cons {m middle after : Machine} {event : TraceEvent} {events : List TraceEvent}
      (step : Step cfg m event middle) (rest : Executes cfg middle events after) :
      Executes cfg m (event :: events) after

def entryBlock (key : UInt64) (exit : Jump) : BB := ⟨key,1,exit,0,false,true,2⟩

/-- The frames of the shadow stack are the calls of the machine. -/
def Frames (frames : List Frame) (calls : List Call) : Prop :=
  frames.map (fun frame => (frame.fn,frame.sp)) = calls.map fun call => (call.fn,call.entrySp)

theorem Layout.word_positive (layout : Layout) : 0 < layout.word := by cases layout <;> decide

section
variable {cfg : Config} {frames : List Frame} {calls : List Call} {last bb : BB} {csp : UInt64}

theorem Frames.length (same : Frames frames calls) : frames.length = calls.length := by
  have lengths := congrArg List.length same
  simpa only [List.length_map] using lengths

theorem Frames.sp (same : Frames frames calls) {room : Nat} (below : Below csp room calls) :
    ∀ top ∈ frames.head?, csp.toNat + room ≤ top.sp.toNat := by
  cases frames with
  | nil => nofun
  | cons top rest =>
    cases calls with
    | nil => cases same
    | cons running older =>
      simp only [Frames,List.map_cons,List.cons.injEq,Prod.mk.injEq] at same
      intro frame found
      cases found
      rw [same.1.2]
      exact below running rfl

theorem popFrames_below {n : Nat} (below : ∀ top ∈ frames.head?, csp ≤ top.sp ∧ (csp = top.sp → n = 0)) :
    popFrames csp n frames = frames := by
  cases frames with
  | nil => rfl
  | cons top rest =>
    obtain ⟨le,zero⟩ := below top rfl
    refine if_neg ?_
    rintro (less | ⟨same,positive⟩)
    · exact UInt64.not_lt.mpr le less
    · rw [zero same] at positive
      exact Nat.lt_irrefl 0 positive

theorem Frames.stays (same : Frames frames calls) (below : Below csp 0 calls) : popFrames csp 0 frames = frames :=
  popFrames_below fun top found => ⟨UInt64.le_iff_toNat_le.mpr (same.sp below top found),fun _ => rfl⟩

theorem callerFrames_pairs (last : Option BB) (frames : List Frame) :
    (callerFrames last frames).map (fun frame => (frame.fn,frame.sp)) = frames.map fun frame => (frame.fn,frame.sp) := by
  cases frames with
  | nil => rfl
  | cons top rest =>
    cases last with
    | none => rfl
    | some last =>
      unfold callerFrames
      dsimp only
      split <;> rfl

theorem leaveFrames_real (last : Option BB) (csp : UInt64) (frames : List Frame) :
    leaveFrames last false csp frames = (frames,csp) := by
  cases frames <;> rfl

theorem transfer_jump (same : Frames frames calls) (inside : bb.isEntry = false)
    (obj : (cfg.fn bb.fn).obj = (cfg.fn last.fn).obj) (objSection : bb.objSection = last.objSection)
    (below : Below csp 0 calls) (returns : Nat) :
    transferFrames cfg (some last) bb csp .bbOther returns frames = frames := by
  have plain : emulates cfg last bb .bbOther false = false := by
    simp [emulates,inside,obj,objSection]
  unfold transferFrames
  simp only [reduceCtorEq,false_and,decide_false,Bool.false_eq_true,if_false,Option.any_some,plain,
    leaveFrames_real,adjustFrames,and_false,same.stays below]

theorem transfer_call (same : Frames frames calls) (below : Below csp cfg.layout.word calls) (returns : Nat) :
    transferFrames cfg (some last) bb csp .bbCall returns frames = ⟨bb.fn,csp,0⟩ :: callerFrames (some last) frames := by
  have plain : emulates cfg last bb .bbCall false = false := rfl
  have stays : popFrames csp 0 frames = frames :=
    same.stays fun running found => Nat.le_trans (Nat.add_le_add_left (Nat.zero_le _) _) (below running found)
  have real : calleeSp csp false frames = csp := by cases frames <;> rfl
  unfold transferFrames
  simp only [reduceCtorEq,false_and,decide_false,Bool.false_eq_true,if_false,Option.any_some,plain,
    leaveFrames_real,adjustFrames,stays,and_self,if_true,enterFrames,real]

theorem countFrames_ret {call : Call} (same : Frames frames (call :: calls))
    (above : call.entrySp.toNat + cfg.layout.word ≤ csp.toNat) (target : UInt64) :
    countFrames csp target frames = some 1 := by
  cases frames with
  | nil => cases same
  | cons top rest =>
    simp only [Frames,List.map_cons,List.cons.injEq,Prod.mk.injEq] at same
    have word := cfg.layout.word_positive
    have less : top.sp < csp := by
      rw [UInt64.lt_iff_toNat_lt,same.1.2]
      omega
    rw [countFrames_cons,if_neg (UInt64.not_lt.mpr (UInt64.le_of_lt less)),if_neg (fun equal => UInt64.lt_irrefl _ (equal ▸ less))]

theorem transfer_ret {call : Call} (same : Frames frames (call :: calls))
    (above : call.entrySp.toNat + cfg.layout.word ≤ csp.toNat) (below : Below csp 0 calls) :
    transferFrames cfg (some last) bb csp .bbRet 1 frames = frames.tail := by
  cases frames with
  | nil => cases same
  | cons top rest =>
    rw [transfer_returned]
    simp only [Frames,List.map_cons,List.cons.injEq,Prod.mk.injEq] at same
    have word := cfg.layout.word_positive
    have less : top.sp < csp := by
      rw [UInt64.lt_iff_toNat_lt,same.1.2]
      omega
    have popped : popFrames csp 1 (top :: rest) = popFrames csp 0 rest := if_pos (Or.inl less)
    have stays : Frames rest calls := same.2
    rw [popped,stays.stays below,List.tail_cons]

end

section
variable {c : Counter} {cfg : Config} {rt : Runtime c}

/-- The next `n` timestamps do not exhaust the global counter, which only counts
when the metric is DRMS. -/
def Spare (cfg : Config) (rt : Runtime c) (n : Nat) : Prop :=
  cfg.inputMetric = .rms ∨ ∀ k ≤ n, c.full (rt.globalCounter + k) = false

def Spent (rt after : Runtime c) : Prop :=
  after.globalCounter = rt.globalCounter ∨ after.globalCounter = rt.globalCounter + 1

theorem Spare.step {after : Runtime c} {n : Nat} (spare : Spare cfg rt (n + 1)) (spent : Spent rt after) :
    Spare cfg after n := by
  rcases spare with rms | free
  · exact Or.inl rms
  · right
    intro k bound
    rcases spent with same | one
    · rw [same]
      exact free k (by omega)
    · rw [one,Nat.add_assoc]
      exact free (1 + k) (by omega)

theorem getActivation_total (tdata : ThreadData) {depth : Nat} (positive : 0 < depth) (room : depth < maxStack) :
    ∃ grown, getActivation tdata depth = .ok grown := by
  unfold getActivation resizeStack
  split
  · rw [check_ok.mpr (by simp [positive,room]),ok_bind]
    split
    · exact ⟨_,rfl⟩
    · exact ⟨_,rfl⟩
  · exact ⟨_,rfl⟩

theorem pushFrame_total (cfg : Config) (tdata : ThreadData) (sp : UInt64) (f : FnPtr)
    (room : tdata.stackDepth + 1 < maxStack) : ∃ pushed, pushFrame cfg tdata sp f = .ok pushed := by
  obtain ⟨grown,fits⟩ := getActivation_total {tdata with stackDepth := tdata.stackDepth + 1}
    (Nat.succ_pos tdata.stackDepth) room
  unfold pushFrame
  dsimp only
  rw [fits,ok_bind]
  exact ⟨_,rfl⟩

theorem assignId_total (tid : Nat) (tdata : ThreadData) (spare : Spare cfg rt 1) :
    ∃ after named, assignId cfg rt tid tdata = .ok (after,named) ∧ Spent rt after := by
  unfold assignId
  split
  · exact ⟨rt,_,rfl,Or.inl rfl⟩
  · next other =>
    have free : c.full (rt.globalCounter + 1) = false := by
      rcases spare with rms | free
      · exact absurd rms other
      · exact free 1 (Nat.le_refl 1)
    unfold assignIdDrms
    dsimp only
    rw [free]
    exact ⟨_,_,rfl,Or.inr rfl⟩

theorem functionEnter_total (tid : Nat) (tdata : ThreadData) (spare : Spare cfg rt 1) :
    ∃ after, functionEnter cfg rt tid tdata = .ok after ∧ Spent rt after := by
  unfold functionEnter
  dsimp only
  split
  · exact ⟨_,rfl,Or.inl rfl⟩
  · split
    · exact ⟨_,rfl,Or.inl rfl⟩
    · obtain ⟨after,named,assigned,spent⟩ := assignId_total tid (enterStart tdata) spare
      rw [assigned,ok_bind]
      exact ⟨_,rfl,spent⟩

theorem pushStack_total {tdata : ThreadData} (current : rt.current = .ok tdata) (sp : UInt64) (f : FnPtr)
    (room : tdata.stackDepth + 1 < maxStack) (spare : Spare cfg rt 1) :
    ∃ after, pushStack cfg rt sp f = .ok after ∧ Spent rt after := by
  obtain ⟨pushed,push⟩ := pushFrame_total cfg tdata sp f room
  obtain ⟨after,entered,spent⟩ := functionEnter_total rt.currentTid pushed spare
  refine ⟨after,?_,spent⟩
  unfold pushStack
  rw [current,ok_bind,push,ok_bind,entered]

theorem popStackTo_total (cfg : Config) (csp : UInt64) {turns : Nat} {frames : List Frame} (n : Nat)
    (found : rt.frames rt.currentTid = some frames) (bound : turns ≤ frames.length) :
    ∃ after k, popStackTo cfg csp turns n rt = .ok (after,k) ∧ after.globalCounter = rt.globalCounter := by
  induction turns generalizing rt n frames with
  | zero => exact ⟨rt,0,rfl,rfl⟩
  | succ turns ih =>
    obtain ⟨tdata,stored,rfl⟩ := Option.map_eq_some_iff.mp found
    have current := current_ok.mpr stored
    rw [frames_length] at bound
    unfold popStackTo
    rw [current,ok_bind]
    dsimp only
    split
    · have popped : ∃ middle, popStack cfg rt = .ok middle := popStack_total current (by omega)
      obtain ⟨middle,popped⟩ := popped
      obtain ⟨top,rest,shape,dropped,tid⟩ := popStack_frames popped
      have inner : middle.frames middle.currentTid = some rest := by rw [tid,dropped,Function.update_self]
      have shorter : turns ≤ rest.length := by
        have same := congrArg List.length (Option.some.inj ((current_frames current).symm.trans shape))
        rw [frames_length,List.length_cons] at same
        omega
      obtain ⟨after,k,left,counter⟩ := ih (n - 1) inner shorter
      rw [popped,ok_bind,left,ok_bind]
      exact ⟨after,k + 1,rfl,counter.trans (popStack_counter popped)⟩
    · exact ⟨rt,0,rfl,rfl⟩

theorem storeReturn_counter (rt : Runtime c) (tdata : ThreadData) (last : Option BB) :
    (storeReturn rt tdata last).globalCounter = rt.globalCounter := by
  unfold storeReturn
  split
  · rfl
  · split <;> rfl

theorem adjustStack_total {frames : List Frame} (found : rt.frames rt.currentTid = some frames)
    (last : Option BB) (bb : BB) (csp : UInt64) (exit : Jump) (emulated : Bool)
    (room : exit = .bbCall → frames.length + 1 < maxStack) (spare : Spare cfg rt 1) :
    ∃ after, adjustStack cfg rt last bb csp exit emulated = .ok after ∧ Spent rt after := by
  obtain ⟨tdata,stored,rfl⟩ := Option.map_eq_some_iff.mp found
  have current := current_ok.mpr stored
  obtain ⟨left,n,popped,counter⟩ := popStackTo_total cfg csp 0 found (Nat.le_of_eq (frames_length tdata).symm)
  obtain ⟨-,-,-,none⟩ := popStackTo_frames found (Nat.le_of_eq (frames_length tdata)) popped
  unfold adjustStack
  rw [current,ok_bind,popped,ok_bind]
  dsimp only
  split
  · next calls =>
    obtain rfl := none calls.1
    obtain ⟨stored',tid⟩ := storeReturn_frames current last
    have inner : (storeReturn left tdata last).frames (storeReturn left tdata last).currentTid =
        some (callerFrames last tdata.frames) := by rw [tid,stored',Function.update_self]
    obtain ⟨caller,found',same⟩ := Option.map_eq_some_iff.mp inner
    have depth : caller.stackDepth = tdata.frames.length := by
      rw [← frames_length,same,← List.length_map Frame.sp,callerFrames_sp,List.length_map]
    have counter' := storeReturn_counter left tdata last
    have spare' : Spare cfg (storeReturn left tdata last) 1 := by
      unfold Spare
      rw [counter']
      exact spare
    obtain ⟨after,pushed,spent⟩ := pushStack_total (current_ok.mpr found')
      (if emulated = true ∧ 0 < tdata.stackDepth then tdata.top.sp else csp) bb.fn (depth ▸ room calls.2) spare'
    refine ⟨after,pushed,?_⟩
    rwa [Spent,counter'] at spent
  · exact ⟨left,rfl,Or.inl counter⟩

theorem transferTo_total {frames : List Frame} (found : rt.frames rt.currentTid = some frames) {last : Option BB}
    {bb : BB} {exit : Jump} {returns : Nat} (csp : UInt64) (counted : exit = .bbRet → returns ≠ 0)
    (real : last.any (fun last => emulates cfg last bb exit false) = false)
    (room : exit = .bbCall → frames.length + 1 < maxStack) (spare : Spare cfg rt 1) :
    ∃ after, transferTo cfg rt last bb csp exit returns = .ok after ∧ Spent rt after := by
  obtain ⟨tdata,stored,rfl⟩ := Option.map_eq_some_iff.mp found
  have current := current_ok.mpr stored
  have returned : decide (exit = .bbRet ∧ returns = 0) = false := by
    simp only [decide_eq_false_iff_not,not_and]
    exact counted
  unfold transferTo
  dsimp only
  rw [returned]
  simp only [Bool.false_eq_true,if_false,real]
  unfold leaveResolver
  rw [current,ok_bind]
  simp only [Bool.false_eq_true,false_and,if_false,ok_bind]
  split
  · rw [current,ok_bind]
    obtain ⟨left,n,popped,counter⟩ := popStackTo_total cfg csp returns found
      (Nat.le_of_eq (frames_length tdata).symm)
    rw [popped]
    exact ⟨left,rfl,Or.inl counter⟩
  · exact adjustStack_total found last bb csp exit false room spare

end

section
variable {c : Counter} {cfg : Config}

/-- The current thread of the tracer is in the state of the machine. -/
structure Mirrors (m : Machine) (tr : Tracer c) : Prop where
  frames : ∃ frames, tr.rt.frames tr.rt.currentTid = some frames ∧ Frames frames m.calls
  block : tr.lastBB tr.rt.currentTid = m.block
  exit : m.block.isSome = true → tr.lastExit = m.exit

variable {m m' : Machine} {tr after : Tracer c}

theorem Mirrors.exitSeen {calls : List Call} {last : BB} {exit : Jump} (mirrors : Mirrors ⟨calls,some last,exit⟩ tr) :
    tr.exitSeen = exit := by
  unfold Tracer.exitSeen
  rw [mirrors.block,Option.isSome_some,if_pos rfl]
  exact mirrors.exit rfl

theorem Mirrors.start {calls calls' : List Call} {block : Option BB} {exit : Jump} {bb : BB} {csp : UInt64}
    (mirrors : Mirrors ⟨calls,block,exit⟩ tr) (ok : tr.bbStart cfg bb csp = .ok after)
    (moved : ∀ frames returns, Frames frames calls →
      (tr.exitSeen = .bbRet → countFrames csp bb.key frames = some returns) →
      Frames (transferFrames cfg block bb csp tr.exitSeen returns frames) calls') :
    Mirrors ⟨calls',some bb,.bbOther⟩ after := by
  obtain ⟨frames,found,same⟩ := mirrors.frames
  obtain ⟨tdata,returns,current,counted,stack,tid,block',left⟩ := Tracer.bbStart_inv ok
  rw [current_frames current] at found
  cases found
  refine ⟨⟨_,?_,moved _ returns same counted⟩,?_,fun _ => left⟩
  · rw [tid,stack,Function.update_self,mirrors.block]
  · rw [tid,block',Function.update_self]

theorem Mirrors.step {event : TraceEvent} (mirrors : Mirrors m tr) (step : m.Step cfg event m')
    (ok : tr.step cfg event = .ok after) : Mirrors m' after := by
  cases step with
  | first bb csp =>
    have seen : tr.exitSeen = .none := by
      unfold Tracer.exitSeen
      rw [mirrors.block]
      rfl
    refine mirrors.start ok fun frames returns same _ => ?_
    obtain rfl : frames = [] := List.length_eq_zero_iff.mp same.length
    rw [seen]
    rfl
  | leave calls last =>
    cases ok
    refine ⟨mirrors.frames,mirrors.block,fun _ => ?_⟩
    have block := mirrors.block
    unfold Tracer.bbEnd
    rw [block]
    rfl
  | jump calls last bb csp inside obj objSection below =>
    refine mirrors.start ok fun frames returns same _ => ?_
    rw [mirrors.exitSeen,transfer_jump same inside obj objSection below]
    exact same
  | call calls last bb csp entry below room =>
    refine mirrors.start ok fun frames returns same _ => ?_
    rw [mirrors.exitSeen,transfer_call same below,Frames,List.map_cons,callerFrames_pairs,same]
    rfl
  | ret call calls last bb csp target above below =>
    refine mirrors.start ok fun frames returns same counted => ?_
    have one := counted mirrors.exitSeen
    rw [countFrames_ret same above] at one
    cases one
    rw [mirrors.exitSeen,transfer_ret same above below,Frames,List.map_tail,same]
    rfl
  | access m type addr size =>
    obtain ⟨rt,traced,ok⟩ := bind_ok.mp ok
    cases ok
    obtain ⟨frames,tid⟩ := traceAccess_frames traced
    obtain ⟨stack,found,same⟩ := mirrors.frames
    refine ⟨⟨stack,?_,same⟩,?_,mirrors.exit⟩
    · exact (congrArg rt.frames tid).trans ((congrFun frames _).trans found)
    · exact (congrArg tr.lastBB tid).trans mirrors.block

theorem Mirrors.run {events : List TraceEvent} (executes : m.Executes cfg events m') (mirrors : Mirrors m tr)
    (ok : tr.run cfg events = .ok after) : Mirrors m' after := by
  induction executes generalizing tr with
  | nil m =>
    cases ok
    exact mirrors
  | cons step rest ih =>
    obtain ⟨middle,first,ok⟩ := bind_ok.mp ok
    exact ih (mirrors.step step first) ok

theorem Mirrors.start_total {calls : List Call} {block : Option BB} {exit : Jump} {bb : BB} {csp : UInt64}
    (mirrors : Mirrors ⟨calls,block,exit⟩ tr)
    (counted : tr.exitSeen = .bbRet → ∀ frames, Frames frames calls → countFrames csp bb.key frames = some 1)
    (real : block.any (fun last => emulates cfg last bb tr.exitSeen false) = false)
    (room : tr.exitSeen = .bbCall → calls.length + 1 < maxStack) (spare : Spare cfg tr.rt 1) :
    ∃ after, tr.bbStart cfg bb csp = .ok after ∧ Spent tr.rt after.rt := by
  obtain ⟨frames,found,same⟩ := mirrors.frames
  obtain ⟨tdata,stored,rfl⟩ := Option.map_eq_some_iff.mp found
  have current := current_ok.mpr stored
  have ticked : Aprof.bbStart tr.rt = .ok (tr.rt.put tr.rt.currentTid {tdata with cost := tdata.cost + 1}) := by
    unfold Aprof.bbStart
    rw [current]
    rfl
  generalize base : tr.rt.put tr.rt.currentTid {tdata with cost := tdata.cost + 1} = rt at ticked
  have tid : rt.currentTid = tr.rt.currentTid := by rw [← base]; rfl
  have counter : rt.globalCounter = tr.rt.globalCounter := by rw [← base]; rfl
  have current' : rt.current = .ok {tdata with cost := tdata.cost + 1} := by
    rw [current_ok,tid,← base]
    exact Function.update_self ..
  have found' : rt.frames rt.currentTid = some tdata.frames := by
    rw [current_frames current']
    rfl
  have spare' : Spare cfg rt 1 := by
    unfold Spare
    rw [counter]
    exact spare
  have transferred : ∀ returns, (tr.exitSeen = .bbRet → returns ≠ 0) → ∃ after,
      transferTo cfg rt (tr.lastBB rt.currentTid) bb csp tr.exitSeen returns = .ok after ∧ Spent tr.rt after := by
    intro returns positive
    have plain : (tr.lastBB rt.currentTid).any (fun last => emulates cfg last bb tr.exitSeen false) = false := by
      rw [tid,mirrors.block]
      exact real
    obtain ⟨after,moved,spent⟩ := transferTo_total found' csp positive plain
      (fun calls => by rw [same.length]; exact room calls) spare'
    refine ⟨after,moved,?_⟩
    rwa [Spent,counter] at spent
  unfold Tracer.bbStart
  rw [ticked,ok_bind,current',ok_bind]
  dsimp only
  split
  · next returned =>
    obtain ⟨after,moved,spent⟩ := transferred 1 fun _ => Nat.one_ne_zero
    have one : countReturns {tdata with cost := tdata.cost + 1} csp bb.key = .ok 1 := by
      have frames : countFrames csp bb.key ({tdata with cost := tdata.cost + 1} : ThreadData).frames = some 1 :=
        counted returned _ same
      rw [countReturns_eq,frames]
    rw [one,ok_bind,moved]
    exact ⟨_,rfl,spent⟩
  · next other =>
    obtain ⟨after,moved,spent⟩ := transferred 1 fun _ => Nat.one_ne_zero
    rw [ok_bind,moved]
    exact ⟨_,rfl,spent⟩

def TraceEvent.IsAccess : TraceEvent → Prop
  | .access _ _ _ => True
  | _ => False

theorem Mirrors.step_total {event : TraceEvent} (mirrors : Mirrors m tr) (step : m.Step cfg event m')
    (control : ¬ event.IsAccess) (spare : Spare cfg tr.rt 1) :
    ∃ after, tr.step cfg event = .ok after ∧ Spent tr.rt after.rt := by
  cases step with
  | first bb csp =>
    have seen : tr.exitSeen = .none := by
      unfold Tracer.exitSeen
      rw [mirrors.block]
      rfl
    exact mirrors.start_total (fun ret => absurd (seen.symm.trans ret) (by decide)) rfl
      (fun call => absurd (seen.symm.trans call) (by decide)) spare
  | leave calls last => exact ⟨tr.bbEnd,rfl,Or.inl rfl⟩
  | jump calls last bb csp inside obj objSection below =>
    refine mirrors.start_total (fun ret => absurd (mirrors.exitSeen.symm.trans ret) (by decide)) ?_
      (fun call => absurd (mirrors.exitSeen.symm.trans call) (by decide)) spare
    rw [mirrors.exitSeen]
    simp [emulates,inside,obj,objSection]
  | call calls last bb csp entry below room =>
    exact mirrors.start_total (fun ret => absurd (mirrors.exitSeen.symm.trans ret) (by decide))
      (by rw [mirrors.exitSeen]; rfl) (fun _ => room) spare
  | ret call calls last bb csp target above below =>
    exact mirrors.start_total (fun _ frames same => countFrames_ret same above bb.key)
      (by rw [mirrors.exitSeen]; rfl) (fun call => absurd (mirrors.exitSeen.symm.trans call) (by decide)) spare
  | access m type addr size => exact absurd trivial control

theorem Mirrors.run_total {events : List TraceEvent} (executes : m.Executes cfg events m') (mirrors : Mirrors m tr)
    (control : ∀ event ∈ events, ¬ event.IsAccess) (spare : Spare cfg tr.rt events.length) :
    ∃ after, tr.run cfg events = .ok after := by
  induction executes generalizing tr with
  | nil m => exact ⟨tr,rfl⟩
  | @cons m middle' m' event events step rest ih =>
    have first : Spare cfg tr.rt 1 := by
      rcases spare with rms | free
      · exact Or.inl rms
      · exact Or.inr fun k bound => free k (Nat.le_trans bound (Nat.succ_le_succ (Nat.zero_le _)))
    obtain ⟨middle,ok,spent⟩ := mirrors.step_total step (control event List.mem_cons_self) first
    obtain ⟨after,ok'⟩ := ih (mirrors.step step ok) (fun other member => control other (List.mem_cons_of_mem _ member))
      (spare.step spent)
    refine ⟨after,?_⟩
    unfold Tracer.run at ok' ⊢
    rw [List.foldlM_cons,ok,ok_bind]
    exact ok'

def TraceEvent.isStart : TraceEvent → Bool
  | .bbStart _ _ => true
  | _ => false

theorem Mirrors.step_spare {event : TraceEvent} {n : Nat} (mirrors : Mirrors m tr) (step : m.Step cfg event m')
    (spare : Spare cfg tr.rt (n + [event].countP TraceEvent.isStart)) (ok : tr.step cfg event = .ok after) :
    Spare cfg after.rt n := by
  have kept (same : after.rt.globalCounter = tr.rt.globalCounter) (free : Spare cfg tr.rt n) : Spare cfg after.rt n := by
    unfold Spare
    rw [same]
    exact free
  cases event with
  | bbStart bb csp =>
    have first : Spare cfg tr.rt 1 := spare.imp_right fun free k bound => free k (Nat.le_trans bound (Nat.le_add_left 1 n))
    obtain ⟨other,started,spent⟩ := mirrors.step_total step id first
    rw [started] at ok
    cases ok
    exact spare.step spent
  | bbEnd =>
    cases ok
    exact kept rfl spare
  | access type addr size =>
    obtain ⟨rt,traced,ok⟩ := bind_ok.mp ok
    cases ok
    exact kept (traceAccess_counter traced) spare
  | _ => cases step

theorem Mirrors.run_spare {events : List TraceEvent} {n : Nat} (executes : m.Executes cfg events m') (mirrors : Mirrors m tr)
    (spare : Spare cfg tr.rt (n + events.countP TraceEvent.isStart)) (ok : tr.run cfg events = .ok after) :
    Spare cfg after.rt n := by
  induction executes generalizing tr with
  | nil m =>
    cases ok
    exact spare
  | @cons m middle' m' event events step rest ih =>
    obtain ⟨middle,first,ok⟩ := bind_ok.mp ok
    have split : (event :: events).countP TraceEvent.isStart =
        events.countP TraceEvent.isStart + [event].countP TraceEvent.isStart := by
      rw [← List.singleton_append,List.countP_append,Nat.add_comm]
    rw [split,← Nat.add_assoc] at spare
    exact ih (mirrors.step step first) (mirrors.step_spare step spare first) ok

/-- In every execution of a well-behaved program, of any depth the tool allows,
the functions and stack pointers of the shadow stack of the thread are the calls
that have not returned, and no transfer fails, whatever was accessed before. Only an
access may fail, for its own address, and a thread that exhausts the global counter. -/
theorem shadow_stack_is_call_stack {events : List TraceEvent} (started : Mirrors .initial tr)
    (executes : Machine.initial.Executes cfg events m) :
    (∀ after, tr.run cfg events = .ok after → ∃ tdata, after.rt.current = .ok tdata ∧
      tdata.frames.map (fun frame => (frame.fn,frame.sp)) = m.calls.map fun call => (call.fn,call.entrySp)) ∧
    (∀ after event m', tr.run cfg events = .ok after → m.Step cfg event m' → ¬ event.IsAccess →
      Spare cfg tr.rt (1 + events.countP TraceEvent.isStart) → ∃ next, after.step cfg event = .ok next) ∧
    ((∀ event ∈ events, ¬ event.IsAccess) → Spare cfg tr.rt events.length → ∃ after, tr.run cfg events = .ok after) := by
  refine ⟨?_,?_,started.run_total executes⟩
  · intro after ok
    obtain ⟨frames,found,same⟩ := (started.run executes ok).frames
    obtain ⟨tdata,stored,rfl⟩ := Option.map_eq_some_iff.mp found
    exact ⟨tdata,current_ok.mpr stored,same⟩
  · intro after event m' ok step control spare
    obtain ⟨next,moved,-⟩ := (started.run executes ok).step_total step control (started.run_spare executes spare ok)
    exact ⟨next,moved⟩

end

/-- Two nested calls and the return from the inner one. -/
theorem shadow_stack_of_nested_calls : ∃ (tr after : Tracer .wrapping) (tdata : ThreadData),
    (Tracer.initial .wrapping (smallConfig .rms) >>= fun tr => tr.run (smallConfig .rms) [.threadSwitch 1]) = .ok tr ∧
    tr.run (smallConfig .rms) [.bbStart (plainBlock 1 .bbCall) 100,.bbEnd,.bbStart (entryBlock 50 .bbCall) 96,.bbEnd,
      .bbStart (entryBlock 60 .bbRet) 92,.bbEnd,.bbStart (plainBlock 51 .bbOther) 96] = .ok after ∧
    after.rt.current = .ok tdata ∧ tdata.frames.map (fun frame => (frame.fn,frame.sp)) = [(2,96)] := by
  have state : ∃ tr : Tracer .wrapping,
      (Tracer.initial .wrapping (smallConfig .rms) >>= fun tr => tr.run (smallConfig .rms) [.threadSwitch 1]) = .ok tr ∧
      tr.rt.frames tr.rt.currentTid = some [] ∧ tr.lastBB tr.rt.currentTid = none := ⟨_,rfl,rfl,rfl⟩
  obtain ⟨tr,reached,empty,fresh⟩ := state
  have inner : Machine.Executes (smallConfig .rms) ⟨[⟨2,96,2⟩],some (entryBlock 50 .bbCall),.bbCall⟩
      [.bbStart (entryBlock 60 .bbRet) 92,.bbEnd,.bbStart (plainBlock 51 .bbOther) 96]
      ⟨[⟨2,96,2⟩],some (plainBlock 51 .bbOther),.bbOther⟩ := by
    have below : Below 96 0 [⟨2,96,2⟩] := by
      intro running found
      cases found
      decide
    have deeper : Below 92 Layout.i386.word [⟨2,96,2⟩] := by
      intro running found
      cases found
      decide
    refine .cons (.call _ _ _ _ rfl deeper (by decide)) (.cons (.leave _ _) (.cons ?_ (.nil _)))
    exact .ret _ _ _ _ _ rfl (by decide) below
  have executes : Machine.initial.Executes (smallConfig .rms) [.bbStart (plainBlock 1 .bbCall) 100,.bbEnd,
      .bbStart (entryBlock 50 .bbCall) 96,.bbEnd,.bbStart (entryBlock 60 .bbRet) 92,.bbEnd,
      .bbStart (plainBlock 51 .bbOther) 96] ⟨[⟨2,96,2⟩],some (plainBlock 51 .bbOther),.bbOther⟩ :=
    .cons (.first _ _) (.cons (.leave _ _) (.cons (.call _ _ _ _ rfl nofun (by decide)) (.cons (.leave _ _) inner)))
  obtain ⟨mirrors,-,total⟩ := shadow_stack_is_call_stack ⟨⟨[],empty,rfl⟩,fresh,nofun⟩ executes
  obtain ⟨after,ok⟩ := total (by simp [TraceEvent.IsAccess]) (Or.inl rfl)
  obtain ⟨tdata,current,same⟩ := mirrors after ok
  exact ⟨tr,after,tdata,reached,ok,current,same⟩

end Aprof
