import Aprof.Activations
import Aprof.DrmsRefinement

/-! The DRMS metric counts the reads of an activation that meet a granule for the
first time or a value somebody else has written since. The global timestamps
order the writes as the history does, as long as the counter does not overflow. -/
namespace Aprof

open Lockstep Levels

section
variable {c : Counter} {cfg : Config}

/-- The event leaves the global counter below its limit. -/
def Runtime.Room (cfg : Config) (rt : Runtime c) (event : Event) : Prop :=
  rt.Moves cfg event → c.full (rt.globalCounter + 1) = false

theorem Runtime.Room.steady {rt : Runtime c} {event : Event} (room : rt.Room cfg event) (moves : rt.Moves cfg event) :
    rt.Steady cfg True := by
  intro full
  rw [room moves] at full
  cases full

theorem drms_simulates (c : Counter) (drms : cfg.inputMetric = .drms) :
    Simulates cfg (DrmsFollows c cfg True) (Runtime.Room cfg) where
  related _ _ follows := follows.related
  steps rt levels event follows room := by
    apply DrmsFollows.step drms follows event
    refine ⟨room.steady,?_⟩
    intro type addr size _
    exact follows.readable type addr size
  begins := drms_initial c cfg True

variable {before during : List Event} {sp : UInt64} {f : FnPtr} {first start entered last : Runtime c}
  {tdata : ThreadData}

/-- The three sums of an activation that returns, as long as the counter does not
overflow and threads do not exit: `before` tells which values were foreign when
the call was made. -/
theorem drms_metric_correct (drms : cfg.inputMetric = .drms) (created : initial c cfg = .ok first)
    (returning : Returning cfg before sp f during start entered last tdata)
    (room : Throughout cfg (Runtime.Room cfg) before sp f during start entered)
    (alive : ∀ event ∈ before ++ during, event.exits = false) :
    tdata.top.inputSize = UInt32.ofNat
      (tally (countsDrms start.currentTid (history cfg first before)) (history cfg entered during)) ∧
    tdata.top.cumulSyscall = UInt64.ofNat
      (tally (countsSyscall start.currentTid (history cfg first before)) (history cfg entered during)) ∧
    tdata.top.cumulThread = UInt64.ofNat
      (tally (countsThread start.currentTid (history cfg first before)) (history cfg entered during)) := by
  obtain ⟨first',levels,ok,rel,measured⟩ := returning.measured (drms_simulates c drms) room fun _ => alive
  rw [created] at ok
  cases ok
  have metric : cfg.inputMetric ≠ .rms := by simp [drms]
  rw [measured_drms metric] at measured
  have related := (drms_simulates c drms).related _ _ rel
  exact returning.counters related measured.2

end

theorem drms_metric_kernel_store : ∃ (first start entered last : Runtime .wrapping) (tdata : ThreadData),
    Returning (smallConfig .drms) [.threadSwitch 1] 0 0
      [.access .load 0 1,.postSyscall 1 [(0,1)],.access .load 0 1] start entered last tdata ∧
    tdata.top.inputSize = UInt32.ofNat (tally
      (countsDrms start.currentTid (history (smallConfig .drms) first [.threadSwitch 1]))
      (history (smallConfig .drms) entered [.access .load 0 1,.postSyscall 1 [(0,1)],.access .load 0 1])) := by
  have run : ∃ (first start entered last : Runtime .wrapping) (tdata : ThreadData),
      initial .wrapping (smallConfig .drms) = .ok first ∧
      Returning (smallConfig .drms) [.threadSwitch 1] 0 0
        [.access .load 0 1,.postSyscall 1 [(0,1)],.access .load 0 1] start entered last tdata ∧
      Throughout (smallConfig .drms) (Runtime.Room (smallConfig .drms)) [.threadSwitch 1] 0 0
        [.access .load 0 1,.postSyscall 1 [(0,1)],.access .load 0 1] start entered := by
    refine ⟨_,_,_,_,_,rfl,⟨rfl,rfl,?_,rfl,rfl,rfl,rfl⟩,?_,fun _ => rfl,?_⟩
    · exact .cons rfl ⟨_,rfl,by decide⟩ (.cons rfl ⟨_,rfl,by decide⟩ (.cons rfl ⟨_,rfl,by decide⟩ trivial))
    · intro first ok
      cases ok
      exact .cons (fun _ => rfl) rfl trivial
    · exact .cons (fun moves => moves.elim) rfl (.cons (fun _ => rfl) rfl (.cons (fun moves => moves.elim) rfl trivial))
  obtain ⟨first,start,entered,last,tdata,created,returning,room⟩ := run
  exact ⟨first,start,entered,last,tdata,returning,(drms_metric_correct rfl created returning room (by decide)).1⟩

/-- The kernel writes while the thread is inside a skipped call: the store is not
recorded, and the second load counts nothing. -/
theorem drms_metric_skipped_store : ∃ (start entered last : Runtime .wrapping) (tdata : ThreadData),
    Returning (smallConfig .drms) [.threadSwitch 1] 0 0
      [.access .load 0 1,.functionEnter 0 1,.postSyscall 1 [(0,1)],.functionExit,.access .load 0 1]
      start entered last tdata ∧
    tdata.top.inputSize ≠ UInt32.ofNat
      (tally (countsDrms 1 []) [⟨some 1,.load,0⟩,⟨none,.store,0⟩,⟨some 1,.load,0⟩]) := by
  refine ⟨_,_,_,_,⟨rfl,rfl,?_,rfl,rfl,rfl,rfl⟩,?_⟩
  · exact .cons rfl ⟨_,rfl,by decide⟩ (.cons rfl ⟨_,rfl,by decide⟩ (.cons rfl ⟨_,rfl,by decide⟩
      (.cons rfl ⟨_,rfl,by decide⟩ (.cons rfl ⟨_,rfl,by decide⟩ trivial))))
  · decide

end Aprof
