import Aprof.Related

/-! Two runs of the same events with different counters. They are twins when
everything but the timestamps is the same; then the exits record the same input
sizes and the profiles are the same. -/
namespace Aprof

open Levels

/-- The same routines, tuples, costs and stacks: only the activation ids, the
counters and the shadow memories may differ. -/
structure Twins {c c' : Counter} (rt : Runtime c) (rt' : Runtime c') : Prop where
  tid : rt.currentTid = rt'.currentTid
  shared : rt.shared = rt'.shared
  reported : (rt.reported.map fun report => (report.1,report.2.erase)) =
    rt'.reported.map fun report => (report.1,report.2.erase)
  threads : ∀ tid, (rt.threads tid).map ThreadData.erase = (rt'.threads tid).map ThreadData.erase

section
variable {c c' : Counter} {cfg : Config} {rt : Runtime c} {rt' : Runtime c'} {levels : LevelRuntime}

theorem Related.twins (rel : Related (fun _ => Follows cfg) rt levels)
    (rel' : Related (fun _ => Follows cfg) rt' levels) : Twins rt rt' := by
  refine ⟨rel.tid.symm.trans rel'.tid,rel.shared.symm.trans rel'.shared,rel.reported.symm.trans rel'.reported,?_⟩
  intro tid
  rcases rel.lookup tid with ⟨none,absent⟩ | ⟨tdata,thread,some,present,follows⟩
  · rcases rel'.lookup tid with ⟨none',_⟩ | ⟨_,_,_,present',_⟩
    · rw [none,none']
    · rw [absent] at present'
      cases present'
  · rcases rel'.lookup tid with ⟨_,absent'⟩ | ⟨tdata',thread',some',present',follows'⟩
    · rw [present] at absent'
      cases absent'
    · rw [present] at present'
      cases present'
      rw [some,some',Option.map_some,Option.map_some,← follows.core,← follows'.core]

/-- The routine and the input size that `function_exit` records. -/
def exitOf (tdata : ThreadData) : List (FnPtr × UInt32) :=
  if tdata.skip > 0 then [] else [(tdata.top.routineInfo,tdata.top.inputSize)]

def unwindExits (cfg : Config) : Nat → Shared × ThreadData → List (FnPtr × UInt32)
  | 0, _ => []
  | n + 1, state => exitOf state.2 ++ unwindExits cfg n (popShared cfg state.1 state.2)

def exitsOf (cfg : Config) (shared : Shared) (threads : Nat → Option ThreadData) (currentTid : Nat) :
    Event → List (FnPtr × UInt32)
  | .functionExit => ((threads currentTid).map exitOf).getD []
  | .threadExit tid =>
    ((threads tid).map fun tdata => unwindExits cfg tdata.stackDepth (shared,tdata)).getD []
  | _ => []

def exits (cfg : Config) : Runtime c → List Event → List (FnPtr × UInt32)
  | _, [] => []
  | rt, event :: events =>
    match step cfg rt event with
    | .error _ => []
    | .ok after => exitsOf cfg rt.shared rt.threads rt.currentTid event ++ exits cfg after events

theorem unwindExits_erase (cfg : Config) (n : Nat) (shared : Shared) (tdata : ThreadData) :
    unwindExits cfg n (shared,tdata.erase) = unwindExits cfg n (shared,tdata) := by
  induction n generalizing shared tdata with
  | zero => rfl
  | succ n ih =>
    unfold unwindExits
    rw [erase_popShared]
    exact congrArg (exitOf tdata ++ ·) (ih _ _)

theorem Twins.exitsOf (twins : Twins rt rt') (event : Event) :
    exitsOf cfg rt.shared rt.threads rt.currentTid event =
      exitsOf cfg rt'.shared rt'.threads rt'.currentTid event := by
  cases event with
  | functionExit =>
    have same := congrArg (Option.map exitOf) (twins.threads rt.currentTid)
    simp only [Option.map_map] at same
    have kept : exitOf ∘ ThreadData.erase = exitOf := rfl
    rw [kept,twins.tid] at same
    simp only [Aprof.exitsOf,twins.tid,same]
  | threadExit tid =>
    let unwound := fun tdata : ThreadData => unwindExits cfg tdata.stackDepth (rt.shared,tdata)
    have kept : unwound ∘ ThreadData.erase = unwound := by
      ext1 tdata
      exact unwindExits_erase cfg _ _ tdata
    have same := congrArg (Option.map unwound) (twins.threads tid)
    rw [Option.map_map,Option.map_map,kept] at same
    simp only [Aprof.exitsOf,← twins.shared]
    exact congrArg (Option.getD · []) same
  | _ => rfl

end

end Aprof
