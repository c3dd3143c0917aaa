import Aprof.General.TopSum
import Aprof.Follows
import Mathlib.Data.UInt

/-! The input size of one pending activation. The counter of a frame is a partial
value that may even be negative; the sum over the frames from an activation up to
the top is the input size the activation would have if all frames above returned
now. -/
namespace Aprof

open Levels Floor

section
variable {M : Type} [AddCommGroup M]

def frameSum (φ : Activation → M) (tdata : ThreadData) (d n : Nat) : M :=
  topSum (fun i => φ (tdata.stack i)) d n

theorem frameSum_setSlot (φ : Activation → M) (tdata : ThreadData) (i : Nat) {f : Activation → Activation}
    (x : M) (changed : ∀ act, φ (f act) = φ act + x) (d n : Nat) :
    frameSum φ (tdata.setSlot i f) d n = frameSum φ tdata d n + if d ≤ i ∧ i < n then x else 0 := by
  apply topSum_change
  · simp only [ThreadData.setSlot,Function.update_self]
    exact changed _
  · intro j other
    simp only [ThreadData.setSlot,Function.update_of_ne other]

theorem frameSum_congr (φ : Activation → M) {tdata after : ThreadData} {d n : Nat}
    (same : ∀ i, d ≤ i → i < n → φ (after.stack i) = φ (tdata.stack i)) :
    frameSum φ after d n = frameSum φ tdata d n :=
  topSum_congr same

end

/-- What is known about a thread while the activation in slot `d` is pending:
`seen` holds the granules accessed since it was entered. -/
structure Inside (cfg : Config) (d : Nat) (seen : Nat → Bool) (size : UInt32) (syscall thread : UInt64)
    (th : LevelThread) : Prop where
  counted : SkipCounted cfg th.core
  depth : d < recordedDepth cfg th.core
  le : ∀ g, th.levels g ≤ recordedDepth cfg th.core
  seen : ∀ g, seen g = true ↔ d < th.levels g
  size : frameSum Activation.inputSize th.core d (recordedDepth cfg th.core) = size
  syscall : frameSum Activation.cumulSyscall th.core d (recordedDepth cfg th.core) = syscall
  thread : frameSum Activation.cumulThread th.core d (recordedDepth cfg th.core) = thread

section
variable {cfg : Config} {d : Nat} {seen : Nat → Bool} {size : UInt32} {syscall thread : UInt64}
  {th : LevelThread} {core : ThreadData}

theorem Inside.top (inside : Inside cfg d seen size syscall thread th) (top : th.core.stackDepth = d + 1) :
    th.core.top.inputSize = size ∧ th.core.top.cumulSyscall = syscall ∧ th.core.top.cumulThread = thread := by
  have le := recordedDepth_le cfg th.core
  have depth := inside.depth
  have all : recordedDepth cfg th.core = d + 1 := by omega
  have slot : th.core.top = th.core.stack d := by
    rw [ThreadData.top,top]
    rfl
  have single : ∀ {M : Type} [AddCommGroup M] (φ : Activation → M),
      frameSum φ th.core d (d + 1) = φ (th.core.stack d) := by
    intro M _ φ
    rw [frameSum,topSum_succ _ (Nat.le_refl d),topSum_empty,zero_add]
  rw [slot,← inside.size,← inside.syscall,← inside.thread,all,single,single,single]
  exact ⟨rfl,rfl,rfl⟩

theorem Inside.same (inside : Inside cfg d seen size syscall thread th) (counted : SkipCounted cfg core)
    (depth : recordedDepth cfg core = recordedDepth cfg th.core)
    (slots : ∀ i, i < recordedDepth cfg th.core → (core.stack i).inputSize = (th.core.stack i).inputSize ∧
      (core.stack i).cumulSyscall = (th.core.stack i).cumulSyscall ∧
      (core.stack i).cumulThread = (th.core.stack i).cumulThread) (dirty : Nat → Bool) :
    Inside cfg d seen size syscall thread {th with core := core, dirty := dirty} := by
  obtain ⟨_,bound,le,levels,sizes,syscalls,threads⟩ := inside
  refine ⟨counted,by rw [depth]; exact bound,by rw [depth]; exact le,levels,?_,?_,?_⟩
  · rw [depth,← sizes]
    exact frameSum_congr _ fun i _ bound => (slots i bound).1
  · rw [depth,← syscalls]
    exact frameSum_congr _ fun i _ bound => (slots i bound).2.1
  · rw [depth,← threads]
    exact frameSum_congr _ fun i _ bound => (slots i bound).2.2

theorem Inside.open (inside : Inside cfg d seen size syscall thread th) (counted : SkipCounted cfg core)
    (depth : recordedDepth cfg core = recordedDepth cfg th.core + 1)
    (slots : ∀ i, i < recordedDepth cfg th.core → (core.stack i).inputSize = (th.core.stack i).inputSize ∧
      (core.stack i).cumulSyscall = (th.core.stack i).cumulSyscall ∧
      (core.stack i).cumulThread = (th.core.stack i).cumulThread)
    (zero : (core.stack (recordedDepth cfg th.core)).inputSize = 0 ∧
      (core.stack (recordedDepth cfg th.core)).cumulSyscall = 0 ∧
      (core.stack (recordedDepth cfg th.core)).cumulThread = 0) :
    Inside cfg d seen size syscall thread {th with core := core} := by
  obtain ⟨_,bound,le,levels,sizes,syscalls,threads⟩ := inside
  have extend : ∀ {M : Type} [AddCommGroup M] (φ : Activation → M),
      (∀ i, i < recordedDepth cfg th.core → φ (core.stack i) = φ (th.core.stack i)) →
      φ (core.stack (recordedDepth cfg th.core)) = 0 →
      frameSum φ core d (recordedDepth cfg core) = frameSum φ th.core d (recordedDepth cfg th.core) := by
    intro M _ φ same empty
    rw [depth,frameSum,topSum_succ _ (Nat.le_of_lt bound),empty,add_zero]
    exact topSum_congr fun i _ bound => same i bound
  refine ⟨counted,by dsimp only; omega,fun g => Nat.le_trans (le g) (by dsimp only; omega),levels,?_,?_,?_⟩
  · rw [← sizes]
    exact extend _ (fun i bound => (slots i bound).1) zero.1
  · rw [← syscalls]
    exact extend _ (fun i bound => (slots i bound).2.1) zero.2.1
  · rw [← threads]
    exact extend _ (fun i bound => (slots i bound).2.2) zero.2.2

theorem Inside.pop (inside : Inside cfg d seen size syscall thread th) (counted : SkipCounted cfg core)
    {n : Nat} (depths : recordedDepth cfg th.core = n + 2) (depth : recordedDepth cfg core = n + 1)
    (above : d ≤ n) (cumul : UInt64)
    (folded : core.stack n = propagate (th.core.stack (n + 1)) cumul (th.core.stack n))
    (same : ∀ i, i ≠ n → core.stack i = th.core.stack i) :
    Inside cfg d seen size syscall thread
      {th with core := core, levels := fun g => min (th.levels g) (recordedDepth cfg core)} := by
  obtain ⟨_,_,le,levels,sizes,syscalls,threads⟩ := inside
  have fold : ∀ {M : Type} [AddCommGroup M] (φ : Activation → M),
      (φ (core.stack n) = φ (th.core.stack n) + φ (th.core.stack (n + 1))) →
      frameSum φ core d (recordedDepth cfg core) = frameSum φ th.core d (recordedDepth cfg th.core) := by
    intro M _ φ added
    rw [depth,depths]
    exact topSum_fold above added fun i other => by rw [same i other]
  refine ⟨counted,by dsimp only; omega,fun g => Nat.min_le_right _ _,?_,?_,?_,?_⟩
  · intro g
    rw [levels g,depth]
    dsimp only
    omega
  · rw [← sizes]
    exact fold _ (by rw [folded]; rfl)
  · rw [← syscalls]
    exact fold _ (by rw [folded]; rfl)
  · rw [← threads]
    exact fold _ (by rw [folded]; rfl)

theorem frameSum_setTop {M : Type} [AddCommGroup M] (φ : Activation → M) (tdata : ThreadData)
    {f : Activation → Activation} (x : M) (changed : ∀ act, φ (f act) = φ act + x) {n : Nat}
    (top : tdata.stackDepth = n) (below : d < n) :
    frameSum φ (tdata.setTop f) d n = frameSum φ tdata d n + x := by
  rw [ThreadData.setTop,frameSum_setSlot φ tdata _ x changed,if_pos (by omega)]

theorem frameSum_readInput {φ : Activation → UInt64} (input : ∀ act size, φ {act with inputSize := size} = φ act)
    (kernel : Bool) (g : Nat) (x y : UInt64) (syscalls : ∀ act, φ (incSyscall act) = φ act + x)
    (threads : ∀ act, φ (incThread act) = φ act + y) (below : d < th.core.stackDepth) :
    frameSum φ (readInput kernel th g) d th.core.stackDepth = frameSum φ th.core d th.core.stackDepth +
      if th.dirty g = true then (if kernel = true then x else y) else 0 := by
  have counted : frameSum φ (th.core.setTop incInput) d th.core.stackDepth =
      frameSum φ th.core d th.core.stackDepth := by
    rw [frameSum_setTop φ th.core 0 (fun act => by rw [add_zero]; exact input act _) rfl below,add_zero]
  unfold readInput
  dsimp only
  by_cases dirty : th.dirty g = true
  · rw [if_pos dirty,if_pos dirty,← counted]
    cases kernel with
    | true => exact frameSum_setTop φ _ x syscalls rfl below
    | false => exact frameSum_setTop φ _ y threads rfl below
  · rw [if_neg dirty,if_neg dirty,add_zero]
    split
    · split
      · rw [frameSum_setSlot φ _ _ 0 fun act => by rw [add_zero]; exact input act _,counted,ite_self,add_zero]
      · exact counted
    · rfl

theorem frameSum_inputSize (kernel : Bool) (g : Nat) (below : d < th.core.stackDepth)
    (le : th.levels g ≤ th.core.stackDepth) :
    frameSum Activation.inputSize (readInput kernel th g) d th.core.stackDepth =
      frameSum Activation.inputSize th.core d th.core.stackDepth +
        if th.dirty g = true ∨ th.levels g ≤ d then 1 else 0 := by
  have counted : frameSum Activation.inputSize (th.core.setTop incInput) d th.core.stackDepth =
      frameSum Activation.inputSize th.core d th.core.stackDepth + 1 :=
    frameSum_setTop Activation.inputSize th.core 1 (fun _ => rfl) rfl below
  unfold readInput
  dsimp only
  by_cases dirty : th.dirty g = true
  · rw [if_pos dirty,if_pos (Or.inl dirty),← counted]
    have kept : ∀ act : Activation, ((if kernel = true then incSyscall else incThread) act).inputSize =
        act.inputSize + 0 := by
      intro act
      rw [add_zero]
      split <;> rfl
    exact (frameSum_setTop Activation.inputSize (th.core.setTop incInput) 0 kept rfl below).trans (add_zero _)
  · rw [if_neg dirty]
    by_cases fresh : th.levels g < th.core.stackDepth
    · rw [if_pos fresh]
      by_cases known : 0 < th.levels g
      · have minus : ∀ act : Activation, (decInput act).inputSize = act.inputSize + (-1) :=
          fun act => sub_eq_add_neg act.inputSize 1
        rw [if_pos known,frameSum_setSlot Activation.inputSize _ _ (-1) minus,counted]
        by_cases reached : th.levels g ≤ d
        · rw [if_neg (by omega),if_pos (Or.inr reached),add_zero]
        · rw [if_pos (by omega),if_neg (by rintro (bad | bad) <;> contradiction),add_zero,add_neg_cancel_right]
      · rw [if_neg known,counted,if_pos (Or.inr (by omega))]
    · have reached : ¬ (th.dirty g = true ∨ th.levels g ≤ d) := by
        rintro (bad | bad)
        · exact dirty bad
        · omega
      rw [if_neg fresh,if_neg reached,add_zero]

/-- A recorded access to granule `g`. -/
theorem Inside.access (inside : Inside cfg d seen size syscall thread th) (recorded : th.core.skip = 0)
    (type : AccessType) (kernel : Bool) (g : Nat) :
    Inside cfg d (Function.update seen g true)
      (size + if type ≠ .store ∧ (th.dirty g = true ∨ seen g = false) then 1 else 0)
      (syscall + if type ≠ .store ∧ th.dirty g = true ∧ kernel = true then 1 else 0)
      (thread + if type ≠ .store ∧ th.dirty g = true ∧ kernel = false then 1 else 0)
      (touch type kernel th g) := by
  obtain ⟨counted,bound,le,levels,sizes,syscalls,threads⟩ := inside
  obtain ⟨counted',depth⟩ := (frames_touch type kernel th g).counted counted
  have all := counted.recorded_iff.mp recorded
  rw [all] at bound sizes syscalls threads
  have height := le g
  rw [all] at height
  have unseen : seen g = false ↔ th.levels g ≤ d := by
    rw [← Bool.not_eq_true,levels g]
    omega
  refine ⟨counted',by rw [depth,all]; exact bound,?_,?_,?_,?_,?_⟩
  · intro h
    rw [depth,all]
    simp only [touch,Function.update_apply]
    split
    · exact Nat.le_refl _
    · exact all ▸ le h
  · intro h
    simp only [touch,Function.update_apply]
    split
    · simpa using bound
    · exact levels h
  all_goals
    rw [depth,all,touch]
    by_cases store : type = .store
  · simp [store,sizes]
  · rw [if_neg store,frameSum_inputSize kernel g bound height,sizes]
    simp [store,unseen]
  · simp [store,syscalls]
  · rw [if_neg store,frameSum_readInput (fun _ _ => rfl) kernel g 1 0 (fun _ => rfl)
      (fun _ => (add_zero _).symm) bound,syscalls]
    cases kernel <;> simp [store]
  · simp [store,threads]
  · rw [if_neg store,frameSum_readInput (fun _ _ => rfl) kernel g 0 1 (fun _ => (add_zero _).symm)
      (fun _ => rfl) bound,threads]
    cases kernel <;> simp [store]

end

end Aprof
