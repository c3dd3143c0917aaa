import Aprof.Costs
import Aprof.CountedReads
import Aprof.General.TopSum
import Mathlib.Algebra.Order.BigOperators.Group.Finset

/-! Induced inputs are inputs: as long as a thread reads fewer than 2^32 granules, no
activation returns with more reads of foreign values than its input size. -/
namespace Aprof

/-- The reads of foreign values by an activation and the calls it made -/
def foreignReads (act : Activation) : Int := act.cumulSyscall.toNat + act.cumulThread.toNat

/-- What `merge_tuple` needs of the activations of a tuple. -/
structure InducedFits (act : Activation) : Prop where
  cumul : act.cumulThread.toNat + act.cumulSyscall.toNat ≤ act.inputSize.toNat
  self : act.selfThread.toNat + act.selfSyscall.toNat ≤ act.inputSize.toNat

/-- The partial input sizes of the first `n` frames, which may be negative, cover the
foreign reads from any frame up. -/
structure Covers (stack : Nat → Activation) (n reads : Nat) (sizes : Nat → Int) : Prop where
  size : ∀ i, i < n → (stack i).inputSize = UInt32.ofInt (sizes i)
  foreign : ∀ d, d ≤ n → topSum (fun i => foreignReads (stack i)) d n ≤ topSum sizes d n
  few : ∀ d, d ≤ n → topSum sizes d n ≤ reads
  self : ∀ i, i < n → (stack i).selfSyscall.toNat ≤ (stack i).cumulSyscall.toNat ∧
    (stack i).selfThread.toNat ≤ (stack i).cumulThread.toNat

section
variable {stack after : Nat → Activation} {n reads : Nat} {sizes : Nat → Int}

def Activation.counters (act : Activation) : UInt32 × UInt64 × UInt64 × UInt64 × UInt64 :=
  (act.inputSize,act.cumulSyscall,act.cumulThread,act.selfSyscall,act.selfThread)

theorem Covers.congr (covers : Covers stack n reads sizes) (same : ∀ i, i < n → (after i).counters = (stack i).counters) :
    Covers after n reads sizes := by
  have fields (i : Nat) (below : i < n) : (after i).inputSize = (stack i).inputSize ∧
      (after i).cumulSyscall = (stack i).cumulSyscall ∧ (after i).cumulThread = (stack i).cumulThread ∧
      (after i).selfSyscall = (stack i).selfSyscall ∧ (after i).selfThread = (stack i).selfThread := by
    simpa only [Activation.counters,Prod.mk.injEq] using same i below
  refine ⟨fun i below => ?_,fun d le => ?_,covers.few,fun i below => ?_⟩
  · rw [(fields i below).1]
    exact covers.size i below
  · have equal : topSum (fun i => foreignReads (after i)) d n = topSum (fun i => foreignReads (stack i)) d n := by
      refine topSum_congr fun i _ below => ?_
      rw [foreignReads,foreignReads,(fields i below).2.1,(fields i below).2.2.1]
    rw [equal]
    exact covers.foreign d le
  · obtain ⟨-,cumulSyscall,cumulThread,selfSyscall,selfThread⟩ := fields i below
    rw [cumulSyscall,cumulThread,selfSyscall,selfThread]
    exact covers.self i below

theorem Covers.none (stack : Nat → Activation) (reads : Nat) (sizes : Nat → Int) : Covers stack 0 reads sizes := by
  refine ⟨fun i below => absurd below (Nat.not_lt_zero i),fun d le => ?_,fun d le => ?_,fun i below => absurd below (Nat.not_lt_zero i)⟩
  · obtain rfl := Nat.le_zero.mp le
    rw [topSum_empty,topSum_empty]
  · obtain rfl := Nat.le_zero.mp le
    rw [topSum_empty]
    exact Int.natCast_nonneg reads

theorem Covers.open (covers : Covers stack n reads sizes) (zero : (stack n).counters = (0,0,0,0,0)) :
    Covers stack (n + 1) reads (Function.update sizes n 0) := by
  obtain ⟨size,cumulSyscall,cumulThread,selfSyscall,selfThread⟩ : (stack n).inputSize = 0 ∧ (stack n).cumulSyscall = 0 ∧
      (stack n).cumulThread = 0 ∧ (stack n).selfSyscall = 0 ∧ (stack n).selfThread = 0 := by
    simpa only [Activation.counters,Prod.mk.injEq] using zero
  have below (i : Nat) (lower : i < n) : Function.update sizes n 0 i = sizes i := Function.update_of_ne (Nat.ne_of_lt lower) _ _
  have sums (d : Nat) (le : d ≤ n) : topSum (Function.update sizes n 0) d (n + 1) = topSum sizes d n := by
    rw [topSum_succ _ le,Function.update_self,add_zero]
    exact topSum_congr fun i _ lower => below i lower
  have foreigns (d : Nat) (le : d ≤ n) : topSum (fun i => foreignReads (stack i)) d (n + 1) =
      topSum (fun i => foreignReads (stack i)) d n := by
    rw [topSum_succ _ le,foreignReads,cumulSyscall,cumulThread]
    exact add_zero _
  refine ⟨fun i lower => ?_,fun d le => ?_,fun d le => ?_,fun i lower => ?_⟩
  · rcases Nat.lt_succ_iff_lt_or_eq.mp lower with lower | rfl
    · rw [below i lower]
      exact covers.size i lower
    · rw [Function.update_self,size]
      rfl
  · rcases Nat.le_or_eq_of_le_succ le with le | rfl
    · rw [sums d le,foreigns d le]
      exact covers.foreign d le
    · rw [topSum_empty,topSum_empty]
  · rcases Nat.le_or_eq_of_le_succ le with le | rfl
    · rw [sums d le]
      exact covers.few d le
    · rw [topSum_empty]
      exact Int.natCast_nonneg reads
  · rcases Nat.lt_succ_iff_lt_or_eq.mp lower with lower | rfl
    · exact covers.self i lower
    · rw [selfSyscall,selfThread]
      exact ⟨Nat.zero_le _,Nat.zero_le _⟩

theorem foreignReads_nonneg (act : Activation) : 0 ≤ foreignReads act := Int.add_nonneg (Int.natCast_nonneg _) (Int.natCast_nonneg _)

theorem Covers.bound (covers : Covers stack n reads sizes) {d : Nat} (le : d ≤ n) :
    topSum (fun i => foreignReads (stack i)) d n ≤ reads := (covers.foreign d le).trans (covers.few d le)

theorem Covers.frame (covers : Covers stack n reads sizes) {i : Nat} (below : i < n) : foreignReads (stack i) ≤ reads := by
  refine le_trans ?_ (covers.bound (Nat.le_of_lt below))
  exact Finset.single_le_sum (f := fun i => foreignReads (stack i)) (fun j _ => foreignReads_nonneg _)
    (Finset.mem_Ico.mpr ⟨Nat.le_refl i,below⟩)

theorem Covers.pop (covers : Covers stack (n + 2) reads sizes) (few : reads < 2 ^ 32) {cumul : UInt64}
    (folded : after n = propagate (stack (n + 1)) cumul (stack n)) (same : ∀ i, i ≠ n → after i = stack i) :
    Covers after (n + 1) reads (Function.update sizes n (sizes n + sizes (n + 1))) := by
  have two : foreignReads (stack n) + foreignReads (stack (n + 1)) ≤ reads := by
    have bound := covers.bound (Nat.le_add_right n 2)
    rwa [topSum_succ _ (Nat.le_succ n),topSum_succ _ (Nat.le_refl n),topSum_empty,zero_add] at bound
  have syscall : (after n).cumulSyscall.toNat = (stack n).cumulSyscall.toNat + (stack (n + 1)).cumulSyscall.toNat := by
    rw [folded]
    show (_ + _ : UInt64).toNat = _
    rw [UInt64.toNat_add]
    unfold foreignReads at two
    omega
  have thread : (after n).cumulThread.toNat = (stack n).cumulThread.toNat + (stack (n + 1)).cumulThread.toNat := by
    rw [folded]
    show (_ + _ : UInt64).toNat = _
    rw [UInt64.toNat_add]
    unfold foreignReads at two
    omega
  have foreign : foreignReads (after n) = foreignReads (stack n) + foreignReads (stack (n + 1)) := by
    unfold foreignReads
    omega
  have others (i : Nat) (other : i ≠ n) : Function.update sizes n (sizes n + sizes (n + 1)) i = sizes i :=
    Function.update_of_ne other _ _
  have sums (d : Nat) (le : d ≤ n) : topSum (Function.update sizes n (sizes n + sizes (n + 1))) d (n + 1) = topSum sizes d (n + 2) :=
    topSum_fold le (Function.update_self ..) others
  have foreigns (d : Nat) (le : d ≤ n) : topSum (fun i => foreignReads (after i)) d (n + 1) =
      topSum (fun i => foreignReads (stack i)) d (n + 2) :=
    topSum_fold le foreign fun i other => by rw [same i other]
  refine ⟨fun i lower => ?_,fun d le => ?_,fun d le => ?_,fun i lower => ?_⟩
  · by_cases own : i = n
    · rw [own,Function.update_self,UInt32.ofInt_add,← covers.size n (by omega),← covers.size (n + 1) (by omega),folded]
      rfl
    · rw [others i own,same i own]
      exact covers.size i (by omega)
  · rcases Nat.le_or_eq_of_le_succ le with le | rfl
    · rw [sums d le,foreigns d le]
      exact covers.foreign d (by omega)
    · rw [topSum_empty,topSum_empty]
  · rcases Nat.le_or_eq_of_le_succ le with le | rfl
    · rw [sums d le]
      exact covers.few d (by omega)
    · rw [topSum_empty]
      exact Int.natCast_nonneg reads
  · by_cases own : i = n
    · obtain ⟨selfSyscall,selfThread⟩ := covers.self n (by omega)
      rw [own,syscall,thread,folded]
      exact ⟨selfSyscall.trans (Nat.le_add_right _ _),selfThread.trans (Nat.le_add_right _ _)⟩
    · rw [same i own]
      exact covers.self i (by omega)

theorem Covers.top (covers : Covers stack (n + 1) reads sizes) (few : reads < 2 ^ 32) : InducedFits (stack n) := by
  have foreign := covers.foreign n (Nat.le_succ n)
  have bound := covers.few n (Nat.le_succ n)
  rw [topSum_succ _ (Nat.le_refl n),topSum_empty,zero_add] at bound
  rw [topSum_succ _ (Nat.le_refl n),topSum_empty,zero_add,topSum_succ _ (Nat.le_refl n),topSum_empty,zero_add] at foreign
  have size := covers.size n (Nat.lt_succ_self n)
  obtain ⟨selfSyscall,selfThread⟩ := covers.self n (Nat.lt_succ_self n)
  have nonneg := foreignReads_nonneg (stack n)
  have whole : ((stack n).inputSize.toNat : Int) = sizes n := by
    rw [size,UInt32.ofInt,Int.emod_eq_of_lt (by omega) (by omega),UInt32.toNat_ofNat']
    omega
  unfold foreignReads at foreign
  exact ⟨by omega,by omega⟩

theorem topSum_at {M : Type} [AddCommGroup M] {f : Nat → M} {i : Nat} (x : M) (d n : Nat) :
    topSum (Function.update f i (f i + x)) d n = topSum f d n + if d ≤ i ∧ i < n then x else 0 :=
  topSum_change (Function.update_self ..) (fun _ other => Function.update_of_ne other _ _) d n

theorem incInput_size (act : Activation) {size : Int} (same : act.inputSize = UInt32.ofInt size) :
    (incInput act).inputSize = UInt32.ofInt (size + 1) := by
  rw [UInt32.ofInt_add,← same]
  rfl

theorem decInput_size (act : Activation) {size : Int} (same : act.inputSize = UInt32.ofInt size) :
    (decInput act).inputSize = UInt32.ofInt (size + -1) := by
  rw [UInt32.ofInt_add,← same,UInt32.ofInt_neg_one,← UInt32.sub_eq_add_neg]
  rfl

theorem Covers.resize (covers : Covers stack n reads sizes) {reads' : Nat} {sizes' : Nat → Int}
    (same : ∀ i, (after i).counters.2 = (stack i).counters.2) (size : ∀ i, i < n → (after i).inputSize = UInt32.ofInt (sizes' i))
    (more : ∀ d, d ≤ n → topSum sizes d n ≤ topSum sizes' d n) (few : ∀ d, d ≤ n → topSum sizes' d n ≤ reads') :
    Covers after n reads' sizes' := by
  have fields (i : Nat) : (after i).cumulSyscall = (stack i).cumulSyscall ∧ (after i).cumulThread = (stack i).cumulThread ∧
      (after i).selfSyscall = (stack i).selfSyscall ∧ (after i).selfThread = (stack i).selfThread := by
    simpa only [Activation.counters,Prod.mk.injEq] using same i
  refine ⟨size,fun d le => ?_,few,fun i below => ?_⟩
  · have equal : topSum (fun i => foreignReads (after i)) d n = topSum (fun i => foreignReads (stack i)) d n := by
      refine topSum_congr fun i _ _ => ?_
      rw [foreignReads,foreignReads,(fields i).1,(fields i).2.1]
    rw [equal]
    exact (covers.foreign d le).trans (more d le)
  · obtain ⟨cumulSyscall,cumulThread,selfSyscall,selfThread⟩ := fields i
    rw [cumulSyscall,cumulThread,selfSyscall,selfThread]
    exact covers.self i below

theorem counters_update {stack : Nat → Activation} {k : Nat} {act : Activation} (same : act.counters.2 = (stack k).counters.2) (i : Nat) :
    (Function.update stack k act i).counters.2 = (stack i).counters.2 := by
  rw [Function.update_apply]
  split
  · next own => rw [own,same]
  · rfl

theorem Covers.first (covers : Covers stack (n + 1) reads sizes) :
    Covers (Function.update stack n (incInput (stack n))) (n + 1) (reads + 1) (Function.update sizes n (sizes n + 1)) := by
  refine covers.resize (counters_update rfl) (fun i below => ?_) (fun d le => ?_) fun d le => ?_
  · by_cases own : i = n
    · rw [own,Function.update_self,Function.update_self]
      exact incInput_size _ (covers.size n (Nat.lt_succ_self n))
    · rw [Function.update_of_ne own,Function.update_of_ne own]
      exact covers.size i below
  · rw [topSum_at]
    split <;> omega
  · rw [topSum_at]
    have old := covers.few d le
    push_cast
    split <;> omega

theorem Covers.again (covers : Covers stack (n + 1) reads sizes) {k : Nat} (lower : k < n) :
    Covers (Function.update (Function.update stack n (incInput (stack n))) k (decInput (stack k))) (n + 1) (reads + 1)
      (Function.update (Function.update sizes n (sizes n + 1)) k (sizes k + -1)) := by
  have apart : k ≠ n := Nat.ne_of_lt lower
  have kept : Function.update sizes n (sizes n + 1) k = sizes k := Function.update_of_ne apart _ _
  have sums (d : Nat) : topSum (Function.update (Function.update sizes n (sizes n + 1)) k (sizes k + -1)) d (n + 1) =
      topSum sizes d (n + 1) + (if d ≤ n ∧ n < n + 1 then 1 else 0) + if d ≤ k ∧ k < n + 1 then -1 else 0 := by
    rw [← kept,topSum_at,topSum_at]
  refine covers.resize (fun i => ?_) (fun i below => ?_) (fun d le => ?_) fun d le => ?_
  · refine (counters_update ?_ i).trans (@counters_update stack n (incInput (stack n)) rfl i)
    rw [Function.update_of_ne apart]
    rfl
  · by_cases caller : i = k
    · rw [caller,Function.update_self,Function.update_self]
      exact decInput_size _ (covers.size k (by omega))
    · rw [Function.update_of_ne caller,Function.update_of_ne caller]
      by_cases own : i = n
      · rw [own,Function.update_self,Function.update_self]
        exact incInput_size _ (covers.size n (Nat.lt_succ_self n))
      · rw [Function.update_of_ne own,Function.update_of_ne own]
        exact covers.size i below
  · rw [sums]
    split <;> split <;> omega
  · rw [sums]
    have old := covers.few d le
    push_cast
    split <;> split <;> omega

theorem Covers.induced (covers : Covers stack (n + 1) reads sizes) (few : reads < 2 ^ 32) (kernel : Bool) {act : Activation}
    (counted : act = if kernel then incSyscall (incInput (stack n)) else incThread (incInput (stack n))) :
    Covers (Function.update stack n act) (n + 1) (reads + 1) (Function.update sizes n (sizes n + 1)) := by
  have frame := covers.frame (Nat.lt_succ_self n)
  obtain ⟨selfSyscall,selfThread⟩ := covers.self n (Nat.lt_succ_self n)
  have plus {count : UInt64} (small : count.toNat ≤ reads) : (count + 1).toNat = count.toNat + 1 := by
    have one : (1 : UInt64).toNat = 1 := rfl
    rw [UInt64.toNat_add,one]
    omega
  unfold foreignReads at frame
  have foreign : foreignReads act = foreignReads (stack n) + 1 := by
    rw [counted]
    unfold foreignReads
    cases kernel with
    | true =>
      show ((((stack n).cumulSyscall + 1).toNat : Int) + (stack n).cumulThread.toNat) = _
      rw [plus (by omega)]
      omega
    | false =>
      show ((stack n).cumulSyscall.toNat : Int) + ((stack n).cumulThread + 1).toNat = _
      rw [plus (by omega)]
      omega
  have self : act.selfSyscall.toNat ≤ act.cumulSyscall.toNat ∧ act.selfThread.toNat ≤ act.cumulThread.toNat := by
    rw [counted]
    cases kernel with
    | true =>
      refine ⟨?_,selfThread⟩
      show ((stack n).selfSyscall + 1).toNat ≤ ((stack n).cumulSyscall + 1).toNat
      rw [plus (by omega),plus (by omega)]
      omega
    | false =>
      refine ⟨selfSyscall,?_⟩
      show ((stack n).selfThread + 1).toNat ≤ ((stack n).cumulThread + 1).toNat
      rw [plus (by omega),plus (by omega)]
      omega
  have size : act.inputSize = (incInput (stack n)).inputSize := by
    rw [counted]
    cases kernel <;> rfl
  refine ⟨fun i below => ?_,fun d le => ?_,fun d le => ?_,fun i below => ?_⟩
  · by_cases own : i = n
    · rw [own,Function.update_self,Function.update_self,size]
      exact incInput_size _ (covers.size n (Nat.lt_succ_self n))
    · rw [Function.update_of_ne own,Function.update_of_ne own]
      exact covers.size i below
  · have sums : topSum (fun i => foreignReads (Function.update stack n act i)) d (n + 1) =
        topSum (fun i => foreignReads (stack i)) d (n + 1) + if d ≤ n ∧ n < n + 1 then 1 else 0 := by
      refine topSum_change ?_ (fun i other => ?_) d (n + 1)
      · rw [Function.update_self,foreign]
      · rw [Function.update_of_ne other]
    rw [sums,topSum_at]
    exact Int.add_le_add_right (covers.foreign d le) _
  · rw [topSum_at]
    have old := covers.few d le
    push_cast
    split <;> omega
  · by_cases own : i = n
    · rw [own,Function.update_self]
      exact self
    · rw [Function.update_of_ne own]
      exact covers.self i below

end

section
variable {cfg : Config} {tid reads : Nat} {log : ThreadLog} {tdata after : ThreadData}

theorem functionEnter_zero {pushed : ThreadData} (shared : Shared) {sp : UInt64} {f : FnPtr} (push : pushFrame cfg tdata sp f = .ok pushed)
    (recorded : (Levels.functionEnter cfg shared pushed).2.skip = 0) :
    ((Levels.functionEnter cfg shared pushed).2.stack tdata.stackDepth).counters = (0,0,0,0,0) := by
  have height := (pushFrame_opened push).more.depth
  unfold Levels.functionEnter at recorded ⊢
  dsimp only at recorded ⊢
  by_cases skipped : (cfg.fn (enterStart pushed).top.routineInfo).skip = true
  · rw [if_pos skipped] at recorded
    cases recorded
  · rw [if_neg skipped] at recorded ⊢
    by_cases skipping : (enterStart pushed).skip > 0
    · rw [if_pos skipping] at recorded
      exact absurd recorded (Nat.pos_iff_ne_zero.mp skipping)
    · rw [if_neg skipping]
      obtain ⟨table,root,next,node,same⟩ := enterShared_eq cfg shared (enterStart pushed)
      rw [same]
      dsimp only
      rw [height,Nat.add_sub_cancel,Function.update_self]
      rfl

theorem erase_counters (same : after.erase = tdata.erase) (i : Nat) : (after.stack i).counters = (tdata.stack i).counters := by
  have slots := congrArg (fun base : ThreadData => (base.stack i).counters) same
  exact slots

theorem Covers.counts {n : Nat} {sizes : Nat → Int} (covers : Covers tdata.stack (n + 1) reads sizes) (few : reads < 2 ^ 32)
    (height : tdata.stackDepth = n + 1) (counts : Counts tdata after) : ∃ sizes, Covers after.stack (n + 1) (reads + 1) sizes := by
  have top : tdata.stackDepth - 1 = n := by rw [height,Nat.add_sub_cancel]
  have read : (tdata.setTop incInput).stack = Function.update tdata.stack n (incInput (tdata.stack n)) := by
    rw [ThreadData.setTop,top]
    rfl
  cases counts with
  | first =>
    rw [read]
    exact ⟨_,covers.first⟩
  | again k below =>
    have lower : k < n := by omega
    have slots : ((tdata.setTop incInput).setSlot k decInput).stack =
        Function.update (Function.update tdata.stack n (incInput (tdata.stack n))) k (decInput (tdata.stack k)) := by
      show Function.update (tdata.setTop incInput).stack k (decInput ((tdata.setTop incInput).stack k)) = _
      rw [read,Function.update_of_ne (Nat.ne_of_lt lower)]
    rw [slots]
    exact ⟨_,covers.again lower⟩
  | foreign kernel =>
    have slots : ((tdata.setTop incInput).setTop (if kernel then incSyscall else incThread)).stack =
        Function.update tdata.stack n (if kernel then incSyscall (incInput (tdata.stack n)) else incThread (incInput (tdata.stack n))) := by
      have again : ((tdata.setTop incInput).setTop (if kernel then incSyscall else incThread)).stack =
          Function.update (tdata.setTop incInput).stack (tdata.stackDepth - 1)
            ((if kernel then incSyscall else incThread) ((tdata.setTop incInput).stack (tdata.stackDepth - 1))) := rfl
      rw [again,read,top,Function.update_self,Function.update_idem]
      cases kernel <;> rfl
    rw [slots]
    exact ⟨_,covers.induced few kernel rfl⟩

theorem Covers.popped {sizes : Nat → Int} (covers : Covers tdata.stack (recordedDepth cfg tdata) reads sizes) (few : reads < 2 ^ 32)
    (counted : SkipCounted cfg tdata) (shared : Shared) (nonempty : 0 < tdata.stackDepth) : ∃ sizes,
      Covers (popShared cfg shared tdata).2.stack (recordedDepth cfg (popShared cfg shared tdata).2) reads sizes := by
  have depth := popShared_recordedDepth counted shared nonempty
  rcases Nat.eq_zero_or_pos tdata.skip with running | stopped
  · have all := counted.recorded_iff.mp running
    rw [if_pos running] at depth
    obtain ⟨table,root,same⟩ := popShared_recorded cfg shared tdata running
    have slots : (popShared cfg shared tdata).2.stack = afterExit tdata.stack tdata.stackDepth (exitCumul cfg tdata) := by rw [same]
    obtain ⟨n,height⟩ : ∃ n, tdata.stackDepth = n + 1 := ⟨tdata.stackDepth - 1,by omega⟩
    rw [depth,height,Nat.add_sub_cancel]
    cases n with
    | zero => exact ⟨sizes,.none _ _ _⟩
    | succ n =>
      rw [all,height] at covers
      refine ⟨_,@Covers.pop tdata.stack _ n reads sizes covers few (exitCumul cfg tdata) ?_ fun i other => ?_⟩
      · rw [slots,afterExit,if_pos (by omega),height]
        exact Function.update_self ..
      · rw [slots,afterExit,if_pos (by omega),height]
        exact Function.update_of_ne other _ _
  · rw [if_neg (Nat.pos_iff_ne_zero.mp stopped)] at depth
    obtain ⟨table,root,same⟩ := popShared_skipped cfg shared tdata stopped
    rw [depth,same]
    exact ⟨sizes,covers⟩

/-- While a thread has read fewer than 2^32 granules its frames cover their foreign reads,
and so has every activation that returned. -/
theorem CountedRun.covers (life : CountedRun cfg tid reads log tdata) (few : reads < 2 ^ 32) :
    (∃ sizes, Covers tdata.stack (recordedDepth cfg tdata) reads sizes) ∧
      ∀ entry ∈ log, entry.1 = .exit → entry.2.skip = 0 → InducedFits entry.2.top := by
  have quiet {op : ThreadOp} {log : ThreadLog} {tdata : ThreadData} (other : op ≠ .exit)
      (exits : ∀ entry ∈ log, entry.1 = .exit → entry.2.skip = 0 → InducedFits entry.2.top) :
      ∀ entry ∈ (op,tdata) :: log, entry.1 = .exit → entry.2.skip = 0 → InducedFits entry.2.top :=
    List.forall_mem_cons.mpr ⟨fun exit => absurd exit other,exits⟩
  induction life with
  | fresh shadow =>
    refine ⟨⟨fun _ => 0,.none _ _ _⟩,fun entry member => ?_⟩
    cases member
  | tick life ih =>
    obtain ⟨covers,exits⟩ := ih few
    refine ⟨covers,quiet (fun same => ?_) exits⟩
    cases same
  | @enter reads log tdata pushed life shared sp f push ih =>
    obtain ⟨⟨sizes,covers⟩,exits⟩ := ih few
    have counted := life.run.clock.counted
    refine ⟨?_,quiet (fun same => ?_) exits⟩
    · have le := recordedDepth_le cfg tdata
      have zero := @functionEnter_zero cfg tdata pushed shared sp f push
      have height := functionEnter_depth shared push
      have entered := functionEnter_entered counted shared push
      generalize (Levels.functionEnter cfg shared pushed).2 = after at zero height entered
      cases entered with
      | hidden counted' depth slots =>
        rw [depth]
        exact ⟨sizes,covers.congr fun i below => by rw [slots i (by omega)]⟩
      | recorded free counted' depth slots zero' =>
        have all := counted.recorded_iff.mp free
        have recorded : after.skip = 0 := counted'.recorded_iff.mpr (depth.trans height.symm)
        have same : Covers after.stack tdata.stackDepth reads sizes := by
          rw [all] at covers
          exact covers.congr fun i below => by rw [slots i (by omega)]
        rw [depth]
        exact ⟨_,same.open (zero recorded)⟩
    · cases same
  | @exit reads log tdata life shared nonempty ih =>
    obtain ⟨⟨sizes,covers⟩,exits⟩ := ih few
    have counted := life.run.clock.counted
    refine ⟨covers.popped few counted shared nonempty,List.forall_mem_cons.mpr ⟨fun _ running => ?_,exits⟩⟩
    obtain ⟨n,height⟩ : ∃ n, tdata.stackDepth = n + 1 := ⟨tdata.stackDepth - 1,by omega⟩
    rw [counted.recorded_iff.mp running,height] at covers
    rw [ThreadData.top,height,Nat.add_sub_cancel]
    exact covers.top few
  | @stamp reads log tdata after life same ih =>
    obtain ⟨⟨sizes,covers⟩,exits⟩ := ih few
    have depth := ((control_fields (control_of_erase same)).counted life.run.clock.counted).2
    rw [depth]
    exact ⟨⟨sizes,covers.congr fun i _ => erase_counters same i⟩,exits⟩
  | @read reads log tdata after life running counts ih =>
    obtain ⟨⟨sizes,covers⟩,exits⟩ := ih (by omega)
    have depth := ((control_fields counts.control).counted life.run.clock.counted).2
    have all := life.run.clock.counted.recorded_iff.mp running.2
    obtain ⟨n,height⟩ : ∃ n, tdata.stackDepth = n + 1 := ⟨tdata.stackDepth - 1,by omega⟩
    rw [depth,all,height]
    rw [all,height] at covers
    exact ⟨covers.counts (by omega) height counts,exits⟩

end

end Aprof
