import Aprof.DrmsOverflow
import Aprof.IdOrder

/-! What the merge of `overflow_handler_drms` does with the pending activations, and
when it meets all of them. -/
namespace Aprof

open Floor Lockstep

/-- The merge of `n` pending activations, `depths tid` of them in each live thread. -/
structure MergedInOrder (live : List Nat) (depths : Nat → Nat) (n : Nat) (threads threads' : Nat → Option ThreadData)
    (activeTs : Nat → Nat) : Prop where
  zero : activeTs 0 = 0
  increasing : Increasing activeTs (n + 1)
  renumbered : ∀ tid ∈ live, ∀ k < depths tid, ∃! i, 1 ≤ i ∧ i ≤ n ∧ activeTs i = frameId threads tid k ∧
    frameId threads' tid k = 3 * i
  visited : ∀ i, 1 ≤ i → i ≤ n → ∃! frame : Nat × Nat, frame.1 ∈ live ∧ frame.2 < depths frame.1 ∧
    activeTs i = frameId threads frame.1 frame.2 ∧ frameId threads' frame.1 frame.2 = 3 * i
  sorted : ∀ tid ∈ live, Increasing (frameId threads' tid) (depths tid)

/-- The collection loop of the handler comes to its end and meets every pending
activation once, in the order of the ids. -/
def MergeOrders {c : Counter} (cfg : Config) (rt : Runtime c) : Prop :=
  ∃ threads' activeTs,
    mergeIds (rt.live cfg) (rt.pendingFrames cfg) rt.threads (depthOf rt.threads) (fun _ => 0) =
      .ok (threads',activeTs) ∧
    MergedInOrder (rt.live cfg) (depthOf rt.threads) (rt.pendingFrames cfg) rt.threads threads' activeTs

section
variable {live : List Nat} {depths : Nat → Nat} {n : Nat} {threads threads' : Nat → Option ThreadData}
  {activeTs : Nat → Nat}

theorem MergedInOrder.mergeable (merged : MergedInOrder live depths n threads threads' activeTs) :
    Mergeable live threads depths := by
  constructor
  · intro tid inside k below
    obtain ⟨i,⟨low,high,rank,-⟩,-⟩ := merged.renumbered tid inside k below
    have positive := merged.increasing 0 i low (by omega)
    omega
  · intro tid inside k l less below
    obtain ⟨i,⟨-,high,rank,moved⟩,-⟩ := merged.renumbered tid inside k (by omega)
    obtain ⟨j,⟨-,high',rank',moved'⟩,-⟩ := merged.renumbered tid inside l below
    have grows := merged.sorted tid inside k l less below
    have order := merged.increasing i j (by omega) (by omega)
    omega
  · intro tid inside other inside' k below l below' same
    obtain ⟨i,⟨low,high,rank,moved⟩,-⟩ := merged.renumbered tid inside k below
    obtain ⟨j,⟨-,high',rank',moved'⟩,-⟩ := merged.renumbered other inside' l below'
    have equal : i = j := merged.increasing.index_eq (by omega) (by omega) (by omega)
    subst equal
    have frames : (tid,k) = (other,l) := (merged.visited i low high).unique
      ⟨inside,below,rank,moved⟩ ⟨inside',below',rank',moved'⟩
    exact congrArg Prod.fst frames

theorem Merged.inOrder (mergeable : Mergeable live threads depths)
    (merged : Merged live threads depths n (fun _ => 0) threads' activeTs) :
    MergedInOrder live depths n threads threads' activeTs := by
  have zero : activeTs 0 = 0 := merged.outside 0 (.inl rfl)
  have positive : ∀ i, 1 ≤ i → i ≤ n → 0 < activeTs i := by
    intro i low high
    obtain ⟨tid,inside,k,below,source⟩ := merged.source i low high
    rw [source]
    exact mergeable.positive tid inside k below
  have increasing : Increasing activeTs (n + 1) := by
    intro i j less high
    rcases Nat.eq_zero_or_pos i with rfl | low
    · rw [zero]
      exact positive j less (by omega)
    · exact merged.increasing i j low less (by omega)
  refine ⟨zero,increasing,?_,?_,?_⟩
  · intro tid inside k below
    obtain ⟨i,low,high,rank,moved⟩ := merged.ranks tid inside k below
    refine ⟨i,⟨low,high,rank,moved⟩,?_⟩
    rintro j ⟨-,-,-,moved'⟩
    omega
  · intro i low high
    obtain ⟨tid,inside,k,below,source⟩ := merged.source i low high
    obtain ⟨j,-,high',rank,moved⟩ := merged.ranks tid inside k below
    have equal : j = i := increasing.index_eq (by omega) (by omega) (rank.trans source.symm)
    subst equal
    refine ⟨(tid,k),⟨inside,below,source,moved⟩,?_⟩
    rintro ⟨other,l⟩ ⟨inside',below',source',-⟩
    dsimp only at inside' below' source'
    have same : other = tid := mergeable.distinct other inside' tid inside l below' k below (by omega)
    subst same
    have depth : l = k := (mergeable.increasing other inside).index_eq below' below (source'.symm.trans source)
    rw [depth]
  · intro tid inside k l less below
    obtain ⟨i,-,high,rank,moved⟩ := merged.ranks tid inside k (by omega)
    obtain ⟨j,low,high',rank',moved'⟩ := merged.ranks tid inside l below
    have grows := mergeable.increasing tid inside k l less below
    have order : i < j := increasing.lt_of_lt (by omega) (by omega)
    omega

end

section
variable {c : Counter} {cfg : Config} {rt state : Runtime c}

theorem mergeOrders_iff : MergeOrders cfg rt ↔ Mergeable (rt.live cfg) rt.threads (depthOf rt.threads) := by
  constructor
  · rintro ⟨threads',activeTs,-,merged⟩
    exact merged.mergeable
  · intro mergeable
    obtain ⟨threads',activeTs,ok,merged⟩ :=
      mergeIds_ok (rt.nodup_live cfg) (rt.pendingFrames cfg) rt.threads (depthOf rt.threads) (fun _ => 0) mergeable rfl
    exact ⟨threads',activeTs,ok,merged.inOrder mergeable⟩

theorem Runtime.InOrder.overflowAt {event : Event} (order : rt.InOrder cfg)
    (calls : rt.overflowAt cfg event = some state) : ∃ bound, IdsInOrder cfg state.threads bound := by
  have counting : ∀ {rt state : Runtime c}, rt.counting = some state → state.threads = rt.threads := by
    intro rt state calls
    unfold Runtime.counting at calls
    split at calls
    · cases calls
      rfl
    · cases calls
  have switching : ∀ {tid}, rt.switching tid = some state → state.threads = rt.threads := by
    intro tid calls
    unfold Runtime.switching at calls
    split at calls
    · cases calls
    · have same := counting calls
      exact same
  refine ⟨rt.globalCounter,?_⟩
  cases event with
  | threadSwitch tid =>
    rw [switching calls]
    exact order
  | functionEnter sp f =>
    change rt.entering cfg sp f = some state at calls
    unfold Runtime.entering at calls
    split at calls
    · cases calls
    · next tdata found =>
      split at calls
      · cases calls
      · next pushed push =>
        split at calls
        · cases calls
        · obtain ⟨counted,counts,rfl⟩ := Option.map_eq_some_iff.mp calls
          unfold Runtime.counting at counts
          split at counts
          · cases counts
            exact IdsInOrder.put order (order.lower found (pushFrame_opened push) _)
          · cases counts
  | postSyscall tid buffers =>
    change (if tid ≠ rt.currentTid then rt.switching tid else rt.counting) = some state at calls
    split at calls
    · rw [switching calls]
      exact order
    · rw [counting calls]
      exact order
  | threadCreate | threadExit | bbStart | functionExit | access => cases calls

end

/-- Where every earlier overflow found the pending ids in order, the next one merges
them in order exactly if no live thread is inside a skipped call or the ids left in its
slots fit. -/
theorem merge_orders_iff {cfg : Config} (drms : cfg.inputMetric = .drms) {first rt state : Runtime .wrapping}
    (created : initial .wrapping cfg = .ok first) {past : List Event} (orderly : OverflowsOrderly cfg first past)
    (ok : run cfg first past = .ok rt) {event : Event} (calls : rt.overflowAt cfg event = some state) :
    MergeOrders cfg state ↔ state.Orderly cfg := by
  obtain ⟨bound,order⟩ := ((Runtime.InOrder.initial created).run drms orderly ok).overflowAt calls
  rw [mergeOrders_iff]
  constructor
  · intro mergeable
    exact .inr mergeable
  · intro orderly
    exact orderly.mergeable order

section
variable {c : Counter} {cfg : Config} {first rt : Runtime c} {past : List Event}

theorem OverflowsOrderly.nil : OverflowsOrderly cfg first [] := by
  intro past event rest split
  cases past <;> cases split

theorem OverflowsOrderly.snoc (orderly : OverflowsOrderly cfg first past) (event : Event)
    (ran : run cfg first past = .ok rt) (free : rt.overflowAt cfg event = none) :
    OverflowsOrderly cfg first (past ++ [event]) := by
  intro before other rest split rt' reached state calls
  rcases List.eq_nil_or_concat rest with rfl | ⟨front,final,rfl⟩
  · obtain ⟨rfl,same⟩ := List.append_inj' split rfl
    cases same
    cases ran.symm.trans reached
    rw [free] at calls
    cases calls
  · rw [List.concat_eq_append,← List.cons_append,← List.append_assoc] at split
    obtain ⟨same,-⟩ := List.append_inj' split rfl
    exact orderly before other front same rt' reached state calls

theorem OverflowsOrderly.syscalls (drms : cfg.inputMetric = .drms) {tid : Nat} (n : Nat)
    (orderly : OverflowsOrderly cfg first past) (ran : run cfg first past = .ok rt) (current : rt.currentTid = tid)
    (room : ∀ k, k < n → c.full (rt.globalCounter + k + 1) = false) :
    OverflowsOrderly cfg first (past ++ List.replicate n (.postSyscall tid [])) := by
  subst current
  induction n with
  | zero => simpa using orderly
  | succ n ih =>
    have calls := run_syscalls drms rt n fun k less => room k (Nat.lt_succ_of_lt less)
    have joined : run cfg first (past ++ List.replicate n (.postSyscall rt.currentTid [])) =
        .ok {rt with globalCounter := rt.globalCounter + n} := by
      rw [run,List.foldlM_append]
      change (run cfg first past >>= fun rt => run cfg rt _) = _
      rw [ran,ok_bind,calls]
    have free : c.full (rt.globalCounter + n + 1) = false := room n (Nat.lt_succ_self n)
    rw [List.replicate_succ',← List.append_assoc]
    refine (ih fun k less => room k (Nat.lt_succ_of_lt less)).snoc _ joined ?_
    simp only [Runtime.overflowAt,ne_eq,not_true_eq_false,if_false,Runtime.counting,free,Bool.false_eq_true]

theorem overflowAt_full {rt : Runtime .wrapping} {tid : Nat} (current : rt.currentTid = tid) :
    Runtime.overflowAt cfg {rt with globalCounter := 2 ^ 31 - 1} (.postSyscall tid []) =
      some {rt with globalCounter := 2 ^ 31} := by
  subst current
  have next : 2 ^ 31 - 1 + 1 = 2 ^ 31 := by norm_num
  have full : Counter.wrapping.full (2 ^ 31) = true := rfl
  simp only [Runtime.overflowAt,ne_eq,not_true_eq_false,if_false,Runtime.counting,next,full,if_true]

end

theorem busyStart_orderly {first : Runtime .wrapping} (created : initial .wrapping (smallConfig .drms) = .ok first) :
    OverflowsOrderly (smallConfig .drms) first busyStart := by
  have never : OverflowsOrderly (smallConfig .drms) first [] := .nil
  cases created
  have switched := never.snoc (.threadSwitch 1) rfl rfl
  have called := switched.snoc (.functionEnter 0 0) rfl rfl
  have called' := called.snoc (.functionEnter 0 0) rfl rfl
  have wrote := called'.snoc (.access .store 8 1) rfl rfl
  have switched' := wrote.snoc (.threadSwitch 2) rfl rfl
  have called'' := switched'.snoc (.functionEnter 0 0) rfl rfl
  exact called''.snoc (.threadSwitch 1) rfl rfl

/-- Two threads with three pending activations. -/
theorem merge_orders_busy : ∃ first rt state : Runtime .wrapping,
    initial .wrapping (smallConfig .drms) = .ok first ∧ run (smallConfig .drms) first busyFull = .ok rt ∧
    OverflowsOrderly (smallConfig .drms) first busyFull ∧
    rt.overflowAt (smallConfig .drms) (.postSyscall 1 []) = some state ∧
    state.pendingFrames (smallConfig .drms) = 3 ∧ MergeOrders (smallConfig .drms) state := by
  obtain ⟨first,middle,created,busy⟩ := busy_wrapping
  have reaches := busy.full busy_room
  have orderly : OverflowsOrderly (smallConfig .drms) first busyFull :=
    (busyStart_orderly created).syscalls rfl _ busy.ran busy.tid (busy.counter.symm ▸ busy_room)
  have calls := @overflowAt_full (smallConfig .drms) middle 1 busy.tid
  refine ⟨first,_,_,created,reaches,orderly,calls,busy.pending,?_⟩
  exact (merge_orders_iff rfl created orderly reaches calls).mpr (.inl busy.recorded)

/-- The skipped call never got an id: the collection loop follows a null pointer. -/
theorem merge_misses_skipped_call : ∃ (first rt state : Runtime .wrapping) (past : List Event),
    initial .wrapping (smallConfig .drms) = .ok first ∧ run (smallConfig .drms) first past = .ok rt ∧
    rt.overflowAt (smallConfig .drms) (.postSyscall 1 []) = some state ∧
    mergeIds (state.live (smallConfig .drms)) (state.pendingFrames (smallConfig .drms)) state.threads
      (depthOf state.threads) (fun _ => 0) = .error .invalidPointer ∧
    ¬ MergeOrders (smallConfig .drms) state := by
  obtain ⟨first,rt,created,entered,tid,counter,fails⟩ : ∃ (first rt : Runtime .wrapping),
      initial .wrapping (smallConfig .drms) = .ok first ∧
      run (smallConfig .drms) first [.threadSwitch 1,.functionEnter 0 1] = .ok rt ∧ rt.currentTid = 1 ∧ rt.globalCounter = 2 ∧
      mergeIds (rt.live (smallConfig .drms)) (rt.pendingFrames (smallConfig .drms)) rt.threads
        (depthOf rt.threads) (fun _ => 0) = .error .invalidPointer :=
    ⟨_,_,rfl,rfl,rfl,rfl,rfl⟩
  have room : ∀ k, k < 2 ^ 31 - 3 → Counter.wrapping.full (rt.globalCounter + k + 1) = false := by
    intro k below
    simp only [Counter.full,maxCountVal,counter,beq_eq_false_iff_ne]
    omega
  have ran := @run_syscalls .wrapping (smallConfig .drms) rfl rt (2 ^ 31 - 3) room
  have low : 2 + (2 ^ 31 - 3) = 2 ^ 31 - 1 := by norm_num
  rw [counter,low] at ran
  have reaches : run (smallConfig .drms) first ([.threadSwitch 1,.functionEnter 0 1] ++
      List.replicate (2 ^ 31 - 3) (.postSyscall rt.currentTid [])) = .ok {rt with globalCounter := 2 ^ 31 - 1} := by
    rw [run,List.foldlM_append]
    change (run (smallConfig .drms) first _ >>= fun rt => run (smallConfig .drms) rt _) = _
    rw [entered,ok_bind,ran]
  refine ⟨first,_,_,_,created,reaches,overflowAt_full tid,fails,?_⟩
  rintro ⟨threads',activeTs,ok,-⟩
  have both := fails.symm.trans ok
  cases both

end Aprof
