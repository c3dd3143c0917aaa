import Aprof.InducedReads
import Aprof.MergedProfiles
import Aprof.RecursionCosts
import Aprof.SquareSums
import Aprof.ZeroCosts

/-! The tuples that the calls of a run leave are those that `merge_tuple` accepts: the
writer keeps what the reader asserts. -/
namespace Aprof

section
variable {cfg : Config}

theorem xorMax_eq (x y : UInt64) : xorMax x y = if x < y then y else x := by
  unfold xorMax
  split
  · have ones : (0 : UInt64) - 1 = -1 := by decide
    rw [ones,UInt64.and_neg_one,← UInt64.xor_assoc,UInt64.xor_self,UInt64.zero_xor]
  · rw [UInt64.and_zero,UInt64.xor_zero]

def Recorded.alone (cfg : Config) (exit : Recorded) : Input UInt64 := exit.add (exit.fresh cfg)

theorem Recorded.alone_costs (exit : Recorded) : (exit.alone cfg).calls = 1 ∧ (exit.alone cfg).sumCumulativeCost = exit.cumul ∧
    (exit.alone cfg).sumSelfCost = exit.self ∧ (exit.alone cfg).minCumulativeCost = exit.cumul ∧
    (exit.alone cfg).maxCumulativeCost = exit.cumul ∧ (exit.alone cfg).minSelfCost = exit.self ∧
    (exit.alone cfg).maxSelfCost = exit.self ∧ (exit.alone cfg).sumCumulRealCost = if exit.outermost then exit.cumul else 0 := by
  have lowest (cost : UInt64) : xorMin (0 - 1) cost = cost := by
    rw [xorMin_eq]
    split
    · rfl
    · next above =>
      refine UInt64.toNat_inj.mp (Nat.le_antisymm (UInt64.le_iff_toNat_le.mp (UInt64.not_lt.mp above)) ?_)
      exact Nat.le_of_lt_succ (UInt64.toNat_lt cost)
  have highest (cost : UInt64) : xorMax 0 cost = cost := by
    rw [xorMax_eq]
    split
    · rfl
    · next below => exact UInt64.toNat_inj.mp (Nat.le_antisymm (Nat.zero_le _) (UInt64.le_iff_toNat_le.mp (UInt64.not_lt.mp below)))
  refine ⟨rfl,UInt64.zero_add _,UInt64.zero_add _,lowest _,highest _,lowest _,highest _,?_⟩
  show (if exit.outermost then 0 + exit.cumul else 0) = _
  rw [UInt64.zero_add]

theorem Recorded.alone_sound (exit : Recorded) (spent : exit.self.toNat ≤ exit.cumul.toNat) :
    CostsSound (exit.alone cfg) ∧ SelfOrdered (exit.alone cfg) := by
  obtain ⟨calls,sum,self,min,max,selfMin,selfMax,real⟩ := @Recorded.alone_costs cfg exit
  refine ⟨⟨?_,?_,?_,?_,?_,?_⟩,?_⟩
  · rw [real,sum]
    split
    · exact Nat.le_refl _
    · exact Nat.zero_le _
  · rw [self,sum]
    exact spent
  · rw [selfMin,min]
    exact spent
  · rw [selfMax,max]
    exact spent
  · rw [selfMax,self]
  · rw [selfMin,calls,self]
    exact Nat.le_of_eq (Nat.mul_one _)
  · rw [SelfOrdered,selfMin,selfMax]

theorem Recorded.joins (exit : Recorded) {tuple : Input UInt64} (sound : CostsSound tuple) (spent : exit.self.toNat ≤ exit.cumul.toNat)
    (calls : tuple.calls.toNat + 1 < 2 ^ 64) (sum : tuple.sumCumulativeCost.toNat + exit.cumul.toNat < 2 ^ 64) :
    Joined tuple (exit.alone cfg) (exit.add tuple) := by
  obtain ⟨one,cumul,self,min,max,selfMin,selfMax,real⟩ := @Recorded.alone_costs cfg exit
  have reals := sound.real
  have selfs := sound.self
  refine ⟨?_,?_,?_,?_,?_,?_,?_,?_⟩
  · rw [one]
    exact (add_fits calls).2
  · rw [cumul]
    exact (add_fits sum).2
  · rw [real]
    show (if exit.outermost then tuple.sumCumulRealCost + exit.cumul else tuple.sumCumulRealCost).toNat = _
    split
    · exact (add_fits (by omega)).2
    · rfl
  · rw [self]
    exact (add_fits (show tuple.sumSelfCost.toNat + exit.self.toNat < 2 ^ 64 by omega)).2
  · rw [min]
    show (xorMin tuple.minCumulativeCost exit.cumul).toNat = _
    rw [xorMin_eq]
    exact toNat_lower _ _
  · rw [max]
    show (xorMax tuple.maxCumulativeCost exit.cumul).toNat = _
    rw [xorMax_eq]
    exact toNat_raise _ _
  · rw [selfMin]
    show (xorMin tuple.minSelfCost exit.self).toNat = _
    rw [xorMin_eq]
    exact toNat_lower _ _
  · rw [selfMax]
    show (xorMax tuple.maxSelfCost exit.self).toNat = _
    rw [xorMax_eq]
    exact toNat_raise _ _

/-- The calls and the cumulative costs of some activations are counted without wrapping. -/
structure CallsFit (exits : List Recorded) : Prop where
  calls : exits.length < 2 ^ 64
  cumul : (exits.map fun exit => exit.cumul.toNat).sum < 2 ^ 64

theorem foldl_costs (exits : List Recorded) : ∀ {tuple : Input UInt64}, CostsSound tuple →
    (∀ exit ∈ exits, exit.self.toNat ≤ exit.cumul.toNat) → tuple.calls.toNat + exits.length < 2 ^ 64 →
    tuple.sumCumulativeCost.toNat + (exits.map fun exit => exit.cumul.toNat).sum < 2 ^ 64 →
    CostsSound (exits.foldl (fun tuple exit => exit.add tuple) tuple) ∧
      (exits ≠ [] ∨ SelfOrdered tuple → SelfOrdered (exits.foldl (fun tuple exit => exit.add tuple) tuple)) := by
  induction exits with
  | nil => exact fun sound _ _ _ => ⟨sound,fun holds => holds.resolve_left fun some => some rfl⟩
  | cons exit exits ih =>
    intro tuple sound spent calls sum
    obtain ⟨own,spent⟩ := List.forall_mem_cons.mp spent
    rw [List.length_cons] at calls
    rw [List.map_cons,List.sum_cons] at sum
    have joined : Joined tuple (exit.alone (smallConfig .rms)) (exit.add tuple) := exit.joins sound own (by omega) (by omega)
    obtain ⟨alone,ordered⟩ := @Recorded.alone_sound (smallConfig .rms) exit own
    have counted := joined.calls
    have summed := joined.sum
    rw [(@Recorded.alone_costs (smallConfig .rms) exit).1] at counted
    rw [(@Recorded.alone_costs (smallConfig .rms) exit).2.1] at summed
    have one : (1 : UInt64).toNat = 1 := rfl
    rw [one] at counted
    obtain ⟨all,inOrder⟩ := ih (joined.sound sound alone) spent (by rw [counted]; omega) (by rw [summed]; omega)
    exact ⟨all,fun _ => inOrder (.inr (joined.ordered ordered))⟩

theorem foldl_induced {size : Nat} (exits : List Recorded) : ∀ {tuple : Input UInt64},
    (∀ exit ∈ exits, InducedFits exit.act ∧ exit.act.inputSize.toNat = size) → tuple.calls.toNat + exits.length < 2 ^ 64 →
    tuple.sumCumulThread.toNat + tuple.sumCumulSyscall.toNat ≤ size * tuple.calls.toNat →
    tuple.sumSelfThread.toNat + tuple.sumSelfSyscall.toNat ≤ size * tuple.calls.toNat →
    let all := exits.foldl (fun tuple exit => exit.add tuple) tuple
    all.sumCumulThread.toNat + all.sumCumulSyscall.toNat ≤ size * all.calls.toNat ∧
      all.sumSelfThread.toNat + all.sumSelfSyscall.toNat ≤ size * all.calls.toNat := by
  induction exits with
  | nil => exact fun _ _ cumul self => ⟨cumul,self⟩
  | cons exit exits ih =>
    intro tuple fits calls cumul self
    obtain ⟨⟨own,sized⟩,fits⟩ := List.forall_mem_cons.mp fits
    rw [List.length_cons] at calls
    have counted : (exit.add tuple).calls.toNat = tuple.calls.toNat + 1 := (add_fits (show _ + 1 < 2 ^ 64 by omega)).2
    have grows (total more : UInt64) : (total + more).toNat ≤ total.toNat + more.toNat := by
      rw [UInt64.toNat_add]
      exact Nat.mod_le _ _
    have more : size * (tuple.calls.toNat + 1) = size * tuple.calls.toNat + size := Nat.mul_succ _ _
    have cumulFits := own.cumul
    have selfFits := own.self
    refine @ih (exit.add tuple) fits (by omega) ?_ ?_
    · rw [counted,more]
      have thread := grows tuple.sumCumulThread exit.act.cumulThread
      have syscall := grows tuple.sumCumulSyscall exit.act.cumulSyscall
      show (tuple.sumCumulThread + exit.act.cumulThread).toNat + (tuple.sumCumulSyscall + exit.act.cumulSyscall).toNat ≤ _
      omega
    · rw [counted,more]
      have thread := grows tuple.sumSelfThread exit.act.selfThread
      have syscall := grows tuple.sumSelfSyscall exit.act.selfSyscall
      show (tuple.sumSelfThread + exit.act.selfThread).toNat + (tuple.sumSelfSyscall + exit.act.selfSyscall).toNat ≤ _
      omega

theorem recordAll_called (exits : List Recorded) : ∀ tuple ∈ (recordAll cfg exits).nodes, Recorded.ofTuple cfg exits tuple ≠ [] := by
  induction exits using List.reverseRecOn with
  | nil =>
    intro tuple member
    rw [recordAll,List.foldl_nil,htConstruct_nodes] at member
    cases member
  | append_singleton exits exit ih =>
    have collected := @recordAll_collected cfg exits
    have known : ∀ tuple ∈ (recordAll cfg exits).nodes, ∃ other : Recorded, identity tuple = identity (other.fresh cfg) := by
      intro tuple member
      obtain ⟨other,same,-⟩ := collected.known tuple member
      exact ⟨other,same⟩
    have older {tuple : Input UInt64} (member : tuple ∈ (recordAll cfg exits).nodes) :
        Recorded.ofTuple cfg (exits ++ [exit]) tuple ≠ [] := by
      rw [Recorded.ofTuple_append]
      exact List.append_ne_nil_of_left_ne_nil (ih tuple member) _
    have own {tuple : Input UInt64} (same : identity tuple = identity (exit.fresh cfg)) :
        Recorded.ofTuple cfg (exits ++ [exit]) tuple ≠ [] := by
      rw [Recorded.ofTuple_append,if_pos same.symm]
      exact List.append_ne_nil_of_right_ne_nil _ (List.cons_ne_nil _ _)
    intro tuple member
    rw [recordAll,List.foldl_append] at member
    rcases exit.into_cases known with ⟨-,perm⟩ | ⟨before,old,after,split,same,changed⟩
    · rcases List.mem_cons.mp (perm.mem_iff.mp member) with rfl | earlier
      · exact own rfl
      · exact older earlier
    · replace member : tuple ∈ (exit.into cfg (recordAll cfg exits)).nodes := member
      rw [split] at older
      rw [changed] at member
      rcases List.mem_append.mp member with earlier | later
      · exact older (List.mem_append_left _ earlier)
      · rcases List.mem_cons.mp later with rfl | later
        · exact own same
        · exact older (List.mem_append_right _ (List.mem_cons_of_mem _ later))

theorem recordAll_sound {exits : List Recorded} (spent : ∀ exit ∈ exits, exit.self.toNat ≤ exit.cumul.toNat)
    (induced : cfg.inputMetric = .drms → ∀ exit ∈ exits, InducedFits exit.act) {tuple : Input UInt64}
    (member : tuple ∈ (recordAll cfg exits).nodes) (fit : CallsFit (Recorded.ofTuple cfg exits tuple)) : SoundlyPrinted cfg tuple := by
  obtain ⟨first,same,sum⟩ := (recordAll_collected exits).known tuple member
  have fresh : CostsSound (first.fresh cfg) := by constructor <;> exact Nat.le_refl _
  have own : ∀ exit ∈ Recorded.ofTuple cfg exits tuple, exit ∈ exits ∧ exit.act.inputSize.toNat = tuple.inputSize.toNat := by
    intro exit inside
    obtain ⟨member,identical⟩ := List.mem_filter.mp inside
    have size := congrArg (fun identity : UInt64 × UInt64 × UInt64 => identity.2.1.toNat) (of_decide_eq_true identical)
    exact ⟨member,size⟩
  have none : (first.fresh cfg).calls.toNat = 0 ∧ (first.fresh cfg).sumCumulativeCost.toNat = 0 := ⟨rfl,rfl⟩
  have calls : (first.fresh cfg).calls.toNat + (Recorded.ofTuple cfg exits tuple).length < 2 ^ 64 := by
    rw [none.1,Nat.zero_add]
    exact fit.calls
  obtain ⟨sound,ordered⟩ := foldl_costs _ fresh (fun exit inside => spent exit (own exit inside).1) calls
    (by rw [none.2,Nat.zero_add]; exact fit.cumul)
  have reads (drms : cfg.inputMetric = .drms) := @foldl_induced tuple.inputSize.toNat _ _
    (fun exit inside => ⟨induced drms exit (own exit inside).1,(own exit inside).2⟩) calls (Nat.zero_le _) (Nat.zero_le _)
  rw [← sum] at sound ordered
  dsimp only at reads
  rw [← sum] at reads
  exact ⟨⟨sound,fun drms => (reads drms).1,fun drms => (reads drms).2⟩,ordered (.inl (recordAll_called exits tuple member))⟩

end

/-- The activation that a return records for a function -/
def recordedExit (cfg : Config) (f : FnPtr) : ThreadOp × ThreadData → Option Recorded
  | (.exit,tdata) =>
    if (tdata.skip = 0 ∧ f = tdata.top.routineInfo) ∧ (cfg.fn f).discard = false then
      some ⟨tdata.top,contextOf tdata tdata.top,exitCumul cfg tdata,exitCumul cfg tdata - tdata.top.sumChildrenCost,
        decide ((tdata.routine f).recursionPending - 1 < 1)⟩
    else none
  | _ => none

/-- The activations of a function that a life has recorded, the first one first -/
def recordedExits (cfg : Config) (f : FnPtr) (log : ThreadLog) : List Recorded := (log.filterMap (recordedExit cfg f)).reverse

section
variable {cfg : Config} {entry : ThreadData → FnPtr → Prop} {tid : Nat} {log : ThreadLog} {tdata : ThreadData} {f : FnPtr}

theorem recordedExits_skip {op : ThreadOp} (none : recordedExit cfg f (op,tdata) = none) :
    recordedExits cfg f ((op,tdata) :: log) = recordedExits cfg f log := by
  rw [recordedExits,List.filterMap_cons_none none]
  rfl

theorem recordedExits_more {op : ThreadOp} {exit : Recorded} (recorded : recordedExit cfg f (op,tdata) = some exit) :
    recordAll cfg (recordedExits cfg f ((op,tdata) :: log)) = exit.into cfg (recordAll cfg (recordedExits cfg f log)) := by
  rw [recordedExits,List.filterMap_cons_some recorded,List.reverse_cons,recordAll,List.foldl_append]
  rfl

theorem exitRoutine_inputMap (cfg : Config) (tdata : ThreadData) (rtnInfo : RoutineInfo) :
    (exitRoutine cfg {tdata with cost := exitTicks cfg tdata} rtnInfo).inputMap =
      if (cfg.fn tdata.top.routineInfo).discard then rtnInfo.inputMap else
        recordTuple cfg tdata.top (contextOf tdata tdata.top) (exitCumul cfg tdata)
          (exitCumul cfg tdata - tdata.top.sumChildrenCost) (decide (rtnInfo.recursionPending - 1 < 1)) rtnInfo.inputMap := by
  rw [exitRoutine]
  split
  · next discard => exact (if_pos discard).symm
  · next kept => exact (if_neg kept).symm

/-- Where threads have reports of their own, the tuples of a function are those of its recorded returns. -/
theorem ThreadRun.recorded (separate : cfg.singleReport = false) (life : ThreadRun cfg entry tid log tdata) (f : FnPtr) :
    (tdata.routine f).inputMap = recordAll cfg (recordedExits cfg f log) := by
  induction life with
  | fresh shadow =>
    rw [newThread_routine]
    rfl
  | tick life ih =>
    rw [recordedExits_skip rfl]
    exact ih
  | enter life shared sp g permitted push ih =>
    obtain ⟨-,-,inputMap,-⟩ := functionEnter_tables life.overlaps.table shared push
    rw [recordedExits_skip rfl,inputMap separate]
    exact ih
  | @exit log tdata life shared nonempty ih =>
    rw [popShared_routine separate life.overlaps.table shared nonempty f]
    by_cases own : tdata.skip = 0 ∧ f = tdata.top.routineInfo
    · rw [if_pos own,exitRoutine_inputMap,← own.2]
      cases discard : (cfg.fn f).discard with
      | true =>
        have none : recordedExit cfg f (.exit,tdata) = none := if_neg fun holds => Bool.noConfusion (discard.symm.trans holds.2)
        rw [recordedExits_skip none,← ih,if_pos rfl]
      | false =>
        have recorded : recordedExit cfg f (.exit,tdata) = some _ := if_pos ⟨own,discard⟩
        rw [recordedExits_more recorded,← ih,if_neg Bool.false_ne_true]
        rfl
    · have none : recordedExit cfg f (.exit,tdata) = none := if_neg fun holds => own holds.1
      rw [if_neg own,recordedExits_skip none]
      exact ih
  | access life same ih =>
    rw [ThreadData.routine,(control_fields same).routines]
    exact ih

theorem recordedExit_logged {entry : ThreadOp × ThreadData} {exit : Recorded} (recorded : recordedExit cfg f entry = some exit) :
    entry.1 = .exit ∧ entry.2.skip = 0 ∧ exit.act = entry.2.top ∧ exit.cumul = exitCumul cfg entry.2 ∧
      exit.self = exitCumul cfg entry.2 - entry.2.top.sumChildrenCost := by
  obtain ⟨op,tdata⟩ := entry
  cases op with
  | tick => exact absurd recorded.symm (Option.some_ne_none _)
  | enter sp g => exact absurd recorded.symm (Option.some_ne_none _)
  | exit =>
    obtain ⟨holds,same⟩ := Option.ite_none_right_eq_some.mp recorded
    obtain rfl := Option.some.inj same
    exact ⟨rfl,holds.1.1,rfl,rfl,rfl⟩

theorem CountedRun.tuples_sound {reads : Nat} (separate : cfg.singleReport = false) (life : CountedRun cfg tid reads log tdata)
    (few : outsideTicks cfg log < 2 ^ 64) (fewReads : cfg.inputMetric = .drms → reads < 2 ^ 32) (f : FnPtr) {tuple : Input UInt64}
    (member : tuple ∈ (tdata.routine f).inputMap.nodes)
    (fit : CallsFit (Recorded.ofTuple cfg (recordedExits cfg f log) tuple)) : SoundlyPrinted cfg tuple := by
  rw [life.run.recorded separate] at member
  refine recordAll_sound (fun exit inside => ?_) (fun drms exit inside => ?_) member fit
  · obtain ⟨entry,logged,recorded⟩ := List.mem_filterMap.mp (List.mem_reverse.mp inside)
    obtain ⟨isExit,running,-,cumul,self⟩ := recordedExit_logged recorded
    rw [cumul,self,UInt64.toNat_sub_of_le _ _ ((life.run.accounts few).exits entry logged isExit running)]
    exact Nat.sub_le _ _
  · obtain ⟨entry,logged,recorded⟩ := List.mem_filterMap.mp (List.mem_reverse.mp inside)
    obtain ⟨isExit,running,act,-,-⟩ := recordedExit_logged recorded
    rw [act]
    exact (life.covers (fewReads drms)).2 entry logged isExit running

end

/-- In every life with fewer than 2^64 ticks and, under DRMS, fewer than 2^32 reads, the tuples
whose calls and costs fit are as `merge_tuple` asserts. The threads of a run live such lives. -/
theorem recorded_tuples_sound (cfg : Config) (separate : cfg.singleReport = false) :
    (∀ tid reads log tdata, CountedRun cfg tid reads log tdata → outsideTicks cfg log < 2 ^ 64 →
      (cfg.inputMetric = .drms → reads < 2 ^ 32) → ∀ f, ∀ tuple ∈ (tdata.routine f).inputMap.nodes,
        CallsFit (Recorded.ofTuple cfg (recordedExits cfg f log) tuple) → SoundlyPrinted cfg tuple) ∧
    ∀ (c : Counter) events (rt : Runtime c), (initial c cfg >>= fun rt => run cfg rt events) = .ok rt →
      ∀ tid tdata, rt.threads tid = some tdata ∨ (tid,tdata) ∈ rt.reported →
        ∃ reads log, reads ≤ (events.map (granules cfg)).sum ∧ CountedRun cfg tid reads log tdata := by
  constructor
  · intro tid reads log tdata life few fewReads f tuple member fit
    exact life.tuples_sound separate few fewReads f member fit
  · intro c events rt reached tid tdata present
    rcases present with found | reported
    · exact (run_counts reached).threads tid tdata found
    · exact (run_counts reached).reported (tid,tdata) reported

/-- Every function is `pow`. -/
def powConfig : Config := {smallConfig .drms with
  fn := fun _ => ⟨3,"pow".toList,some ⟨5,"/usr/lib/libm.so".toList⟩,none,false,false,htConstruct,0,0⟩}

/-- One call that reads a granule which another thread has written -/
def foreignTuple : Input UInt64 := ⟨1,1,0,1,1,1,1,1,1,1,1,1,1,0,1,0,1⟩

theorem recorded_tuples_sound_pow : ∃ log tdata, CountedRun powConfig 1 1 log tdata ∧
    (tdata.routine 0).inputMap.nodes = [foreignTuple] ∧ SoundlyPrinted powConfig foreignTuple := by
  have life : ∃ log tdata, CountedRun powConfig 1 1 log tdata ∧ outsideTicks powConfig log < 2 ^ 64 ∧
      (tdata.routine 0).inputMap.nodes = [foreignTuple] ∧
      CallsFit (Recorded.ofTuple powConfig (recordedExits powConfig 0 log) foreignTuple) := by
    have started : CountedRun powConfig 1 0 [] _ := .fresh blankTable
    have entered := started.enter ⟨fun _ => htConstruct,[]⟩ 100 0 rfl
    have read := entered.read ⟨by decide,rfl⟩ (.foreign false)
    have left := read.tick.exit ⟨fun _ => htConstruct,[]⟩ (by decide)
    exact ⟨_,_,left,by decide,rfl,⟨by decide,by decide⟩⟩
  obtain ⟨log,tdata,life,few,tuples,fit⟩ := life
  refine ⟨log,tdata,life,tuples,(recorded_tuples_sound powConfig rfl).1 _ _ _ _ life few (fun _ => by decide) 0 foreignTuple ?_ fit⟩
  rw [tuples]
  exact List.mem_singleton_self _

/-- The report of a thread that has lived, with ticks, reads and costs that fit -/
def StoredProfile.Lived (cfg : Config) (profile : StoredProfile) : Prop :=
  ∃ tid reads log tdata, CountedRun cfg tid reads log tdata ∧ profile.rtnHt = some tdata.rtnHt ∧
    outsideTicks cfg log < 2 ^ 64 ∧ (cfg.inputMetric = .drms → reads < 2 ^ 32) ∧
    ∀ f, ∀ tuple ∈ (tdata.routine f).inputMap.nodes, CallsFit (Recorded.ofTuple cfg (recordedExits cfg f log) tuple)

section
variable {cfg : Config}

theorem routine_of_member {tdata : ThreadData} (keyed : tdata.rtnHt.Keyed) {rtnInfo : RoutineInfo}
    (member : rtnInfo ∈ tdata.rtnHt.nodes) : tdata.routine rtnInfo.key = rtnInfo := by
  have found : (htFind tdata.rtnHt rtnInfo.key fun _ => true).map id = some rtnInfo :=
    (htFind_project keyed id rtnInfo.key rtnInfo).mpr (List.mem_map_of_mem (f := fun node => (HashNode.key node,id node)) member)
  rw [Option.map_id] at found
  rw [ThreadData.routine]
  exact congrArg (Option.getD · emptyRoutine) found

theorem StoredProfile.Lived.sound (separate : cfg.singleReport = false) {profile : StoredProfile} (lived : profile.Lived cfg) :
    ∀ routine ∈ profile.routines cfg, ∀ tuple ∈ routine.tuples, SoundlyPrinted cfg tuple := by
  obtain ⟨tid,reads,log,tdata,life,table,few,fewReads,fit⟩ := lived
  intro routine inside tuple printed
  rw [StoredProfile.routines,printedRoutines,table] at inside
  obtain ⟨rtnInfo,member,rfl⟩ := List.mem_map.mp (List.mem_filter.mp inside).1
  have own := routine_of_member life.run.overlaps.table.keyed member
  have stored : tuple ∈ (tdata.routine rtnInfo.key).inputMap.nodes := by
    rw [own]
    exact printed
  exact life.tuples_sound separate few fewReads rtnInfo.key stored (fit _ tuple stored)

end

theorem CallsFit.ofTuple {cfg : Config} {exits : List Recorded} (fit : CallsFit exits) (tuple : Input UInt64) :
    CallsFit (Recorded.ofTuple cfg exits tuple) := by
  refine ⟨lt_of_le_of_lt (List.length_filter_le _ _) fit.calls,lt_of_le_of_lt ?_ fit.cumul⟩
  exact (List.filter_sublist.map _).sum_le_sum fun _ _ => Nat.zero_le _

end Aprof
