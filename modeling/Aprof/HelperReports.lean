import Aprof.MergedReports

/-! Reports merged by the helper. `total_calls` grows by the calls of a tuple and not by
those of the line, so it is their sum only while no tuple with calls is hit again. -/
namespace Aprof

/-- A count of the calls of some lines that has counted none of them again. -/
def CountsOnce (count : Nat) (lines : List (InputMetric × TupleLine)) : Prop :=
  (lines.map fun line => line.2.occ.toNat).sum ≤ count ∧
    (count = (lines.map fun line => line.2.occ.toNat).sum ↔
      lines.Pairwise fun earlier later => earlier.2.inputSize = later.2.inputSize → earlier.2.occ = 0)

theorem CountsOnce.add {count calls : Nat} {lines : List (InputMetric × TupleLine)} (counts : CountsOnce count lines)
    (metric : InputMetric) (line : TupleLine)
    (grown : calls = ((sized lines line.inputSize).map fun line => line.2.occ.toNat).sum + line.occ.toNat) :
    CountsOnce (count + calls) (lines ++ [(metric,line)]) := by
  obtain ⟨below,once⟩ := counts
  have again : ((sized lines line.inputSize).map fun line => line.2.occ.toNat).sum = 0 ↔
      ∀ earlier ∈ lines, earlier.2.inputSize = line.inputSize → earlier.2.occ = 0 := by
    rw [List.sum_eq_zero_iff_forall_eq_nat]
    simp only [sized,List.mem_map,List.mem_filter,decide_eq_true_eq,forall_exists_index,and_imp]
    constructor
    · intro zero earlier member same
      exact UInt64.toNat_inj.mp (zero _ earlier member same rfl)
    · rintro zero _ earlier member same rfl
      rw [zero earlier member same]
      rfl
  unfold CountsOnce
  rw [List.map_append,List.sum_append,List.map_singleton,List.sum_singleton,List.pairwise_append,← once]
  simp only [List.pairwise_singleton,List.mem_singleton,forall_eq,true_and]
  rw [← again]
  omega

theorem unrepeated_iff (points : List (InputMetric × Point)) : Unrepeated (points.map Prod.snd) ↔
    ∀ name, (linesOf points name).Pairwise fun earlier later =>
      earlier.2.inputSize = later.2.inputSize → earlier.2.occ = 0 := by
  unfold Unrepeated linesOf
  simp only [List.pairwise_map,List.pairwise_filter,decide_eq_true_eq]
  constructor
  · intro unrepeated name
    exact unrepeated.imp fun once own own' same => once (own.trans own'.symm) same
  · intro unrepeated
    rw [List.pairwise_iff_forall_sublist]
    intro earlier later inside own same
    exact List.pairwise_iff_forall_sublist.mp (unrepeated later.2.name) inside own rfl same

namespace Helper

section
variable {D : Type}

/-- `memset` and `reset_data`. -/
def freshRuntime (mergeAll erange : Bool) : HelperRuntime D where
  profile := {
    fnHt := htConstruct
    objHt := htConstruct
    extraCost := 0
    nextFunctionId := 0
    application := none
    binaryMtime := 0
    inputMetric := .invalid
    memoryResolution := 0}
  fields := {
    mergeAll := mergeAll
    totalRealCost := 0
    totalSelfCost := 0
    erange := erange}

def mergeReports (squares : Squares D) : HelperRuntime D → List Report → Result (Bool × HelperRuntime D)
  | rt, [] => .ok (true,rt)
  | rt, report :: reports => do
    let (merged,rt) ← mergeReport squares report.name report.file rt
    if merged then mergeReports squares rt reports else .ok (false,rt)

/-- The runtime holds the aggregates of the reports, its totals included. -/
structure Aggregated (rt : HelperRuntime D) (reports : Multiset Report) : Prop
    extends Aprof.Aggregated reading rt.profile reports where
  totalRealCost : rt.fields.totalRealCost.toNat = total TupleLine.cumulReal ((allPoints reading reports).map Point.line)
  totalSelfCost : rt.fields.totalSelfCost.toNat = total TupleLine.self ((allPoints reading reports).map Point.line)
  totalCalls : ∀ name fn, findFunction rt.profile name = some fn → fn.totalCalls.toNat =
    total TupleLine.occ (((allPoints reading reports).filter fun point => point.name = name).map Point.line)

structure Agrees (rt : HelperRuntime D) (ledger : Ledger) : Prop extends Aprof.Agrees rt.profile ledger where
  totalRealCost : rt.fields.totalRealCost.toNat = (ledger.points.map fun point => point.2.line.cumulReal.toNat).sum
  totalSelfCost : rt.fields.totalSelfCost.toNat = (ledger.points.map fun point => point.2.line.self.toNat).sum
  totalCalls : ∀ name, CountsOnce (entry rt.profile name).2.toNat (linesOf ledger.points name)

structure Noted (state : HelperMerging D) (ledger : Ledger) : Prop where
  rt : Agrees state.runtime ledger
  noted : Aprof.Noted state.toMerging ledger

section
variable {squares : Squares D}

theorem Agrees.start {rt : HelperRuntime D} {ledger : Ledger} (agrees : Agrees rt ledger) :
    Noted (startMerging rt) ledger.start :=
  ⟨⟨agrees.toAgrees.start.rt,agrees.totalRealCost,agrees.totalSelfCost,agrees.totalCalls⟩,agrees.toAgrees.start⟩

theorem Noted.step {state after : HelperMerging D} {ledger : Ledger} {line : Char × List Str} (noted : Noted state ledger)
    (applied : Applied squares state line after) : Noted after (ledger.note reading line) := by
  have next := noted.noted.step applied.toApplied
  obtain ⟨agrees,before⟩ := noted
  cases found : pointAt reading state.curr line.1 line.2 with
  | none =>
    have same : (ledger.note reading line).points = ledger.points := by
      unfold Ledger.note
      rw [← before.curr,found]
      exact List.append_nil _
    obtain ⟨real,self⟩ := applied.totals found
    obtain ⟨-,entries⟩ := applied.keeps found agrees.named
    refine ⟨⟨next.rt,?_,?_,fun name => ?_⟩,next⟩
    · rw [same]
      exact (congrArg UInt64.toNat real).trans agrees.totalRealCost
    · rw [same]
      exact (congrArg UInt64.toNat self).trans agrees.totalSelfCost
    · rw [same]
      exact (entries name).symm ▸ agrees.totalCalls name
  | some point =>
    have more : (ledger.note reading line).points = ledger.points ++ [(ledger.metric,point)] := by
      unfold Ledger.note
      rw [← before.curr,found]
      rfl
    obtain ⟨real,self,calls⟩ := applied.counts point found
    obtain ⟨⟨tuple,stored,own⟩,others⟩ := calls agrees.named
    refine ⟨⟨next.rt,?_,?_,fun name => ?_⟩,next⟩
    · rw [more,List.map_append,List.sum_append,← agrees.totalRealCost]
      exact real
    · rw [more,List.map_append,List.sum_append,← agrees.totalSelfCost]
      exact self
    · rw [more,linesOf_add]
      split
      · next same =>
        have summed := (next.rt.collects point.name).found _ tuple stored
        have grown := summed.calls
        rw [more,linesOf_add,if_pos rfl,sized_add,if_pos rfl,List.map_append,List.sum_append] at grown
        rw [same]
        have counts : CountsOnce ((entry state.rt point.name).2.toNat + tuple.calls.toNat)
            (linesOf ledger.points point.name ++ [(ledger.metric,point.line)]) :=
          (agrees.totalCalls point.name).add ledger.metric point.line grown
        rw [← own] at counts
        exact counts
      · next other =>
        exact (others name other).symm ▸ agrees.totalCalls name

theorem mergeTuple_ok {report line : Str} {state after : HelperMerging D} {invalid : Bool}
    (ok : mergeTuple squares report state line = .ok (invalid,after)) :
    (readLine line = none ∧ after = state) ∨
      ∃ tag args, readLine line = some (tag,args) ∧ mergeLine squares state tag args = .ok (invalid,after) := by
  unfold mergeTuple at ok
  split at ok
  · next empty =>
    cases ok
    exact .inl ⟨empty ▸ rfl,rfl⟩
  · obtain ⟨_,_,ok⟩ := bind_ok.mp ok
    cases read : readLine line with
    | none =>
      simp only [read] at ok
      cases ok
    | some tagged =>
      simp only [read] at ok
      exact .inr ⟨tagged.1,tagged.2,rfl,ok⟩

theorem mergeLines_noted {report : Str} (lines : List Str) : ∀ {state after : HelperMerging D} {ledger : Ledger},
    Noted state ledger → mergeLines squares report state lines = .ok (true,after) →
    Noted after ((lines.filterMap fun line => readLine (cString line)).foldl (Ledger.note reading) ledger) := by
  induction lines with
  | nil =>
    intro state after ledger noted ok
    cases ok
    exact noted
  | cons line lines ih =>
    intro state after ledger noted ok
    obtain ⟨-,-,ok⟩ := bind_ok.mp ok
    obtain ⟨⟨invalid,middle⟩,applied,ok⟩ := bind_ok.mp ok
    cases invalid with
    | true => cases ok
    | false =>
      rw [List.filterMap_cons]
      rcases mergeTuple_ok applied with ⟨read,same⟩ | ⟨tag,args,read,applied⟩
      · rw [read]
        rw [same] at ok
        exact ih noted ok
      · rw [read]
        exact ih (noted.step (mergeLine_applied applied)) ok

theorem mergeReport_agrees {report : Report} {rt after : HelperRuntime D} {ledger : Ledger} (agrees : Agrees rt ledger)
    (ok : mergeReport squares report.name report.file rt = .ok (true,after)) : Agrees after (ledger.report reading report) := by
  obtain ⟨name,file⟩ := report
  -- reading the name of the report can only leave `ERANGE` behind
  have named : Agrees (if rt.profile.memoryResolution ≠ 0
      then {rt with fields := {rt.fields with erange := rt.fields.erange || (memoryResolutionReport name).2}} else rt) ledger := by
    split
    · exact ⟨agrees.toAgrees,agrees.totalRealCost,agrees.totalSelfCost,agrees.totalCalls⟩
    · exact agrees
  unfold mergeReport at ok
  dsimp only at ok
  generalize (if rt.profile.memoryResolution ≠ 0
    then {rt with fields := {rt.fields with erange := rt.fields.erange || (memoryResolutionReport name).2}} else rt) = rt'
    at named ok
  split at ok
  · cases ok
  · cases file with
    | unreadable => cases ok
    | broken content =>
      obtain ⟨_,-,ok⟩ := bind_ok.mp ok
      obtain ⟨-,-,ok⟩ := bind_ok.mp ok
      cases ok
    | whole content =>
      obtain ⟨⟨merged,state⟩,lines,ok⟩ := bind_ok.mp ok
      cases ok
      exact (mergeLines_noted _ named.start lines).rt

theorem mergeReports_agrees (order : List Report) : ∀ {rt after : HelperRuntime D} {ledger : Ledger}, Agrees rt ledger →
    mergeReports squares rt order = .ok (true,after) → Agrees after (order.foldl (Ledger.report reading) ledger) := by
  induction order with
  | nil =>
    intro rt after ledger agrees ok
    cases ok
    exact agrees
  | cons report reports ih =>
    intro rt after ledger agrees ok
    obtain ⟨⟨merged,middle⟩,first,ok⟩ := bind_ok.mp ok
    cases merged with
    | false => cases ok
    | true => exact ih (mergeReport_agrees agrees first) ok

theorem freshRuntime_agrees (mergeAll erange : Bool) :
    Agrees (freshRuntime mergeAll erange : HelperRuntime D) ⟨none,0,.invalid,[],[]⟩ := by
  refine ⟨empty_agrees rfl rfl,rfl,rfl,fun name => ?_⟩
  rw [entry_empty rfl]
  exact ⟨le_refl 0,fun _ => .nil,fun _ => rfl⟩

end

/-- The runtime has the aggregates exactly when nothing was counted again and every
induced input was declared. -/
theorem Agrees.aggregated_iff {rt : HelperRuntime D} {metric : InputMetric} {order : List Report}
    (agrees : Agrees rt (ledgerOf reading metric order)) : Aggregated rt order ↔
      Unrepeated (order.flatMap (Report.points reading)) ∧ Declared (ledgerOf reading metric order).points := by
  have points : allPoints reading order = ((ledgerOf reading metric order).points.map Prod.snd : List Point) := by
    rw [ledgerOf_points]
    exact Multiset.coe_bind _ _
  have all : ∀ field : TupleLine → UInt64, total field ((allPoints reading order).map Point.line) =
      ((ledgerOf reading metric order).points.map fun point => (field point.2.line).toNat).sum := by
    intro field
    rw [points]
    unfold total
    rw [Multiset.map_coe,Multiset.map_coe,Multiset.sum_coe,List.map_map,List.map_map]
    rfl
  have own : ∀ name, total TupleLine.occ (((allPoints reading order).filter fun point => point.name = name).map Point.line) =
      ((linesOf (ledgerOf reading metric order).points name).map fun line => line.2.occ.toNat).sum := by
    intro name
    rw [points]
    unfold total linesOf
    rw [Multiset.filter_coe,Multiset.map_coe,Multiset.map_coe,Multiset.sum_coe,List.filter_map,List.map_map,List.map_map,
      List.map_map]
    rfl
  have calls : (∀ name fn, findFunction rt.profile name = some fn → fn.totalCalls.toNat =
      total TupleLine.occ (((allPoints reading order).filter fun point => point.name = name).map Point.line)) ↔
      Unrepeated (order.flatMap (Report.points reading)) := by
    rw [← ledgerOf_points metric,unrepeated_iff]
    constructor
    · intro sums name
      obtain ⟨below,once⟩ := agrees.totalCalls name
      apply once.mp
      cases found : findFunction rt.profile name with
      | some fn =>
        have same := (sums name fn found).trans (own name)
        unfold entry
        rw [found]
        exact same
      | none =>
        unfold entry at below ⊢
        rw [found] at below ⊢
        exact (Nat.le_zero.mp below).symm
    · intro unrepeated name fn found
      have same := (agrees.totalCalls name).2.mpr (unrepeated name)
      unfold entry at same
      rw [found] at same
      exact same.trans (own name).symm
  rw [← calls]
  constructor
  · intro aggregated
    exact ⟨aggregated.totalCalls,agrees.toAgrees.aggregated_iff.mp aggregated.toAggregated⟩
  · rintro ⟨sums,declared⟩
    exact ⟨agrees.toAgrees.aggregated_iff.mpr declared,agrees.totalRealCost.trans (all _).symm,
      agrees.totalSelfCost.trans (all _).symm,sums⟩

theorem merged_aggregates_iff (squares : Squares D) (mergeAll erange : Bool) (after : HelperRuntime D) (order : List Report)
    (merged : mergeReports squares (freshRuntime mergeAll erange) order = .ok (true,after)) : Aggregated after order ↔
      Unrepeated (order.flatMap (Report.points reading)) ∧ Declared (ledgerOf reading .invalid order).points :=
  Agrees.aggregated_iff (mergeReports_agrees order (freshRuntime_agrees mergeAll erange) merged)

end

end Helper

/-- Merged in whatever order, reports come out as the aggregates of their multiset: in
the tool, and in the helper as long as no tuple that has calls is hit again. -/
theorem merge_order_independent {D : Type} (squares : Squares D) (order : List Report) :
    (∀ rt after : Profile D, rt.fnHt = htConstruct → rt.extraCost = 0 → mergeReports squares rt order = .ok (true,after) →
      (Aggregated toolReading after order ↔ Declared (ledgerOf toolReading rt.inputMetric order).points)) ∧
    ∀ (mergeAll erange : Bool) (after : HelperRuntime D),
      Helper.mergeReports squares (Helper.freshRuntime mergeAll erange) order = .ok (true,after) →
      (Helper.Aggregated after order ↔ Unrepeated (order.flatMap (Report.points Helper.reading)) ∧
        Declared (ledgerOf Helper.reading .invalid order).points) :=
  ⟨fun rt after empty zero merged => loaded_aggregates_iff squares rt after empty zero order merged,
    fun mergeAll erange after merged => Helper.merged_aggregates_iff squares mergeAll erange after order merged⟩

def singleCallReport (name : Str) : Report :=
  ⟨name,.whole "v 6\nk 5\ne 7\ni rms\nt 1\na ls\nr \"f\" \"o\" 0\np 0 4 5 5 5 25 1 5 5 5 5 25\n".toList⟩

/-- A report of two calls of the same function on another input size -/
def doubleCallReport (name : Str) : Report :=
  ⟨name,.whole "v 6\nk 9\ne 7\ni rms\nt 1\na ls\nr \"f\" \"o\" 0\np 0 6 4 5 9 41 2 9 9 4 5 41\n".toList⟩

theorem merged_of_accepted {S : Type} {x : Result (Bool × S)} (accepted : x.toOption.map Prod.fst = some true) :
    ∃ after, x = .ok (true,after) := by
  obtain ⟨⟨merged,after⟩,ok,rfl⟩ := Option.map_eq_some_iff.mp accepted
  cases x with
  | error fault => cases ok
  | ok outcome =>
    cases ok
    exact ⟨after,rfl⟩

def ToolAggregates (order : List Report) : Prop := ∃ after,
  mergeReports toolSquares {freshProfile with binaryMtime := 7} order = .ok (true,after) ∧ Aggregated toolReading after order

def HelperAggregates (order : List Report) : Prop := ∃ after,
  Helper.mergeReports helperSquares (Helper.freshRuntime false false) order = .ok (true,after) ∧ Helper.Aggregated after order

/-- The same tuple twice in the tool, and two tuples in the helper -/
theorem merge_order_independent_pair :
    (ToolAggregates [singleCallReport "ls_12_0_1.aprof".toList,singleCallReport "ls_13_0_1.aprof".toList,
        doubleCallReport "ls_14_0_1.aprof".toList] ∧
      ToolAggregates [doubleCallReport "ls_14_0_1.aprof".toList,singleCallReport "ls_13_0_1.aprof".toList,
        singleCallReport "ls_12_0_1.aprof".toList]) ∧
    HelperAggregates [singleCallReport "ls_12_0_1.aprof".toList,doubleCallReport "ls_14_0_1.aprof".toList] ∧
    HelperAggregates [doubleCallReport "ls_14_0_1.aprof".toList,singleCallReport "ls_12_0_1.aprof".toList] := by
  have tool (order : List Report)
      (accepted : (mergeReports toolSquares {freshProfile with binaryMtime := 7} order).toOption.map Prod.fst = some true)
      (declared : Declared (ledgerOf toolReading .rms order).points) : ToolAggregates order := by
    obtain ⟨after,merged⟩ := merged_of_accepted accepted
    exact ⟨after,merged,((merge_order_independent toolSquares order).1 _ after rfl rfl merged).mpr declared⟩
  have helper (order : List Report)
      (accepted : (Helper.mergeReports helperSquares (Helper.freshRuntime false false) order).toOption.map Prod.fst = some true)
      (apart : Unrepeated (order.flatMap (Report.points Helper.reading)))
      (declared : Declared (ledgerOf Helper.reading .invalid order).points) : HelperAggregates order := by
    obtain ⟨after,merged⟩ := merged_of_accepted accepted
    exact ⟨after,merged,((merge_order_independent helperSquares order).2 false false after merged).mpr ⟨apart,declared⟩⟩
  have three {a b c : InputMetric × Point} (first : a.2.line.NothingInduced) (second : b.2.line.NothingInduced)
      (third : c.2.line.NothingInduced) : Declared [a,b,c] :=
    List.forall_mem_cons.mpr ⟨fun _ => first,List.forall_mem_cons.mpr ⟨fun _ => second,List.forall_mem_singleton.mpr fun _ => third⟩⟩
  have two {a b : InputMetric × Point} (first : a.2.line.NothingInduced) (second : b.2.line.NothingInduced) : Declared [a,b] :=
    List.forall_mem_cons.mpr ⟨fun _ => first,List.forall_mem_singleton.mpr fun _ => second⟩
  have sizes {a b : Point} (different : a.line.inputSize ≠ b.line.inputSize) : Unrepeated [a,b] :=
    List.pairwise_pair.mpr fun _ same => absurd same different
  refine ⟨⟨tool _ ?_ ?_,tool _ ?_ ?_⟩,helper _ ?_ (sizes ?_) ?_,helper _ ?_ (sizes ?_) ?_⟩
  · decide +kernel
  · exact three ⟨rfl,rfl,rfl,rfl⟩ ⟨rfl,rfl,rfl,rfl⟩ ⟨rfl,rfl,rfl,rfl⟩
  · decide +kernel
  · exact three ⟨rfl,rfl,rfl,rfl⟩ ⟨rfl,rfl,rfl,rfl⟩ ⟨rfl,rfl,rfl,rfl⟩
  · decide +kernel
  · decide +kernel
  · exact two ⟨rfl,rfl,rfl,rfl⟩ ⟨rfl,rfl,rfl,rfl⟩
  · decide +kernel
  · decide +kernel
  · exact two ⟨rfl,rfl,rfl,rfl⟩ ⟨rfl,rfl,rfl,rfl⟩

/-- Two runs of one call each are counted as three calls. -/
theorem calls_counted_again : ∃ after,
    Helper.mergeReports helperSquares (Helper.freshRuntime false false)
      [singleCallReport "ls_12_0_1.aprof".toList,singleCallReport "ls_13_0_1.aprof".toList] = .ok (true,after) ∧
      ¬Helper.Aggregated after ([singleCallReport "ls_12_0_1.aprof".toList,singleCallReport "ls_13_0_1.aprof".toList] : List Report) := by
  refine ⟨_,rfl,fun aggregated => ?_⟩
  have calls := aggregated.totalCalls "f".toList _ rfl
  revert calls
  decide

end Aprof
