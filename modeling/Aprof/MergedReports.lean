import Aprof.LineEffects

/-! Reports merged one after the other into a fresh runtime. A ledger notes what each
line hands over; the runtime agrees with it after every line, so at the end its tuples
and its cost are those of the multiset of reports. In the helper `total_calls` grows by
the calls of a tuple and not by those of the line, so it only is a sum while no tuple
is hit twice. -/
namespace Aprof

/-- The lines noted so far, each `p` with the metric of the runtime, and the costs of
the reports that had a routine. -/
structure Ledger where
  curr : Option Str
  cost : UInt64
  metric : InputMetric
  points : List (InputMetric × Point)
  costs : List UInt64

section
variable (reading : Reading)

def Ledger.note (ledger : Ledger) (line : Char × List Str) : Ledger where
  curr := currAfter ledger.curr line.1 line.2
  cost := if line.1 = 'k' then reading.number (line.2.headD []) else ledger.cost
  metric := metricAfter ledger.metric line
  points := ledger.points ++ ((pointAt reading ledger.curr line.1 line.2).map fun point => (ledger.metric,point)).toList
  costs := if line.1 = 'r' ∧ ledger.curr = none then ledger.costs ++ [ledger.cost] else ledger.costs

def Ledger.start (ledger : Ledger) : Ledger := {ledger with curr := none, cost := 0}

def Ledger.report (ledger : Ledger) (report : Report) : Ledger :=
  report.file.lines.foldl (Ledger.note reading) ledger.start

/-- The ledger of reports that are merged in this order into a runtime for `metric`. -/
def ledgerOf (metric : InputMetric) (order : List Report) : Ledger :=
  order.foldl (Ledger.report reading) ⟨none,0,metric,[],[]⟩

end

def linesOf (points : List (InputMetric × Point)) (name : Str) : List (InputMetric × TupleLine) :=
  (points.filter fun point => point.2.name = name).map fun point => (point.1,point.2.line)

/-- The values that a line `p` of a report for DRMS has are all zero. -/
def TupleLine.NothingInduced (line : TupleLine) : Prop :=
  line.sumCumulSyscall = 0 ∧ line.sumCumulThread = 0 ∧ line.sumSelfSyscall = 0 ∧ line.sumSelfThread = 0

/-- Induced inputs are only given below a line `i drms`. -/
def Declared (points : List (InputMetric × Point)) : Prop :=
  ∀ point ∈ points, point.1 ≠ .drms → point.2.line.NothingInduced

/-- A line with calls is the last one for its function and input size. -/
def Unrepeated (points : List Point) : Prop :=
  points.Pairwise fun earlier later => earlier.name = later.name →
    earlier.line.inputSize = later.line.inputSize → earlier.line.occ = 0

section
variable {reading : Reading}

theorem note_points (lines : List (Char × List Str)) (ledger : Ledger) :
    (lines.foldl (Ledger.note reading) ledger).points.map Prod.snd =
      ledger.points.map Prod.snd ++ pointsOf reading ledger.curr lines := by
  induction lines generalizing ledger with
  | nil => simp [pointsOf]
  | cons line lines ih =>
    obtain ⟨tag,args⟩ := line
    rw [List.foldl_cons,ih,pointsOf]
    cases found : pointAt reading ledger.curr tag args <;> simp [Ledger.note,found]

theorem note_costs (lines : List (Char × List Str)) (ledger : Ledger) :
    (lines.foldl (Ledger.note reading) ledger).costs =
      ledger.costs ++ if ledger.curr = none then (costCounted reading ledger.cost lines).toList else [] := by
  induction lines generalizing ledger with
  | nil => simp [costCounted]
  | cons line lines ih =>
    obtain ⟨tag,args⟩ := line
    rw [List.foldl_cons,ih,costCounted]
    by_cases routine : tag = 'r'
    · by_cases first : ledger.curr = none
      · simp [Ledger.note,currAfter,routine,first]
      · simp [Ledger.note,currAfter,routine,first]
    · simp [Ledger.note,currAfter,routine]

theorem ledgerOf_append (metric : InputMetric) (order : List Report) (report : Report) :
    ledgerOf reading metric (order ++ [report]) = (ledgerOf reading metric order).report reading report := by
  unfold ledgerOf
  rw [List.foldl_append]
  rfl

theorem ledgerOf_points (metric : InputMetric) (order : List Report) :
    (ledgerOf reading metric order).points.map Prod.snd = order.flatMap (Report.points reading) := by
  induction order using List.reverseRecOn with
  | nil => rfl
  | append_singleton order report ih =>
    rw [ledgerOf_append metric,List.flatMap_append,← ih]
    refine (note_points _ _).trans ?_
    simp [Ledger.start,Report.points]

theorem ledgerOf_costs (metric : InputMetric) (order : List Report) :
    (ledgerOf reading metric order).costs = order.filterMap (Report.cost reading) := by
  induction order using List.reverseRecOn with
  | nil => rfl
  | append_singleton order report ih =>
    rw [ledgerOf_append,List.filterMap_append,← ih]
    refine (note_costs _ _).trans ?_
    cases cost : report.cost reading with
    | none =>
      unfold Report.cost at cost
      simp [Ledger.start,cost,Report.cost]
    | some value =>
      unfold Report.cost at cost
      simp [Ledger.start,cost,Report.cost]

theorem linesOf_add (points : List (InputMetric × Point)) (metric : InputMetric) (point : Point) (name : Str) :
    linesOf (points ++ [(metric,point)]) name =
      if name = point.name then linesOf points name ++ [(metric,point.line)] else linesOf points name := by
  unfold linesOf
  rw [List.filter_append,List.filter_singleton,List.map_append]
  by_cases same : name = point.name
  · rw [if_pos same,decide_eq_true same.symm]
    rfl
  · rw [if_neg same,decide_eq_false fun other => same other.symm]
    exact List.append_nil _

theorem linesFor_ledger (metric : InputMetric) (order : List Report) (name : Str) (size : UInt64) :
    linesFor reading order name size =
      ((sized (linesOf (ledgerOf reading metric order).points name) size).map Prod.snd : List TupleLine) := by
  have all : allPoints reading order = ((ledgerOf reading metric order).points.map Prod.snd : List Point) := by
    rw [ledgerOf_points metric]
    exact Multiset.coe_bind _ _
  unfold linesFor
  rw [all,Multiset.filter_coe,Multiset.map_coe]
  unfold sized linesOf
  congr 1
  induction (ledgerOf reading metric order).points with
  | nil => rfl
  | cons point points ih =>
    by_cases own : point.2.name = name
    · by_cases same : point.2.line.inputSize = size
      · simpa [own,same] using ih
      · simpa [own,same] using ih
    · simpa [own] using ih

end

section
variable {D : Type} {reading : Reading}

structure Agrees (rt : Profile D) (ledger : Ledger) : Prop where
  metric : rt.inputMetric = ledger.metric
  extraCost : rt.extraCost.toNat = (ledger.costs.map UInt64.toNat).sum
  named : rt.Named
  collects : ∀ name, Collects (entry rt name).1 (linesOf ledger.points name)

/-- The variables of `merge_report` inside of a report. -/
structure Noted (state : Merging D) (ledger : Ledger) : Prop where
  rt : Agrees state.rt ledger
  curr : state.curr = ledger.curr
  cost : state.totalCost = ledger.cost

theorem Agrees.start {rt : Profile D} {ledger : Ledger} (agrees : Agrees rt ledger) : Noted (startMerging rt) ledger.start :=
  ⟨⟨agrees.metric,agrees.extraCost,agrees.named,agrees.collects⟩,rfl,rfl⟩

theorem Noted.step {squares : Squares D} {state after : Merging D} {ledger : Ledger} {line : Char × List Str}
    (noted : Noted state ledger) (applied : Applied reading squares state line after) :
    Noted after (ledger.note reading line) := by
  obtain ⟨agrees,curr,cost⟩ := noted
  refine ⟨?_,?_,?_⟩
  · obtain ⟨named,collects⟩ : after.rt.Named ∧
        ∀ name, Collects (entry after.rt name).1 (linesOf (ledger.note reading line).points name) := by
      unfold Ledger.note
      dsimp only
      rw [← curr]
      cases found : pointAt reading state.curr line.1 line.2 with
      | none =>
        obtain ⟨named,same⟩ := applied.keeps found agrees.named
        refine ⟨named,fun name => ?_⟩
        rw [same,Option.map_none,Option.toList_none,List.append_nil]
        exact agrees.collects name
      | some point =>
        obtain ⟨named,inputMap,merged,entries⟩ := applied.merges point found agrees.named
        refine ⟨named,fun name => ?_⟩
        rw [entries,Option.map_some,Option.toList_some,linesOf_add]
        split
        · next own =>
          rw [← agrees.metric,own]
          exact (agrees.collects point.name).merge merged
        · exact agrees.collects name
    refine ⟨?_,?_,named,collects⟩
    · rw [applied.metric,agrees.metric]
      rfl
    · rw [applied.extraCost,agrees.extraCost]
      unfold Ledger.note
      dsimp only
      rw [← curr,← cost]
      split <;> simp
  · rw [applied.curr,curr]
    rfl
  · rw [applied.totalCost,cost]
    rfl

theorem Summed.aggregate_iff {tuple : Input D} {lines : List (InputMetric × TupleLine)} (summed : Summed tuple lines)
    (nonempty : lines ≠ []) : Aggregate tuple (lines.map Prod.snd : List TupleLine) ↔
      ∀ line ∈ lines, line.1 ≠ .drms → line.2.NothingInduced := by
  have totals : ∀ field : TupleLine → UInt64, total field (lines.map Prod.snd : List TupleLine) =
      (lines.map fun line => (field line.2).toNat).sum := by
    intro field
    unfold total
    rw [Multiset.map_coe,Multiset.sum_coe,List.map_map]
    rfl
  have values : ∀ field : TupleLine → UInt64, {cost | cost ∈ Multiset.map (fun line => (field line).toNat)
      (lines.map Prod.snd : List TupleLine)} = {cost | cost ∈ lines.map fun line => (field line.2).toNat} := by
    intro field
    rw [Multiset.map_coe,List.map_map]
    rfl
  have counted : ∀ field : TupleLine → UInt64,
      (lines.map fun line => if line.1 = .drms then (field line.2).toNat else 0).sum =
        total field (lines.map Prod.snd : List TupleLine) ↔ ∀ line ∈ lines, line.1 ≠ .drms → field line.2 = 0 := by
    intro field
    rw [totals,sum_counted_iff]
    refine forall₂_congr fun line _ => imp_congr_right fun _ => ?_
    rw [← UInt64.toNat_inj]
    rfl
  constructor
  · intro aggregate line member other
    exact ⟨(counted _).mp (summed.cumulSyscall.symm.trans aggregate.cumulSyscall) line member other,
      (counted _).mp (summed.cumulThread.symm.trans aggregate.cumulThread) line member other,
      (counted _).mp (summed.selfSyscall.symm.trans aggregate.selfSyscall) line member other,
      (counted _).mp (summed.selfThread.symm.trans aggregate.selfThread) line member other⟩
  · intro nothing
    have bounded : ∀ field : TupleLine → UInt64, ∀ cost ∈ lines.map (fun line => (field line.2).toNat), cost ≤ 2^64 - 1 := by
      intro field cost member
      obtain ⟨line,-,rfl⟩ := List.mem_map.mp member
      have below := (field line.2).toNat_lt
      omega
    have filled : ∀ field : TupleLine → UInt64, lines.map (fun line => (field line.2).toNat) ≠ [] :=
      fun field same => nonempty (List.map_eq_nil_iff.mp same)
    exact {
      calls := summed.calls.trans (totals _).symm
      sumCumulative := summed.sumCumulative.trans (totals _).symm
      sumCumulReal := summed.sumCumulReal.trans (totals _).symm
      sumSelf := summed.sumSelf.trans (totals _).symm
      cumulSyscall := summed.cumulSyscall.trans ((counted _).mpr fun line member other => (nothing line member other).1)
      cumulThread := summed.cumulThread.trans ((counted _).mpr fun line member other => (nothing line member other).2.1)
      selfSyscall := summed.selfSyscall.trans ((counted _).mpr fun line member other => (nothing line member other).2.2.1)
      selfThread := summed.selfThread.trans ((counted _).mpr fun line member other => (nothing line member other).2.2.2)
      min := (values _).symm ▸ summed.min.isLeast (bounded _) (filled _)
      max := (values _).symm ▸ summed.max.isGreatest (fun _ _ => Nat.zero_le _) (filled _)
      selfMin := (values _).symm ▸ summed.selfMin.isLeast (bounded _) (filled _)
      selfMax := (values _).symm ▸ summed.selfMax.isGreatest (fun _ _ => Nat.zero_le _) (filled _)}

theorem mem_sized {points : List (InputMetric × Point)} {name : Str} {size : UInt64} {line : InputMetric × TupleLine} :
    line ∈ sized (linesOf points name) size ↔
      ∃ point ∈ points, point.2.name = name ∧ point.2.line.inputSize = size ∧ line = (point.1,point.2.line) := by
  unfold sized linesOf
  simp only [List.mem_filter,List.mem_map,decide_eq_true_eq]
  constructor
  · rintro ⟨⟨point,⟨member,own⟩,rfl⟩,same⟩
    exact ⟨point,member,own,same,rfl⟩
  · rintro ⟨point,member,own,same,rfl⟩
    exact ⟨⟨point,⟨member,own⟩,rfl⟩,same⟩

theorem Agrees.aggregated_iff {rt : Profile D} {metric : InputMetric} {order : List Report}
    (agrees : Agrees rt (ledgerOf reading metric order)) :
    Aggregated reading rt order ↔ Declared (ledgerOf reading metric order).points := by
  constructor
  · intro aggregated point member other
    have inside : (point.1,point.2.line) ∈ sized (linesOf (ledgerOf reading metric order).points point.2.name)
        point.2.line.inputSize := mem_sized.mpr ⟨point,member,rfl,rfl,rfl⟩
    have some := aggregated.tuples point.2.name point.2.line.inputSize
    rw [linesFor_ledger metric] at some
    obtain ⟨tuple,found,aggregate⟩ := some (by
      rw [Ne,Multiset.coe_eq_zero,List.map_eq_nil_iff]
      exact List.ne_nil_of_mem inside)
    have summed := (agrees.collects point.2.name).found _ tuple found
    exact (summed.aggregate_iff (List.ne_nil_of_mem inside)).mp aggregate _ inside other
  · intro declared
    constructor
    · intro name size nonempty
      rw [linesFor_ledger metric] at nonempty ⊢
      rw [Ne,Multiset.coe_eq_zero,List.map_eq_nil_iff] at nonempty
      cases found : tupleOf rt name size with
      | none => exact absurd ((agrees.collects name).missing size found) nonempty
      | some tuple =>
        refine ⟨tuple,rfl,(((agrees.collects name).found size tuple found).aggregate_iff nonempty).mpr ?_⟩
        intro line member other
        obtain ⟨point,present,-,-,rfl⟩ := mem_sized.mp member
        exact declared point present other
    · rw [agrees.extraCost,ledgerOf_costs metric,Multiset.filterMap_coe,Multiset.map_coe,Multiset.sum_coe]

end

section
variable {D : Type} {squares : Squares D}

/-- The reports of a directory that are merged into the tool's runtime. -/
def mergeReports (squares : Squares D) : Profile D → List Report → Result (Bool × Profile D)
  | rt, [] => .ok (true,rt)
  | rt, report :: reports => do
    let (merged,rt) ← mergeReport squares report.name report.file rt
    if merged then mergeReports squares rt reports else .ok (false,rt)

theorem mergeLines_noted {report : Str} (lines : List Str) : ∀ {state after : Merging D} {ledger : Ledger},
    Noted state ledger → mergeLines squares report state lines = .ok (true,after) →
    Noted after ((lines.filterMap fun line => readLine (cString line)).foldl (Ledger.note toolReading) ledger) := by
  induction lines with
  | nil =>
    intro state after ledger noted ok
    cases ok
    exact noted
  | cons line lines ih =>
    intro state after ledger noted ok
    obtain ⟨-,-,ok⟩ := bind_ok.mp ok
    obtain ⟨⟨invalid,middle⟩,applied,ok⟩ := bind_ok.mp ok
    cases invalid with
    | true => cases ok
    | false =>
      rw [List.filterMap_cons]
      rcases mergeTuple_ok applied with ⟨read,-,same⟩ | ⟨tag,args,read,applied⟩
      · rw [read]
        rw [same] at ok
        exact ih noted ok
      · rw [read]
        exact ih (noted.step (mergeLine_applied applied)) ok

theorem mergeReport_agrees {report : Report} {rt after : Profile D} {ledger : Ledger} (agrees : Agrees rt ledger)
    (ok : mergeReport squares report.name report.file rt = .ok (true,after)) :
    Agrees after (ledger.report toolReading report) := by
  obtain ⟨name,file⟩ := report
  unfold mergeReport at ok
  split at ok
  · cases ok
  · cases file with
    | unreadable => cases ok
    | broken content =>
      obtain ⟨_,-,ok⟩ := bind_ok.mp ok
      obtain ⟨-,-,ok⟩ := bind_ok.mp ok
      cases ok
    | whole content =>
      obtain ⟨⟨merged,state⟩,lines,ok⟩ := bind_ok.mp ok
      cases ok
      exact (mergeLines_noted _ agrees.start lines).rt

theorem mergeReports_agrees (order : List Report) : ∀ {rt after : Profile D} {ledger : Ledger}, Agrees rt ledger →
    mergeReports squares rt order = .ok (true,after) → Agrees after (order.foldl (Ledger.report toolReading) ledger) := by
  induction order with
  | nil =>
    intro rt after ledger agrees ok
    cases ok
    exact agrees
  | cons report reports ih =>
    intro rt after ledger agrees ok
    obtain ⟨⟨merged,middle⟩,first,ok⟩ := bind_ok.mp ok
    cases merged with
    | false => cases ok
    | true => exact ih (mergeReport_agrees agrees first) ok

theorem entry_empty {rt : Profile D} (empty : rt.fnHt = htConstruct) (name : Str) : entry rt name = (htConstruct,0) := by
  unfold entry findFunction
  rw [empty]
  cases found : htFind htConstruct (strHash name).toNat fun fn : Function D => fn.name == name with
  | none => rfl
  | some fn =>
    have member := (htFind_some found).1
    rw [htConstruct_nodes] at member
    cases member

theorem empty_agrees {rt : Profile D} (empty : rt.fnHt = htConstruct) (zero : rt.extraCost = 0) :
    Agrees rt ⟨none,0,rt.inputMetric,[],[]⟩ := by
  refine ⟨rfl,?_,?_,fun name => ?_⟩
  · rw [zero]
    rfl
  · unfold Profile.Named
    rw [empty]
    refine ⟨?_,fun fn member => ?_⟩
    · rw [htConstruct_nodes]
      exact List.nodup_nil
    · rw [htConstruct_nodes] at member
      cases member
  · rw [entry_empty empty]
    exact htConstruct_collects

/-- In the tool the tuples and the cost are those of the multiset of reports, in whatever
order they are merged into an empty runtime. -/
theorem loaded_aggregates_iff (squares : Squares D) (rt after : Profile D) (empty : rt.fnHt = htConstruct)
    (zero : rt.extraCost = 0) (order : List Report) (merged : mergeReports squares rt order = .ok (true,after)) :
    Aggregated toolReading after order ↔ Declared (ledgerOf toolReading rt.inputMetric order).points :=
  Agrees.aggregated_iff (mergeReports_agrees order (empty_agrees empty zero) merged)

end

end Aprof
