import Aprof.BothBuilds
import Aprof.MergedProfiles
import Aprof.ThreadGroups

/-! `aprof-helper -t` on reports of one program, as the tool prints them. -/
namespace Aprof.Helper

theorem strtoll_decimal {n : Nat} (small : n < 2 ^ 63) : strtoll (decimal n) = (UInt64.ofNat n,false) := by
  obtain ⟨digit,digits,shape⟩ := decimal_cons n
  have first : digit.isDigit = true := decimal_digits digit (by rw [shape]; exact List.mem_cons_self)
  obtain ⟨space,plus⟩ := digit_not_space first
  have unspaced : (decimal n).dropWhile isSpace = decimal n := by
    rw [shape,List.dropWhile_cons_of_neg (by rw [space]; exact Bool.false_ne_true)]
  have minus : ¬(decimal n).head? = some '-' := by
    rw [shape,List.head?_cons]
    rintro ⟨⟩
    exact absurd first (by decide)
  have unsigned : ¬((decimal n).head? = some '+' ∨ (decimal n).head? = some '-') := by
    refine not_or.mpr ⟨?_,minus⟩
    rw [shape,List.head?_cons]
    exact fun same => plus (Option.some.inj same)
  have taken : (decimal n).takeWhile Char.isDigit = decimal n := List.takeWhile_eq_self_iff.mpr decimal_digits
  have value : (decimal n).foldl (fun n digit => 10 * n + (digit.toNat - '0'.toNat)) 0 = n := Nat.ofDigitChars_ten_toDigits
  unfold strtoll
  dsimp only
  rw [unspaced,if_neg unsigned,taken,value,if_neg minus,if_pos small]

theorem plainNumber_decimal {n : Nat} (small : n < 2 ^ 63) : PlainNumber (decimal n) := by
  unfold PlainNumber
  rw [strtoull10_number,strtoll_decimal small]
  exact ⟨rfl,rfl⟩

/-- The numbers of a tuple that are read with `strtoll`: all but the sums of squares -/
def readNumbers (tuple : Input UInt64) : List UInt64 :=
  [tuple.inputSize,tuple.minCumulativeCost,tuple.maxCumulativeCost,tuple.sumCumulativeCost,tuple.calls,tuple.sumCumulRealCost,
    tuple.sumSelfCost,tuple.minSelfCost,tuple.maxSelfCost,tuple.sumCumulSyscall,tuple.sumCumulThread,tuple.sumSelfSyscall,
    tuple.sumSelfThread]

/-- A profile whose numbers `strtoll` can hold -/
structure Small (cfg : Config) (profile : StoredProfile) : Prop where
  cost : profile.cost.toNat < 2 ^ 63
  mtime : profile.r.binaryMtime.toNat < 2 ^ 63
  tuples : ∀ routine ∈ profile.routines cfg, ∀ tuple ∈ routine.tuples, ∀ n ∈ readNumbers tuple, n.toNat < 2 ^ 63

theorem readsAlike_tuple {cfg : Config} {routine : PrintedRoutine} {tuple : Input UInt64}
    (small : ∀ n ∈ readNumbers tuple, n.toNat < 2 ^ 63) :
    ReadsAlike (routine.tupleItem cfg tuple) := by
  simp only [readNumbers,List.forall_mem_cons] at small
  obtain ⟨size,min,max,sum,calls,real,self,selfMin,selfMax,cumulSyscall,cumulThread,selfSyscall,selfThread,-⟩ := small
  have id : PlainNumber (decimal routine.routineId.toNat) :=
    plainNumber_decimal (Nat.lt_of_lt_of_le (UInt32.toNat_lt _) (by decide))
  have plain {n : UInt64} (small : n.toNat < 2 ^ 63) : true = true → PlainNumber (decimal n.toNat) := fun _ => plainNumber_decimal small
  have skip (token : Str) : false = true → PlainNumber token := by rintro ⟨⟩
  unfold PrintedRoutine.tupleItem PrintedRoutine.tupleNumbers
  split
  · exact ⟨fun _ => id,plain size,plain min,plain max,plain sum,skip _,plain calls,plain real,plain self,plain selfMin,plain selfMax,
      skip _,skip _,skip _,plain cumulSyscall,plain cumulThread,plain selfSyscall,plain selfThread,trivial⟩
  · exact ⟨fun _ => id,plain size,plain min,plain max,plain sum,skip _,plain calls,plain real,plain self,plain selfMin,plain selfMax,
      skip _,trivial⟩

theorem readsAlike_items {cfg : Config} {profile : StoredProfile} (small : Small cfg profile) :
    ∀ item ∈ reportItems cfg profile.r profile.rtnHt profile.cost, ReadsAlike item := by
  intro item inside
  rcases List.mem_append.mp inside with header | routines
  · have resolution : cfg.memoryResolution < 2 ^ 63 := by
      have supported := cfg.supported
      simp only [List.mem_cons,List.not_mem_nil,or_false] at supported
      omega
    simp only [headerItems,List.mem_cons,List.not_mem_nil,or_false] at header
    rcases header with rfl | rfl | rfl | rfl | rfl | rfl | rfl | rfl | rfl | rfl | rfl
    case inr.inr.inr.inl => exact ⟨fun _ => plainNumber_decimal (by decide : 6 < 2 ^ 63),trivial⟩
    case inr.inr.inr.inr.inl => exact ⟨fun _ => plainNumber_decimal small.cost,trivial⟩
    case inr.inr.inr.inr.inr.inl => exact ⟨fun _ => plainNumber_decimal small.mtime,trivial⟩
    case inr.inr.inr.inr.inr.inr.inr.inr.inl => exact ⟨fun _ => plainNumber_decimal resolution,trivial⟩
    all_goals trivial
  · obtain ⟨routine,printed,own⟩ := List.mem_flatMap.mp routines
    have id : routine.routineId.toNat < 2 ^ 63 := Nat.lt_of_lt_of_le (UInt32.toNat_lt _) (by decide)
    have name (name : Str) : false = true → PlainNumber name := by rintro ⟨⟩
    rcases List.mem_cons.mp own with rfl | own
    · exact ⟨name _,name _,fun _ => plainNumber_decimal id,trivial⟩
    · rcases List.mem_append.mp own with mangled | tuples
      · obtain ⟨mangled,-,rfl⟩ := List.mem_map.mp mangled
        exact trivial
      · obtain ⟨tuple,member,rfl⟩ := List.mem_map.mp tuples
        exact readsAlike_tuple (small.tuples routine printed tuple member)

theorem reads_items {lines : List Str} {items : List (Char × List Str)} (reads : List.Forall₂ Reads lines items) :
    (lines.filterMap fun line => readLine (cString line)) = items := by
  induction reads with
  | nil => rfl
  | cons read reads ih =>
    rw [List.filterMap_cons,cString_whole read.oneLine.2,read.read,ih]

theorem readsAlike_report {cfg : Config} (plain : cfg.collectCCT = false) {profile : StoredProfile}
    (restorable : Restorable cfg profile.r profile.rtnHt)
    (fits : Fits profile.path (Aprof.reportLines cfg profile.r profile.rtnHt profile.cost profile.root)) (small : Small cfg profile) :
    ∀ item ∈ (profile.report cfg).file.lines, ReadsAlike item := by
  have reads := reads_report plain restorable profile.cost profile.root
  have single : ∀ line ∈ Aprof.reportLines cfg profile.r profile.rtnHt profile.cost profile.root, '\n' ∉ line :=
    fun line member => (reads_oneLine reads line member).1
  have lines : (profile.report cfg).file.lines = reportItems cfg profile.r profile.rtnHt profile.cost := by
    unfold StoredProfile.report File.lines
    dsimp only
    rw [printReport_lines fits.printed single,List.filterMap_append,reads_items reads]
    exact List.append_nil _
  rw [lines]
  exact readsAlike_items small

/-- Nothing but a total of the helper's own can stop it. -/
def OrOverflow {S : Type} (P : S → Prop) (x : Result S) : Prop := x = .error (.assertion "overflow") ∨ ∃ s, x = .ok s ∧ P s

theorem OrOverflow.bind {S A : Type} {P : S → Prop} {Q : A → Prop} {x : Result S} {next : S → Result A} (first : OrOverflow P x)
    (then' : ∀ s, P s → OrOverflow Q (next s)) : OrOverflow Q (x >>= next) := by
  rcases first with rfl | ⟨s,rfl,holds⟩
  · exact .inl rfl
  · exact then' s holds

section
variable {D : Type} {squares : Squares D} {squareText : D → Str} {system : System} {cfg : Config}
  {program : ReportRuntime}

/-- A report of this program, as the tool writes it -/
structure Printed (cfg : Config) (program : ReportRuntime) (profile : StoredProfile) : Prop where
  mergeable : profile.Mergeable cfg program
  sound : ∀ routine ∈ profile.routines cfg, ∀ tuple ∈ routine.tuples, SoundlyPrinted cfg tuple
  small : Small cfg profile
  named : NamedAlike profile.path
  short : profile.path.length < 480

theorem Printed.alike (plain : cfg.collectCCT = false) {profile : StoredProfile} (printed : Printed cfg program profile) :
    ReadAlike (profile.report cfg) :=
  ⟨printed.named,readsAlike_report plain printed.mergeable.restorable printed.mergeable.fits printed.small⟩

structure Ready (program : ReportRuntime) (state : Grouping D) : Prop where
  plain : Plain state.r.fields
  mtime : state.r.profile.binaryMtime = 0 ∨ state.r.profile.binaryMtime = program.binaryMtime

theorem holdsPrinted_tool {rt : Profile D} {routines : List PrintedRoutine} (holds : HoldsPrinted squares cfg (toolProfile rt) routines) :
    HoldsPrinted squares cfg rt routines := by
  have tuples (name : Str) (size : UInt64) : tupleOf (toolProfile rt) name size = tupleOf rt name size := by
    unfold tupleOf entry
    rw [findFunction_tool]
    cases findFunction rt name <;> rfl
  have objects (name : Str) : objectOf (toolProfile rt) name = objectOf rt name := by
    unfold objectOf
    rw [findFunction_tool]
    cases findFunction rt name <;> rfl
  obtain ⟨held,nothing,functions⟩ := holds
  simp only [tuples,objects] at held nothing functions
  exact ⟨held,nothing,functions⟩

/-- A runtime that holds the reports of a group; `cost` is that of the reports before them. -/
structure HoldsGroup (squares : Squares D) (cfg : Config) (program : ReportRuntime) (cost : Nat) (group : List StoredProfile)
    (rt : Profile D) : Prop extends HoldsPrinted squares cfg rt (allRoutines cfg group) where
  cost : rt.extraCost.toNat = cost + allCosts cfg group
  application : rt.application = some (joinWords (lineTokens program.application))
  mtime : rt.binaryMtime = program.binaryMtime
  metric : rt.inputMetric = cfg.inputMetric
  resolution : rt.memoryResolution = UInt32.ofNat cfg.memoryResolution

/-- The helper has merged these reports since `reset_data`; `cost` is that of the reports before them. -/
structure Collected (squares : Squares D) (cfg : Config) (program : ReportRuntime) (cost : Nat) (group : List StoredProfile)
    (r : HelperRuntime D) : Prop where
  plain : Plain r.fields
  awaits : Awaits cfg program (toolProfile r.profile)
  loaded : Loaded squares cfg (toolProfile r.profile) (allRoutines cfg group) ((allRoutines cfg group).flatMap (PrintedRoutine.points cfg))
  cost : r.profile.extraCost.toNat = cost + allCosts cfg group
  header : group ≠ [] → r.profile.header = (r.profile.withHeader cfg program).header

variable {cost : Nat} {group : List StoredProfile} {r : HelperRuntime D}

theorem Collected.start {state : Grouping D} (ready : Ready program state) :
    Collected squares cfg program state.r.profile.extraCost.toNat [] (resetRuntime state.r) :=
  ⟨⟨ready.plain.inRange,ready.plain.compares⟩,⟨.inl rfl,.inl rfl,ready.mtime,.inl rfl⟩,.empty rfl,rfl,fun some => absurd rfl some⟩

theorem Collected.report (plain : cfg.collectCCT = false) (collected : Collected squares cfg program cost group r) {profile : StoredProfile}
    (printed : Printed cfg program profile)
    (folds : Folds squares cfg.inputMetric ((allRoutines cfg (group ++ [profile])).flatMap (PrintedRoutine.points cfg)))
    (costs : cost + allCosts cfg (group ++ [profile]) < 2 ^ 64) :
    OrOverflow (fun outcome => outcome.1 = true ∧ Collected squares cfg program cost (group ++ [profile]) outcome.2)
      (mergeReport squares (profile.report cfg).name (profile.report cfg).file r) := by
  have routines : allRoutines cfg (group ++ [profile]) = allRoutines cfg group ++ profile.routines cfg := by
    simp [allRoutines]
  have total : allCosts cfg (group ++ [profile]) = allCosts cfg group + printedCost (profile.routines cfg) profile.cost := by
    simp [allCosts]
  obtain ⟨fields,awaits,loaded,known,-⟩ := collected
  rw [routines,List.flatMap_append] at folds
  rw [total,← Nat.add_assoc,← known] at costs
  obtain ⟨tool,merged,awaits,loaded,paid,header⟩ := mergeReport_printed plain printed.mergeable awaits loaded costs folds
  have agrees := @mergeReport_alike D squares (profile.report cfg) r fields (printed.alike plain)
  have merged : Aprof.mergeReport squares (profile.report cfg).name (profile.report cfg).file (toolProfile r.profile) = .ok (true,tool) :=
    merged
  rw [merged] at agrees
  generalize mergeReport squares (profile.report cfg).name (profile.report cfg).file r = outcome at agrees
  cases agrees with
  | overflow => exact .inl rfl
  | @returns outcome _ same =>
    obtain ⟨accepted,next⟩ := outcome
    obtain ⟨accepts,own,fields⟩ := same
    obtain rfl : accepted = true := accepts
    obtain rfl : toolProfile next.profile = tool := own
    refine .inr ⟨_,rfl,rfl,fields,awaits,?_,?_,fun _ => ?_⟩
    · rw [routines,List.flatMap_append]
      exact loaded
    · rw [total,← Nat.add_assoc,← known]
      exact paid
    · rw [Profile.withHeader,printed.mergeable.application,printed.mergeable.mtime] at header
      exact header

theorem Collected.holds (collected : Collected squares cfg program cost group r) (nonempty : group ≠ []) :
    HoldsGroup squares cfg program cost group r.profile := by
  obtain ⟨-,-,loaded,cost,header⟩ := collected
  have header := header nonempty
  refine ⟨holdsPrinted_tool loaded.holds,cost,?_,?_,?_,?_⟩
  · exact congrArg (fun header => header.2.2.1) header
  · exact congrArg (fun header => header.2.2.2) header
  · exact congrArg (fun header => header.1) header
  · exact congrArg (fun header => header.2.1) header

theorem Collected.ready {state : Grouping D} (collected : Collected squares cfg program cost group state.r) : Ready program state :=
  ⟨collected.plain,collected.awaits.mtime⟩

/-- What becomes of the reports of one process: a single one is copied, and more of them are
printed from a runtime that holds them. -/
inductive PidReport (squares : Squares D) (squareText : D → Str) (cfg : Config) (program : ReportRuntime) :
    Nat → List StoredProfile → Report → Nat → Prop
  | copied {cost : Nat} {profile : StoredProfile} {name : Str} : newRep dirMergeThread profile.path = .ok name →
      PidReport squares squareText cfg program cost [profile] ⟨name,(profile.report cfg).file⟩ cost
  | merged {cost : Nat} {leader member : StoredProfile} {members : List StoredProfile} {name : Str} {rt : Profile D} :
      newRep dirMergeThread leader.path = .ok name → HoldsGroup squares cfg program cost (leader :: member :: members) rt →
      PidReport squares squareText cfg program cost (leader :: member :: members) ⟨name,.whole (printReport squareText rt)⟩
        rt.extraCost.toNat

theorem PidReport.adds {cost next : Nat} {group : List StoredProfile} {report : Report}
    (made : PidReport squares squareText cfg program cost group report next) : next ≤ cost + allCosts cfg group := by
  cases made with
  | copied named => exact Nat.le_add_right _ _
  | merged named holds => exact le_of_eq holds.cost

end

end Aprof.Helper
