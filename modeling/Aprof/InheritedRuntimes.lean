import Aprof.HelperGroups
import Aprof.SoundTuples

/-! A runtime that has merged other reports before `reset_data` keeps their cost and the time
of their binary. It merges a group as a fresh one does, and only adds to that cost. -/
namespace Aprof.Helper
open Lockstep

section
variable {D : Type} {squares : Squares D} {state : HelperMerging D} {args : List Str} {cost mtime : UInt64}

def inherit (cost mtime : UInt64) (rt : Profile D) : Profile D :=
  {rt with extraCost := cost, binaryMtime := mtime}

def inheritState (cost mtime : UInt64) (state : HelperMerging D) : HelperMerging D :=
  {state with rt := inherit cost mtime state.rt}

/-- A line that reads neither: it does the same in both. -/
def inheritBoth (cost mtime : UInt64) (result : Bool × HelperMerging D) : Bool × HelperMerging D :=
  (result.1,inheritState cost mtime result.2)

theorem findFunction_inherit (rt : Profile D) (name : Str) : findFunction (inherit cost mtime rt) name = findFunction rt name := rfl

theorem mergeMangled_inherit : mergeMangled (inheritState cost mtime state) args =
    inheritBoth cost mtime <$> mergeMangled state args := by
  obtain ⟨⟨rt,curr,rid,totalCost⟩,fields⟩ := state
  unfold mergeMangled
  dsimp only [inheritState]
  cases curr with
  | none => rfl
  | some name =>
    dsimp only
    simp only [map_bind]
    refine bind_congr ?_
    rintro ⟨token,args⟩
    refine bind_congr fun _ => bind_congr fun id => bind_congr fun _ => bind_congr ?_
    rintro ⟨mangled,_⟩
    rw [findFunction_inherit]
    cases findFunction rt name with
    | none => rfl
    | some fn =>
      dsimp only
      cases fn.mangled with
      | none => rfl
      | some known =>
        dsimp only
        simp only [map_bind]
        rfl

theorem mergePoint_inherit : mergePoint squares (inheritState cost mtime state) args =
    inheritBoth cost mtime <$> mergePoint squares state args := by
  obtain ⟨⟨rt,curr,rid,totalCost⟩,fields⟩ := state
  unfold mergePoint
  simp only [map_bind]
  refine bind_congr ?_
  rintro ⟨id,args⟩
  refine bind_congr fun _ => bind_congr fun line => ?_
  dsimp only [inheritState]
  cases curr with
  | none => rfl
  | some name =>
    dsimp only
    rw [findFunction_inherit]
    cases findFunction rt name with
    | none => rfl
    | some fn =>
      dsimp only
      simp only [map_bind]
      refine bind_congr fun inputMap => ?_
      cases htFind inputMap line.inputSize.toNat fun _ => true with
      | none => rfl
      | some tuple =>
        dsimp only
        simp only [map_bind]
        rfl

theorem mergeApplication_inherit : mergeApplication (inheritState cost mtime state) args =
    inheritBoth cost mtime <$> mergeApplication state args := by
  obtain ⟨⟨⟨fnHt,objHt,extraCost,nextFunctionId,application,binaryMtime,inputMetric,resolution⟩,curr,rid,totalCost⟩,fields⟩ := state
  unfold mergeApplication
  simp only [map_bind]
  refine bind_congr fun _ => bind_congr fun _ => ?_
  dsimp only [inheritState,inherit]
  cases application with
  | none => rfl
  | some application =>
    dsimp only
    rw [apply_ite (inheritBoth cost mtime <$> ·)]
    rfl

theorem mergeTotal_inherit : mergeTotal (inheritState cost mtime state) args =
    inheritBoth cost mtime <$> mergeTotal state args := by
  unfold mergeTotal
  simp only [map_bind]
  rfl

theorem mergeVersion_inherit : mergeVersion (inheritState cost mtime state) args =
    inheritBoth cost mtime <$> mergeVersion state args := by
  unfold mergeVersion
  simp only [map_bind]
  refine bind_congr ?_
  rintro ⟨ver,_⟩
  dsimp only
  rw [apply_ite (inheritBoth cost mtime <$> ·)]
  rfl

theorem mergeMetric_inherit : mergeMetric (inheritState cost mtime state) args =
    inheritBoth cost mtime <$> mergeMetric state args := by
  unfold mergeMetric Aprof.mergeMetric
  simp only [map_bind,bind_assoc]
  refine bind_congr ?_
  rintro ⟨token,_⟩
  change (if state.rt.inputMetric = .rms ∨ state.rt.inputMetric = .drms then _ else _) >>= _ = _
  dsimp only
  split
  · change (if readMetric token ≠ state.rt.inputMetric then _ else _) >>= _ = _
    split <;> rfl
  · rfl

theorem mergeResolution_inherit : mergeResolution (inheritState cost mtime state) args =
    inheritBoth cost mtime <$> mergeResolution state args := by
  unfold mergeResolution
  simp only [map_bind]
  refine bind_congr ?_
  rintro ⟨token,_⟩
  refine bind_congr fun _ => ?_
  by_cases unset : state.rt.memoryResolution = 0
  · have both : (inheritState cost mtime state).rt.memoryResolution = 0 := unset
    simp only [if_pos unset,if_pos both]
    rw [apply_ite (inheritBoth cost mtime <$> ·)]
    rfl
  · have both : ¬(inheritState cost mtime state).rt.memoryResolution = 0 := unset
    simp only [if_neg unset,if_neg both]
    rw [apply_ite (inheritBoth cost mtime <$> ·)]
    rfl

theorem searchFunction_inherit (rt : Profile D) (name : Str) :
    searchFunction (inherit cost mtime rt) name = inherit cost mtime (searchFunction rt name) := by
  unfold searchFunction
  rw [findFunction_inherit]
  cases findFunction rt name <;> rfl

theorem searchObject_inherit (rt : Profile D) (name objName : Str) :
    searchObject (inherit cost mtime rt) name objName = inherit cost mtime (searchObject rt name objName) := by
  unfold searchObject
  rw [findFunction_inherit]
  cases findFunction rt name with
  | none => rfl
  | some fn =>
    dsimp only
    cases fn.obj with
    | some obj => rfl
    | none =>
      have objects : (inherit cost mtime rt).objHt = rt.objHt := rfl
      rw [objects]
      cases htFind rt.objHt (strHash objName).toNat fun obj => obj.name == objName <;> rfl

theorem inherit_kept {rt : Profile D} (same : rt = inherit cost mtime rt) : rt.extraCost = cost ∧ rt.binaryMtime = mtime :=
  ⟨congrArg Profile.extraCost same,congrArg Profile.binaryMtime same⟩

theorem search_inherit (rt : Profile D) (name objName : Str) :
    searchObject (searchFunction (inherit cost mtime rt) name) name objName =
      inherit cost mtime (searchObject (searchFunction rt name) name objName) := by
  rw [searchFunction_inherit,searchObject_inherit]

/-- A runtime beside one that has merged the group alone -/
structure Inherits (base : Nat) (rt alone : Profile D) : Prop where
  same : rt = inherit rt.extraCost rt.binaryMtime alone
  cost : rt.extraCost.toNat = base + alone.extraCost.toNat
  mtime : alone.binaryMtime = rt.binaryMtime ∨ alone.binaryMtime = 0

structure InheritsState (base : Nat) (state alone : HelperMerging D) : Prop extends Inherits base state.rt alone.rt where
  others : state = {alone with rt := state.rt}

variable {base : Nat} {after alone : HelperMerging D}

theorem InheritsState.keeps (run : HelperMerging D → Result (Bool × HelperMerging D))
    (reads : ∀ cost mtime (state : HelperMerging D), run (inheritState cost mtime state) = inheritBoth cost mtime <$> run state)
    (inherits : InheritsState base state alone) (merged : run state = .ok (false,after)) :
    ∃ next, run alone = .ok (false,next) ∧ InheritsState base after next := by
  have same : state = inheritState state.rt.extraCost state.rt.binaryMtime alone := by
    rw [inherits.others,inherits.same]
    rfl
  rw [same,reads] at merged
  obtain ⟨⟨invalid,next⟩,ran,merged⟩ := bind_ok.mp merged
  obtain ⟨rfl,rfl⟩ := Prod.mk.inj (Except.ok.inj merged)
  -- alone the line keeps the cost and the time, as it does not read them
  have kept : run alone = inheritBoth alone.rt.extraCost alone.rt.binaryMtime <$> run alone := reads _ _ alone
  rw [ran] at kept
  obtain ⟨cost,mtime⟩ := inherit_kept (congrArg (fun state => state.rt) (Prod.mk.inj (Except.ok.inj kept)).2)
  refine ⟨next,ran,⟨rfl,?_,?_⟩,rfl⟩
  · rw [cost]
    exact inherits.cost
  · rw [mtime]
    exact inherits.mtime

theorem addTotal_alone {total : UInt64} (inherits : InheritsState base state alone) (added : addTotal state.toMerging = .ok total) :
    ∃ aloneTotal, addTotal alone.toMerging = .ok aloneTotal ∧ total.toNat = base + aloneTotal.toNat := by
  obtain ⟨⟨-,cost,-⟩,others⟩ := inherits
  have curr : state.curr = alone.curr := congrArg (fun state => state.curr) others
  have totalCost : state.totalCost = alone.totalCost := congrArg (fun state => state.totalCost) others
  unfold addTotal at added ⊢
  rw [curr,totalCost] at added
  split at added
  · next first =>
    rw [if_pos first]
    obtain ⟨sum,-⟩ := add_ok added
    have below := total.toNat_lt
    obtain ⟨fits,sumAlone⟩ := @add_fits alone.rt.extraCost alone.totalCost (by omega)
    exact ⟨_,fits,by omega⟩
  · next later =>
    rw [if_neg later]
    cases added
    exact ⟨_,rfl,cost⟩

theorem InheritsState.routine (inherits : InheritsState base state alone) (merged : mergeRoutine state args = .ok (false,after)) :
    ∃ next, mergeRoutine alone args = .ok (false,next) ∧ InheritsState base after next := by
  obtain ⟨total,added,merged⟩ := bind_ok.mp merged
  obtain ⟨aloneTotal,addedAlone,sum⟩ := addTotal_alone inherits added
  obtain ⟨⟨same,-,mtime⟩,others⟩ := inherits
  have totalCost : state.totalCost = alone.totalCost := congrArg (fun state => state.totalCost) others
  have fields : state.fields = alone.fields := congrArg (fun state => state.fields) others
  obtain ⟨⟨name,args'⟩,named,merged⟩ := bind_ok.mp merged
  obtain ⟨⟨objName,args''⟩,object,merged⟩ := bind_ok.mp merged
  obtain ⟨⟨id,rest⟩,read,merged⟩ := bind_ok.mp merged
  obtain ⟨-,rfl⟩ := Prod.mk.inj (Except.ok.inj merged)
  rw [fields] at read
  let paid : Profile D := {alone.rt with extraCost := aloneTotal}
  have found : searchObject (searchFunction {state.rt with extraCost := total} name) name objName =
      inherit total state.rt.binaryMtime (searchObject (searchFunction paid name) name objName) := by
    rw [← search_inherit,same]
    rfl
  have kept : (searchObject (searchFunction paid name) name objName).extraCost = aloneTotal ∧
      (searchObject (searchFunction paid name) name objName).binaryMtime = alone.rt.binaryMtime :=
    inherit_kept (@search_inherit D paid.extraCost paid.binaryMtime paid name objName)
  refine ⟨{alone with rt := searchObject (searchFunction paid name) name objName, curr := some name, rid := id.toUInt32},?_,⟨?_,?_,?_⟩,?_⟩
  · unfold mergeRoutine
    exact (ok_then addedAlone _).trans ((ok_then named _).trans ((ok_then object _).trans (ok_then read _)))
  · dsimp only
    rw [found]
    rfl
  · dsimp only
    rw [found,kept.1]
    exact sum
  · dsimp only
    rw [found,kept.2]
    exact mtime
  · rw [totalCost,fields]

theorem mergeMtime_accepts {token : Str} {rest : List Str} : mergeMtime state (token :: rest) = .ok (false,after) ↔
    (state.rt.binaryMtime = 0 ∨ state.rt.binaryMtime = (strtoll token).1) ∧ after = {state with
      rt := {state.rt with binaryMtime := (strtoll token).1}
      fields := {state.fields with erange := state.fields.erange || (strtoll token).2}} := by
  unfold mergeMtime
  rw [nextToken,ok_bind]
  obtain ⟨⟨⟨fnHt,objHt,extraCost,nextFunctionId,application,binaryMtime,inputMetric,resolution⟩,curr,rid,totalCost⟩,fields⟩ := state
  dsimp only
  generalize strtoll token = number
  obtain ⟨bmtime,erange⟩ := number
  dsimp only
  by_cases unset : binaryMtime = 0
  · simp only [if_pos unset,ne_eq,not_true_eq_false,if_false]
    constructor
    · intro merged
      cases merged
      exact ⟨.inl unset,rfl⟩
    · rintro ⟨-,rfl⟩
      rfl
  · simp only [if_neg unset]
    by_cases same : binaryMtime = bmtime
    · subst same
      simp only [ne_eq,not_true_eq_false,if_false]
      constructor
      · intro merged
        cases merged
        exact ⟨.inr trivial,rfl⟩
      · rintro ⟨-,rfl⟩
        rfl
    · rw [if_pos (Ne.symm same)]
      refine iff_of_false (fun merged => ?_) fun both => both.1.elim unset same
      cases merged

theorem InheritsState.time (inherits : InheritsState base state alone) (merged : mergeMtime state args = .ok (false,after)) :
    ∃ next, mergeMtime alone args = .ok (false,next) ∧ InheritsState base after next := by
  obtain ⟨⟨same,cost,mtime⟩,others⟩ := inherits
  have fields : state.fields = alone.fields := congrArg (fun state => state.fields) others
  cases args with
  | nil => cases merged
  | cons token rest =>
    obtain ⟨accepted,rfl⟩ := mergeMtime_accepts.mp merged
    refine ⟨_,mergeMtime_accepts.mpr ⟨?_,rfl⟩,⟨?_,cost,.inl rfl⟩,?_⟩
    · rcases mtime with known | unset
      · rw [known]
        exact accepted
      · exact .inl unset
    · dsimp only
      rw [same]
      rfl
    · rw [fields,others]

theorem InheritsState.line {tag : Char} (inherits : InheritsState base state alone)
    (merged : mergeLine squares state tag args = .ok (false,after)) :
    ∃ next, mergeLine squares alone tag args = .ok (false,next) ∧ InheritsState base after next := by
  have accepted (kept : accept state = .ok (false,after)) : ∃ next, accept alone = .ok (false,next) ∧ InheritsState base after next := by
    cases kept
    exact ⟨alone,rfl,inherits⟩
  unfold mergeLine at merged ⊢
  split at merged
  · exact inherits.routine merged
  · exact inherits.keeps (mergeMangled · args) (fun _ _ _ => mergeMangled_inherit) merged
  · exact inherits.keeps (mergePoint squares · args) (fun _ _ _ => mergePoint_inherit) merged
  · exact inherits.keeps (mergeApplication · args) (fun _ _ _ => mergeApplication_inherit) merged
  · exact inherits.keeps (mergeTotal · args) (fun _ _ _ => mergeTotal_inherit) merged
  · exact inherits.keeps (mergeVersion · args) (fun _ _ _ => mergeVersion_inherit) merged
  · cases merged
  · cases merged
  · exact inherits.keeps (mergeMetric · args) (fun _ _ _ => mergeMetric_inherit) merged
  · exact inherits.keeps (mergeResolution · args) (fun _ _ _ => mergeResolution_inherit) merged
  · exact accepted merged
  · exact inherits.time merged
  · exact accepted merged
  · exact accepted merged
  · exact accepted merged
  · cases merged

theorem InheritsState.lines {report : Str} (lines : List Str) : ∀ {state alone after : HelperMerging D},
    InheritsState base state alone → mergeLines squares report state lines = .ok (true,after) →
    ∃ next, mergeLines squares report alone lines = .ok (true,next) ∧ InheritsState base after next := by
  induction lines with
  | nil =>
    intro state alone after inherits merged
    cases merged
    exact ⟨alone,rfl,inherits⟩
  | cons line lines ih =>
    intro state alone after inherits merged
    obtain ⟨_,short,merged⟩ := bind_ok.mp merged
    obtain ⟨⟨invalid,middle⟩,tuple,merged⟩ := bind_ok.mp merged
    cases invalid with
    | true => cases merged
    | false =>
      obtain ⟨next,tupleAlone,inherits⟩ : ∃ next, mergeTuple squares report alone (cString line) = .ok (false,next) ∧
          InheritsState base middle next := by
        unfold mergeTuple at tuple ⊢
        split at tuple
        · next empty =>
          cases tuple
          rw [if_pos empty]
          exact ⟨alone,rfl,inherits⟩
        · next nonempty =>
          obtain ⟨_,fits,tuple⟩ := bind_ok.mp tuple
          rw [if_neg nonempty,fits,ok_bind]
          cases read : readLine (cString line) with
          | none =>
            rw [read] at tuple
            cases tuple
          | some tagged =>
            rw [read] at tuple
            exact inherits.line tuple
      obtain ⟨last,rest,inherits⟩ := ih inherits merged
      exact ⟨last,(ok_then short _).trans ((ok_then tupleAlone _).trans rest),inherits⟩

/-- A whole runtime beside one that has merged the group alone -/
structure InheritsAll (base : Nat) (rt alone : HelperRuntime D) : Prop extends Inherits base rt.profile alone.profile where
  fields : rt.fields = alone.fields

/-- The name is only read where a resolution is known. -/
def afterName (report : Str) (rt : HelperRuntime D) : HelperRuntime D :=
  if rt.profile.memoryResolution ≠ 0
  then {rt with fields := {rt.fields with erange := rt.fields.erange || (memoryResolutionReport report).2}} else rt

theorem afterName_profile (report : Str) (rt : HelperRuntime D) : (afterName report rt).profile = rt.profile := by
  unfold afterName
  split <;> rfl

theorem mergeReport_merged {name : Str} {file : File} {rt after : HelperRuntime D} :
    mergeReport squares name file rt = .ok (true,after) ↔
      (rt.profile.memoryResolution = 0 ∨ (memoryResolutionReport name).1 = rt.profile.memoryResolution) ∧
      ∃ content state, file = .whole content ∧
        mergeLines squares name (startMerging (afterName name rt)) (content.splitOn '\n') = .ok (true,state) ∧
        after = state.runtime := by
  by_cases other : rt.profile.memoryResolution ≠ 0 ∧ (memoryResolutionReport name).1 ≠ rt.profile.memoryResolution
  · have refused : mergeReport squares name file rt = .ok (false,afterName name rt) :=
      if_pos (by rwa [← afterName_profile name rt] at other)
    rw [refused]
    refine iff_of_false (fun merged => ?_) fun both => both.1.elim other.1 other.2
    cases merged
  · have passes : ¬((afterName name rt).profile.memoryResolution ≠ 0 ∧
        (memoryResolutionReport name).1 ≠ (afterName name rt).profile.memoryResolution) := by
      rwa [afterName_profile]
    rw [not_and_or,not_not,not_not] at other
    cases file with
    | unreadable =>
      have unfolded : mergeReport squares name .unreadable rt = .ok (false,afterName name rt) := if_neg passes
      rw [unfolded]
      constructor
      · rintro ⟨⟩
      · rintro ⟨-,_,_,⟨⟩,_⟩
    | broken content =>
      have unfolded : mergeReport squares name (.broken content) rt = _ := if_neg passes
      rw [unfolded]
      constructor
      · intro merged
        obtain ⟨_,-,merged⟩ := bind_ok.mp merged
        obtain ⟨-,-,merged⟩ := bind_ok.mp merged
        cases merged
      · rintro ⟨-,_,_,⟨⟩,_⟩
    | whole content =>
      have unfolded : mergeReport squares name (.whole content) rt = _ := if_neg passes
      rw [unfolded]
      constructor
      · intro merged
        obtain ⟨⟨accepted,state⟩,lines,merged⟩ := bind_ok.mp merged
        cases merged
        exact ⟨other,content,state,rfl,lines,rfl⟩
      · rintro ⟨-,_,state,⟨⟩,lines,rfl⟩
        exact ok_then lines _

theorem InheritsAll.report {report : Report} {rt alone after : HelperRuntime D} (inherits : InheritsAll base rt alone)
    (merged : mergeReport squares report.name report.file rt = .ok (true,after)) :
    ∃ next, mergeReport squares report.name report.file alone = .ok (true,next) ∧ InheritsAll base after next := by
  have resolution : alone.profile.memoryResolution = rt.profile.memoryResolution := by
    rw [inherits.same]
    rfl
  obtain ⟨named,content,state,whole,lines,rfl⟩ := mergeReport_merged.mp merged
  have start : InheritsState base (startMerging (afterName report.name rt)) (startMerging (afterName report.name alone)) := by
    have profiles : Inherits base (afterName report.name rt).profile (afterName report.name alone).profile := by
      rw [afterName_profile,afterName_profile]
      exact inherits.toInherits
    have fields : (afterName report.name rt).fields = (afterName report.name alone).fields := by
      unfold afterName
      rw [resolution]
      split
      · dsimp only
        rw [inherits.fields]
      · exact inherits.fields
    refine ⟨profiles,?_⟩
    unfold startMerging
    rw [fields]
    rfl
  obtain ⟨next,linesAlone,inherits⟩ := start.lines _ lines
  refine ⟨next.runtime,mergeReport_merged.mpr ⟨resolution ▸ named,content,next,whole,linesAlone,rfl⟩,inherits.toInherits,?_⟩
  exact congrArg (fun state => state.fields) inherits.others

theorem InheritsAll.reports (reports : List Report) : ∀ {rt alone after : HelperRuntime D}, InheritsAll base rt alone →
    mergeReports squares rt reports = .ok (true,after) →
    ∃ next, mergeReports squares alone reports = .ok (true,next) ∧ InheritsAll base after next := by
  induction reports with
  | nil =>
    intro rt alone after inherits merged
    cases merged
    exact ⟨alone,rfl,inherits⟩
  | cons report reports ih =>
    intro rt alone after inherits merged
    obtain ⟨⟨accepted,middle⟩,first,merged⟩ := bind_ok.mp merged
    cases accepted with
    | false => cases merged
    | true =>
      obtain ⟨next,firstAlone,inherits⟩ := inherits.report first
      obtain ⟨last,rest,inherits⟩ := ih inherits merged
      exact ⟨last,(ok_then firstAlone _).trans rest,inherits⟩

end

end Aprof.Helper
