import Aprof.InheritedRuntimes
import Aprof.MappedProfiles

/-! The two builds of `merge_report` on one report. Where they read its numbers alike, the helper
does what the tool does, unless one of the totals that it alone counts overflows. -/
namespace Aprof

namespace Helper

section
variable {D : Type}

/-- What the helper counts in a function beside the tool -/
def clearCalls (fn : Function D) : Function D := {fn with totalCalls := 0}

theorem clearCalls_counts : MapsCounts (clearCalls : Function D → Function D) :=
  ⟨fun _ => rfl,fun _ => rfl,fun _ => rfl,fun _ => rfl,fun _ _ => rfl,fun _ _ => rfl,fun _ _ => rfl⟩

def toolProfile (rt : Profile D) : Profile D := mapProfile clearCalls_counts rt

theorem findFunction_tool (rt : Profile D) (name : Str) : findFunction (toolProfile rt) name = (findFunction rt name).map clearCalls :=
  findFunction_map clearCalls_counts rt name

/-- `strtoll` reads the token as `strtoull10` does, without `ERANGE`. -/
def PlainNumber (token : Str) : Prop := strtoll token = ((strtoull10 token).1,false) ∧ (strtoull10 token).2 = true

def Plains : List Bool → List Str → Prop
  | number :: marks, token :: args => (number = true → PlainNumber token) ∧ Plains marks args
  | _, _ => True

/-- The words that `merge_tuple` reads as numbers -/
def numberMarks : Char → List Bool
  | 'p' => [true,true,true,true,true,false,true,true,true,true,true,false,false,false,true,true,true,true]
  | 'r' => [false,false,true]
  | 'd' => [true]
  | 'k' => [true]
  | 'v' => [true]
  | 't' => [true]
  | 'e' => [true]
  | _ => []

def ReadsAlike (item : Char × List Str) : Prop := Plains (numberMarks item.1) item.2

instance : DecidablePred PlainNumber := fun _ => inferInstanceAs (Decidable (_ ∧ _))

def decidePlains : ∀ marks args, Decidable (Plains marks args)
  | [], _ => isTrue trivial
  | _ :: _, [] => isTrue trivial
  | number :: marks, token :: args =>
    have := decidePlains marks args
    inferInstanceAs (Decidable ((number = true → PlainNumber token) ∧ Plains marks args))

instance : DecidablePred ReadsAlike := fun item => decidePlains (numberMarks item.1) item.2

variable {args : List Str} {marks : List Bool}

theorem nextNumber_alike (message : String) (plain : Plains (true :: marks) args) {A B : Type} {Q : A → B → Prop}
    {g : UInt64 × List Str → Result A} {h : UInt64 × List Str → Result B}
    (next : ∀ n rest, Plains marks rest → Agree Q (g (n,rest)) (h (n,rest))) :
    Agree Q (nextNumber false message args >>= g) (Aprof.nextNumber message args >>= h) := by
  cases args with
  | nil => exact .fails _
  | cons token rest =>
    obtain ⟨number,others⟩ := plain
    have same : nextNumber false message (token :: rest) = .ok ((strtoull10 token).1,rest) := by
      unfold nextNumber inRange
      rw [nextToken,ok_bind]
      dsimp only
      rw [(number rfl).1]
      rfl
    rw [same]
    exact next _ rest others

theorem nextId_alike (plain : Plains (true :: marks) args) {A B : Type} {Q : A → B → Prop}
    {g : UInt64 × List Str → Result A} {h : UInt64 × List Str → Result B}
    (next : ∀ n rest, Plains marks rest → Agree Q (g (n,rest)) (h (n,rest))) :
    Agree Q (nextNumber false "Invalid id: %s" args >>= g) (nextId args >>= h) := by
  have digits : nextId args = Aprof.nextNumber "Invalid id: %s" args := by
    cases args with
    | nil => rfl
    | cons token rest =>
      unfold nextId
      rw [nextToken,ok_bind]
      dsimp only
      rw [(plain.1 rfl).2]
      rfl
  rw [digits]
  exact nextNumber_alike _ plain next

theorem nextToken_alike (message : String) {number : Bool} (plain : Plains (number :: marks) args) {A B : Type} {Q : A → B → Prop}
    {g : Str × List Str → Result A} {h : Str × List Str → Result B}
    (next : ∀ token rest, Plains marks rest → Agree Q (g (token,rest)) (h (token,rest))) :
    Agree Q (nextToken message args >>= g) (nextToken message args >>= h) := by
  cases args with
  | nil => exact .fails _
  | cons token rest => exact next token rest plain.2

theorem nextName_alike (message : String) {number : Bool} (plain : Plains (number :: marks) args) {A B : Type} {Q : A → B → Prop}
    {g : Str × List Str → Result A} {h : Str × List Str → Result B}
    (next : ∀ name rest, Plains marks rest → Agree Q (g (name,rest)) (h (name,rest))) :
    Agree Q (nextName message args >>= g) (nextName message args >>= h) := by
  cases args with
  | nil => exact .fails _
  | cons token rest =>
    refine Agree.both fun named read => ?_
    obtain ⟨_,first,read⟩ := bind_ok.mp read
    obtain ⟨_,-,read⟩ := bind_ok.mp read
    cases first
    cases read
    exact next _ rest plain.2

theorem inducedInputs_alike (plain : Plains [false,false,true,true,true,true] args) :
    Agree (fun s t => s = t) (inducedInputs false args) (Aprof.inducedInputs args) := by
  cases args with
  | nil => exact .returns rfl
  | cons skipped args =>
    refine nextToken_alike _ plain.2 fun _ args plain => ?_
    refine nextNumber_alike _ plain fun cumulSyscall args plain => ?_
    refine nextNumber_alike _ plain fun cumulThread args plain => ?_
    refine nextNumber_alike _ plain fun selfSyscall args plain => ?_
    exact nextNumber_alike _ plain fun selfThread args plain => .returns rfl

theorem readTuple_alike (plain : Plains (numberMarks 'p').tail args) :
    Agree (fun s t => s = t) (readTuple false args) (Aprof.readTuple args) := by
  refine nextNumber_alike _ plain fun inputSize args plain => ?_
  refine nextNumber_alike _ plain fun min args plain => ?_
  refine nextNumber_alike _ plain fun max args plain => ?_
  refine nextNumber_alike _ plain fun sum args plain => ?_
  refine nextToken_alike _ plain fun sqrSum args plain => ?_
  refine nextNumber_alike _ plain fun occ args plain => ?_
  refine nextNumber_alike _ plain fun cumulReal args plain => ?_
  refine nextNumber_alike _ plain fun self args plain => ?_
  refine nextNumber_alike _ plain fun selfMin args plain => ?_
  refine nextNumber_alike _ plain fun selfMax args plain => ?_
  refine nextToken_alike _ plain fun selfSqr args plain => ?_
  refine (inducedInputs_alike plain).bind ?_
  rintro _ induced - rfl
  exact .returns rfl

def toolState (state : HelperMerging D) : Merging D := {state.toMerging with rt := toolProfile state.rt}

/-- No number was out of range yet, and the applications are compared. -/
structure Plain (fields : HelperFields) : Prop where
  inRange : fields.erange = false
  compares : fields.mergeAll = false

def SameLine (helper : Bool × HelperMerging D) (tool : Bool × Merging D) : Prop :=
  helper.1 = tool.1 ∧ toolState helper.2 = tool.2 ∧ Plain helper.2.fields

variable {squares : Squares D} {state : HelperMerging D}

theorem mergeInputMap_present {metric : InputMetric} {line : TupleLine} {inputMap merged : HashTable (Input D)}
    (ok : mergeInputMap squares metric line inputMap = .ok merged) :
    htFind merged line.inputSize.toNat (fun _ => true) ≠ none := by
  suffices stored : ∃ node ∈ merged.nodes, HashNode.key node = line.inputSize.toNat by
    obtain ⟨node,inside,keyed⟩ := stored
    exact fun missing => htFind_missing missing inside keyed rfl
  unfold mergeInputMap at ok
  dsimp only at ok
  split at ok
  · next tuple found =>
    obtain ⟨new,-,ok⟩ := bind_ok.mp ok
    cases ok
    obtain ⟨before,after,-,nodes⟩ := @htUpdate_split _ _ _ _ _ (fun node => {new with key := node.key}) (fun _ => rfl) _ found
    have keyed : HashNode.key tuple = line.inputSize.toNat := Buckets.find_first HashNode.key _ _ _ found
    refine ⟨{new with key := tuple.key},?_,keyed⟩
    rw [nodes]
    exact List.mem_append_right _ List.mem_cons_self
  · obtain ⟨new,input,ok⟩ := bind_ok.mp ok
    cases ok
    refine ⟨new,mem_htAddNode.mpr (.inl rfl),?_⟩
    obtain ⟨_,_,_,_,_,_,_,_,_,_,-,-,-,-,-,-,-,-,rfl⟩ := mergeInput_ok input
    rfl

theorem add_overflow (dest inc : UInt64) : add dest inc = .ok (dest + inc) ∨ add dest inc = .error (.assertion "overflow") := by
  unfold add check
  split
  · exact .inl rfl
  · exact .inr rfl

theorem Agree.total {A B : Type} {Q : A → B → Prop} {dest inc : UInt64} {g : UInt64 → Result A} {y : Result B}
    (next : Agree Q (g (dest + inc)) y) : Agree Q (add dest inc >>= g) y := by
  rcases add_overflow dest inc with fits | overflow
  · rw [fits]
    exact next
  · rw [overflow]
    exact .overflow

theorem mergeRoutine_alike (plain : Plain state.fields) (alike : Plains (numberMarks 'r') args) :
    Agree SameLine (mergeRoutine state args) (Aprof.mergeRoutine (toolState state) args) := by
  unfold mergeRoutine Aprof.mergeRoutine
  rw [plain.inRange]
  change Agree SameLine (addTotal state.toMerging >>= _) (addTotal state.toMerging >>= _)
  refine Agree.both fun extraCost _ => ?_
  refine nextName_alike _ alike fun name args alike => ?_
  refine nextName_alike _ alike fun objName args alike => ?_
  refine nextId_alike alike fun id args _ => .returns ⟨rfl,?_,plain⟩
  unfold toolState
  unfold toolProfile
  rw [← searchObject_map,← searchFunction_map]
  rfl

theorem mergeMangled_alike (plain : Plain state.fields) (alike : Plains (numberMarks 'd') args) :
    Agree SameLine (mergeMangled state args) (Aprof.mergeMangled (toolState state) args) := by
  obtain ⟨⟨rt,curr,rid,totalCost⟩,fields⟩ := state
  unfold mergeMangled Aprof.mergeMangled toolState
  dsimp only at plain ⊢
  cases curr with
  | none => exact .fails _
  | some name =>
    cases args with
    | nil => exact .fails _
    | cons token rest =>
      obtain ⟨same,digit⟩ := alike.1 rfl
      have ranged : inRange fields.erange token = .ok (strtoull10 token).1 := by
        unfold inRange
        rw [plain.inRange,same]
        rfl
      have id : nextId (token :: rest) = .ok ((strtoull10 token).1,rest) := by
        unfold nextId
        rw [nextToken,ok_bind]
        dsimp only
        rw [digit]
        rfl
      dsimp only
      rw [nextToken,ok_bind,id,ok_bind]
      dsimp only
      rw [ranged,same]
      refine Agree.both fun _ _ => ?_
      rw [ok_bind]
      refine Agree.both fun _ _ => Agree.both fun named _ => ?_
      rw [findFunction_tool]
      cases findFunction rt name with
      | none => exact .fails _
      | some fn =>
        dsimp only [Option.map_some]
        cases known : fn.mangled with
        | some other =>
          have tool : (clearCalls fn).mangled = some other := known
          rw [tool]
          exact Agree.both fun _ _ => .returns ⟨rfl,rfl,plain⟩
        | none =>
          have tool : (clearCalls fn).mangled = none := known
          rw [tool]
          have stored := @setFunction_map D D clearCalls clearCalls_counts rt name (fun fn => {fn with mangled := some named.1})
            (fun fn => {fn with mangled := some named.1}) (mangled_keeps named.1) (mangled_keeps named.1) fun _ => rfl
          exact .returns ⟨rfl,congrArg (fun rt => (⟨rt,some name,rid,totalCost⟩ : Merging D)) stored.symm,plain⟩

theorem mergePoint_alike (plain : Plain state.fields) (alike : Plains (numberMarks 'p') args) :
    Agree SameLine (mergePoint squares state args) (Aprof.mergePoint squares (toolState state) args) := by
  obtain ⟨⟨rt,curr,rid,totalCost⟩,fields⟩ := state
  unfold mergePoint Aprof.mergePoint toolState
  dsimp only at plain ⊢
  rw [plain.inRange]
  refine nextId_alike alike fun id args alike => Agree.both fun _ _ => (readTuple_alike alike).bind ?_
  rintro line _ - rfl
  cases curr with
  | none => exact .fails _
  | some name =>
    dsimp only
    rw [findFunction_tool]
    cases found : findFunction rt name with
    | none => exact .fails _
    | some fn =>
      dsimp only [Option.map_some]
      change Agree SameLine (mergeInputMap squares rt.inputMetric line fn.inputMap >>= _)
        (mergeInputMap squares rt.inputMetric line fn.inputMap >>= _)
      refine Agree.both fun inputMap merged => ?_
      cases stored : htFind inputMap line.inputSize.toNat fun _ => true with
      | none => exact absurd stored (mergeInputMap_present merged)
      | some tuple =>
        refine Agree.total (Agree.total (Agree.total (.returns ⟨rfl,?_,rfl,plain.compares⟩)))
        have stored := @setFunction_map D D clearCalls clearCalls_counts rt name (fun fn => {fn with inputMap := inputMap})
          (fun other => {other with inputMap := inputMap, totalCalls := fn.totalCalls + tuple.calls}) (fun _ => rfl) (fun _ => rfl)
          fun _ => rfl
        exact congrArg (fun rt => (⟨rt,some name,rid,totalCost⟩ : Merging D)) stored.symm

theorem mergeApplication_alike (plain : Plain state.fields) :
    Agree SameLine (mergeApplication state args) (Aprof.mergeApplication (toolState state) args) := by
  obtain ⟨⟨⟨fnHt,objHt,extraCost,nextFunctionId,application,binaryMtime,inputMetric,resolution⟩,curr,rid,totalCost⟩,fields⟩ := state
  unfold mergeApplication Aprof.mergeApplication toolState toolProfile mapProfile
  dsimp only at plain ⊢
  refine Agree.both fun _ _ => Agree.both fun _ _ => ?_
  cases application with
  | none => exact .returns ⟨rfl,rfl,plain⟩
  | some known =>
    dsimp only
    by_cases same : known = joinWords args
    · rw [if_neg fun both => both.1 same,if_neg (not_not.mpr same)]
      exact .returns ⟨rfl,rfl,plain⟩
    · rw [if_pos ⟨same,plain.compares⟩,if_pos same]
      exact .returns ⟨rfl,rfl,plain⟩

theorem mergeTotal_alike (plain : Plain state.fields) (alike : Plains (numberMarks 'k') args) :
    Agree SameLine (mergeTotal state args) (Aprof.mergeTotal (toolState state) args) := by
  unfold mergeTotal Aprof.mergeTotal
  rw [plain.inRange]
  exact nextNumber_alike _ alike fun sum args _ => Agree.both fun _ _ => .returns ⟨rfl,rfl,plain⟩

theorem mergeVersion_alike (plain : Plain state.fields) (alike : Plains (numberMarks 'v') args) :
    Agree SameLine (mergeVersion state args) (Aprof.mergeVersion (toolState state) args) := by
  unfold mergeVersion Aprof.mergeVersion
  rw [plain.inRange]
  refine nextNumber_alike _ alike fun ver args _ => ?_
  dsimp only
  split
  · exact .returns ⟨rfl,rfl,plain⟩
  · exact .returns ⟨rfl,rfl,plain⟩

theorem mergeMetric_alike (plain : Plain state.fields) :
    Agree SameLine (mergeMetric state args) (Aprof.mergeMetric (toolState state) args) := by
  unfold mergeMetric Aprof.mergeMetric
  rw [bind_assoc]
  refine Agree.both fun ⟨token,_⟩ _ => ?_
  change Agree SameLine ((if state.rt.inputMetric = .rms ∨ state.rt.inputMetric = .drms then _ else _) >>= _)
    (if state.rt.inputMetric = .rms ∨ state.rt.inputMetric = .drms then _ else _)
  split
  · change Agree SameLine ((if readMetric token ≠ state.rt.inputMetric then _ else _) >>= _)
      (if readMetric token ≠ state.rt.inputMetric then _ else _)
    split
    · exact .returns ⟨rfl,rfl,plain⟩
    · exact .returns ⟨rfl,rfl,plain⟩
  · exact .returns ⟨rfl,rfl,plain⟩

theorem mergeResolution_alike (plain : Plain state.fields) (alike : Plains (numberMarks 't') args) :
    Agree SameLine (mergeResolution state args) (Aprof.mergeResolution (toolState state) args) := by
  obtain ⟨⟨⟨fnHt,objHt,extraCost,nextFunctionId,application,binaryMtime,inputMetric,resolution⟩,curr,rid,totalCost⟩,fields⟩ := state
  unfold mergeResolution Aprof.mergeResolution toolState toolProfile mapProfile
  dsimp only at plain ⊢
  cases args with
  | nil => exact .fails _
  | cons token rest =>
    unfold Aprof.nextNumber
    rw [nextToken,ok_bind,ok_bind]
    dsimp only
    rw [(alike.1 rfl).1,ok_bind]
    refine Agree.both fun _ _ => ?_
    by_cases unset : resolution = 0
    · simp only [if_pos unset]
      split
      · exact .returns ⟨rfl,rfl,plain⟩
      · exact .returns ⟨rfl,rfl,plain⟩
    · simp only [if_neg unset]
      split
      · exact .returns ⟨rfl,rfl,plain⟩
      · exact .returns ⟨rfl,rfl,plain⟩

theorem mergeMtime_alike (plain : Plain state.fields) (alike : Plains (numberMarks 'e') args) :
    Agree SameLine (mergeMtime state args) (Aprof.mergeMtime (toolState state) args) := by
  obtain ⟨⟨⟨fnHt,objHt,extraCost,nextFunctionId,application,binaryMtime,inputMetric,resolution⟩,curr,rid,totalCost⟩,fields⟩ := state
  unfold mergeMtime Aprof.mergeMtime toolState toolProfile mapProfile
  dsimp only at plain ⊢
  cases args with
  | nil => exact .fails _
  | cons token rest =>
    unfold Aprof.nextNumber
    rw [nextToken,ok_bind,ok_bind]
    dsimp only
    rw [(alike.1 rfl).1,ok_bind]
    have still : Plain {fields with erange := fields.erange || false} := ⟨by rw [plain.inRange]; rfl,plain.compares⟩
    by_cases unset : binaryMtime = 0
    · simp only [if_pos unset]
      split
      · exact .returns ⟨rfl,rfl,still⟩
      · exact .returns ⟨rfl,rfl,still⟩
    · simp only [if_neg unset]
      split
      · exact .returns ⟨rfl,rfl,still⟩
      · exact .returns ⟨rfl,rfl,still⟩

theorem mergeLine_alike {tag : Char} (plain : Plain state.fields) (alike : ReadsAlike (tag,args)) :
    Agree SameLine (mergeLine squares state tag args) (Aprof.mergeLine squares (toolState state) tag args) := by
  unfold mergeLine
  split
  · exact mergeRoutine_alike plain alike
  · exact mergeMangled_alike plain alike
  · exact mergePoint_alike plain alike
  · exact mergeApplication_alike plain
  · exact mergeTotal_alike plain alike
  · exact mergeVersion_alike plain alike
  · exact .returns ⟨rfl,rfl,plain⟩
  · exact .returns ⟨rfl,rfl,plain⟩
  · exact mergeMetric_alike plain
  · exact mergeResolution_alike plain alike
  · exact .returns ⟨rfl,rfl,plain⟩
  · exact mergeMtime_alike plain alike
  · exact .returns ⟨rfl,rfl,plain⟩
  · exact .returns ⟨rfl,rfl,plain⟩
  · exact .returns ⟨rfl,rfl,plain⟩
  · have unknown : Aprof.mergeLine squares (toolState state) tag args = .error (.assertion "Unknown tag %c %s") := by
      unfold Aprof.mergeLine
      split
      all_goals first | rfl | exact absurd rfl ‹_›
    rw [unknown]
    exact .fails _

theorem mergeLines_alike {report : Str} (lines : List Str) : ∀ {state : HelperMerging D}, Plain state.fields →
    (∀ item ∈ lines.filterMap fun line => readLine (cString line), ReadsAlike item) →
    Agree SameLine (mergeLines squares report state lines) (Aprof.mergeLines squares report (toolState state) lines) := by
  induction lines with
  | nil =>
    intro state plain _
    exact .returns ⟨rfl,rfl,plain⟩
  | cons line lines ih =>
    intro state plain alike
    have rest : ∀ item ∈ lines.filterMap fun line => readLine (cString line), ReadsAlike item :=
      fun item inside => alike item (by
        rw [List.filterMap_cons]
        split
        · exact inside
        · exact List.mem_cons_of_mem _ inside)
    have tuple : Agree SameLine (mergeTuple squares report state (cString line))
        (Aprof.mergeTuple squares report (toolState state) (cString line)) := by
      unfold mergeTuple Aprof.mergeTuple
      split
      · exact .returns ⟨rfl,rfl,plain⟩
      · refine Agree.both fun _ _ => ?_
        cases read : readLine (cString line) with
        | none => exact .fails _
        | some item =>
          refine mergeLine_alike plain (alike item ?_)
          rw [List.filterMap_cons,read]
          exact List.mem_cons_self
    unfold mergeLines Aprof.mergeLines
    refine Agree.both fun _ _ => tuple.bind ?_
    rintro ⟨invalid,next⟩ ⟨_,_⟩ - ⟨rfl,rfl,plain⟩
    dsimp only
    split
    · exact .returns ⟨rfl,rfl,plain⟩
    · exact ih plain rest

def SameReport (helper : Bool × HelperRuntime D) (tool : Bool × Profile D) : Prop :=
  helper.1 = tool.1 ∧ toolProfile helper.2.profile = tool.2 ∧ Plain helper.2.fields

def NamedAlike (name : Str) : Prop := memoryResolutionReport name = (Aprof.memoryResolutionReport name,false)

/-- A report in which both builds read the same numbers -/
structure ReadAlike (report : Report) : Prop where
  named : NamedAlike report.name
  items : ∀ item ∈ report.file.lines, ReadsAlike item

theorem mergeReport_alike {report : Report} {rt : HelperRuntime D} (plain : Plain rt.fields) (alike : ReadAlike report) :
    Agree SameReport (mergeReport squares report.name report.file rt)
      (Aprof.mergeReport squares report.name report.file (toolProfile rt.profile)) := by
  obtain ⟨name,file⟩ := report
  obtain ⟨named,alike⟩ := alike
  have still : ∃ rt' : HelperRuntime D, rt'.profile = rt.profile ∧ Plain rt'.fields ∧
      (if rt.profile.memoryResolution ≠ 0
        then {rt with fields := {rt.fields with erange := rt.fields.erange || false}} else rt) = rt' := by
    split
    · refine ⟨{rt with fields := {rt.fields with erange := rt.fields.erange || false}},rfl,⟨?_,plain.compares⟩,rfl⟩
      dsimp only
      rw [plain.inRange,Bool.or_false]
    · exact ⟨rt,rfl,plain,rfl⟩
  obtain ⟨rt',profile,plain',still⟩ := still
  have start : toolState (startMerging rt') = Aprof.startMerging (toolProfile rt.profile) := by
    rw [← profile]
    rfl
  have lines (lines : List Str) (alike : ∀ item ∈ lines.filterMap fun line => readLine (cString line), ReadsAlike item) :
      Agree SameLine (mergeLines squares name (startMerging rt') lines)
        (Aprof.mergeLines squares name (Aprof.startMerging (toolProfile rt.profile)) lines) := by
    rw [← start]
    exact mergeLines_alike lines plain' alike
  unfold mergeReport Aprof.mergeReport
  rw [show memoryResolutionReport name = _ from named]
  dsimp only
  rw [still,profile]
  change Agree _ (if _ then _ else _)
    (if rt.profile.memoryResolution ≠ 0 ∧ Aprof.memoryResolutionReport name ≠ rt.profile.memoryResolution then _ else _)
  split
  · exact .returns ⟨rfl,congrArg toolProfile profile,plain'⟩
  · cases file with
    | unreadable => exact .returns ⟨rfl,congrArg toolProfile profile,plain'⟩
    | broken content =>
      refine (lines _ alike).bind ?_
      rintro ⟨_,state⟩ ⟨_,_⟩ - ⟨rfl,rfl,plain⟩
      exact Agree.both fun _ _ => .returns ⟨rfl,rfl,plain⟩
    | whole content =>
      refine (lines _ alike).bind ?_
      rintro ⟨_,state⟩ ⟨_,_⟩ - ⟨rfl,rfl,plain⟩
      exact .returns ⟨rfl,rfl,plain⟩

end

end Helper

end Aprof
