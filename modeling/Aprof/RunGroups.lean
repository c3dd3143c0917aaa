import Aprof.HelperGroups
import Aprof.SoundTuples

/-! The groups of `merge_by_run`, whatever its reports are. A candidate that turns out to be
invalid stays in the list, but has changed the runtime. -/
namespace Aprof.Helper

/-- The options `-r` and `-i`: the loop of `merge_by_run` on a list of reports. -/
def mergeByRun {D : Type} (squares : Squares D) (squareText : D → Str) (turns : Nat) (list : List Report) (state : Grouping D) :
    Result (Option (List Report × Grouping D)) :=
  scanReports (runScan squares squareText) turns list state

section
variable {D : Type} {squares : Squares D} {squareText : D → Str}

def KeepsOption (mergeAll : Bool) (result : Result (Bool × HelperMerging D)) : Prop :=
  ∀ outcome, result = .ok outcome → outcome.2.fields.mergeAll = mergeAll

theorem KeepsOption.bind {A : Type} {mergeAll : Bool} {x : Result A} {next : A → Result (Bool × HelperMerging D)}
    (each : ∀ a, x = .ok a → KeepsOption mergeAll (next a)) : KeepsOption mergeAll (x >>= next) := by
  intro outcome done
  obtain ⟨a,first,rest⟩ := bind_ok.mp done
  exact each a first outcome rest

variable {state : HelperMerging D} {args : List Str}

theorem KeepsOption.ok {mergeAll : Bool} {invalid : Bool} (kept : state.fields.mergeAll = mergeAll) :
    KeepsOption mergeAll (.ok (invalid,state)) := by
  rintro outcome ⟨⟩
  exact kept

theorem KeepsOption.error {mergeAll : Bool} {fault : Fault} : KeepsOption mergeAll (.error fault : Result (Bool × HelperMerging D)) := by
  rintro outcome ⟨⟩

theorem mergeRoutine_option : KeepsOption state.fields.mergeAll (mergeRoutine state args) :=
  .bind fun _ _ => .bind fun _ _ => .bind fun _ _ => .bind fun _ _ => .ok rfl

theorem mergeMangled_option : KeepsOption state.fields.mergeAll (mergeMangled state args) := by
  unfold mergeMangled
  split
  · exact .error
  · refine .bind fun _ _ => .bind fun _ _ => .bind fun _ _ => .bind fun _ _ => .bind ?_
    rintro ⟨mangled,_⟩ -
    dsimp only
    split
    · exact .error
    · split
      · exact .bind fun _ _ => .ok rfl
      · exact .ok rfl

theorem mergePoint_option : KeepsOption state.fields.mergeAll (mergePoint squares state args) := by
  unfold mergePoint
  refine .bind fun _ _ => .bind fun _ _ => .bind fun _ _ => ?_
  split
  · exact .error
  · split
    · exact .error
    · refine .bind fun _ _ => ?_
      split
      · exact .error
      · exact .bind fun _ _ => .bind fun _ _ => .bind fun _ _ => .ok rfl

theorem mergeHeader_option : KeepsOption state.fields.mergeAll (mergeApplication state args) ∧
    KeepsOption state.fields.mergeAll (mergeTotal state args) ∧ KeepsOption state.fields.mergeAll (mergeVersion state args) ∧
    KeepsOption state.fields.mergeAll (mergeMetric state args) ∧ KeepsOption state.fields.mergeAll (mergeResolution state args) ∧
    KeepsOption state.fields.mergeAll (mergeMtime state args) := by
  refine ⟨?_,?_,?_,?_,?_,?_⟩
  · refine .bind fun _ _ => .bind fun _ _ => ?_
    split
    · exact .ok rfl
    · split <;> exact .ok rfl
  · exact .bind fun _ _ => .bind fun _ _ => .ok rfl
  · refine .bind fun _ _ => ?_
    dsimp only
    split <;> exact .ok rfl
  · refine .bind fun outcome _ => ?_
    exact .ok rfl
  · refine .bind fun _ _ => .bind fun _ _ => ?_
    dsimp only
    split <;> split <;> exact .ok rfl
  · refine .bind fun _ _ => ?_
    dsimp only
    split <;> split <;> exact .ok rfl

theorem mergeLine_option {tag : Char} : KeepsOption state.fields.mergeAll (mergeLine squares state tag args) := by
  obtain ⟨application,total,version,metric,resolution,mtime⟩ := @mergeHeader_option D state args
  unfold mergeLine
  split
  · exact mergeRoutine_option
  · exact mergeMangled_option
  · exact mergePoint_option
  · exact application
  · exact total
  · exact version
  · exact .ok rfl
  · exact .ok rfl
  · exact metric
  · exact resolution
  · exact .ok rfl
  · exact mtime
  · exact .ok rfl
  · exact .ok rfl
  · exact .ok rfl
  · exact .error

theorem mergeLines_option {report : Str} (lines : List Str) : ∀ {state : HelperMerging D},
    KeepsOption state.fields.mergeAll (mergeLines squares report state lines) := by
  induction lines with
  | nil => exact .ok rfl
  | cons line lines ih =>
    intro state
    have tuple : KeepsOption state.fields.mergeAll (mergeTuple squares report state (cString line)) := by
      unfold mergeTuple
      split
      · exact .ok rfl
      · refine .bind fun _ _ => ?_
        split
        · exact .error
        · exact mergeLine_option
    unfold mergeLines
    refine .bind fun _ _ => .bind ?_
    rintro ⟨invalid,next⟩ read
    dsimp only
    have kept : next.fields.mergeAll = state.fields.mergeAll := tuple _ read
    split
    · exact .ok kept
    · rw [← kept]
      exact ih

theorem mergeReport_option {report : Report} {rt after : HelperRuntime D} {accepted : Bool}
    (done : mergeReport squares report.name report.file rt = .ok (accepted,after)) : after.fields.mergeAll = rt.fields.mergeAll := by
  obtain ⟨name,file⟩ := report
  dsimp only at done
  unfold mergeReport at done
  split at done
  next resolution erange _ =>
  have named : (if rt.profile.memoryResolution ≠ 0
      then {rt with fields := {rt.fields with erange := rt.fields.erange || erange}} else rt).fields.mergeAll = rt.fields.mergeAll := by
    split <;> rfl
  generalize (if rt.profile.memoryResolution ≠ 0
    then {rt with fields := {rt.fields with erange := rt.fields.erange || erange}} else rt) = start at done named
  dsimp only at done
  split at done
  · cases done
    exact named
  · split at done
    · cases done
      exact named
    · obtain ⟨⟨_,state⟩,lines,done⟩ := bind_ok.mp done
      obtain ⟨_,-,done⟩ := bind_ok.mp done
      cases done
      exact (mergeLines_option _ _ lines).trans named
    · obtain ⟨⟨_,state⟩,lines,done⟩ := bind_ok.mp done
      cases done
      exact (mergeLines_option _ _ lines).trans named

/-- The reports behind a leader: a candidate is merged, or is refused and stays for a later leader. -/
inductive Offered (squares : Squares D) (leader : Report) :
    HelperRuntime D → List Report → List Report → List Report → HelperRuntime D → Prop
  | nil (r : HelperRuntime D) : Offered squares leader r [] [] [] r
  | other {r after : HelperRuntime D} {report : Report} {rest joined left : List Report} :
      mergeCandidate r.fields.mergeAll false leader.name report.name = false → Offered squares leader r rest joined left after →
      Offered squares leader r (report :: rest) joined (report :: left) after
  | joins {r next after : HelperRuntime D} {report : Report} {rest joined left : List Report} :
      mergeCandidate r.fields.mergeAll false leader.name report.name = true →
      mergeReport squares report.name report.file r = .ok (true,next) → Offered squares leader next rest joined left after →
      Offered squares leader r (report :: rest) (report :: joined) left after
  | refused {r next after : HelperRuntime D} {report : Report} {rest joined left : List Report} :
      mergeCandidate r.fields.mergeAll false leader.name report.name = true →
      mergeReport squares report.name report.file r = .ok (false,next) → Offered squares leader next rest joined left after →
      Offered squares leader r (report :: rest) joined (report :: left) after

/-- The groups with the reports that are printed for them -/
inductive RunGroups (squares : Squares D) (squareText : D → Str) (directory : Str) :
    HelperRuntime D → List Report → List (Report × List Report) → List Report → Prop
  | nil (r : HelperRuntime D) : RunGroups squares squareText directory r [] [] []
  | cons {r first last : HelperRuntime D} {leader : Report} {rest joined left reports : List Report} {name : Str}
      {groups : List (Report × List Report)} :
      mergeReport squares leader.name leader.file (resetRuntime r) = .ok (true,first) →
      Offered squares leader first rest joined left last → newRep directory leader.name = .ok name →
      RunGroups squares squareText directory last left groups reports →
      RunGroups squares squareText directory r (leader :: rest) ((leader,joined) :: groups)
        (⟨name,.whole (printReport squareText last.profile)⟩ :: reports)

/-- The loop has merged a leader, and `reset_data` has cleared `merge_threads`. -/
structure Leading (mergeRuns : Bool) (listPost : List Report) (state : Grouping D) : Prop where
  threads : state.mergeThreads = false
  runs : state.mergeRuns = mergeRuns
  merged : 0 < state.merged
  list : state.listPost = listPost

variable {mergeRuns : Bool} {listPost : List Report}

theorem runScan_lead {leader : Report} {state : Grouping D} : (runScan squares squareText).lead leader state =
    mergeReport squares leader.name leader.file (resetRuntime state.r) >>= fun outcome =>
      check outcome.1 "Report %s should be merged but is invalid" >>= fun _ =>
      .ok {state with r := outcome.2, mergeThreads := false, merged := state.merged + 1} := rfl

theorem runScan_other {leader report : Report} {state : Grouping D} (leading : Leading mergeRuns listPost state)
    (other : mergeCandidate state.r.fields.mergeAll false leader.name report.name = false) :
    (runScan squares squareText).join leader report state = .ok (false,state) := by
  unfold runScan
  dsimp only
  rw [decide_eq_true leading.merged,leading.threads,other]
  rfl

theorem runScan_candidate {leader report : Report} {state : Grouping D} (leading : Leading mergeRuns listPost state)
    (candidate : mergeCandidate state.r.fields.mergeAll false leader.name report.name = true) :
    (runScan squares squareText).join leader report state = mergeReport squares report.name report.file state.r >>= fun outcome =>
      .ok (outcome.1,{state with r := outcome.2, merged := if outcome.1 then state.merged + 1 else state.merged}) := by
  unfold runScan
  dsimp only
  rw [decide_eq_true leading.merged,leading.threads,candidate]
  rfl

theorem Leading.merge {state : Grouping D} (leading : Leading mergeRuns listPost state) (r : HelperRuntime D) (accepted : Bool) :
    Leading mergeRuns listPost {state with r := r, merged := if accepted then state.merged + 1 else state.merged} := by
  obtain ⟨threads,runs,merged,list⟩ := leading
  refine ⟨threads,runs,?_,list⟩
  dsimp only
  split <;> omega

/-- The directory that the reports are printed to -/
def runDirectory (mergeRuns : Bool) : Str := if mergeRuns then dirMergeRuns else dirMergeAll

theorem runScan_close {leader : Report} {state : Grouping D} (leading : Leading mergeRuns listPost state) :
    (runScan squares squareText).close leader state = newRep (runDirectory mergeRuns) leader.name >>= fun name =>
      .ok {state with listPost := listPost ++ [⟨name,.whole (printReport squareText state.r.profile)⟩], merged := 0} := by
  obtain ⟨r,mergeThreads,flag,merged,posted⟩ := state
  obtain ⟨threads,runs,positive,list⟩ := leading
  dsimp only at threads runs positive list
  subst threads runs list
  unfold runScan
  dsimp only
  rw [decide_eq_true positive]
  cases flag <;> rfl

theorem follow_offered {leader : Report} (rest : List Report) : ∀ {state after : Grouping D} {split : Scan.Split rest},
    Leading mergeRuns listPost state → (runScan squares squareText).follow leader rest state = .ok (split,after) →
    Offered squares leader state.r rest split.joined split.left after.r ∧ Leading mergeRuns listPost after := by
  induction rest with
  | nil =>
    intro state after split leading done
    cases done
    exact ⟨.nil _,leading⟩
  | cons report rest ih =>
    intro state after split leading done
    obtain ⟨⟨joined,middle⟩,join,done⟩ := bind_ok.mp done
    obtain ⟨⟨others,last⟩,follows,done⟩ := bind_ok.mp done
    cases done
    cases candidate : mergeCandidate state.r.fields.mergeAll false leader.name report.name with
    | false =>
      rw [runScan_other leading candidate] at join
      cases join
      obtain ⟨offered,leading⟩ := ih leading follows
      exact ⟨.other candidate offered,leading⟩
    | true =>
      rw [runScan_candidate leading candidate] at join
      obtain ⟨⟨accepted,r⟩,merged,join⟩ := bind_ok.mp join
      cases join
      obtain ⟨offered,leading⟩ := ih (leading.merge r accepted) follows
      cases accepted with
      | true => exact ⟨.joins candidate merged offered,leading⟩
      | false => exact ⟨.refused candidate merged offered,leading⟩

theorem offered_follow {leader : Report} {r last : HelperRuntime D} {rest joined left : List Report}
    (offered : Offered squares leader r rest joined left last) : ∀ {state : Grouping D}, Leading mergeRuns listPost state →
    state.r = r → ∃ split after, (runScan squares squareText).follow leader rest state = .ok (split,after) ∧
      split.joined = joined ∧ split.left = left ∧ after.r = last ∧ Leading mergeRuns listPost after := by
  induction offered with
  | nil r =>
    intro state leading same
    exact ⟨.empty,state,rfl,rfl,rfl,same,leading⟩
  | @other r after report rest joined left candidate offered ih =>
    intro state leading same
    subst same
    obtain ⟨split,last,follows,joins,stays,runtime,leading'⟩ := ih leading rfl
    refine ⟨split.add report false,last,?_,joins,congrArg (List.cons report) stays,runtime,leading'⟩
    exact (ok_then (runScan_other leading candidate) _).trans (ok_then follows _)
  | @joins r next after report rest joined left candidate merged offered ih =>
    intro state leading same
    subst same
    have join := @runScan_candidate D squares squareText _ _ leader report _ leading candidate
    rw [merged] at join
    obtain ⟨split,last,follows,joins,stays,runtime,leading'⟩ := ih (leading.merge next true) rfl
    refine ⟨split.add report true,last,?_,congrArg (List.cons report) joins,stays,runtime,leading'⟩
    exact (ok_then join _).trans (ok_then follows _)
  | @refused r next after report rest joined left candidate merged offered ih =>
    intro state leading same
    subst same
    have join := @runScan_candidate D squares squareText _ _ leader report _ leading candidate
    rw [merged] at join
    obtain ⟨split,last,follows,joins,stays,runtime,leading'⟩ := ih (leading.merge next false) rfl
    refine ⟨split.add report false,last,?_,joins,congrArg (List.cons report) stays,runtime,leading'⟩
    exact (ok_then join _).trans (ok_then follows _)

theorem groups_runGroups (list : List Report) (state : Grouping D) : ∀ {after : Grouping D} {groups : List (Report × List Report)},
    state.merged = 0 → (runScan squares squareText).groups list state = .ok (groups,after) → ∃ reports,
      after.listPost = state.listPost ++ reports ∧
      RunGroups squares squareText (runDirectory state.mergeRuns) state.r list groups reports := by
  induction list, state using Scan.groups.induct with
  | case1 state =>
    intro after groups _ done
    rw [Scan.groups] at done
    cases done
    exact ⟨[],(List.append_nil _).symm,.nil _⟩
  | case2 leader rest state ih =>
    intro after groups none done
    obtain ⟨led,split,met,closed,others,leads,follows,closes,further,rfl⟩ := Scan.groups_cons done
    rw [runScan_lead] at leads
    obtain ⟨⟨accepted,first⟩,merged,leads⟩ := bind_ok.mp leads
    obtain ⟨_,checked,leads⟩ := bind_ok.mp leads
    obtain rfl : accepted = true := check_ok.mp checked
    cases leads
    have leading : Leading state.mergeRuns state.listPost
        {state with r := first, mergeThreads := false, merged := state.merged + 1} := ⟨rfl,rfl,Nat.succ_pos _,rfl⟩
    obtain ⟨offered,leading⟩ := follow_offered rest leading follows
    rw [runScan_close leading] at closes
    obtain ⟨name,named,closes⟩ := bind_ok.mp closes
    cases closes
    obtain ⟨reports,list,found⟩ := ih split _ rfl further
    dsimp only at list found
    rw [leading.runs] at found
    exact ⟨_ :: reports,list.trans (List.append_assoc _ _ _),.cons merged offered named found⟩

theorem runGroups_groups {directory : Str} {r : HelperRuntime D} {list reports : List Report} {groups : List (Report × List Report)}
    (found : RunGroups squares squareText directory r list groups reports) : ∀ {state : Grouping D}, state.merged = 0 → state.r = r →
    runDirectory state.mergeRuns = directory → ∃ after, (runScan squares squareText).groups list state = .ok (groups,after) ∧
      after.listPost = state.listPost ++ reports := by
  induction found with
  | nil r =>
    intro state _ _ _
    refine ⟨state,?_,(List.append_nil _).symm⟩
    rw [Scan.groups]
  | @cons r first last leader rest joined left reports name groups merged offered named found ih =>
    intro state none same directory
    subst same
    have leads : (runScan squares squareText).lead leader state =
        .ok {state with r := first, mergeThreads := false, merged := state.merged + 1} :=
      runScan_lead.trans (ok_then merged _)
    have leading : Leading state.mergeRuns state.listPost
        {state with r := first, mergeThreads := false, merged := state.merged + 1} := ⟨rfl,rfl,Nat.succ_pos _,rfl⟩
    obtain ⟨split,met,follows,rfl,rfl,rfl,leading⟩ := offered_follow offered leading rfl
    have closes : (runScan squares squareText).close leader met =
        .ok {met with listPost := state.listPost ++ [⟨name,.whole (printReport squareText met.r.profile)⟩], merged := 0} := by
      rw [runScan_close leading,directory]
      exact ok_then named _
    obtain ⟨after,further,list⟩ := @ih
      {met with listPost := state.listPost ++ [⟨name,.whole (printReport squareText met.r.profile)⟩], merged := 0} rfl rfl
      (leading.runs ▸ directory)
    refine ⟨after,?_,list.trans (List.append_assoc _ _ _)⟩
    rw [Scan.groups]
    exact (ok_then leads _).trans ((ok_then follows _).trans ((ok_then closes _).trans (ok_then further _)))

theorem Offered.candidates {leader : Report} {r last : HelperRuntime D} {rest joined left : List Report}
    (offered : Offered squares leader r rest joined left last) : last.fields.mergeAll = r.fields.mergeAll ∧
      ∀ member ∈ joined, mergeCandidate r.fields.mergeAll false leader.name member.name = true := by
  induction offered with
  | nil r => exact ⟨rfl,fun member inside => absurd inside List.not_mem_nil⟩
  | other _ _ ih => exact ih
  | joins candidate merged _ ih =>
    have kept := mergeReport_option merged
    rw [kept] at ih
    exact ⟨ih.1,List.forall_mem_cons.mpr ⟨candidate,ih.2⟩⟩
  | refused _ merged _ ih =>
    have kept := mergeReport_option merged
    rw [kept] at ih
    exact ih

theorem RunGroups.candidates {directory : Str} {r : HelperRuntime D} {list reports : List Report} {groups : List (Report × List Report)}
    (found : RunGroups squares squareText directory r list groups reports) :
    ∀ group ∈ groups, ∀ member ∈ group.2, mergeCandidate r.fields.mergeAll false group.1.name member.name = true := by
  induction found with
  | nil r => exact fun group found => absurd found List.not_mem_nil
  | @cons r first last leader rest joined left reports name groups merged offered named found ih =>
    obtain ⟨kept,members⟩ := offered.candidates
    have first : first.fields.mergeAll = r.fields.mergeAll := @mergeReport_option D squares leader (resetRuntime r) first true merged
    rw [first] at kept members
    rw [kept] at ih
    exact List.forall_mem_cons.mpr ⟨members,ih⟩

theorem mergeByRun_groups {list : List Report} {state : Grouping D} {turns : Nat} (enough : (list.length + 1) * list.length ≤ turns) :
    mergeByRun squares squareText turns list state = if list = [] then .ok (some ([],state)) else
      (runScan squares squareText).groups list {state with merged := 0, listPost := []} >>=
        fun found => .ok (some (found.2.listPost,found.2)) := by
  unfold mergeByRun scanReports
  by_cases empty : list = []
  · rw [if_pos empty,if_pos empty]
  · rw [if_neg empty,if_neg empty,Scan.loop_list empty enough]
    unfold Scan.final
    rw [bind_assoc]
    rfl

end

/-- The loop ends, and does what `RunGroups` describes: every report is in one group, behind a
leader that it is a candidate for, and `-t` changes nothing of this. -/
theorem merge_by_run_groups {D : Type} (squares : Squares D) (squareText : D → Str) (list : List Report) (state : Grouping D)
    (turns : Nat) (enough : (list.length + 1) * list.length ≤ turns) :
    mergeByRun squares squareText turns list state ≠ .ok none ∧
    (∀ listPost, (∃ after, mergeByRun squares squareText turns list state = .ok (some (listPost,after))) ↔
      ∃ groups, RunGroups squares squareText (runDirectory state.mergeRuns) state.r list groups listPost) ∧
    ∀ groups listPost, RunGroups squares squareText (runDirectory state.mergeRuns) state.r list groups listPost →
      (groups.flatMap fun group => group.1 :: group.2).Perm list ∧
      ∀ group ∈ groups, ∀ member ∈ group.2, mergeCandidate state.r.fields.mergeAll false group.1.name member.name = true := by
  rw [mergeByRun_groups enough]
  refine ⟨?_,fun listPost => ⟨?_,?_⟩,fun groups listPost found => ⟨?_,found.candidates⟩⟩
  · split
    · rintro ⟨⟩
    · intro out
      obtain ⟨_,-,out⟩ := bind_ok.mp out
      cases out
  · rintro ⟨after,done⟩
    split at done
    · next empty =>
      cases done
      subst empty
      exact ⟨[],.nil _⟩
    · obtain ⟨⟨groups,last⟩,found,done⟩ := bind_ok.mp done
      cases done
      obtain ⟨reports,same,made⟩ := groups_runGroups _ _ rfl found
      exact ⟨groups,same ▸ made⟩
  · rintro ⟨groups,made⟩
    split
    · next empty =>
      subst empty
      cases made
      exact ⟨state,rfl⟩
    · obtain ⟨last,found,list⟩ := @runGroups_groups D squares squareText _ _ _ _ _ made {state with merged := 0, listPost := []} rfl rfl rfl
      have list : last.listPost = listPost := list
      subst list
      exact ⟨last,ok_then found _⟩
  · obtain ⟨last,done,-⟩ := @runGroups_groups D squares squareText _ _ _ _ _ found {state with merged := 0, listPost := []} rfl rfl rfl
    exact Scan.groups_perm done

def twoRuns : List Report := [singleCallReport "logs/ls_12_0_1.aprof".toList,singleCallReport "logs/ls_13_0_1.aprof".toList]

theorem merge_by_run_groups_two : ∃ listPost groups,
    RunGroups helperSquares decimal dirMergeRuns (startGrouping false true).r twoRuns groups listPost ∧
    (groups.flatMap fun group => group.1 :: group.2).Perm twoRuns := by
  obtain ⟨-,describes,perm⟩ := merge_by_run_groups helperSquares decimal twoRuns (startGrouping false true) 6 (by decide)
  obtain ⟨groups,found⟩ := (describes _).mp ⟨_,rfl⟩
  exact ⟨_,groups,found,(perm groups _ found).1⟩

end Aprof.Helper
