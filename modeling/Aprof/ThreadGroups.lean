import Aprof.InheritedRuntimes

/-! The groups of `merge_by_thread`. -/
namespace Aprof.Helper

/-- The option `-t`: the loop of `merge_by_thread` on a list of reports. -/
def mergeByThread {D : Type} (squares : Squares D) (squareText : D → Str) (system : System) (turns : Nat) (list : List Report) (state : Grouping D) :
    Result (Option (List Report × Grouping D)) :=
  scanReports (threadScan squares squareText system) turns list state

section
variable {D : Type} {squares : Squares D} {squareText : D → Str} {system : System}

def reportPid (report : Report) : UInt32 := getPidReport report.name

theorem threadScan_decided (list : List Report) :
    (threadScan squares squareText system).Decided (fun curr report => reportPid curr = reportPid report) (fun _ => True) list := by
  refine ⟨fun _ _ => trivial,fun {curr report state joined after} _ _ _ goes joins => ?_,fun {curr report state} _ passes => ?_⟩
  · have same : getPidReport curr.name = getPidReport report.name := of_decide_eq_true goes
    unfold threadScan at joins
    dsimp only at joins
    rw [if_pos same] at joins
    split at joins
    · obtain ⟨_,-,joins⟩ := bind_ok.mp joins
      obtain ⟨_,-,joins⟩ := bind_ok.mp joins
      cases joins
      exact ⟨rfl,trivial⟩
    · obtain ⟨_,-,joins⟩ := bind_ok.mp joins
      obtain ⟨_,-,joins⟩ := bind_ok.mp joins
      cases joins
      exact ⟨rfl,trivial⟩
  · exact if_neg (of_decide_eq_false passes)

/-- Reports that have to be merged, one after the other -/
def mergeAllOf (squares : Squares D) (reports : List Report) (state : Grouping D) : Result (Grouping D) :=
  reports.foldlM (fun state report => mergeReportOf squares report state) state

theorem mergeReportOf_ok {report : Report} {state after : Grouping D} (done : mergeReportOf squares report state = .ok after) :
    ∃ r, mergeReport squares report.name report.file state.r = .ok (true,r) ∧
      after = {state with r := r, merged := state.merged + 1} := by
  obtain ⟨⟨res,r⟩,merged,done⟩ := bind_ok.mp done
  obtain ⟨_,checked,done⟩ := bind_ok.mp done
  obtain rfl : res = true := check_ok.mp checked
  cases done
  exact ⟨r,merged,rfl⟩

theorem mergeAllOf_ok (reports : List Report) : ∀ {state after : Grouping D}, mergeAllOf squares reports state = .ok after →
    ∃ r, mergeReports squares state.r reports = .ok (true,r) ∧
      after = {state with r := r, merged := state.merged + reports.length} := by
  induction reports with
  | nil =>
    intro state after done
    cases done
    exact ⟨_,rfl,rfl⟩
  | cons report reports ih =>
    intro state after done
    unfold mergeAllOf at done
    rw [List.foldlM_cons] at done
    obtain ⟨middle,first,done⟩ := bind_ok.mp done
    obtain ⟨r,merged,rfl⟩ := mergeReportOf_ok first
    obtain ⟨r',rest,rfl⟩ := ih done
    refine ⟨r',(ok_then merged _).trans rest,?_⟩
    rw [List.length_cons,Nat.add_assoc,Nat.add_comm 1]

theorem mergeAllOf_cons (report : Report) (reports : List Report) (state : Grouping D) :
    mergeAllOf squares (report :: reports) state = mergeReportOf squares report state >>= mergeAllOf squares reports := by
  unfold mergeAllOf
  rw [List.foldlM_cons]

theorem joinNext_first {curr report : Report} {state : Grouping D} (first : state.merged = 0)
    (same : reportPid curr = reportPid report) : (threadScan squares squareText system).joinNext curr state report =
      mergeAllOf squares [curr,report] (resetData state) := by
  have same : getPidReport curr.name = getPidReport report.name := same
  rw [mergeAllOf_cons]
  unfold Scan.joinNext threadScan
  dsimp only
  rw [if_pos same,if_pos first,bind_assoc]
  refine bind_congr fun state => ?_
  rw [mergeAllOf_cons,bind_assoc]
  rfl

theorem joinNext_later {curr report : Report} {state : Grouping D} (later : 0 < state.merged)
    (same : reportPid curr = reportPid report) : (threadScan squares squareText system).joinNext curr state report =
      mergeReportOf squares report state := by
  have same : getPidReport curr.name = getPidReport report.name := same
  unfold Scan.joinNext threadScan
  dsimp only
  rw [if_pos same,if_neg (Nat.ne_of_gt later),ok_bind,bind_assoc]
  exact bind_pure _

theorem joins_later {curr : Report} (members : List Report) : ∀ {state : Grouping D}, 0 < state.merged →
    (∀ member ∈ members, reportPid curr = reportPid member) →
    members.foldlM ((threadScan squares squareText system).joinNext curr) state = mergeAllOf squares members state := by
  induction members with
  | nil =>
    intro state _ _
    rfl
  | cons member members ih =>
    intro state later same
    obtain ⟨own,same⟩ := List.forall_mem_cons.mp same
    rw [List.foldlM_cons,joinNext_later later own,mergeAllOf_cons]
    cases done : mergeReportOf squares member state with
    | error fault => rfl
    | ok next =>
      obtain ⟨r,-,rfl⟩ := mergeReportOf_ok done
      exact ih (Nat.succ_pos _) same

theorem copyReport_ok {directory : Str} {curr : Report} {state after : Grouping D}
    (done : copyReport system directory curr state = .ok after) : ∃ name file, newRep directory curr.name = .ok name ∧
      system (copyCommand curr.name name) curr.file = some file ∧
      after = {state with listPost := state.listPost ++ [⟨name,file⟩]} := by
  obtain ⟨name,named,done⟩ := bind_ok.mp done
  obtain ⟨cmd,printed,done⟩ := bind_ok.mp done
  unfold sprintf at printed
  split at printed
  · cases printed
    cases left : system (copyCommand curr.name name) curr.file with
    | none =>
      rw [left] at done
      cases done
    | some file =>
      rw [left] at done
      cases done
      exact ⟨name,file,named,left,rfl⟩
  · cases printed

theorem handle_alone (curr : Report) {state : Grouping D} (none : state.merged = 0) :
    (threadScan squares squareText system).handle state (curr,[]) = copyReport system dirMergeThread curr state :=
  if_neg (none ▸ Nat.lt_irrefl 0)

theorem handle_group {curr member : Report} {members : List Report} {state : Grouping D} (none : state.merged = 0)
    (same : ∀ other ∈ member :: members, reportPid curr = reportPid other) :
    (threadScan squares squareText system).handle state (curr,member :: members) =
      mergeAllOf squares (curr :: member :: members) (resetData state) >>= writeReport squareText dirMergeThread curr := by
  obtain ⟨own,same⟩ := List.forall_mem_cons.mp same
  have split : mergeAllOf squares (curr :: member :: members) (resetData state) =
      mergeAllOf squares [curr,member] (resetData state) >>= mergeAllOf squares members :=
    List.foldlM_append (l := [curr,member])
  change ((member :: members).foldlM ((threadScan squares squareText system).joinNext curr) state >>= fun state =>
    (threadScan squares squareText system).close curr state) = _
  rw [List.foldlM_cons,joinNext_first none own,split]
  cases two : mergeAllOf squares [curr,member] (resetData state) with
  | error fault => rfl
  | ok both =>
    obtain ⟨r,-,rfl⟩ := mergeAllOf_ok _ two
    rw [ok_bind,ok_bind,joins_later members (Nat.add_pos_right _ (Nat.succ_pos _)) same]
    cases rest : mergeAllOf squares members _ with
    | error fault => rfl
    | ok all =>
      obtain ⟨r,-,rfl⟩ := mergeAllOf_ok _ rest
      exact if_pos (Nat.add_pos_left (Nat.add_pos_right _ (Nat.succ_pos _)) _)

/-- What `merge_by_thread` makes of groups: a report of its own process is left to the copying
command. The reports of a group are printed as they are merged alone, but the cost of earlier
groups is added to theirs, and `mtime` is that of the runtime. -/
inductive GroupedByPid (squares : Squares D) (squareText : D → Str) (system : System) : Nat → List (Report × List Report) → List Report → Prop
  | nil (cost : Nat) : GroupedByPid squares squareText system cost [] []
  | copied {cost : Nat} {curr : Report} {name : Str} {file : File} {groups : List (Report × List Report)} {reports : List Report} :
      newRep dirMergeThread curr.name = .ok name → system (copyCommand curr.name name) curr.file = some file →
      GroupedByPid squares squareText system cost groups reports →
      GroupedByPid squares squareText system cost ((curr,[]) :: groups) (⟨name,file⟩ :: reports)
  | merged {cost : Nat} {curr member : Report} {members : List Report} {name : Str} {mergeAll erange : Bool} {alone : HelperRuntime D}
      {rt : Profile D} {groups : List (Report × List Report)} {reports : List Report} :
      newRep dirMergeThread curr.name = .ok name →
      mergeReports squares (freshRuntime mergeAll erange) (curr :: member :: members) = .ok (true,alone) →
      Inherits cost rt alone.profile → GroupedByPid squares squareText system rt.extraCost.toNat groups reports →
      GroupedByPid squares squareText system cost ((curr,member :: members) :: groups) (⟨name,.whole (printReport squareText rt)⟩ :: reports)

theorem resetData_inherits (state : Grouping D) : InheritsAll state.r.profile.extraCost.toNat (resetData state).r
    (freshRuntime state.r.fields.mergeAll state.r.fields.erange) :=
  ⟨⟨rfl,(Nat.add_zero _).symm,.inr rfl⟩,rfl⟩

theorem groups_by_pid (groups : List (Report × List Report)) : ∀ {state after : Grouping D}, state.merged = 0 →
    (∀ group ∈ groups, ∀ member ∈ group.2, reportPid group.1 = reportPid member) →
    groups.foldlM (threadScan squares squareText system).handle state = .ok after →
    ∃ reports, after.listPost = state.listPost ++ reports ∧
      GroupedByPid squares squareText system state.r.profile.extraCost.toNat groups reports := by
  induction groups with
  | nil =>
    intro state after _ _ done
    cases done
    exact ⟨[],(List.append_nil _).symm,.nil _⟩
  | cons group groups ih =>
    intro state after none same done
    obtain ⟨own,others⟩ := List.forall_mem_cons.mp same
    rw [List.foldlM_cons] at done
    obtain ⟨middle,handled,done⟩ := bind_ok.mp done
    obtain ⟨curr,members⟩ := group
    cases members with
    | nil =>
      rw [handle_alone curr none] at handled
      obtain ⟨name,file,named,copied,rfl⟩ := copyReport_ok handled
      obtain ⟨reports,list,grouped⟩ := @ih {state with listPost := state.listPost ++ [⟨name,file⟩]} after none others done
      exact ⟨⟨name,file⟩ :: reports,list.trans (List.append_assoc _ _ _),.copied named copied grouped⟩
    | cons member members =>
      rw [handle_group none own] at handled
      obtain ⟨all,merged,handled⟩ := bind_ok.mp handled
      obtain ⟨r,mergedAll,rfl⟩ := mergeAllOf_ok _ merged
      obtain ⟨name,named,handled⟩ := bind_ok.mp handled
      cases handled
      obtain ⟨alone,mergedAlone,inherits⟩ := (resetData_inherits state).reports _ mergedAll
      obtain ⟨reports,list,grouped⟩ := ih rfl others done
      exact ⟨⟨name,.whole (printReport squareText r.profile)⟩ :: reports,list.trans (List.append_assoc _ _ _),
        .merged named mergedAlone inherits.toInherits grouped⟩

theorem mergeByThread_groups {list : List Report} {state : Grouping D} {turns : Nat} (enough : (list.length + 1) * list.length ≤ turns) :
    mergeByThread squares squareText system turns list state = if list = [] then .ok (some ([],state)) else
      (keyGroups reportPid list).foldlM (threadScan squares squareText system).handle {state with merged := 0, listPost := []} >>=
        fun state => .ok (some (state.listPost,state)) := by
  unfold mergeByThread scanReports
  by_cases empty : list = []
  · rw [if_pos empty,if_pos empty]
  · rw [if_neg empty,if_neg empty,Scan.loop_decided (threadScan_decided list) empty enough,bind_assoc]
    rfl

end

/-- The loop ends, and its groups are those of one process id each, in the order in which the
reports of the processes come first in the list. -/
theorem merge_by_thread_groups {D : Type} (squares : Squares D) (squareText : D → Str) (system : System) (list : List Report)
    (state : Grouping D) (turns : Nat) (enough : (list.length + 1) * list.length ≤ turns) :
    mergeByThread squares squareText system turns list state ≠ .ok none ∧
    (∀ listPost after, mergeByThread squares squareText system turns list state = .ok (some (listPost,after)) →
      GroupedByPid squares squareText system state.r.profile.extraCost.toNat (keyGroups reportPid list) listPost) ∧
    ((keyGroups reportPid list).map fun group => reportPid group.1).Nodup ∧
    (∀ report ∈ list, ∃ group ∈ keyGroups reportPid list, reportPid group.1 = reportPid report) ∧
    ∀ group ∈ keyGroups reportPid list, group.1 :: group.2 = list.filter fun report => reportPid group.1 = reportPid report := by
  have members : ∀ group ∈ keyGroups reportPid list, ∀ member ∈ group.2, reportPid group.1 = reportPid member := by
    intro group found member inside
    have filtered : member ∈ list.filter fun report => reportPid group.1 = reportPid report :=
      keyGroups_filter group found ▸ List.mem_cons_of_mem _ inside
    exact of_decide_eq_true (List.mem_filter.mp filtered).2
  obtain ⟨distinct,covered⟩ := @keyGroups_keys _ _ _ reportPid list
  rw [mergeByThread_groups enough]
  refine ⟨?_,fun listPost after done => ?_,distinct,covered,keyGroups_filter⟩
  · split
    · rintro ⟨⟩
    · intro out
      obtain ⟨_,-,out⟩ := bind_ok.mp out
      cases out
  · split at done
    · next empty =>
      cases done
      rw [empty]
      unfold keyGroups
      rw [leaderGroups]
      exact .nil _
    · obtain ⟨last,handled,done⟩ := bind_ok.mp done
      cases done
      obtain ⟨reports,same,grouped⟩ := groups_by_pid _ rfl members handled
      rw [same]
      exact grouped

def threeReports : List Report :=
  [singleCallReport "logs/ls_12_0_1.aprof".toList,singleCallReport "logs/ls_13_0_1.aprof".toList,
    singleCallReport "logs/ls_12_1_1.aprof".toList]

/-- A shell in which `cp` with two words copies. -/
def copyingShell : System := fun cmd file =>
  match cmd.splitOn ' ' with
  | [program,_,_] => some (if program = "cp".toList then file else .unreadable)
  | _ => some .unreadable

theorem merge_by_thread_groups_three : ∃ listPost after,
    mergeByThread helperSquares decimal copyingShell 12 threeReports (startGrouping false false) = .ok (some (listPost,after)) ∧
    listPost.map Report.name = ["logs/merge_by_pid/ls_12_0_1.aprof".toList,"logs/merge_by_pid/ls_13_0_1.aprof".toList] ∧
    GroupedByPid helperSquares decimal copyingShell 0 (keyGroups reportPid threeReports) listPost := by
  obtain ⟨-,grouped,-⟩ := merge_by_thread_groups helperSquares decimal copyingShell threeReports (startGrouping false false) 12 (by decide)
  exact ⟨_,_,rfl,rfl,grouped _ _ rfl⟩

end Aprof.Helper
