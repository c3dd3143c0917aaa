import Aprof.Contexts

/-! The lines of a report about the calling context tree. `print_report_CCT` walks
the tree from its root; a tree only grows while a run goes on. -/
namespace Aprof

/-- An `x` line; the parent's id is printed as -1 when it is 0. -/
structure ContextLine where
  routineId : UInt64
  contextId : UInt32
  parentId : UInt32
  deriving DecidableEq

def contextLine (root : List CCTNode) (node : Nat) (parentId : UInt32) : ContextLine :=
  ⟨(cctNode root node).routineId,(cctNode root node).contextId,parentId⟩

/-- `print_report_CCT`. A tree is no deeper than it has nodes. -/
def printReportCCT (root : List CCTNode) : Nat → Nat → UInt32 → List ContextLine
  | 0, _, _ => []
  | depth + 1, node, parentId =>
    (if (cctNode root node).contextId > 0 then [contextLine root node parentId] else []) ++
      (cctNode root node).children.flatMap fun child =>
        printReportCCT root depth child (cctNode root node).contextId

def contextLines (root : List CCTNode) : List ContextLine := printReportCCT root root.length 0 0

def walk (root : List CCTNode) : Nat → Nat → List Nat
  | 0, _ => []
  | depth + 1, node => node :: (cctNode root node).children.flatMap (walk root depth)

section
variable {root : List CCTNode} {node : Nat} {ids : List UInt64}

theorem walk_path (path : PathTo root node ids) (depth : Nat) {visited : Nat} (member : visited ∈ walk root depth node) :
    ∃ more, PathTo root visited (more ++ ids) := by
  induction depth generalizing node ids with
  | zero => cases member
  | succ depth ih =>
    rcases List.mem_cons.mp member with rfl | inside
    · exact ⟨[],path⟩
    · obtain ⟨child,linked,inside⟩ := List.mem_flatMap.mp inside
      obtain ⟨more,below⟩ := ih (.child path linked) inside
      exact ⟨more ++ [(cctNode root child).routineId],by rwa [List.append_assoc]⟩

theorem walk_nodup (tree : ContextTree root) (path : PathTo root node ids) (depth : Nat) : (walk root depth node).Nodup := by
  induction depth generalizing node ids with
  | zero => exact List.nodup_nil
  | succ depth ih =>
    refine List.nodup_cons.mpr ⟨?_,List.nodup_flatMap.mpr ⟨fun child linked => ih (.child path linked),?_⟩⟩
    · intro again
      obtain ⟨child,linked,inside⟩ := List.mem_flatMap.mp again
      obtain ⟨more,below⟩ := walk_path (.child path linked) depth inside
      have longer := congrArg List.length (below.unique tree path)
      simp only [List.length_append,List.length_cons] at longer
      omega
    · have siblings := List.pairwise_map.mp (tree.siblings node)
      refine List.Pairwise.imp_of_mem ?_ siblings
      intro first second linked linked' different
      refine List.disjoint_left.mpr fun visited inside inside' => different ?_
      obtain ⟨more,below⟩ := walk_path (.child path linked) depth inside
      obtain ⟨more',below'⟩ := walk_path (.child path linked') depth inside'
      have same := below.unique tree below'
      have tails := List.append_inj_right' same (by simp)
      exact (List.cons.inj tails).1

theorem walk_child (tree : ContextTree root) {depth child visited : Nat} (deep : root.length ≤ depth + node)
    (member : visited ∈ walk root depth node) (linked : child ∈ (cctNode root visited).children) :
    child ∈ walk root depth node := by
  induction depth generalizing node with
  | zero => cases member
  | succ depth ih =>
    rcases List.mem_cons.mp member with rfl | inside
    · have below := tree.below _ _ linked
      obtain ⟨more,rfl⟩ : ∃ more, depth = more + 1 := ⟨depth - 1,by omega⟩
      exact List.mem_cons_of_mem _ (List.mem_flatMap.mpr ⟨child,linked,List.mem_cons_self⟩)
    · obtain ⟨first,above,inside⟩ := List.mem_flatMap.mp inside
      have below := tree.below _ _ above
      exact List.mem_cons_of_mem _ (List.mem_flatMap.mpr ⟨first,above,ih (by omega) inside⟩)

theorem walk_all (tree : ContextTree root) (path : PathTo root node ids) : node ∈ walk root root.length 0 := by
  have nonempty := tree.nonempty
  induction path with
  | root =>
    obtain ⟨depth,deep⟩ : ∃ depth, root.length = depth + 1 := ⟨root.length - 1,by omega⟩
    rw [deep]
    exact List.mem_cons_self
  | child path linked ih => exact walk_child tree (Nat.le_refl _) ih linked

theorem printReportCCT_ids (depth : Nat) (parentId : UInt32) :
    (printReportCCT root depth node parentId).map ContextLine.contextId =
      ((walk root depth node).map fun visited => (cctNode root visited).contextId).filter (· > 0) := by
  induction depth generalizing node parentId with
  | zero => rfl
  | succ depth ih =>
    have below : (((cctNode root node).children.flatMap fun child =>
        printReportCCT root depth child (cctNode root node).contextId).map ContextLine.contextId) =
        (((cctNode root node).children.flatMap (walk root depth)).map fun visited =>
          (cctNode root visited).contextId).filter (· > 0) := by
      induction (cctNode root node).children with
      | nil => rfl
      | cons child children more =>
        simp only [List.flatMap_cons,List.map_append,List.filter_append,ih,more]
    unfold printReportCCT walk
    rw [List.map_append,List.map_cons,List.filter_cons,below]
    by_cases named : (cctNode root node).contextId > 0
    · rw [if_pos named,if_pos (by simpa using named)]
      rfl
    · rw [if_neg named,if_neg (by simpa using named)]
      rfl

theorem printReportCCT_child (tree : ContextTree root) {depth child visited : Nat} {parentId : UInt32}
    (deep : root.length ≤ depth + node) (member : visited ∈ walk root depth node)
    (linked : child ∈ (cctNode root visited).children) (named : (cctNode root child).contextId > 0) :
    contextLine root child (cctNode root visited).contextId ∈ printReportCCT root depth node parentId := by
  induction depth generalizing node parentId with
  | zero => cases member
  | succ depth ih =>
    unfold printReportCCT
    refine List.mem_append_right _ (List.mem_flatMap.mpr ?_)
    rcases List.mem_cons.mp member with rfl | inside
    · have below := tree.below _ _ linked
      obtain ⟨more,rfl⟩ : ∃ more, depth = more + 1 := ⟨depth - 1,by omega⟩
      refine ⟨child,linked,?_⟩
      unfold printReportCCT
      rw [if_pos named]
      exact List.mem_cons_self
    · obtain ⟨first,above,inside⟩ := List.mem_flatMap.mp inside
      have below := tree.below _ _ above
      exact ⟨first,above,ih (by omega) inside⟩

end

/-- What the `x` lines of a report promise: no context id stands on two lines, and
every context of the tree has a line with its routine and its parent. -/
structure LinesStand (root : List CCTNode) : Prop where
  distinct : ((contextLines root).map ContextLine.contextId).Nodup
  complete : ∀ parent ids node, PathTo root parent ids → node ∈ (cctNode root parent).children →
    contextLine root node (cctNode root parent).contextId ∈ contextLines root

theorem linesStand {root : List CCTNode} (tree : ContextTree root)
    (numbered : ∀ node, node < root.length → (cctNode root node).contextId.toNat = node) : LinesStand root := by
  refine ⟨?_,?_⟩
  · rw [contextLines,printReportCCT_ids]
    refine List.Nodup.filter _ ?_
    refine List.Nodup.map_on ?_ (walk_nodup tree .root _)
    intro first inside second inside' same
    obtain ⟨_,path⟩ := walk_path .root _ inside
    obtain ⟨_,path'⟩ := walk_path .root _ inside'
    rw [← numbered first (path.bound tree),← numbered second (path'.bound tree),same]
  · intro parent ids node path linked
    have below := tree.below _ _ linked
    refine printReportCCT_child tree (Nat.le_refl _) (walk_all tree path) linked ?_
    rw [gt_iff_lt,UInt32.lt_iff_toNat_lt,numbered node below.2]
    exact Nat.lt_of_le_of_lt (Nat.zero_le _) below.1

/-- Nodes stay in the tree with their ids, and children with their parents. -/
structure Grows (root grown : List CCTNode) : Prop where
  contexts : ∀ node ids, PathTo root node ids →
    PathTo grown node ids ∧ (cctNode grown node).contextId = (cctNode root node).contextId

theorem Grows.refl (root : List CCTNode) : Grows root root := ⟨fun _ _ path => ⟨path,rfl⟩⟩

theorem Grows.trans {root middle grown : List CCTNode} (first : Grows root middle) (second : Grows middle grown) :
    Grows root grown := by
  refine ⟨fun node ids path => ?_⟩
  obtain ⟨path',same⟩ := first.contexts node ids path
  obtain ⟨path'',same'⟩ := second.contexts node ids path'
  exact ⟨path'',same'.trans same⟩

theorem cctNode_inside {root : List CCTNode} {node : Nat} (inside : node < root.length) (parent : Nat) (fresh : CCTNode) :
    cctNode (addChild root parent fresh) node =
      if node = parent then {cctNode root node with children := root.length :: (cctNode root node).children}
      else cctNode root node := by
  unfold cctNode addChild
  rw [List.getD_eq_getElem?_getD,List.getD_eq_getElem?_getD,List.getElem?_append,List.length_modify,if_pos inside,
    List.getElem?_modify]
  by_cases same : node = parent
  · subst same
    simp [List.getElem?_eq_getElem inside]
  · rw [if_neg same]
    simp [Ne.symm same]

theorem Grows.add {root : List CCTNode} (tree : ContextTree root) (parent : Nat) (fresh : CCTNode) :
    Grows root (addChild root parent fresh) := by
  have paths : ∀ node ids, PathTo root node ids → PathTo (addChild root parent fresh) node ids := by
    intro node ids path
    induction path with
    | root => exact .root
    | @child above node ids path linked ih =>
      have below := tree.below above node linked
      have same : (cctNode (addChild root parent fresh) node).routineId = (cctNode root node).routineId := by
        rw [cctNode_inside below.2]
        split <;> rfl
      rw [← same]
      refine .child ih ?_
      rw [cctNode_inside (by omega)]
      split
      · exact List.mem_cons_of_mem _ linked
      · exact linked
  refine ⟨fun node ids path => ⟨paths node ids path,?_⟩⟩
  rw [cctNode_inside (path.bound tree)]
  split <;> rfl

theorem enterContext_grows {tdata : ThreadData} {root : List CCTNode} (own : tdata.root = root)
    (tree : ContextTree root) : Grows root (enterContext tdata).root := by
  subst own
  unfold enterContext
  dsimp only
  split
  · exact .refl _
  · exact .add tree _ _

theorem enterRecorded_grows (cfg : Config) {tdata : ThreadData} {root : List CCTNode} (own : tdata.root = root)
    (tree : ContextTree root) : Grows root (enterRecorded cfg tdata).root := by
  subst own
  unfold enterRecorded
  dsimp only
  split
  · exact enterContext_grows rfl tree
  · exact .refl _

end Aprof
