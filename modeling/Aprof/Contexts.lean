import Aprof.Routines
import Aprof.ThreadRuns

/-! The calling context tree of a thread. A node stands for the recorded calls on
the way to it, as long as no discarded function runs in a slot where an earlier
activation has left its node. -/
namespace Aprof

/-- The routine ids on the way from a node up to the root. -/
inductive PathTo (root : List CCTNode) : Nat → List UInt64 → Prop where
  | root : PathTo root 0 []
  | child {parent node : Nat} {ids : List UInt64} (path : PathTo root parent ids)
      (linked : node ∈ (cctNode root parent).children) : PathTo root node ((cctNode root node).routineId :: ids)

def childIds (root : List CCTNode) (parent : Nat) : List UInt64 :=
  (cctNode root parent).children.map fun node => (cctNode root node).routineId

structure ContextTree (root : List CCTNode) : Prop where
  nonempty : 0 < root.length
  below : ∀ parent node, node ∈ (cctNode root parent).children → parent < node ∧ node < root.length
  parent : ∀ parent other node, node ∈ (cctNode root parent).children → node ∈ (cctNode root other).children →
    parent = other
  siblings : ∀ parent, (childIds root parent).Nodup

section
variable {root : List CCTNode} {parent node : Nat} {ids : List UInt64} {fresh : CCTNode}

theorem PathTo.bound (tree : ContextTree root) (path : PathTo root node ids) : node < root.length := by
  cases path with
  | root => exact tree.nonempty
  | child path linked => exact (tree.below _ _ linked).2

theorem PathTo.unique (tree : ContextTree root) (path : PathTo root node ids) {other : List UInt64}
    (path' : PathTo root node other) : ids = other := by
  induction path generalizing other with
  | root =>
    cases path' with
    | root => rfl
    | child path linked => exact absurd (tree.below _ _ linked).1 (Nat.not_lt_zero _)
  | child path linked ih =>
    cases path' with
    | root => exact absurd (tree.below _ _ linked).1 (Nat.not_lt_zero _)
    | child path' linked' =>
      obtain rfl := tree.parent _ _ _ linked linked'
      rw [ih path']

theorem PathTo.step {id : UInt64} (path : PathTo root node (id :: ids)) :
    ∃ parent, PathTo root parent ids ∧ node ∈ (cctNode root parent).children := by
  generalize same : id :: ids = whole at path
  cases path with
  | root => cases same
  | @child parent _ above path linked =>
    obtain rfl : ids = above := (List.cons.inj same).2
    exact ⟨parent,path,linked⟩

theorem PathTo.root_only (path : PathTo root node []) : node = 0 := by
  generalize same : ([] : List UInt64) = whole at path
  cases path with
  | root => rfl
  | child path linked => cases same

/-- A new node in front of the children of `parent`. -/
def addChild (root : List CCTNode) (parent : Nat) (fresh : CCTNode) : List CCTNode :=
  (root.modify parent fun node => {node with children := root.length :: node.children}) ++ [fresh]

theorem cctNode_addChild (bound : parent < root.length) (node : Nat) : cctNode (addChild root parent fresh) node =
    if node = root.length then fresh
    else if node = parent then {cctNode root parent with children := root.length :: (cctNode root parent).children}
    else cctNode root node := by
  unfold cctNode addChild
  rw [List.getD_eq_getElem?_getD,List.getD_eq_getElem?_getD,List.getD_eq_getElem?_getD,List.getElem?_append,
    List.length_modify]
  rcases Nat.lt_trichotomy node root.length with inside | rfl | outside
  · rw [if_pos inside,if_neg (by omega),List.getElem?_modify]
    by_cases same : node = parent
    · subst same
      simp [List.getElem?_eq_getElem inside]
    · rw [if_neg same]
      simp [Ne.symm same]
  · simp
  · rw [if_neg (by omega),if_neg (by omega),if_neg (by omega)]
    have none : ([fresh] : List CCTNode)[node - root.length]? = none := List.getElem?_eq_none (by simp; omega)
    rw [none,List.getElem?_eq_none (by omega)]

theorem addChild_length : (addChild root parent fresh).length = root.length + 1 := by simp [addChild]

theorem addChild_routineId (bound : parent < root.length) (inside : node < root.length) :
    (cctNode (addChild root parent fresh) node).routineId = (cctNode root node).routineId := by
  rw [cctNode_addChild bound,if_neg (by omega)]
  split
  · next same => rw [same]
  · rfl

theorem mem_addChild (bound : parent < root.length) (leaf : fresh.children = []) {other : Nat} :
    node ∈ (cctNode (addChild root parent fresh) other).children ↔
      (other = parent ∧ node = root.length) ∨ (other ≠ root.length ∧ node ∈ (cctNode root other).children) := by
  rw [cctNode_addChild bound]
  by_cases last : other = root.length
  · rw [if_pos last,leaf]
    simp only [List.not_mem_nil,last,ne_eq,not_true_eq_false,false_and,or_false,false_iff,not_and]
    intro same
    omega
  · rw [if_neg last]
    by_cases same : other = parent
    · subst same
      simp [last]
    · rw [if_neg same]
      simp [last,same]

theorem ContextTree.add (tree : ContextTree root) (bound : parent < root.length) (leaf : fresh.children = [])
    (absent : fresh.routineId ∉ childIds root parent) : ContextTree (addChild root parent fresh) := by
  have inside : ∀ other node, node ∈ (cctNode root other).children → other < root.length ∧ node < root.length := by
    intro other node member
    have below := tree.below other node member
    omega
  have kept : ∀ other, ((cctNode root other).children.map fun node =>
      (cctNode (addChild root parent fresh) node).routineId) = childIds root other := by
    intro other
    apply List.map_congr_left
    intro node member
    exact addChild_routineId bound (inside other node member).2
  refine ⟨by rw [addChild_length]; exact Nat.succ_pos _,?_,?_,?_⟩
  · intro other node member
    rw [addChild_length]
    rcases (mem_addChild bound leaf).mp member with ⟨rfl,rfl⟩ | ⟨-,member⟩
    · omega
    · have below := tree.below other node member
      omega
  · intro first second node member member'
    rcases (mem_addChild bound leaf).mp member with ⟨rfl,rfl⟩ | ⟨-,old⟩
    · rcases (mem_addChild bound leaf).mp member' with ⟨rfl,-⟩ | ⟨-,old'⟩
      · rfl
      · exact absurd (inside _ _ old').2 (Nat.lt_irrefl _)
    · rcases (mem_addChild bound leaf).mp member' with ⟨rfl,rfl⟩ | ⟨-,old'⟩
      · exact absurd (inside _ _ old).2 (Nat.lt_irrefl _)
      · exact tree.parent _ _ _ old old'
  · intro other
    unfold childIds
    rw [cctNode_addChild bound other]
    split
    · rw [leaf]
      exact List.nodup_nil
    · split
      · next same =>
        subst same
        rw [List.map_cons,kept,cctNode_addChild bound,if_pos rfl]
        exact List.nodup_cons.mpr ⟨absent,tree.siblings other⟩
      · rw [kept]
        exact tree.siblings other

theorem PathTo.add (tree : ContextTree root) (bound : parent < root.length) (leaf : fresh.children = [])
    (path : PathTo root node ids) : PathTo (addChild root parent fresh) node ids := by
  induction path with
  | root => exact .root
  | @child above node ids path linked ih =>
    have below := tree.below above node linked
    rw [← @addChild_routineId _ _ _ fresh bound below.2]
    exact .child ih ((mem_addChild bound leaf).mpr (Or.inr ⟨by omega,linked⟩))

theorem PathTo.added (tree : ContextTree root) (leaf : fresh.children = []) (path : PathTo root parent ids) :
    PathTo (addChild root parent fresh) root.length (fresh.routineId :: ids) := by
  have bound := path.bound tree
  have linked : root.length ∈ (cctNode (addChild root parent fresh) parent).children :=
    (mem_addChild bound leaf).mpr (Or.inl ⟨rfl,rfl⟩)
  have step := PathTo.child (path.add tree bound leaf) linked
  rwa [cctNode_addChild bound,if_pos rfl] at step

end

/-- The ids of the slots below `d` that have one, the innermost first. -/
def contextIds (slot : Nat → Option UInt64) : Nat → List UInt64
  | 0 => []
  | d + 1 => match slot d with
    | none => contextIds slot d
    | some id => id :: contextIds slot d

/-- The routine id of a pending activation, unless its function is discarded. -/
def slotId (cfg : Config) (tdata : ThreadData) (i : Nat) : Option UInt64 :=
  if (cfg.fn (tdata.stack i).routineInfo).discard then none
  else some (tdata.routine (tdata.stack i).routineInfo).routineId

/-- The node of the innermost activation below slot `d` whose function is not
discarded, the root when there is none. -/
def enclosingNode (cfg : Config) (tdata : ThreadData) : Nat → Nat
  | 0 => 0
  | d + 1 => if (cfg.fn (tdata.stack d).routineInfo).discard then enclosingNode cfg tdata d
    else ((tdata.stack d).node).getD 0

/-- The discarded activations above that one hold no node of another context: the
slots of the discarded functions are not cleared when they are entered. -/
def CleanBelow (cfg : Config) (tdata : ThreadData) : Nat → Prop
  | 0 => True
  | d + 1 => (cfg.fn (tdata.stack d).routineInfo).discard = true → match (tdata.stack d).node with
    | none => CleanBelow cfg tdata d
    | some node => node = enclosingNode cfg tdata d

/-- What a call is to find: clean slots below, and a context id left in 32 bits. -/
def EntersClean (cfg : Config) (tdata : ThreadData) (f : FnPtr) : Prop :=
  tdata.skip = 0 → (cfg.fn f).skip = false → (cfg.fn f).discard = false →
    CleanBelow cfg tdata tdata.stackDepth ∧ tdata.nextContextId.toNat < 2 ^ 32

def decideClean (cfg : Config) (tdata : ThreadData) : ∀ d, Decidable (CleanBelow cfg tdata d)
  | 0 => isTrue trivial
  | d + 1 =>
    have : Decidable (match (tdata.stack d).node with
        | none => CleanBelow cfg tdata d
        | some node => node = enclosingNode cfg tdata d) := by
      cases (tdata.stack d).node with
      | none => exact decideClean cfg tdata d
      | some node => exact inferInstanceAs (Decidable (node = enclosingNode cfg tdata d))
    inferInstanceAs (Decidable ((cfg.fn (tdata.stack d).routineInfo).discard = true → _))

instance (cfg : Config) (tdata : ThreadData) (f : FnPtr) : Decidable (EntersClean cfg tdata f) :=
  have := decideClean cfg tdata
  inferInstanceAs (Decidable (_ → _ → _ → _ ∧ _))

theorem contextIds_congr {slot slot' : Nat → Option UInt64} {d : Nat} (same : ∀ i, i < d → slot' i = slot i) :
    contextIds slot' d = contextIds slot d := by
  induction d with
  | zero => rfl
  | succ d ih =>
    simp only [contextIds,same d (Nat.lt_succ_self d),ih fun i bound => same i (Nat.lt_succ_of_lt bound)]

/-- The part of a slot that the context tree depends on. -/
structure SameSlots (tdata after : ThreadData) (n : Nat) : Prop where
  routines : ∀ i, i < n → (after.stack i).routineInfo = (tdata.stack i).routineInfo
  nodes : ∀ i, i < n → (after.stack i).node = (tdata.stack i).node

section
variable {cfg : Config} {tdata after : ThreadData} {n d : Nat}

theorem SameSlots.enclosing (same : SameSlots tdata after n) (le : d ≤ n) :
    enclosingNode cfg after d = enclosingNode cfg tdata d := by
  induction d with
  | zero => rfl
  | succ d ih =>
    simp only [enclosingNode,same.routines d le,same.nodes d le,ih (Nat.le_of_succ_le le)]

theorem SameSlots.clean (same : SameSlots tdata after n) (le : d ≤ n) (clean : CleanBelow cfg tdata d) :
    CleanBelow cfg after d := by
  induction d with
  | zero => exact clean
  | succ d ih =>
    intro discard
    rw [same.routines d le] at discard
    have below := clean discard
    rw [same.nodes d le,same.enclosing (Nat.le_of_succ_le le)]
    split at below
    · exact ih (Nat.le_of_succ_le le) below
    · exact below

/-- The tree and the nodes of the lowest `n` slots. -/
structure Contexts (cfg : Config) (tdata : ThreadData) (n : Nat) : Prop where
  tree : ContextTree tdata.root
  next : tdata.nextContextId.toNat = tdata.root.length
  few : tdata.root.length ≤ 2 ^ 32
  ids : ∀ node, node < tdata.root.length → (cctNode tdata.root node).contextId.toNat = node
  keyed : tdata.rtnHt.Keyed
  registered : ∀ i, i < tdata.stackDepth → (htFind tdata.rtnHt (tdata.stack i).routineInfo fun _ => true).isSome = true
  nodes : ∀ i, i < n → (cfg.fn (tdata.stack i).routineInfo).discard = false →
    ∃ node, (tdata.stack i).node = some node ∧ PathTo tdata.root node (contextIds (slotId cfg tdata) (i + 1))

theorem slotId_congr {i : Nat} (routine : (after.stack i).routineInfo = (tdata.stack i).routineInfo)
    (id : (htFind after.rtnHt (tdata.stack i).routineInfo fun _ => true).map RoutineInfo.routineId =
      (htFind tdata.rtnHt (tdata.stack i).routineInfo fun _ => true).map RoutineInfo.routineId) :
    slotId cfg after i = slotId cfg tdata i := by
  simp only [slotId,routine,routineId_project,id]

theorem Contexts.same (contexts : Contexts cfg tdata n) {m : Nat} (le : m ≤ n) (root : after.root = tdata.root)
    (next : after.nextContextId = tdata.nextContextId) (keyed : after.rtnHt.Keyed)
    (registered : ∀ i, i < after.stackDepth → (htFind after.rtnHt (after.stack i).routineInfo fun _ => true).isSome = true)
    (slots : SameSlots tdata after m) (ids : ∀ i, i < m → slotId cfg after i = slotId cfg tdata i) :
    Contexts cfg after m := by
  refine ⟨by rw [root]; exact contexts.tree,by rw [root,next]; exact contexts.next,by rw [root]; exact contexts.few,
    by rw [root]; exact contexts.ids,keyed,registered,?_⟩
  intro i bound plain
  rw [slots.routines i bound] at plain
  obtain ⟨node,stored,path⟩ := contexts.nodes i (by omega) plain
  refine ⟨node,by rw [slots.nodes i bound,stored],?_⟩
  rw [root,contextIds_congr fun j below => ids j (by omega)]
  exact path

theorem Contexts.kept (contexts : Contexts cfg tdata n) {m : Nat} (le : m ≤ n) (inside : n ≤ tdata.stackDepth)
    (root : after.root = tdata.root) (next : after.nextContextId = tdata.nextContextId)
    (routines : RoutinesKept tdata after) (depth : after.stackDepth ≤ tdata.stackDepth)
    (slots : SameSlots tdata after tdata.stackDepth) : Contexts cfg after m := by
  obtain ⟨keyed,same⟩ := routines contexts.keyed
  refine contexts.same le root next keyed ?_ ⟨fun i bound => slots.routines i (by omega),
    fun i bound => slots.nodes i (by omega)⟩ fun i bound => slotId_congr (slots.routines i (by omega)) (same _)
  intro i bound
  rw [slots.routines i (by omega),← Option.isSome_map,same,Option.isSome_map]
  exact contexts.registered i (by omega)

theorem Contexts.enclosing (contexts : Contexts cfg tdata n) (le : d ≤ n) :
    PathTo tdata.root (enclosingNode cfg tdata d) (contextIds (slotId cfg tdata) d) := by
  induction d with
  | zero => exact .root
  | succ d ih =>
    unfold enclosingNode
    split
    · next discard =>
      have none : slotId cfg tdata d = none := if_pos discard
      simp only [contextIds,none]
      exact ih (Nat.le_of_succ_le le)
    · next plain =>
      obtain ⟨node,stored,path⟩ := contexts.nodes d le (by simpa using plain)
      rw [stored]
      exact path

/-- Slots are clean where `parent_CCT` finds the enclosing function in them. -/
theorem cleanBelow_of_parent (found : parentNode tdata d = enclosingNode cfg tdata d) : CleanBelow cfg tdata d := by
  induction d with
  | zero => trivial
  | succ d ih =>
    intro discard
    unfold parentNode enclosingNode at found
    rw [if_pos discard] at found
    split
    · next empty =>
      rw [empty] at found
      exact ih found
    · next node stored =>
      rw [stored] at found
      exact found

theorem Contexts.parent (contexts : Contexts cfg tdata n) (le : d ≤ n) (clean : CleanBelow cfg tdata d) :
    parentNode tdata d = enclosingNode cfg tdata d := by
  induction d with
  | zero => rfl
  | succ d ih =>
    unfold parentNode enclosingNode
    split
    · next node stored =>
      split
      · next discard =>
        have same := clean discard
        rw [stored] at same
        exact same
      · rw [stored]
        rfl
    · next empty =>
      split
      · next discard =>
        have below := clean discard
        rw [empty] at below
        exact ih (Nat.le_of_succ_le le) below
      · next plain =>
        obtain ⟨node,stored,_⟩ := contexts.nodes d le (by simpa using plain)
        rw [empty] at stored
        cases stored

theorem Contexts.clean_iff (contexts : Contexts cfg tdata n) (le : d ≤ n) :
    CleanBelow cfg tdata d ↔ parentNode tdata d = enclosingNode cfg tdata d := ⟨contexts.parent le,cleanBelow_of_parent⟩

theorem Contexts.grow (contexts : Contexts cfg tdata n) (slots : SameSlots tdata after n) {parent : Nat}
    {id : UInt64} (bound : parent < tdata.root.length) (absent : id ∉ childIds tdata.root parent)
    (room : tdata.nextContextId.toNat < 2 ^ 32)
    (root : after.root = addChild tdata.root parent ⟨[],id,tdata.nextContextId.toUInt32⟩)
    (next : after.nextContextId = tdata.nextContextId + 1) (table : after.rtnHt = tdata.rtnHt)
    (depth : after.stackDepth = tdata.stackDepth)
    (routines : ∀ i, (after.stack i).routineInfo = (tdata.stack i).routineInfo) : Contexts cfg after n := by
  have counted := contexts.next
  refine ⟨by rw [root]; exact contexts.tree.add bound rfl absent,?_,?_,?_,by rw [table]; exact contexts.keyed,?_,?_⟩
  · rw [next,root,addChild_length,UInt64.toNat_add,counted,UInt64.toNat_one]
    omega
  · rw [root,addChild_length]
    omega
  · intro node inside
    rw [root,addChild_length] at inside
    rw [root,cctNode_addChild bound]
    split
    · next last =>
      rw [last,UInt64.toNat_toUInt32,counted]
      omega
    · split
      · next same =>
        rw [same]
        exact contexts.ids parent bound
      · exact contexts.ids node (by omega)
  · intro i inside
    rw [routines,table]
    exact contexts.registered i (by omega)
  · intro i below plain
    rw [routines] at plain
    obtain ⟨node,stored,path⟩ := contexts.nodes i below plain
    refine ⟨node,by rw [slots.nodes i below,stored],?_⟩
    have ids : slotId cfg after = slotId cfg tdata := by
      ext1 j
      exact slotId_congr (routines j) (by rw [table])
    rw [root,ids]
    exact path.add contexts.tree bound rfl

/-- `function_enter` finds or makes the child of the enclosing context. -/
theorem Contexts.enter (contexts : Contexts cfg tdata n) (top : tdata.stackDepth = n + 1)
    (plain : (cfg.fn (tdata.stack n).routineInfo).discard = false) (clean : CleanBelow cfg tdata n)
    (room : tdata.nextContextId.toNat < 2 ^ 32) : Contexts cfg (enterContext tdata) (n + 1) := by
  have slot : tdata.top = tdata.stack n := by rw [ThreadData.top,top,Nat.add_sub_cancel]
  have parent : parentCCT tdata = enclosingNode cfg tdata n := by
    rw [parentCCT,top,Nat.add_sub_cancel]
    exact contexts.parent (Nat.le_refl n) clean
  have path := contexts.enclosing (Nat.le_refl n)
  have own : slotId cfg tdata n = some (tdata.routine tdata.top.routineInfo).routineId := by
    rw [slot]
    exact if_neg (by simp [plain])
  have ids : contextIds (slotId cfg tdata) (n + 1) =
      (tdata.routine tdata.top.routineInfo).routineId :: contextIds (slotId cfg tdata) n := by
    simp only [contextIds,own]
  have bound := path.bound contexts.tree
  unfold enterContext
  rw [parent]
  generalize (tdata.routine tdata.top.routineInfo).routineId = id at ids ⊢
  generalize enclosingNode cfg tdata n = parent at path bound ⊢
  -- the slots but for the node of the new one
  have stored : ∀ (base : ThreadData) (node : Nat), base.stack = tdata.stack → base.stackDepth = n + 1 →
      SameSlots tdata (base.setTop fun act => {act with node := some node}) n ∧
      (∀ i, ((base.setTop fun act => {act with node := some node}).stack i).routineInfo = (tdata.stack i).routineInfo) ∧
      ((base.setTop fun act => {act with node := some node}).stack n).node = some node := by
    intro base node stack height
    have update : (base.setTop fun act => {act with node := some node}).stack =
        Function.update tdata.stack n {tdata.stack n with node := some node} := by
      simp only [ThreadData.setTop,ThreadData.setSlot,height,Nat.add_sub_cancel,stack]
    rw [update]
    refine ⟨⟨fun i below => ?_,fun i below => ?_⟩,fun i => ?_,by rw [Function.update_self]⟩
    · rw [update,Function.update_of_ne (Nat.ne_of_lt below)]
    · rw [update,Function.update_of_ne (Nat.ne_of_lt below)]
    · rw [Function.update_apply]
      split
      · next same => rw [same]
      · rfl
  have extend : ∀ (after : ThreadData) (node : Nat), Contexts cfg after n → (after.stack n).node = some node →
      slotId cfg after = slotId cfg tdata → PathTo after.root node (contextIds (slotId cfg tdata) (n + 1)) →
      Contexts cfg after (n + 1) := by
    intro after node lower found same path
    refine ⟨lower.tree,lower.next,lower.few,lower.ids,lower.keyed,lower.registered,?_⟩
    intro i below plain'
    rcases Nat.lt_succ_iff_lt_or_eq.mp below with inside | rfl
    · exact lower.nodes i inside plain'
    · rw [same]
      exact ⟨node,found,path⟩
  dsimp only
  split
  · next cnode found =>
    obtain ⟨slots,routines,node⟩ := stored tdata cnode rfl top
    have ids' : slotId cfg (tdata.setTop fun act => {act with node := some cnode}) = slotId cfg tdata := by
      ext1 i
      exact slotId_congr (routines i) rfl
    refine extend _ cnode (contexts.same (Nat.le_refl n) rfl rfl contexts.keyed ?_ slots fun i _ => congrFun ids' i)
      node ids' ?_
    · intro i below
      rw [routines]
      exact contexts.registered i below
    · have linked := List.mem_of_find?_eq_some found
      have same : (cctNode tdata.root cnode).routineId = id := by simpa using List.find?_some found
      rw [ids,← same]
      exact .child path linked
  · next missing =>
    have absent : id ∉ childIds tdata.root parent := by
      intro member
      obtain ⟨node,inside,same⟩ := List.mem_map.mp member
      have different := List.find?_eq_none.mp missing node inside
      simp [same] at different
    obtain ⟨slots,routines,node⟩ := stored {tdata with
      root := addChild tdata.root parent ⟨[],id,tdata.nextContextId.toUInt32⟩
      nextContextId := tdata.nextContextId + 1} tdata.root.length rfl top
    have grown := contexts.grow slots bound absent room rfl rfl rfl rfl routines
    refine extend _ tdata.root.length grown node ?_ ?_
    · ext1 i
      exact slotId_congr (routines i) rfl
    · rw [ids]
      exact path.added contexts.tree rfl

end

section
variable {cfg : Config} {tdata : ThreadData} {n : Nat}

/-- The rest of `function_enter`, in slot `n`. -/
theorem Contexts.record (contexts : Contexts cfg tdata n) (collects : cfg.collectCCT = true)
    (top : tdata.stackDepth = n + 1)
    (permitted : (cfg.fn (tdata.stack n).routineInfo).discard = false →
      CleanBelow cfg tdata n ∧ tdata.nextContextId.toNat < 2 ^ 32) : Contexts cfg (enterRecorded cfg tdata) (n + 1) := by
  have slot : tdata.top = tdata.stack n := by rw [ThreadData.top,top,Nat.add_sub_cancel]
  let reset := (tdata.setRecursion tdata.top.routineInfo (· + 1)).setTop fun act => {act with
    sumChildrenCost := 0, inputSize := 0
    cumulSyscall := 0, cumulThread := 0, selfSyscall := 0, selfThread := 0}
  have slots : SameSlots tdata reset tdata.stackDepth := by
    refine ⟨fun i _ => ?_,fun i _ => ?_⟩
    · simp only [reset,ThreadData.setTop,ThreadData.setSlot,Function.update_apply]
      split
      · next same =>
        subst same
        rfl
      · rfl
    · simp only [reset,ThreadData.setTop,ThreadData.setSlot,Function.update_apply]
      split
      · next same =>
        subst same
        rfl
      · rfl
  have pending : RoutinesKept tdata (tdata.setRecursion tdata.top.routineInfo (· + 1)) :=
    routinesKept_setRoutine _ _ _ _ fun _ => rfl
  have routines : RoutinesKept tdata reset := pending.trans (.same rfl)
  have lower : Contexts cfg reset n :=
    contexts.kept (Nat.le_refl n) (by omega) rfl rfl routines (Nat.le_refl _) slots
  have called : (reset.stack n).routineInfo = tdata.top.routineInfo := by rw [slots.routines n (by omega),slot]
  rw [← slot] at permitted
  unfold enterRecorded
  dsimp only
  by_cases discard : (cfg.fn tdata.top.routineInfo).discard = true
  · rw [if_neg (by simp [discard])]
    refine ⟨lower.tree,lower.next,lower.few,lower.ids,lower.keyed,lower.registered,?_⟩
    intro i below plain
    rcases Nat.lt_succ_iff_lt_or_eq.mp below with inside | rfl
    · exact lower.nodes i inside plain
    · have same := called.symm ▸ discard
      exact absurd same (by simp [show (cfg.fn (reset.stack i).routineInfo).discard = false from plain])
  · have plain : (cfg.fn tdata.top.routineInfo).discard = false := by simpa using discard
    rw [if_pos (by simp [plain,collects])]
    obtain ⟨clean,room⟩ := permitted plain
    exact lower.enter top (called.symm ▸ plain)
      ((SameSlots.mk (fun i below => slots.routines i (by omega)) fun i below => slots.nodes i (by omega)).clean
        (Nat.le_refl n) clean) room

end

section
variable {cfg : Config} {tdata after : ThreadData}

structure ContextsKept (cfg : Config) (tdata : ThreadData) : Prop where
  counted : SkipCounted cfg tdata
  contexts : Contexts cfg tdata (recordedDepth cfg tdata)

theorem ContextsKept.fresh (tid : Nat) (shadow : LookupTable Nat) : ContextsKept cfg (newThread cfg tid shadow) := by
  have empty : ∀ node, (cctNode [⟨[],0,0⟩] node).children = [] := by
    intro node
    rcases node with _ | node <;> rfl
  have none : recordedDepth cfg (newThread cfg tid shadow) = 0 := rfl
  refine ⟨(Nat.count_zero _).symm,?_⟩
  rw [none]
  refine ⟨⟨Nat.one_pos,?_,?_,?_⟩,rfl,Nat.one_le_two_pow,?_,htConstruct_keyed,nofun,nofun⟩
  · intro parent node member
    have children := empty parent
    rw [show (newThread cfg tid shadow).root = [⟨[],0,0⟩] from rfl,children] at member
    cases member
  · intro parent other node member
    have children := empty parent
    rw [show (newThread cfg tid shadow).root = [⟨[],0,0⟩] from rfl,children] at member
    cases member
  · intro parent
    have children := empty parent
    rw [childIds,show (newThread cfg tid shadow).root = [⟨[],0,0⟩] from rfl,children]
    exact List.nodup_nil
  · intro node inside
    obtain rfl : node = 0 := Nat.lt_one_iff.mp inside
    rfl

theorem ContextsKept.still (kept : ContextsKept cfg tdata) (root : after.root = tdata.root)
    (next : after.nextContextId = tdata.nextContextId) (table : after.rtnHt = tdata.rtnHt)
    (depth : after.stackDepth = tdata.stackDepth) (skip : after.skip = tdata.skip)
    (slots : SameSlots tdata after tdata.stackDepth) : ContextsKept cfg after := by
  obtain ⟨counted,recorded⟩ := kept.counted.congr skip depth slots.routines
  refine ⟨counted,?_⟩
  rw [recorded]
  exact kept.contexts.kept (Nat.le_refl _) (recordedDepth_le cfg tdata) root next (.same table) (Nat.le_of_eq depth) slots

theorem ContextsKept.access (kept : ContextsKept cfg tdata) (same : after.control = tdata.control) :
    ContextsKept cfg after := by
  have fields := control_fields same
  exact kept.still fields.root fields.next fields.routines fields.depth fields.skip
    ⟨fun i _ => fields.routineInfo i,fun i _ => fields.node i⟩

theorem popShared_slots (cfg : Config) (shared : Shared) (tdata : ThreadData) (n : Nat) :
    SameSlots tdata (popShared cfg shared tdata).2 n := by
  refine ⟨fun i _ => popShared_routines cfg shared tdata i,fun i _ => ?_⟩
  rcases Nat.eq_zero_or_pos tdata.skip with recorded | skipping
  · obtain ⟨table,root,same⟩ := popShared_recorded cfg shared tdata recorded
    rw [same]
    simp only [afterExit]
    split
    · rw [Function.update_apply]
      split
      · next same =>
        rw [same]
        rfl
      · rfl
    · rfl
  · obtain ⟨table,root,same⟩ := popShared_skipped cfg shared tdata skipping
    rw [same]

/-- With a single report the thread is to find its own tree in the runtime. -/
def OwnTree (cfg : Config) (shared : Shared) (tdata : ThreadData) : Prop :=
  cfg.singleReport = true → shared.root = tdata.root

theorem OwnTree.separate (separate : cfg.singleReport = false) (shared : Shared) (tdata : ThreadData) :
    OwnTree cfg shared tdata := by
  intro single
  rw [separate] at single
  cases single

theorem popShared_tree {shared : Shared} (own : OwnTree cfg shared tdata) :
    (popShared cfg shared tdata).2.root = tdata.root ∧
      (popShared cfg shared tdata).2.nextContextId = tdata.nextContextId := by
  have attached : (attach cfg shared tdata).root = tdata.root ∧
      (attach cfg shared tdata).nextContextId = tdata.nextContextId := by
    unfold attach
    split
    · next single => exact ⟨own single,rfl⟩
    · exact ⟨rfl,rfl⟩
  have popped : (popShared cfg shared tdata).2 =
      {functionExit cfg (attach cfg shared tdata) with stackDepth := tdata.stackDepth - 1} := by
    unfold popShared
    dsimp only
    rw [exitShared_eq]
  have exits : ∀ base : ThreadData, (functionExit cfg base).root = base.root ∧
      (functionExit cfg base).nextContextId = base.nextContextId := by
    intro base
    rcases Nat.eq_zero_or_pos base.skip with recorded | skipping
    · obtain ⟨table,exited⟩ := functionExit_recorded cfg base recorded
      rw [exited]
      exact ⟨rfl,rfl⟩
    · rw [functionExit_skipped cfg base skipping]
      unfold exitSkipped
      split <;> exact ⟨rfl,rfl⟩
  rw [popped]
  exact ⟨(exits _).1.trans attached.1,(exits _).2.trans attached.2⟩

theorem ContextsKept.exit (kept : ContextsKept cfg tdata) {shared : Shared} (own : OwnTree cfg shared tdata)
    (nonempty : 0 < tdata.stackDepth) : ContextsKept cfg (popShared cfg shared tdata).2 := by
  obtain ⟨root,next⟩ := popShared_tree own
  have lower := popShared_recordedDepth kept.counted shared nonempty
  have all := kept.counted.recorded_iff
  have le := recordedDepth_le cfg tdata
  have lower' : recordedDepth cfg (popShared cfg shared tdata).2 ≤ recordedDepth cfg tdata := by
    rw [lower]
    split
    · next recorded =>
      have top := all.mp recorded
      omega
    · exact Nat.le_refl _
  refine ⟨popShared_counted kept.counted shared nonempty,?_⟩
  exact kept.contexts.kept lower' le root next (popShared_kept cfg shared tdata) (Nat.sub_le _ _)
    (popShared_slots cfg shared tdata _)

theorem Contexts.open {n : Nat} (contexts : Contexts cfg tdata n) (inside : n ≤ tdata.stackDepth)
    {pushed : ThreadData} {sp : UInt64} {f : FnPtr} (push : pushFrame cfg tdata sp f = .ok pushed) :
    Contexts cfg (enterStart pushed) n ∧ SameSlots tdata (enterStart pushed) tdata.stackDepth ∧
      ((enterStart pushed).stack tdata.stackDepth).routineInfo = f ∧
      (enterStart pushed).nextContextId = tdata.nextContextId := by
  obtain ⟨keyed,found,others⟩ := pushFrame_routines contexts.keyed push
  have opened := pushFrame_opened push
  have top : ((enterStart pushed).stack tdata.stackDepth).routineInfo = f := by
    have routine := pushFrame_routine push
    rwa [ThreadData.top,opened.more.depth,Nat.add_sub_cancel] at routine
  have slots : SameSlots tdata (enterStart pushed) tdata.stackDepth := by
    refine ⟨opened.more.below,fun i below => ?_⟩
    rw [opened.slots i (Nat.ne_of_lt below)]
  have tree : (enterStart pushed).root = tdata.root ∧ (enterStart pushed).nextContextId = tdata.nextContextId := by
    obtain ⟨size,table,next,rfl,-⟩ := pushFrame_ok push
    exact ⟨rfl,rfl⟩
  refine ⟨?_,slots,top,tree.2⟩
  refine contexts.same (Nat.le_refl n) tree.1 tree.2 keyed ?_ ⟨fun i below => slots.routines i (by omega),
    fun i below => slots.nodes i (by omega)⟩ fun i below => ?_
  · intro i below
    rw [opened.more.depth] at below
    rcases Nat.lt_succ_iff_lt_or_eq.mp below with lower | rfl
    · have known := contexts.registered i lower
      have same := congrArg Option.isSome (others _ known)
      rw [Option.isSome_map,Option.isSome_map,known] at same
      rw [slots.routines i lower]
      exact same
    · rw [top]
      exact found
  · exact slotId_congr (slots.routines i (by omega)) (others _ (contexts.registered i (by omega)))

theorem ContextsKept.enter (kept : ContextsKept cfg tdata) (collects : cfg.collectCCT = true) {shared : Shared}
    (own : OwnTree cfg shared tdata) {pushed : ThreadData} {sp : UInt64} {f : FnPtr}
    (permitted : EntersClean cfg tdata f) (push : pushFrame cfg tdata sp f = .ok pushed) :
    ContextsKept cfg (Levels.functionEnter cfg shared pushed).2 := by
  have inside := recordedDepth_le cfg tdata
  have opened := pushFrame_opened push
  obtain ⟨lower,slots,routine,next⟩ := kept.contexts.open inside push
  have counted : SkipCounted cfg (Levels.functionEnter cfg shared pushed).2 := by
    cases functionEnter_entered kept.counted shared push with
    | hidden counted => exact counted
    | recorded free counted => exact counted
  have height := functionEnter_depth shared push
  have flag : skipFlag cfg (enterStart pushed) tdata.stackDepth = (cfg.fn f).skip := by rw [skipFlag,routine]
  have called : (enterStart pushed).top.routineInfo = f := pushFrame_routine push
  refine ⟨counted,?_⟩
  unfold Levels.functionEnter at counted height ⊢
  dsimp only at counted height ⊢
  rw [called] at counted height ⊢
  by_cases skipped : (cfg.fn f).skip = true
  · rw [if_pos skipped]
    obtain ⟨-,depth⟩ := opened.hidden kept.counted (Or.inl (flag.trans skipped)) ((enterStart pushed).skip + 1)
      (by rw [flag,opened.skip,if_pos skipped])
    rw [depth]
    exact lower.kept (Nat.le_refl _) (by rw [opened.more.depth]; omega) rfl rfl (.same rfl) (Nat.le_refl _)
      ⟨fun _ _ => rfl,fun _ _ => rfl⟩
  · rw [if_neg skipped] at counted height ⊢
    by_cases skipping : (enterStart pushed).skip > 0
    · rw [if_pos skipping]
      obtain ⟨-,depth⟩ := opened.hidden kept.counted (Or.inr (by rw [← opened.skip]; exact skipping))
        (enterStart pushed).skip (by rw [flag,opened.skip,if_neg skipped]; rfl)
      have same : recordedDepth cfg (enterStart pushed) = recordedDepth cfg tdata := depth
      rw [same]
      exact lower
    · rw [if_neg skipping] at counted height ⊢
      have free : tdata.skip = 0 := by
        have same := opened.skip
        omega
      have all := kept.counted.recorded_iff.mp free
      rw [all] at lower
      have own : (enterShared cfg shared (enterStart pushed)).2 = enterRecorded cfg (enterStart pushed) := by
        obtain ⟨size,table,next,rfl,-⟩ := pushFrame_ok push
        unfold enterShared
        split
        · next single => rw [own single]; rfl
        · rfl
      have recorded : recordedDepth cfg (enterShared cfg shared (enterStart pushed)).2 = tdata.stackDepth + 1 := by
        rw [← height]
        refine counted.recorded_iff.mp ?_
        obtain ⟨_,_,_,_,same⟩ := enterShared_eq cfg shared (enterStart pushed)
        rw [same]
        exact opened.skip.trans free
      rw [recorded,own]
      exact lower.record collects opened.more.depth (fun plain => by
        rw [routine] at plain
        have permitted := permitted free (by simpa using skipped) plain
        rw [next]
        exact ⟨slots.clean (Nat.le_refl _) permitted.1,permitted.2⟩)

theorem ThreadRun.contexts (collects : cfg.collectCCT = true) (separate : cfg.singleReport = false) {tid : Nat}
    {log : ThreadLog} (life : ThreadRun cfg (EntersClean cfg) tid log tdata) : ContextsKept cfg tdata := by
  induction life with
  | fresh shadow => exact .fresh tid shadow
  | tick life ih => exact ih.still rfl rfl rfl rfl rfl ⟨fun _ _ => rfl,fun _ _ => rfl⟩
  | enter life shared sp f permitted push ih => exact ih.enter collects (.separate separate shared _) permitted push
  | exit life shared nonempty ih => exact ih.exit (.separate separate shared _) nonempty
  | access life same ih => exact ih.access same

end

section
variable {cfg : Config} {tdata : ThreadData}

theorem recordTuple_context (collects : cfg.collectCCT = true) {act : Activation} {context : UInt32}
    {cumul self : UInt64} {outermost : Bool} {inputMap : HashTable (Input UInt64)} {tuple : Input UInt64}
    (member : tuple ∈ (recordTuple cfg act context cumul self outermost inputMap).nodes) :
    tuple ∈ inputMap.nodes ∨ tuple.contextId = context.toUInt64 := by
  unfold recordTuple at member
  dsimp only at member
  split at member
  · rcases mem_htAddNode.mp member with rfl | old
    · right
      simp [accumulate,newTuple,collects]
    · exact Or.inl old
  · next found =>
    obtain ⟨before,after,split,changed⟩ :=
      @htUpdate_split _ _ _ _ _ (accumulate act cumul self outermost) (fun _ => rfl) _ found
    have wanted := (htFind_some found).2
    rw [changed] at member
    rw [split]
    simp only [List.mem_append,List.mem_cons] at member ⊢
    rcases member with inside | rfl | inside
    · exact Or.inl (Or.inl inside)
    · right
      simp only [collects,Bool.not_true,Bool.false_or,Bool.and_eq_true,beq_iff_eq] at wanted
      exact wanted.1
    · exact Or.inl (Or.inr (Or.inr inside))

theorem recordExit_context (collects : cfg.collectCCT = true) (keyed : tdata.rtnHt.Keyed)
    (known : (htFind tdata.rtnHt tdata.top.routineInfo fun _ => true).isSome = true) {f : FnPtr} {tuple : Input UInt64}
    (member : tuple ∈ ((recordExit cfg tdata).routine f).inputMap.nodes) : tuple ∈ (tdata.routine f).inputMap.nodes ∨
      (f = tdata.top.routineInfo ∧ (cfg.fn f).discard = false ∧
        tuple.contextId = (contextOf tdata tdata.top).toUInt64) := by
  rw [recordExit_routine cfg keyed known] at member
  split at member
  · next own =>
    subst own
    unfold exitRoutine at member
    split at member
    · exact Or.inl member
    · next plain =>
      rcases recordTuple_context collects member with old | context
      · exact Or.inl old
      · exact Or.inr ⟨rfl,by simpa using plain,context⟩
  · exact Or.inl member

theorem functionExit_context (collects : cfg.collectCCT = true) (keyed : tdata.rtnHt.Keyed)
    (known : (htFind tdata.rtnHt tdata.top.routineInfo fun _ => true).isSome = true) {f : FnPtr} {tuple : Input UInt64}
    (member : tuple ∈ ((functionExit cfg tdata).routine f).inputMap.nodes) :
    tuple ∈ (tdata.routine f).inputMap.nodes ∨ (f = tdata.top.routineInfo ∧ tdata.skip = 0 ∧
      (cfg.fn f).discard = false ∧ tuple.contextId = (contextOf tdata tdata.top).toUInt64) := by
  have table : ∀ {first second : ThreadData}, first.rtnHt = second.rtnHt → first.routine f = second.routine f := by
    intro first second same
    simp only [ThreadData.routine,same]
  unfold functionExit at member
  dsimp only at member
  rw [dope_eq] at member
  split at member
  · left
    unfold exitSkipped at member
    split at member
    · exact member
    · exact member
  · next recorded =>
    have exited : ∀ base : ThreadData, (exitRecorded cfg base).rtnHt = (recordExit cfg base).rtnHt := by
      intro base
      unfold exitRecorded
      split <;> rfl
    rw [table (exited _)] at member
    have doped := @recordExit_context cfg {tdata with cost := exitTicks cfg tdata} collects keyed known f tuple member
    rcases doped with old | new
    · exact Or.inl old
    · exact Or.inr ⟨new.1,Nat.eq_zero_of_not_pos recorded,new.2⟩

theorem popShared_context (collects : cfg.collectCCT = true) (separate : cfg.singleReport = false)
    (keyed : tdata.rtnHt.Keyed)
    (known : (htFind tdata.rtnHt tdata.top.routineInfo fun _ => true).isSome = true) (shared : Shared) {f : FnPtr}
    {tuple : Input UInt64} (member : tuple ∈ ((popShared cfg shared tdata).2.routine f).inputMap.nodes) :
    tuple ∈ (tdata.routine f).inputMap.nodes ∨ (f = tdata.top.routineInfo ∧ tdata.skip = 0 ∧
      (cfg.fn f).discard = false ∧ tuple.contextId = (contextOf tdata tdata.top).toUInt64) := by
  have own : attach cfg shared tdata = tdata := if_neg (by simp [separate])
  have popped : (popShared cfg shared tdata).2.routine f = (functionExit cfg tdata).routine f := by
    unfold popShared
    dsimp only
    rw [exitShared_eq,own]
    rfl
  rw [popped] at member
  exact functionExit_context collects keyed known member

end

/-- What the calling context tree of a thread promises: the node of a recorded
activation is at the end of the one path that spells its recorded callers, and a
return accumulates into tuples of that context. -/
structure ContextsStand (cfg : Config) (tdata : ThreadData) : Prop where
  path : ∀ i < tdata.stackDepth, (∀ j ≤ i, skipFlag cfg tdata j = false) →
    (cfg.fn (tdata.stack i).routineInfo).discard = false → ∃ node, (tdata.stack i).node = some node ∧
      ∀ ids, PathTo tdata.root node ids ↔ ids = contextIds (slotId cfg tdata) (i + 1)
  siblings : ∀ parent, (childIds tdata.root parent).Nodup
  contexts : (tdata.root.map CCTNode.contextId).Nodup
  tuples : ∀ shared f, 0 < tdata.stackDepth → ∀ tuple ∈ ((popShared cfg shared tdata).2.routine f).inputMap.nodes,
    tuple ∈ (tdata.routine f).inputMap.nodes ∨ ∃ node, f = tdata.top.routineInfo ∧
      PathTo tdata.root node (contextIds (slotId cfg tdata) tdata.stackDepth) ∧
      tuple.contextId = (cctNode tdata.root node).contextId.toUInt64

theorem ContextsKept.paths {cfg : Config} {tdata : ThreadData} (kept : ContextsKept cfg tdata) {i : Nat}
    (bound : i < tdata.stackDepth) (plain : ∀ j ≤ i, skipFlag cfg tdata j = false)
    (recorded : (cfg.fn (tdata.stack i).routineInfo).discard = false) : ∃ node, (tdata.stack i).node = some node ∧
      ∀ ids, PathTo tdata.root node ids ↔ ids = contextIds (slotId cfg tdata) (i + 1) := by
  have inside : i < recordedDepth cfg tdata := by
    by_contra outside
    have le := recordedDepth_le cfg tdata
    have hit := Floor.at_first (skipFlag cfg tdata) tdata.stackDepth
      (show recordedDepth cfg tdata < tdata.stackDepth by omega)
    have miss := plain (recordedDepth cfg tdata) (by omega)
    exact Bool.false_ne_true (miss.symm.trans hit)
  obtain ⟨node,stored,path⟩ := kept.contexts.nodes i inside recorded
  refine ⟨node,stored,fun ids => ⟨fun other => other.unique kept.contexts.tree path,?_⟩⟩
  rintro rfl
  exact path

theorem Contexts.distinct {cfg : Config} {tdata : ThreadData} {n : Nat} (contexts : Contexts cfg tdata n) :
    (tdata.root.map CCTNode.contextId).Nodup := by
  rw [List.nodup_iff_injective_get]
  intro i j same
  have look : ∀ k : Fin (tdata.root.map CCTNode.contextId).length,
      ((tdata.root.map CCTNode.contextId).get k).toNat = k.val := by
    intro k
    have inside : k.val < tdata.root.length := by simpa using k.isLt
    have id := contexts.ids k.val inside
    simpa [cctNode,List.getD_eq_getElem?_getD,List.getElem?_eq_getElem inside] using id
  apply Fin.ext
  rw [← look i,← look j,same]

theorem ContextsKept.returning {cfg : Config} {tdata : ThreadData} (kept : ContextsKept cfg tdata)
    (nonempty : 0 < tdata.stackDepth) (free : tdata.skip = 0)
    (plain : (cfg.fn tdata.top.routineInfo).discard = false) : ∃ node, tdata.top.node = some node ∧
      PathTo tdata.root node (contextIds (slotId cfg tdata) tdata.stackDepth) := by
  have slot : tdata.top = tdata.stack (tdata.stackDepth - 1) := rfl
  have all := kept.counted.recorded_iff.mp free
  obtain ⟨node,stored,path⟩ := kept.contexts.nodes (tdata.stackDepth - 1) (by omega) plain
  rw [Nat.sub_add_cancel nonempty] at path
  exact ⟨node,slot ▸ stored,path⟩

theorem ContextsKept.stand {cfg : Config} {tdata : ThreadData} (kept : ContextsKept cfg tdata)
    (collects : cfg.collectCCT = true) (separate : cfg.singleReport = false) : ContextsStand cfg tdata := by
  refine ⟨fun i bound plain recorded => kept.paths bound plain recorded,kept.contexts.tree.siblings,
    kept.contexts.distinct,?_⟩
  intro shared f nonempty tuple member
  have known := kept.contexts.registered (tdata.stackDepth - 1) (by omega)
  rcases popShared_context collects separate kept.contexts.keyed known shared member with old | ⟨own,free,plain,context⟩
  · exact Or.inl old
  · right
    rw [own] at plain
    obtain ⟨node,stored,path⟩ := kept.returning nonempty free plain
    refine ⟨node,own,path,?_⟩
    rw [context,contextOf,stored]

/-- In every life of a thread whose calls find clean slots and a free context id,
every context stands for its calls; and the threads of a run live such lives when
the calls of the run do. -/
theorem contexts_stand_for_calls {cfg : Config} (collects : cfg.collectCCT = true) (separate : cfg.singleReport = false) :
    (∀ tid log tdata, ThreadRun cfg (EntersClean cfg) tid log tdata → ContextsStand cfg tdata) ∧
    ∀ (c : Counter) (first rt : Runtime c) events, initial c cfg = .ok first →
      Along cfg (Permits (EntersClean cfg)) first events → run cfg first events = .ok rt →
      ∀ tid tdata, rt.threads tid = some tdata ∨ (tid,tdata) ∈ rt.reported →
        ∃ log, ThreadRun cfg (EntersClean cfg) tid log tdata := by
  refine ⟨fun tid log tdata life => (life.contexts collects separate).stand collects separate,?_⟩
  intro c first rt events created along ran tid tdata present
  have start : Living cfg (EntersClean cfg) first := Living.initial created
  have living := start.run along ran
  rcases present with found | member
  · exact living.threads tid tdata found
  · exact living.reported (tid,tdata) member

def contextConfig : Config :=
  {smallConfig .rms with
    collectCCT := true
    fn := fun f => {plainFunction false with discard := f == 1}}

def nestedEvents : List Event :=
  [.threadSwitch 1,.functionEnter 100 0,.functionEnter 96 1,.functionEnter 92 2,.functionExit,.functionEnter 92 2]

theorem contexts_stand_for_nested_calls : ∃ (rt : Runtime .wrapping) (tdata : ThreadData),
    (initial .wrapping contextConfig >>= fun rt => run contextConfig rt nestedEvents) = .ok rt ∧ rt.threads 1 = some tdata ∧
    tdata.stackDepth = 3 ∧ contextIds (slotId contextConfig tdata) 3 = [1,0] ∧ (tdata.routine 2).inputMap.nodes.length = 1 ∧
    ContextsStand contextConfig tdata := by
  have state : ∃ first, initial .wrapping contextConfig = .ok first ∧
      Along contextConfig (Permits (EntersClean contextConfig)) first nestedEvents ∧
      ∃ rt, run contextConfig first nestedEvents = .ok rt ∧ ∃ tdata, rt.threads 1 = some tdata ∧ tdata.stackDepth = 3 ∧
        contextIds (slotId contextConfig tdata) 3 = [1,0] ∧ (tdata.routine 2).inputMap.nodes.length = 1 := by
    decide +kernel
  obtain ⟨first,created,along,rt,ran,tdata,found,depth,ids,tuples⟩ := state
  obtain ⟨stand,lives⟩ := @contexts_stand_for_calls contextConfig rfl rfl
  obtain ⟨log,life⟩ := lives .wrapping first rt _ created along ran 1 tdata (Or.inl found)
  refine ⟨rt,tdata,?_,found,depth,ids,tuples,stand 1 log tdata life⟩
  rw [created]
  exact ran

/-- A discarded function runs in the slot where function 0 has left its node, and
the context of what it calls is a child of that node. -/
theorem discarded_slot_keeps_node : ∃ (rt : Runtime .wrapping) (tdata : ThreadData),
    (initial .wrapping contextConfig >>= fun rt => run contextConfig rt [.threadSwitch 1,.functionEnter 100 0,
      .functionExit,.functionEnter 100 1,.functionEnter 96 2]) = .ok rt ∧
    rt.threads 1 = some tdata ∧ ¬ ContextsStand contextConfig tdata := by
  have state : ∃ (rt : Runtime .wrapping) (tdata : ThreadData),
      (initial .wrapping contextConfig >>= fun rt => run contextConfig rt [.threadSwitch 1,.functionEnter 100 0,
        .functionExit,.functionEnter 100 1,.functionEnter 96 2]) = .ok rt ∧ rt.threads 1 = some tdata ∧
      tdata.stackDepth = 2 ∧ (tdata.stack 0).routineInfo = 1 ∧ (tdata.stack 1).routineInfo = 2 ∧
      (tdata.stack 1).node = some 2 ∧ (cctNode tdata.root 0).children = [1] ∧
      contextIds (slotId contextConfig tdata) 2 = [1] := ⟨_,_,rfl,rfl,rfl,rfl,rfl,rfl,rfl,rfl⟩
  obtain ⟨rt,tdata,ran,found,depth,first,second,stored,children,ids⟩ := state
  refine ⟨rt,tdata,ran,found,?_⟩
  intro stand
  have plain : ∀ j ≤ 1, skipFlag contextConfig tdata j = false := fun _ _ => rfl
  obtain ⟨node,stored',path⟩ := stand.path 1 (by omega) plain (by rw [second]; rfl)
  rw [stored] at stored'
  cases stored'
  obtain ⟨parent,above,linked⟩ := ((path [1]).mpr ids.symm).step
  rw [above.root_only,children] at linked
  exact absurd linked (by decide)

end Aprof
