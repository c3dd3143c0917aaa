import Aprof.ToolSquares

/-! What a rejected report leaves behind. The lines before the one that rejects it
have been applied; none of them can take back what another one did, since every
change of a line moves the weight of the profile up. So the profile is the old one
exactly when each of these lines found everything it asks for. -/
namespace Aprof

section
variable {D : Type} {squares : Squares D}

theorem add_ok {dest inc sum : UInt64} (ok : add dest inc = .ok sum) : sum.toNat = dest.toNat + inc.toNat ∧ sum = dest + inc := by
  obtain ⟨_,checked,ok⟩ := bind_ok.mp ok
  cases ok
  have le := UInt64.le_iff_toNat_le.mp (of_decide_eq_true (check_ok.mp checked))
  have bound := dest.toNat_lt
  have bound' := inc.toNat_lt
  rw [UInt64.toNat_add] at le ⊢
  exact ⟨by omega,rfl⟩

theorem addSquare_ok {dest sum : D} {token : Str} (ok : addSquare squares dest token = .ok sum) :
    squares.add dest token = some sum := by
  unfold addSquare at ok
  split at ok
  · cases ok
  · next found => cases ok; exact found

theorem addSquare_rank {dest sum : D} {token : Str} (ok : addSquare squares dest token = .ok sum) :
    squares.rank dest ≤ squares.rank sum ∧ (squares.rank sum ≤ squares.rank dest → sum = dest) := by
  by_cases same : sum = dest
  · exact ⟨same ▸ le_refl _,fun _ => same⟩
  · have climbs := squares.climbs _ _ _ (addSquare_ok ok) same
    exact ⟨by omega,by omega⟩

def weighTuple (squares : Squares D) (tuple : Input D) : Nat :=
  1 + tuple.sumCumulativeCost.toNat + tuple.calls.toNat + tuple.sumCumulRealCost.toNat + tuple.sumSelfCost.toNat +
    tuple.maxCumulativeCost.toNat + tuple.maxSelfCost.toNat +
    (2^64 - tuple.minCumulativeCost.toNat) + (2^64 - tuple.minSelfCost.toNat) +
    squares.rank tuple.sqrCumulativeCost + squares.rank tuple.sqrSelfCost +
    tuple.sumCumulThread.toNat + tuple.sumCumulSyscall.toNat + tuple.sumSelfThread.toNat + tuple.sumSelfSyscall.toNat

def weighFunction (squares : Squares D) (fn : Function D) : Nat :=
  1 + fn.obj.isSome.toNat + fn.mangled.isSome.toNat + (fn.inputMap.nodes.map (weighTuple squares)).sum

def weigh (squares : Squares D) (rt : Profile D) : Nat :=
  (rt.fnHt.nodes.map (weighFunction squares)).sum + rt.objHt.nodes.length + rt.extraCost.toNat +
    rt.application.isSome.toNat + (decide (rt.binaryMtime ≠ 0)).toNat + (decide (rt.inputMetric ≠ .invalid)).toNat +
    (decide (rt.memoryResolution ≠ 0)).toNat

/-- A change and its weight: nothing happens exactly when `settled` holds, and
otherwise the weight goes up. -/
def Climbs {α : Type} (weight : α → Nat) (settled : Prop) (old new : α) : Prop :=
  (settled → new = old) ∧ (¬settled → weight old < weight new)

theorem htUpdate_weight {α : Type} [HashNode α] {table : HashTable α} {key : Nat} {wanted : α → Bool} {change : α → α}
    {keeps : ∀ n, HashNode.key (change n) = HashNode.key n} {node : α} {weight : α → Nat}
    (found : htFind table key wanted = some node) : ((htUpdate table key wanted change keeps).nodes.map weight).sum +
      weight node = (table.nodes.map weight).sum + weight (change node) := by
  obtain ⟨before,after,split,changed⟩ := @htUpdate_split _ _ _ _ _ change keeps _ found
  rw [split,changed]
  simp only [List.map_append,List.map_cons,List.sum_append,List.sum_cons]
  omega

theorem htAddNode_weight {α : Type} [HashNode α] (table : HashTable α) (node : α) (weight : α → Nat) :
    ((htAddNode table node).nodes.map weight).sum = weight node + (table.nodes.map weight).sum := by
  rw [((htAddNode_perm table node).map weight).sum_nat,List.map_cons,List.sum_cons]

theorem htUpdate_climbs {α : Type} [HashNode α] {table : HashTable α} {key : Nat} {wanted : α → Bool} {change : α → α}
    {keeps : ∀ n, HashNode.key (change n) = HashNode.key n} {node : α} {weight : α → Nat} {settled : Prop}
    (found : htFind table key wanted = some node) (climbs : Climbs weight settled node (change node)) :
    Climbs (fun table : HashTable α => (table.nodes.map weight).sum) settled table (htUpdate table key wanted change keeps) := by
  refine ⟨fun holds => htUpdate_same fun other same => ?_,fun fails => ?_⟩
  · rw [found] at same
    cases same
    exact climbs.1 holds
  · have sums := @htUpdate_weight _ _ _ _ _ change keeps _ weight found
    have more := climbs.2 fails
    show (table.nodes.map weight).sum < ((htUpdate table key wanted change keeps).nodes.map weight).sum
    omega

/-- Merging the line into the tuple changes none of its fields. -/
structure AddsNothing (squares : Squares D) (metric : InputMetric) (line : TupleLine) (tuple : Input D) : Prop where
  sum : line.sum = 0
  occ : line.occ = 0
  real : line.cumulReal = 0
  self : line.self = 0
  max : line.max ≤ tuple.maxCumulativeCost
  min : tuple.minCumulativeCost ≤ line.min
  selfMax : line.selfMax ≤ tuple.maxSelfCost
  selfMin : tuple.minSelfCost ≤ line.selfMin
  sqrSum : squares.add tuple.sqrCumulativeCost line.sqrSum = some tuple.sqrCumulativeCost
  selfSqr : squares.add tuple.sqrSelfCost line.selfSqr = some tuple.sqrSelfCost
  induced : metric = .drms → line.sumCumulThread = 0 ∧ line.sumCumulSyscall = 0 ∧
    line.sumSelfThread = 0 ∧ line.sumSelfSyscall = 0

theorem max_up (old new : UInt64) : old.toNat ≤ (if old < new then new else old).toNat ∧
    ((if old < new then new else old).toNat ≤ old.toNat → new ≤ old) := by
  split
  · next less =>
    have less := UInt64.lt_iff_toNat_lt.mp less
    exact ⟨by omega,by omega⟩
  · next not => exact ⟨le_refl _,fun _ => UInt64.not_lt.mp not⟩

theorem min_down (old new : UInt64) : (if new < old then new else old).toNat ≤ old.toNat ∧
    (old.toNat ≤ (if new < old then new else old).toNat → old ≤ new) := by
  split
  · next less =>
    have less := UInt64.lt_iff_toNat_lt.mp less
    exact ⟨by omega,by omega⟩
  · next not => exact ⟨le_refl _,fun _ => UInt64.not_lt.mp not⟩

theorem mergeInduced_ok {line : TupleLine} {tuple merged : Input D} (ok : mergeInduced line tuple = .ok merged) :
    ∃ cumulThread cumulSyscall selfThread selfSyscall,
      add tuple.sumCumulThread line.sumCumulThread = .ok cumulThread ∧
      add tuple.sumCumulSyscall line.sumCumulSyscall = .ok cumulSyscall ∧
      add tuple.sumSelfThread line.sumSelfThread = .ok selfThread ∧
      add tuple.sumSelfSyscall line.sumSelfSyscall = .ok selfSyscall ∧
      merged = {tuple with
        sumCumulThread := cumulThread
        sumCumulSyscall := cumulSyscall
        sumSelfThread := selfThread
        sumSelfSyscall := selfSyscall} := by
  obtain ⟨cumulThread,thread,ok⟩ := bind_ok.mp ok
  obtain ⟨cumulSyscall,syscall,ok⟩ := bind_ok.mp ok
  obtain ⟨-,-,ok⟩ := bind_ok.mp ok
  obtain ⟨selfThread,thread',ok⟩ := bind_ok.mp ok
  obtain ⟨selfSyscall,syscall',ok⟩ := bind_ok.mp ok
  obtain ⟨-,-,ok⟩ := bind_ok.mp ok
  cases ok
  exact ⟨_,_,_,_,thread,syscall,thread',syscall',rfl⟩

theorem mergeInput_ok {metric : InputMetric} {line : TupleLine} {tuple merged : Input D}
    (ok : mergeInput squares metric line tuple = .ok merged) :
    ∃ sum sqrSum calls real self selfSqr cumulThread cumulSyscall selfThread selfSyscall,
      add tuple.sumCumulativeCost line.sum = .ok sum ∧
      addSquare squares tuple.sqrCumulativeCost line.sqrSum = .ok sqrSum ∧
      add tuple.calls line.occ = .ok calls ∧
      add tuple.sumCumulRealCost line.cumulReal = .ok real ∧
      add tuple.sumSelfCost line.self = .ok self ∧
      addSquare squares tuple.sqrSelfCost line.selfSqr = .ok selfSqr ∧
      (metric = .drms → add tuple.sumCumulThread line.sumCumulThread = .ok cumulThread ∧
        add tuple.sumCumulSyscall line.sumCumulSyscall = .ok cumulSyscall ∧
        add tuple.sumSelfThread line.sumSelfThread = .ok selfThread ∧
        add tuple.sumSelfSyscall line.sumSelfSyscall = .ok selfSyscall) ∧
      (metric ≠ .drms → cumulThread = tuple.sumCumulThread ∧ cumulSyscall = tuple.sumCumulSyscall ∧
        selfThread = tuple.sumSelfThread ∧ selfSyscall = tuple.sumSelfSyscall) ∧
      merged = ⟨tuple.key,tuple.inputSize,tuple.contextId,calls,
        if line.min < tuple.minCumulativeCost then line.min else tuple.minCumulativeCost,
        if tuple.maxCumulativeCost < line.max then line.max else tuple.maxCumulativeCost,sum,
        if line.selfMin < tuple.minSelfCost then line.selfMin else tuple.minSelfCost,
        if tuple.maxSelfCost < line.selfMax then line.selfMax else tuple.maxSelfCost,
        self,real,sqrSum,selfSqr,cumulSyscall,cumulThread,selfSyscall,selfThread⟩ := by
  obtain ⟨sum,sumOk,ok⟩ := bind_ok.mp ok
  obtain ⟨sqrSum,sqrOk,ok⟩ := bind_ok.mp ok
  obtain ⟨calls,callsOk,ok⟩ := bind_ok.mp ok
  obtain ⟨real,realOk,ok⟩ := bind_ok.mp ok
  obtain ⟨self,selfOk,ok⟩ := bind_ok.mp ok
  obtain ⟨selfSqr,selfSqrOk,ok⟩ := bind_ok.mp ok
  obtain ⟨-,-,ok⟩ := bind_ok.mp ok
  obtain ⟨-,-,ok⟩ := bind_ok.mp ok
  obtain ⟨-,-,ok⟩ := bind_ok.mp ok
  obtain ⟨-,-,ok⟩ := bind_ok.mp ok
  obtain ⟨-,-,ok⟩ := bind_ok.mp ok
  dsimp only at ok
  by_cases drms : metric = .drms
  · rw [if_pos drms] at ok
    obtain ⟨cumulThread,cumulSyscall,selfThread,selfSyscall,thread,syscall,thread',syscall',rfl⟩ := mergeInduced_ok ok
    exact ⟨_,_,_,_,_,_,_,_,_,_,sumOk,sqrOk,callsOk,realOk,selfOk,selfSqrOk,fun _ => ⟨thread,syscall,thread',syscall'⟩,
      fun other => absurd drms other,rfl⟩
  · have other := drms
    rw [if_neg drms] at ok
    cases ok
    exact ⟨_,_,_,_,_,_,_,_,_,_,sumOk,sqrOk,callsOk,realOk,selfOk,selfSqrOk,fun drms => absurd drms other,
      fun _ => ⟨rfl,rfl,rfl,rfl⟩,rfl⟩

theorem mergeInput_climbs {metric : InputMetric} {line : TupleLine} {tuple merged : Input D}
    (ok : mergeInput squares metric line tuple = .ok merged) : merged.key = tuple.key ∧
      Climbs (weighTuple squares) (AddsNothing squares metric line tuple) tuple merged := by
  obtain ⟨sum,sqrSum,calls,real,self,selfSqr,cumulThread,cumulSyscall,selfThread,selfSyscall,sumOk,sqrOk,callsOk,realOk,
    selfOk,selfSqrOk,drms,other,rfl⟩ := mergeInput_ok ok
  refine ⟨rfl,fun nothing => ?_,fun something => ?_⟩
  · have sameSum := (add_ok sumOk).2
    have sameCalls := (add_ok callsOk).2
    have sameReal := (add_ok realOk).2
    have sameSelf := (add_ok selfOk).2
    rw [nothing.sum,UInt64.add_zero] at sameSum
    rw [nothing.occ,UInt64.add_zero] at sameCalls
    rw [nothing.real,UInt64.add_zero] at sameReal
    rw [nothing.self,UInt64.add_zero] at sameSelf
    have sameSqr := (addSquare_ok sqrOk).symm.trans nothing.sqrSum
    have sameSelfSqr := (addSquare_ok selfSqrOk).symm.trans nothing.selfSqr
    cases sameSqr
    cases sameSelfSqr
    rw [if_neg (UInt64.not_lt.mpr nothing.min),if_neg (UInt64.not_lt.mpr nothing.max),
      if_neg (UInt64.not_lt.mpr nothing.selfMin),if_neg (UInt64.not_lt.mpr nothing.selfMax),
      sameSum,sameCalls,sameReal,sameSelf]
    by_cases isDrms : metric = .drms
    · obtain ⟨thread,syscall,thread',syscall'⟩ := drms isDrms
      obtain ⟨first,second,third,fourth⟩ := nothing.induced isDrms
      rw [(add_ok thread).2,(add_ok syscall).2,(add_ok thread').2,(add_ok syscall').2,first,second,third,fourth]
      simp only [UInt64.add_zero]
    · obtain ⟨rfl,rfl,rfl,rfl⟩ := other isDrms
      rfl
  · by_contra light
    apply something
    have sumUp := (add_ok sumOk).1
    have callsUp := (add_ok callsOk).1
    have realUp := (add_ok realOk).1
    have selfUp := (add_ok selfOk).1
    have sqrUp := addSquare_rank sqrOk
    have selfSqrUp := addSquare_rank selfSqrOk
    have maxUp := max_up tuple.maxCumulativeCost line.max
    have selfMaxUp := max_up tuple.maxSelfCost line.selfMax
    have minDown := min_down tuple.minCumulativeCost line.min
    have selfMinDown := min_down tuple.minSelfCost line.selfMin
    have minBound := tuple.minCumulativeCost.toNat_lt
    have selfMinBound := tuple.minSelfCost.toNat_lt
    have inducedUp : tuple.sumCumulThread.toNat ≤ cumulThread.toNat ∧ tuple.sumCumulSyscall.toNat ≤ cumulSyscall.toNat ∧
        tuple.sumSelfThread.toNat ≤ selfThread.toNat ∧ tuple.sumSelfSyscall.toNat ≤ selfSyscall.toNat := by
      by_cases isDrms : metric = .drms
      · obtain ⟨thread,syscall,thread',syscall'⟩ := drms isDrms
        rw [(add_ok thread).1,(add_ok syscall).1,(add_ok thread').1,(add_ok syscall').1]
        exact ⟨Nat.le_add_right _ _,Nat.le_add_right _ _,Nat.le_add_right _ _,Nat.le_add_right _ _⟩
      · obtain ⟨rfl,rfl,rfl,rfl⟩ := other isDrms
        exact ⟨le_refl _,le_refl _,le_refl _,le_refl _⟩
    unfold weighTuple at light
    dsimp only at light
    generalize (if tuple.maxCumulativeCost < line.max then line.max else tuple.maxCumulativeCost) = max at maxUp light
    generalize (if tuple.maxSelfCost < line.selfMax then line.selfMax else tuple.maxSelfCost) = selfMax at selfMaxUp light
    generalize (if line.min < tuple.minCumulativeCost then line.min else tuple.minCumulativeCost) = min at minDown light
    generalize (if line.selfMin < tuple.minSelfCost then line.selfMin else tuple.minSelfCost) = selfMin at selfMinDown light
    have zero : ∀ value : UInt64, value.toNat = 0 → value = 0 := fun value same => UInt64.toNat_inj.mp same
    refine ⟨zero _ (by omega),zero _ (by omega),zero _ (by omega),zero _ (by omega),maxUp.2 (by omega),
      minDown.2 (by omega),selfMaxUp.2 (by omega),selfMinDown.2 (by omega),?_,?_,fun isDrms => ?_⟩
    · have same := sqrUp.2 (by omega)
      exact (addSquare_ok sqrOk).trans (congrArg some same)
    · have same := selfSqrUp.2 (by omega)
      exact (addSquare_ok selfSqrOk).trans (congrArg some same)
    · obtain ⟨thread,syscall,thread',syscall'⟩ := drms isDrms
      have threadUp := (add_ok thread).1
      have syscallUp := (add_ok syscall).1
      have threadUp' := (add_ok thread').1
      have syscallUp' := (add_ok syscall').1
      exact ⟨zero _ (by omega),zero _ (by omega),zero _ (by omega),zero _ (by omega)⟩

/-- A line changes nothing of the tuples of a function when it finds its tuple and
adds nothing to it. -/
def PointSettled (squares : Squares D) (metric : InputMetric) (line : TupleLine) (inputMap : HashTable (Input D)) : Prop :=
  ∃ tuple, htFind inputMap line.inputSize.toNat (fun _ => true) = some tuple ∧ AddsNothing squares metric line tuple

theorem mergeInputMap_climbs {metric : InputMetric} {line : TupleLine} {inputMap merged : HashTable (Input D)}
    (ok : mergeInputMap squares metric line inputMap = .ok merged) :
    Climbs (fun table : HashTable (Input D) => (table.nodes.map (weighTuple squares)).sum)
      (PointSettled squares metric line inputMap) inputMap merged := by
  unfold mergeInputMap at ok
  dsimp only at ok
  split at ok
  · next tuple found =>
    obtain ⟨new,input,ok⟩ := bind_ok.mp ok
    cases ok
    obtain ⟨key,climbs⟩ := mergeInput_climbs input
    have settled : PointSettled squares metric line inputMap ↔ AddsNothing squares metric line tuple := by
      refine ⟨fun ⟨other,same,nothing⟩ => ?_,fun nothing => ⟨tuple,found,nothing⟩⟩
      rw [found] at same
      cases same
      exact nothing
    rw [settled]
    refine htUpdate_climbs found ?_
    have same : {new with key := tuple.key} = new := by rw [← key]
    rw [same]
    exact climbs
  · next missing =>
    obtain ⟨new,-,ok⟩ := bind_ok.mp ok
    cases ok
    refine ⟨fun ⟨tuple,found,_⟩ => absurd (missing.symm.trans found) nofun,fun _ => ?_⟩
    show (inputMap.nodes.map (weighTuple squares)).sum < ((htAddNode inputMap new).nodes.map (weighTuple squares)).sum
    rw [htAddNode_weight]
    have positive : 0 < weighTuple squares new := by unfold weighTuple; omega
    omega

theorem Climbs.le {α : Type} {weight : α → Nat} {settled : Prop} {old new : α} (climbs : Climbs weight settled old new) :
    weight old ≤ weight new := by
  by_cases holds : settled
  · rw [climbs.1 holds]
  · exact (climbs.2 holds).le

theorem Climbs.still {α : Type} {weight : α → Nat} {settled : Prop} {old : α} (holds : settled) :
    Climbs weight settled old old := ⟨fun _ => rfl,fun fails => absurd holds fails⟩

theorem Climbs.up {α : Type} {weight : α → Nat} {settled : Prop} {old new : α} (fails : ¬settled)
    (more : weight old < weight new) : Climbs weight settled old new := ⟨fun holds => absurd holds fails,fun _ => more⟩

theorem setFunction_climbs {rt : Profile D} {name : Str} {fn : Function D} {change : Function D → Function D}
    {keeps : ∀ fn, HashNode.key (change fn) = HashNode.key fn} {settled : Prop} (found : findFunction rt name = some fn)
    (climbs : Climbs (weighFunction squares) settled fn (change fn)) :
    Climbs (weigh squares) settled rt (setFunction rt name change keeps) := by
  have table := @htUpdate_climbs _ _ _ _ _ change keeps _ _ _ found climbs
  refine ⟨fun holds => ?_,fun fails => ?_⟩
  · have same : (setFunction rt name change keeps).fnHt = rt.fnHt := table.1 holds
    show {rt with fnHt := (setFunction rt name change keeps).fnHt} = rt
    rw [same]
  · have more := table.2 fails
    unfold weigh setFunction
    dsimp only at more ⊢
    omega

theorem searchObject_climbs {rt : Profile D} {name objName : Str} {fn : Function D} (found : findFunction rt name = some fn) :
    Climbs (weigh squares) (fn.obj.isSome = true) rt (searchObject rt name objName) := by
  unfold searchObject
  rw [found]
  dsimp only
  cases known : fn.obj with
  | some obj => exact .still rfl
  | none =>
    refine .up nofun ?_
    have heavier : ∀ obj : Object, Climbs (weighFunction squares) False fn {fn with obj := some obj} := by
      intro obj
      refine .up id ?_
      unfold weighFunction
      rw [known]
      simp
    dsimp only
    split
    · next obj _ =>
      exact (@setFunction_climbs D squares rt name fn (fun fn => {fn with obj := some obj}) (fun _ => rfl) False found
        (heavier _)).2 id
    · have added : weigh squares rt < weigh squares {rt with objHt := htAddNode rt.objHt ⟨strHash objName,objName⟩} := by
        have longer := (htAddNode_perm rt.objHt ⟨strHash objName,objName⟩).length_eq
        rw [List.length_cons] at longer
        unfold weigh
        dsimp only
        omega
      have found' : findFunction {rt with objHt := htAddNode rt.objHt ⟨strHash objName,objName⟩} name = some fn := found
      exact added.trans ((@setFunction_climbs D squares _ name fn
        (fun fn => {fn with obj := some ⟨strHash objName,objName⟩}) (fun _ => rfl) False found' (heavier _)).2 id)

def Registered (rt : Profile D) (name : Str) : Prop := ∃ fn, findFunction rt name = some fn ∧ fn.obj.isSome = true

theorem search_climbs (rt : Profile D) (name objName : Str) :
    Climbs (weigh squares) (Registered rt name) rt (searchObject (searchFunction rt name) name objName) := by
  unfold searchFunction
  cases found : findFunction rt name with
  | some fn =>
    have climbs := @searchObject_climbs D squares rt name objName fn found
    have registered : Registered rt name ↔ fn.obj.isSome = true := by
      refine ⟨fun ⟨other,same,known⟩ => ?_,fun known => ⟨fn,found,known⟩⟩
      rw [found] at same
      cases same
      exact known
    rw [registered]
    exact climbs
  | none =>
    refine .up (fun ⟨fn,same,_⟩ => absurd (found.symm.trans same) nofun) ?_
    dsimp only
    generalize added : ({rt with
        fnHt := htAddNode rt.fnHt (freshFunction name rt.nextFunctionId)
        nextFunctionId := rt.nextFunctionId + 1} : Profile D) = rt'
    have more : weigh squares rt < weigh squares rt' := by
      have positive : 0 < weighFunction squares (freshFunction name rt.nextFunctionId) := by
        unfold weighFunction
        omega
      subst added
      unfold weigh
      dsimp only
      rw [htAddNode_weight]
      omega
    cases found' : findFunction rt' name with
    | none =>
      unfold searchObject
      rw [found']
      exact more
    | some fn => exact more.trans_le (searchObject_climbs found').le

/-- What the line asks of the profile is already there: the function and its
object, the mangled name, a tuple that the values do not change, a latched header
field; and there is no cost to count at the first routine. -/
def Settled (squares : Squares D) (rt : Profile D) (curr : Option Str) (totalCost : UInt64) (tag : Char) (args : List Str) :
    Prop :=
  match tag with
  | 'r' => (curr = none → totalCost = 0) ∧ Registered rt (unquote (args.headD []))
  | 'd' => ∃ name fn, curr = some name ∧ findFunction rt name = some fn ∧ fn.mangled.isSome = true
  | 'p' => ∃ name fn line, curr = some name ∧ findFunction rt name = some fn ∧ readTuple (args.drop 1) = .ok line ∧
      PointSettled squares rt.inputMetric line fn.inputMap
  | 'a' => rt.application.isSome = true
  | 'i' => rt.inputMetric = .invalid → readMetric (args.headD []) = .invalid
  | 't' => rt.memoryResolution ≠ 0
  | 'e' => rt.binaryMtime = 0 → (strtoull10 (args.headD [])).1 = 0
  | _ => True

def Refused (rt : Profile D) (tag : Char) (args : List Str) : Prop :=
  match tag with
  | 'q' => True
  | 'x' => True
  | 'v' => (strtoull10 (args.headD [])).1 ≠ reportVersion
  | 'a' => ∃ application, rt.application = some application ∧ application ≠ joinWords args
  | 'i' => rt.inputMetric ≠ .invalid ∧ readMetric (args.headD []) ≠ rt.inputMetric
  | 't' => rt.memoryResolution ≠ 0 ∧ (strtoull10 (args.headD [])).1.toUInt32 ≠ rt.memoryResolution
  | 'e' => rt.binaryMtime ≠ 0 ∧ (strtoull10 (args.headD [])).1 ≠ rt.binaryMtime
  | _ => False

/-- The function that the lines after this one are about. -/
def currAfter (curr : Option Str) (tag : Char) (args : List Str) : Option Str :=
  if tag = 'r' then some (unquote (args.headD [])) else curr

/-- The cost that the first routine after this line counts. -/
def totalAfter (totalCost : UInt64) (tag : Char) (args : List Str) : UInt64 :=
  if tag = 'k' then (strtoull10 (args.headD [])).1 else totalCost

/-- What `merge_tuple` makes of a line. -/
structure Effect (squares : Squares D) (state : Merging D) (tag : Char) (args : List Str) (invalid : Bool) (after : Merging D) :
    Prop where
  refused : invalid = true ↔ Refused state.rt tag args
  rejected : invalid = true → after.rt = state.rt
  climbs : invalid = false → Climbs (weigh squares) (Settled squares state.rt state.curr state.totalCost tag args) state.rt after.rt
  curr : invalid = false → after.curr = currAfter state.curr tag args
  total : invalid = false → after.totalCost = totalAfter state.totalCost tag args

theorem nextToken_ok {message : String} {args rest : List Str} {token : Str}
    (ok : nextToken message args = .ok (token,rest)) : args = token :: rest := by
  cases args with
  | nil => cases ok
  | cons head tail =>
    cases ok
    rfl

theorem nextNumber_ok {message : String} {args rest : List Str} {value : UInt64}
    (ok : nextNumber message args = .ok (value,rest)) : value = (strtoull10 (args.headD [])).1 ∧ rest = args.drop 1 := by
  obtain ⟨⟨token,tail⟩,read,ok⟩ := bind_ok.mp ok
  cases ok
  rw [nextToken_ok read]
  exact ⟨rfl,rfl⟩

theorem nextId_ok {args rest : List Str} {value : UInt64} (ok : nextId args = .ok (value,rest)) : rest = args.drop 1 := by
  obtain ⟨⟨token,tail⟩,read,ok⟩ := bind_ok.mp ok
  obtain ⟨-,-,ok⟩ := bind_ok.mp ok
  cases ok
  rw [nextToken_ok read]
  rfl

theorem nextName_ok {message : String} {args rest : List Str} {name : Str}
    (ok : nextName message args = .ok (name,rest)) : name = unquote (args.headD []) := by
  obtain ⟨⟨token,tail⟩,read,ok⟩ := bind_ok.mp ok
  obtain ⟨-,-,ok⟩ := bind_ok.mp ok
  cases ok
  rw [nextToken_ok read]
  rfl

section
variable {state after : Merging D} {args : List Str} {invalid : Bool}

theorem accept_ok {state : Merging D} (ok : accept state = .ok (invalid,after)) : invalid = false ∧ after = state := by
  cases ok
  exact ⟨rfl,rfl⟩

theorem reject_ok {state : Merging D} (ok : reject state = .ok (invalid,after)) : invalid = true ∧ after = state := by
  cases ok
  exact ⟨rfl,rfl⟩

theorem mergeRoutine_effect (ok : mergeRoutine state args = .ok (invalid,after)) : Effect squares state 'r' args invalid after := by
  obtain ⟨extraCost,counted,ok⟩ := bind_ok.mp ok
  obtain ⟨⟨name,rest⟩,named,ok⟩ := bind_ok.mp ok
  obtain ⟨⟨objName,_⟩,_,ok⟩ := bind_ok.mp ok
  obtain ⟨⟨id,_⟩,_,ok⟩ := bind_ok.mp ok
  obtain ⟨rfl,rfl⟩ := accept_ok ok
  have sameName := nextName_ok named
  subst sameName
  refine ⟨⟨nofun,nofun⟩,nofun,fun _ => ?_,fun _ => rfl,fun _ => rfl⟩
  have cost : extraCost.toNat = state.rt.extraCost.toNat + (if state.curr = none then state.totalCost.toNat else 0) ∧
      ((state.curr = none → state.totalCost = 0) → extraCost = state.rt.extraCost) := by
    unfold addTotal at counted
    split at counted
    · next first =>
      obtain ⟨sum,rfl⟩ := add_ok counted
      rw [if_pos first]
      refine ⟨sum,fun zero => ?_⟩
      rw [zero first,UInt64.add_zero]
    · next later =>
      cases counted
      rw [if_neg later]
      exact ⟨rfl,fun _ => rfl⟩
  have search := @search_climbs D squares {state.rt with extraCost := extraCost} (unquote (args.headD [])) objName
  have more : weigh squares {state.rt with extraCost := extraCost} =
      weigh squares state.rt + (if state.curr = none then state.totalCost.toNat else 0) := by
    unfold weigh
    dsimp only
    rw [cost.1]
    omega
  constructor
  · rintro ⟨zero,registered⟩
    have same : {state.rt with extraCost := extraCost} = state.rt := by rw [cost.2 zero]
    rw [same] at search
    show searchObject (searchFunction {state.rt with extraCost := extraCost} _) _ _ = _
    rw [same]
    exact search.1 registered
  · intro fails
    by_cases zero : state.curr = none → state.totalCost = 0
    · have missing : ¬Registered {state.rt with extraCost := extraCost} (unquote (args.headD [])) :=
        fun registered => fails ⟨zero,registered⟩
      have heavier := search.2 missing
      show _ < weigh squares (searchObject (searchFunction {state.rt with extraCost := extraCost} _) _ _)
      omega
    · obtain ⟨first,positive⟩ := Classical.not_imp.mp zero
      have above : state.totalCost.toNat ≠ 0 := fun same => positive (UInt64.toNat_inj.mp same)
      have heavier := search.le
      rw [more,if_pos first] at heavier
      show _ < weigh squares (searchObject (searchFunction {state.rt with extraCost := extraCost} _) _ _)
      omega

theorem mergeMangled_effect (ok : mergeMangled state args = .ok (invalid,after)) : Effect squares state 'd' args invalid after := by
  unfold mergeMangled at ok
  cases current : state.curr with
  | none =>
    rw [current] at ok
    cases ok
  | some name =>
    rw [current] at ok
    obtain ⟨⟨id,_⟩,_,ok⟩ := bind_ok.mp ok
    obtain ⟨-,-,ok⟩ := bind_ok.mp ok
    obtain ⟨-,-,ok⟩ := bind_ok.mp ok
    obtain ⟨⟨mangled,_⟩,_,ok⟩ := bind_ok.mp ok
    cases found : findFunction state.rt name with
    | none =>
      simp only [found] at ok
      cases ok
    | some fn =>
      simp only [found] at ok
      have settled : Settled squares state.rt state.curr state.totalCost 'd' args ↔ fn.mangled.isSome = true := by
        refine ⟨fun ⟨name',fn',current',found',has⟩ => ?_,fun has => ⟨name,fn,current,found,has⟩⟩
        cases current.symm.trans current'
        cases found.symm.trans found'
        exact has
      cases known : fn.mangled with
      | some known =>
        rename fn.mangled = _ => has
        simp only [has] at ok
        obtain ⟨-,-,ok⟩ := bind_ok.mp ok
        obtain ⟨rfl,rfl⟩ := accept_ok ok
        exact ⟨⟨nofun,nofun⟩,nofun,fun _ => .still (settled.mpr (Option.isSome_of_eq_some has)),fun _ => rfl,fun _ => rfl⟩
      | none =>
        simp only [known] at ok
        obtain ⟨rfl,rfl⟩ := accept_ok ok
        refine ⟨⟨nofun,nofun⟩,nofun,fun _ => ?_,fun _ => current.symm,fun _ => rfl⟩
        rw [settled]
        refine setFunction_climbs found (.up (by rw [known]; nofun) ?_)
        unfold weighFunction
        rw [known]
        simp

theorem mergePoint_effect (ok : mergePoint squares state args = .ok (invalid,after)) :
    Effect squares state 'p' args invalid after := by
  obtain ⟨⟨id,rest⟩,identified,ok⟩ := bind_ok.mp ok
  obtain ⟨_,_,ok⟩ := bind_ok.mp ok
  obtain ⟨line,read,ok⟩ := bind_ok.mp ok
  rw [nextId_ok identified] at read
  cases current : state.curr with
  | none =>
    simp only [current] at ok
    cases ok
  | some name =>
    simp only [current] at ok
    cases found : findFunction state.rt name with
    | none =>
      simp only [found] at ok
      cases ok
    | some fn =>
      simp only [found] at ok
      obtain ⟨inputMap,merged,ok⟩ := bind_ok.mp ok
      obtain ⟨rfl,rfl⟩ := accept_ok ok
      have settled : Settled squares state.rt state.curr state.totalCost 'p' args ↔
          PointSettled squares state.rt.inputMetric line fn.inputMap := by
        refine ⟨fun ⟨name',fn',line',current',found',read',has⟩ => ?_,fun has => ⟨name,fn,line,current,found,read,has⟩⟩
        cases current.symm.trans current'
        cases found.symm.trans found'
        cases read.symm.trans read'
        exact has
      refine ⟨⟨nofun,nofun⟩,nofun,fun _ => ?_,fun _ => current.symm,fun _ => rfl⟩
      rw [settled]
      have climbs := mergeInputMap_climbs merged
      refine setFunction_climbs found ⟨fun holds => ?_,fun fails => ?_⟩
      · rw [climbs.1 holds]
      · have more := climbs.2 fails
        unfold weighFunction
        dsimp only at more ⊢
        omega

theorem mergeApplication_effect (ok : mergeApplication state args = .ok (invalid,after)) :
    Effect squares state 'a' args invalid after := by
  obtain ⟨_,_,ok⟩ := bind_ok.mp ok
  obtain ⟨_,_,ok⟩ := bind_ok.mp ok
  cases known : state.rt.application with
  | none =>
    simp only [known] at ok
    obtain ⟨rfl,rfl⟩ := accept_ok ok
    refine ⟨⟨nofun,fun ⟨_,has,_⟩ => absurd (known.symm.trans has) nofun⟩,nofun,fun _ => ?_,fun _ => rfl,fun _ => rfl⟩
    refine .up (fun has => ?_) ?_
    · change state.rt.application.isSome = true at has
      rw [known] at has
      cases has
    · unfold weigh
      dsimp only
      rw [known]
      simp
  | some application =>
    simp only [known] at ok
    split at ok
    · next different =>
      obtain ⟨rfl,rfl⟩ := reject_ok ok
      exact ⟨⟨fun _ => ⟨application,known,different⟩,fun _ => rfl⟩,fun _ => rfl,nofun,nofun,nofun⟩
    · next same =>
      obtain ⟨rfl,rfl⟩ := accept_ok ok
      refine ⟨⟨nofun,fun ⟨other,has,different⟩ => ?_⟩,nofun,fun _ => .still (Option.isSome_of_eq_some known),
        fun _ => rfl,fun _ => rfl⟩
      cases known.symm.trans has
      exact absurd different same

theorem mergeTotal_effect (ok : mergeTotal state args = .ok (invalid,after)) : Effect squares state 'k' args invalid after := by
  obtain ⟨⟨sum,_⟩,read,ok⟩ := bind_ok.mp ok
  obtain ⟨_,_,ok⟩ := bind_ok.mp ok
  obtain ⟨rfl,rfl⟩ := accept_ok ok
  exact ⟨⟨nofun,nofun⟩,nofun,fun _ => .still trivial,fun _ => rfl,fun _ => (nextNumber_ok read).1⟩

theorem mergeVersion_effect (ok : mergeVersion state args = .ok (invalid,after)) : Effect squares state 'v' args invalid after := by
  obtain ⟨⟨ver,_⟩,read,ok⟩ := bind_ok.mp ok
  obtain ⟨rfl,-⟩ := nextNumber_ok read
  dsimp only at ok
  split at ok
  · next different =>
    obtain ⟨rfl,rfl⟩ := reject_ok ok
    exact ⟨⟨fun _ => different,fun _ => rfl⟩,fun _ => rfl,nofun,nofun,nofun⟩
  · next same =>
    obtain ⟨rfl,rfl⟩ := accept_ok ok
    exact ⟨⟨nofun,fun different => absurd different same⟩,nofun,fun _ => .still trivial,fun _ => rfl,fun _ => rfl⟩

theorem mergeMetric_effect (ok : mergeMetric state args = .ok (invalid,after)) : Effect squares state 'i' args invalid after := by
  obtain ⟨⟨token,rest⟩,read,ok⟩ := bind_ok.mp ok
  rw [nextToken_ok read]
  dsimp only at ok
  split at ok
  · next known =>
    have valid : state.rt.inputMetric ≠ .invalid := by
      rcases known with known | known <;> rw [known] <;> nofun
    split at ok
    · next different =>
      obtain ⟨rfl,rfl⟩ := reject_ok ok
      exact ⟨⟨fun _ => ⟨valid,different⟩,fun _ => rfl⟩,fun _ => rfl,nofun,nofun,nofun⟩
    · next same =>
      obtain ⟨rfl,rfl⟩ := accept_ok ok
      exact ⟨⟨nofun,fun refused => absurd refused.2 same⟩,nofun,fun _ => .still fun missing => absurd missing valid,
        fun _ => rfl,fun _ => rfl⟩
  · next unknown =>
    have missing : state.rt.inputMetric = .invalid := by
      cases metric : state.rt.inputMetric with
      | rms => exact absurd (.inl metric) unknown
      | drms => exact absurd (.inr metric) unknown
      | invalid => rfl
    obtain ⟨rfl,rfl⟩ := accept_ok ok
    refine ⟨⟨nofun,fun refused => absurd missing refused.1⟩,nofun,fun _ => ⟨fun holds => ?_,fun fails => ?_⟩,
      fun _ => rfl,fun _ => rfl⟩
    · show {state.rt with inputMetric := readMetric token} = state.rt
      have same : readMetric token = state.rt.inputMetric := (holds missing).trans missing.symm
      rw [same]
    · have valid : readMetric token ≠ .invalid := fun same => fails fun _ => same
      unfold weigh
      dsimp only
      rw [missing]
      simp [valid]

theorem mergeResolution_effect (ok : mergeResolution state args = .ok (invalid,after)) :
    Effect squares state 't' args invalid after := by
  obtain ⟨⟨value,rest⟩,read,ok⟩ := bind_ok.mp ok
  obtain ⟨rfl,-⟩ := nextNumber_ok read
  obtain ⟨_,supported,ok⟩ := bind_ok.mp ok
  have valid : (strtoull10 (args.headD [])).1.toUInt32 ≠ 0 := by
    intro zero
    rw [zero] at supported
    cases supported
  by_cases missing : state.rt.memoryResolution = 0
  · simp only [if_pos missing,ne_eq,not_true_eq_false,if_false] at ok
    obtain ⟨rfl,rfl⟩ := accept_ok ok
    refine ⟨⟨nofun,fun refused => absurd missing refused.1⟩,nofun,fun _ => ?_,fun _ => rfl,fun _ => rfl⟩
    refine .up (fun known => known missing) ?_
    unfold weigh
    dsimp only
    rw [missing,decide_eq_true valid]
    simp
  · simp only [if_neg missing] at ok
    split at ok
    · next different =>
      obtain ⟨rfl,rfl⟩ := reject_ok ok
      exact ⟨⟨fun _ => ⟨missing,different.symm⟩,fun _ => rfl⟩,fun _ => rfl,nofun,nofun,nofun⟩
    · next same =>
      obtain ⟨rfl,rfl⟩ := accept_ok ok
      exact ⟨⟨nofun,fun refused => absurd refused.2.symm same⟩,nofun,fun _ => .still missing,fun _ => rfl,fun _ => rfl⟩

theorem mergeMtime_effect (ok : mergeMtime state args = .ok (invalid,after)) : Effect squares state 'e' args invalid after := by
  obtain ⟨⟨bmtime,rest⟩,read,ok⟩ := bind_ok.mp ok
  obtain ⟨rfl,-⟩ := nextNumber_ok read
  by_cases missing : state.rt.binaryMtime = 0
  · simp only [if_pos missing,ne_eq,not_true_eq_false,if_false] at ok
    obtain ⟨rfl,rfl⟩ := accept_ok ok
    refine ⟨⟨nofun,fun refused => absurd missing refused.1⟩,nofun,fun _ => ⟨fun holds => ?_,fun fails => ?_⟩,
      fun _ => rfl,fun _ => rfl⟩
    · show {state.rt with binaryMtime := (strtoull10 (args.headD [])).1} = state.rt
      have same : (strtoull10 (args.headD [])).1 = state.rt.binaryMtime := (holds missing).trans missing.symm
      rw [same]
    · have given : (strtoull10 (args.headD [])).1 ≠ 0 := fun same => fails fun _ => same
      unfold weigh
      dsimp only
      rw [missing,decide_eq_true given]
      simp
  · simp only [if_neg missing] at ok
    split at ok
    · next different =>
      obtain ⟨rfl,rfl⟩ := reject_ok ok
      exact ⟨⟨fun _ => ⟨missing,different⟩,fun _ => rfl⟩,fun _ => rfl,nofun,nofun,nofun⟩
    · next same =>
      obtain ⟨rfl,rfl⟩ := accept_ok ok
      exact ⟨⟨nofun,fun refused => absurd refused.2 same⟩,nofun,fun _ => .still fun zero => absurd zero missing,
        fun _ => rfl,fun _ => rfl⟩

end

theorem mergeLine_effect {state after : Merging D} {tag : Char} {args : List Str} {invalid : Bool}
    (ok : mergeLine squares state tag args = .ok (invalid,after)) : Effect squares state tag args invalid after := by
  have ignored : ∀ {tag : Char}, (Settled squares state.rt state.curr state.totalCost tag args) → ¬Refused state.rt tag args →
      currAfter state.curr tag args = state.curr → totalAfter state.totalCost tag args = state.totalCost →
      accept state = .ok (invalid,after) → Effect squares state tag args invalid after := by
    intro tag settled fine curr total ok
    obtain ⟨rfl,rfl⟩ := accept_ok ok
    exact ⟨⟨nofun,fun refused => absurd refused fine⟩,nofun,fun _ => .still settled,fun _ => curr.symm,fun _ => total.symm⟩
  have refuses : ∀ {tag : Char}, Refused state.rt tag args → reject state = .ok (invalid,after) →
      Effect squares state tag args invalid after := by
    intro tag refused ok
    obtain ⟨rfl,rfl⟩ := reject_ok ok
    exact ⟨⟨fun _ => refused,fun _ => rfl⟩,fun _ => rfl,nofun,nofun,nofun⟩
  unfold mergeLine at ok
  split at ok
  · exact mergeRoutine_effect ok
  · exact mergeMangled_effect ok
  · exact mergePoint_effect ok
  · exact mergeApplication_effect ok
  · exact mergeTotal_effect ok
  · exact mergeVersion_effect ok
  · exact refuses trivial ok
  · exact refuses trivial ok
  · exact mergeMetric_effect ok
  · exact mergeResolution_effect ok
  · exact ignored trivial id rfl rfl ok
  · exact mergeMtime_effect ok
  · exact ignored trivial id rfl rfl ok
  · exact ignored trivial id rfl rfl ok
  · exact ignored trivial id rfl rfl ok
  · cases ok

/-- Up to the first line that has the report rejected, every line finds what it
asks for in the profile `rt`. -/
def LeavesAlone (squares : Squares D) (rt : Profile D) : Option Str → UInt64 → List Str → Prop
  | _, _, [] => True
  | curr, totalCost, line :: lines =>
    match readLine (cString line) with
    | none => LeavesAlone squares rt curr totalCost lines
    | some (tag,args) => Refused rt tag args ∨ (Settled squares rt curr totalCost tag args ∧
        LeavesAlone squares rt (currAfter curr tag args) (totalAfter totalCost tag args) lines)

theorem mergeTuple_ok {report line : Str} {state after : Merging D} {invalid : Bool}
    (ok : mergeTuple squares report state line = .ok (invalid,after)) :
    (readLine line = none ∧ invalid = false ∧ after = state) ∨
      ∃ tag args, readLine line = some (tag,args) ∧ mergeLine squares state tag args = .ok (invalid,after) := by
  unfold mergeTuple at ok
  split at ok
  · next empty =>
    subst empty
    exact .inl ⟨rfl,accept_ok ok⟩
  · obtain ⟨_,_,ok⟩ := bind_ok.mp ok
    cases read : readLine line with
    | none =>
      simp only [read] at ok
      cases ok
    | some tagged =>
      simp only [read] at ok
      exact .inr ⟨tagged.1,tagged.2,rfl,ok⟩

theorem mergeLines_climbs {report : Str} (lines : List Str) : ∀ {state after : Merging D} {merged : Bool},
    mergeLines squares report state lines = .ok (merged,after) →
    Climbs (weigh squares) (LeavesAlone squares state.rt state.curr state.totalCost lines) state.rt after.rt := by
  induction lines with
  | nil =>
    intro state after merged ok
    cases ok
    exact .still trivial
  | cons line lines ih =>
    intro state after merged ok
    obtain ⟨_,_,ok⟩ := bind_ok.mp ok
    obtain ⟨⟨invalid,middle⟩,applied,ok⟩ := bind_ok.mp ok
    rcases mergeTuple_ok applied with ⟨read,fine,same⟩ | ⟨tag,args,read,applied⟩
    · unfold LeavesAlone
      rw [read]
      simp only [fine,same] at ok
      exact ih ok
    · have effect := mergeLine_effect applied
      unfold LeavesAlone
      rw [read]
      cases invalid with
      | true =>
        cases ok
        rw [effect.rejected rfl]
        exact .still (.inl (effect.refused.mp rfl))
      | false =>
        have rest := ih ok
        have climbs := effect.climbs rfl
        have fine : ¬Refused state.rt tag args := fun refused => absurd (effect.refused.mpr refused) nofun
        rw [effect.curr rfl,effect.total rfl] at rest
        refine ⟨fun holds => ?_,fun fails => ?_⟩
        · obtain ⟨settled,leaves⟩ := holds.resolve_left fine
          have same := climbs.1 settled
          rw [same] at rest
          exact rest.1 leaves
        · by_cases settled : Settled squares state.rt state.curr state.totalCost tag args
          · have same := climbs.1 settled
            rw [same] at rest
            exact rest.2 fun leaves => fails (.inr ⟨settled,leaves⟩)
          · exact (climbs.2 settled).trans_le rest.le

/-- The file name does not fit the resolution, the file cannot be opened, or its
lines leave the profile alone. -/
def Harmless (squares : Squares D) (rt : Profile D) (report : Str) : File → Prop
  | .unreadable => True
  | .broken content => (rt.memoryResolution ≠ 0 ∧ memoryResolutionReport report ≠ rt.memoryResolution) ∨
      LeavesAlone squares rt none 0 (content.splitOn '\n').dropLast
  | .whole content => (rt.memoryResolution ≠ 0 ∧ memoryResolutionReport report ≠ rt.memoryResolution) ∨
      LeavesAlone squares rt none 0 (content.splitOn '\n')

/-- A report that is rejected leaves the runtime as it was exactly when it is harmless. -/
theorem rejected_changes_nothing (squares : Squares D) (report : Str) (file : File) (rt after : Profile D)
    (rejected : mergeReport squares report file rt = .ok (false,after)) : after = rt ↔ Harmless squares rt report file := by
  have unchanged : ∀ {settled : Prop} {new : Profile D}, Climbs (weigh squares) settled rt new → (new = rt ↔ settled) := by
    intro settled new climbs
    refine ⟨fun same => Classical.by_contradiction fun fails => ?_,climbs.1⟩
    have more := climbs.2 fails
    rw [same] at more
    exact lt_irrefl _ more
  unfold mergeReport at rejected
  split at rejected
  · next mismatch =>
    cases rejected
    cases file with
    | unreadable => exact ⟨fun _ => trivial,fun _ => rfl⟩
    | broken content => exact ⟨fun _ => .inl mismatch,fun _ => rfl⟩
    | whole content => exact ⟨fun _ => .inl mismatch,fun _ => rfl⟩
  · next fits =>
    cases file with
    | unreadable =>
      cases rejected
      exact ⟨fun _ => trivial,fun _ => rfl⟩
    | broken content =>
      obtain ⟨⟨merged,state⟩,lines,rejected⟩ := bind_ok.mp rejected
      obtain ⟨_,_,rejected⟩ := bind_ok.mp rejected
      cases rejected
      exact (unchanged (mergeLines_climbs _ lines)).trans ⟨.inr,fun harmless => harmless.resolve_left fits⟩
    | whole content =>
      obtain ⟨⟨merged,state⟩,lines,rejected⟩ := bind_ok.mp rejected
      cases rejected
      exact (unchanged (mergeLines_climbs _ lines)).trans ⟨.inr,fun harmless => harmless.resolve_left fits⟩

def freshProfile {D : Type} : Profile D where
  fnHt := htConstruct
  objHt := htConstruct
  extraCost := 0
  nextFunctionId := 0
  application := some "ls".toList
  binaryMtime := 5
  inputMetric := .rms
  memoryResolution := 1

/-- Seven lines that ask for nothing new, and one that has the report rejected -/
def contextReport : File := .whole "c -\nv 6\na ls\ni rms\nt 1\ne 5\nk 9\nx 1 2\nr \"f\" \"o\" 0\n".toList

theorem rejected_changes_nothing_contexts : Harmless toolSquares freshProfile "ls_12_0_1.aprof".toList contextReport :=
  (rejected_changes_nothing toolSquares "ls_12_0_1.aprof".toList contextReport freshProfile freshProfile rfl).mp rfl

/-- A report with contexts is rejected after its cost has been counted. -/
theorem rejected_report_counts : ∃ after, mergeReport toolSquares "ls_12_0_1.aprof".toList
    (.whole "v 6\nk 7\nr \"f\" \"o\" 0\nq 1 2 3 3 3 9 1 3 3 3 3 9\n".toList) freshProfile = .ok (false,after) ∧
      after ≠ freshProfile := by
  refine ⟨_,rfl,fun same => ?_⟩
  have cost := congrArg Profile.extraCost same
  revert cost
  decide

end

end Aprof
