import Aprof.Calls

/-! The routines of a thread. The table keeps one record a function, calls and
returns keep their ids, and a recorded return changes the record of its function
and no other one. -/
namespace Aprof

/-- Every routine keeps its id, and no routine is registered twice. -/
def RoutinesKept (tdata after : ThreadData) : Prop :=
  tdata.rtnHt.Keyed → after.rtnHt.Keyed ∧ ∀ f, (htFind after.rtnHt f fun _ => true).map RoutineInfo.routineId =
    (htFind tdata.rtnHt f fun _ => true).map RoutineInfo.routineId

theorem RoutinesKept.trans {tdata middle after : ThreadData} (first : RoutinesKept tdata middle)
    (second : RoutinesKept middle after) : RoutinesKept tdata after := by
  intro keyed
  obtain ⟨keyed',same⟩ := first keyed
  obtain ⟨keyed'',same'⟩ := second keyed'
  exact ⟨keyed'',fun f => (same' f).trans (same f)⟩

theorem RoutinesKept.same {tdata after : ThreadData} (same : after.rtnHt = tdata.rtnHt) : RoutinesKept tdata after := by
  intro keyed
  rw [same]
  exact ⟨keyed,fun _ => rfl⟩

theorem routinesKept_setRoutine (tdata : ThreadData) (f : FnPtr) (change : RoutineInfo → RoutineInfo)
    (keeps : ∀ rtnInfo, HashNode.key (change rtnInfo) = HashNode.key rtnInfo)
    (stable : ∀ rtnInfo, (change rtnInfo).routineId = rtnInfo.routineId) :
    RoutinesKept tdata (tdata.setRoutine f change keeps) := fun keyed =>
  ⟨keyed.update f _ change keeps,fun other => htUpdate_project keyed f _ change keeps RoutineInfo.routineId stable other⟩

theorem recordExit_routines (cfg : Config) (tdata : ThreadData) : RoutinesKept tdata (recordExit cfg tdata) := by
  have pending : RoutinesKept tdata (tdata.setRecursion tdata.top.routineInfo (· - 1)) :=
    routinesKept_setRoutine _ _ _ _ fun _ => rfl
  unfold recordExit
  dsimp only
  split
  · exact pending
  · exact pending.trans (routinesKept_setRoutine _ _ _ _ fun _ => rfl)

theorem functionExit_routines (cfg : Config) (tdata : ThreadData) : RoutinesKept tdata (functionExit cfg tdata) := by
  have doped : RoutinesKept tdata (dope cfg tdata) := .same (by rw [dope_eq])
  refine doped.trans ?_
  unfold functionExit
  dsimp only
  generalize dope cfg tdata = tdata
  split
  · refine .same ?_
    unfold exitSkipped
    split <;> rfl
  · unfold exitRecorded
    split
    · exact (recordExit_routines cfg tdata).trans (.same rfl)
    · exact recordExit_routines cfg tdata

theorem popShared_kept (cfg : Config) (shared : Shared) (tdata : ThreadData) :
    RoutinesKept tdata (popShared cfg shared tdata).2 := by
  have attached : RoutinesKept tdata (attach cfg shared tdata) := by
    unfold attach
    split
    · have loaded : RoutinesKept tdata
          (tdata.setInputMap tdata.top.routineInfo fun _ => shared.inputMaps tdata.top.routineInfo) :=
        routinesKept_setRoutine _ _ _ _ fun _ => rfl
      exact loaded.trans (.same rfl)
    · exact .same rfl
  refine (attached.trans (functionExit_routines cfg _)).trans (.same ?_)
  unfold popShared
  dsimp only
  rw [exitShared_eq]

theorem routineId_project (tdata : ThreadData) (f : FnPtr) :
    (tdata.routine f).routineId = ((htFind tdata.rtnHt f fun _ => true).map RoutineInfo.routineId).getD 0 := by
  unfold ThreadData.routine
  cases htFind tdata.rtnHt f fun _ => true <;> rfl

/-- The routines of a thread whose table `push_stack` has just looked up. -/
theorem pushFrame_routines {cfg : Config} {tdata pushed : ThreadData} {sp : UInt64} {f : FnPtr}
    (keyed : tdata.rtnHt.Keyed) (ok : pushFrame cfg tdata sp f = .ok pushed) : pushed.rtnHt.Keyed ∧
      (htFind pushed.rtnHt f fun _ => true).isSome = true ∧ ∀ other,
        (htFind tdata.rtnHt other fun _ => true).isSome = true →
        (htFind pushed.rtnHt other fun _ => true).map RoutineInfo.routineId =
          (htFind tdata.rtnHt other fun _ => true).map RoutineInfo.routineId := by
  obtain ⟨grown,fits,ok⟩ := bind_ok.mp ok
  obtain ⟨size,rfl,-⟩ := getActivation_ok fits
  cases found : htFind tdata.rtnHt f fun _ => true with
  | some rtnInfo =>
    simp only [found] at ok
    cases ok
    exact ⟨keyed,Option.isSome_of_eq_some found,fun _ _ => rfl⟩
  | none =>
    simp only [found] at ok
    cases ok
    have absent := htFind_absent found
    have added : ∃ rtnInfo : RoutineInfo, rtnInfo.key = f ∧ (newRoutineInfo cfg
        {tdata with stackDepth := tdata.stackDepth + 1, maxStackSize := size} f).rtnHt = htAddNode tdata.rtnHt rtnInfo := by
      unfold newRoutineInfo
      split
      · exact ⟨_,rfl,rfl⟩
      · split
        · exact ⟨_,rfl,rfl⟩
        · exact ⟨_,rfl,rfl⟩
    obtain ⟨rtnInfo,rfl,table⟩ := added
    have look := @htAddNode_project _ _ _ _ keyed rtnInfo absent RoutineInfo.routineId
    change HashTable.Keyed (newRoutineInfo cfg _ _).rtnHt ∧ (htFind (newRoutineInfo cfg _ _).rtnHt _ _).isSome = true ∧
      ∀ other, _ → (htFind (newRoutineInfo cfg _ _).rtnHt other _).map _ = _
    rw [table]
    refine ⟨keyed.add absent,?_,?_⟩
    · have own := (look rtnInfo.key).trans (if_pos rfl)
      rw [← Option.isSome_map,own]
      rfl
    · intro other known
      refine (look other).trans (if_neg ?_)
      intro same
      subst same
      have none : htFind tdata.rtnHt (HashNode.key rtnInfo) (fun _ => true) = none := found
      rw [none] at known
      cases known

theorem setInputMap_known {tdata : ThreadData} (keyed : tdata.rtnHt.Keyed) (f : FnPtr)
    (change : HashTable (Input UInt64) → HashTable (Input UInt64)) : (tdata.setInputMap f change).rtnHt.Keyed ∧
      ∀ g, (htFind (tdata.setInputMap f change).rtnHt g fun _ => true).isSome =
        (htFind tdata.rtnHt g fun _ => true).isSome :=
  ⟨keyed_setRoutine keyed _ _ _,known_setRoutine keyed _ _ _⟩

/-- What a return does to the record of its function. -/
def exitRoutine (cfg : Config) (tdata : ThreadData) (rtnInfo : RoutineInfo) : RoutineInfo :=
  if (cfg.fn tdata.top.routineInfo).discard then {rtnInfo with recursionPending := rtnInfo.recursionPending - 1}
  else {rtnInfo with
    recursionPending := rtnInfo.recursionPending - 1
    inputMap := recordTuple cfg tdata.top (contextOf tdata tdata.top) (cumulCost tdata) (selfCost tdata)
      (decide (rtnInfo.recursionPending - 1 < 1)) rtnInfo.inputMap}

theorem recordExit_routine (cfg : Config) {tdata : ThreadData} (keyed : tdata.rtnHt.Keyed)
    (known : (htFind tdata.rtnHt tdata.top.routineInfo fun _ => true).isSome = true) (g : FnPtr) :
    (recordExit cfg tdata).routine g =
      if g = tdata.top.routineInfo then exitRoutine cfg tdata (tdata.routine tdata.top.routineInfo)
      else tdata.routine g := by
  have pending := routine_setRecursion keyed known (· - 1)
  have keyed' : (tdata.setRecursion tdata.top.routineInfo (· - 1)).rtnHt.Keyed := keyed_setRoutine keyed _ _ _
  have known' : (htFind (tdata.setRecursion tdata.top.routineInfo (· - 1)).rtnHt tdata.top.routineInfo
      fun _ => true).isSome = true := (known_setRoutine keyed _ _ _ _).trans known
  unfold recordExit exitRoutine
  dsimp only
  split
  · exact pending g
  · rw [routine_setInputMap keyed' known']
    split
    · rw [pending,if_pos rfl]
    · next other => rw [pending,if_neg other]

end Aprof
