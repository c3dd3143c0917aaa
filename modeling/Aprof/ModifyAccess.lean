import Aprof.Stamps

/-! An access of kind MODIFY is a LOAD of its granules followed by a STORE of the
same granules, in both shadow memory schemes. A load leaves the timestamp it
inserts on every granule it visits, so the store finds it there; and the count
of a granule looks at no other granule of the access. -/
namespace Aprof

/-- The shadow memory holds the timestamp at the address. -/
structure Carries (ts : Nat) (lk : LookupTable Nat) (a : Nat) : Prop where
  admitted : a < lk.table.limit
  allocated : lk.allocated (lk.granule a / lk.fltSize) = true
  value : lk.value (lk.granule a) = ts

section
variable {lk inserted : LookupTable Nat} {a addr ts old : Nat}

theorem Carries.insert (ok : lkInsert lk addr ts = .ok (old,inserted)) (carries : a = addr ∨ Carries ts lk a) :
    Carries ts inserted a := by
  by_cases admitted : addr < lk.table.limit
  · rw [lkInsert_eq lk addr ts admitted] at ok
    cases ok
    refine ⟨?_,?_,?_⟩
    · rw [LookupTable.write_limit]
      rcases carries with rfl | carries
      · exact admitted
      · exact carries.admitted
    · rw [LookupTable.allocated_write]
      rcases carries with rfl | carries
      · exact Bool.or_eq_true_iff.mpr (Or.inl (decide_eq_true rfl))
      · exact Bool.or_eq_true_iff.mpr (Or.inr carries.allocated)
    · rw [LookupTable.value_write]
      split
      · rfl
      · next different =>
        rcases carries with rfl | carries
        · exact absurd rfl different
        · exact carries.value
  · rw [lkInsert_fault lk addr ts (Nat.le_of_not_lt admitted)] at ok
    cases ok

theorem Carries.again (carries : Carries ts lk addr) : lkInsert lk addr ts = .ok (ts,lk) := by
  have same := lk.write_value (lk.granule addr) carries.allocated
  rw [carries.value] at same
  rw [lkInsert_eq lk addr ts carries.admitted,carries.value,same]

end

section
variable {tdata after : ThreadData} {addr : Nat}

theorem accessCellRms_modify : accessCellRms .modify = accessCellRms .load := by
  funext tdata addr
  simp only [accessCellRms,ne_eq,reduceCtorEq,not_false_eq_true,true_and]

theorem setSlot_topId (tdata : ThreadData) (i : Nat) {count : Activation → Activation}
    (counts : ∀ act, (count act).activationId = act.activationId) :
    (tdata.setSlot i count).top.activationId = tdata.top.activationId := by
  simp only [ThreadData.top,ThreadData.setSlot,Function.update_apply]
  split
  · next top =>
    rw [counts,top]
  · rfl

theorem accessCellRms_inserts {type : AccessType} (ok : accessCellRms type tdata addr = .ok after) :
    after.top.activationId = tdata.top.activationId ∧
      ∃ old, lkInsert tdata.shadowMemory addr tdata.top.activationId = .ok (old,after.shadowMemory) := by
  obtain ⟨⟨oldAid,shadow⟩,inserted,ok⟩ := bind_ok.mp ok
  dsimp only at ok
  split at ok
  · split at ok
    · obtain ⟨i,_,ok⟩ := bind_ok.mp ok
      cases ok
      refine ⟨(setSlot_topId _ i ?_).trans (setSlot_topId _ _ ?_),_,inserted⟩
      · exact fun _ => rfl
      · exact fun _ => rfl
    · cases ok
      refine ⟨setSlot_topId _ _ ?_,_,inserted⟩
      exact fun _ => rfl
  · cases ok
    exact ⟨rfl,_,inserted⟩

theorem rms_loads_carry (addrs : List Nat) (ok : addrs.foldlM (accessCellRms .load) tdata = .ok after) {a : Nat}
    (carries : a ∈ addrs ∨ Carries tdata.top.activationId tdata.shadowMemory a) :
    Carries after.top.activationId after.shadowMemory a := by
  induction addrs generalizing tdata with
  | nil =>
    cases ok
    exact carries.resolve_left List.not_mem_nil
  | cons addr addrs ih =>
    obtain ⟨middle,first,ok⟩ := bind_ok.mp ok
    obtain ⟨top,old,inserted⟩ := accessCellRms_inserts first
    refine ih ok ?_
    rw [top]
    rcases carries with member | carries
    · rcases List.mem_cons.mp member with rfl | later
      · exact Or.inr (.insert inserted (Or.inl rfl))
      · exact Or.inl later
    · exact Or.inr (.insert inserted (Or.inr carries))

theorem rms_store_carried (carries : Carries tdata.top.activationId tdata.shadowMemory addr) :
    accessCellRms .store tdata addr = .ok tdata := by
  unfold accessCellRms
  simp only [carries.again,ok_bind,ne_eq,not_true_eq_false,false_and,if_false]

theorem rms_stores_carried (addrs : List Nat) (carries : ∀ a ∈ addrs, Carries tdata.top.activationId tdata.shadowMemory a) :
    addrs.foldlM (accessCellRms .store) tdata = .ok tdata := by
  induction addrs with
  | nil => rfl
  | cons addr addrs ih =>
    obtain ⟨first,rest⟩ := List.forall_mem_cons.mp carries
    rw [List.foldlM_cons,rms_store_carried first,ok_bind]
    exact ih rest

theorem rms_modify_cells (addrs : List Nat) (tdata : ThreadData) : addrs.foldlM (accessCellRms .modify) tdata =
    addrs.foldlM (accessCellRms .load) tdata >>= fun tdata => addrs.foldlM (accessCellRms .store) tdata := by
  rw [accessCellRms_modify]
  cases loaded : addrs.foldlM (accessCellRms .load) tdata with
  | error fault => rfl
  | ok after =>
    rw [ok_bind]
    exact (rms_stores_carried addrs fun a member => rms_loads_carry addrs loaded (Or.inl member)).symm

end

section
variable {c : Counter} {ts : Nat} {global : LookupTable c.Word} {tdata after : ThreadData}

theorem countAccess_modify : countAccess c ts .modify = countAccess c ts .load := by
  funext wts tdata addr
  simp only [countAccess,reduceCtorEq,if_false]

def countLoads (c : Counter) (ts : Nat) (global : LookupTable c.Word) (addrs : List Nat) (tdata : ThreadData) : Result ThreadData :=
  addrs.foldlM (fun tdata addr => do
    let wts ← lkLookup global addr
    countAccess c ts .load wts tdata addr) tdata

/-- The part of a store that looks at the global shadow memory. -/
def markStores (c : Counter) (ts : Nat) (addrs : List Nat) (global : LookupTable c.Word) : Result (LookupTable c.Word) :=
  addrs.foldlM (fun global addr => do
    let (_,global) ← lkInsert global addr (plainWord c ts)
    .ok global) global

theorem load_cells (addrs : List Nat) (tdata : ThreadData) :
    addrs.foldlM (accessCellDrms c ts .load false) (global,tdata) = (do
      let tdata ← countLoads c ts global addrs tdata
      .ok (global,tdata)) := by
  induction addrs generalizing tdata with
  | nil => rfl
  | cons addr addrs ih =>
    have cell : accessCellDrms c ts .load false (global,tdata) addr = (do
        let wts ← lkLookup global addr
        let tdata ← countAccess c ts .load wts tdata addr
        .ok (global,tdata)) := by
      rw [accessCellDrms_eq]
      unfold globalAccess
      cases lkLookup global addr <;> rfl
    unfold countLoads at ih ⊢
    rw [List.foldlM_cons,List.foldlM_cons,cell]
    cases lkLookup global addr with
    | error fault => rfl
    | ok wts =>
      rw [ok_bind,ok_bind]
      cases countAccess c ts .load wts tdata addr with
      | error fault => rfl
      | ok counted => exact ih counted

theorem store_cells (addrs : List Nat) (carries : ∀ a ∈ addrs, Carries ts tdata.shadowMemory a) (global : LookupTable c.Word) :
    addrs.foldlM (accessCellDrms c ts .store false) (global,tdata) = (do
      let global ← markStores c ts addrs global
      .ok (global,tdata)) := by
  induction addrs generalizing global with
  | nil => rfl
  | cons addr addrs ih =>
    obtain ⟨first,rest⟩ := List.forall_mem_cons.mp carries
    have cell : accessCellDrms c ts .store false (global,tdata) addr = (do
        let (_,global) ← lkInsert global addr (plainWord c ts)
        .ok (global,tdata)) := by
      have counted : ∀ wts, countAccess c ts .store wts tdata addr = .ok tdata := by
        intro wts
        simp only [countAccess,first.again,ok_bind,if_true]
      rw [accessCellDrms_eq]
      simp only [globalAccess,counted,ok_bind,Bool.false_eq_true,false_and,if_false]
    unfold markStores at ih ⊢
    rw [List.foldlM_cons,List.foldlM_cons,cell]
    cases lkInsert global addr (plainWord c ts) with
    | error fault => rfl
    | ok inserted => exact ih rest inserted.2

theorem countLoads_carry (addrs : List Nat) (ok : countLoads c ts global addrs tdata = .ok after) {a : Nat}
    (carries : a ∈ addrs ∨ Carries ts tdata.shadowMemory a) : Carries ts after.shadowMemory a := by
  induction addrs generalizing tdata with
  | nil =>
    cases ok
    exact carries.resolve_left List.not_mem_nil
  | cons addr addrs ih =>
    obtain ⟨middle,cell,ok⟩ := bind_ok.mp ok
    obtain ⟨wts,_,counted⟩ := bind_ok.mp cell
    have kept : a = addr ∨ Carries ts tdata.shadowMemory a → Carries ts middle.shadowMemory a := by
      intro before
      exact countAccess_keeps (P := fun tdata => Carries ts tdata.shadowMemory a)
        (fun _ _ inserted => .insert inserted before) (fun _ _ _ _ carries => carries) counted
    refine ih ok ?_
    rcases carries with member | carries
    · rcases List.mem_cons.mp member with rfl | later
      · exact Or.inr (kept (Or.inl rfl))
      · exact Or.inl later
    · exact Or.inr (kept (Or.inr carries))

theorem lookup_write {addr g : Nat} (different : global.granule addr ≠ g) (word : c.Word) :
    lkLookup (global.write g word) addr = lkLookup global addr := by
  by_cases admitted : addr < global.table.limit
  · rw [lkLookup_eq _ _ (by rwa [LookupTable.write_limit]),lkLookup_eq _ _ admitted,LookupTable.value_write]
    exact congrArg Except.ok (if_neg different)
  · rw [lkLookup_fault _ _ (by rw [LookupTable.write_limit]; omega),lkLookup_fault _ _ (by omega),LookupTable.write_fault]

theorem countLoads_congr {global global' : LookupTable c.Word} (addrs : List Nat)
    (same : ∀ a ∈ addrs, lkLookup global' a = lkLookup global a) (tdata : ThreadData) :
    countLoads c ts global' addrs tdata = countLoads c ts global addrs tdata := by
  induction addrs generalizing tdata with
  | nil => rfl
  | cons addr addrs ih =>
    obtain ⟨first,rest⟩ := List.forall_mem_cons.mp same
    unfold countLoads at ih ⊢
    rw [List.foldlM_cons,List.foldlM_cons,first]
    exact bind_congr (ih rest)

/-- With no granule visited twice a modify counts what a load counts and marks what a store marks. -/
theorem modify_cells (addrs : List Nat) (global : LookupTable c.Word) (tdata : ThreadData)
    (apart : addrs.Pairwise fun a b => global.granule b ≠ global.granule a) :
    addrs.foldlM (accessCellDrms c ts .modify false) (global,tdata) = (do
      let tdata ← countLoads c ts global addrs tdata
      let global ← markStores c ts addrs global
      .ok (global,tdata)) := by
  induction addrs generalizing global tdata with
  | nil => rfl
  | cons addr addrs ih =>
    obtain ⟨first,rest⟩ := List.pairwise_cons.mp apart
    have cell : accessCellDrms c ts .modify false (global,tdata) addr = (do
        let (wts,global) ← lkInsert global addr (plainWord c ts)
        let tdata ← countAccess c ts .load wts tdata addr
        .ok (global,tdata)) := by
      rw [accessCellDrms_eq]
      simp only [globalAccess,countAccess_modify,Bool.false_eq_true,false_and,if_false]
    unfold countLoads markStores at ih ⊢
    simp only [List.foldlM_cons,cell]
    by_cases admitted : addr < global.table.limit
    · have inserted := lkInsert_eq global addr (plainWord c ts) admitted
      have found := lkLookup_eq global addr admitted
      simp only [inserted,found,ok_bind]
      cases countAccess c ts .load (global.value (global.granule addr)) tdata addr with
      | error fault => rfl
      | ok counted =>
        simp only [ok_bind]
        rw [ih (global.write (global.granule addr) (plainWord c ts)) counted rest]
        have same : countLoads c ts (global.write (global.granule addr) (plainWord c ts)) addrs counted =
            countLoads c ts global addrs counted :=
          countLoads_congr addrs (fun a member => lookup_write (first a member) (plainWord c ts)) counted
        unfold countLoads at same
        rw [same]
    · have outside := Nat.le_of_not_lt admitted
      simp only [lkInsert_fault _ _ _ outside,lkLookup_fault _ _ outside,error_bind]

theorem drms_modify_cells (addrs : List Nat) (global : LookupTable c.Word) (tdata : ThreadData)
    (apart : addrs.Pairwise fun a b => global.granule b ≠ global.granule a) :
    addrs.foldlM (accessCellDrms c ts .modify false) (global,tdata) =
      addrs.foldlM (accessCellDrms c ts .load false) (global,tdata) >>= fun state =>
        addrs.foldlM (accessCellDrms c ts .store false) state := by
  rw [modify_cells addrs global tdata apart,load_cells]
  cases loaded : countLoads c ts global addrs tdata with
  | error fault => rfl
  | ok after => exact (store_cells addrs (fun a member => countLoads_carry addrs loaded (Or.inl member)) global).symm

end

theorem sweep_apart {r : Nat} (fuel addr : Nat) (size : Int) : (∀ a ∈ sweep r fuel addr size, addr ≤ a) ∧
    (sweep r fuel addr size).Pairwise fun a b => a + r ≤ b := by
  induction fuel generalizing addr size with
  | zero => exact ⟨fun _ member => (List.not_mem_nil member).elim,.nil⟩
  | succ fuel ih =>
    obtain ⟨above,apart⟩ := ih (addr + r) (toInt (size - r))
    unfold sweep
    split
    · refine ⟨List.forall_mem_cons.mpr ⟨Nat.le_refl _,?_⟩,List.pairwise_cons.mpr ⟨above,apart⟩⟩
      intro a member
      exact (Nat.le_add_right addr r).trans (above a member)
    · exact ⟨fun _ member => (List.not_mem_nil member).elim,.nil⟩

section
variable {c : Counter} {cfg : Config} {rt : Runtime c}

def Idle (tdata : ThreadData) : Prop := tdata.stackDepth = 0 ∨ tdata.skip > 0

theorem idle_control {tdata after : ThreadData} (same : after.control = tdata.control) : Idle after ↔ Idle tdata := by
  have fields := control_fields same
  unfold Idle
  rw [fields.depth,fields.skip]

theorem traceAccessRms_modify (tdata : ThreadData) (addr size : Nat) : traceAccessRms cfg tdata .modify addr size =
    traceAccessRms cfg tdata .load addr size >>= fun tdata => traceAccessRms cfg tdata .store addr size := by
  have idles : ∀ type (tdata : ThreadData), Idle tdata → traceAccessRms cfg tdata type addr size = .ok tdata :=
    fun _ _ idle => if_pos idle
  have records : ∀ type (tdata : ThreadData), ¬ Idle tdata → traceAccessRms cfg tdata type addr size =
      (accessAddrs cfg.memoryResolution addr size).foldlM (accessCellRms type) tdata := fun _ _ recording => if_neg recording
  by_cases idle : Idle tdata
  · rw [idles _ _ idle,idles _ _ idle,ok_bind,idles _ _ idle]
  · rw [records _ _ idle,rms_modify_cells,← records _ _ idle]
    cases loaded : traceAccessRms cfg tdata .load addr size with
    | error fault => simp only [error_bind]
    | ok after =>
      rw [records _ _ idle] at loaded
      have same : after.control = tdata.control :=
        Lockstep.foldlM_keeps (P := fun after : ThreadData => after.control = tdata.control)
          (fun _ _ _ same ok => (accessCellRms_control ok).trans same) _ tdata after rfl loaded
      rw [ok_bind,ok_bind,records _ _ (mt (idle_control same).mp idle)]

theorem traceAccessDrms_modify (ts : Nat) {global : LookupTable c.Word} (tdata : ThreadData) {addr size : Nat}
    (apart : (accessAddrs cfg.memoryResolution addr size).Pairwise fun a b => global.granule b ≠ global.granule a) :
    traceAccessDrms c cfg ts global tdata .modify addr size false =
      traceAccessDrms c cfg ts global tdata .load addr size false >>= fun state =>
        traceAccessDrms c cfg ts state.1 state.2 .store addr size false := by
  have idles : ∀ type global (tdata : ThreadData), Idle tdata →
      traceAccessDrms c cfg ts global tdata type addr size false = .ok (global,tdata) := fun _ _ _ idle => if_pos idle
  have records : ∀ type global (tdata : ThreadData), ¬ Idle tdata → traceAccessDrms c cfg ts global tdata type addr size false =
      (accessAddrs cfg.memoryResolution addr size).foldlM (accessCellDrms c ts type false) (global,tdata) :=
    fun _ _ _ recording => if_neg recording
  by_cases idle : Idle tdata
  · rw [idles _ _ _ idle,idles _ _ _ idle,ok_bind,idles _ _ _ idle]
  · rw [records _ _ _ idle,drms_modify_cells _ _ _ apart,← records _ _ _ idle]
    cases loaded : traceAccessDrms c cfg ts global tdata .load addr size false with
    | error fault => simp only [error_bind]
    | ok after =>
      rw [records _ _ _ idle] at loaded
      have same : after.2.control = tdata.control :=
        Lockstep.foldlM_keeps (P := fun state : LookupTable c.Word × ThreadData => state.2.control = tdata.control)
          (fun _ _ _ same ok => (accessCellDrms_control ok).trans same) _ (global,tdata) after rfl loaded
      rw [ok_bind,ok_bind,records _ _ _ (mt (idle_control same).mp idle)]

theorem traceAccess_modify (scale : 2 ^ rt.globalShadow.resShift = cfg.memoryResolution) (addr size : Nat) :
    traceAccess cfg rt .modify addr size false = (do
      let rt ← traceAccess cfg rt .load addr size false
      traceAccess cfg rt .store addr size false) := by
  have apart : (accessAddrs cfg.memoryResolution addr size).Pairwise fun a b =>
      rt.globalShadow.granule b ≠ rt.globalShadow.granule a := by
    have positive : 0 < cfg.memoryResolution := scale ▸ Nat.two_pow_pos _
    refine (sweep_apart _ _ _).2.imp ?_
    intro a b above
    rw [LookupTable.granule,LookupTable.granule,scale]
    have next := Nat.div_le_div_right (c := cfg.memoryResolution) above
    rw [Nat.add_div_right _ positive] at next
    omega
  cases current : rt.current with
  | error fault =>
    unfold traceAccess
    rw [current]
    rfl
  | ok tdata =>
    have again : ∀ (global : LookupTable c.Word) (after : ThreadData),
        (({rt with globalShadow := global} : Runtime c).put rt.currentTid after).current = .ok after := by
      intro global after
      unfold Runtime.current Runtime.put
      simp only [Function.update_self]
    have stored : ∀ (global global' : LookupTable c.Word) (after last : ThreadData),
        ({({rt with globalShadow := global} : Runtime c).put rt.currentTid after with globalShadow := global'} : Runtime c).put
          rt.currentTid last = ({rt with globalShadow := global'} : Runtime c).put rt.currentTid last := by
      intro global global' after last
      simp only [Runtime.put,Function.update_idem]
    by_cases metric : cfg.inputMetric = .rms
    · have access : ∀ (rt : Runtime c) (tdata : ThreadData) (type : AccessType), rt.current = .ok tdata →
          traceAccess cfg rt type addr size false =
            traceAccessRms cfg tdata type addr size >>= fun tdata => .ok (rt.put rt.currentTid tdata) := by
        intro rt tdata type current
        unfold traceAccess
        rw [current,ok_bind,metric]
      rw [access rt tdata _ current,access rt tdata _ current,traceAccessRms_modify]
      cases traceAccessRms cfg tdata .load addr size with
      | error fault => simp only [error_bind]
      | ok after =>
        rw [ok_bind,ok_bind,ok_bind,access _ _ _ (again rt.globalShadow after)]
        exact bind_congr fun last => congrArg Except.ok (stored rt.globalShadow rt.globalShadow after last).symm
    · have access : ∀ (rt : Runtime c) (tdata : ThreadData) (type : AccessType), rt.current = .ok tdata →
          traceAccess cfg rt type addr size false =
            traceAccessDrms c cfg rt.globalCounter rt.globalShadow tdata type addr size false >>= fun state =>
              .ok (({rt with globalShadow := state.1} : Runtime c).put rt.currentTid state.2) := by
        intro rt tdata type current
        unfold traceAccess
        rw [current,ok_bind]
        split
        · next rms => exact absurd rms metric
        · rfl
      rw [access rt tdata _ current,access rt tdata _ current,traceAccessDrms_modify _ _ apart]
      cases traceAccessDrms c cfg rt.globalCounter rt.globalShadow tdata .load addr size false with
      | error fault => simp only [error_bind]
      | ok after =>
        rw [ok_bind,ok_bind,ok_bind,access _ _ _ (again after.1 after.2)]
        exact bind_congr fun last => congrArg Except.ok (stored after.1 last.1 after.2 last.2).symm

end

end Aprof
