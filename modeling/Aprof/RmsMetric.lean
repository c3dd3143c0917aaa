import Aprof.Activations
import Aprof.RmsRefinement
import Mathlib.Data.Set.Card

/-! The RMS metric is the number of granules whose first access is a read. The
relation to the history holds for any counter, so overflows of the activation id
do not matter. -/
namespace Aprof

open Lockstep Levels Floor

theorem toInt_small {n : Int} (low : -2 ^ 31 ≤ n) (high : n < 2 ^ 31) : toInt n = n := by
  unfold toInt
  rw [Int.bmod_def]
  omega

theorem sweep_eq {r : Nat} (positive : 0 < r) (small : r ≤ 16) (fuel addr : Nat) (size : Int)
    (enough : size ≤ fuel) (low : -16 ≤ size) (high : size < 2 ^ 31) :
    sweep r fuel addr size = (List.range ((size + r - 1) / r).toNat).map fun i => addr + i * r := by
  induction fuel generalizing addr size with
  | zero =>
    have none : (size + r - 1) / r ≤ 0 := by
      have bound : size + r - 1 < r := by omega
      have := Int.ediv_le_ediv (c := (r : Int)) (by omega) (show size + r - 1 ≤ r - 1 by omega)
      have zero : ((r : Int) - 1) / r = 0 := Int.ediv_eq_zero_of_lt (by omega) (by omega)
      omega
    rw [Int.toNat_eq_zero.mpr none]
    rfl
  | succ fuel ih =>
    unfold sweep
    split
    · next positive' =>
      have step : toInt (size - r) = size - r := toInt_small (by omega) (by omega)
      have count : (size + r - 1) / r = (size - r + r - 1) / r + 1 := by
        have shift : size + r - 1 = (size - r + r - 1) + r * 1 := by omega
        rw [shift,Int.add_mul_ediv_left _ _ (by omega)]
      have rest : 0 ≤ (size - r + r - 1) / r := Int.ediv_nonneg (by omega) (by omega)
      rw [step,ih (addr + r) (size - r) (by omega) (by omega) (by omega),count,
        Int.toNat_add rest (by omega),Int.toNat_one,List.range_succ_eq_map,List.map_cons,List.map_map]
      simp only [Nat.zero_mul,Nat.add_zero,List.cons.injEq,true_and]
      apply List.map_congr_left
      intro i _
      simp only [Function.comp,Nat.succ_mul]
      omega
    · next done =>
      have none : (size + r - 1) / r ≤ 0 := by
        have := Int.ediv_le_ediv (c := (r : Int)) (by omega) (show size + r - 1 ≤ r - 1 by omega)
        have zero : ((r : Int) - 1) / r = 0 := Int.ediv_eq_zero_of_lt (by omega) (by omega)
        omega
      rw [Int.toNat_eq_zero.mpr none]
      rfl

theorem sub_low_bits {r : Nat} (supported : r ∈ [1,2,4,8,16]) (addr : Nat) : addr &&& (r - 1) = addr % r := by
  simp only [List.mem_cons,List.not_mem_nil,or_false] at supported
  rcases supported with rfl | rfl | rfl | rfl | rfl
  · exact Nat.and_two_pow_sub_one_eq_mod addr 0
  · exact Nat.and_two_pow_sub_one_eq_mod addr 1
  · exact Nat.and_two_pow_sub_one_eq_mod addr 2
  · exact Nat.and_two_pow_sub_one_eq_mod addr 3
  · exact Nat.and_two_pow_sub_one_eq_mod addr 4

theorem supported_range {r : Nat} (supported : r ∈ [1,2,4,8,16]) : 0 < r ∧ r ≤ 16 := by
  simp only [List.mem_cons,List.not_mem_nil,or_false] at supported
  omega

/-- The granules an access touches, as long as its size fits the C type `Int`. -/
theorem access_granules {r : Nat} (supported : r ∈ [1,2,4,8,16]) (addr size : Nat)
    (fits : size + addr % r < 2 ^ 31) :
    (accessAddrs r addr size).map (· / r) = List.range' (addr / r) ((addr % r + size + r - 1) / r) := by
  have low := sub_low_bits supported addr
  obtain ⟨positive,small⟩ := supported_range supported
  have first : toInt (size : Int) = size := toInt_small (by omega) (by omega)
  have total : toInt ((size : Int) + (addr % r : Nat)) = ((addr % r + size : Nat) : Int) := by
    rw [toInt_small (by omega) (by omega)]
    omega
  unfold accessAddrs fixAccessSize
  simp only [low,first,total,Int.toNat_natCast]
  rw [sweep_eq positive small _ _ _ (by omega) (by omega) (by omega)]
  have count : (((addr % r + size : Nat) : Int) + r - 1) / r = ((addr % r + size + r - 1) / r : Nat) := by
    have sum : ((addr % r + size : Nat) : Int) + r - 1 = (addr % r + size + r - 1 : Nat) := by omega
    rw [sum,Int.natCast_ediv]
  have base : addr - addr % r = r * (addr / r) := by
    have := Nat.div_add_mod addr r
    omega
  rw [count,Int.toNat_natCast,List.range'_eq_map_range,List.map_map,base]
  apply List.map_congr_left
  intro i _
  simp only [Function.comp]
  rw [Nat.mul_comm i r,← Nat.mul_add,Nat.mul_div_cancel_left _ positive]

theorem mem_access_granules {r : Nat} (supported : r ∈ [1,2,4,8,16]) {addr size : Nat} (nonempty : 0 < size)
    (fits : size + addr % r < 2 ^ 31) (g : Nat) :
    g ∈ (accessAddrs r addr size).map (· / r) ↔ g * r < addr + size ∧ addr < (g + 1) * r := by
  have positive := (supported_range supported).1
  rw [access_granules supported addr size fits,List.mem_range'_1]
  have split := Nat.div_add_mod addr r
  have rem := Nat.mod_lt addr positive
  have above : addr / r ≤ g ↔ addr < (g + 1) * r := by
    rw [← Nat.lt_succ_iff,Nat.div_lt_iff_lt_mul positive]
  have bounded : g < addr / r + (addr % r + size + r - 1) / r ↔ g * r < addr + size := by
    have join : addr / r + (addr % r + size + r - 1) / r = (addr + size + r - 1) / r := by
      have whole : addr + size + r - 1 = (addr % r + size + r - 1) + r * (addr / r) := by omega
      rw [whole,Nat.add_mul_div_left _ _ positive,Nat.add_comm]
    rw [join,← Nat.succ_le_iff,Nat.le_div_iff_mul_le positive,Nat.succ_mul]
    omega
  rw [above,bounded,and_comm]

section
variable {c : Counter} {cfg : Config}

theorem getActivationByAid_pending {tdata : ThreadData} {aid i : Nat}
    (ok : getActivationByAid tdata aid = .ok i) : i + 1 < tdata.stackDepth := by
  have below : ∀ k i, walkDown tdata aid k = .ok i → i < k := by
    intro k
    induction k with
    | zero =>
      intro i ok
      cases ok
    | succ k ih =>
      intro i ok
      unfold walkDown at ok
      split at ok
      · exact Nat.lt_succ_of_lt (ih i ok)
      · cases ok
        exact Nat.lt_succ_self k
  have := below _ _ ok
  omega

theorem touchCell_total {levels : LevelRuntime} {th : LevelThread} (current : levels.current = .ok th)
    (type : AccessType) (kernelAccess : Bool) {addr : Nat} (admitted : addr < cfg.layout.limit) :
    ∃ after th', touchCell cfg type kernelAccess levels addr = .ok after ∧ after.current = .ok th' := by
  have found := levels_current_ok.mp current
  have stored : ∀ (rt : LevelRuntime) (th' : LevelThread), (rt.put rt.currentTid th').current = .ok th' :=
    fun rt th' => levels_current_ok.mpr (Function.update_self _ _ _)
  have marked : ∀ kernel g, ∃ th', (mark kernel levels g).current = .ok th' := by
    intro kernel g
    obtain ⟨th',found',_⟩ := (still_mark kernel levels g).frames _ th found
    exact ⟨th',levels_current_ok.mpr found'⟩
  unfold touchCell
  simp only [current,admitted,decide_true,check,if_true,ok_bind]
  split
  · exact ⟨_,_,rfl,stored levels _⟩
  · split
    · obtain ⟨th',ok⟩ := marked true (addr / cfg.memoryResolution)
      exact ⟨_,th',rfl,ok⟩
    · refine ⟨_,touch type (levels.byKernel (addr / cfg.memoryResolution)) th (addr / cfg.memoryResolution),
        rfl,levels_current_ok.mpr ?_⟩
      split
      · exact Function.update_self _ _ _
      · exact Function.update_self _ _ _

theorem levels_access_total {levels : LevelRuntime} {th : LevelThread} (current : levels.current = .ok th)
    (type : AccessType) {addr size : Nat} (kernelAccess : Bool)
    (admitted : ∀ a ∈ accessAddrs cfg.memoryResolution addr size, a < cfg.layout.limit) :
    ∃ after, Levels.traceAccess cfg levels type addr size kernelAccess = .ok after := by
  unfold Levels.traceAccess
  rw [current,ok_bind]
  split
  · exact ⟨levels,rfl⟩
  · clear * - current admitted
    revert admitted
    generalize accessAddrs cfg.memoryResolution addr size = addrs
    intro admitted
    induction addrs generalizing levels th with
    | nil => exact ⟨levels,rfl⟩
    | cons a addrs ih =>
      obtain ⟨middle,th',ok,current'⟩ := touchCell_total current type kernelAccess (admitted a List.mem_cons_self)
      obtain ⟨after,rest⟩ := ih current' fun b member => admitted b (List.mem_cons_of_mem _ member)
      exact ⟨after,by rw [List.foldlM_cons,ok,ok_bind]; exact rest⟩

theorem rms_simulates (c : Counter) (rms : cfg.inputMetric = .rms) :
    Simulates cfg (RmsRelated c cfg) fun _ _ => True where
  related _ _ rel := rel.mono fun _ _ _ thread => thread.follows
  steps _ _ event rel _ := RmsRelated.step rms rel event
  begins := rms_initial c cfg

theorem along_trivial (rt : Runtime c) (events : List Event) : Along cfg (fun _ _ => True) rt events := by
  induction events generalizing rt with
  | nil => exact trivial
  | cons event events ih => exact ⟨trivial,fun after _ => ih after⟩

theorem rms_inputSize (rms : cfg.inputMetric = .rms) {before during : List Event} {sp : UInt64} {f : FnPtr}
    {start entered last : Runtime c} {tdata : ThreadData}
    (returning : Returning cfg before sp f during start entered last tdata) :
    tdata.top.inputSize = UInt32.ofNat (inputGranules start.currentTid (history cfg entered during)).card := by
  have throughout : Throughout cfg (fun _ _ => True) before sp f during start entered :=
    ⟨fun rt _ => along_trivial rt before,trivial,along_trivial entered during⟩
  obtain ⟨first,levels,_,rel,measured⟩ :=
    returning.measured (rms_simulates c rms) throughout fun drms => absurd rms drms
  rw [measured_rms rms] at measured
  have related := (rms_simulates c rms).related _ _ rel
  exact (returning.counters related measured.2).1

theorem rms_access_total (rms : cfg.inputMetric = .rms) {events : List Event} {rt : Runtime c}
    (reached : (initial c cfg >>= fun rt => run cfg rt events) = .ok rt) {tdata : ThreadData}
    (current : rt.current = .ok tdata) (type : AccessType) {addr size : Nat}
    (admitted : ∀ a ∈ accessAddrs cfg.memoryResolution addr size, a < cfg.layout.limit) :
    ∃ after, step cfg rt (.access type addr size) = .ok after := by
  have matched := rms_run c rms events
  rw [reached] at matched
  obtain ⟨levels,_,rel⟩ := matched.ok_left
  have found : ∃ th, levels.current = .ok th := by
    have same : Matches (fun _ _ => True) (rt.current >>= .ok) (levels.current >>= .ok) :=
      rel.withCurrent fun _ _ _ _ _ => trivial
    rw [current] at same
    obtain ⟨th,ok,_⟩ := same.ok_left
    obtain ⟨th',ok,_⟩ := bind_ok.mp ok
    exact ⟨th',ok⟩
  obtain ⟨th,found⟩ := found
  obtain ⟨after,ok⟩ := levels_access_total found type false admitted
  have stepped := RmsRelated.step rms rel (.access type addr size)
  simp only [Levels.step,ok] at stepped
  obtain ⟨rt',ok',_⟩ := stepped.ok_right
  exact ⟨rt',ok'⟩

/-- The input size of an activation is the number of granules whose first access
since the call is a read; accesses touch the granules they intersect, and the
search for an owner never leaves the stack. -/
theorem rms_metric_correct (c : Counter) (rms : cfg.inputMetric = .rms) :
    (∀ before sp f during start entered last tdata,
      Returning (c := c) cfg before sp f during start entered last tdata → tdata.top.inputSize =
        UInt32.ofNat (inputGranules start.currentTid (history cfg entered during)).card) ∧
    (∀ events (rt : Runtime c), (initial c cfg >>= fun rt => run cfg rt events) = .ok rt →
      ∀ tdata type addr size, rt.current = .ok tdata →
        (∀ a ∈ accessAddrs cfg.memoryResolution addr size, a < cfg.layout.limit) →
          ∃ after, step cfg rt (.access type addr size) = .ok after) ∧
    (∀ tdata aid i, getActivationByAid tdata aid = .ok i → i + 1 < tdata.stackDepth) ∧
    (∀ addr size, 0 < size → size + addr % cfg.memoryResolution < 2 ^ 31 →
      ((accessAddrs cfg.memoryResolution addr size).map (· / cfg.memoryResolution)).Nodup ∧
      ∀ g, g ∈ (accessAddrs cfg.memoryResolution addr size).map (· / cfg.memoryResolution) ↔
        g * cfg.memoryResolution < addr + size ∧ addr < (g + 1) * cfg.memoryResolution) := by
  refine ⟨?_,?_,?_,?_⟩
  · intro before sp f during start entered last tdata returning
    exact rms_inputSize rms returning
  · intro events rt reached tdata type addr size current admitted
    exact rms_access_total rms reached current type admitted
  · intro tdata aid i ok
    exact getActivationByAid_pending ok
  · intro addr size nonempty fits
    refine ⟨?_,mem_access_granules cfg.supported nonempty fits⟩
    rw [access_granules cfg.supported addr size fits]
    exact List.nodup_range'

theorem rms_metric_one_load : ∃ start entered last tdata,
    Returning (c := .wrapping) (smallConfig .rms) [.threadSwitch 1] 0 0 [.access .load 0 1]
      start entered last tdata ∧
    tdata.top.inputSize =
      UInt32.ofNat (inputGranules start.currentTid (history (smallConfig .rms) entered [.access .load 0 1])).card := by
  have returning : ∃ start entered last tdata, Returning (c := .wrapping) (smallConfig .rms) [.threadSwitch 1]
      0 0 [.access .load 0 1] start entered last tdata := by
    refine ⟨_,_,_,_,rfl,rfl,?_,rfl,rfl,rfl,rfl⟩
    exact .cons rfl ⟨_,rfl,by decide⟩ trivial
  obtain ⟨start,entered,last,tdata,returning⟩ := returning
  exact ⟨start,entered,last,tdata,returning,
    (rms_metric_correct .wrapping rfl).1 _ _ _ _ _ _ _ _ returning⟩

/-- The size of a read of 2^31 bytes is negative as an `Int`: nothing is touched. -/
theorem rms_metric_huge_load : ∃ start entered last tdata,
    Returning (c := .wrapping) (smallConfig .rms) [.threadSwitch 1] 0 0 [.access .load 0 (2 ^ 31)]
      start entered last tdata ∧
    tdata.top.inputSize ≠ UInt32.ofNat (Set.ncard {g | g * 1 < 0 + 2 ^ 31 ∧ 0 < (g + 1) * 1}) := by
  have touched : {g | g * 1 < 0 + 2 ^ 31 ∧ 0 < (g + 1) * 1} = ↑(Finset.range (2 ^ 31)) := by
    ext g
    simp
  rw [touched,Set.ncard_coe_finset,Finset.card_range]
  refine ⟨_,_,_,_,⟨rfl,rfl,?_,rfl,rfl,rfl,rfl⟩,by decide⟩
  exact .cons rfl ⟨_,rfl,by decide⟩ trivial

end

end Aprof
