import Aprof.General.Floats
import Aprof.Runtime
import Mathlib.Algebra.Order.Chebyshev
import Mathlib.Algebra.BigOperators.Fin
import Mathlib.Data.UInt

/-! The tuples of a routine as `function_exit` accumulates them, their sums of
squares, and the variance that `Input.java` computes from what is printed. -/
namespace Aprof

/-- What `function_exit` knows of an activation when it looks for its tuple. -/
structure Recorded where
  act : Activation
  context : UInt32
  cumul : UInt64
  self : UInt64
  outermost : Bool

def identity (tuple : Input UInt64) : UInt64 × UInt64 × UInt64 := (tuple.key,tuple.inputSize,tuple.contextId)

section
variable (cfg : Config)

def Recorded.into (exit : Recorded) (inputMap : HashTable (Input UInt64)) : HashTable (Input UInt64) :=
  recordTuple cfg exit.act exit.context exit.cumul exit.self exit.outermost inputMap

def Recorded.fresh (exit : Recorded) : Input UInt64 :=
  newTuple (if cfg.collectCCT then (hash exit.act.inputSize exit.context).toUInt64 else exit.act.inputSize.toUInt64)
    exit.act.inputSize.toUInt64 (if cfg.collectCCT then exit.context.toUInt64 else 0)

def Recorded.add (exit : Recorded) (tuple : Input UInt64) : Input UInt64 :=
  accumulate exit.act exit.cumul exit.self exit.outermost tuple

/-- The activations that are accumulated into a tuple. -/
def Recorded.ofTuple (exits : List Recorded) (tuple : Input UInt64) : List Recorded :=
  exits.filter fun exit => identity (exit.fresh cfg) = identity tuple

/-- The input map after a sequence of activations. -/
def recordAll (exits : List Recorded) : HashTable (Input UInt64) :=
  exits.foldl (fun inputMap exit => exit.into cfg inputMap) htConstruct

/-- Each activation has a tuple, and each tuple is what its activations add up to. -/
structure Collected (exits : List Recorded) (inputMap : HashTable (Input UInt64)) : Prop where
  distinct : (inputMap.nodes.map identity).Nodup
  covers : ∀ exit ∈ exits, identity (exit.fresh cfg) ∈ inputMap.nodes.map identity
  known : ∀ tuple ∈ inputMap.nodes, ∃ exit : Recorded, identity tuple = identity (exit.fresh cfg) ∧
    tuple = (Recorded.ofTuple cfg exits tuple).foldl (fun tuple exit => exit.add tuple) (exit.fresh cfg)

end

section
variable {cfg : Config}

theorem Recorded.identity_add (exit : Recorded) (tuple : Input UInt64) :
    identity (exit.add tuple) = identity tuple := rfl

theorem Recorded.wanted_iff (exit other : Recorded) {tuple : Input UInt64}
    (known : identity tuple = identity (other.fresh cfg)) :
    (tuple.key = (exit.fresh cfg).key ∧ (!cfg.collectCCT || (tuple.contextId == exit.context.toUInt64 &&
      tuple.inputSize == exit.act.inputSize.toUInt64)) = true) ↔ identity tuple = identity (exit.fresh cfg) := by
  unfold identity at *
  simp only [Recorded.fresh,newTuple,Prod.mk.injEq] at *
  obtain ⟨key,size,context⟩ := known
  cases collects : cfg.collectCCT with
  | false =>
    rw [collects] at key context
    simp only [Bool.not_false,Bool.true_or,and_true,Bool.false_eq_true,if_false] at key context ⊢
    rw [key,size,context]
    exact ⟨fun same => ⟨same,same,rfl⟩,fun same => same.1⟩
  | true =>
    simp only [Bool.not_true,Bool.false_or,Bool.and_eq_true,beq_iff_eq,if_true]
    exact ⟨fun ⟨key,context,size⟩ => ⟨key,size,context⟩,fun ⟨key,size,context⟩ => ⟨key,context,size⟩⟩

theorem Recorded.found {exit other : Recorded} {inputMap : HashTable (Input UInt64)} {tuple : Input UInt64}
    (known : identity tuple = identity (other.fresh cfg))
    (found : htFind inputMap (exit.fresh cfg).key.toNat (fun tuple => !cfg.collectCCT ||
      (tuple.contextId == exit.context.toUInt64 && tuple.inputSize == exit.act.inputSize.toUInt64)) = some tuple) :
    identity tuple = identity (exit.fresh cfg) := by
  have wanted := (htFind_some found).2
  refine (exit.wanted_iff other known).mp ⟨?_,wanted⟩
  cases collects : cfg.collectCCT with
  | false =>
    simp only [collects,Bool.not_false,Bool.true_or] at found
    exact UInt64.toNat_inj.mp (Buckets.find_first HashNode.key inputMap.chains _ tuple found)
  | true =>
    -- the same size and context have the same hash
    simp only [collects,Bool.not_true,Bool.false_or,Bool.and_eq_true,beq_iff_eq] at wanted
    simp only [identity,Recorded.fresh,newTuple,collects,if_true,Prod.mk.injEq] at known ⊢
    have size := UInt32.toUInt64_inj.mp (known.2.1.symm.trans wanted.2)
    have context := UInt32.toUInt64_inj.mp (known.2.2.symm.trans wanted.1)
    rw [known.1,size,context]

theorem Recorded.into_cases (exit : Recorded) {inputMap : HashTable (Input UInt64)}
    (known : ∀ tuple ∈ inputMap.nodes, ∃ other : Recorded, identity tuple = identity (other.fresh cfg)) :
    (identity (exit.fresh cfg) ∉ inputMap.nodes.map identity ∧
      (exit.into cfg inputMap).nodes.Perm (exit.add (exit.fresh cfg) :: inputMap.nodes)) ∨
    ∃ before tuple after, inputMap.nodes = before ++ tuple :: after ∧
      identity tuple = identity (exit.fresh cfg) ∧
      (exit.into cfg inputMap).nodes = before ++ exit.add tuple :: after := by
  unfold Recorded.into recordTuple
  dsimp only
  split
  · next missing =>
    left
    refine ⟨?_,htAddNode_perm _ _⟩
    intro member
    obtain ⟨tuple,inside,same⟩ := List.mem_map.mp member
    obtain ⟨key,wanted⟩ := (exit.wanted_iff exit same).mpr same
    exact htFind_missing missing inside (congrArg UInt64.toNat key) wanted
  · next tuple found =>
    right
    obtain ⟨before,after,split,changed⟩ :=
      @htUpdate_split _ _ _ _ _ (accumulate exit.act exit.cumul exit.self exit.outermost) (fun _ => rfl) _ found
    obtain ⟨other,same⟩ := known tuple (htFind_some found).1
    exact ⟨before,tuple,after,split,Recorded.found same found,changed⟩

theorem Recorded.ofTuple_append (exits : List Recorded) (exit : Recorded) (tuple : Input UInt64) :
    Recorded.ofTuple cfg (exits ++ [exit]) tuple = Recorded.ofTuple cfg exits tuple ++
      if identity (exit.fresh cfg) = identity tuple then [exit] else [] := by
  unfold Recorded.ofTuple
  rw [List.filter_append,List.filter_singleton]
  congr 1
  by_cases own : identity (exit.fresh cfg) = identity tuple
  · rw [if_pos own,decide_eq_true own]
    rfl
  · rw [if_neg own,decide_eq_false own]
    rfl

theorem Recorded.ofTuple_congr {exits : List Recorded} {tuple other : Input UInt64}
    (same : identity tuple = identity other) :
    Recorded.ofTuple cfg exits tuple = Recorded.ofTuple cfg exits other := by
  unfold Recorded.ofTuple
  rw [same]

theorem Collected.step {exits : List Recorded} {inputMap : HashTable (Input UInt64)}
    (collected : Collected cfg exits inputMap) (exit : Recorded) :
    Collected cfg (exits ++ [exit]) (exit.into cfg inputMap) := by
  have known : ∀ tuple ∈ inputMap.nodes, ∃ other : Recorded, identity tuple = identity (other.fresh cfg) := by
    intro tuple member
    obtain ⟨other,same,-⟩ := collected.known tuple member
    exact ⟨other,same⟩
  have foreign : ∀ tuple ∈ inputMap.nodes, identity (exit.fresh cfg) ≠ identity tuple →
      ∃ other : Recorded, identity tuple = identity (other.fresh cfg) ∧
        tuple = (Recorded.ofTuple cfg (exits ++ [exit]) tuple).foldl (fun tuple exit => exit.add tuple)
          (other.fresh cfg) := by
    intro tuple member different
    rw [Recorded.ofTuple_append,if_neg different,List.append_nil]
    exact collected.known tuple member
  rcases exit.into_cases known with ⟨missing,perm⟩ | ⟨before,tuple,after,split,same,changed⟩
  · constructor
    · rw [(perm.map identity).nodup_iff,List.map_cons,List.nodup_cons]
      exact ⟨missing,collected.distinct⟩
    · intro earlier member
      rw [(perm.map identity).mem_iff,List.map_cons,List.mem_cons]
      rcases List.mem_append.mp member with old | new
      · exact .inr (collected.covers earlier old)
      · rw [List.mem_singleton.mp new]
        exact .inl rfl
    · intro tuple member
      rcases List.mem_cons.mp (perm.mem_iff.mp member) with rfl | old
      · -- no earlier activation belongs to a new tuple
        have none : Recorded.ofTuple cfg exits (exit.add (exit.fresh cfg)) = [] := by
          refine List.filter_eq_nil_iff.mpr ?_
          intro earlier member own
          have covered := collected.covers earlier member
          rw [of_decide_eq_true own] at covered
          exact missing covered
        refine ⟨exit,rfl,?_⟩
        rw [Recorded.ofTuple_append,none,if_pos (exit.identity_add _).symm]
        rfl
      · refine foreign tuple old fun same => missing ?_
        rw [same]
        exact List.mem_map_of_mem old
  · have identities : (exit.into cfg inputMap).nodes.map identity = inputMap.nodes.map identity := by
      rw [changed,split,List.map_append,List.map_append]
      rfl
    have distinct := collected.distinct
    constructor
    · rw [identities]
      exact distinct
    · intro earlier member
      rw [identities]
      rcases List.mem_append.mp member with old | new
      · exact collected.covers earlier old
      · rw [List.mem_singleton.mp new,← same,split]
        exact List.mem_map_of_mem (List.mem_append_right _ List.mem_cons_self)
    · intro other member
      rw [split,List.map_append,List.map_cons,List.nodup_append] at distinct
      obtain ⟨-,distinct,apart⟩ := distinct
      rw [changed] at member
      rcases List.mem_append.mp member with inside | rest
      · refine foreign other (split ▸ List.mem_append_left _ inside) ?_
        rw [← same]
        exact (apart _ (List.mem_map_of_mem inside) _ List.mem_cons_self).symm
      · rcases List.mem_cons.mp rest with rfl | inside
        · obtain ⟨first,known,sum⟩ := collected.known tuple (split ▸ List.mem_append_right _ List.mem_cons_self)
          refine ⟨first,known,?_⟩
          rw [Recorded.ofTuple_append,if_pos (same.symm.trans (exit.identity_add tuple).symm),List.foldl_append,
            Recorded.ofTuple_congr (exit.identity_add tuple),← sum]
          rfl
        · refine foreign other (split ▸ List.mem_append_right _ (List.mem_cons_of_mem _ inside)) ?_
          rw [← same]
          intro equal
          exact (List.nodup_cons.mp distinct).1 (equal ▸ List.mem_map_of_mem inside)

theorem recordAll_collected (exits : List Recorded) : Collected cfg exits (recordAll cfg exits) := by
  induction exits using List.reverseRecOn with
  | nil =>
    constructor
    · rw [recordAll,List.foldl_nil,htConstruct_nodes]
      exact List.nodup_nil
    · intro exit member
      cases member
    · intro tuple member
      rw [recordAll,List.foldl_nil,htConstruct_nodes] at member
      cases member
  | append_singleton exits exit ih =>
    rw [recordAll,List.foldl_append]
    exact ih.step exit

theorem foldl_add (field : Input UInt64 → UInt64) (amount : Recorded → Nat)
    (adds : ∀ (exit : Recorded) tuple, field (exit.add tuple) = field tuple + UInt64.ofNat (amount exit))
    (exits : List Recorded) (tuple : Input UInt64) :
    field (exits.foldl (fun tuple exit => exit.add tuple) tuple) =
      field tuple + UInt64.ofNat (exits.map amount).sum := by
  induction exits generalizing tuple with
  | nil => exact (UInt64.add_zero _).symm
  | cons exit exits ih =>
    rw [List.foldl_cons,ih,adds,List.map_cons,List.sum_cons,UInt64.ofNat_add,UInt64.add_assoc]

theorem sum_squared_le (costs : List Nat) : costs.sum ^ 2 ≤ costs.length * (costs.map (· ^ 2)).sum := by
  have chebyshev := sq_sum_le_card_mul_sum_sq (s := Finset.univ) (f := fun i : Fin costs.length => costs[i.1])
  rw [Finset.card_univ,Fintype.card_fin,Fin.sum_univ_fun_getElem costs fun cost => cost ^ 2,
    Fin.sum_univ_fun_getElem costs fun cost => cost,List.map_id'] at chebyshev
  exact chebyshev

inductive CostType where
  | cumulative
  | self

def CostType.cost : CostType → Recorded → Nat
  | .cumulative, exit => exit.cumul.toNat
  | .self, exit => exit.self.toNat

def CostType.sum : CostType → Input UInt64 → UInt64
  | .cumulative, tuple => tuple.sumCumulativeCost
  | .self, tuple => tuple.sumSelfCost

def CostType.sqr : CostType → Input UInt64 → UInt64
  | .cumulative, tuple => tuple.sqrCumulativeCost
  | .self, tuple => tuple.sqrSelfCost

theorem CostType.sum_add (mode : CostType) (exit : Recorded) (tuple : Input UInt64) :
    mode.sum (exit.add tuple) = mode.sum tuple + UInt64.ofNat (mode.cost exit) := by
  cases mode with
  | cumulative => exact congrArg (tuple.sumCumulativeCost + ·) UInt64.ofNat_toNat.symm
  | self => exact congrArg (tuple.sumSelfCost + ·) UInt64.ofNat_toNat.symm

theorem CostType.sqr_add (mode : CostType) (exit : Recorded) (tuple : Input UInt64) :
    mode.sqr (exit.add tuple) = mode.sqr tuple + UInt64.ofNat (mode.cost exit ^ 2) := by
  rw [Nat.pow_two,UInt64.ofNat_mul]
  cases mode with
  | cumulative =>
    rw [CostType.cost,UInt64.ofNat_toNat]
    rfl
  | self =>
    rw [CostType.cost,UInt64.ofNat_toNat]
    rfl

/-- The formula of `getVar`. -/
def variance (calls sqr sum : Float) : Float := sqr / calls - sum / calls * (sum / calls)

/-- `getVar` on a tuple as printed and parsed; `none` for its exception. -/
def getVar (mode : CostType) (tuple : Input UInt64) : Option Float :=
  let variance := variance tuple.calls.toFloat (mode.sqr tuple).toFloat (mode.sum tuple).toFloat
  if variance < 0 then none else some variance

def nearest (n : Nat) : Float := (UInt64.ofNat n).toFloat

theorem reads_nearest {n : Nat} (bound : n < 2 ^ 64) :
    ∃ y, Floats.Reads 64 (nearest n) y ∧ Floats.Close n y := by
  have read := Floats.reads_ofNat bound
  have same : nearest n = .ofModel (.ofNat n) := by
    show Float.ofModel (.ofNat (UInt64.ofNat n).toNat) = _
    rw [UInt64.toNat_ofNat_of_lt' bound]
  rwa [same]

theorem square_le_mean {n sqr sum calls squares costs mean meanSqr square : ℚ} (positive : 0 < n) (nonneg : 0 ≤ sum)
    (nonneg' : 0 ≤ sqr) (toCalls : Floats.Close n calls) (toSquares : Floats.Close sqr squares) (toCosts : Floats.Close sum costs)
    (toMean : Floats.Close (costs / calls) mean) (toMeanSqr : Floats.Close (squares / calls) meanSqr)
    (toSquare : Floats.Close (mean * mean) square)
    (spread : (1 + 1 / 2 ^ 48) * sum ^ 2 ≤ n * sqr) : square ≤ meanSqr := by
  have calls_pos : 0 < calls := lt_of_lt_of_le (mul_pos positive (by norm_num)) toCalls.least
  have costs_nonneg : 0 ≤ costs := le_trans (mul_nonneg nonneg (by norm_num)) toCosts.least
  have mean_nonneg : 0 ≤ mean := le_trans (mul_nonneg (div_nonneg costs_nonneg calls_pos.le) (by norm_num)) toMean.least
  have top : mean ≤ sum * (1 + 1 / 2 ^ 52) ^ 2 / calls := by
    refine toMean.greatest.trans ?_
    rw [div_mul_eq_mul_div,pow_two,← mul_assoc]
    gcongr
    exact toCosts.greatest
  have upper : square ≤ sum ^ 2 * (1 + 1 / 2 ^ 52) ^ 5 / calls ^ 2 := by
    refine toSquare.greatest.trans ?_
    calc mean * mean * (1 + 1 / 2 ^ 52)
        ≤ (sum * (1 + 1 / 2 ^ 52) ^ 2 / calls) * (sum * (1 + 1 / 2 ^ 52) ^ 2 / calls) * (1 + 1 / 2 ^ 52) := by gcongr
      _ = sum ^ 2 * (1 + 1 / 2 ^ 52) ^ 5 / calls ^ 2 := by field_simp
  have lower : sqr * (1 - 1 / 2 ^ 52) ^ 2 / calls ≤ meanSqr := by
    refine le_trans ?_ toMeanSqr.least
    rw [div_mul_eq_mul_div,pow_two,← mul_assoc]
    exact div_le_div_of_nonneg_right (mul_le_mul_of_nonneg_right toSquares.least (by norm_num)) calls_pos.le
  refine upper.trans (le_trans ?_ lower)
  rw [div_le_div_iff₀ (by positivity) calls_pos]
  calc sum ^ 2 * (1 + 1 / 2 ^ 52) ^ 5 * calls
      ≤ (1 + 1 / 2 ^ 48) * sum ^ 2 * (1 - 1 / 2 ^ 52) ^ 3 * calls := by
        have constants : (1 + 1 / 2 ^ 52 : ℚ) ^ 5 ≤ (1 + 1 / 2 ^ 48) * (1 - 1 / 2 ^ 52) ^ 3 := by norm_num
        have scaled := mul_le_mul_of_nonneg_left constants (mul_nonneg (sq_nonneg sum) calls_pos.le)
        linarith
    _ ≤ n * sqr * (1 - 1 / 2 ^ 52) ^ 3 * calls :=
        mul_le_mul_of_nonneg_right (mul_le_mul_of_nonneg_right spread (by norm_num)) calls_pos.le
    _ = sqr * (1 - 1 / 2 ^ 52) ^ 2 * (n * (1 - 1 / 2 ^ 52)) * calls := by ring
    _ ≤ sqr * (1 - 1 / 2 ^ 52) ^ 2 * calls * calls := by
        have scaled := mul_le_mul_of_nonneg_left toCalls.least (mul_nonneg nonneg' (sq_nonneg (1 - 1 / 2 ^ 52 : ℚ)))
        exact mul_le_mul_of_nonneg_right scaled calls_pos.le
    _ = sqr * (1 - 1 / 2 ^ 52) ^ 2 * calls ^ 2 := by ring

/-- Where the variance of the costs is at least `2^-48` of their squared mean, its doubles are not below zero
either. -/
theorem variance_notBelow {n sqr sum : Nat} (positive : 0 < n) (calls : n < 2 ^ 64) (squares : sqr < 2 ^ 64) (costs : sum < 2 ^ 64)
    (spread : (1 + 1 / 2 ^ 48) * (sum : ℚ) ^ 2 ≤ n * sqr) : ¬variance (nearest n) (nearest sqr) (nearest sum) < 0 := by
  obtain ⟨calls,readCalls,toCalls⟩ := reads_nearest calls
  obtain ⟨squares,readSquares,toSquares⟩ := reads_nearest squares
  obtain ⟨costs,readCosts,toCosts⟩ := reads_nearest costs
  have positive : (0 : ℚ) < n := Nat.cast_pos.mpr positive
  have calls_pos : 0 < calls := lt_of_lt_of_le (mul_pos positive (by norm_num)) toCalls.least
  obtain ⟨mean,readMean,toMean⟩ := readCosts.div readCalls calls_pos (by decide)
  obtain ⟨meanSqr,readMeanSqr,toMeanSqr⟩ := readSquares.div readCalls calls_pos (by decide)
  obtain ⟨square,readSquare,toSquare⟩ := readMean.mul readMean (by decide)
  exact (readMeanSqr.mono (by decide)).sub_notBelow readSquare
    (square_le_mean positive (Nat.cast_nonneg sum) (Nat.cast_nonneg sqr) toCalls toSquares toCosts toMean toMeanSqr toSquare
      spread)

theorem getVar_valid {mode : CostType} {tuple : Input UInt64} (positive : 0 < tuple.calls.toNat)
    (spread : (1 + 1 / 2 ^ 48) * ((mode.sum tuple).toNat : ℚ) ^ 2 ≤ tuple.calls.toNat * (mode.sqr tuple).toNat) :
    (getVar mode tuple).isSome = true := by
  have valid := variance_notBelow positive (UInt64.toNat_lt _) (UInt64.toNat_lt _) (UInt64.toNat_lt _) spread
  unfold nearest at valid
  rw [UInt64.ofNat_toNat,UInt64.ofNat_toNat,UInt64.ofNat_toNat] at valid
  unfold getVar
  dsimp only
  rw [if_neg valid]
  rfl

/-- Without a variance they can be: five equal calls. -/
example : variance (nearest 5) (nearest (5 * 42443373 ^ 2)) (nearest (5 * 42443373)) < 0 := by decide +kernel

theorem Collected.sums {exits : List Recorded} {inputMap : HashTable (Input UInt64)}
    (collected : Collected cfg exits inputMap) {tuple : Input UInt64} (member : tuple ∈ inputMap.nodes) (mode : CostType) :
    mode.sum tuple = UInt64.ofNat ((Recorded.ofTuple cfg exits tuple).map mode.cost).sum ∧
      mode.sqr tuple = UInt64.ofNat ((Recorded.ofTuple cfg exits tuple).map fun exit => mode.cost exit ^ 2).sum ∧
      tuple.calls = UInt64.ofNat (Recorded.ofTuple cfg exits tuple).length := by
  obtain ⟨exit,-,whole⟩ := collected.known tuple member
  have zero : mode.sum (exit.fresh cfg) = 0 ∧ mode.sqr (exit.fresh cfg) = 0 := by cases mode <;> exact ⟨rfl,rfl⟩
  have calls := foldl_add Input.calls (fun _ => 1) (fun _ _ => rfl) (Recorded.ofTuple cfg exits tuple) (exit.fresh cfg)
  have sum := foldl_add mode.sum mode.cost mode.sum_add (Recorded.ofTuple cfg exits tuple) (exit.fresh cfg)
  have sqr := foldl_add mode.sqr _ mode.sqr_add (Recorded.ofTuple cfg exits tuple) (exit.fresh cfg)
  rw [← whole] at calls sum sqr
  rw [zero.1,UInt64.zero_add] at sum
  rw [zero.2,UInt64.zero_add] at sqr
  rw [List.map_const',List.sum_replicate,smul_eq_mul,Nat.mul_one] at calls
  exact ⟨sum,sqr,calls.trans (UInt64.zero_add _)⟩

/-- The sums of squares of a tuple are exact and bound its sums, and its variance is valid,
exactly when its calls and sums of squares fit and the variance of the exact sums,
as doubles, is not below zero. -/
theorem square_sums_exact_iff (exits : List Recorded) {tuple : Input UInt64}
    (member : tuple ∈ (recordAll cfg exits).nodes)
    (plain : ∀ mode : CostType, ((Recorded.ofTuple cfg exits tuple).map mode.cost).sum < 2 ^ 64) :
    (tuple.calls.toNat = (Recorded.ofTuple cfg exits tuple).length ∧ ∀ mode : CostType,
      (mode.sqr tuple).toNat = ((Recorded.ofTuple cfg exits tuple).map fun exit => mode.cost exit ^ 2).sum ∧
      (mode.sum tuple).toNat ^ 2 ≤ tuple.calls.toNat * (mode.sqr tuple).toNat ∧ (getVar mode tuple).isSome = true) ↔
    ((Recorded.ofTuple cfg exits tuple).length < 2 ^ 64 ∧ ∀ mode : CostType,
      ((Recorded.ofTuple cfg exits tuple).map fun exit => mode.cost exit ^ 2).sum < 2 ^ 64 ∧
      ¬variance (nearest (Recorded.ofTuple cfg exits tuple).length)
        (nearest ((Recorded.ofTuple cfg exits tuple).map fun exit => mode.cost exit ^ 2).sum)
        (nearest ((Recorded.ofTuple cfg exits tuple).map mode.cost).sum) < 0) := by
  have sums := fun mode => (recordAll_collected exits).sums member mode
  generalize Recorded.ofTuple cfg exits tuple = own at plain sums ⊢
  have valid : ∀ mode : CostType, (getVar mode tuple).isSome = true ↔
      ¬variance (nearest own.length) (nearest (own.map fun exit => mode.cost exit ^ 2).sum)
        (nearest (own.map mode.cost).sum) < 0 := by
    intro mode
    obtain ⟨sum,sqr,calls⟩ := sums mode
    unfold getVar nearest
    rw [sum,sqr,calls]
    dsimp only
    split <;> simp [*]
  constructor
  · rintro ⟨calls,exact⟩
    refine ⟨calls ▸ UInt64.toNat_lt _,?_⟩
    intro mode
    obtain ⟨sqr,-,some⟩ := exact mode
    exact ⟨sqr ▸ UInt64.toNat_lt _,(valid mode).mp some⟩
  · rintro ⟨few,fits⟩
    have calls : tuple.calls.toNat = own.length := by
      rw [(sums .self).2.2,UInt64.toNat_ofNat_of_lt' few]
    refine ⟨calls,?_⟩
    intro mode
    obtain ⟨sum,sqr,-⟩ := sums mode
    have sqr : (mode.sqr tuple).toNat = (own.map fun exit => mode.cost exit ^ 2).sum := by
      rw [sqr,UInt64.toNat_ofNat_of_lt' (fits mode).1]
    have sum : (mode.sum tuple).toNat = (own.map mode.cost).sum := by
      rw [sum,UInt64.toNat_ofNat_of_lt' (plain mode)]
    refine ⟨sqr,?_,(valid mode).mpr (fits mode).2⟩
    have chebyshev := sum_squared_le (own.map mode.cost)
    rw [List.map_map,List.length_map] at chebyshev
    rw [sum,sqr,calls]
    exact chebyshev

end

def oneCall (cost : UInt64) : Recorded := ⟨zeroActivation,0,cost,cost,true⟩

def oneCallTuple (cost : UInt64) : Input UInt64 := (oneCall cost).add ((oneCall cost).fresh (smallConfig .rms))

theorem oneCall_member (cost : UInt64) : oneCallTuple cost ∈ (recordAll (smallConfig .rms) [oneCall cost]).nodes := by
  change oneCallTuple cost ∈ (htAddNode htConstruct (oneCallTuple cost)).nodes
  exact mem_htAddNode.mpr (.inl rfl)

def threeCalls : List Recorded := [oneCall 3,oneCall 5,oneCall 4]

def threeCallsTuple : Input UInt64 := (oneCall 4).add ((oneCall 5).add (oneCallTuple 3))

theorem threeCalls_member : threeCallsTuple ∈ (recordAll (smallConfig .rms) threeCalls).nodes := by
  have nodes : (recordAll (smallConfig .rms) threeCalls).nodes = [threeCallsTuple] := rfl
  rw [nodes]
  exact List.mem_singleton_self _

theorem square_sums_of_short_calls :
    threeCallsTuple.sqrCumulativeCost.toNat = 50 ∧ (getVar .cumulative threeCallsTuple).isSome = true := by
  have own : Recorded.ofTuple (smallConfig .rms) threeCalls threeCallsTuple = threeCalls := rfl
  have exact := (square_sums_exact_iff threeCalls threeCalls_member (by
    intro mode
    rw [own]
    cases mode <;> decide)).mpr (by
    rw [own]
    refine ⟨by decide,?_⟩
    intro mode
    cases mode <;> exact ⟨by decide,by decide +kernel⟩)
  exact ⟨(exact.2 .cumulative).1,(exact.2 .cumulative).2.2⟩

/-- The square of a call of 2^32 basic blocks is lost. -/
theorem square_of_long_call_lost :
    oneCallTuple (2 ^ 32) ∈ (recordAll (smallConfig .rms) [oneCall (2 ^ 32)]).nodes ∧
      (oneCallTuple (2 ^ 32)).sumCumulativeCost = 2 ^ 32 ∧ (oneCallTuple (2 ^ 32)).sqrCumulativeCost = 0 ∧
      getVar .cumulative (oneCallTuple (2 ^ 32)) = none := by
  refine ⟨oneCall_member _,rfl,rfl,?_⟩
  have negative : (getVar .cumulative (oneCallTuple (2 ^ 32))).isNone = true := by decide +kernel
  exact Option.isNone_iff_eq_none.mp negative

end Aprof
