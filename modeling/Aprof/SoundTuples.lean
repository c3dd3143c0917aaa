import Aprof.PrintedMerges

/-! The assertions of `merge_tuple`. They hold of sound tuples, and the sum of sound tuples
is sound while it fits. -/
namespace Aprof

section
variable {D : Type}

/-- What `merge_tuple` asserts of the costs of a tuple. -/
structure CostsSound (tuple : Input D) : Prop where
  real : tuple.sumCumulRealCost.toNat ≤ tuple.sumCumulativeCost.toNat
  self : tuple.sumSelfCost.toNat ≤ tuple.sumCumulativeCost.toNat
  selfMin : tuple.minSelfCost.toNat ≤ tuple.minCumulativeCost.toNat
  selfMax : tuple.maxSelfCost.toNat ≤ tuple.maxCumulativeCost.toNat
  largest : tuple.maxSelfCost.toNat ≤ tuple.sumSelfCost.toNat
  least : tuple.minSelfCost.toNat * tuple.calls.toNat ≤ tuple.sumSelfCost.toNat

/-- What `merge_tuple` asserts of a tuple of some input size. -/
structure MergeSound (metric : InputMetric) (size : UInt64) (tuple : Input D) : Prop extends CostsSound tuple where
  cumulInduced : metric = .drms →
    tuple.sumCumulThread.toNat + tuple.sumCumulSyscall.toNat ≤ size.toNat * tuple.calls.toNat
  selfInduced : metric = .drms →
    tuple.sumSelfThread.toNat + tuple.sumSelfSyscall.toNat ≤ size.toNat * tuple.calls.toNat

/-- A tuple with the smallest self cost not above the largest one, as one with calls has them -/
def SelfOrdered (tuple : Input D) : Prop := tuple.minSelfCost.toNat ≤ tuple.maxSelfCost.toNat

structure SoundlyPrinted (cfg : Config) (tuple : Input UInt64) : Prop extends MergeSound cfg.inputMetric tuple.inputSize tuple where
  ordered : SelfOrdered tuple

/-- The costs of a tuple are those of two others. -/
structure Joined {A B : Type} (first : Input A) (second : Input B) (both : Input D) : Prop where
  calls : both.calls.toNat = first.calls.toNat + second.calls.toNat
  sum : both.sumCumulativeCost.toNat = first.sumCumulativeCost.toNat + second.sumCumulativeCost.toNat
  real : both.sumCumulRealCost.toNat = first.sumCumulRealCost.toNat + second.sumCumulRealCost.toNat
  self : both.sumSelfCost.toNat = first.sumSelfCost.toNat + second.sumSelfCost.toNat
  min : both.minCumulativeCost.toNat = Min.min second.minCumulativeCost.toNat first.minCumulativeCost.toNat
  max : both.maxCumulativeCost.toNat = Max.max second.maxCumulativeCost.toNat first.maxCumulativeCost.toNat
  selfMin : both.minSelfCost.toNat = Min.min second.minSelfCost.toNat first.minSelfCost.toNat
  selfMax : both.maxSelfCost.toNat = Max.max second.maxSelfCost.toNat first.maxSelfCost.toNat

section
variable {A B : Type} {first : Input A} {second : Input B} {both : Input D}

theorem Joined.sound (joined : Joined first second both) (sound : CostsSound first) (other : CostsSound second) : CostsSound both := by
  constructor
  · rw [joined.real,joined.sum]
    exact Nat.add_le_add sound.real other.real
  · rw [joined.self,joined.sum]
    exact Nat.add_le_add sound.self other.self
  · rw [joined.selfMin,joined.min]
    exact min_le_min other.selfMin sound.selfMin
  · rw [joined.selfMax,joined.max]
    exact max_le_max other.selfMax sound.selfMax
  · rw [joined.selfMax,joined.self]
    exact max_le (other.largest.trans (Nat.le_add_left _ _)) (sound.largest.trans (Nat.le_add_right _ _))
  · rw [joined.selfMin,joined.calls,joined.self,Nat.mul_add]
    exact Nat.add_le_add ((Nat.mul_le_mul_right _ (min_le_right _ _)).trans sound.least)
      ((Nat.mul_le_mul_right _ (min_le_left _ _)).trans other.least)

theorem Joined.ordered (joined : Joined first second both) (ordered : SelfOrdered second) : SelfOrdered both := by
  rw [SelfOrdered,joined.selfMin,joined.selfMax]
  exact (min_le_left _ _).trans (ordered.trans (le_max_left _ _))

end

theorem add_fits {dest inc : UInt64} (fits : dest.toNat + inc.toNat < 2 ^ 64) :
    add dest inc = .ok (dest + inc) ∧ (dest + inc).toNat = dest.toNat + inc.toNat := by
  have sum : (dest + inc).toNat = dest.toNat + inc.toNat := by rw [UInt64.toNat_add,Nat.mod_eq_of_lt fits]
  have le : dest ≤ dest + inc := by
    rw [UInt64.le_iff_toNat_le,sum]
    exact Nat.le_add_right _ _
  exact ⟨bind_ok.mpr ⟨(),check_ok.mpr (decide_eq_true le),rfl⟩,sum⟩

theorem ok_then {α β : Type} {first : Result α} {value : α} (done : first = .ok value) (next : α → Result β) :
    (first >>= next) = next value := by
  rw [done,ok_bind]

def sumOver (field : Input UInt64 → UInt64) (tuples : List (Input UInt64)) : Nat := (tuples.map fun tuple => (field tuple).toNat).sum

/-- The sums of squares of tuples that are added in this order -/
def addSquares (squares : Squares D) (field : Input UInt64 → UInt64) (tuples : List (Input UInt64)) (old : D) : Option D :=
  tuples.foldlM (fun old tuple => squares.add old (decimal (field tuple).toNat)) old

/-- The sums of some tuples of one input size stay in their words. -/
structure SumsFit (squares : Squares D) (cfg : Config) (size : UInt64) (tuples : List (Input UInt64)) : Prop where
  sum : sumOver Input.sumCumulativeCost tuples < 2 ^ 64
  calls : sumOver Input.calls tuples < 2 ^ 64
  induced : cfg.inputMetric = .drms → size.toNat * sumOver Input.calls tuples < 2 ^ 64
  sqrSum : addSquares squares Input.sqrCumulativeCost tuples squares.zero ≠ none
  selfSqr : addSquares squares Input.sqrSelfCost tuples squares.zero ≠ none

theorem SumsFit.none {squares : Squares D} {cfg : Config} {size : UInt64} : SumsFit squares cfg size [] :=
  ⟨by decide,by decide,fun _ => (by decide : 0 < 2 ^ 64),Option.some_ne_none _,Option.some_ne_none _⟩

end

end Aprof
