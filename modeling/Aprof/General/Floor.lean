import Mathlib.Data.Nat.Count
import Mathlib.Data.List.Sort

/-! Floor indices in strictly increasing sequences and first indices of a
predicate, both by a walk over the indices below a bound. A sequence of stamps
is only ever compared through the floor index it assigns to a value. -/
namespace Aprof.Floor

/-- One more than the last index below the bound whose entry is at most `ts`,
and 0 when there is none. -/
def level (ids : Nat → Nat) (ts : Nat) : Nat → Nat
  | 0 => 0
  | n + 1 => if ids n ≤ ts then n + 1 else level ids ts n

def Increasing (ids : Nat → Nat) (n : Nat) : Prop := ∀ i j, i < j → j < n → ids i < ids j

theorem level_le (ids : Nat → Nat) (ts n : Nat) : level ids ts n ≤ n := by
  induction n with
  | zero => exact Nat.le_refl 0
  | succ n ih =>
    unfold level
    split <;> omega

theorem at_level (ids : Nat → Nat) (ts n i : Nat) (reached : level ids ts n = i + 1) :
    ids i ≤ ts := by
  induction n with
  | zero => simp [level] at reached
  | succ n ih =>
    unfold level at reached
    split at reached
    · next small =>
      have same : n = i := by omega
      exact same ▸ small
    · exact ih reached

theorem above_level (ids : Nat → Nat) (ts n i : Nat) (above : level ids ts n ≤ i) (bound : i < n) :
    ts < ids i := by
  induction n with
  | zero => omega
  | succ n ih =>
    unfold level at above
    split at above
    · omega
    · next large =>
      rcases Nat.lt_or_ge i n with below | last
      · exact ih above below
      · have same : i = n := by omega
        subst same
        omega

theorem Increasing.le {ids : Nat → Nat} {n i j : Nat} (inc : Increasing ids n) (le : i ≤ j)
    (bound : j < n) : ids i ≤ ids j := by
  rcases Nat.lt_or_eq_of_le le with lt | rfl
  · exact Nat.le_of_lt (inc i j lt bound)
  · exact Nat.le_refl _

theorem Increasing.index_eq {ids : Nat → Nat} {n i j : Nat} (inc : Increasing ids n) (low : i < n) (high : j < n)
    (same : ids i = ids j) : i = j := by
  rcases Nat.lt_trichotomy i j with less | equal | more
  · exact absurd same (Nat.ne_of_lt (inc i j less high))
  · exact equal
  · exact absurd same (Nat.ne_of_gt (inc j i more low))

theorem Increasing.lt_of_lt {ids : Nat → Nat} {n i j : Nat} (inc : Increasing ids n) (low : i < n)
    (less : ids i < ids j) : i < j := by
  by_contra back
  have := inc.le (Nat.le_of_not_lt back) low
  omega

theorem Increasing.mono {ids : Nat → Nat} {m n : Nat} (inc : Increasing ids n) (le : m ≤ n) :
    Increasing ids m :=
  fun i j lt bound => inc i j lt (by omega)

theorem Increasing.push {ids : Nat → Nat} {n : Nat} (inc : Increasing ids n)
    (above : ∀ i, i < n → ids i < ids n) : Increasing ids (n + 1) := by
  intro i j lt bound
  rcases Nat.lt_or_ge j n with below | last
  · exact inc i j lt below
  · have same : j = n := by omega
    subst same
    exact above i lt

theorem lt_level_iff {ids : Nat → Nat} {n : Nat} (inc : Increasing ids n) (ts i : Nat) (bound : i < n) :
    i < level ids ts n ↔ ids i ≤ ts := by
  constructor
  · intro below
    obtain ⟨k,reached⟩ : ∃ k, level ids ts n = k + 1 := ⟨level ids ts n - 1,by omega⟩
    have top := at_level ids ts n k reached
    have le := level_le ids ts n
    exact Nat.le_trans (inc.le (by omega) (by omega)) top
  · intro small
    by_contra above
    have := above_level ids ts n i (by omega) bound
    omega

theorem level_unique {ids : Nat → Nat} {n : Nat} (inc : Increasing ids n) (ts k : Nat) (le : k ≤ n)
    (answers : ∀ i, i < n → (i < k ↔ ids i ≤ ts)) : level ids ts n = k := by
  have bound := level_le ids ts n
  by_contra different
  rcases Nat.lt_or_gt_of_ne different with small | large
  · have below := (answers (level ids ts n) (by omega)).mp small
    have := above_level ids ts n _ (Nat.le_refl _) (by omega)
    omega
  · have reached := (lt_level_iff inc ts k (by omega)).mp large
    have := (answers k (by omega)).mpr reached
    omega

theorem level_pop {ids : Nat → Nat} {n : Nat} (inc : Increasing ids (n + 1)) (ts : Nat) :
    level ids ts n = min (level ids ts (n + 1)) n := by
  have le := level_le ids ts (n + 1)
  apply level_unique (inc.mono (Nat.le_succ n)) ts _ (by omega)
  intro i bound
  rw [← lt_level_iff inc ts i (by omega)]
  omega

theorem level_push {ids : Nat → Nat} {n ts : Nat} (above : ts < ids n) :
    level ids ts (n + 1) = level ids ts n := by
  unfold level
  rw [if_neg (by omega)]
  cases n <;> rfl

theorem level_full {ids : Nat → Nat} {n ts : Nat} (reached : ids n ≤ ts) :
    level ids ts (n + 1) = n + 1 := by
  unfold level
  rw [if_pos reached]

/-- `k` is the index of the last entry that is at most `ts`. -/
structure IsFloor (ids : Nat → Nat) (n ts k : Nat) : Prop where
  inside : k < n
  le : ids k ≤ ts
  above : ∀ j, k < j → j < n → ts < ids j

section
variable {ids : Nat → Nat} {n ts k : Nat}

theorem exists_isFloor (inc : Increasing ids n) (nonempty : 0 < n) (ts : Nat) (first : ids 0 ≤ ts) :
    ∃ k, IsFloor ids n ts k := by
  have reached := (lt_level_iff inc ts 0 nonempty).mpr first
  have bound := level_le ids ts n
  refine ⟨level ids ts n - 1,by omega,?_,?_⟩
  · exact (lt_level_iff inc ts _ (by omega)).mp (by omega)
  · intro j lt inside
    exact above_level ids ts n j (by omega) inside

theorem IsFloor.le_iff (floor : IsFloor ids n ts k) (inc : Increasing ids n) {j : Nat} (inside : j < n) :
    ids j ≤ ts ↔ j ≤ k := by
  constructor
  · intro small
    by_contra above
    have := floor.above j (by omega) inside
    omega
  · intro below
    exact Nat.le_trans (inc.le below floor.inside) floor.le

theorem IsFloor.take {m : Nat} (floor : IsFloor ids n ts k) (inside : k < m) (le : m ≤ n) :
    IsFloor ids m ts k :=
  ⟨inside,floor.le,fun j lt bound => floor.above j lt (by omega)⟩

theorem IsFloor.mono {ts' k' : Nat} (inc : Increasing ids n) (floor : IsFloor ids n ts k)
    (floor' : IsFloor ids n ts' k') (le : ts ≤ ts') : k ≤ k' :=
  (floor'.le_iff inc floor.inside).mp (Nat.le_trans floor.le le)

end

/-- Stamped cells: pending entries carry increasing positive stamps, and the
level of a cell is the floor index of its stamp among them. -/
structure Tracks (ids : Nat → Nat) (n : Nat) (value levels : Nat → Nat) : Prop where
  increasing : Increasing ids n
  positive : ∀ i, i < n → 0 < ids i
  floor : ∀ g, levels g = level ids (value g) n

section
variable {ids ids' value value' levels levels' : Nat → Nat} {n : Nat}

theorem Tracks.start (zero : ∀ g, levels g = 0) : Tracks ids 0 value levels :=
  ⟨fun _ _ _ bound => by omega,fun _ bound => by omega,zero⟩

theorem Tracks.le (tracks : Tracks ids n value levels) (g : Nat) : levels g ≤ n :=
  tracks.floor g ▸ level_le _ _ _

theorem Tracks.reaches (tracks : Tracks ids n value levels) (g i : Nat) (bound : i < n) :
    i < levels g ↔ ids i ≤ value g := by
  rw [tracks.floor g]
  exact lt_level_iff tracks.increasing _ i bound

theorem Tracks.renumber (tracks : Tracks ids n value levels) (increasing : Increasing ids' n)
    (positive : ∀ i, i < n → 0 < ids' i)
    (answers : ∀ g i, i < n → (ids i ≤ value g ↔ ids' i ≤ value' g)) : Tracks ids' n value' levels := by
  refine ⟨increasing,positive,fun g => ?_⟩
  symm
  apply level_unique increasing _ _ (tracks.le g)
  intro i bound
  rw [tracks.reaches g i bound]
  exact answers g i bound

theorem Tracks.congr (tracks : Tracks ids n value levels) (same : ∀ i, i < n → ids' i = ids i)
    (cells : ∀ g, value' g = value g) : Tracks ids' n value' levels := by
  refine tracks.renumber ?_ ?_ ?_
  · intro i j lt bound
    rw [same i (by omega),same j bound]
    exact tracks.increasing i j lt bound
  · intro i bound
    rw [same i bound]
    exact tracks.positive i bound
  · intro g i bound
    rw [same i bound,cells g]

theorem Tracks.push (tracks : Tracks ids n value levels) (same : ∀ i, i < n → ids' i = ids i)
    (above : ∀ i, i < n → ids' i < ids' n) (positive : 0 < ids' n) (fresh : ∀ g, value g < ids' n) :
    Tracks ids' (n + 1) value levels := by
  have kept := tracks.congr same fun _ => rfl
  refine ⟨kept.increasing.push above,?_,?_⟩
  · intro i bound
    rcases Nat.lt_or_eq_of_le (Nat.le_of_lt_succ bound) with below | rfl
    · exact kept.positive i below
    · exact positive
  · intro g
    rw [level_push (fresh g)]
    exact kept.floor g

theorem Tracks.pop (tracks : Tracks ids (n + 1) value levels) :
    Tracks ids n value fun g => min (levels g) n := by
  refine ⟨tracks.increasing.mono (Nat.le_succ n),fun i bound => tracks.positive i (by omega),fun g => ?_⟩
  rw [level_pop tracks.increasing,← tracks.floor g]

theorem Tracks.touch (tracks : Tracks ids n value levels) {g ts : Nat} (reached : ∀ i, i < n → ids i ≤ ts)
    (written : ∀ h, value' h = if h = g then ts else value h)
    (moved : ∀ h, levels' h = if h = g then n else levels h) : Tracks ids n value' levels' := by
  refine ⟨tracks.increasing,tracks.positive,fun h => ?_⟩
  rw [written h,moved h]
  split
  · cases n with
    | zero => rfl
    | succ n => rw [level_full (reached n (by omega))]
  · exact tracks.floor h

end

/-- The least index below the bound that satisfies `p`, the bound when none does. -/
def first (p : Nat → Bool) : Nat → Nat
  | 0 => 0
  | n + 1 => if first p n < n then first p n else if p n then n else n + 1

theorem first_le (p : Nat → Bool) (n : Nat) : first p n ≤ n := by
  induction n with
  | zero => exact Nat.le_refl 0
  | succ n ih =>
    unfold first
    split
    · omega
    · split <;> omega

theorem before_first (p : Nat → Bool) (n i : Nat) (before : i < first p n) : p i = false := by
  induction n with
  | zero => simp [first] at before
  | succ n ih =>
    unfold first at before
    split at before
    · exact ih before
    · next all =>
      split at before
      · exact ih (by omega)
      · next last =>
        rcases Nat.lt_or_ge i n with below | same
        · exact ih (by omega)
        · have same : i = n := by omega
          subst same
          simpa using last

theorem at_first (p : Nat → Bool) (n : Nat) (inside : first p n < n) : p (first p n) = true := by
  induction n with
  | zero => omega
  | succ n ih =>
    unfold first at inside ⊢
    split
    · next earlier => exact ih earlier
    · next all =>
      rw [if_neg all] at inside
      split
      · assumption
      · next last =>
        rw [if_neg last] at inside
        omega

theorem first_congr {p q : Nat → Bool} {n : Nat} (same : ∀ i, i < n → p i = q i) :
    first p n = first q n := by
  induction n with
  | zero => rfl
  | succ n ih =>
    unfold first
    rw [same n (by omega),ih fun i bound => same i (by omega)]

theorem first_succ_inside {p : Nat → Bool} {n : Nat} (inside : first p n < n) :
    first p (n + 1) = first p n := by
  simp [first,inside]

theorem first_succ_hit {p : Nat → Bool} {n : Nat} (hit : p n = true) :
    first p (n + 1) = first p n := by
  rcases Nat.lt_or_eq_of_le (first_le p n) with inside | all
  · exact first_succ_inside inside
  · simp [first,all,hit]

theorem first_succ_miss {p : Nat → Bool} {n : Nat} (all : first p n = n) (miss : p n = false) :
    first p (n + 1) = n + 1 := by
  simp [first,all,miss]

theorem count_congr {p q : Nat → Bool} {n : Nat} (same : ∀ i, i < n → p i = q i) :
    Nat.count (fun i => p i = true) n = Nat.count (fun i => q i = true) n := by
  induction n with
  | zero => simp
  | succ n ih => rw [Nat.count_succ,Nat.count_succ,ih fun i bound => same i (by omega),same n (by omega)]

theorem count_zero_iff (p : Nat → Bool) (n : Nat) :
    Nat.count (fun i => p i = true) n = 0 ↔ first p n = n := by
  induction n with
  | zero => simp [first]
  | succ n ih =>
    have le := first_le p n
    rw [Nat.count_succ]
    rcases Nat.lt_or_eq_of_le le with inside | all
    · have positive : Nat.count (fun i => p i = true) n ≠ 0 := by
        intro zero
        have := ih.mp zero
        omega
      rw [first_succ_inside inside]
      constructor <;> intro same <;> omega
    · cases last : p n with
      | true =>
        rw [first_succ_hit last]
        simp
        omega
      | false =>
        rw [first_succ_miss all last]
        simpa using ih.mpr all

end Aprof.Floor
