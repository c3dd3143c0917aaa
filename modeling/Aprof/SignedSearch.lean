import Aprof.Compression

/-! `binary_search` with its bounds in the C type `Int` and an array that ends. The
midpoint is halved after the sum has been formed, so the last turns of a search in an
array of more than 2^30 + 1 stamps leave the type; below that size the search is the
one on natural numbers. -/
namespace Aprof

open Floor

namespace Signed

/-- A read of `array`, which has `size` entries. -/
def entry (array : Nat → Nat) (size : Nat) (index : Int) : Result Nat :=
  if 0 ≤ index ∧ index < size then .ok (array index.toNat) else .error .invalidPointer

/-- Half of an `Int` is far from the ends of the type, so only the sum can wrap. -/
def midpoint (lo hi : Int) : Int := (toInt (lo + hi)).tdiv 2

inductive Turn where
  | ends (outcome : Result Nat)
  | goes (lo hi : Int)

/-- The test of the `do` loop. -/
def again (lo hi : Int) : Turn :=
  if lo ≤ hi then .goes lo hi else .ends (.error (.assertion "Binary search fail"))

/-- One turn of the `do` loop. -/
def turn (array : Nat → Nat) (size ts : Nat) (lo hi : Int) : Turn :=
  match entry array size (midpoint lo hi) with
  | .error fault => .ends (.error fault)
  | .ok here =>
    if here = ts then .ends (.ok (midpoint lo hi).toNat)
    else if here > ts then again lo (midpoint lo hi - 1)
    else
      match entry array size (midpoint lo hi + 1) with
      | .error fault => .ends (.error fault)
      | .ok next => if next > ts then .ends (.ok (midpoint lo hi).toNat) else again (midpoint lo hi + 1) hi

/-- `none` when the turns run out. -/
def searchLoop (array : Nat → Nat) (size ts : Nat) : Nat → Int → Int → Option (Result Nat)
  | 0, _, _ => none
  | fuel + 1, lo, hi =>
    match turn array size ts lo hi with
    | .ends outcome => some outcome
    | .goes lo hi => searchLoop array size ts fuel lo hi

def binarySearch (fuel : Nat) (array : Nat → Nat) (init size ts : Nat) : Option (Result Nat) :=
  if size = 1 then some (.ok 0)
  else
    match entry array size 1 with
    | .error fault => some (.error fault)
    | .ok second =>
      if second > ts then some (.ok 0)
      else
        match entry array size (size - 1) with
        | .error fault => some (.error fault)
        | .ok last =>
          if last ≤ ts then some (.ok (size - 1))
          else searchLoop array size ts fuel (toInt init) (toInt (size - 1))

/-- The three ways `LK_compress_drms` searches the array of active timestamps. -/
inductive Call (array : Nat → Nat) (n : Nat) : Nat → Nat → Nat → Prop where
  | global {ts : Nat} (positive : 0 < ts) : Call array n 0 n ts
  | below {size ts : Nat} (inside : size ≤ n) (less : ts < array size) : Call array n 0 size ts
  | above {init ts : Nat} (inside : init + 1 < n) (reached : array (init + 1) ≤ ts) : Call array n init n ts

/-- Every search ends and returns the floor index. -/
def FindsFloors (array : Nat → Nat) (n : Nat) : Prop :=
  ∀ init size ts, Call array n init size ts →
    ∃ k, IsFloor array size ts k ∧ ∃ fuel, binarySearch fuel array init size ts = some (.ok k)

section
variable {array : Nat → Nat} {n size ts : Nat}

theorem entry_inside {index : Nat} (inside : index < size) : entry array size index = .ok (array index) := by
  unfold entry
  rw [if_pos ⟨Int.natCast_nonneg _,by exact_mod_cast inside⟩,Int.toNat_natCast]

theorem entry_negative {index : Int} (negative : index < 0) : entry array size index = .error .invalidPointer := by
  unfold entry
  exact if_neg fun inside => absurd inside.1 (not_le.mpr negative)

theorem midpoint_small {lo hi : Nat} (small : lo + hi < 2 ^ 31) : midpoint lo hi = ((lo + hi) / 2 : Nat) := by
  have whole : toInt ((lo : Int) + hi) = (lo + hi : Nat) := by
    unfold toInt
    rw [Int.bmod_def]
    omega
  unfold midpoint
  rw [whole]
  exact Int.ofNat_tdiv (lo + hi) 2

theorem midpoint_large {lo hi : Nat} (large : 2 ^ 31 ≤ lo + hi) (low : lo + hi < 2 ^ 32 - 1) :
    midpoint lo hi < 0 := by
  have wrapped : toInt ((lo : Int) + hi) = -((2 ^ 32 - (lo + hi) : Nat) : Int) := by
    unfold toInt
    rw [Int.bmod_def]
    omega
  have half : (-((2 ^ 32 - (lo + hi) : Nat) : Int)).tdiv 2 = -((2 ^ 32 - (lo + hi)) / 2 : Nat) := by
    rw [Int.neg_tdiv]
    exact congrArg _ (Int.ofNat_tdiv _ 2)
  unfold midpoint
  rw [wrapped,half]
  omega

theorem searchLoop_succ (fuel : Nat) (lo hi : Int) : searchLoop array size ts (fuel + 1) lo hi =
    match turn array size ts lo hi with
    | .ends outcome => some outcome
    | .goes lo hi => searchLoop array size ts fuel lo hi := rfl

section
variable {lo hi : Int} {index : Nat}

theorem turn_hit (middle : midpoint lo hi = index) (inside : index < size) (equal : array index = ts) :
    turn array size ts lo hi = .ends (.ok index) := by
  unfold turn
  rw [middle,entry_inside inside]
  exact if_pos equal

theorem turn_down (middle : midpoint lo hi = index) (inside : index < size) (greater : ts < array index) :
    turn array size ts lo hi = again lo (index - 1) := by
  unfold turn
  rw [middle,entry_inside inside]
  exact (if_neg (Nat.ne_of_gt greater)).trans (if_pos greater)

theorem turn_next (middle : midpoint lo hi = index) (inside : index + 1 < size) (less : array index < ts) :
    turn array size ts lo hi = if ts < array (index + 1) then .ends (.ok index) else again (index + 1 : Nat) hi := by
  unfold turn
  have up : (index : Int) + 1 = (index + 1 : Nat) := by omega
  rw [middle,entry_inside (Nat.lt_of_succ_lt inside),up,entry_inside inside]
  exact (if_neg (Nat.ne_of_lt less)).trans (if_neg (Nat.lt_asymm less))

theorem turn_outside (negative : midpoint lo hi < 0) : turn array size ts lo hi = .ends (.error .invalidPointer) := by
  unfold turn
  rw [entry_negative negative]

end

theorem searchLoop_found {fuel lo hi k : Nat} (le : lo ≤ hi) (found : Aprof.searchLoop array ts fuel lo hi = some k) :
    lo ≤ k ∧ array k ≤ ts := by
  induction fuel generalizing lo hi with
  | zero => cases found
  | succ fuel ih =>
    unfold Aprof.searchLoop at found
    dsimp only at found
    split at found
    · next equal =>
      cases found
      exact ⟨by omega,Nat.le_of_eq equal⟩
    · split at found
      · split at found
        · exact ih (by omega) found
        · cases found
      · split at found
        · cases found
          exact ⟨by omega,by omega⟩
        · split at found
          · obtain ⟨low,small⟩ := ih (by omega) found
            exact ⟨by omega,small⟩
          · cases found

/-- The loop on natural numbers, as long as no sum leaves the type: the index found is below
the last one, and no turn starts above it. -/
theorem searchLoop_of (small : size ≤ 2 ^ 30 + 1) (top : ts < array (size - 1)) {fuel lo hi k : Nat} (le : lo ≤ hi)
    (inside : hi < size) (found : Aprof.searchLoop array ts fuel lo hi = some k) :
    searchLoop array size ts fuel lo hi = some (.ok k) := by
  induction fuel generalizing lo hi with
  | zero => cases found
  | succ fuel ih =>
    obtain ⟨low,floor⟩ := searchLoop_found le found
    have bound := searchLoop_le array ts (fuel + 1) le found
    have before : k ≠ size - 1 := by
      rintro rfl
      omega
    have middle : midpoint lo hi = ((lo + hi) / 2 : Nat) := midpoint_small (by omega)
    unfold Aprof.searchLoop at found
    dsimp only at found
    rw [searchLoop_succ]
    have range : lo ≤ (lo + hi) / 2 ∧ (lo + hi) / 2 ≤ hi := by omega
    generalize (lo + hi) / 2 = index at found range middle
    obtain ⟨left,right⟩ := range
    split at found
    · next equal =>
      rw [turn_hit middle (by omega) equal]
      cases found
      rfl
    · next unequal =>
      split at found
      · next greater =>
        rw [turn_down middle (by omega) greater]
        split at found
        · next more =>
          have down : (index : Int) - 1 = (index - 1 : Nat) := by omega
          rw [again,if_pos (by omega),down]
          exact ih (by omega) (by omega) found
        · cases found
      · next less =>
        have last : index ≠ size - 1 := by
          rintro rfl
          omega
        rw [turn_next middle (by omega) (by omega)]
        split at found
        · next ahead =>
          rw [if_pos ahead]
          cases found
          rfl
        · next behind =>
          rw [if_neg behind]
          split at found
          · next more =>
            rw [again,if_pos (by exact_mod_cast more)]
            exact ih more inside found
          · cases found

theorem toInt_natCast {m : Nat} (small : m < 2 ^ 31) : toInt m = m := by
  unfold toInt
  rw [Int.bmod_def]
  omega

theorem binarySearch_of (small : size ≤ 2 ^ 30 + 1) (nonempty : 0 < size) {init k : Nat} (start : init < size)
    (found : Aprof.binarySearch array init size ts = some k) : binarySearch size array init size ts = some (.ok k) := by
  unfold Aprof.binarySearch at found
  unfold binarySearch
  split at found
  · next one =>
    rw [if_pos one]
    cases found
    rfl
  · next more =>
    have second : entry array size 1 = .ok (array 1) := @entry_inside array size 1 (by omega)
    have downcast : (size : Int) - 1 = (size - 1 : Nat) := by omega
    have last := @entry_inside array size (size - 1) (by omega)
    rw [if_neg more,second]
    dsimp only
    split at found
    · next early =>
      rw [if_pos early]
      cases found
      rfl
    · next late =>
      rw [if_neg late,downcast,last]
      dsimp only
      split at found
      · next top =>
        rw [if_pos top]
        cases found
        rfl
      · next top =>
        rw [if_neg top,toInt_natCast (by omega),toInt_natCast (by omega)]
        exact searchLoop_of small (Nat.lt_of_not_le top) (by omega) (by omega) found

theorem searchLoop_leaves (inc : Increasing array n) (huge : 2 ^ 30 + 2 ≤ n) (word : n ≤ 2 ^ 31) (fuel : Nat) {lo : Nat}
    (low : lo ≤ n - 2) (k : Nat) : searchLoop array n (array (n - 2)) fuel lo (n - 1 : Nat) ≠ some (.ok k) := by
  induction fuel generalizing lo with
  | zero => nofun
  | succ fuel ih =>
    rw [searchLoop_succ]
    rcases Nat.lt_or_ge (lo + (n - 1)) (2 ^ 31) with fits | wraps
    · have middle := midpoint_small fits
      have index : (lo + (n - 1)) / 2 < n - 2 := by omega
      generalize (lo + (n - 1)) / 2 = i at index middle
      have next : ¬ array (n - 2) < array (i + 1) := Nat.not_lt.mpr (inc.le (by omega) (by omega))
      rw [turn_next middle (by omega) (inc i (n - 2) index (by omega)),if_neg next,again,if_pos (by omega)]
      exact ih (by omega)
    · rw [turn_outside (midpoint_large wraps (by omega))]
      nofun

theorem binarySearch_leaves (inc : Increasing array n) (huge : 2 ^ 30 + 2 ≤ n) (word : n < 2 ^ 32) (fuel k : Nat) :
    binarySearch fuel array 0 n (array (n - 2)) ≠ some (.ok k) := by
  have second : entry array n 1 = .ok (array 1) := @entry_inside array n 1 (by omega)
  have downcast : (n : Int) - 1 = (n - 1 : Nat) := by omega
  have last := @entry_inside array n (n - 1) (by omega)
  have early : ¬ array 1 > array (n - 2) := Nat.not_lt.mpr (inc.le (by omega) (by omega))
  have top : ¬ array (n - 1) ≤ array (n - 2) := Nat.not_le.mpr (inc (n - 2) (n - 1) (by omega) (by omega))
  unfold binarySearch
  rw [if_neg (by omega),second]
  dsimp only
  rw [if_neg early,downcast,last]
  dsimp only
  rw [if_neg top]
  rcases Nat.lt_or_ge (n - 1) (2 ^ 31) with fits | wraps
  · rw [toInt_natCast fits]
    exact searchLoop_leaves inc huge (by omega) fuel (Nat.zero_le _) k
  · have outside : midpoint (toInt (0 : Nat)) (toInt (n - 1 : Nat)) < 0 := by
      have once : toInt (toInt (0 : Nat) + toInt (n - 1 : Nat)) = toInt ((0 : Nat) + (n - 1 : Nat)) := by
        unfold toInt
        rw [Int.bmod_add_bmod,Int.add_bmod_bmod]
      have negative := @midpoint_large 0 (n - 1) (by omega) (by omega)
      unfold midpoint at negative ⊢
      rw [once]
      exact negative
    cases fuel with
    | zero => nofun
    | succ fuel =>
      rw [searchLoop_succ,turn_outside outside]
      nofun

/-- The searches of `LK_compress_drms` return floor indices exactly when the array has no more
than 2^30 + 1 entries. -/
theorem finds_floors_iff (array : Nat → Nat) (n : Nat) (inc : Increasing array n) (first : array 0 = 0) (nonempty : 0 < n)
    (word : n < 2 ^ 32) : FindsFloors array n ↔ n ≤ 2 ^ 30 + 1 := by
  constructor
  · intro finds
    by_contra huge
    have positive : 0 < array (n - 2) := first ▸ inc 0 (n - 2) (by omega) (by omega)
    obtain ⟨k,-,fuel,found⟩ := finds 0 n (array (n - 2)) (.global positive)
    exact binarySearch_leaves inc (by omega) word fuel k found
  · intro small init size ts call
    have low : array 0 ≤ ts := by
      rw [first]
      exact Nat.zero_le ts
    have search : ∀ {init size k}, size ≤ n → 0 < size → init < size → init ≤ k → IsFloor array size ts k →
        ∃ k, IsFloor array size ts k ∧ ∃ fuel, binarySearch fuel array init size ts = some (.ok k) := by
      intro init size k le positive start below floor
      exact ⟨k,floor,size,binarySearch_of (by omega) positive start (binarySearch_eq (inc.mono le) floor init below)⟩
    cases call with
    | global positive =>
      obtain ⟨k,floor⟩ := exists_isFloor inc nonempty ts low
      exact search le_rfl nonempty nonempty (Nat.zero_le k) floor
    | below inside less =>
      have positive : 0 < size := by
        apply Nat.pos_of_ne_zero
        rintro rfl
        omega
      obtain ⟨k,floor⟩ := exists_isFloor (inc.mono inside) positive ts low
      exact search inside positive positive (Nat.zero_le k) floor
    | above inside reached =>
      obtain ⟨k,floor⟩ := exists_isFloor inc nonempty ts low
      have ahead := (floor.le_iff inc inside).mp reached
      exact search le_rfl nonempty (by omega) (by omega) floor

/-- Two stamps. -/
theorem finds_floors_pair : FindsFloors id 2 :=
  (finds_floors_iff id 2 (fun _ _ less _ => less) rfl (by decide) (by decide)).mpr (by decide)

/-- The smallest array whose searches fail, with the stamps 0, 1, 2 and so on. -/
theorem large_search_fails : Increasing id (2 ^ 30 + 2) ∧ id 0 = 0 ∧ ¬ FindsFloors id (2 ^ 30 + 2) := by
  have inc : Increasing id (2 ^ 30 + 2) := fun _ _ less _ => less
  refine ⟨inc,rfl,fun finds => ?_⟩
  obtain ⟨k,-,fuel,found⟩ := finds 0 (2 ^ 30 + 2) (2 ^ 30) (.global (by norm_num))
  exact binarySearch_leaves inc le_rfl (by norm_num) fuel k found

end

end Signed

end Aprof
