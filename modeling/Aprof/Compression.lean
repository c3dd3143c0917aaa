import Aprof.Erasure
import Mathlib.Algebra.Order.BigOperators.Group.List

/-! What the DRMS overflow handler computes. The active timestamps are the ids of
all pending activations in increasing order; an id becomes three times its index
and a cell's timestamp lands between the new ids it was between before. -/
namespace Aprof

open Floor

section
variable {array : Nat → Nat} {size ts k : Nat}

theorem searchLoop_eq (inc : Increasing array size) (floor : IsFloor array size ts k) (last : k + 1 < size)
    (fuel lo hi : Nat) (below : lo ≤ k) (above : k ≤ hi) (inside : hi < size) (enough : hi < lo + fuel) :
    searchLoop array ts fuel lo hi = some k := by
  induction fuel generalizing lo hi with
  | zero => omega
  | succ fuel ih =>
    unfold searchLoop
    dsimp only
    have middle : lo ≤ (lo + hi) / 2 ∧ (lo + hi) / 2 ≤ hi := by omega
    generalize (lo + hi) / 2 = index at middle
    obtain ⟨left,right⟩ := middle
    have here := floor.le_iff inc (j := index) (by omega)
    by_cases same : array index = ts
    · have reached := here.mp (Nat.le_of_eq same)
      have small := floor.le
      have order : array index ≤ array k := inc.le reached floor.inside
      have equal : index = k := by
        by_contra different
        have := inc index k (by omega) floor.inside
        omega
      rw [if_pos same,equal]
    · rw [if_neg same]
      by_cases large : array index > ts
      · have beyond : k < index := by omega
        rw [if_pos large,if_pos (by omega)]
        exact ih lo (index - 1) below (by omega) (by omega) (by omega)
      · have reached := here.mp (by omega)
        rw [if_neg large]
        by_cases next : array (index + 1) > ts
        · have stop : index = k := by
            by_contra different
            have := (floor.le_iff inc (j := index + 1) (by omega)).mpr (by omega)
            omega
          rw [if_pos next,stop]
        · have more := (floor.le_iff inc (j := index + 1) (by omega)).mp (by omega)
          rw [if_neg next,if_pos (by omega)]
          exact ih (index + 1) hi more above inside (by omega)

theorem binarySearch_eq (inc : Increasing array size) (floor : IsFloor array size ts k) (init : Nat)
    (below : init ≤ k) : binarySearch array init size ts = some k := by
  have inside := floor.inside
  unfold binarySearch
  by_cases one : size = 1
  · rw [if_pos one]
    exact congrArg some (by omega)
  · rw [if_neg one]
    have second := floor.le_iff inc (j := 1) (by omega)
    by_cases first : array 1 > ts
    · rw [if_pos first]
      exact congrArg some (by omega)
    · rw [if_neg first]
      have final := floor.le_iff inc (j := size - 1) (by omega)
      by_cases top : array (size - 1) ≤ ts
      · rw [if_pos top]
        exact congrArg some (by omega)
      · rw [if_neg top]
        exact searchLoop_eq inc floor (by omega) size init (size - 1) below (by omega) (by omega) (by omega)

theorem searchLoop_le (array : Nat → Nat) (ts fuel : Nat) {lo hi k : Nat} (le : lo ≤ hi)
    (found : searchLoop array ts fuel lo hi = some k) : k ≤ hi := by
  induction fuel generalizing lo hi with
  | zero => cases found
  | succ fuel ih =>
    unfold searchLoop at found
    dsimp only at found
    split at found
    · cases found
      omega
    · split at found
      · split at found
        · have := ih (by omega) found
          omega
        · cases found
      · split at found
        · cases found
          omega
        · split at found
          · exact ih (by omega) found
          · cases found

theorem searchGts_lt {array : Nat → Nat} {size : Nat} (nonempty : 0 < size) (gts : Nat) :
    (searchGts array size gts).getD 0 < size := by
  have search : ∀ {k}, binarySearch array 0 size gts = some k → k < size := by
    intro k found
    unfold binarySearch at found
    split at found
    · cases found
      exact nonempty
    · split at found
      · cases found
        exact nonempty
      · split at found
        · cases found
          omega
        · have := searchLoop_le array gts size (Nat.zero_le _) found
          omega
  unfold searchGts
  split
  · cases found : binarySearch array 0 size gts with
    | none => exact nonempty
    | some k => exact search found
  · exact nonempty

theorem searchGts_eq (inc : Increasing array size) (zero : array 0 = 0) (floor : IsFloor array size ts k) :
    searchGts array size ts = some k := by
  unfold searchGts
  split
  · exact binarySearch_eq inc floor 0 (Nat.zero_le k)
  · next none =>
    have small := floor.le
    have first : k = 0 := by
      by_contra different
      have := inc 0 k (by omega) floor.inside
      omega
    rw [first]

/-- The new value lies in the block of three that belongs to the old value's floor
index, on the same side of the new global value. -/
theorem compressLts_eq (inc : Increasing array size) {gts lts g l : Nat}
    (global : IsFloor array size gts g) (lower : IsFloor array size lts l) :
    ∃ v, compressLts array size gts g lts = some v ∧ 3 * l ≤ v ∧ v ≤ 3 * l + 2 ∧ (v < 3 * g + 1 ↔ lts < gts) := by
  have gIn := global.inside
  have here := lower.le_iff inc gIn
  unfold compressLts
  by_cases below : lts < array g
  · have less : l < g := by omega
    have found := binarySearch_eq (inc.mono (Nat.le_of_lt gIn)) (lower.take less (Nat.le_of_lt gIn)) 0 (Nat.zero_le l)
    rw [if_pos below,found]
    have old := global.le
    exact ⟨3 * l,rfl,by omega,by omega,by omega⟩
  · rw [if_neg below]
    have reached := here.mp (by omega)
    by_cases above : g + 1 < size ∧ lts ≥ array (g + 1)
    · obtain ⟨room,large⟩ := above
      have more := (lower.le_iff inc room).mp large
      have old := global.above (g + 1) (by omega) room
      rw [if_pos ⟨room,large⟩,binarySearch_eq inc lower g (by omega)]
      exact ⟨3 * l,rfl,by omega,by omega,by omega⟩
    · have same : l = g := by
        by_contra different
        have inside := lower.inside
        have := (lower.le_iff inc (j := g + 1) (by omega)).mpr (by omega)
        exact above ⟨by omega,this⟩
      subst same
      rw [if_neg above]
      by_cases less : lts < gts
      · rw [if_pos less]
        exact ⟨3 * l,rfl,by omega,by omega,by omega⟩
      · rw [if_neg less]
        by_cases equal : lts = gts
        · rw [if_pos equal]
          exact ⟨3 * l + 1,rfl,by omega,by omega,by omega⟩
        · rw [if_neg equal]
          exact ⟨3 * l + 2,rfl,by omega,by omega,by omega⟩

end

/-- Timestamps leave the syscall bit of a machine word free. -/
def Counter.Fits (c : Counter) (ts : Nat) : Prop := c = .wrapping → ts < 2 ^ 31

section
variable {c : Counter} {ts : Nat}

private theorem low_bits (w : Nat) : Nat.land w 0x7FFFFFFF = w % 2 ^ 31 := Nat.and_two_pow_sub_one_eq_mod w 31

private theorem high_bit (w : Nat) : Nat.land w 0x80000000 = (w.testBit 31).toNat * 2 ^ 31 := Nat.and_two_pow w 31

private theorem set_bit {w : Nat} (small : w < 2 ^ 31) : Nat.lor w 0x80000000 = 2 ^ 31 + w := by
  have joined := Nat.two_pow_add_eq_or_of_lt small 1
  rw [Nat.mul_one] at joined
  rw [joined]
  exact Nat.or_comm w (2 ^ 31)

theorem tsOf_zero : tsOf c 0 = 0 := by cases c <;> rfl

theorem tsOf_plainWord (fits : c.Fits ts) : tsOf c (plainWord c ts) = ts := by
  cases c with
  | wrapping => exact (low_bits ts).trans (Nat.mod_eq_of_lt (fits rfl))
  | unbounded => rfl

theorem syscallOf_plainWord (fits : c.Fits ts) : syscallOf c (plainWord c ts) = false := by
  cases c with
  | wrapping =>
    have bit := high_bit ts
    rw [Nat.testBit_lt_two_pow (fits rfl),Bool.toNat_false,Nat.zero_mul] at bit
    simp only [syscallOf,plainWord,bit,bne_self_eq_false]
  | unbounded => rfl

theorem tsOf_setSyscall (fits : c.Fits ts) : tsOf c (setSyscall c (plainWord c ts)) = ts := by
  cases c with
  | wrapping =>
    have small := fits rfl
    change Nat.land (Nat.lor ts 0x80000000) 0x7FFFFFFF = ts
    rw [set_bit small,low_bits]
    omega
  | unbounded => rfl

theorem tsOf_plainWord_le (c : Counter) (ts : Nat) : tsOf c (plainWord c ts) ≤ ts := by
  cases c with
  | wrapping => exact Nat.and_le_left
  | unbounded => exact Nat.le_refl ts

theorem tsOf_setSyscall_le (c : Counter) (ts : Nat) : tsOf c (setSyscall c (plainWord c ts)) ≤ ts := by
  cases c with
  | wrapping =>
    have bit : 0x80000000 &&& 0x7FFFFFFF = 0 := by decide
    have split := Nat.and_or_distrib_right ts 0x80000000 0x7FFFFFFF
    rw [bit,Nat.or_zero] at split
    exact le_of_eq_of_le split Nat.and_le_left
  | unbounded => exact Nat.le_refl ts

theorem tsOf_compressWord_le (ts : Nat) (w : c.Word) : tsOf c (compressWord c ts w) ≤ 3 * ts + 1 := by
  unfold compressWord
  split
  · exact tsOf_setSyscall_le c _
  · exact tsOf_plainWord_le c _

theorem syscallOf_setSyscall (fits : c.Fits ts) : syscallOf c (setSyscall c (plainWord c ts)) = true := by
  cases c with
  | wrapping =>
    have small := fits rfl
    change (Nat.land (Nat.lor ts 0x80000000) 0x80000000 != 0) = true
    rw [set_bit small,high_bit,Nat.testBit_two_pow_add_eq,Nat.testBit_lt_two_pow small]
    rfl
  | unbounded => rfl

theorem tsOf_compressWord (fits : c.Fits (3 * ts + 1)) (w : c.Word) :
    tsOf c (compressWord c ts w) = 3 * ts + 1 := by
  unfold compressWord
  split
  · exact tsOf_setSyscall fits
  · exact tsOf_plainWord fits

theorem syscallOf_compressWord (fits : c.Fits (3 * ts + 1)) (w : c.Word) :
    syscallOf c (compressWord c ts w) = syscallOf c w := by
  unfold compressWord
  split
  · next bit => rw [syscallOf_setSyscall fits,bit]
  · next bit => rw [syscallOf_plainWord fits,Bool.eq_false_of_not_eq_true bit]

end

section
variable {c : Counter} {array : Nat → Nat} {size : Nat}

theorem compressGlobal_value (inc : Increasing array size) (zero : array 0 = 0) (global : LookupTable c.Word)
    {g k : Nat} (floor : IsFloor array size (tsOf c (global.value g)) k) :
    (compressGlobal c array size global).value g =
      if global.allocated (g / global.fltSize) then compressWord c k (global.value g) else 0 := by
  rw [compressGlobal,LookupTable.value_mapCells,searchGts_eq inc zero floor]
  rfl

/-- How a cell of a local shadow memory is rewritten. -/
structure Rewritten (array : Nat → Nat) (size gts g lts v : Nat) : Prop where
  block : ∃ l, IsFloor array size lts l ∧ 3 * l ≤ v ∧ v ≤ 3 * l + 2
  side : v < 3 * g + 1 ↔ lts < gts

theorem compressLocal_value (inc : Increasing array size) (zero : array 0 = 0) (nonempty : 0 < size)
    (global : LookupTable c.Word) (lk : LookupTable Nat) {g k : Nat}
    (floor : IsFloor array size (tsOf c (global.value g)) k) :
    ∃ v, Rewritten array size (tsOf c (global.value g)) k (lk.value g) v ∧
      (compressLocal c array size global lk).value g = if lk.allocated (g / lk.fltSize) then v else 0 := by
  obtain ⟨l,lower⟩ := exists_isFloor inc nonempty (lk.value g) (by rw [zero]; exact Nat.zero_le _)
  obtain ⟨v,found,low,high,side⟩ := compressLts_eq inc floor lower
  refine ⟨v,⟨⟨l,lower,low,high⟩,side⟩,?_⟩
  rw [compressLocal,LookupTable.value_mapCells]
  simp only [searchGts_eq inc zero floor,Option.getD_some,found]

theorem cellFound_true (inc : Increasing array size) (zero : array 0 = 0) (nonempty : 0 < size)
    (global : LookupTable c.Word) (shamem : List (LookupTable Nat)) (g : Nat) :
    cellFound c array size global shamem g = true := by
  obtain ⟨k,floor⟩ := exists_isFloor inc nonempty (tsOf c (global.value g)) (by rw [zero]; exact Nat.zero_le _)
  unfold cellFound
  simp only [searchGts_eq inc zero floor]
  rw [List.all_eq_true]
  intro lk _
  obtain ⟨l,lower⟩ := exists_isFloor inc nonempty (lk.value g) (by rw [zero]; exact Nat.zero_le _)
  obtain ⟨v,found,_⟩ := compressLts_eq inc floor lower
  simp [found]

theorem lkCompressDrms_ok (inc : Increasing array size) (zero : array 0 = 0) (nonempty : 0 < size)
    (global : LookupTable c.Word) (live : List Nat) (threads : Nat → Option ThreadData) :
    lkCompressDrms c array size global live threads = .ok (compressGlobal c array size global,
      fun tid => if tid ∈ live then (threads tid).map fun tdata =>
        {tdata with shadowMemory := compressLocal c array size global tdata.shadowMemory} else threads tid) := by
  unfold lkCompressDrms
  simp only [cellFound_true inc zero nonempty,implies_true,decide_true,check,if_true,ok_bind]

end

def frameId (threads : Nat → Option ThreadData) (tid k : Nat) : Nat :=
  ((threads tid).map fun tdata => (tdata.stack k).activationId).getD 0

/-- The pending frames of the live threads can be merged: each has an id, no two
the same one, and ids grow towards the top of a stack. -/
structure Mergeable (live : List Nat) (threads : Nat → Option ThreadData) (depths : Nat → Nat) : Prop where
  positive : ∀ tid ∈ live, ∀ k < depths tid, 0 < frameId threads tid k
  increasing : ∀ tid ∈ live, Increasing (frameId threads tid) (depths tid)
  distinct : ∀ tid ∈ live, ∀ other ∈ live, ∀ k < depths tid, ∀ l < depths other,
    frameId threads tid k = frameId threads other l → tid = other

section
variable {live : List Nat} {threads : Nat → Option ThreadData} {depths : Nat → Nat}

theorem topId_eq (tid : Nat) : topId threads depths tid = frameId threads tid (depths tid - 1) := by
  unfold topId frameId
  cases threads tid <;> rfl

theorem findMax_eq (threads : Nat → Option ThreadData) (depths : Nat → Nat) (live : List Nat)
    (best : Nat × Option Nat) : best.1 ≤ (findMax threads depths live best).1 ∧
    (∀ tid ∈ live, 0 < depths tid → topId threads depths tid ≤ (findMax threads depths live best).1) ∧
    (findMax threads depths live best = best ∨ ∃ tid ∈ live, 0 < depths tid ∧
      findMax threads depths live best = (topId threads depths tid,some tid)) := by
  induction live generalizing best with
  | nil =>
    refine ⟨Nat.le_refl _,?_,Or.inl rfl⟩
    intro tid member
    cases member
  | cons tid rest ih =>
    unfold findMax
    split
    · next better =>
      obtain ⟨grows,covers,origin⟩ := ih (topId threads depths tid,some tid)
      refine ⟨Nat.le_trans (Nat.le_of_lt better.2) grows,?_,?_⟩
      · intro other member nonempty
        rcases List.mem_cons.mp member with rfl | later
        · exact grows
        · exact covers other later nonempty
      · right
        rcases origin with same | ⟨other,later,nonempty,same⟩
        · exact ⟨tid,List.mem_cons_self,better.1,same⟩
        · exact ⟨other,List.mem_cons_of_mem _ later,nonempty,same⟩
    · next worse =>
      obtain ⟨grows,covers,origin⟩ := ih best
      refine ⟨grows,?_,?_⟩
      · intro other member nonempty
        rcases List.mem_cons.mp member with rfl | later
        · have small : topId threads depths other ≤ best.1 := by
            by_contra large
            exact worse ⟨nonempty,by omega⟩
          exact Nat.le_trans small grows
        · exact covers other later nonempty
      · rcases origin with same | ⟨other,later,nonempty,same⟩
        · exact Or.inl same
        · exact Or.inr ⟨other,List.mem_cons_of_mem _ later,nonempty,same⟩

theorem Mergeable.findMax (mergeable : Mergeable live threads depths) (remain : 0 < (live.map depths).sum) :
    ∃ tid ∈ live, 0 < depths tid ∧
      Aprof.findMax threads depths live (0,none) = (frameId threads tid (depths tid - 1),some tid) ∧
      ∀ other ∈ live, ∀ k < depths other, frameId threads other k ≤ frameId threads tid (depths tid - 1) := by
  obtain ⟨grows,covers,origin⟩ := findMax_eq threads depths live (0,none)
  have found : ∃ tid ∈ live, 0 < depths tid ∧
      Aprof.findMax threads depths live (0,none) = (topId threads depths tid,some tid) := by
    rcases origin with same | found
    · exfalso
      rw [same] at covers
      have nonempty : ∃ tid ∈ live, 0 < depths tid := by
        by_contra empty
        have zero : (live.map depths).sum = 0 := by
          apply List.sum_eq_zero
          intro d member
          obtain ⟨tid,inside,rfl⟩ := List.mem_map.mp member
          by_contra positive
          exact empty ⟨tid,inside,by omega⟩
        omega
      obtain ⟨tid,inside,positive⟩ := nonempty
      have top := mergeable.positive tid inside (depths tid - 1) (by omega)
      have bound := covers tid inside positive
      rw [topId_eq] at bound
      dsimp only at bound
      omega
    · exact found
  obtain ⟨tid,inside,positive,same⟩ := found
  rw [topId_eq] at same
  refine ⟨tid,inside,positive,same,?_⟩
  intro other member k below
  have bound := covers other member (by omega)
  rw [same,topId_eq] at bound
  exact Nat.le_trans ((mergeable.increasing other member).le (j := depths other - 1) (by omega) (by omega)) bound

/-- The outcome of the loop with `i` frames remaining. -/
structure Merged (live : List Nat) (threads : Nat → Option ThreadData) (depths : Nat → Nat) (i : Nat)
    (activeTs : Nat → Nat) (threads' : Nat → Option ThreadData) (array : Nat → Nat) : Prop where
  outside : ∀ j, j = 0 ∨ i < j → array j = activeTs j
  ranks : ∀ tid ∈ live, ∀ k < depths tid, ∃ j, 1 ≤ j ∧ j ≤ i ∧ array j = frameId threads tid k ∧
    frameId threads' tid k = 3 * j
  source : ∀ j, 1 ≤ j → j ≤ i → ∃ tid ∈ live, ∃ k < depths tid, array j = frameId threads tid k
  increasing : ∀ j l, 1 ≤ j → j < l → l ≤ i → array j < array l
  kept : ∀ tid k, depths tid ≤ k → frameId threads' tid k = frameId threads tid k
  renumbered : ∀ tid, ∃ ids : Nat → Nat, threads' tid = (threads tid).map fun tdata =>
    {tdata with stack := fun k => {tdata.stack k with activationId := ids k}}

theorem sum_pop (distinct : live.Nodup) {tid : Nat} (inside : tid ∈ live) (positive : 0 < depths tid) :
    (live.map (Function.update depths tid (depths tid - 1))).sum + 1 = (live.map depths).sum := by
  induction live with
  | nil => cases inside
  | cons head rest ih =>
    obtain ⟨absent,distinct⟩ := List.nodup_cons.mp distinct
    simp only [List.map_cons,List.sum_cons]
    by_cases same : tid = head
    · subst same
      have others : rest.map (Function.update depths tid (depths tid - 1)) = rest.map depths := by
        apply List.map_congr_left
        intro other member
        apply Function.update_of_ne
        rintro rfl
        exact absent member
      rw [others,Function.update_self]
      omega
    · have later := ih distinct ((List.mem_cons.mp inside).resolve_left same)
      rw [Function.update_of_ne (Ne.symm same)]
      omega

/-- The top frame that remains of a thread gets a new id. -/
def renumberTop (threads : Nat → Option ThreadData) (depths : Nat → Nat) (tid id : Nat) : Nat → Option ThreadData :=
  Function.update threads tid ((threads tid).map fun tdata =>
    tdata.setSlot (depths tid - 1) fun act => {act with activationId := id})

def popDepth (depths : Nat → Nat) (tid : Nat) : Nat → Nat := Function.update depths tid (depths tid - 1)

section
variable {tid u k id i : Nat}

theorem lt_popDepth_iff : k < popDepth depths tid u ↔ k < depths u ∧ ¬ (u = tid ∧ k = depths tid - 1) := by
  unfold popDepth
  rw [Function.update_apply]
  split
  · next same =>
    subst same
    omega
  · next different => exact ⟨fun below => ⟨below,fun top => different top.1⟩,And.left⟩

theorem frameId_other (other : ¬ (u = tid ∧ k = depths tid - 1)) :
    frameId (renumberTop threads depths tid id) u k = frameId threads u k := by
  unfold frameId renumberTop
  by_cases same : u = tid
  · subst same
    have slot : k ≠ depths u - 1 := fun equal => other ⟨rfl,equal⟩
    rw [Function.update_self]
    cases threads u with
    | none => rfl
    | some tdata => simp [ThreadData.setSlot,Function.update_of_ne slot]
  · rw [Function.update_of_ne same]

theorem frameId_top (present : 0 < frameId threads tid (depths tid - 1)) :
    frameId (renumberTop threads depths tid id) tid (depths tid - 1) = id := by
  unfold frameId at present ⊢
  unfold renumberTop
  rw [Function.update_self]
  cases held : threads tid with
  | none =>
    rw [held] at present
    exact absurd present (Nat.lt_irrefl 0)
  | some tdata => simp [ThreadData.setSlot]

theorem renumberTop_absorbed (ids : Nat → Nat) (u : Nat) :
    ((renumberTop threads depths tid id u).map fun tdata =>
      {tdata with stack := fun k => {tdata.stack k with activationId := ids k}}) =
    (threads u).map fun tdata => {tdata with stack := fun k => {tdata.stack k with activationId := ids k}} := by
  unfold renumberTop
  by_cases here : u = tid
  · subst here
    rw [Function.update_self]
    cases threads u with
    | none => rfl
    | some tdata =>
      simp only [Option.map_some,ThreadData.setSlot,Option.some.injEq]
      congr 1
      ext1 k
      rw [Function.update_apply]
      split
      · next same => rw [same]
      · rfl
  · rw [Function.update_of_ne here]

theorem Mergeable.pop (mergeable : Mergeable live threads depths) :
    Mergeable live (renumberTop threads depths tid id) (popDepth depths tid) := by
  have below : ∀ {u k}, k < popDepth depths tid u → k < depths u := fun bound => (lt_popDepth_iff.mp bound).1
  have unchanged : ∀ {u k}, k < popDepth depths tid u →
      frameId (renumberTop threads depths tid id) u k = frameId threads u k :=
    fun bound => frameId_other (lt_popDepth_iff.mp bound).2
  refine ⟨?_,?_,?_⟩
  · intro u member k bound
    rw [unchanged bound]
    exact mergeable.positive u member k (below bound)
  · intro u member j k lt bound
    rw [unchanged (lt.trans bound),unchanged bound]
    exact mergeable.increasing u member j k lt (below bound)
  · intro u member v member' k bound l bound' same
    rw [unchanged bound,unchanged bound'] at same
    exact mergeable.distinct u member v member' k (below bound) l (below bound') same

theorem Mergeable.lt_top (mergeable : Mergeable live threads depths) (inside : tid ∈ live) (positive : 0 < depths tid)
    (largest : ∀ other ∈ live, ∀ k < depths other, frameId threads other k ≤ frameId threads tid (depths tid - 1))
    (member : u ∈ live) (remains : k < popDepth depths tid u) :
    frameId threads u k < frameId threads tid (depths tid - 1) := by
  obtain ⟨reach,apart⟩ := lt_popDepth_iff.mp remains
  refine lt_of_le_of_ne (largest u member k reach) fun equal => ?_
  have author := mergeable.distinct u member tid inside k reach (depths tid - 1) (by omega) equal
  subst author
  have slot : k ≠ depths u - 1 := fun same => apart ⟨rfl,same⟩
  have := mergeable.increasing u member k (depths u - 1) (by omega) (by omega)
  omega

theorem Merged.succ {activeTs array : Nat → Nat} {threads' : Nat → Option ThreadData}
    (mergeable : Mergeable live threads depths) (inside : tid ∈ live) (positive : 0 < depths tid)
    (largest : ∀ other ∈ live, ∀ k < depths other, frameId threads other k ≤ frameId threads tid (depths tid - 1))
    (merged : Merged live (renumberTop threads depths tid ((i + 1) * 3)) (popDepth depths tid) i
      (Function.update activeTs (i + 1) (frameId threads tid (depths tid - 1))) threads' array) :
    Merged live threads depths (i + 1) activeTs threads' array := by
  have present := mergeable.positive tid inside (depths tid - 1) (by omega)
  have last : array (i + 1) = frameId threads tid (depths tid - 1) := by
    rw [merged.outside (i + 1) (Or.inr (Nat.lt_succ_self i)),Function.update_self]
  have popped : ¬ depths tid - 1 < popDepth depths tid tid := fun below => (lt_popDepth_iff.mp below).2 ⟨rfl,rfl⟩
  have renumbered : frameId threads' tid (depths tid - 1) = 3 * (i + 1) := by
    rw [merged.kept tid (depths tid - 1) (Nat.le_of_not_lt popped),frameId_top present,Nat.mul_comm]
  have source : ∀ j, 1 ≤ j → j ≤ i → ∃ u ∈ live, ∃ k < popDepth depths tid u, array j = frameId threads u k := by
    intro j low high
    obtain ⟨u,member,k,bound,same⟩ := merged.source j low high
    exact ⟨u,member,k,bound,by rw [same,frameId_other (lt_popDepth_iff.mp bound).2]⟩
  refine ⟨?_,?_,?_,?_,?_,?_⟩
  · intro j outside
    rw [merged.outside j (by omega),Function.update_of_ne (by omega)]
  · intro u member k bound
    by_cases here : u = tid ∧ k = depths tid - 1
    · obtain ⟨rfl,rfl⟩ := here
      exact ⟨i + 1,by omega,Nat.le_refl _,last,renumbered⟩
    · obtain ⟨j,low,high,rank,moved⟩ := merged.ranks u member k (lt_popDepth_iff.mpr ⟨bound,here⟩)
      exact ⟨j,low,by omega,by rw [rank,frameId_other here],moved⟩
  · intro j low high
    rcases Nat.lt_or_eq_of_le high with earlier | rfl
    · obtain ⟨u,member,k,bound,same⟩ := source j low (by omega)
      exact ⟨u,member,k,(lt_popDepth_iff.mp bound).1,same⟩
    · exact ⟨tid,inside,depths tid - 1,by omega,last⟩
  · intro j l low lt high
    rcases Nat.lt_or_eq_of_le high with earlier | rfl
    · exact merged.increasing j l low lt (by omega)
    · obtain ⟨u,member,k,bound,same⟩ := source j low (by omega)
      rw [same,last]
      exact mergeable.lt_top inside positive largest member bound
  · intro u k above
    have reach : ¬ k < popDepth depths tid u := fun below => absurd (lt_popDepth_iff.mp below).1 (Nat.not_lt.mpr above)
    rw [merged.kept u k (Nat.le_of_not_lt reach)]
    apply frameId_other
    rintro ⟨rfl,rfl⟩
    omega
  · intro u
    obtain ⟨ids,same⟩ := merged.renumbered u
    exact ⟨ids,same.trans (renumberTop_absorbed ids u)⟩

end

theorem Merged.zero (empty : ∀ tid ∈ live, depths tid = 0) (activeTs : Nat → Nat) :
    Merged live threads depths 0 activeTs threads activeTs := by
  refine ⟨fun _ _ => rfl,?_,?_,?_,fun _ _ _ => rfl,?_⟩
  · intro tid inside k below
    have := empty tid inside
    omega
  · intro j low high
    omega
  · intro j l low lt high
    omega
  · intro tid
    cases found : threads tid with
    | none => exact ⟨fun _ => 0,rfl⟩
    | some tdata => exact ⟨fun k => (tdata.stack k).activationId,rfl⟩

theorem mergeIds_ok (distinct : live.Nodup) (i : Nat) (threads : Nat → Option ThreadData) (depths : Nat → Nat)
    (activeTs : Nat → Nat) (mergeable : Mergeable live threads depths) (count : (live.map depths).sum = i) :
    ∃ threads' array, mergeIds live i threads depths activeTs = .ok (threads',array) ∧
      Merged live threads depths i activeTs threads' array := by
  induction i generalizing threads depths activeTs with
  | zero =>
    have empty : ∀ tid ∈ live, depths tid = 0 := by
      intro tid inside
      have le := List.single_le_sum (fun _ _ => Nat.zero_le _) _ (List.mem_map_of_mem (f := depths) inside)
      omega
    exact ⟨threads,activeTs,rfl,Merged.zero empty activeTs⟩
  | succ i ih =>
    obtain ⟨tid,inside,positive,found,largest⟩ := mergeable.findMax (by omega)
    have remaining : (live.map (popDepth depths tid)).sum = i :=
      Nat.succ.inj ((sum_pop distinct inside positive).trans count)
    obtain ⟨threads',array,ok,merged⟩ := ih (renumberTop threads depths tid ((i + 1) * 3)) (popDepth depths tid)
      (Function.update activeTs (i + 1) (frameId threads tid (depths tid - 1))) mergeable.pop remaining
    refine ⟨threads',array,?_,merged.succ mergeable inside positive largest⟩
    unfold mergeIds
    rw [found]
    exact ok

end

structure Renumbered (c : Counter) (array : Nat → Nat) (n : Nat) (global : LookupTable c.Word)
    (tdata tdata' : ThreadData) : Prop where
  erase : tdata'.erase = tdata.erase
  shadow : tdata'.shadowMemory = compressLocal c array (n + 1) global tdata.shadowMemory
  ids : ∀ k < tdata.stackDepth, ∃ j, 1 ≤ j ∧ j ≤ n ∧ array j = (tdata.stack k).activationId ∧
    (tdata'.stack k).activationId = 3 * j

theorem overflowHandlerDrms_ok (c : Counter) {live : List Nat} {threads : Nat → Option ThreadData}
    (global : LookupTable c.Word) (distinct : live.Nodup) (mergeable : Mergeable live threads (depthOf threads)) :
    ∃ threads' array, overflowHandlerDrms c live global threads =
      .ok (3 * ((live.map (depthOf threads)).sum + 2),
        compressGlobal c array ((live.map (depthOf threads)).sum + 1) global,threads') ∧
      array 0 = 0 ∧ Increasing array ((live.map (depthOf threads)).sum + 1) ∧
      (∀ tid, threads tid = none → threads' tid = none) ∧
      ∀ tid ∈ live, ∀ tdata, threads tid = some tdata → ∃ tdata', threads' tid = some tdata' ∧
        Renumbered c array (live.map (depthOf threads)).sum global tdata tdata' := by
  generalize total : (live.map (depthOf threads)).sum = n
  obtain ⟨merged,array,ok,result⟩ := mergeIds_ok distinct n threads (depthOf threads) (fun _ => 0) mergeable total
  have zero : array 0 = 0 := result.outside 0 (Or.inl rfl)
  have increasing : Increasing array (n + 1) := by
    intro j l lt bound
    rcases Nat.eq_zero_or_pos j with rfl | positive
    · obtain ⟨tid,inside,k,below,same⟩ := result.source l (by omega) (by omega)
      rw [zero,same]
      exact mergeable.positive tid inside k below
    · exact result.increasing j l positive lt (by omega)
  have compressed := lkCompressDrms_ok increasing zero (Nat.succ_pos n) global live merged
  refine ⟨fun tid => if tid ∈ live then (merged tid).map fun tdata =>
    {tdata with shadowMemory := compressLocal c array (n + 1) global tdata.shadowMemory} else merged tid,
    array,?_,zero,increasing,?_,?_⟩
  · unfold overflowHandlerDrms
    simp only [total,Nat.add_sub_cancel,ok,ok_bind,compressed]
  · intro tid none
    obtain ⟨ids,same⟩ := result.renumbered tid
    rw [none] at same
    simp only [same,Option.map_none,ite_self]
  · intro tid inside tdata found
    obtain ⟨ids,same⟩ := result.renumbered tid
    rw [found] at same
    refine ⟨{tdata with
      shadowMemory := compressLocal c array (n + 1) global tdata.shadowMemory
      stack := fun k => {tdata.stack k with activationId := ids k}},?_,rfl,rfl,?_⟩
    · simp only [if_pos inside,same,Option.map_some]
    intro k below
    have pending : k < depthOf threads tid := by
      simp only [depthOf,found,Option.map_some,Option.getD_some]
      exact below
    obtain ⟨j,low,high,rank,moved⟩ := result.ranks tid inside k pending
    simp only [frameId,same,found,Option.map_some,Option.getD_some] at rank moved
    exact ⟨j,low,high,rank,moved⟩

end Aprof
