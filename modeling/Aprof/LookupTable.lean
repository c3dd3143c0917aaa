import Aprof.Basic
import Mathlib.Data.Nat.Bitwise
import Mathlib.Logic.Function.Basic
import Mathlib.Tactic.NormNum

/-! The shadow memory of `lookup_table.c` in its two layouts: segments reached
through one table on i386, through an intermediate table elsewhere. Segments are
allocated by the first insert; the rest of the development sees a table as a
map from granules to timestamps and the set of its allocated segments. -/
namespace Aprof

inductive Layout where
  | i386
  | amd64
  deriving DecidableEq, Repr

def lkSize : Nat := 65536
def iltSize : Nat := 16384

inductive Directory (α : Type) where
  | flat (table : Nat → Option (Nat → α))
  | tree (table : Nat → Option (Nat → Option (Nat → α)))

structure LookupTable (α : Type) where
  table : Directory α
  fltSize : Nat
  resShift : Nat
  sized : fltSize * 2 ^ resShift = 65536

theorem sized_bytes : 65536 * 2 ^ 0 = 65536 := rfl

section
variable {α : Type} [Zero α]

def emptyDirectory : Layout → Directory α
  | .i386 => .flat fun _ => none
  | .amd64 => .tree fun _ => none

def lkCreate (layout : Layout) (memoryResolution : Nat) : Result (LookupTable α) :=
  match memoryResolution with
  | 4 => .ok ⟨emptyDirectory layout,16384,2,rfl⟩
  | 1 => .ok ⟨emptyDirectory layout,65536,0,rfl⟩
  | 2 => .ok ⟨emptyDirectory layout,32768,1,rfl⟩
  | 8 => .ok ⟨emptyDirectory layout,8192,3,rfl⟩
  | 16 => .ok ⟨emptyDirectory layout,4096,4,rfl⟩
  | _ => .error (.assertion "Supported memory resolutions: 1, 2, 4, 8 or 16")

/-- A read of an array of `size` elements. -/
def readCell {β : Type} (size : Nat) (cells : Nat → β) (i : Nat) : Result β :=
  if i < size then .ok (cells i) else .error .invalidPointer

def writeCell {β : Type} (size : Nat) (cells : Nat → β) (i : Nat) (cell : β) : Result (Nat → β) :=
  if i < size then .ok (Function.update cells i cell) else .error .invalidPointer

/-- The end of `LK_insert`, behind the pointer to a segment. A new segment is full of zeros. -/
def insertCell (fltSize : Nat) (segment : Option (Nat → α)) (j : Nat) (ts : α) : Result (α × (Nat → α)) :=
  match segment with
  | none => do
    let segment ← writeCell fltSize (fun _ => 0) j ts
    .ok (0,segment)
  | some segment => do
    let old ← readCell fltSize segment j
    let segment ← writeCell fltSize segment j ts
    .ok (old,segment)

/-- `LK_insert`: store `ts` and return the old value. -/
def lkInsert (lk : LookupTable α) (addr : Nat) (ts : α) : Result (α × LookupTable α) :=
  let j := (addr &&& 0xffff) >>> lk.resShift
  match lk.table with
  | .flat table => do
    let i := addr >>> 16
    let segment ← readCell lkSize table i
    let (old,segment) ← insertCell lk.fltSize segment j ts
    let table ← writeCell lkSize table i (some segment)
    .ok (old,{lk with table := .flat table})
  | .tree table => do
    let i := addr >>> 30
    check (i < lkSize) "Address overflow"
    let k := (addr >>> 16) &&& 0x3fff
    let ilt := (← readCell lkSize table i).getD fun _ => none
    let segment ← readCell iltSize ilt k
    let (old,segment) ← insertCell lk.fltSize segment j ts
    let ilt ← writeCell iltSize ilt k (some segment)
    let table ← writeCell lkSize table i (some ilt)
    .ok (old,{lk with table := .tree table})

/-- The end of `LK_lookup`. -/
def lookupCell (fltSize : Nat) (segment : Option (Nat → α)) (j : Nat) : Result α :=
  match segment with
  | none => .ok 0
  | some segment => readCell fltSize segment j

def lkLookup (lk : LookupTable α) (addr : Nat) : Result α :=
  let j := (addr &&& 0xffff) >>> lk.resShift
  match lk.table with
  | .flat table => do
    let i := addr >>> 16
    let segment ← readCell lkSize table i
    lookupCell lk.fltSize segment j
  | .tree table => do
    let i := addr >>> 30
    check (i < lkSize) "Address overflow"
    let k := (addr >>> 16) &&& 0x3fff
    match ← readCell lkSize table i with
    | none => .ok 0
    | some ilt => do
      let segment ← readCell iltSize ilt k
      lookupCell lk.fltSize segment j

def Directory.segment : Directory α → Nat → Option (Nat → α)
  | .flat table, c => table c
  | .tree table, c => (table (c >>> 14)).bind (· (c &&& 0x3fff))

/-- The first address past those the layout covers. -/
def Directory.limit : Directory α → Nat
  | .flat _ => 2 ^ 32
  | .tree _ => 2 ^ 46

def Layout.limit : Layout → Nat
  | .i386 => 2 ^ 32
  | .amd64 => 2 ^ 46

def LookupTable.granule (lk : LookupTable α) (addr : Nat) : Nat := addr / 2 ^ lk.resShift

def LookupTable.value (lk : LookupTable α) (g : Nat) : α :=
  match lk.table.segment (g / lk.fltSize) with
  | none => 0
  | some segment => segment (g % lk.fltSize)

def LookupTable.allocated (lk : LookupTable α) (c : Nat) : Bool := (lk.table.segment c).isSome

def Directory.setSegment : Directory α → Nat → (Nat → α) → Directory α
  | .flat table, c, segment => .flat (Function.update table c (some segment))
  | .tree table, c, segment => .tree (Function.update table (c >>> 14)
      (some (Function.update ((table (c >>> 14)).getD fun _ => none) (c &&& 0x3fff) (some segment))))

def LookupTable.write (lk : LookupTable α) (g : Nat) (ts : α) : LookupTable α :=
  let segment := (lk.table.segment (g / lk.fltSize)).getD fun _ => 0
  {lk with table := lk.table.setSegment (g / lk.fltSize) (Function.update segment (g % lk.fltSize) ts)}

structure Empty (layout : Layout) (memoryResolution : Nat) (lk : LookupTable α) : Prop where
  allocated : ∀ c, lk.allocated c = false
  value : ∀ g, lk.value g = 0
  limit : lk.table.limit = layout.limit
  scale : 2 ^ lk.resShift = memoryResolution

theorem lkCreate_ok (layout : Layout) (memoryResolution : Nat)
    (supported : memoryResolution ∈ [1,2,4,8,16]) :
    ∃ lk : LookupTable α, lkCreate layout memoryResolution = .ok lk ∧ Empty layout memoryResolution lk := by
  have fresh : ∀ (fltSize resShift : Nat) (sized : fltSize * 2 ^ resShift = 65536),
      Empty (α := α) layout (2 ^ resShift) ⟨emptyDirectory layout,fltSize,resShift,sized⟩ := by
    intro fltSize resShift sized
    cases layout
    · exact ⟨fun _ => rfl,fun _ => rfl,rfl,rfl⟩
    · exact ⟨fun _ => rfl,fun _ => rfl,rfl,rfl⟩
  simp only [List.mem_cons,List.not_mem_nil,or_false] at supported
  rcases supported with rfl | rfl | rfl | rfl | rfl
  · exact ⟨_,rfl,fresh 65536 0 rfl⟩
  · exact ⟨_,rfl,fresh 32768 1 rfl⟩
  · exact ⟨_,rfl,fresh 16384 2 rfl⟩
  · exact ⟨_,rfl,fresh 8192 3 rfl⟩
  · exact ⟨_,rfl,fresh 4096 4 rfl⟩

omit [Zero α] in
theorem LookupTable.fltSize_positive (lk : LookupTable α) : 0 < lk.fltSize := by
  rcases Nat.eq_zero_or_pos lk.fltSize with zero | positive
  · have := lk.sized
    simp [zero] at this
  · exact positive

private theorem split_index (c : Nat) : (c >>> 14) * 16384 + (c &&& 0x3fff) = c := by
  have low : c &&& 0x3fff = c % 2 ^ 14 := Nat.and_two_pow_sub_one_eq_mod c 14
  rw [low,Nat.shiftRight_eq_div_pow]
  omega

theorem index_eq {c d : Nat} (high : c >>> 14 = d >>> 14)
    (low : c &&& 0x3fff = d &&& 0x3fff) : c = d := by
  rw [← split_index c,← split_index d,high,low]

omit [Zero α] in
theorem Directory.segment_setSegment (table : Directory α) (c d : Nat) (segment : Nat → α) :
    (table.setSegment c segment).segment d = if d = c then some segment else table.segment d := by
  cases table with
  | flat table => simp [Directory.setSegment,Directory.segment,Function.update_apply]
  | tree table =>
    simp only [Directory.setSegment,Directory.segment,Function.update_apply]
    by_cases same : d = c
    · subst same
      simp
    · rw [if_neg same]
      by_cases high : d >>> 14 = c >>> 14
      · have low : ¬ d &&& 0x3fff = c &&& 0x3fff := fun low => same (index_eq high low)
        simp only [high,if_true,Option.bind_some,Function.update_apply,low,if_false]
        cases table (c >>> 14) <;> rfl
      · simp [high]

omit [Zero α] in
theorem LookupTable.segment_index (lk : LookupTable α) (addr : Nat) :
    lk.granule addr / lk.fltSize = addr >>> 16 := by
  rw [LookupTable.granule,Nat.div_div_eq_div_mul,Nat.mul_comm,lk.sized,Nat.shiftRight_eq_div_pow]

omit [Zero α] in
theorem LookupTable.slot_index (lk : LookupTable α) (addr : Nat) :
    lk.granule addr % lk.fltSize = (addr &&& 0xffff) >>> lk.resShift := by
  have low : addr &&& 0xffff = addr % 2 ^ 16 := Nat.and_two_pow_sub_one_eq_mod addr 16
  rw [LookupTable.granule,low,Nat.shiftRight_eq_div_pow]
  have whole : (2 : Nat) ^ 16 = 2 ^ lk.resShift * lk.fltSize := by
    rw [Nat.mul_comm,lk.sized]
    norm_num
  rw [whole,Nat.mod_mul_right_div_self]

theorem readCell_inside {β : Type} {size i : Nat} (inside : i < size) (cells : Nat → β) : readCell size cells i = .ok (cells i) :=
  if_pos inside

theorem writeCell_inside {β : Type} {size i : Nat} (inside : i < size) (cells : Nat → β) (cell : β) :
    writeCell size cells i cell = .ok (Function.update cells i cell) := if_pos inside

theorem insertCell_inside {size j : Nat} (inside : j < size) (segment : Option (Nat → α)) (ts : α) :
    insertCell size segment j ts = .ok ((segment.getD fun _ => 0) j,Function.update (segment.getD fun _ => 0) j ts) := by
  cases segment with
  | none => simp only [insertCell,writeCell_inside inside,ok_bind,Option.getD_none]
  | some segment => simp only [insertCell,readCell_inside inside,writeCell_inside inside,ok_bind,Option.getD_some]

theorem lookupCell_inside {size j : Nat} (inside : j < size) (segment : Option (Nat → α)) :
    lookupCell size segment j = .ok ((segment.getD fun _ => 0) j) := by
  cases segment with
  | none => rfl
  | some segment => exact readCell_inside inside segment

omit [Zero α] in
theorem LookupTable.slot_inside (lk : LookupTable α) (addr : Nat) : (addr &&& 0xffff) >>> lk.resShift < lk.fltSize := by
  rw [← lk.slot_index]
  exact Nat.mod_lt _ lk.fltSize_positive

theorem second_inside (c : Nat) : c &&& 0x3fff < iltSize := by
  have low : c &&& 0x3fff = c % 2 ^ 14 := Nat.and_two_pow_sub_one_eq_mod c 14
  rw [low]
  exact Nat.mod_lt _ (by decide)

theorem flat_inside {addr : Nat} : addr >>> 16 < lkSize ↔ addr < 2 ^ 32 := by
  rw [Nat.shiftRight_eq_div_pow,lkSize]
  omega

theorem tree_inside {addr : Nat} : addr >>> 30 < lkSize ↔ addr < 2 ^ 46 := by
  rw [Nat.shiftRight_eq_div_pow,lkSize]
  omega

theorem LookupTable.value_eq (lk : LookupTable α) (addr : Nat) : lk.value (lk.granule addr) =
    ((lk.table.segment (addr >>> 16)).getD fun _ => 0) ((addr &&& 0xffff) >>> lk.resShift) := by
  rw [LookupTable.value,lk.segment_index,lk.slot_index]
  cases lk.table.segment (addr >>> 16) <;> rfl

theorem LookupTable.write_eq (lk : LookupTable α) (addr : Nat) (ts : α) : lk.write (lk.granule addr) ts =
    {lk with table := lk.table.setSegment (addr >>> 16) (Function.update ((lk.table.segment (addr >>> 16)).getD fun _ => 0)
      ((addr &&& 0xffff) >>> lk.resShift) ts)} := by
  rw [LookupTable.write,lk.segment_index,lk.slot_index]

theorem shift_twice (addr : Nat) : addr >>> 16 >>> 14 = addr >>> 30 := by rw [← Nat.shiftRight_add]

theorem lkInsert_eq (lk : LookupTable α) (addr : Nat) (ts : α) (admitted : addr < lk.table.limit) :
    lkInsert lk addr ts = .ok (lk.value (lk.granule addr),lk.write (lk.granule addr) ts) := by
  rw [lk.value_eq,lk.write_eq]
  have cell := lk.slot_inside addr
  rcases lk with ⟨table,fltSize,resShift,sized⟩
  cases table with
  | flat table =>
    have first := flat_inside.mpr admitted
    simp only [lkInsert,readCell_inside first,ok_bind,insertCell_inside cell,writeCell_inside first]
    rfl
  | tree table =>
    have first := tree_inside.mpr admitted
    have second := second_inside (addr >>> 16)
    simp only [lkInsert,first,decide_true,check,if_true,readCell_inside first,readCell_inside second,ok_bind,
      insertCell_inside cell,writeCell_inside first,writeCell_inside second,Directory.segment,Directory.setSegment,shift_twice]
    cases table (addr >>> 30) <;> rfl

theorem lkLookup_eq (lk : LookupTable α) (addr : Nat) (admitted : addr < lk.table.limit) :
    lkLookup lk addr = .ok (lk.value (lk.granule addr)) := by
  rw [lk.value_eq]
  have cell := lk.slot_inside addr
  rcases lk with ⟨table,fltSize,resShift,sized⟩
  cases table with
  | flat table =>
    have first := flat_inside.mpr admitted
    simp only [lkLookup,readCell_inside first,ok_bind,lookupCell_inside cell]
    rfl
  | tree table =>
    have first := tree_inside.mpr admitted
    have second := second_inside (addr >>> 16)
    simp only [lkLookup,first,decide_true,check,if_true,readCell_inside first,ok_bind,Directory.segment,shift_twice]
    cases table (addr >>> 30) with
    | none => rfl
    | some ilt =>
      simp only [readCell_inside second,ok_bind,lookupCell_inside cell]
      rfl

/-- How a table refuses an address past its limit. -/
def Directory.fault : Directory α → Fault
  | .flat _ => .invalidPointer
  | .tree _ => .assertion "Address overflow"

theorem lkInsert_fault (lk : LookupTable α) (addr : Nat) (ts : α) (outside : lk.table.limit ≤ addr) :
    lkInsert lk addr ts = .error lk.table.fault := by
  rcases lk with ⟨table,fltSize,resShift,sized⟩
  cases table with
  | flat table =>
    have beyond : ¬ addr >>> 16 < lkSize := fun inside => not_lt.mpr outside (flat_inside.mp inside)
    simp only [lkInsert,readCell,if_neg beyond]
    rfl
  | tree table =>
    have beyond : ¬ addr >>> 30 < lkSize := fun inside => not_lt.mpr outside (tree_inside.mp inside)
    simp only [lkInsert,beyond,decide_false,check,Directory.fault]
    rfl

theorem lkLookup_fault (lk : LookupTable α) (addr : Nat) (outside : lk.table.limit ≤ addr) :
    lkLookup lk addr = .error lk.table.fault := by
  rcases lk with ⟨table,fltSize,resShift,sized⟩
  cases table with
  | flat table =>
    have beyond : ¬ addr >>> 16 < lkSize := fun inside => not_lt.mpr outside (flat_inside.mp inside)
    simp only [lkLookup,readCell,if_neg beyond]
    rfl
  | tree table =>
    have beyond : ¬ addr >>> 30 < lkSize := fun inside => not_lt.mpr outside (tree_inside.mp inside)
    simp only [lkLookup,beyond,decide_false,check,Directory.fault]
    rfl

theorem lkInsert_refused (lk : LookupTable α) (addr : Nat) (ts : α)
    (outside : lk.table.limit ≤ addr) : ∃ fault, lkInsert lk addr ts = .error fault :=
  ⟨_,lkInsert_fault lk addr ts outside⟩

theorem lkLookup_refused (lk : LookupTable α) (addr : Nat) (outside : lk.table.limit ≤ addr) :
    ∃ fault, lkLookup lk addr = .error fault :=
  ⟨_,lkLookup_fault lk addr outside⟩

@[simp] theorem LookupTable.write_fault (lk : LookupTable α) (g : Nat) (ts : α) :
    (lk.write g ts).table.fault = lk.table.fault := by
  cases h : lk.table <;> simp [LookupTable.write,h,Directory.setSegment,Directory.fault]

theorem LookupTable.write_value (lk : LookupTable α) (g : Nat) (present : lk.allocated (g / lk.fltSize) = true) :
    lk.write g (lk.value g) = lk := by
  rcases lk with ⟨table,fltSize,resShift,sized⟩
  obtain ⟨segment,found⟩ := Option.isSome_iff_exists.mp present
  dsimp only at found
  have same : Function.update segment (g % fltSize) (segment (g % fltSize)) = segment := Function.update_eq_self _ _
  simp only [LookupTable.write,LookupTable.value,found,Option.getD_some,same,LookupTable.mk.injEq,and_true]
  cases table with
  | flat table =>
    simp only [Directory.segment] at found
    simp only [Directory.setSegment,← found,Function.update_eq_self]
  | tree table =>
    simp only [Directory.segment] at found
    obtain ⟨ilt,outer,inner⟩ := Option.bind_eq_some_iff.mp found
    simp only [Directory.setSegment,outer,Option.getD_some,← inner,Function.update_eq_self]
    rw [← outer,Function.update_eq_self]

@[simp] theorem LookupTable.write_resShift (lk : LookupTable α) (g : Nat) (ts : α) :
    (lk.write g ts).resShift = lk.resShift := rfl

@[simp] theorem LookupTable.write_fltSize (lk : LookupTable α) (g : Nat) (ts : α) :
    (lk.write g ts).fltSize = lk.fltSize := rfl

@[simp] theorem LookupTable.write_limit (lk : LookupTable α) (g : Nat) (ts : α) :
    (lk.write g ts).table.limit = lk.table.limit := by
  cases h : lk.table <;> simp [LookupTable.write,h,Directory.setSegment,Directory.limit]

theorem LookupTable.value_write (lk : LookupTable α) (g h : Nat) (ts : α) :
    (lk.write g ts).value h = if h = g then ts else lk.value h := by
  simp only [LookupTable.value,LookupTable.write,Directory.segment_setSegment]
  by_cases segment : h / lk.fltSize = g / lk.fltSize
  · rw [if_pos segment]
    by_cases same : h = g
    · simp [same]
    · have slot : ¬ h % lk.fltSize = g % lk.fltSize := by
        intro slot
        apply same
        rw [← Nat.div_add_mod h lk.fltSize,← Nat.div_add_mod g lk.fltSize,segment,slot]
      simp only [Function.update_apply,slot,if_false,same]
      rw [segment]
      cases lk.table.segment (g / lk.fltSize) <;> rfl
  · have same : ¬ h = g := fun same => segment (by rw [same])
    simp [segment,same]

theorem LookupTable.allocated_write (lk : LookupTable α) (g c : Nat) (ts : α) :
    (lk.write g ts).allocated c = (decide (c = g / lk.fltSize) || lk.allocated c) := by
  simp only [LookupTable.allocated,LookupTable.write,Directory.segment_setSegment]
  by_cases same : c = g / lk.fltSize
  · simp [same]
  · simp [same]

theorem LookupTable.value_unallocated (lk : LookupTable α) (g : Nat)
    (absent : lk.allocated (g / lk.fltSize) = false) : lk.value g = 0 := by
  simp only [LookupTable.allocated,Option.isSome_eq_false_iff,Option.isNone_iff_eq_none] at absent
  simp [LookupTable.value,absent]

/-- A rewrite of every cell of the allocated segments, as the loops of the
compression handlers make it. -/
def Directory.mapSegments (change : Nat → (Nat → α) → Nat → α) : Directory α → Directory α
  | .flat table => .flat fun c => (table c).map (change c)
  | .tree table => .tree fun i => (table i).map fun ilt k => (ilt k).map (change (i * 16384 + k))

def LookupTable.mapCells (lk : LookupTable α) (change : Nat → α → α) : LookupTable α :=
  {lk with table := lk.table.mapSegments fun c segment j => change (c * lk.fltSize + j) (segment j)}

omit [Zero α] in
theorem Directory.segment_mapSegments (table : Directory α) (change : Nat → (Nat → α) → Nat → α)
    (c : Nat) : (table.mapSegments change).segment c = (table.segment c).map (change c) := by
  cases table with
  | flat table => rfl
  | tree table =>
    simp only [Directory.mapSegments,Directory.segment]
    cases table (c >>> 14) with
    | none => rfl
    | some ilt => simp [split_index]

theorem LookupTable.value_mapCells (lk : LookupTable α) (change : Nat → α → α) (g : Nat) :
    (lk.mapCells change).value g =
      if lk.allocated (g / lk.fltSize) then change g (lk.value g) else 0 := by
  rcases found : lk.table.segment (g / lk.fltSize) with _ | segment
  · have absent : lk.allocated (g / lk.fltSize) = false := by simp [LookupTable.allocated,found]
    simp [LookupTable.value,LookupTable.mapCells,Directory.segment_mapSegments,found,absent]
  · have present : lk.allocated (g / lk.fltSize) = true := by simp [LookupTable.allocated,found]
    simp [LookupTable.value,LookupTable.mapCells,Directory.segment_mapSegments,found,present,
      Nat.div_add_mod']

omit [Zero α] in
@[simp] theorem LookupTable.allocated_mapCells (lk : LookupTable α) (change : Nat → α → α) (c : Nat) :
    (lk.mapCells change).allocated c = lk.allocated c := by
  simp [LookupTable.allocated,LookupTable.mapCells,Directory.segment_mapSegments]

omit [Zero α] in
@[simp] theorem LookupTable.mapCells_limit (lk : LookupTable α) (change : Nat → α → α) :
    (lk.mapCells change).table.limit = lk.table.limit := by
  cases h : lk.table <;> simp [LookupTable.mapCells,h,Directory.mapSegments,Directory.limit]

omit [Zero α] in
@[simp] theorem LookupTable.mapCells_fltSize (lk : LookupTable α) (change : Nat → α → α) :
    (lk.mapCells change).fltSize = lk.fltSize := rfl

omit [Zero α] in
@[simp] theorem LookupTable.mapCells_resShift (lk : LookupTable α) (change : Nat → α → α) :
    (lk.mapCells change).resShift = lk.resShift := rfl

end

end Aprof
