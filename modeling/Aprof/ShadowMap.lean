import Aprof.LookupTable
import Mathlib.Data.UInt

/-! Sequences of inserts and look-ups on one table: it is a total map from the granules
of the memory to timestamps, in either layout and for every resolution. -/
namespace Aprof

inductive TableCall (α : Type) where
  | insert (addr : Nat) (ts : α)
  | lookup (addr : Nat)

def TableCall.addr {α : Type} : TableCall α → Nat
  | .insert addr _ => addr
  | .lookup addr => addr

/-- The indices of an address: the first table, the intermediate table (always 0 on
i386) and the segment. -/
structure Slot where
  first : Nat
  second : Nat
  cell : Nat
  deriving DecidableEq

def slotOf (layout : Layout) (resShift addr : Nat) : Slot :=
  match layout with
  | .i386 => ⟨addr >>> 16,0,(addr &&& 0xffff) >>> resShift⟩
  | .amd64 => ⟨addr >>> 30,(addr >>> 16) &&& 0x3fff,(addr &&& 0xffff) >>> resShift⟩

/-- What the tables hold in a slot, 0 where a pointer on the way is missing. -/
def LookupTable.cellAt {α : Type} [Zero α] (lk : LookupTable α) (slot : Slot) : α :=
  let segment := match lk.table with
    | .flat table => table slot.first
    | .tree table => (table slot.first).bind fun ilt => ilt slot.second
  (segment.getD fun _ => 0) slot.cell

def Directory.layout {α : Type} : Directory α → Layout
  | .flat _ => .i386
  | .tree _ => .amd64

section
variable {α : Type} [Zero α]

def TableCall.run (lk : LookupTable α) : TableCall α → Result (α × LookupTable α)
  | .insert addr ts => lkInsert lk addr ts
  | .lookup addr => do
    let value ← lkLookup lk addr
    .ok (value,lk)

def runCalls (lk : LookupTable α) : List (TableCall α) → Result (List α × LookupTable α)
  | [] => .ok ([],lk)
  | call :: calls => do
    let (value,lk) ← call.run lk
    let (values,lk) ← runCalls lk calls
    .ok (value :: values,lk)

def TableCall.stores (memoryResolution granule : Nat) : TableCall α → Option α
  | .insert addr ts => if addr / memoryResolution = granule then some ts else none
  | .lookup _ => none

/-- The timestamp of the latest insert into a granule, 0 when there is none. -/
def latest (memoryResolution : Nat) (calls : List (TableCall α)) (granule : Nat) : α :=
  (calls.reverse.findSome? (TableCall.stores memoryResolution granule)).getD 0

structure Remembers (layout : Layout) (memoryResolution : Nat) (calls : List (TableCall α)) (lk : LookupTable α) : Prop where
  limit : lk.table.limit = layout.limit
  scale : 2 ^ lk.resShift = memoryResolution
  value : ∀ granule, lk.value granule = latest memoryResolution calls granule

section
variable {layout : Layout} {memoryResolution : Nat} {calls : List (TableCall α)} {lk : LookupTable α}

theorem latest_insert (addr : Nat) (ts : α) (granule : Nat) :
    latest memoryResolution (calls ++ [.insert addr ts]) granule =
      if granule = addr / memoryResolution then ts else latest memoryResolution calls granule := by
  unfold latest
  rw [List.reverse_append,List.reverse_singleton,List.singleton_append,List.findSome?_cons,TableCall.stores]
  by_cases own : granule = addr / memoryResolution
  · rw [if_pos own,if_pos own.symm]
    rfl
  · rw [if_neg own,if_neg fun same => own same.symm]

theorem latest_lookup (addr granule : Nat) :
    latest memoryResolution (calls ++ [.lookup addr]) granule = latest memoryResolution calls granule := by
  unfold latest
  rw [List.reverse_append,List.reverse_singleton,List.singleton_append,List.findSome?_cons]
  rfl

theorem Remembers.call (remembers : Remembers layout memoryResolution calls lk) (call : TableCall α)
    (inside : call.addr < layout.limit) :
    ∃ lk', call.run lk = .ok (latest memoryResolution calls (call.addr / memoryResolution),lk') ∧
      Remembers layout memoryResolution (calls ++ [call]) lk' := by
  obtain ⟨limit,scale,value⟩ := remembers
  have granule : lk.granule call.addr = call.addr / memoryResolution := by rw [LookupTable.granule,scale]
  cases call with
  | insert addr ts =>
    dsimp only [TableCall.addr] at inside granule ⊢
    refine ⟨lk.write (addr / memoryResolution) ts,?_,?_⟩
    · rw [TableCall.run,lkInsert_eq lk addr ts (limit ▸ inside),granule,value]
    · refine ⟨(lk.write_limit _ ts).trans limit,scale,fun other => ?_⟩
      rw [lk.value_write,latest_insert,value]
  | lookup addr =>
    dsimp only [TableCall.addr] at inside granule ⊢
    refine ⟨lk,?_,limit,scale,fun other => ?_⟩
    · rw [TableCall.run,lkLookup_eq lk addr (limit ▸ inside),granule,value]
      rfl
    · rw [latest_lookup,value]

theorem Remembers.run (later : List (TableCall α)) : ∀ {calls : List (TableCall α)} {lk : LookupTable α},
    Remembers layout memoryResolution calls lk → (∀ call ∈ later, call.addr < layout.limit) →
    ∃ values lk', runCalls lk later = .ok (values,lk') ∧ ∀ before call after, later = before ++ call :: after →
      values[before.length]? = some (latest memoryResolution (calls ++ before) (call.addr / memoryResolution)) := by
  induction later with
  | nil =>
    intro calls lk remembers inside
    refine ⟨[],lk,rfl,fun before call after split => ?_⟩
    cases before <;> cases split
  | cons first later ih =>
    intro calls lk remembers inside
    obtain ⟨middle,ran,remembers⟩ := remembers.call first (inside first List.mem_cons_self)
    obtain ⟨values,lk',rest,returned⟩ := ih remembers fun call member => inside call (List.mem_cons_of_mem _ member)
    refine ⟨latest memoryResolution calls (first.addr / memoryResolution) :: values,lk',?_,fun before call after split => ?_⟩
    · rw [runCalls,ran,ok_bind]
      dsimp only
      rw [rest]
      rfl
    · cases before with
      | nil =>
        cases split
        rw [List.append_nil]
        rfl
      | cons head before =>
        cases split
        have own := returned before call after rfl
        rw [List.append_assoc] at own
        exact own

end

omit [Zero α] in
theorem slotOf_inside (layout : Layout) (lk : LookupTable α) (addr : Nat) (inside : addr < layout.limit) :
    (slotOf layout lk.resShift addr).first < lkSize ∧ (slotOf layout lk.resShift addr).second < iltSize ∧
      (slotOf layout lk.resShift addr).cell < lk.fltSize := by
  have cell := lk.slot_inside addr
  cases layout with
  | i386 => exact ⟨flat_inside.mpr inside,show 0 < iltSize by decide,cell⟩
  | amd64 => exact ⟨tree_inside.mpr inside,second_inside (addr >>> 16),cell⟩

omit [Zero α] in
theorem slotOf_eq_iff (layout : Layout) (lk : LookupTable α) (addr other : Nat) :
    slotOf layout lk.resShift addr = slotOf layout lk.resShift other ↔ lk.granule addr = lk.granule other := by
  have segments : slotOf layout lk.resShift addr = slotOf layout lk.resShift other ↔
      addr >>> 16 = other >>> 16 ∧ (addr &&& 0xffff) >>> lk.resShift = (other &&& 0xffff) >>> lk.resShift := by
    cases layout with
    | i386 => simp [slotOf]
    | amd64 =>
      simp only [slotOf,Slot.mk.injEq]
      constructor
      · rintro ⟨high,low,cell⟩
        refine ⟨index_eq ?_ low,cell⟩
        rw [← Nat.shiftRight_add,← Nat.shiftRight_add]
        exact high
      · rintro ⟨segment,cell⟩
        refine ⟨?_,by rw [segment],cell⟩
        rw [show (30 : Nat) = 16 + 14 from rfl,Nat.shiftRight_add,Nat.shiftRight_add,segment]
  rw [segments,← lk.segment_index,← lk.segment_index,← lk.slot_index,← lk.slot_index]
  constructor
  · rintro ⟨segment,cell⟩
    rw [← Nat.div_add_mod (lk.granule addr) lk.fltSize,← Nat.div_add_mod (lk.granule other) lk.fltSize,segment,cell]
  · intro same
    rw [same]
    exact ⟨rfl,rfl⟩

theorem cellAt_slotOf (lk : LookupTable α) (addr : Nat) :
    lk.cellAt (slotOf lk.table.layout lk.resShift addr) = lk.value (lk.granule addr) := by
  rw [lk.value_eq]
  rcases lk with ⟨table,fltSize,resShift,sized⟩
  cases table with
  | flat table => rfl
  | tree table =>
    simp only [LookupTable.cellAt,Directory.layout,slotOf,Directory.segment,shift_twice]

omit [Zero α] in
theorem Directory.layout_limit (table : Directory α) : table.limit = table.layout.limit := by
  cases table <;> rfl

theorem Layout.limit_injective {layout other : Layout} (same : layout.limit = other.limit) : layout = other := by
  cases layout with
  | i386 =>
    cases other with
    | i386 => rfl
    | amd64 => exact absurd same (by decide)
  | amd64 =>
    cases other with
    | i386 => exact absurd same (by decide)
    | amd64 => rfl

theorem Empty.layout {layout : Layout} {memoryResolution : Nat} {lk : LookupTable α} (empty : Empty layout memoryResolution lk) :
    lk.table.layout = layout := Layout.limit_injective (lk.table.layout_limit.symm.trans empty.limit)

theorem write_layout (lk : LookupTable α) (g : Nat) (ts : α) : (lk.write g ts).table.layout = lk.table.layout := by
  cases found : lk.table <;> simp [LookupTable.write,found,Directory.setSegment,Directory.layout]

/-- A look-up reads the slot of its address, and an insert changes this slot alone. -/
structure UsesSlots (layout : Layout) (lk : LookupTable α) (addr : Nat) : Prop where
  lookup : lkLookup lk addr = .ok (lk.cellAt (slotOf layout lk.resShift addr))
  insert : ∀ ts, ∃ lk', lkInsert lk addr ts = .ok (lk.cellAt (slotOf layout lk.resShift addr),lk') ∧
    ∀ other, lk'.cellAt (slotOf layout lk.resShift other) =
      if slotOf layout lk.resShift other = slotOf layout lk.resShift addr then ts
      else lk.cellAt (slotOf layout lk.resShift other)

theorem usesSlots (lk : LookupTable α) {addr : Nat} (inside : addr < lk.table.layout.limit) :
    UsesSlots lk.table.layout lk addr := by
  rw [← lk.table.layout_limit] at inside
  constructor
  · rw [lkLookup_eq lk addr inside,cellAt_slotOf]
  · intro ts
    refine ⟨_,by rw [lkInsert_eq lk addr ts inside,cellAt_slotOf],fun other => ?_⟩
    have written := cellAt_slotOf (lk.write (lk.granule addr) ts) other
    rw [write_layout,lk.write_resShift] at written
    rw [written,cellAt_slotOf]
    show (lk.write (lk.granule addr) ts).value (lk.granule other) = _
    rw [lk.value_write]
    simp only [slotOf_eq_iff]

theorem TableCall.run_keeps {lk lk' : LookupTable α} {call : TableCall α} {value : α}
    (inside : call.addr < lk.table.layout.limit) (ran : call.run lk = .ok (value,lk')) :
    lk'.table.layout = lk.table.layout ∧ lk'.resShift = lk.resShift := by
  rw [← lk.table.layout_limit] at inside
  cases call with
  | insert addr ts =>
    rw [TableCall.run,lkInsert_eq lk addr ts inside] at ran
    cases ran
    exact ⟨write_layout lk _ ts,rfl⟩
  | lookup addr =>
    rw [TableCall.run,lkLookup_eq lk addr inside] at ran
    cases ran
    exact ⟨rfl,rfl⟩

theorem runCalls_keeps {calls : List (TableCall α)} {lk lk' : LookupTable α} {values : List α}
    (inside : ∀ call ∈ calls, call.addr < lk.table.layout.limit) (ran : runCalls lk calls = .ok (values,lk')) :
    lk'.table.layout = lk.table.layout ∧ lk'.resShift = lk.resShift := by
  induction calls generalizing lk values with
  | nil =>
    cases ran
    exact ⟨rfl,rfl⟩
  | cons call calls ih =>
    obtain ⟨⟨value,middle⟩,first,ran⟩ := bind_ok.mp ran
    obtain ⟨⟨rest,last⟩,later,ran⟩ := bind_ok.mp ran
    cases ran
    obtain ⟨layout,shift⟩ := TableCall.run_keeps (inside call List.mem_cons_self) first
    obtain ⟨layout',shift'⟩ := ih (fun call member => layout ▸ inside call (List.mem_cons_of_mem _ member)) later
    exact ⟨layout'.trans layout,shift'.trans shift⟩

/-- The shadow memory is a total map from granules to timestamps, kept in slots of its own
tables: every run of calls below the limit returns the latest timestamps without leaving a
table, granules have different slots, and each call works on the slot of its address. -/
theorem shadow_memory_total (layout : Layout) (memoryResolution : Nat) (supported : memoryResolution ∈ [1,2,4,8,16]) :
    ∃ lk : LookupTable α, lkCreate layout memoryResolution = .ok lk ∧
      (∀ calls : List (TableCall α), (∀ call ∈ calls, call.addr < layout.limit) →
        ∃ values lk', runCalls lk calls = .ok (values,lk') ∧
          (∀ before call after, calls = before ++ call :: after →
            values[before.length]? = some (latest memoryResolution before (call.addr / memoryResolution))) ∧
          lk'.resShift = lk.resShift ∧ ∀ addr, addr < layout.limit → UsesSlots layout lk' addr) ∧
      (∀ addr other, slotOf layout lk.resShift addr = slotOf layout lk.resShift other ↔
        addr / memoryResolution = other / memoryResolution) ∧
      ∀ addr, addr < layout.limit → (slotOf layout lk.resShift addr).first < lkSize ∧
        (slotOf layout lk.resShift addr).second < iltSize ∧ (slotOf layout lk.resShift addr).cell < lk.fltSize := by
  obtain ⟨lk,created,empty⟩ := @lkCreate_ok α _ layout memoryResolution supported
  have remembers : Remembers layout memoryResolution [] lk := ⟨empty.limit,empty.scale,empty.value⟩
  refine ⟨lk,created,fun calls inside => ?_,fun addr other => ?_,slotOf_inside layout lk⟩
  · obtain ⟨values,lk',ran,returned⟩ := Remembers.run calls remembers inside
    obtain ⟨layout',shift⟩ := runCalls_keeps (empty.layout.symm ▸ inside) ran
    refine ⟨values,lk',ran,returned,shift,fun addr admitted => ?_⟩
    have uses := @usesSlots α _ lk' addr
    rw [layout',empty.layout] at uses
    exact uses admitted
  · rw [slotOf_eq_iff,LookupTable.granule,LookupTable.granule,empty.scale]

end

theorem shadow_memory_total_amd64 : ∃ (lk lk' : LookupTable UInt32) (values : List UInt32),
    lkCreate .amd64 4 = .ok lk ∧ runCalls lk [.insert 70000 7,.insert 70004 8,.lookup 70003] = .ok (values,lk') ∧
      values[2]? = some 7 ∧ lkLookup lk' 70007 = .ok (lk'.cellAt (slotOf .amd64 lk'.resShift 70007)) := by
  obtain ⟨lk,created,calls,-⟩ := @shadow_memory_total UInt32 _ .amd64 4 (by decide)
  obtain ⟨values,lk',ran,returned,-,uses⟩ := calls [.insert 70000 7,.insert 70004 8,.lookup 70003] (by decide)
  exact ⟨lk,lk',values,created,ran,returned [.insert 70000 7,.insert 70004 8] (.lookup 70003) [] rfl,(uses 70007 (by decide)).lookup⟩

end Aprof
