import Aprof.Compression

/-! The order that `LK_compress_drms` keeps: between timestamps and the ids in the
array, and between a thread's timestamp of a cell and the global one. -/
namespace Aprof

open Floor

section
variable {array : Nat → Nat} {size : Nat}

theorem compressLts_tie {gts lts g v : Nat} (global : IsFloor array size gts g)
    (found : compressLts array size gts g lts = some v) : v = 3 * g + 1 ↔ lts = gts := by
  have small := global.le
  have triple : ∀ search : Option Nat, search.map (3 * ·) = some v → v ≠ 3 * g + 1 := by
    intro search some
    obtain ⟨index,-,rfl⟩ := Option.map_eq_some_iff.mp some
    omega
  unfold compressLts at found
  split at found
  · next below =>
    have differs := triple _ found
    omega
  · split at found
    · next above =>
      have differs := triple _ found
      have large := global.above (g + 1) (Nat.lt_succ_self g) above.1
      omega
    · split at found
      · next less =>
        have same := Option.some.inj found
        omega
      · split at found <;>
        · have same := Option.some.inj found
          omega

/-- What becomes of a timestamp `l` of a thread at a cell with global timestamp `g`. -/
structure KeepsOrder (array : Nat → Nat) (size g g' l l' : Nat) : Prop where
  ids : ∀ m < size, array m ≤ l ↔ 3 * m ≤ l'
  below : l < g ↔ l' < g'
  tie : l = g ↔ l' = g'
  above : g < l ↔ g' < l'
  small : l' < 3 * (size + 1)

theorem compressLts_keeps (inc : Increasing array size) {gts lts g l v : Nat} (global : IsFloor array size gts g)
    (lower : IsFloor array size lts l) (found : compressLts array size gts g lts = some v) :
    KeepsOrder array size gts (3 * g + 1) lts v := by
  obtain ⟨w,computed,low,high,side⟩ := compressLts_eq inc global lower
  rw [found] at computed
  cases computed
  have tie := compressLts_tie global found
  have inside := lower.inside
  constructor
  · intro m bound
    have reached := lower.le_iff inc bound
    omega
  · exact side.symm
  · exact tie.symm
  · omega
  · omega

end

section
variable {array : Nat → Nat} {size : Nat} {global : LookupTable Counter.wrapping.Word}

/-- Compression keeps, in every cell of an allocated global chunk, the floor index and the
syscall bit, and in every cell of an allocated local chunk the order relative to all ids
and to the global timestamp; no search fails. -/
theorem compression_keeps_order (inc : Increasing array size) (zero : array 0 = 0) (nonempty : 0 < size)
    (fits : 3 * (size - 1) + 1 < 2 ^ 31) (live : List Nat) (threads : Nat → Option ThreadData) :
    ∃ global' threads', lkCompressDrms .wrapping array size global live threads = .ok (global',threads') ∧
      (∀ g, global.allocated (g / global.fltSize) = true → ∃ k, IsFloor array size (tsOf .wrapping (global.value g)) k ∧
        tsOf .wrapping (global'.value g) = 3 * k + 1 ∧ 3 * k + 1 < 3 * (size + 1) ∧
        syscallOf .wrapping (global'.value g) = syscallOf .wrapping (global.value g)) ∧
      (∀ tid ∈ live, ∀ tdata, threads tid = some tdata → ∃ tdata', threads' tid = some tdata' ∧
        ∀ g, tdata.shadowMemory.allocated (g / tdata.shadowMemory.fltSize) = true →
          (∀ m < size, array m ≤ tdata.shadowMemory.value g ↔ 3 * m ≤ tdata'.shadowMemory.value g) ∧
          tdata'.shadowMemory.value g < 3 * (size + 1) ∧
          (global.allocated (g / global.fltSize) = true → KeepsOrder array size (tsOf .wrapping (global.value g))
            (tsOf .wrapping (global'.value g)) (tdata.shadowMemory.value g) (tdata'.shadowMemory.value g))) ∧
      ∀ after, size = (live.map (depthOf threads)).sum + 1 →
          overflowHandlerDrms .wrapping live global threads = .ok after → after.1 = 3 * (size + 1) := by
  have floor : ∀ ts, ∃ k, IsFloor array size ts k := fun ts =>
    exists_isFloor inc nonempty ts (by rw [zero]; exact Nat.zero_le _)
  have moved : ∀ g, global.allocated (g / global.fltSize) = true → ∀ k,
      IsFloor array size (tsOf .wrapping (global.value g)) k →
      tsOf .wrapping ((compressGlobal .wrapping array size global).value g) = 3 * k + 1 ∧
      syscallOf .wrapping ((compressGlobal .wrapping array size global).value g) =
        syscallOf .wrapping (global.value g) := by
    intro g allocated k floor
    have inside := floor.inside
    have room : Counter.wrapping.Fits (3 * k + 1) := fun _ => by omega
    rw [compressGlobal_value inc zero global floor,if_pos allocated]
    exact ⟨tsOf_compressWord room _,syscallOf_compressWord room _⟩
  refine ⟨_,_,lkCompressDrms_ok inc zero nonempty global live threads,?_,?_,?_⟩
  · intro g allocated
    obtain ⟨k,here⟩ := floor (tsOf .wrapping (global.value g))
    obtain ⟨value,bit⟩ := moved g allocated k here
    have inside := here.inside
    exact ⟨k,here,value,by omega,bit⟩
  · intro tid member tdata found
    refine ⟨{tdata with shadowMemory := compressLocal .wrapping array size global tdata.shadowMemory},?_,?_⟩
    · rw [if_pos member,found]
      rfl
    intro g allocated
    obtain ⟨k,here⟩ := floor (tsOf .wrapping (global.value g))
    obtain ⟨l,lower⟩ := floor (tdata.shadowMemory.value g)
    obtain ⟨v,computed,-⟩ := compressLts_eq inc here lower
    have keeps := compressLts_keeps inc here lower computed
    have value : (compressLocal .wrapping array size global tdata.shadowMemory).value g = v := by
      rw [compressLocal,LookupTable.value_mapCells,if_pos allocated]
      simp only [searchGts_eq inc zero here,Option.getD_some,computed]
    rw [value]
    refine ⟨keeps.ids,keeps.small,?_⟩
    intro present
    rw [(moved g present k here).1]
    exact keeps
  · rintro ⟨counter,global',threads'⟩ rfl ok
    unfold overflowHandlerDrms at ok
    obtain ⟨merged,-,ok⟩ := bind_ok.mp ok
    obtain ⟨compressed,-,ok⟩ := bind_ok.mp ok
    cases ok
    rfl

end

def uniform {α : Type} (value : α) : LookupTable α := ⟨.flat fun _ => some fun _ => value,65536,0,sized_bytes⟩

def uniformThread (ts : Nat) : ThreadData := newThread (smallConfig .drms) 1 (uniform ts)

theorem compression_keeps_later_read : ∃ global' threads',
    lkCompressDrms .wrapping (5 * ·) 2 (uniform (7 : Nat)) [1] (fun _ => some (uniformThread 9)) = .ok (global',threads') ∧
      ∃ tdata', threads' 1 = some tdata' ∧ tsOf .wrapping (global'.value 0) < tdata'.shadowMemory.value 0 := by
  have increasing : Increasing (5 * ·) 2 := by
    intro i j lt bound
    dsimp only
    omega
  obtain ⟨global',threads',ok,-,locals,-⟩ := compression_keeps_order increasing rfl (by decide) (by decide)
    [1] fun _ => some (uniformThread 9)
  obtain ⟨tdata',found,keeps⟩ := locals 1 List.mem_cons_self (uniformThread 9) rfl
  exact ⟨global',threads',ok,tdata',found,((keeps 0 rfl).2.2 rfl).above.mp (by decide)⟩

/-- With 2^30 ids the new timestamp of the last one reaches the syscall bit. -/
theorem compression_reaches_syscall_bit : Increasing id (2 ^ 30) ∧
    tsOf .wrapping ((uniform (2 ^ 30 - 1) : LookupTable Nat).value 0) = 2 ^ 30 - 1 ∧
    syscallOf .wrapping ((uniform (2 ^ 30 - 1) : LookupTable Nat).value 0) = false ∧
    ∃ global' threads', lkCompressDrms .wrapping id (2 ^ 30) (uniform (2 ^ 30 - 1 : Nat)) [] (fun _ => none) =
      .ok (global',threads') ∧ syscallOf .wrapping (global'.value 0) = true ∧
      tsOf .wrapping (global'.value 0) ≠ 3 * (2 ^ 30 - 1) + 1 := by
  have increasing : Increasing id (2 ^ 30) := fun i j lt _ => lt
  have floor : IsFloor id (2 ^ 30) (2 ^ 30 - 1) (2 ^ 30 - 1) := ⟨by decide,Nat.le_refl _,fun j above _ => above⟩
  refine ⟨increasing,by decide,by decide,_,_,lkCompressDrms_ok increasing rfl (by decide) _ _ _,?_⟩
  have word : tsOf .wrapping ((uniform (2 ^ 30 - 1) : LookupTable Nat).value 0) = 2 ^ 30 - 1 := by decide
  have value := compressGlobal_value (c := .wrapping) increasing rfl (uniform (2 ^ 30 - 1 : Nat)) (g := 0) (word ▸ floor)
  rw [value]
  decide

end Aprof
