import Aprof.Data

/-! The search for `_dl_runtime_resolve` in a stripped runtime linker: `check_code`
and `search_runtime_resolve` of `callstack.c`. -/
namespace Aprof

/-- `struct pattern`, with the code it belongs to. A chunk is an offset and a
length; the list ends where the source has a chunk of length 0. -/
structure Pattern where
  code : List UInt8
  chunks : List (Nat × Nat)
  len : Nat
  starts : ∃ length, chunks.head? = some (0,length)
  long : ∀ chunk ∈ chunks, 2 < chunk.2
  fits : ∀ chunk ∈ chunks, chunk.1 + chunk.2 ≤ code.length

/-- The platforms for which Valgrind defines a `VGP_` macro that the search knows. -/
inductive Platform where
  | x86Linux
  | ppc32Linux
  | amd64Linux
  | other
  deriving DecidableEq

def x86Pattern : Pattern where
  code := [
    0x50,0x51,0x52,0x8b,0x54,0x24,0x10,0x8b,0x44,0x24,0x0c,0xe8,0x70,0x01,0x00,0x00,0x5a,0x59,0x87,0x04,
    0x24,0xc2,0x08,0x00]
  chunks := [(0,12),(16,8)]
  len := 24
  starts := ⟨12,rfl⟩
  long := by decide
  fits := by decide +kernel

def x86Pattern28 : Pattern where
  code := [
    0x50,0x51,0x52,0x8b,0x54,0x24,0x10,0x8b,0x44,0x24,0x0c,0xe8,0x70,0x01,0x00,0x00,0x5a,0x8b,0x0c,0x24,
    0x89,0x04,0x24,0x8b,0x44,0x24,0x04,0xc2,0x0c,0x00]
  chunks := [(0,12),(16,14)]
  len := 30
  starts := ⟨12,rfl⟩
  long := by decide
  fits := by decide +kernel

def ppc32Pattern : Pattern where
  code := [
    0x94,0x21,0xff,0xc0,0x90,0x01,0x00,0x0c,0x90,0x61,0x00,0x10,0x90,0x81,0x00,0x14,0x7d,0x83,0x63,0x78,
    0x90,0xa1,0x00,0x18,0x7d,0x64,0x5b,0x78,0x90,0xc1,0x00,0x1c,0x7c,0x08,0x02,0xa6,0x90,0xe1,0x00,0x20,
    0x90,0x01,0x00,0x30,0x91,0x01,0x00,0x24,0x7c,0x00,0x00,0x26,0x91,0x21,0x00,0x28,0x91,0x41,0x00,0x2c,
    0x90,0x01,0x00,0x08,0x48,0x00,0x02,0x91,0x7c,0x69,0x03,0xa6,0x80,0x01,0x00,0x30,0x81,0x41,0x00,0x2c,
    0x81,0x21,0x00,0x28,0x7c,0x08,0x03,0xa6,0x81,0x01,0x00,0x24,0x80,0x01,0x00,0x08,0x80,0xe1,0x00,0x20,
    0x80,0xc1,0x00,0x1c,0x7c,0x0f,0xf1,0x20,0x80,0xa1,0x00,0x18,0x80,0x81,0x00,0x14,0x80,0x61,0x00,0x10,
    0x80,0x01,0x00,0x0c,0x38,0x21,0x00,0x40,0x4e,0x80,0x04,0x20]
  chunks := [(0,65),(68,64)]
  len := 132
  starts := ⟨65,rfl⟩
  long := by decide
  fits := by decide +kernel

def amd64Pattern : Pattern where
  code := [
    0x48,0x83,0xec,0x38,0x48,0x89,0x04,0x24,0x48,0x89,0x4c,0x24,0x08,0x48,0x89,0x54,0x24,0x10,0x48,0x89,
    0x74,0x24,0x18,0x48,0x89,0x7c,0x24,0x20,0x4c,0x89,0x44,0x24,0x28,0x4c,0x89,0x4c,0x24,0x30,0x48,0x8b,
    0x74,0x24,0x40,0x49,0x89,0xf3,0x4c,0x01,0xde,0x4c,0x01,0xde,0x48,0xc1,0xe6,0x03,0x48,0x8b,0x7c,0x24,
    0x38,0xe8,0xee,0x01,0x00,0x00,0x49,0x89,0xc3,0x4c,0x8b,0x4c,0x24,0x30,0x4c,0x8b,0x44,0x24,0x28,0x48,
    0x8b,0x7c,0x24,0x20,0x48,0x8b,0x74,0x24,0x18,0x48,0x8b,0x54,0x24,0x10,0x48,0x8b,0x4c,0x24,0x08,0x48,
    0x8b,0x04,0x24,0x48,0x83,0xc4,0x48,0x41,0xff,0xe3]
  chunks := [(0,62),(66,44)]
  len := 110
  starts := ⟨62,rfl⟩
  long := by decide
  fits := by decide +kernel

/-- `VG_(memcmp)` of the memory at an address with `bytes`. -/
def sameBytes (memory : UInt64 → UInt8) : UInt64 → List UInt8 → Bool
  | _, [] => true
  | addr, byte :: bytes => memory addr == byte && sameBytes memory (addr + 1) bytes

/-- Whether the code at an address has all chunks of a pattern. -/
def Pattern.matchesAt (pattern : Pattern) (memory : UInt64 → UInt8) (addr : UInt64) : Bool :=
  pattern.chunks.all fun chunk =>
    sameBytes memory (addr + chunk.1.toUInt64) ((pattern.code.drop chunk.1).take chunk.2)

/-- The loop of `check_code` over the addresses below `end`. -/
def Pattern.scan (pattern : Pattern) (memory : UInt64 → UInt8) : Nat → UInt64 → Option UInt64
  | 0, _ => none
  | turns + 1, addr => if pattern.matchesAt memory addr then some addr else pattern.scan memory turns (addr + 1)

/-- The address and the length that `check_code` stores when it succeeds. The end of
the loop wraps around when the object is shorter than the pattern. -/
def checkCode (memory : UInt64 → UInt8) (objStart objSize : UInt64) (pattern : Pattern) : Option (UInt64 × Nat) :=
  let last := objStart + objSize - pattern.len.toUInt64
  (pattern.scan memory (last.toNat - objStart.toNat) objStart).map fun addr => (addr,pattern.len)

def searchRuntimeResolve (platform : Platform) (memory : UInt64 → UInt8) (objName : Str) (objStart objSize : UInt64) :
    Option (UInt64 × Nat) :=
  match platform with
  | .x86Linux =>
    if "/lib/ld".toList.isPrefixOf objName then
      (checkCode memory objStart objSize x86Pattern).or (checkCode memory objStart objSize x86Pattern28)
    else none
  | .ppc32Linux =>
    if "/lib/ld".toList.isPrefixOf objName then checkCode memory objStart objSize ppc32Pattern else none
  | .amd64Linux =>
    if "/lib/ld".toList.isPrefixOf objName || "/lib64/ld".toList.isPrefixOf objName then
      checkCode memory objStart objSize amd64Pattern
    else none
  | .other => none

def Platform.patterns : Platform → List Pattern
  | .x86Linux => [x86Pattern,x86Pattern28]
  | .ppc32Linux => [ppc32Pattern]
  | .amd64Linux => [amd64Pattern]
  | .other => []

def Platform.isLinker : Platform → Str → Bool
  | .amd64Linux, objName => "/lib/ld".toList.isPrefixOf objName || "/lib64/ld".toList.isPrefixOf objName
  | _, objName => "/lib/ld".toList.isPrefixOf objName

/-- The bytes of all chunks of the pattern are in the memory behind the address. -/
def Pattern.HasCode (pattern : Pattern) (memory : UInt64 → UInt8) (addr : UInt64) : Prop :=
  ∀ chunk ∈ pattern.chunks, ∀ i < chunk.2, pattern.code[chunk.1 + i]? = some (memory (addr + (chunk.1 + i).toUInt64))

/-- The code of the pattern in a text, in front of the end that `check_code` computes. -/
structure Pattern.Occurs (pattern : Pattern) (memory : UInt64 → UInt8) (objStart objSize addr : UInt64) : Prop where
  low : objStart ≤ addr
  high : addr < objStart + objSize - pattern.len.toUInt64
  code : pattern.HasCode memory addr

theorem toUInt64_add (m n : Nat) : (m + n).toUInt64 = m.toUInt64 + n.toUInt64 := UInt64.ofNat_add m n

theorem sameBytes_iff {memory : UInt64 → UInt8} {bytes : List UInt8} : ∀ {addr : UInt64},
    sameBytes memory addr bytes = true ↔ ∀ i < bytes.length, bytes[i]? = some (memory (addr + i.toUInt64)) := by
  induction bytes with
  | nil => exact fun {_} => ⟨fun _ _ inside => absurd inside (Nat.not_lt_zero _),fun _ => rfl⟩
  | cons byte bytes ih =>
    intro addr
    rw [sameBytes,Bool.and_eq_true,beq_iff_eq,ih]
    constructor
    · rintro ⟨first,rest⟩ i inside
      cases i with
      | zero =>
        rw [List.getElem?_cons_zero,← first,show (0 : Nat).toUInt64 = 0 from rfl,UInt64.add_zero]
      | succ i =>
        have later := rest i (Nat.lt_of_succ_lt_succ inside)
        rw [List.getElem?_cons_succ,later,Nat.add_comm i 1,toUInt64_add,UInt64.add_assoc]
        rfl
    · intro same
      refine ⟨?_,fun i inside => ?_⟩
      · have first := same 0 (Nat.succ_pos _)
        rw [List.getElem?_cons_zero,show (0 : Nat).toUInt64 = 0 from rfl,UInt64.add_zero] at first
        exact (Option.some.inj first).symm
      · have later := same (i + 1) (Nat.succ_lt_succ inside)
        rw [List.getElem?_cons_succ,Nat.add_comm i 1,toUInt64_add,← UInt64.add_assoc] at later
        exact later

theorem matchesAt_iff {pattern : Pattern} {memory : UInt64 → UInt8} {addr : UInt64} :
    pattern.matchesAt memory addr = true ↔ pattern.HasCode memory addr := by
  have chunks : ∀ chunk ∈ pattern.chunks,
      sameBytes memory (addr + chunk.1.toUInt64) ((pattern.code.drop chunk.1).take chunk.2) = true ↔
        ∀ i < chunk.2, pattern.code[chunk.1 + i]? = some (memory (addr + (chunk.1 + i).toUInt64)) := by
    intro chunk member
    have fits := pattern.fits chunk member
    have length : ((pattern.code.drop chunk.1).take chunk.2).length = chunk.2 := by
      rw [List.length_take,List.length_drop]
      omega
    rw [sameBytes_iff,length]
    refine forall₂_congr fun i inside => ?_
    rw [List.getElem?_take_of_lt inside,List.getElem?_drop,toUInt64_add,UInt64.add_assoc]
  rw [Pattern.matchesAt,List.all_eq_true]
  exact forall₂_congr chunks

theorem toNat_succ {addr : UInt64} (room : addr.toNat + 1 < 2 ^ 64) : (addr + 1).toNat = addr.toNat + 1 := by
  rw [UInt64.toNat_add,UInt64.toNat_one]
  exact Nat.mod_eq_of_lt room

theorem scan_some {pattern : Pattern} {memory : UInt64 → UInt8} {turns : Nat} : ∀ {start addr : UInt64},
    start.toNat + turns < 2 ^ 64 → pattern.scan memory turns start = some addr →
    start ≤ addr ∧ addr.toNat < start.toNat + turns ∧ pattern.HasCode memory addr ∧
      ∀ earlier, start ≤ earlier → earlier < addr → ¬pattern.HasCode memory earlier := by
  induction turns with
  | zero => exact fun {_ _} _ found => nomatch found
  | succ turns ih =>
    intro start addr room found
    have next : (start + 1).toNat = start.toNat + 1 := toNat_succ (by omega)
    unfold Pattern.scan at found
    split at found
    · next here =>
      cases found
      refine ⟨UInt64.le_refl _,by omega,matchesAt_iff.mp here,fun earlier low high => ?_⟩
      exact absurd (UInt64.lt_of_le_of_lt low high) (UInt64.lt_irrefl _)
    · next missing =>
      obtain ⟨low,high,code,first⟩ := ih (by omega) found
      rw [UInt64.le_iff_toNat_le,next] at low
      refine ⟨UInt64.le_iff_toNat_le.mpr (by omega),by omega,code,fun earlier above below => ?_⟩
      rcases Nat.lt_or_ge start.toNat earlier.toNat with later | same
      · exact first earlier (by rw [UInt64.le_iff_toNat_le,next]; exact later) below
      · rw [UInt64.toNat_inj.mp (Nat.le_antisymm same (UInt64.le_iff_toNat_le.mp above))]
        exact fun code => missing (matchesAt_iff.mpr code)

theorem scan_none {pattern : Pattern} {memory : UInt64 → UInt8} {turns : Nat} : ∀ {start : UInt64},
    start.toNat + turns < 2 ^ 64 → pattern.scan memory turns start = none → ∀ addr, start ≤ addr →
      addr.toNat < start.toNat + turns → ¬pattern.HasCode memory addr := by
  induction turns with
  | zero =>
    intro start _ _ addr low high
    rw [UInt64.le_iff_toNat_le] at low
    omega
  | succ turns ih =>
    intro start room missed addr low high
    have next : (start + 1).toNat = start.toNat + 1 := toNat_succ (by omega)
    unfold Pattern.scan at missed
    split at missed
    · cases missed
    · next missing =>
      rw [UInt64.le_iff_toNat_le] at low
      rcases Nat.lt_or_ge start.toNat addr.toNat with later | same
      · exact ih (by omega) missed addr (by rw [UInt64.le_iff_toNat_le,next]; exact later) (by omega)
      · rw [← UInt64.toNat_inj.mp (Nat.le_antisymm low same)]
        exact fun code => missing (matchesAt_iff.mpr code)

/-- The first place of a text with the code of the pattern. -/
def Pattern.FirstAt (pattern : Pattern) (memory : UInt64 → UInt8) (objStart objSize addr : UInt64) : Prop :=
  pattern.Occurs memory objStart objSize addr ∧ ∀ earlier, pattern.Occurs memory objStart objSize earlier → addr ≤ earlier

section
variable {pattern : Pattern} {memory : UInt64 → UInt8} {objStart objSize : UInt64}

theorem checkCode_some {range : UInt64 × Nat} (found : checkCode memory objStart objSize pattern = some range) :
    pattern.FirstAt memory objStart objSize range.1 ∧ range.2 = pattern.len := by
  obtain ⟨addr,scanned,rfl⟩ := Option.map_eq_some_iff.mp found
  have last := (objStart + objSize - pattern.len.toUInt64).toNat_lt
  have start := objStart.toNat_lt
  obtain ⟨low,high,code,first⟩ := scan_some (by omega) scanned
  have inside : addr < objStart + objSize - pattern.len.toUInt64 := by
    rw [UInt64.lt_iff_toNat_lt]
    rw [UInt64.le_iff_toNat_le] at low
    omega
  refine ⟨⟨⟨low,inside,code⟩,fun earlier occurs => UInt64.not_lt.mp fun below => ?_⟩,rfl⟩
  exact first earlier occurs.low below occurs.code

theorem checkCode_none (missed : checkCode memory objStart objSize pattern = none) (addr : UInt64) :
    ¬pattern.Occurs memory objStart objSize addr := by
  intro occurs
  have last := (objStart + objSize - pattern.len.toUInt64).toNat_lt
  have start := objStart.toNat_lt
  have high := UInt64.lt_iff_toNat_lt.mp occurs.high
  have low := UInt64.le_iff_toNat_le.mp occurs.low
  exact scan_none (by omega) (Option.map_eq_none_iff.mp missed) addr occurs.low (by omega) occurs.code

theorem checkCode_none_iff : checkCode memory objStart objSize pattern = none ↔
    ∀ addr, ¬pattern.Occurs memory objStart objSize addr := by
  refine ⟨checkCode_none,fun never => ?_⟩
  rw [Option.eq_none_iff_forall_ne_some]
  intro range found
  exact never range.1 (checkCode_some found).1.1

theorem checkCode_some_iff {range : UInt64 × Nat} : checkCode memory objStart objSize pattern = some range ↔
    pattern.FirstAt memory objStart objSize range.1 ∧ range.2 = pattern.len := by
  refine ⟨checkCode_some,fun ⟨first,length⟩ => ?_⟩
  cases found : checkCode memory objStart objSize pattern with
  | none => exact absurd first.1 (checkCode_none found range.1)
  | some other =>
    obtain ⟨first',length'⟩ := checkCode_some found
    have same : other.1 = range.1 := UInt64.le_antisymm (first'.2 _ first.1) (first.2 _ first'.1)
    rw [Prod.ext same (length'.trans length.symm)]

end

/-- The range of the first place in the text of a linker that has the code of a pattern
of the platform; the patterns are tried in order. -/
def FoundIn (platform : Platform) (memory : UInt64 → UInt8) (objName : Str) (objStart objSize : UInt64)
    (range : UInt64 × Nat) : Prop :=
  platform.isLinker objName = true ∧ ∃ before pattern after, platform.patterns = before ++ pattern :: after ∧
    (pattern.FirstAt memory objStart objSize range.1 ∧ range.2 = pattern.len) ∧
    ∀ other ∈ before, ∀ addr, ¬other.Occurs memory objStart objSize addr

theorem searchRuntimeResolve_eq (platform : Platform) (memory : UInt64 → UInt8) (objName : Str) (objStart objSize : UInt64) :
    searchRuntimeResolve platform memory objName objStart objSize = if platform.isLinker objName = true then
      platform.patterns.findSome? (checkCode memory objStart objSize) else none := by
  have single : ∀ {pattern : Pattern}, [pattern].findSome? (checkCode memory objStart objSize) =
      checkCode memory objStart objSize pattern := by
    intro pattern
    rw [List.findSome?_cons]
    cases checkCode memory objStart objSize pattern <;> rfl
  cases platform with
  | x86Linux =>
    have two : Platform.x86Linux.patterns.findSome? (checkCode memory objStart objSize) =
        (checkCode memory objStart objSize x86Pattern).or (checkCode memory objStart objSize x86Pattern28) := by
      rw [Platform.patterns,List.findSome?_cons,single]
      cases checkCode memory objStart objSize x86Pattern <;> rfl
    rw [two]
    rfl
  | ppc32Linux =>
    rw [Platform.patterns,single]
    rfl
  | amd64Linux =>
    rw [Platform.patterns,single]
    rfl
  | other => exact (ite_self none).symm

theorem searchRuntimeResolve_iff {platform : Platform} {memory : UInt64 → UInt8} {objName : Str} {objStart objSize : UInt64}
    {range : UInt64 × Nat} : searchRuntimeResolve platform memory objName objStart objSize = some range ↔
      FoundIn platform memory objName objStart objSize range := by
  rw [searchRuntimeResolve_eq,FoundIn]
  split
  · next linker =>
    rw [List.findSome?_eq_some_iff]
    simp only [checkCode_some_iff,checkCode_none_iff]
    exact (and_iff_right linker).symm
  · next other => exact ⟨nofun,fun found => absurd found.1 other⟩

end Aprof
