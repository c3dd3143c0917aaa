import Aprof.Stamps
import Aprof.RmsMetric
import Aprof.Syscalls

/-! Which cells of the global shadow memory a system call marks. The store loops
of `post_syscall` mark the granules of each buffer they were given, and those are
the granules of the bytes the kernel wrote but for two slips: the length is
widened before it is compared with 0, and it is kept in an `Int`. -/
namespace Aprof

open Lockstep Levels

theorem holds_range {r : Nat} (positive : 0 < r) (start length g : Nat) :
    Holds r [(start,length)] g ↔ 0 < length ∧ g * r < start + length ∧ start < (g + 1) * r := by
  constructor
  · rintro ⟨range,member,byte,low,high,granule⟩
    obtain rfl := List.mem_singleton.mp member
    have below : g * r ≤ byte := granule ▸ Nat.div_mul_le_self byte r
    have above : byte < (g + 1) * r := (Nat.div_lt_iff_lt_mul positive).mp (by omega)
    dsimp only at low high
    exact ⟨by omega,by omega,by omega⟩
  · rintro ⟨nonempty,below,above⟩
    refine ⟨(start,length),List.mem_singleton.mpr rfl,max start (g * r),le_max_left _ _,?_,?_⟩
    · exact max_lt (by dsimp only; omega) below
    · apply Nat.div_eq_of_lt_le
      · exact le_max_right _ _
      · exact max_lt above (by rw [Nat.succ_mul]; omega)

theorem holds_iff {r : Nat} {ranges : List (Nat × Nat)} {g : Nat} :
    Holds r ranges g ↔ ∃ range ∈ ranges, Holds r [range] g := by
  constructor
  · rintro ⟨range,member,held⟩
    exact ⟨range,member,range,List.mem_singleton.mpr rfl,held⟩
  · rintro ⟨range,member,single,only,held⟩
    obtain rfl := List.mem_singleton.mp only
    exact ⟨single,member,held⟩

/-- A buffer whose widened length fits is marked where it holds bytes, and where it starts when it is
empty but not aligned. -/
theorem mem_buffer {r : Nat} (supported : r ∈ [1,2,4,8,16]) {start length : Nat} (fits : length + start % r < 2 ^ 31)
    (g : Nat) : g ∈ (accessAddrs r start length).map (· / r) ↔
      Holds r [(start,length)] g ∨ (length = 0 ∧ start % r ≠ 0 ∧ g = start / r) := by
  obtain ⟨positive,small⟩ := supported_range supported
  rcases Nat.eq_zero_or_pos length with rfl | nonempty
  · have unheld : ¬ Holds r [(start,0)] g := fun held => absurd ((holds_range positive start 0 g).mp held).1 (Nat.lt_irrefl 0)
    rw [access_granules supported start 0 fits,List.mem_range'_1]
    have low := Nat.mod_lt start positive
    have count : (start % r + 0 + r - 1) / r = if start % r = 0 then 0 else 1 := by
      split
      · next aligned =>
        rw [aligned]
        exact Nat.div_eq_of_lt (by omega)
      · next off => exact Nat.div_eq_of_lt_le (by omega) (by omega)
    rw [count]
    split
    · next aligned =>
      simp only [unheld,aligned,ne_eq,not_true_eq_false,false_and,and_false,or_false,iff_false]
      omega
    · next off =>
      simp only [unheld,off,ne_eq,not_false_eq_true,true_and,false_or]
      omega
  · rw [mem_access_granules supported nonempty fits,holds_range positive]
    have filled : length ≠ 0 := by omega
    simp only [nonempty,filled,true_and,false_and,or_false]

theorem sweep_below {r : Nat} (range : 0 < r ∧ r ≤ 16) (fuel addr : Nat) (size : Int) (high : size < 2 ^ 31) {a : Nat}
    (member : a ∈ sweep r fuel addr size) : (a : Int) < addr + size := by
  induction fuel generalizing addr size with
  | zero => cases member
  | succ fuel ih =>
    unfold sweep at member
    split at member
    · next positive =>
      rcases List.mem_cons.mp member with rfl | later
      · omega
      · have step : toInt (size - r) = size - r := toInt_small (by omega) (by omega)
        rw [step] at later
        have := ih (addr + r) (size - r) (by omega) later
        omega
    · cases member

theorem toInt_add (n m : Int) : toInt (toInt n + m) = toInt (n + m) := Int.bmod_add_bmod

theorem toInt_large {n : Int} (large : 2 ^ 31 ≤ n) : toInt n + 2 ^ 32 ≤ n ∧ toInt n < 2 ^ 31 := by
  unfold toInt
  rw [Int.bmod_def]
  omega

theorem last_unmarked {r : Nat} (supported : r ∈ [1,2,4,8,16]) {start length : Nat} (huge : 2 ^ 31 ≤ length + start % r) :
    Holds r [(start,length)] ((start + length - 1) / r) ∧
      (start + length - 1) / r ∉ (accessAddrs r start length).map (· / r) := by
  have range := supported_range supported
  have low := sub_low_bits supported start
  have rem := Nat.mod_lt start range.1
  have floor := Nat.div_mul_le_self (start + length - 1) r
  have ceiling : start + length - 1 < ((start + length - 1) / r + 1) * r := (Nat.div_lt_iff_lt_mul range.1).mp (Nat.lt_succ_self _)
  refine ⟨(holds_range range.1 _ _ _).mpr ⟨by omega,by omega,by omega⟩,?_⟩
  intro marked
  obtain ⟨a,member,granule⟩ := List.mem_map.mp marked
  have wrapped := toInt_large (n := length + (start % r : Nat)) (by omega)
  unfold accessAddrs fixAccessSize at member
  simp only [low,toInt_add] at member
  have below := sweep_below range _ _ _ wrapped.2 member
  have inside : a < ((start + length - 1) / r + 1) * r := (Nat.div_lt_iff_lt_mul range.1).mp (by omega)
  have above : (start + length - 1) / r * r ≤ a := granule ▸ Nat.div_mul_le_self a r
  rw [Nat.succ_mul] at ceiling
  omega

section
variable {c : Counter} {cfg : Config} {rt after : Runtime c} {tid : Nat} {tdata : ThreadData}

def kernelMark (rt : Runtime c) : c.Word := setSyscall c (plainWord c rt.globalCounter)

def markAll (mark : c.Word) (lk : LookupTable c.Word) (granules : List Nat) : LookupTable c.Word :=
  granules.foldl (fun lk g => lk.write g mark) lk

theorem value_markAll (mark : c.Word) (lk : LookupTable c.Word) (granules : List Nat) (g : Nat) :
    (markAll mark lk granules).value g = if g ∈ granules then mark else lk.value g := by
  unfold markAll
  induction granules generalizing lk with
  | nil => simp
  | cons first granules ih =>
    rw [List.foldl_cons,ih,LookupTable.value_write]
    by_cases later : g ∈ granules
    · simp [later]
    · simp [later]

def Runtime.marked (rt : Runtime c) (granules : List Nat) : Runtime c :=
  {rt with globalShadow := markAll (kernelMark rt) rt.globalShadow granules}

/-- The current thread records, and the global shadow memory has the layout of the configuration. -/
structure Records (cfg : Config) (rt : Runtime c) (tdata : ThreadData) : Prop where
  found : rt.threads rt.currentTid = some tdata
  recording : 0 < tdata.stackDepth ∧ tdata.skip = 0
  limit : rt.globalShadow.table.limit = cfg.layout.limit
  scale : 2 ^ rt.globalShadow.resShift = cfg.memoryResolution

theorem Records.marked (records : Records cfg rt tdata) (granule : Nat) : Records cfg (rt.marked [granule]) tdata :=
  ⟨records.found,records.recording,(LookupTable.write_limit _ _ _).trans records.limit,records.scale⟩

theorem aligned_access {r : Nat} (supported : r ∈ [1,2,4,8,16]) {addr : Nat} (aligned : r ∣ addr) :
    accessAddrs r addr r = [addr] := by
  obtain ⟨positive,small⟩ := supported_range supported
  have low : addr &&& (r - 1) = 0 := (sub_low_bits supported addr).trans (Nat.mod_eq_zero_of_dvd aligned)
  have size : toInt (r : Int) = r := toInt_small (by omega) (by omega)
  unfold accessAddrs fixAccessSize
  simp only [low,size,Int.natCast_zero,Int.add_zero,Nat.sub_zero,Int.toNat_natCast]
  have one : ((r : Int) + r - 1) / r = 1 := by
    have shift : (r : Int) + r - 1 = (r - 1) + r * 1 := by omega
    rw [shift,Int.add_mul_ediv_left _ _ (by omega),Int.ediv_eq_zero_of_lt (by omega) (by omega)]
    rfl
  rw [sweep_eq positive small r addr r (by omega) (by omega) (by omega),one]
  simp

theorem kernel_store_eq (drms : cfg.inputMetric = .drms) (records : Records cfg rt tdata) {addr : Nat}
    (aligned : cfg.memoryResolution ∣ addr) : traceAccess cfg rt .store addr cfg.memoryResolution true =
      (lkInsert rt.globalShadow addr (kernelMark rt)).map fun inserted => {rt with globalShadow := inserted.2} := by
  have current : rt.current = .ok tdata := by
    unfold Runtime.current
    rw [records.found]
  have active : ¬ (tdata.stackDepth = 0 ∨ tdata.skip > 0) := by
    have := records.recording
    omega
  have put : ∀ global, ({rt with globalShadow := global} : Runtime c).put rt.currentTid tdata =
      {rt with globalShadow := global} := by
    intro global
    simp only [Runtime.put,← records.found,Function.update_eq_self]
  unfold traceAccess traceAccessDrms
  rw [current,ok_bind,aligned_access cfg.supported aligned]
  simp only [drms,if_neg active,List.foldlM_cons,List.foldlM_nil,accessCellDrms,if_true,kernelMark]
  cases lkInsert rt.globalShadow addr (setSyscall c (plainWord c rt.globalCounter)) with
  | error fault => rfl
  | ok inserted => exact congrArg Except.ok (put inserted.2)

theorem kernel_store (drms : cfg.inputMetric = .drms) (records : Records cfg rt tdata) {addr : Nat}
    (aligned : cfg.memoryResolution ∣ addr) : traceAccess cfg rt .store addr cfg.memoryResolution true = .ok after ↔
      addr < cfg.layout.limit ∧ after = rt.marked [addr / cfg.memoryResolution] := by
  rw [kernel_store_eq drms records aligned]
  by_cases admitted : addr < cfg.layout.limit
  · have inserted := lkInsert_eq rt.globalShadow addr (kernelMark rt) (by rw [records.limit]; exact admitted)
    rw [LookupTable.granule,records.scale] at inserted
    rw [inserted]
    simp only [admitted,true_and]
    constructor
    · intro ok
      exact (Except.ok.inj ok).symm
    · intro same
      exact congrArg Except.ok same.symm
  · obtain ⟨fault,refused⟩ := lkInsert_refused rt.globalShadow addr (kernelMark rt) (by rw [records.limit]; omega)
    rw [refused]
    simp only [admitted,false_and,iff_false]
    intro ok
    cases ok

theorem kernel_stores (drms : cfg.inputMetric = .drms) (addrs : List Nat) (records : Records cfg rt tdata)
    (aligned : ∀ a ∈ addrs, cfg.memoryResolution ∣ a) :
    addrs.foldlM (fun rt addr => traceAccess cfg rt .store addr cfg.memoryResolution true) rt = .ok after ↔
      (∀ a ∈ addrs, a < cfg.layout.limit) ∧ after = rt.marked (addrs.map (· / cfg.memoryResolution)) := by
  induction addrs generalizing rt with
  | nil =>
    constructor
    · intro ok
      exact ⟨fun _ member => (List.not_mem_nil member).elim,(Except.ok.inj ok).symm⟩
    · rintro ⟨-,rfl⟩
      rfl
  | cons addr addrs ih =>
    obtain ⟨first,rest⟩ := List.forall_mem_cons.mp aligned
    rw [List.foldlM_cons,bind_ok,List.forall_mem_cons]
    have next := records.marked (addr / cfg.memoryResolution)
    constructor
    · rintro ⟨middle,stored,ok⟩
      obtain ⟨admitted,rfl⟩ := (kernel_store drms records first).mp stored
      obtain ⟨all,rfl⟩ := (ih next rest).mp ok
      exact ⟨⟨admitted,all⟩,rfl⟩
    · rintro ⟨⟨admitted,all⟩,rfl⟩
      exact ⟨_,(kernel_store drms records first).mpr ⟨admitted,rfl⟩,(ih next rest).mpr ⟨all,rfl⟩⟩

theorem sweep_aligned {r addr : Nat} {size : Int} (fuel : Nat) (aligned : r ∣ addr) {a : Nat}
    (member : a ∈ sweep r fuel addr size) : r ∣ a := by
  induction fuel generalizing addr size with
  | zero => cases member
  | succ fuel ih =>
    unfold sweep at member
    split at member
    · rcases List.mem_cons.mp member with rfl | later
      · exact aligned
      · exact ih (Nat.dvd_add aligned (Nat.dvd_refl r)) later
    · cases member

theorem access_aligned {r : Nat} (supported : r ∈ [1,2,4,8,16]) {start length a : Nat}
    (member : a ∈ accessAddrs r start length) : r ∣ a := by
  unfold accessAddrs fixAccessSize at member
  simp only [sub_low_bits supported start] at member
  exact sweep_aligned _ (Nat.dvd_sub_mod start) member

def storedAddrs (memoryResolution : Nat) (ranges : List (Nat × Nat)) : List Nat :=
  ranges.flatMap fun range => accessAddrs memoryResolution range.1 range.2

theorem buffers_eq (ranges : List (Nat × Nat)) (rt : Runtime c) :
    (ranges.map fun range => (range.1,toInt range.2)).foldlM (kernelStore cfg) rt =
      (storedAddrs cfg.memoryResolution ranges).foldlM
        (fun rt addr => traceAccess cfg rt .store addr cfg.memoryResolution true) rt := by
  induction ranges generalizing rt with
  | nil => rfl
  | cons range ranges ih =>
    have first : kernelStore cfg rt (range.1,toInt range.2) = (accessAddrs cfg.memoryResolution range.1 range.2).foldlM
        (fun rt addr => traceAccess cfg rt .store addr cfg.memoryResolution true) rt := by
      simp only [kernelStore,accessAddrs]
    rw [List.map_cons,List.foldlM_cons,first,storedAddrs,List.flatMap_cons,List.foldlM_append]
    exact bind_congr ih

theorem buffers_ok (drms : cfg.inputMetric = .drms) (records : Records cfg rt tdata) (ranges : List (Nat × Nat)) :
    (ranges.map fun range => (range.1,toInt range.2)).foldlM (kernelStore cfg) rt = .ok after ↔
      (∀ a ∈ storedAddrs cfg.memoryResolution ranges, a < cfg.layout.limit) ∧
        after = rt.marked ((storedAddrs cfg.memoryResolution ranges).map (· / cfg.memoryResolution)) := by
  rw [buffers_eq]
  apply kernel_stores drms _ records
  intro a member
  obtain ⟨range,-,inside⟩ := List.mem_flatMap.mp member
  exact access_aligned cfg.supported inside

end

section
variable {layout : Layout}

theorem toSize_small (layout : Layout) {n : Nat} (small : n < 2 ^ 31) : layout.toSize n = n := by
  cases layout
  · simp only [Layout.toSize,Layout.sizeofLong]
    omega
  · simp only [Layout.toSize,Layout.sizeofLong]
    omega

theorem iovBuffers_eq (layout : Layout) (iov : List (Nat × Nat)) {n : Nat} (small : n < 2 ^ 31) :
    iovBuffers layout iov n = (spread iov n).map fun range => (range.1,toInt range.2) := by
  induction iov generalizing n with
  | nil => rfl
  | cons entry iov ih =>
    obtain ⟨base,len⟩ := entry
    unfold iovBuffers spread
    by_cases done : n = 0
    · simp [done]
    · have remaining : ¬ (n : Int) = 0 := by omega
      have taken : (if len ≤ layout.toSize n then toInt len else (n : Int)) = toInt (min len n : Nat) := by
        rw [toSize_small layout small]
        split
        · next shorter => rw [Nat.min_eq_left shorter]
        · next longer =>
          rw [Nat.min_eq_right (by omega)]
          exact (toInt_small (by omega) (by omega)).symm
      have length : toInt (min len n : Nat) = (min len n : Nat) := toInt_small (by omega) (by omega)
      have rest : toInt (n - (min len n : Nat)) = (n - len : Nat) := by
        rw [toInt_small (by omega) (by omega)]
        omega
      simp only [remaining,done,if_false,List.map_cons,taken]
      rw [length,rest,ih (by omega)]

theorem storedBuffers_eq {call : Syscall} (real : call.Real layout) :
    storedBuffers layout call = (call.written layout).map fun range => (range.1,toInt range.2) := by
  have vector : ∀ iov n, (call = .readv iov n ∨ call = .preadv iov n) →
      iovBuffers layout iov (toInt n) = (spread iov n).map fun range => (range.1,toInt range.2) := by
    intro iov n shape
    have bound := real.transfer iov n shape
    unfold maxTransfer at bound
    rw [toInt_small (by omega) (by omega)]
    exact iovBuffers_eq layout iov (by omega)
  cases call with
  | readv iov n => exact vector iov n (Or.inl rfl)
  | preadv iov n => exact vector iov n (Or.inr rfl)
  | msgrcv msgp n =>
    have sum : toInt (toInt n + layout.sizeofLong) = toInt (layout.sizeofLong + n : Nat) := by
      rw [toInt_add]
      congr 1
      omega
    exact congrArg (fun size => [(msgp,size)]) sum
  | _ => rfl

theorem spread_le {iov : List (Nat × Nat)} {n : Nat} {range : Nat × Nat} (member : range ∈ spread iov n) :
    range.2 ≤ n := by
  induction iov generalizing n with
  | nil => cases member
  | cons entry iov ih =>
    obtain ⟨base,len⟩ := entry
    unfold spread at member
    split at member
    · cases member
    · rcases List.mem_cons.mp member with rfl | later
      · exact Nat.min_le_right len n
      · have := ih later
        omega

end

/-- After the counter has moved once the call marks the granules of the bytes it wrote, and changes
nothing else. -/
def MarksWritten {c : Counter} (cfg : Config) (rt counted : Runtime c) (tid : Nat) (call : Syscall) : Prop :=
  ∃ global, call.post cfg rt tid = .ok {counted with globalShadow := global} ∧
    ∀ g, (Holds cfg.memoryResolution (call.written cfg.layout) g →
        global.value g = setSyscall c (plainWord c counted.globalCounter)) ∧
      (¬ Holds cfg.memoryResolution (call.written cfg.layout) g → global.value g = counted.globalShadow.value g)

/-- Every length fits the type `Int` when it is widened, and a buffer without bytes is aligned or
starts in a granule that is written anyway. -/
def Syscall.Plain (memoryResolution : Nat) (layout : Layout) (call : Syscall) : Prop :=
  ∀ range ∈ call.written layout, range.2 + range.1 % memoryResolution < 2 ^ 31 ∧
    (range.2 = 0 → range.1 % memoryResolution ≠ 0 → Holds memoryResolution (call.written layout) (range.1 / memoryResolution))

theorem mem_storedAddrs {r : Nat} (supported : r ∈ [1,2,4,8,16]) {ranges : List (Nat × Nat)}
    (fits : ∀ range ∈ ranges, range.2 + range.1 % r < 2 ^ 31) (g : Nat) :
    g ∈ (storedAddrs r ranges).map (· / r) ↔
      Holds r ranges g ∨ ∃ range ∈ ranges, range.2 = 0 ∧ range.1 % r ≠ 0 ∧ g = range.1 / r := by
  rw [storedAddrs,List.map_flatMap,List.mem_flatMap,holds_iff]
  constructor
  · rintro ⟨range,member,inside⟩
    rcases (mem_buffer supported (fits range member) g).mp inside with held | empty
    · exact Or.inl ⟨range,member,held⟩
    · exact Or.inr ⟨range,member,empty⟩
  · rintro (⟨range,member,held⟩ | ⟨range,member,empty⟩)
    · exact ⟨range,member,(mem_buffer supported (fits range member) g).mpr (Or.inl held)⟩
    · exact ⟨range,member,(mem_buffer supported (fits range member) g).mpr (Or.inr empty)⟩

theorem Syscall.Real.ranges {layout : Layout} {call : Syscall} (real : call.Real layout) {r : Nat} (range : 0 < r ∧ r ≤ 16) :
    (∃ start length, call.written layout = [(start,length)]) ∨
      ∀ range ∈ call.written layout, range.2 + range.1 % r < 2 ^ 31 := by
  have vector : ∀ iov n, (call = .readv iov n ∨ call = .preadv iov n) → ∀ range ∈ spread iov n,
      range.2 + range.1 % r < 2 ^ 31 := by
    intro iov n shape entry member
    have bound := real.transfer iov n shape
    have inside := spread_le member
    have low := Nat.mod_lt entry.1 range.1
    unfold maxTransfer at bound
    omega
  cases call with
  | readv iov n => exact Or.inr (vector iov n (Or.inl rfl))
  | preadv iov n => exact Or.inr (vector iov n (Or.inr rfl))
  | read buf n => exact Or.inl ⟨buf,n,rfl⟩
  | recvfrom buf n => exact Or.inl ⟨buf,n,rfl⟩
  | pread64 buf n => exact Or.inl ⟨buf,n,rfl⟩
  | msgrcv msgp n => exact Or.inl ⟨msgp,layout.sizeofLong + n,rfl⟩
  | mmap addr length => exact Or.inl ⟨addr,length,rfl⟩

theorem plain_iff {layout : Layout} {call : Syscall} {r : Nat} (supported : r ∈ [1,2,4,8,16]) (real : call.Real layout) :
    (∀ g, g ∈ (storedAddrs r (call.written layout)).map (· / r) ↔ Holds r (call.written layout) g) ↔
      call.Plain r layout := by
  constructor
  · intro exact'
    have fits : ∀ range ∈ call.written layout, range.2 + range.1 % r < 2 ^ 31 := by
      rcases real.ranges (supported_range supported) with ⟨start,length,single⟩ | fits
      · rw [single] at exact' ⊢
        intro range member
        obtain rfl := List.mem_singleton.mp member
        by_contra huge
        obtain ⟨held,missed⟩ := last_unmarked supported (Nat.le_of_not_lt huge)
        refine missed ?_
        have marked := (exact' _).mpr held
        rwa [storedAddrs,List.flatMap_singleton] at marked
      · exact fits
    intro range member
    refine ⟨fits range member,?_⟩
    intro empty off
    exact (exact' _).mp ((mem_storedAddrs supported fits _).mpr (Or.inr ⟨range,member,empty,off,rfl⟩))
  · intro plain g
    rw [mem_storedAddrs supported (fun range member => (plain range member).1) g]
    constructor
    · rintro (held | ⟨range,member,empty,off,rfl⟩)
      · exact held
      · exact (plain range member).2 empty off
    · exact Or.inl

theorem postSyscall_counts {c : Counter} {cfg : Config} {rt : Runtime c} (drms : cfg.inputMetric = .drms) {tid : Nat}
    {tdata : ThreadData} (found : rt.threads tid = some tdata) (valid : tid ≠ 0) (buffers : List (Nat × Int)) :
    postSyscall cfg rt tid buffers =
      increaseGlobalCounter cfg {rt with currentTid := tid} >>= fun counted => buffers.foldlM (kernelStore cfg) counted := by
  unfold postSyscall
  rw [if_pos drms]
  by_cases stays : tid = rt.currentTid
  · subst stays
    rw [if_neg (not_not.mpr rfl)]
  · rw [if_pos stays]
    unfold threadSwitch
    rw [if_neg stays,if_neg valid,if_pos drms]
    cases counted : increaseGlobalCounter cfg {rt with currentTid := tid} with
    | error fault => rfl
    | ok middle =>
      have kept := (increaseGlobalCounter_erase counted).2.2.2 tid
      dsimp only at kept
      rw [found] at kept
      obtain ⟨tdata',found',-⟩ := Option.map_eq_some_iff.mp kept
      simp only [ok_bind,found']

/-- Where the counter has moved, the thread still records and no cell carries the new timestamp yet. -/
theorem increase_unmarked {c : Counter} {cfg : Config} {rt counted : Runtime c} (stamps : rt.Stamps cfg) {tid : Nat}
    {tdata : ThreadData} (found : rt.threads tid = some tdata) (nonempty : 0 < tdata.stackDepth) (recording : tdata.skip = 0)
    (advanced : increaseGlobalCounter cfg {rt with currentTid := tid} = .ok counted) (fits : c.Fits counted.globalCounter) :
    (∃ tdata', Records cfg counted tdata') ∧ ∀ g, counted.globalShadow.value g ≠ kernelMark counted := by
  obtain ⟨n,lt,fresh⟩ := @Stamped.increase c cfg {rt with currentTid := tid} counted stamps.stamped advanced
  constructor
  · obtain ⟨current,-,-,threads⟩ := increaseGlobalCounter_erase advanced
    have kept := threads tid
    dsimp only at current kept
    rw [found] at kept
    obtain ⟨tdata',found',same⟩ := Option.map_eq_some_iff.mp kept
    refine ⟨tdata',by rw [current]; exact found',⟨?_,?_⟩,fresh.limit,fresh.scale⟩
    · exact lt_of_lt_of_eq nonempty (congrArg ThreadData.stackDepth same).symm
    · exact (congrArg ThreadData.skip same).trans recording
  · intro g equal
    have below := fresh.below g
    rw [equal,kernelMark,tsOf_setSyscall fits] at below
    omega

theorem post_ok_iff {c : Counter} {cfg : Config} (drms : cfg.inputMetric = .drms) {rt counted : Runtime c} {tid : Nat}
    {tdata tdata' : ThreadData} (found : rt.threads tid = some tdata) (valid : tid ≠ 0)
    (advanced : increaseGlobalCounter cfg {rt with currentTid := tid} = .ok counted) (records : Records cfg counted tdata')
    {call : Syscall} (real : call.Real cfg.layout) (after : Runtime c) :
    call.post cfg rt tid = .ok after ↔
      (∀ a ∈ storedAddrs cfg.memoryResolution (call.written cfg.layout), a < cfg.layout.limit) ∧
        after = counted.marked ((storedAddrs cfg.memoryResolution (call.written cfg.layout)).map (· / cfg.memoryResolution)) := by
  rw [← buffers_ok drms records,← storedBuffers_eq real]
  unfold Syscall.post
  rw [if_pos real.offered,postSyscall_counts drms found valid,advanced,ok_bind]

theorem stored_below {r : Nat} (supported : r ∈ [1,2,4,8,16]) {layout : Layout} {call : Syscall} (real : call.Real layout)
    (visits : ∀ g, g ∈ (storedAddrs r (call.written layout)).map (· / r) ↔ Holds r (call.written layout) g) :
    ∀ a ∈ storedAddrs r (call.written layout), a < layout.limit := by
  intro a member
  obtain ⟨range,inside,byte,low,high,granule⟩ := (visits _).mp (List.mem_map.mpr ⟨a,member,rfl⟩)
  obtain ⟨range',-,inside'⟩ := List.mem_flatMap.mp member
  have aligned := Nat.div_mul_cancel (access_aligned supported inside')
  have covered := real.covered range inside (by omega)
  have below := Nat.div_mul_le_self byte r
  rw [granule,aligned] at below
  omega

theorem syscall_marks_iff {c : Counter} {cfg : Config} (drms : cfg.inputMetric = .drms) {first rt counted : Runtime c}
    {past : List Event} (created : initial c cfg = .ok first) (ran : run cfg first past = .ok rt) {tid : Nat} {tdata : ThreadData}
    (found : rt.threads tid = some tdata) (nonempty : 0 < tdata.stackDepth) (recording : tdata.skip = 0)
    (advanced : increaseGlobalCounter cfg {rt with currentTid := tid} = .ok counted) (fits : c.Fits counted.globalCounter)
    {call : Syscall} (real : call.Real cfg.layout) :
    MarksWritten cfg rt counted tid call ↔ call.Plain cfg.memoryResolution cfg.layout := by
  have stamps := (Runtime.Stamps.initial created).run ran
  have valid : tid ≠ 0 := by
    rintro rfl
    rw [stamps.invalid] at found
    cases found
  obtain ⟨⟨tdata',records⟩,unmarked⟩ := increase_unmarked stamps found nonempty recording advanced fits
  have post := post_ok_iff drms found valid advanced records real
  rw [← plain_iff cfg.supported real]
  constructor
  · rintro ⟨global,ok,marks⟩ g
    obtain ⟨-,shadow⟩ := (post _).mp ok
    have value := congrArg (fun rt : Runtime c => rt.globalShadow.value g) shadow
    simp only [Runtime.marked,value_markAll] at value
    constructor
    · intro inside
      by_contra outside
      rw [if_pos inside,(marks g).2 outside] at value
      exact unmarked g value
    · intro held
      by_contra missed
      rw [if_neg missed,(marks g).1 held] at value
      exact unmarked g value.symm
  · intro visits
    refine ⟨_,(post _).mpr ⟨stored_below cfg.supported real visits,rfl⟩,?_⟩
    intro g
    rw [value_markAll,← visits g]
    constructor
    · intro inside
      exact if_pos inside
    · intro outside
      exact if_neg outside

def wordConfig : Config := {smallConfig .drms with memoryResolution := 4, supported := by decide}

theorem real_read {n : Nat} (small : n ≤ 4096) : (Syscall.read 4097 n).Real .i386 := by
  refine ⟨rfl,?_,?_⟩
  · intro range member _
    obtain rfl := List.mem_singleton.mp member
    dsimp only [Layout.limit]
    omega
  · rintro iov m (shape | shape)
    · cases shape
    · cases shape

/-- A read of three bytes into the middle of a granule. -/
theorem syscall_marks_short_read : ∃ (first rt counted : Runtime .wrapping) (tdata : ThreadData),
    initial .wrapping wordConfig = .ok first ∧ run wordConfig first [.threadSwitch 1,.functionEnter 100 0] = .ok rt ∧
    rt.threads 1 = some tdata ∧ increaseGlobalCounter wordConfig {rt with currentTid := 1} = .ok counted ∧
    MarksWritten wordConfig rt counted 1 (.read 4097 3) := by
  have plain : (Syscall.read 4097 3).Plain 4 .i386 := by
    intro range member
    obtain rfl := List.mem_singleton.mp member
    exact ⟨by norm_num,nofun⟩
  refine ⟨_,_,_,_,rfl,rfl,rfl,rfl,?_⟩
  exact (@syscall_marks_iff .wrapping wordConfig rfl _ _ _ [.threadSwitch 1,.functionEnter 100 0] rfl rfl 1 _ rfl (by decide)
    rfl rfl (fun _ => by change 4 < 2 ^ 31; norm_num) (.read 4097 3) (real_read (by norm_num))).mpr plain

/-- A read that returns 0, into the middle of a granule. -/
theorem empty_read_marks : ∃ (first rt counted : Runtime .wrapping) (tdata : ThreadData),
    initial .wrapping wordConfig = .ok first ∧ run wordConfig first [.threadSwitch 1,.functionEnter 100 0] = .ok rt ∧
    rt.threads 1 = some tdata ∧ 0 < tdata.stackDepth ∧ tdata.skip = 0 ∧
    increaseGlobalCounter wordConfig {rt with currentTid := 1} = .ok counted ∧ (Syscall.read 4097 0).Real .i386 ∧
    ¬ MarksWritten wordConfig rt counted 1 (.read 4097 0) := by
  refine ⟨_,_,_,_,rfl,rfl,rfl,by decide,rfl,rfl,real_read (Nat.zero_le _),?_⟩
  rintro ⟨global,ok,marks⟩
  have unheld : ¬ Holds 4 [(4097,0)] 1024 := by
    rintro ⟨range,member,byte,low,high,-⟩
    obtain rfl := List.mem_singleton.mp member
    dsimp only at low high
    omega
  have same := (marks 1024).2 unheld
  have done := Except.ok.inj (ok.symm.trans (rfl : _ = Except.ok _))
  have value := congrArg (fun rt : Runtime .wrapping => rt.globalShadow.value 1024) done
  have marked : (0 : Nat) = 0x80000004 := same.symm.trans value
  exact absurd marked (by decide)

end Aprof
