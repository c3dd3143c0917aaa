import Mathlib.Algebra.Group.Int.Defs
import Mathlib.Algebra.Group.Nat.Defs
import Mathlib.Data.List.Basic
import Mathlib.Data.List.Nodup
import Mathlib.Data.List.Infix

/-! The buffered output of `fwrite.c`: `fflush`, `fwrite` and `fclose` over the
answers that `VG_(write)` gets from the kernel. The code never looks at the bytes,
so their type is a parameter, and bytes may carry their offset in the output. -/
namespace Aprof

def bufferSize : Nat := 32000

theorem bufferSize_pos : 0 < bufferSize := by decide

/-- How the kernel answers the calls of `VG_(write)`, in order: with a number of
bytes between 1 and the number requested, or with a negative error. -/
structure Kernel where
  answer : Nat → Nat → Int
  valid : ∀ call count, 0 < count → (-2 ^ 31 ≤ answer call count ∧ answer call count < 0) ∨
    (1 ≤ answer call count ∧ answer call count ≤ count)

/-- What a descriptor has received, after a number of calls. -/
structure Descriptor (α : Type) where
  received : List α
  calls : Nat

/-- `fwBuffer` holds the first `fw_pos` bytes of the buffer. -/
structure OutFile (α : Type) where
  descriptor : Descriptor α
  fwBuffer : List α
  fits : fwBuffer.length < bufferSize

section
variable {α : Type} (kernel : Kernel)

/-- `VG_(write)` and what it returns. -/
def vgWrite (descriptor : Descriptor α) (bytes : List α) : Int × Descriptor α :=
  let ret := kernel.answer descriptor.calls bytes.length
  (ret,⟨descriptor.received ++ bytes.take ret.toNat,descriptor.calls + 1⟩)

/-- The loop of `fflush`. `bf` is unsigned, so the assertion `bf >= 0` never fires. -/
def flushLoop : Nat → List α → Nat → Descriptor α → Option (Descriptor α)
  | 0, _, _, _ => none
  | fuel + 1, buffer, bw, descriptor =>
    let (ret,descriptor) := vgWrite kernel descriptor (buffer.drop bw)
    let bf := (ret % 2 ^ 32).toNat
    let bw := (bw + bf) % 2 ^ 32
    if bw < buffer.length then flushLoop fuel buffer bw descriptor else some descriptor

def flush (fuel : Nat) (descriptor : Descriptor α) (buffer : List α) : Option (Descriptor α) :=
  if buffer = [] then some descriptor else flushLoop kernel fuel buffer 0 descriptor

def fflush (fuel : Nat) (file : OutFile α) : Option (OutFile α) := do
  let descriptor ← flush kernel fuel file.descriptor file.fwBuffer
  some ⟨descriptor,[],bufferSize_pos⟩

def fwrite (fuel : Nat) (file : OutFile α) (buf : List α) : Option (OutFile α) :=
  if inside : buf.length < bufferSize - file.fwBuffer.length then
    some ⟨file.descriptor,file.fwBuffer ++ buf,by rw [List.length_append]; omega⟩
  else do
    -- a piece of the input fills the buffer
    let piece := bufferSize - file.fwBuffer.length
    let descriptor ← flush kernel fuel file.descriptor (file.fwBuffer ++ buf.take piece)
    fwrite fuel ⟨descriptor,[],bufferSize_pos⟩ (buf.drop piece)
termination_by buf.length
decreasing_by
  have fits := file.fits
  simp only [List.length_drop]
  omega

def fopen : OutFile α := ⟨⟨[],0⟩,[],bufferSize_pos⟩

/-- A file that is opened, written to and closed. -/
def session (fuel : Nat) (buffers : List (List α)) : Option (Descriptor α) := do
  let file ← buffers.foldlM (fwrite kernel fuel) fopen
  let file ← fflush kernel fuel file
  some file.descriptor

end

section
variable {α : Type}

def fullBlocks (stream : List α) : List (List α) :=
  if stream.length < bufferSize then [] else stream.take bufferSize :: fullBlocks (stream.drop bufferSize)
termination_by stream.length
decreasing_by
  have positive := bufferSize_pos
  simp only [List.length_drop]
  omega

/-- What is left of a stream after its full blocks. -/
def leftOver (stream : List α) : List α := stream.drop (bufferSize * (stream.length / bufferSize))

/-- The blocks that reach `VG_(write)`. -/
def blocks (stream : List α) : List (List α) :=
  fullBlocks stream ++ if leftOver stream = [] then [] else [leftOver stream]

theorem fullBlocks_short {stream : List α} (short : stream.length < bufferSize) : fullBlocks stream = [] := by
  rw [fullBlocks,if_pos short]

theorem fullBlocks_long {stream : List α} (long : bufferSize ≤ stream.length) :
    fullBlocks stream = stream.take bufferSize :: fullBlocks (stream.drop bufferSize) := by
  rw [fullBlocks,if_neg (Nat.not_lt.mpr long)]

theorem leftOver_short {stream : List α} (short : stream.length < bufferSize) : leftOver stream = stream := by
  rw [leftOver,Nat.div_eq_of_lt short,Nat.mul_zero,List.drop_zero]

theorem leftOver_long {stream : List α} (long : bufferSize ≤ stream.length) :
    leftOver stream = leftOver (stream.drop bufferSize) := by
  have positive := bufferSize_pos
  have blocks : stream.length / bufferSize = (stream.length - bufferSize) / bufferSize + 1 := by
    rw [Nat.div_eq_sub_div positive long]
  rw [leftOver,leftOver,List.length_drop,List.drop_drop,blocks,Nat.mul_succ,Nat.add_comm]

theorem fullBlocks_append (stream more : List α) : fullBlocks (stream ++ more) =
    fullBlocks stream ++ fullBlocks (leftOver stream ++ more) ∧
      leftOver (stream ++ more) = leftOver (leftOver stream ++ more) := by
  induction stream using fullBlocks.induct with
  | case1 stream short =>
    rw [fullBlocks_short short,leftOver_short short]
    exact ⟨rfl,rfl⟩
  | case2 stream long ih =>
    have long := Nat.not_lt.mp long
    have longer : bufferSize ≤ (stream ++ more).length := by
      rw [List.length_append]
      omega
    rw [fullBlocks_long longer,fullBlocks_long long,leftOver_long long,leftOver_long longer,
      List.take_append_of_le_length long,List.drop_append_of_le_length long,ih.1,ih.2]
    exact ⟨rfl,rfl⟩

theorem fullBlocks_flatten (stream : List α) : (fullBlocks stream).flatten ++ leftOver stream = stream := by
  induction stream using fullBlocks.induct with
  | case1 stream short => rw [fullBlocks_short short,leftOver_short short,List.flatten_nil,List.nil_append]
  | case2 stream long ih =>
    have long := Nat.not_lt.mp long
    rw [fullBlocks_long long,leftOver_long long,List.flatten_cons,List.append_assoc,ih,List.take_append_drop]

theorem blocks_flatten (stream : List α) : (blocks stream).flatten = stream := by
  have whole := fullBlocks_flatten stream
  unfold blocks
  split
  · next empty =>
    rw [empty] at whole
    rw [List.append_nil,← List.append_nil (fullBlocks stream).flatten]
    exact whole
  · rw [List.flatten_append,List.flatten_singleton]
    exact whole

end

section
variable {α : Type} (kernel : Kernel)

theorem fwrite_blocks (fuel : Nat) (file : OutFile α) (buf : List α) :
    (fwrite kernel fuel file buf).map (fun after => (after.descriptor,after.fwBuffer)) =
      ((fullBlocks (file.fwBuffer ++ buf)).foldlM (flush kernel fuel) file.descriptor).map
        fun descriptor => (descriptor,leftOver (file.fwBuffer ++ buf)) := by
  induction file, buf using fwrite.induct with
  | case1 file buf inside =>
    have short : (file.fwBuffer ++ buf).length < bufferSize := by
      rw [List.length_append]
      omega
    rw [fwrite,dif_pos inside,fullBlocks_short short,leftOver_short short]
    rfl
  | case2 file buf outside piece ih =>
    have fits := file.fits
    have long : bufferSize ≤ (file.fwBuffer ++ buf).length := by
      rw [List.length_append]
      omega
    have taken : (file.fwBuffer ++ buf).take bufferSize = file.fwBuffer ++ buf.take piece := by
      rw [List.take_append,List.take_of_length_le (Nat.le_of_lt fits)]
    have dropped : (file.fwBuffer ++ buf).drop bufferSize = buf.drop piece := by
      rw [List.drop_append,List.drop_of_length_le (Nat.le_of_lt fits),List.nil_append]
    rw [fwrite,dif_neg outside,fullBlocks_long long,leftOver_long long,taken,dropped,List.foldlM_cons]
    change Option.map _ ((flush kernel fuel file.descriptor (file.fwBuffer ++ buf.take piece)) >>= _) = _
    cases flush kernel fuel file.descriptor (file.fwBuffer ++ buf.take piece) with
    | none => rfl
    | some descriptor => exact ih descriptor

theorem session_blocks (fuel : Nat) (buffers : List (List α)) :
    session kernel fuel buffers = (blocks buffers.flatten).foldlM (flush kernel fuel) ⟨[],0⟩ := by
  have written : ∀ (buffers : List (List α)) (file : OutFile α),
      (buffers.foldlM (fwrite kernel fuel) file).map (fun after => (after.descriptor,after.fwBuffer)) =
        ((fullBlocks (file.fwBuffer ++ buffers.flatten)).foldlM (flush kernel fuel) file.descriptor).map
          fun descriptor => (descriptor,leftOver (file.fwBuffer ++ buffers.flatten)) := by
    intro buffers
    induction buffers with
    | nil =>
      intro file
      rw [List.flatten_nil,List.append_nil,fullBlocks_short file.fits,leftOver_short file.fits]
      rfl
    | cons buf buffers ih =>
      intro file
      obtain ⟨full,left⟩ := fullBlocks_append (file.fwBuffer ++ buf) buffers.flatten
      have first := fwrite_blocks kernel fuel file buf
      rw [List.foldlM_cons,List.flatten_cons,← List.append_assoc,full,left,List.foldlM_append]
      cases sent : (fullBlocks (file.fwBuffer ++ buf)).foldlM (flush kernel fuel) file.descriptor with
      | none =>
        rw [sent,Option.map_none,Option.map_eq_none_iff] at first
        rw [first]
        rfl
      | some descriptor =>
        rw [sent,Option.map_some] at first
        obtain ⟨after,ok,same⟩ := Option.map_eq_some_iff.mp first
        obtain ⟨rfl,rest⟩ := Prod.mk.inj same
        rw [ok,← rest]
        exact ih after
  have whole := written buffers fopen
  change Option.map _ _ = ((fullBlocks buffers.flatten).foldlM (flush kernel fuel) ⟨[],0⟩).map
    fun descriptor => (descriptor,leftOver buffers.flatten) at whole
  unfold session blocks
  rw [List.foldlM_append]
  cases sent : (fullBlocks buffers.flatten).foldlM (flush kernel fuel) ⟨[],0⟩ with
  | none =>
    rw [sent,Option.map_none,Option.map_eq_none_iff] at whole
    rw [whole]
    rfl
  | some descriptor =>
    rw [sent,Option.map_some] at whole
    obtain ⟨after,ok,same⟩ := Option.map_eq_some_iff.mp whole
    obtain ⟨rfl,rest⟩ := Prod.mk.inj same
    rw [ok,← rest]
    change (fflush kernel fuel after >>= fun file => some file.descriptor) = _
    unfold fflush
    split
    · next empty =>
      rw [empty]
      rfl
    · change _ = (flush kernel fuel after.descriptor after.fwBuffer >>= pure)
      rw [bind_pure]
      cases flush kernel fuel after.descriptor after.fwBuffer <;> rfl

end

section
variable {α β : Type} (kernel : Kernel)

/-- The requests for `left` bytes from one call on, as long as the kernel answers
without an error; `some` of the next call when none of them fails. -/
def deliver : Nat → Nat → Nat → Option Nat
  | _, call, 0 => some call
  | 0, _, _ + 1 => none
  | fuel + 1, call, left + 1 =>
    if kernel.answer call (left + 1) < 0 then none
    else deliver fuel (call + 1) (left + 1 - (kernel.answer call (left + 1)).toNat)

def blockLengths (total : Nat) : List Nat :=
  List.replicate (total / bufferSize) bufferSize ++
    if total % bufferSize = 0 then [] else [total % bufferSize]

/-- No request for the blocks of `total` bytes is answered by an error. -/
def NoErrors (total : Nat) : Prop :=
  ((blockLengths total).foldlM (fun call count => deliver kernel count call count) 0).isSome = true

theorem fullBlocks_lengths (stream : List α) :
    (fullBlocks stream).map List.length = List.replicate (stream.length / bufferSize) bufferSize := by
  induction stream using fullBlocks.induct with
  | case1 stream short => rw [fullBlocks_short short,Nat.div_eq_of_lt short,List.map_nil,List.replicate_zero]
  | case2 stream long ih =>
    have long := Nat.not_lt.mp long
    rw [fullBlocks_long long,List.map_cons,ih,List.length_take_of_le long,List.length_drop,
      Nat.div_eq_sub_div bufferSize_pos long,List.replicate_succ]

theorem blocks_lengths (stream : List α) : (blocks stream).map List.length = blockLengths stream.length := by
  have length : (leftOver stream).length = stream.length % bufferSize := by
    rw [leftOver,List.length_drop,← Nat.mod_eq_sub_mul_div]
  unfold blocks blockLengths
  rw [List.map_append,fullBlocks_lengths,← length]
  by_cases empty : leftOver stream = []
  · rw [if_pos empty,if_pos (List.length_eq_zero_iff.mpr empty),List.map_nil]
  · rw [if_neg empty,if_neg fun none => empty (List.length_eq_zero_iff.mp none),List.map_singleton]

theorem blocks_nonempty (stream : List α) : ∀ block ∈ blocks stream, block ≠ [] := by
  intro block member
  rcases List.mem_append.mp member with full | last
  · have length : block.length ∈ (fullBlocks stream).map List.length := List.mem_map_of_mem full
    rw [fullBlocks_lengths] at length
    have size := List.eq_of_mem_replicate length
    have positive := bufferSize_pos
    rintro rfl
    rw [List.length_nil] at size
    omega
  · split at last
    · cases last
    · next rest =>
      rw [List.mem_singleton.mp last]
      exact rest

theorem blocks_small (stream : List α) : ∀ block ∈ blocks stream, block.length ≤ bufferSize := by
  intro block member
  have length : block.length ∈ (blocks stream).map List.length := List.mem_map_of_mem member
  rw [blocks_lengths] at length
  rcases List.mem_append.mp length with full | last
  · exact Nat.le_of_eq (List.eq_of_mem_replicate full)
  · split at last
    · cases last
    · rw [List.mem_singleton.mp last]
      exact Nat.le_of_lt (Nat.mod_lt _ bufferSize_pos)

theorem flushLoop_succ (fuel : Nat) {bw : Nat} {buffer : List α} (descriptor : Descriptor α) (inside : bw < buffer.length)
    (small : buffer.length ≤ bufferSize) : flushLoop kernel (fuel + 1) buffer bw descriptor =
      if kernel.answer descriptor.calls (buffer.length - bw) < 0 then
        if (-kernel.answer descriptor.calls (buffer.length - bw)).toNat ≤ bw then
          flushLoop kernel fuel buffer (bw - (-kernel.answer descriptor.calls (buffer.length - bw)).toNat)
            ⟨descriptor.received,descriptor.calls + 1⟩
        else some ⟨descriptor.received,descriptor.calls + 1⟩
      else
        let sent := (kernel.answer descriptor.calls (buffer.length - bw)).toNat
        let after : Descriptor α := ⟨descriptor.received ++ (buffer.drop bw).take sent,descriptor.calls + 1⟩
        if bw + sent < buffer.length then flushLoop kernel fuel buffer (bw + sent) after else some after := by
  have size : bufferSize = 32000 := rfl
  have valid := kernel.valid descriptor.calls (buffer.length - bw) (by omega)
  rw [flushLoop,vgWrite,List.length_drop]
  generalize kernel.answer descriptor.calls (buffer.length - bw) = ret at valid
  dsimp only
  by_cases error : ret < 0
  · have back : (ret % 2 ^ 32).toNat = 2 ^ 32 - (-ret).toNat := by omega
    have none : ret.toNat = 0 := by omega
    rw [if_pos error,back,none,List.take_zero,List.append_nil]
    by_cases returns : (-ret).toNat ≤ bw
    · have next : (bw + (2 ^ 32 - (-ret).toNat)) % 2 ^ 32 = bw - (-ret).toNat := by omega
      rw [if_pos returns,next,if_pos (by omega)]
    · rw [if_neg returns,if_neg (by omega)]
  · have forth : (ret % 2 ^ 32).toNat = ret.toNat := by omega
    have next : (bw + ret.toNat) % 2 ^ 32 = bw + ret.toNat := by omega
    rw [if_neg error,forth,next]

/-- What is sent while a flush goes on comes from the buffer, and begins no later
than at the offset reached. -/
theorem flushLoop_sends {fuel bw : Nat} {buffer : List α} {descriptor after : Descriptor α} (inside : bw < buffer.length)
    (small : buffer.length ≤ bufferSize) (ok : flushLoop kernel fuel buffer bw descriptor = some after) :
    ∃ sent, after.received = descriptor.received ++ sent ∧ (∀ byte ∈ sent, byte ∈ buffer) ∧
      (sent = [] ∨ ∃ b, b ≤ bw ∧ sent.head? = buffer[b]?) := by
  induction fuel generalizing bw descriptor with
  | zero => cases ok
  | succ fuel ih =>
    rw [flushLoop_succ kernel fuel descriptor inside small] at ok
    have valid := kernel.valid descriptor.calls (buffer.length - bw) (by omega)
    generalize kernel.answer descriptor.calls (buffer.length - bw) = ret at ok valid
    by_cases error : ret < 0
    · rw [if_pos error] at ok
      by_cases returns : (-ret).toNat ≤ bw
      · rw [if_pos returns] at ok
        obtain ⟨sent,received,member,first⟩ := ih (Nat.lt_of_le_of_lt (Nat.sub_le _ _) inside) ok
        refine ⟨sent,received,member,first.imp id ?_⟩
        rintro ⟨b,below,head⟩
        exact ⟨b,Nat.le_trans below (Nat.sub_le _ _),head⟩
      · rw [if_neg returns] at ok
        cases ok
        exact ⟨[],(List.append_nil _).symm,nofun,.inl rfl⟩
    · rw [if_neg error] at ok
      dsimp only at ok
      have head : ∀ rest : List α, ((buffer.drop bw).take ret.toNat ++ rest).head? = buffer[bw]? := by
        intro rest
        obtain ⟨n,count⟩ : ∃ n, ret.toNat = n + 1 := ⟨ret.toNat - 1,by omega⟩
        rw [count,List.drop_eq_getElem_cons inside,List.take_succ_cons,List.cons_append,List.head?_cons,
          List.getElem?_eq_getElem inside]
      have piece : ∀ byte ∈ (buffer.drop bw).take ret.toNat, byte ∈ buffer := fun byte member =>
        List.mem_of_mem_drop (List.mem_of_mem_take member)
      by_cases more : bw + ret.toNat < buffer.length
      · rw [if_pos more] at ok
        obtain ⟨sent,received,member,-⟩ := ih more ok
        refine ⟨(buffer.drop bw).take ret.toNat ++ sent,?_,?_,.inr ⟨bw,Nat.le_refl bw,head sent⟩⟩
        · rw [received,List.append_assoc]
        · intro byte present
          exact (List.mem_append.mp present).elim (piece byte) (member byte)
      · rw [if_neg more] at ok
        cases ok
        refine ⟨(buffer.drop bw).take ret.toNat,rfl,piece,.inr ⟨bw,Nat.le_refl bw,?_⟩⟩
        rw [← List.append_nil ((buffer.drop bw).take ret.toNat)]
        exact head []

theorem flushLoop_delivers {gas fuel left call bw : Nat} {buffer : List α} {descriptor : Descriptor α}
    (rest : bw + left = buffer.length) (positive : 0 < left) (small : buffer.length ≤ bufferSize) (enough : left ≤ fuel)
    (delivered : deliver kernel gas descriptor.calls left = some call) :
    flushLoop kernel fuel buffer bw descriptor = some ⟨descriptor.received ++ buffer.drop bw,call⟩ := by
  induction gas generalizing fuel left bw descriptor with
  | zero =>
    cases left with
    | zero => exact absurd positive (Nat.lt_irrefl 0)
    | succ left => cases delivered
  | succ gas ih =>
    obtain ⟨left,rfl⟩ : ∃ n, left = n + 1 := ⟨left - 1,by omega⟩
    obtain ⟨fuel,rfl⟩ : ∃ n, fuel = n + 1 := ⟨fuel - 1,by omega⟩
    have count : buffer.length - bw = left + 1 := by omega
    have valid := kernel.valid descriptor.calls (left + 1) (Nat.succ_pos _)
    rw [flushLoop_succ kernel fuel descriptor (by omega) small,count]
    unfold deliver at delivered
    generalize kernel.answer descriptor.calls (left + 1) = ret at delivered valid
    by_cases error : ret < 0
    · rw [if_pos error] at delivered
      cases delivered
    · rw [if_neg error] at delivered ⊢
      dsimp only
      by_cases more : bw + ret.toNat < buffer.length
      · have rest : bw + ret.toNat + (left + 1 - ret.toNat) = buffer.length := by omega
        rw [if_pos more,ih rest (by omega) (by omega) delivered]
        dsimp only
        rw [List.append_assoc,← List.drop_drop,List.take_append_drop]
      · have done : left + 1 - ret.toNat = 0 := by omega
        have whole : (buffer.drop bw).take ret.toNat = buffer.drop bw := by
          rw [List.take_of_length_le]
          rw [List.length_drop]
          omega
        rw [done,deliver] at delivered
        cases delivered
        rw [if_neg more,whole]

theorem flushLoop_fails {gas fuel left bw : Nat} {buffer : List α} {descriptor after : Descriptor α}
    (rest : bw + left = buffer.length) (small : buffer.length ≤ bufferSize) (enough : left ≤ gas)
    (distinct : buffer.Nodup) (failed : deliver kernel gas descriptor.calls left = none)
    (ok : flushLoop kernel fuel buffer bw descriptor = some after) :
    after.received ≠ descriptor.received ++ buffer.drop bw := by
  induction gas generalizing fuel left bw descriptor with
  | zero =>
    obtain rfl : left = 0 := by omega
    cases failed
  | succ gas ih =>
    cases left with
    | zero => cases failed
    | succ left =>
      cases fuel with
      | zero => cases ok
      | succ fuel =>
        have inside : bw < buffer.length := by omega
        have count : buffer.length - bw = left + 1 := by omega
        have valid := kernel.valid descriptor.calls (left + 1) (Nat.succ_pos _)
        rw [flushLoop_succ kernel fuel descriptor inside small,count] at ok
        unfold deliver at failed
        generalize kernel.answer descriptor.calls (left + 1) = ret at ok failed valid
        by_cases error : ret < 0
        · -- the bytes that follow begin before the offset reached, or there are none
          rw [if_pos error] at ok
          have first : ∃ sent, after.received = descriptor.received ++ sent ∧
              (sent = [] ∨ ∃ b, b < bw ∧ sent.head? = buffer[b]?) := by
            by_cases returns : (-ret).toNat ≤ bw
            · rw [if_pos returns] at ok
              obtain ⟨sent,received,-,first⟩ := flushLoop_sends kernel (by omega) small ok
              refine ⟨sent,received,first.imp id ?_⟩
              rintro ⟨b,below,head⟩
              exact ⟨b,by omega,head⟩
            · rw [if_neg returns] at ok
              cases ok
              exact ⟨[],(List.append_nil _).symm,.inl rfl⟩
          obtain ⟨sent,received,first⟩ := first
          intro same
          rw [received] at same
          have equal := List.append_cancel_left same
          rw [equal,List.drop_eq_getElem_cons inside] at first
          rcases first with none | ⟨b,below,head⟩
          · cases none
          · rw [List.head?_cons,List.getElem?_eq_getElem (Nat.lt_trans below inside)] at head
            have same := (distinct.getElem_inj_iff).mp (Option.some.inj head)
            omega
        · rw [if_neg error] at ok failed
          dsimp only at ok
          by_cases more : bw + ret.toNat < buffer.length
          · rw [if_pos more] at ok
            have rest : bw + ret.toNat + (left + 1 - ret.toNat) = buffer.length := by omega
            have missing := ih rest (by omega) failed ok
            dsimp only at missing
            rw [List.append_assoc,← List.drop_drop,List.take_append_drop] at missing
            exact missing
          · have done : left + 1 - ret.toNat = 0 := by omega
            rw [done,deliver] at failed
            cases failed

theorem flush_block {block : List α} (nonempty : block ≠ []) (fuel : Nat) (descriptor : Descriptor α) :
    flush kernel fuel descriptor block = flushLoop kernel fuel block 0 descriptor := if_neg nonempty

theorem blocks_deliver (chunks : List (List α)) (nonempty : ∀ chunk ∈ chunks, chunk ≠ [])
    (small : ∀ chunk ∈ chunks, chunk.length ≤ bufferSize) {descriptor : Descriptor α} {call : Nat}
    (delivered : (chunks.map List.length).foldlM (fun call count => deliver kernel count call count) descriptor.calls =
      some call) :
    chunks.foldlM (flush kernel bufferSize) descriptor = some ⟨descriptor.received ++ chunks.flatten,call⟩ := by
  induction chunks generalizing descriptor with
  | nil =>
    cases delivered
    rw [List.flatten_nil,List.append_nil]
    rfl
  | cons chunk chunks ih =>
    rw [List.map_cons,List.foldlM_cons] at delivered
    obtain ⟨next,first,delivered⟩ := Option.bind_eq_some_iff.mp delivered
    have fits := small chunk List.mem_cons_self
    have positive := List.length_pos_iff.mpr (nonempty chunk List.mem_cons_self)
    rw [List.foldlM_cons,flush_block kernel (nonempty chunk List.mem_cons_self),
      flushLoop_delivers kernel (Nat.zero_add _) positive fits fits first,List.drop_zero]
    have rest : chunks.foldlM (flush kernel bufferSize) ⟨descriptor.received ++ chunk,next⟩ =
        some ⟨(descriptor.received ++ chunk) ++ chunks.flatten,call⟩ :=
      ih (fun chunk member => nonempty chunk (List.mem_cons_of_mem _ member))
        (fun chunk member => small chunk (List.mem_cons_of_mem _ member)) delivered
    rw [List.flatten_cons,← List.append_assoc]
    exact rest

theorem blocks_send (chunks : List (List α)) (nonempty : ∀ chunk ∈ chunks, chunk ≠ [])
    (small : ∀ chunk ∈ chunks, chunk.length ≤ bufferSize) {fuel : Nat} {descriptor after : Descriptor α}
    (ok : chunks.foldlM (flush kernel fuel) descriptor = some after) :
    ∃ sent, after.received = descriptor.received ++ sent ∧ ∀ byte ∈ sent, byte ∈ chunks.flatten := by
  induction chunks generalizing descriptor with
  | nil =>
    cases ok
    exact ⟨[],(List.append_nil _).symm,nofun⟩
  | cons chunk chunks ih =>
    rw [List.foldlM_cons,flush_block kernel (nonempty chunk List.mem_cons_self)] at ok
    obtain ⟨middle,first,ok⟩ := Option.bind_eq_some_iff.mp ok
    have positive := List.length_pos_iff.mpr (nonempty chunk List.mem_cons_self)
    obtain ⟨sent,received,own,-⟩ := flushLoop_sends kernel positive (small chunk List.mem_cons_self) first
    obtain ⟨later,received',others⟩ := ih (fun chunk member => nonempty chunk (List.mem_cons_of_mem _ member))
      (fun chunk member => small chunk (List.mem_cons_of_mem _ member)) ok
    refine ⟨sent ++ later,by rw [received',received,List.append_assoc],fun byte present => ?_⟩
    rw [List.flatten_cons,List.mem_append]
    exact (List.mem_append.mp present).imp (own byte) (others byte)

theorem flushLoop_mono {fuel bw : Nat} {buffer : List α} {descriptor after : Descriptor α}
    (ok : flushLoop kernel fuel buffer bw descriptor = some after) (more : Nat) :
    flushLoop kernel (fuel + more) buffer bw descriptor = some after := by
  induction fuel generalizing bw descriptor with
  | zero => cases ok
  | succ fuel ih =>
    rw [Nat.succ_add]
    unfold flushLoop at ok ⊢
    dsimp only at ok ⊢
    split at ok
    · next next => rw [if_pos next,ih ok]
    · next last =>
      rw [if_neg last]
      exact ok

theorem blocks_fail (chunks : List (List α)) (nonempty : ∀ chunk ∈ chunks, chunk ≠ [])
    (small : ∀ chunk ∈ chunks, chunk.length ≤ bufferSize) (distinct : chunks.flatten.Nodup) {fuel : Nat}
    {descriptor after : Descriptor α} (ok : chunks.foldlM (flush kernel fuel) descriptor = some after)
    (failed : (chunks.map List.length).foldlM (fun call count => deliver kernel count call count) descriptor.calls = none) :
    after.received ≠ descriptor.received ++ chunks.flatten := by
  induction chunks generalizing descriptor with
  | nil => cases failed
  | cons chunk chunks ih =>
    have fits := small chunk List.mem_cons_self
    have nonempty' := fun chunk member => nonempty chunk (List.mem_cons_of_mem _ member)
    have small' := fun chunk member => small chunk (List.mem_cons_of_mem _ member)
    have positive := List.length_pos_iff.mpr (nonempty chunk List.mem_cons_self)
    rw [List.flatten_cons] at distinct ⊢
    obtain ⟨distinct,distinct',apart⟩ := List.nodup_append.mp distinct
    rw [List.foldlM_cons,flush_block kernel (nonempty chunk List.mem_cons_self)] at ok
    obtain ⟨middle,first,ok⟩ := Option.bind_eq_some_iff.mp ok
    obtain ⟨sent,received,own,-⟩ := flushLoop_sends kernel positive fits first
    obtain ⟨later,received',others⟩ := blocks_send kernel chunks nonempty' small' ok
    intro same
    -- each part of what is received is from its own block
    have parts : sent ++ later = chunk ++ chunks.flatten := by
      rw [received',received,List.append_assoc] at same
      exact List.append_cancel_left same
    have whole : sent = chunk := by
      classical
      have kept := congrArg (List.filter fun byte => decide (byte ∈ chunk)) parts
      have all : ∀ {bytes : List α}, (∀ byte ∈ bytes, byte ∈ chunk) → bytes.filter (fun byte => decide (byte ∈ chunk)) = bytes :=
        fun inside => List.filter_eq_self.mpr fun byte member => decide_eq_true (inside byte member)
      have none : ∀ {bytes : List α}, (∀ byte ∈ bytes, byte ∈ chunks.flatten) →
          bytes.filter (fun byte => decide (byte ∈ chunk)) = [] := fun outside =>
        List.filter_eq_nil_iff.mpr fun byte member present =>
          apart byte (of_decide_eq_true present) byte (outside byte member) rfl
      rw [List.filter_append,List.filter_append,all own,all fun _ member => member,none others,none fun _ member => member,
        List.append_nil,List.append_nil] at kept
      exact kept
    rw [List.map_cons,List.foldlM_cons] at failed
    cases delivered : deliver kernel chunk.length descriptor.calls chunk.length with
    | none =>
      refine flushLoop_fails kernel (Nat.zero_add _) fits (Nat.le_refl _) distinct delivered first ?_
      rw [received,whole,List.drop_zero]
    | some next =>
      rw [delivered] at failed
      have sentAll := flushLoop_delivers kernel (Nat.zero_add _) positive fits (Nat.le_add_left _ fuel) delivered
      rw [flushLoop_mono kernel first,List.drop_zero] at sentAll
      obtain rfl := Option.some.inj sentAll
      refine ih nonempty' small' distinct' ok failed ?_
      rw [same,List.append_assoc]

end

section
variable {α β : Type}

def Descriptor.map (f : α → β) (descriptor : Descriptor α) : Descriptor β := ⟨descriptor.received.map f,descriptor.calls⟩

theorem session_map (kernel : Kernel) (f : α → β) (fuel : Nat) (buffers : List (List α)) :
    session kernel fuel (buffers.map (List.map f)) = (session kernel fuel buffers).map (Descriptor.map f) := by
  have flushes : ∀ (fuel : Nat) (buffer : List α) (bw : Nat) (descriptor : Descriptor α),
      flushLoop kernel fuel (buffer.map f) bw (descriptor.map f) =
        (flushLoop kernel fuel buffer bw descriptor).map (Descriptor.map f) := by
    intro fuel
    induction fuel with
    | zero => exact fun _ _ _ => rfl
    | succ fuel ih =>
      intro buffer bw descriptor
      have write : ∀ bytes : List α, vgWrite kernel (descriptor.map f) (bytes.map f) =
          ((vgWrite kernel descriptor bytes).1,(vgWrite kernel descriptor bytes).2.map f) := by
        intro bytes
        simp only [vgWrite,Descriptor.map,List.length_map,List.map_append,List.map_take]
      unfold flushLoop
      rw [← List.map_drop,write,List.length_map]
      dsimp only
      split
      · exact ih _ _ _
      · rfl
  have folds : ∀ (chunks : List (List α)) (descriptor : Descriptor α),
      (chunks.map (List.map f)).foldlM (flush kernel fuel) (descriptor.map f) =
        (chunks.foldlM (flush kernel fuel) descriptor).map (Descriptor.map f) := by
    intro chunks
    induction chunks with
    | nil => exact fun _ => rfl
    | cons chunk chunks ih =>
      intro descriptor
      have first : flush kernel fuel (descriptor.map f) (chunk.map f) =
          (flush kernel fuel descriptor chunk).map (Descriptor.map f) := by
        unfold flush
        rw [flushes]
        simp only [List.map_eq_nil_iff]
        split <;> rfl
      rw [List.map_cons,List.foldlM_cons,List.foldlM_cons,first]
      cases flush kernel fuel descriptor chunk with
      | none => rfl
      | some middle => exact ih middle
  have full : ∀ stream : List α, fullBlocks (stream.map f) = (fullBlocks stream).map (List.map f) := by
    intro stream
    induction stream using fullBlocks.induct with
    | case1 stream short =>
      rw [fullBlocks_short short,fullBlocks_short (by rw [List.length_map]; exact short)]
      rfl
    | case2 stream long ih =>
      have long := Nat.not_lt.mp long
      rw [fullBlocks_long long,fullBlocks_long (by rw [List.length_map]; exact long),← List.map_drop,ih,← List.map_take]
      rfl
  have blocks : ∀ stream : List α, blocks (stream.map f) = (blocks stream).map (List.map f) := by
    intro stream
    have left : leftOver (stream.map f) = (leftOver stream).map f := by
      rw [leftOver,leftOver,List.length_map,List.map_drop]
    unfold Aprof.blocks
    rw [full,left,List.map_append]
    simp only [List.map_eq_nil_iff]
    split <;> rfl
  have start : (⟨[],0⟩ : Descriptor β) = Descriptor.map f ⟨[],0⟩ := rfl
  rw [session_blocks,session_blocks,← List.map_flatten,blocks,start]
  exact folds _ _

/-- The bytes with their offsets in the whole output. -/
def withOffsets : List (List α) → Nat → List (List (α × Nat))
  | [], _ => []
  | buffer :: buffers, offset => buffer.zipIdx offset :: withOffsets buffers (offset + buffer.length)

theorem withOffsets_flatten (buffers : List (List α)) (offset : Nat) :
    (withOffsets buffers offset).flatten = buffers.flatten.zipIdx offset := by
  induction buffers generalizing offset with
  | nil => rfl
  | cons buffer buffers ih => rw [withOffsets,List.flatten_cons,List.flatten_cons,List.zipIdx_append,ih]

theorem withOffsets_bytes (buffers : List (List α)) (offset : Nat) :
    (withOffsets buffers offset).map (List.map Prod.fst) = buffers := by
  induction buffers generalizing offset with
  | nil => rfl
  | cons buffer buffers ih => rw [withOffsets,List.map_cons,ih,List.zipIdx_map_fst]

/-- When the file is closed the descriptor has received every byte once, in order. -/
def Intact (kernel : Kernel) (buffers : List (List α)) : Prop :=
  ∃ fuel descriptor, session kernel fuel (withOffsets buffers 0) = some descriptor ∧
    descriptor.received = (withOffsets buffers 0).flatten

/-- The output is complete and in order just when the kernel answers no request for
its blocks with an error. The bytes of an intact output are those written. -/
theorem output_intact_iff (kernel : Kernel) (buffers : List (List α)) :
    (Intact kernel buffers ↔ NoErrors kernel buffers.flatten.length) ∧
      (Intact kernel buffers → ∃ fuel descriptor, session kernel fuel buffers = some descriptor ∧
        descriptor.received = buffers.flatten) := by
  have stream := withOffsets_flatten buffers 0
  have total : (withOffsets buffers 0).flatten.length = buffers.flatten.length := by rw [stream,List.length_zipIdx]
  have whole := blocks_flatten (withOffsets buffers 0).flatten
  have nonempty := blocks_nonempty (withOffsets buffers 0).flatten
  have small := blocks_small (withOffsets buffers 0).flatten
  have lengths := blocks_lengths (withOffsets buffers 0).flatten
  have distinct : (blocks (withOffsets buffers 0).flatten).flatten.Nodup := by
    rw [whole,stream]
    refine List.Nodup.of_map Prod.snd ?_
    rw [List.zipIdx_map_snd]
    exact List.nodup_range'
  refine ⟨⟨?_,fun delivered => ?_⟩,?_⟩
  · rintro ⟨fuel,descriptor,ok,received⟩
    rw [session_blocks] at ok
    by_contra failed
    rw [NoErrors,Option.not_isSome_iff_eq_none,← total,← lengths] at failed
    refine blocks_fail kernel _ nonempty small distinct ok failed ?_
    rw [received,whole,List.nil_append]
  · rw [NoErrors,← total,← lengths] at delivered
    obtain ⟨call,delivered⟩ := Option.isSome_iff_exists.mp delivered
    have sent : (blocks (withOffsets buffers 0).flatten).foldlM (flush kernel bufferSize) ⟨[],0⟩ =
        some ⟨[] ++ (blocks (withOffsets buffers 0).flatten).flatten,call⟩ :=
      blocks_deliver kernel _ nonempty small delivered
    rw [whole,List.nil_append] at sent
    exact ⟨bufferSize,_,(session_blocks kernel _ _).trans sent,rfl⟩
  · rintro ⟨fuel,descriptor,ok,received⟩
    have bytes := session_map kernel Prod.fst fuel (withOffsets buffers 0)
    rw [withOffsets_bytes,ok] at bytes
    refine ⟨fuel,_,bytes,?_⟩
    change descriptor.received.map Prod.fst = _
    rw [received,List.map_flatten,withOffsets_bytes]

def fullDisk : Kernel := ⟨fun _ _ => -28,fun _ _ _ => .inl (by decide)⟩

/-- On a full disk the only byte written is dropped without notice. -/
theorem output_lost_on_full_disk : ∃ descriptor : Descriptor Nat,
    session fullDisk 1 [[7]] = some descriptor ∧ descriptor.received = [] ∧ ¬ Intact fullDisk [[7]] := by
  have single : ∀ {α : Type} (byte : α), blocks [byte] = [[byte]] := by
    intro α byte
    have short : [byte].length < bufferSize := show 1 < 32000 by decide
    rw [blocks,fullBlocks_short short,leftOver_short short,if_neg (List.cons_ne_nil _ _),List.nil_append]
  refine ⟨⟨[],1⟩,?_,rfl,?_⟩
  · rw [session_blocks,List.flatten_singleton,single]
    rfl
  · rintro ⟨fuel,descriptor,ok,received⟩
    change descriptor.received = [(7,0)] at received
    rw [session_blocks,withOffsets_flatten,List.flatten_singleton,List.zipIdx_singleton,single] at ok
    cases fuel with
    | zero => cases ok
    | succ fuel =>
      have dropped : (some ⟨[],1⟩ : Option (Descriptor (Nat × Nat))) = some descriptor := ok
      cases dropped
      cases received

end

end Aprof
