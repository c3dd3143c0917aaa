import Aprof.Runtime

/-! The branches of `post_syscall` for the calls that fill buffers. A call that
succeeded is its arguments and its result; each branch computes the buffers that
the store loop runs over, with their lengths in the C type `Int`. -/
namespace Aprof

/-- A vector is the list of its `iov_base` and `iov_len`. A call to `mmap` passes its arguments in
registers, as `mmap2` does on x86: the old `mmap` of x86 passes a pointer to a block of arguments, its
second register is no length, and it is left out. -/
inductive Syscall where
  | read (buf n : Nat)
  | recvfrom (buf n : Nat)
  | pread64 (buf n : Nat)
  | readv (iov : List (Nat × Nat)) (n : Nat)
  | preadv (iov : List (Nat × Nat)) (n : Nat)
  | msgrcv (msgp n : Nat)
  | mmap (addr length : Nat)
  deriving DecidableEq, Repr

def Layout.sizeofLong : Layout → Nat
  | .i386 => 4
  | .amd64 => 8

/-- What an `Int` becomes in a comparison with a `size_t`. -/
def Layout.toSize (layout : Layout) (size : Int) : Nat := (size % 2 ^ (8 * layout.sizeofLong)).toNat

def iovBuffers (layout : Layout) : List (Nat × Nat) → Int → List (Nat × Int)
  | [], _ => []
  | (base,len) :: iov, size =>
    if size = 0 then []
    else
      let iovLen := if len ≤ layout.toSize size then toInt len else size
      (base,iovLen) :: iovBuffers layout iov (toInt (size - iovLen))

/-- x86 has no such system calls, and their tests are not compiled there. -/
def Syscall.compiled (layout : Layout) : Syscall → Bool
  | .recvfrom _ _ | .msgrcv _ _ => layout == .amd64
  | _ => true

def storedBuffers (layout : Layout) : Syscall → List (Nat × Int)
  | .read buf n | .recvfrom buf n | .pread64 buf n => [(buf,toInt n)]
  | .readv iov n | .preadv iov n => iovBuffers layout iov (toInt n)
  | .msgrcv msgp n => [(msgp,toInt (toInt n + layout.sizeofLong))]
  | .mmap addr length => [(addr,toInt length)]

/-- `post_syscall` on a call that succeeded. -/
def Syscall.post {c : Counter} (cfg : Config) (rt : Runtime c) (tid : Nat) (call : Syscall) : Result (Runtime c) :=
  if call.compiled cfg.layout then postSyscall cfg rt tid (storedBuffers cfg.layout call)
  else if cfg.inputMetric = .drms then threadSwitch cfg rt tid
  else .ok rt

/-- The first `n` bytes of a vector in its order, up to the entry that holds the last one. -/
def spread : List (Nat × Nat) → Nat → List (Nat × Nat)
  | [], _ => []
  | (base,len) :: iov, n => if n = 0 then [] else (base,min len n) :: spread iov (n - len)

/-- The ranges of bytes the kernel wrote, each with its length. -/
def Syscall.written (layout : Layout) : Syscall → List (Nat × Nat)
  | .read buf n | .recvfrom buf n | .pread64 buf n => [(buf,n)]
  | .readv iov n | .preadv iov n => spread iov n
  | .msgrcv msgp n => [(msgp,layout.sizeofLong + n)]
  | .mmap addr length => [(addr,length)]

/-- The granule holds a byte of one of the ranges. -/
def Holds (memoryResolution : Nat) (ranges : List (Nat × Nat)) (g : Nat) : Prop :=
  ∃ range ∈ ranges, ∃ byte, range.1 ≤ byte ∧ byte < range.1 + range.2 ∧ byte / memoryResolution = g

def maxTransfer : Nat := 0x7ffff000

/-- A call the platform has, into memory that the shadow memory covers. -/
structure Syscall.Real (layout : Layout) (call : Syscall) : Prop where
  offered : call.compiled layout = true
  covered : ∀ range ∈ call.written layout, 0 < range.2 → range.1 + range.2 ≤ layout.limit
  transfer : ∀ iov n, call = .readv iov n ∨ call = .preadv iov n → n ≤ maxTransfer

end Aprof
