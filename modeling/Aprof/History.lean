import Aprof.Runtime
import Mathlib.Data.Finset.Card
import Mathlib.Data.List.TakeWhile

/-! The history of a run as a list of touches, oldest first: who read or wrote
which granule, as far as the run recorded it. What the input metrics count is
stated over this history alone. -/
namespace Aprof

/-- `actor` is the thread, or `none` for the kernel. -/
structure Touch where
  actor : Option Nat
  type : AccessType
  granule : Nat
  deriving DecidableEq

def Touch.reads (touch : Touch) : Bool := touch.type ≠ .store
def Touch.writes (touch : Touch) : Bool := touch.type ≠ .load

/-- A recorded access of thread `tid` to granule `g`. -/
def Touch.own (tid g : Nat) (touch : Touch) : Bool := touch.actor = some tid ∧ touch.granule = g

/-- Accesses are recorded when the thread has a pending call and none that is skipped. -/
def recording (thread : Option ThreadData) : Bool :=
  match thread with
  | none => false
  | some tdata => tdata.stackDepth ≠ 0 ∧ tdata.skip = 0

def kernelAddrs (memoryResolution : Nat) (buffers : List (Nat × Int)) : List Nat :=
  buffers.flatMap fun buffer =>
    let fixed := fixAccessSize memoryResolution buffer.1 buffer.2
    (sweep memoryResolution fixed.2.toNat fixed.1 fixed.2).flatMap fun addr =>
      accessAddrs memoryResolution addr memoryResolution

/-- The touches that one event adds to the history. -/
def touchesOf (cfg : Config) (threads : Nat → Option ThreadData) (currentTid : Nat) : Event → List Touch
  | .access type addr size =>
    if recording (threads currentTid) then
      (accessAddrs cfg.memoryResolution addr size).map fun a =>
        ⟨some currentTid,type,a / cfg.memoryResolution⟩
    else []
  | .postSyscall tid buffers =>
    if cfg.inputMetric = .drms ∧ recording (threads tid) = true then
      (kernelAddrs cfg.memoryResolution buffers).map fun a => ⟨none,.store,a / cfg.memoryResolution⟩
    else []
  | _ => []

def history {c : Counter} (cfg : Config) : Runtime c → List Event → List Touch
  | _, [] => []
  | rt, event :: events =>
    touchesOf cfg rt.threads rt.currentTid event ++
      match step cfg rt event with
      | .error _ => []
      | .ok rt => history cfg rt events

def untouched (tid : Nat) (touches : List Touch) (g : Nat) : Bool := touches.all fun y => !y.own tid g

/-- The latest write of the granule after the thread's last access to it, which
somebody else must have made. -/
def foreignWrite (tid : Nat) (touches : List Touch) (g : Nat) : Option Touch :=
  (touches.reverse.takeWhile fun y => !y.own tid g).find? fun y => y.granule = g ∧ y.writes

/-- How many of `during` satisfy `p`, given the touches of `during` before them. -/
def tally (p : List Touch → Touch → Bool) (during : List Touch) : Nat :=
  ((List.range during.length).filter fun i =>
    (during[i]?).any fun touch => p (during.take i) touch).length

/-- Reads of the thread that a call counts as input under DRMS: `before` is the
history when the call was entered, `during` what has happened since. -/
def countsDrms (tid : Nat) (before during : List Touch) (touch : Touch) : Bool :=
  touch.actor = some tid ∧ touch.reads ∧
    (untouched tid during touch.granule ∨ (foreignWrite tid (before ++ during) touch.granule).isSome)

def countsSyscall (tid : Nat) (before during : List Touch) (touch : Touch) : Bool :=
  touch.actor = some tid ∧ touch.reads ∧
    (foreignWrite tid (before ++ during) touch.granule).any fun write => write.actor = none

/-- Those that read a value another thread wrote. -/
def countsThread (tid : Nat) (before during : List Touch) (touch : Touch) : Bool :=
  touch.actor = some tid ∧ touch.reads ∧
    (foreignWrite tid (before ++ during) touch.granule).any fun write => write.actor ≠ none

/-- The granules whose first access by the thread is a read. -/
def inputGranules (tid : Nat) (during : List Touch) : Finset Nat :=
  ((during.map Touch.granule).toFinset).filter fun g =>
    (during.find? fun touch => touch.own tid g).any Touch.reads

theorem tally_append (p : List Touch → Touch → Bool) (during : List Touch) (x : Touch) :
    tally p (during ++ [x]) = tally p during + if p during x then 1 else 0 := by
  unfold tally
  rw [List.length_append,List.length_singleton,List.range_succ,List.filter_append,List.length_append]
  congr 1
  · apply congrArg
    apply List.filter_congr
    intro i member
    have bound := List.mem_range.mp member
    rw [List.getElem?_append_left bound,List.take_append_of_le_length (Nat.le_of_lt bound)]
  · simp [List.filter_cons]
    split <;> rfl

theorem untouched_append (tid : Nat) (touches : List Touch) (x : Touch) (g : Nat) :
    untouched tid (touches ++ [x]) g = (untouched tid touches g && !x.own tid g) := by
  simp [untouched,List.all_append]

theorem foreignWrite_append (tid : Nat) (touches : List Touch) (x : Touch) (g : Nat) :
    foreignWrite tid (touches ++ [x]) g =
      if x.own tid g then none else if x.granule = g ∧ x.writes then some x else foreignWrite tid touches g := by
  unfold foreignWrite
  rw [List.reverse_append,List.reverse_singleton,List.singleton_append,List.takeWhile_cons]
  cases own : x.own tid g with
  | true => rfl
  | false =>
    simp only [Bool.not_false,if_true,List.find?_cons]
    by_cases write : x.granule = g ∧ x.writes = true
    · simp [write]
    · simp [write]

theorem untouched_iff {tid g : Nat} {touches : List Touch} :
    untouched tid touches g = true ↔ touches.find? (fun touch => touch.own tid g) = none := by
  simp [untouched,List.find?_eq_none]

theorem mem_inputGranules {tid g : Nat} {during : List Touch} : g ∈ inputGranules tid during ↔
    ∃ touch, during.find? (fun touch => touch.own tid g) = some touch ∧ touch.reads = true := by
  simp only [inputGranules,Finset.mem_filter,List.mem_toFinset,List.mem_map,Option.any_eq_true]
  constructor
  · exact fun member => member.2
  · rintro ⟨touch,found,reads⟩
    have own := List.find?_some found
    simp only [Touch.own,decide_eq_true_eq] at own
    exact ⟨⟨touch,List.mem_of_find?_eq_some found,own.2⟩,touch,found,reads⟩

theorem mem_inputGranules_append {tid g : Nat} {during : List Touch} {x : Touch} :
    g ∈ inputGranules tid (during ++ [x]) ↔ g ∈ inputGranules tid during ∨
      (untouched tid during g = true ∧ x.own tid g = true ∧ x.reads = true) := by
  rw [mem_inputGranules,mem_inputGranules,untouched_iff,List.find?_append]
  cases during.find? fun touch => touch.own tid g with
  | some touch => simp
  | none => cases own : x.own tid g <;> simp [own]

theorem inputGranules_append (tid : Nat) (during : List Touch) (x : Touch) :
    (inputGranules tid (during ++ [x])).card = (inputGranules tid during).card +
      if x.actor = some tid ∧ x.reads ∧ untouched tid during x.granule then 1 else 0 := by
  split
  · next counts =>
    obtain ⟨actor,reads,fresh⟩ := counts
    have absent : x.granule ∉ inputGranules tid during := by
      rw [mem_inputGranules,untouched_iff.mp fresh]
      simp
    have grown : inputGranules tid (during ++ [x]) = insert x.granule (inputGranules tid during) := by
      ext g
      rw [Finset.mem_insert,mem_inputGranules_append]
      constructor
      · rintro (old | ⟨-,own,-⟩)
        · exact Or.inr old
        · simp only [Touch.own,decide_eq_true_eq] at own
          exact Or.inl own.2.symm
      · rintro (rfl | old)
        · exact Or.inr ⟨fresh,by simp [Touch.own,actor],reads⟩
        · exact Or.inl old
    rw [grown,Finset.card_insert_of_notMem absent]
  · next counts =>
    rw [Nat.add_zero]
    congr 1
    ext g
    rw [mem_inputGranules_append]
    constructor
    · rintro (old | ⟨fresh,own,reads⟩)
      · exact old
      · simp only [Touch.own,decide_eq_true_eq] at own
        obtain ⟨actor,rfl⟩ := own
        exact absurd ⟨actor,reads,fresh⟩ counts
    · exact Or.inl

end Aprof
