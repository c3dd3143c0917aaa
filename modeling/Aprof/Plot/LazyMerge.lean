import Aprof.General.StableSort
import Aprof.Plot.Routines
import Mathlib.Algebra.Order.BigOperators.Group.List

/-! The merge of context tuples into a routine, `mergeInputTupleLazyList` of
`ContextualizedRoutineInfo.java`. The lists hold references, since `merge` changes
objects in place. -/
namespace Aprof.Plot

structure ContextualizedRoutineInfo where
  objects : Nat → Input
  fresh : Nat
  statistics : Statistics
  inputTuples : List Nat
  sortStatus : SortOrder
  lazyList : List Nat

/-- The variables of `mergeInputTupleLazyList`; the iterators are what they still have. -/
structure Loop where
  objects : Nat → Input
  fresh : Nat
  lazy : List Nat
  list : List Nat
  a : Option Nat := none
  b : Option Nat := none
  prev : Option Nat := none
  newTuples : List Nat := []

/-- `if (lazy.hasNext() && a == null) a = lazy.next()` -/
def Loop.fetch (loop : Loop) : Loop :=
  match loop.a,loop.lazy with
  | none,next :: lazy => { loop with a := some next, lazy := lazy }
  | _,_ => loop

/-- `while (list.hasNext() && b == null)`: the value of `b` and what the iterator still has. -/
def nextNotBelow (objects : Nat → Input) (size : Int) : List Nat → Option Nat × List Nat
  | [] => (none,[])
  | next :: list => if (objects next).size < size then nextNotBelow objects size list else (some next,list)

/-- `b` for the tuple `a`. -/
def Loop.seek (loop : Loop) (a : Nat) : Loop :=
  let b := loop.b.filter fun b => ¬(loop.objects b).size < (loop.objects a).size
  match b with
  | some b => { loop with b := some b }
  | none =>
    let found := nextNotBelow loop.objects (loop.objects a).size loop.list
    { loop with b := found.1, list := found.2 }

def Loop.mergeInto (mode : CostType) (loop : Loop) (this te : Nat) : Loop :=
  { loop with
    objects := Function.update loop.objects this ((loop.objects this).merge .java mode (loop.objects te)).2 }

/-- No tuple of the routine is left for `a`. -/
def Loop.absorb (mode : CostType) (loop : Loop) (a : Nat) : Loop :=
  match loop.prev.filter fun prev => (loop.objects prev).size = (loop.objects a).size with
  | some prev => { loop.mergeInto mode prev a with a := none }
  | none =>
    { loop with
      objects := Function.update loop.objects loop.fresh (loop.objects a)
      fresh := loop.fresh + 1
      prev := some loop.fresh
      newTuples := loop.newTuples ++ [loop.fresh]
      a := none }

/-- One turn of `while (true)`; `none` when it breaks. -/
def Loop.turn (mode : CostType) (loop : Loop) : Option Loop :=
  match loop.fetch.a with
  | none => none
  | some a =>
    let loop := loop.fetch.seek a
    match loop.b with
    | none => some (loop.absorb mode a)
    | some b =>
      if (loop.objects a).size = (loop.objects b).size then some { loop.mergeInto mode b a with a := none } else some loop

/-- The loop, for at most `fuel` turns. -/
def Loop.run (mode : CostType) : Nat → Loop → Option Loop
  | 0,_ => none
  | fuel + 1,loop =>
    match loop.turn mode with
    | none => some loop
    | some loop => loop.run mode fuel

namespace ContextualizedRoutineInfo

def addInput (mode : CostType) (routine : ContextualizedRoutineInfo) (i : Nat) : ContextualizedRoutineInfo :=
  { routine with
    inputTuples := routine.inputTuples ++ [i]
    statistics := routine.statistics.addInput .java mode (routine.objects i)
    sortStatus := .none }

def sortInputTuplesByInput (routine : ContextualizedRoutineInfo) : ContextualizedRoutineInfo :=
  if routine.sortStatus = .byInput then routine
  else
    { routine with
      inputTuples := stableSort (fun i => (routine.objects i).inputKey) routine.inputTuples
      sortStatus := .byInput }

def mergeInputTupleLazyList (mode : CostType) (fuel : Nat) (routine : ContextualizedRoutineInfo) :
    Option ContextualizedRoutineInfo :=
  if routine.lazyList = [] then some routine
  else do
    let routine := routine.sortInputTuplesByInput
    let loop : Loop :=
      { objects := routine.objects
        fresh := routine.fresh
        lazy := stableSort (fun i => (routine.objects i).size) routine.lazyList
        list := routine.inputTuples }
    let loop ← loop.run mode fuel
    let merged := loop.newTuples.foldl (addInput mode) { routine with objects := loop.objects, fresh := loop.fresh }
    some { merged with lazyList := [] }

/-- The routine of a report: `tuples` from its p lines, `contexts` those of its contexts. -/
def ofReport (mode : CostType) (tuples contexts : List Input) : ContextualizedRoutineInfo :=
  { objects := fun i => (tuples ++ contexts)[i]?.getD unitInput
    fresh := tuples.length + contexts.length
    statistics := (Routine.ofInputs .java mode tuples).statistics
    inputTuples := List.range tuples.length
    sortStatus := .none
    lazyList := (List.range contexts.length).map (tuples.length + ·) }

def tuples (routine : ContextualizedRoutineInfo) : List Input := routine.inputTuples.map routine.objects

end ContextualizedRoutineInfo

structure Complete (mode : CostType) (tuples contexts : List Input) (merged : ContextualizedRoutineInfo) : Prop where
  distinct : (merged.tuples.map Input.size).Nodup
  sizes : ∀ size, size ∈ merged.tuples.map Input.size ↔ size ∈ (tuples ++ contexts).map Input.size
  aggregated : ∀ tuple ∈ merged.tuples, Aggregates ((tuples ++ contexts).filter fun i => i.size = tuple.size) tuple
  -- the order matters to sums of doubles
  statistics : ∃ added, added.Perm merged.tuples ∧ merged.statistics = (Routine.ofInputs .java mode added).statistics
  contexts : ∀ i (inside : i < contexts.length), merged.objects (tuples.length + i) = contexts[i]

/-- Merging the others into the first tuple loses nothing: the square sums of their self costs
come to 0, no addition of doubles is wrong in the end and no total leaves the longs. -/
def MergesExactly (mode : CostType) : List Input → Prop
  | [] => True
  | first :: rest =>
    (rest.map Input.sqrSelfCost).sum = 0 ∧
    (∀ field ∈ plainSums, Numbers.java.addDoubles (field first) (rest.map field) = field first + (rest.map field).sum) ∧
    (rest = [] ∨ ∀ field ∈ counts, FitsLong (field first + (rest.map field).sum)) ∧
    Numbers.java.addDoubles first.sqrCumulativeCost (rest.flatMap Input.squares) =
      first.sqrCumulativeCost + (rest.map Input.sqrCumulativeCost).sum ∧
    Numbers.java.addDoubles first.sumCumulativeRealCost (rest.map (Input.getSumCumulativeRealCost mode)) =
      first.sumCumulativeRealCost + (rest.map Input.sumCumulativeRealCost).sum

theorem mergesExactly_iff {mode : CostType} {first : Input} {rest : List Input} (equal : ∀ te ∈ rest, te.size = first.size) :
    Aggregates (first :: rest) (mergeAll .java mode first rest) ↔ MergesExactly mode (first :: rest) := by
  have longs : (∀ field ∈ counts, Numbers.java.addLongs (field first) (rest.map field) = field first + (rest.map field).sum) ↔
      rest = [] ∨ ∀ field ∈ counts, FitsLong (field first + (rest.map field).sum) := by
    cases rest with
    | nil => exact iff_of_true (fun _ _ => (add_zero _).symm) (.inl rfl)
    | cons te rest =>
      rw [or_iff_right (List.cons_ne_nil te rest)]
      refine forall₂_congr fun field _ => ?_
      rw [List.map_cons,Numbers.java_addLongs]
      exact Numbers.java_eq_iff _
  rw [mergeAll_aggregates_iff .java mode first rest equal,longs]
  exact Iff.rfl

section
variable {mode : CostType} {loop : Loop}

theorem Loop.run_unique {fuel : Nat} : ∀ {other : Nat} {loop first second : Loop},
    loop.run mode fuel = some first → loop.run mode other = some second → first = second := by
  induction fuel with
  | zero => intro other loop first second ran; cases ran
  | succ fuel ih =>
    intro other loop first second ran also
    cases other with
    | zero => cases also
    | succ other =>
      rw [run] at ran also
      cases next : loop.turn mode with
      | none =>
        rw [next] at ran also
        exact (Option.some.inj ran).symm.trans (Option.some.inj also)
      | some after =>
        rw [next] at ran also
        exact ih ran also

theorem Loop.run_stuck (stuck : loop.turn mode = some loop) (fuel : Nat) : loop.run mode fuel = none := by
  induction fuel with
  | zero => rfl
  | succ fuel ih =>
    rw [run,stuck]
    exact ih

theorem Loop.run_turn {after : Loop} (turned : loop.turn mode = some after) {fuel : Nat} {last : Loop}
    (ran : loop.run mode fuel = some last) : ∃ fuel, after.run mode fuel = some last := by
  cases fuel with
  | zero => cases ran
  | succ fuel =>
    rw [run,turned] at ran
    exact ⟨fuel,ran⟩

theorem nextNotBelow_none {objects : Nat → Input} {size : Int} {list : List Nat}
    (below : ∀ i ∈ list, (objects i).size < size) : nextNotBelow objects size list = (none,[]) := by
  induction list with
  | nil => rfl
  | cons next list ih =>
    rw [nextNotBelow,if_pos (below next List.mem_cons_self)]
    exact ih fun i member => below i (List.mem_cons_of_mem next member)

theorem nextNotBelow_some {objects : Nat → Input} {size : Int} {list : List Nat}
    (some : ∃ i ∈ list, size ≤ (objects i).size) :
    ∃ b rest, nextNotBelow objects size list = (.some b,rest) ∧ b ∈ list ∧ size ≤ (objects b).size ∧ rest ⊆ list := by
  induction list with
  | nil =>
    obtain ⟨i,member,-⟩ := some
    cases member
  | cons next list ih =>
    by_cases below : (objects next).size < size
    · obtain ⟨i,member,reaches⟩ := some
      have later : i ∈ list := by
        rcases List.mem_cons.mp member with same | later
        · rw [same] at reaches
          omega
        · exact later
      obtain ⟨b,rest,found,inside,least,suffix⟩ := ih ⟨i,later,reaches⟩
      rw [nextNotBelow,if_pos below]
      exact ⟨b,rest,found,List.mem_cons_of_mem next inside,least,fun j last => List.mem_cons_of_mem next (suffix last)⟩
    · rw [nextNotBelow,if_neg below]
      exact ⟨next,list,rfl,List.mem_cons_self,not_lt.mp below,fun j last => List.mem_cons_of_mem next last⟩

/-- What a turn does with the tuple `a` it works on. -/
theorem Loop.turn_cases {after : Loop} (turned : loop.turn mode = some after) :
    ∃ a, loop.fetch.a = some a ∧
      ((loop.fetch.seek a).b = none ∧ after = (loop.fetch.seek a).absorb mode a ∨
        ∃ b, (loop.fetch.seek a).b = some b ∧
          (after = { (loop.fetch.seek a).mergeInto mode b a with a := none } ∨ after = loop.fetch.seek a)) := by
  unfold turn at turned
  cases fetched : loop.fetch.a with
  | none =>
    rw [fetched] at turned
    cases turned
  | some a =>
    rw [fetched] at turned
    dsimp only at turned
    refine ⟨a,rfl,?_⟩
    cases sought : (loop.fetch.seek a).b with
    | none =>
      rw [sought] at turned
      exact .inl ⟨rfl,(Option.some.inj turned).symm⟩
    | some b =>
      rw [sought] at turned
      dsimp only at turned
      refine .inr ⟨b,rfl,?_⟩
      split at turned
      · exact .inl (Option.some.inj turned).symm
      · exact .inr (Option.some.inj turned).symm

end

/-- Who owns the objects: those below `n` belong to the routine, the next `m` to contexts, the
others are clones. -/
structure Owned (n m : Nat) (base : Nat → Input) (loop : Loop) : Prop where
  list : ∀ i ∈ loop.list, i < n
  b : ∀ i ∈ loop.b, i < n
  lazy : ∀ i ∈ loop.lazy, n ≤ i ∧ i < n + m
  a : ∀ i ∈ loop.a, n ≤ i ∧ i < n + m
  prev : ∀ i ∈ loop.prev, n + m ≤ i
  fresh : n + m ≤ loop.fresh
  contexts : ∀ i, n ≤ i → i < n + m → loop.objects i = base i
  kept : ∀ i < n, (loop.objects i).size = (base i).size

section
variable {mode : CostType} {loop : Loop} {n m : Nat} {base : Nat → Input}

theorem nextNotBelow_inside (objects : Nat → Input) (size : Int) (list : List Nat) :
    (∀ b ∈ (nextNotBelow objects size list).1, b ∈ list) ∧ (nextNotBelow objects size list).2 ⊆ list := by
  by_cases some : ∃ i ∈ list, size ≤ (objects i).size
  · obtain ⟨b,rest,found,inside,-,suffix⟩ := nextNotBelow_some some
    rw [found]
    refine ⟨fun other same => ?_,suffix⟩
    rw [← Option.some.inj same]
    exact inside
  · have below : ∀ i ∈ list, (objects i).size < size := fun i member => not_le.mp fun least => some ⟨i,member,least⟩
    rw [nextNotBelow_none below]
    exact ⟨nofun,List.nil_subset list⟩

theorem Owned.fetch (owned : Owned n m base loop) : Owned n m base loop.fetch := by
  unfold Loop.fetch
  split
  · next next lazy _ rest =>
    have inside := owned.lazy
    rw [rest] at inside
    refine { owned with lazy := fun i member => inside i (List.mem_cons_of_mem next member), a := fun i same => ?_ }
    rw [← Option.some.inj same]
    exact inside next List.mem_cons_self
  · exact owned

theorem Owned.seek (owned : Owned n m base loop) (a : Nat) : Owned n m base (loop.seek a) := by
  unfold Loop.seek
  dsimp only
  split
  · next b kept =>
    obtain ⟨same,-⟩ := Option.filter_eq_some_iff.mp kept
    refine { owned with b := fun i other => ?_ }
    rw [← Option.some.inj other]
    exact owned.b b same
  · obtain ⟨found,rest⟩ := nextNotBelow_inside loop.objects (loop.objects a).size loop.list
    exact { owned with
      b := fun i same => owned.list i (found i same)
      list := fun i member => owned.list i (rest member) }

theorem Owned.mergeInto (owned : Owned n m base loop) {this : Nat} (mine : this < n ∨ n + m ≤ this) (te : Nat) :
    Owned n m base { loop.mergeInto mode this te with a := none } := by
  refine { owned with contexts := fun i above below => ?_, kept := fun i below => ?_, a := nofun }
  · have other : i ≠ this := by omega
    exact (Function.update_of_ne other _ _).trans (owned.contexts i above below)
  · show (Function.update loop.objects this _ i).size = _
    by_cases same : i = this
    · subst same
      rw [Function.update_self,Input.merge_size]
      exact owned.kept i below
    · rw [Function.update_of_ne same]
      exact owned.kept i below

theorem Owned.absorb (owned : Owned n m base loop) (a : Nat) : Owned n m base (loop.absorb mode a) := by
  unfold Loop.absorb
  split
  · next prev found =>
    obtain ⟨same,-⟩ := Option.filter_eq_some_iff.mp found
    exact owned.mergeInto (.inr (owned.prev prev same)) a
  · have fresh := owned.fresh
    refine { owned with
      a := nofun, prev := fun i same => ?_, fresh := ?_, contexts := fun i above below => ?_, kept := fun i below => ?_ }
    · rw [← Option.some.inj same]
      exact fresh
    · exact fresh.trans (Nat.le_succ loop.fresh)
    · have other : i ≠ loop.fresh := by omega
      exact (Function.update_of_ne other _ _).trans (owned.contexts i above below)
    · have other : i ≠ loop.fresh := by omega
      show (Function.update loop.objects loop.fresh _ i).size = _
      rw [Function.update_of_ne other]
      exact owned.kept i below

theorem Owned.turn (owned : Owned n m base loop) {after : Loop} (turned : loop.turn mode = some after) :
    Owned n m base after := by
  obtain ⟨a,fetched,cases⟩ := Loop.turn_cases turned
  have sought := owned.fetch.seek a
  rcases cases with ⟨-,rfl⟩ | ⟨b,found,rfl | rfl⟩
  · exact sought.absorb a
  · exact sought.mergeInto (.inl (sought.b b found)) a
  · exact sought

theorem Owned.run {last : Loop} {fuel : Nat} :
    ∀ {loop : Loop}, Owned n m base loop → loop.run mode fuel = some last → Owned n m base last := by
  induction fuel with
  | zero => intro loop _ ran; cases ran
  | succ fuel ih =>
    intro loop owned ran
    rw [Loop.run] at ran
    cases next : loop.turn mode with
    | none =>
      rw [next] at ran
      rw [← Option.some.inj ran]
      exact owned
    | some after =>
      rw [next] at ran
      exact ih (owned.turn next) ran

end

end Aprof.Plot
