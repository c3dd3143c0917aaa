import Aprof.Basic
import Aprof.HashTable
import Mathlib.Data.List.Induction

/-! Runs of the hash table with nodes whose keys may repeat. A table is compared with the
list of the nodes present, the last one added first; a removal takes the first node of its
key from this list. -/
namespace Aprof

section
variable {α : Type} [HashNode α]

/-- `HT_remove`. -/
def htRemove (table : HashTable α) (key : Nat) : Option α × HashTable α :=
  match (Buckets.chainOf table.chains key).find? (fun node => HashNode.key node == key) with
  | none => (none,table)
  | some node => (some node,{
      chains := Buckets.remove HashNode.key table.chains key
      nElements := (table.nElements + (2 ^ 32 - 1)) % 2 ^ 32
      iterChain := table.iterChain
      nonempty := by simpa using table.nonempty
      placed := Buckets.remove_placed HashNode.key table.chains table.placed key })

/-- The first node of chain `i` is unlinked and the iterator stays there. -/
def popChain (table : HashTable α) (i : Nat) : HashTable α where
  chains := table.chains.modify i List.tail
  nElements := (table.nElements + (2 ^ 32 - 1)) % 2 ^ 32
  iterChain := i
  nonempty := by simpa using table.nonempty
  placed := Buckets.modify_placed HashNode.key table.chains table.placed i List.tail fun _ _ => List.mem_of_mem_tail

/-- The loop of `HT_RemoveNext` from chain `i` on. -/
def nextChain (table : HashTable α) (i : Nat) : Option Nat :=
  (List.range' i (table.chains.length - i)).find? fun j => ((table.chains[j]?).getD []) ≠ []

/-- `HT_RemoveNext` after its assertion. -/
def htRemoveNext (table : HashTable α) : Result (Option α × HashTable α) :=
  match table.chains[table.iterChain]? with
  | none => .error .invalidPointer
  | some (node :: _) => .ok (some node,popChain table table.iterChain)
  | some [] =>
    match nextChain table (table.iterChain + 1) with
    | none => .ok (none,table)
    | some i => .ok (((table.chains[i]?).getD []).head?,popChain table i)

/-- A table with its flag `iterOK`. -/
structure Iterated (α : Type) [HashNode α] where
  table : HashTable α
  iterOK : Bool

namespace Iterated

def construct : Iterated α := ⟨htConstruct,true⟩

def addNode (iterated : Iterated α) (node : α) : Iterated α := ⟨htAddNode iterated.table node,false⟩

def remove (iterated : Iterated α) (key : Nat) : Option α × Iterated α :=
  ((htRemove iterated.table key).1,⟨(htRemove iterated.table key).2,false⟩)

def resetIter (iterated : Iterated α) : Iterated α := ⟨{iterated.table with iterChain := 0},true⟩

def removeNext (iterated : Iterated α) : Result (Option α × Iterated α) := do
  check iterated.iterOK "table->iterOK"
  let (node,table) ← htRemoveNext iterated.table
  .ok (node,{iterated with table := table})

/-- `HT_RemoveNext` until `NULL`; `none` when a call stops the tool or the calls run out. -/
def drain : Nat → Iterated α → Option (List α × Iterated α)
  | 0,_ => none
  | fuel + 1,iterated =>
    match iterated.removeNext with
    | .error _ => none
    | .ok (none,last) => some ([],last)
    | .ok (some node,next) => (drain fuel next).map fun (nodes,last) => (node :: nodes,last)

end Iterated

inductive HashCall (α : Type) where
  | add (node : α)
  | remove (key : Nat)

/-- A table and the nodes present in it, the last one added first. -/
structure Chronicled (α : Type) [HashNode α] where
  iterated : Iterated α
  present : List α

def hasKey (key : Nat) (node : α) : Bool := HashNode.key node == key

theorem hasKey_iff {key : Nat} {node : α} : hasKey key node = true ↔ HashNode.key node = key := beq_iff_eq

namespace Chronicled

def start : Chronicled α := ⟨.construct,[]⟩

def step (state : Chronicled α) : HashCall α → Chronicled α
  | .add node => ⟨state.iterated.addNode node,node :: state.present⟩
  | .remove key => ⟨(state.iterated.remove key).2,state.present.eraseP (hasKey key)⟩

def run (state : Chronicled α) (calls : List (HashCall α)) : Chronicled α := calls.foldl step state

end Chronicled

/-- `HT_add_node` goes on to relink the nodes. -/
def relinks (table : HashTable α) : Prop :=
  table.chains.length < (table.nElements + 1) % 2 ^ 32 ∧ table.chains.length ≠ 402653189

instance (table : HashTable α) : Decidable (relinks table) := instDecidableAnd

/-- The count fits its type, and nodes are only relinked while their keys are distinct. -/
def Chronicled.Allows (state : Chronicled α) : HashCall α → Prop
  | .add node => state.present.length + 1 < 2 ^ 32 ∧
      (relinks state.iterated.table → ((node :: state.present).map HashNode.key).Nodup)
  | .remove _ => True

/-- Every call finds the state before it in order. -/
def Chronicled.Allowed : Chronicled α → List (HashCall α) → Prop
  | _,[] => True
  | state,call :: calls => state.Allows call ∧ Allowed (state.step call) calls

/-- No node is added while it is in the table: its `next` would be overwritten. -/
def Chronicled.Fresh : Chronicled α → List (HashCall α) → Prop
  | _,[] => True
  | state,.add node :: calls => node ∉ state.present ∧ Fresh (state.step (.add node)) calls
  | state,.remove key :: calls => Fresh (state.step (.remove key)) calls

/-- What the table promises for the nodes present. -/
structure Multimap (state : Chronicled α) : Prop where
  lookup : ∀ key, (htLookup state.iterated.table key).head? = state.present.find? (hasKey key)
  remove : ∀ key, (state.iterated.remove key).1 = state.present.find? (hasKey key)
  count : state.iterated.table.nElements = state.present.length
  drains : ∃ fuel nodes last, state.iterated.resetIter.drain fuel = some (nodes,last) ∧ nodes.Perm state.present ∧
    last.table.nodes = [] ∧ last.table.nElements = 0

section
variable {table : HashTable α} {iterated : Iterated α}

structure Passed (table : HashTable α) : Prop where
  inside : table.iterChain < table.chains.length
  behind : ∀ j < table.iterChain, table.chains[j]? = some []
  count : table.nElements = table.nodes.length
  fits : table.nodes.length < 2 ^ 32

theorem nextChain_some {i j : Nat} (found : nextChain table i = some j) :
    i ≤ j ∧ j < table.chains.length ∧ (∃ node rest, table.chains[j]? = some (node :: rest)) ∧
      ∀ m, i ≤ m → m < j → table.chains[m]? = some [] := by
  obtain ⟨stored,range,before⟩ := List.find?_range'_eq_some.mp found
  obtain ⟨low,high⟩ := List.mem_range'_1.mp range
  have bound : j < table.chains.length := by omega
  refine ⟨low,bound,?_,fun m above below => ?_⟩
  · rw [List.getElem?_eq_getElem bound] at stored ⊢
    obtain ⟨node,rest,split⟩ := List.exists_cons_of_ne_nil (of_decide_eq_true stored)
    exact ⟨node,rest,congrArg some split⟩
  · have empty := before m above below
    rw [List.getElem?_eq_getElem (show m < table.chains.length by omega)] at empty ⊢
    simpa using empty

theorem nextChain_none {i : Nat} (missing : nextChain table i = none) :
    ∀ m, i ≤ m → m < table.chains.length → table.chains[m]? = some [] := by
  intro m above below
  have empty := List.find?_range'_eq_none.mp missing m above (by omega)
  rw [List.getElem?_eq_getElem below] at empty ⊢
  simpa using empty

theorem Passed.pop (passed : Passed table) {i : Nat} {node : α} {rest : List α} (found : table.chains[i]? = some (node :: rest))
    (behind : ∀ j < i, table.chains[j]? = some []) :
    table.nodes = node :: (popChain table i).nodes ∧ Passed (popChain table i) := by
  obtain ⟨others,split,changed⟩ := Buckets.modify_first List.tail found behind
  have nodes : table.nodes = node :: (popChain table i).nodes := by
    unfold HashTable.nodes popChain
    rw [split,changed]
    rfl
  obtain ⟨bound,-⟩ := List.getElem?_eq_some_iff.mp found
  have fits := passed.fits
  have count := passed.count
  rw [nodes,List.length_cons] at fits count
  refine ⟨nodes,?_,fun j below => ?_,?_,Nat.lt_of_succ_lt fits⟩
  · show i < (table.chains.modify i List.tail).length
    rw [List.length_modify]
    exact bound
  · have kept : (popChain table i).chains[j]? = table.chains[j]? := by
      show (table.chains.modify i List.tail)[j]? = _
      rw [List.getElem?_modify]
      simp only [if_neg (show i ≠ j from Nat.ne_of_gt below)]
      exact Option.map_id_apply
    rw [kept]
    exact behind j below
  · show (table.nElements + (2 ^ 32 - 1)) % 2 ^ 32 = _
    omega

theorem Passed.removeNext (passed : Passed table) :
    (table.nodes = [] ∧ htRemoveNext table = .ok (none,table)) ∨
      ∃ node after, htRemoveNext table = .ok (some node,after) ∧ table.nodes = node :: after.nodes ∧ Passed after := by
  obtain ⟨chain,current⟩ : ∃ chain, table.chains[table.iterChain]? = some chain :=
    ⟨_,List.getElem?_eq_getElem passed.inside⟩
  unfold htRemoveNext
  rw [current]
  cases chain with
  | cons node rest =>
    obtain ⟨nodes,after⟩ := passed.pop current passed.behind
    exact .inr ⟨node,_,rfl,nodes,after⟩
  | nil =>
    have behind : ∀ j < table.iterChain + 1, table.chains[j]? = some [] := by
      intro j below
      rcases Nat.lt_or_eq_of_le (Nat.le_of_lt_succ below) with before | rfl
      · exact passed.behind j before
      · exact current
    dsimp only
    cases next : nextChain table (table.iterChain + 1) with
    | none =>
      refine .inl ⟨Buckets.flatten_empty fun j bound => ?_,rfl⟩
      rcases Nat.lt_or_ge j (table.iterChain + 1) with before | after
      · exact behind j before
      · exact nextChain_none next j after bound
    | some i =>
      obtain ⟨-,-,⟨node,rest,found⟩,between⟩ := nextChain_some next
      obtain ⟨nodes,after⟩ := passed.pop found fun j below => by
        rcases Nat.lt_or_ge j (table.iterChain + 1) with before | after
        · exact behind j before
        · exact between j after below
      refine .inr ⟨node,_,?_,nodes,after⟩
      dsimp only
      rw [found]
      rfl

theorem Iterated.removeNext_ok (allowed : iterated.iterOK = true) {node : Option α} {after : HashTable α}
    (removed : htRemoveNext iterated.table = .ok (node,after)) :
    iterated.removeNext = .ok (node,{iterated with table := after}) := by
  obtain ⟨table,iterOK⟩ := iterated
  cases allowed
  unfold removeNext
  rw [removed]
  rfl

theorem Passed.drain (nodes : List α) : ∀ {iterated : Iterated α}, Passed iterated.table → iterated.iterOK = true →
    iterated.table.nodes = nodes → ∃ last, iterated.drain (nodes.length + 1) = some (nodes,last) ∧
      last.table.nodes = [] ∧ last.table.nElements = 0 := by
  induction nodes with
  | nil =>
    intro iterated passed allowed stored
    rcases passed.removeNext with ⟨-,removed⟩ | ⟨node,after,-,more,-⟩
    · refine ⟨iterated,?_,stored,?_⟩
      · unfold Iterated.drain
        rw [Iterated.removeNext_ok allowed removed]
      · rw [passed.count,stored]
        rfl
    · rw [stored] at more
      cases more
  | cons head nodes ih =>
    intro iterated passed allowed stored
    rcases passed.removeNext with ⟨empty,-⟩ | ⟨node,after,removed,more,left⟩
    · rw [stored] at empty
      cases empty
    · obtain ⟨rfl,rest⟩ := List.cons.inj (stored.symm.trans more)
      obtain ⟨last,drained,empty,zero⟩ := @ih {iterated with table := after} left allowed rest.symm
      refine ⟨last,?_,empty,zero⟩
      unfold Iterated.drain
      rw [Iterated.removeNext_ok allowed removed]
      show (Iterated.drain (nodes.length + 1) {iterated with table := after}).map _ = _
      rw [drained]
      rfl

end

theorem htAddNode_cases (table : HashTable α) (node : α) :
    (relinks table ∧ htAddNode table node = resize (htPrepend table node)) ∨
      (¬ relinks table ∧ htAddNode table node = htPrepend table node) := by
  have length : (htPrepend table node).chains.length = table.chains.length := Buckets.push_length HashNode.key _ _
  unfold htAddNode relinks
  dsimp only
  rw [length]
  split
  · next more =>
    split
    · next last => exact .inr ⟨fun relinks => relinks.2 last,rfl⟩
    · next other => exact .inl ⟨⟨more,other⟩,rfl⟩
  · next few => exact .inr ⟨fun relinks => few relinks.1,rfl⟩

theorem htAddNode_count (table : HashTable α) (node : α) :
    (htAddNode table node).nElements = (table.nElements + 1) % 2 ^ 32 := by
  rcases htAddNode_cases table node with ⟨-,same⟩ | ⟨-,same⟩ <;> rw [same] <;> rfl

/-- The nodes of a key, in the order in which look-ups meet them. -/
def HashTable.ofKey (table : HashTable α) (key : Nat) : List α := table.nodes.filter (hasKey key)

theorem htPrepend_ofKey (table : HashTable α) (node : α) (key : Nat) : (htPrepend table node).ofKey key =
    if HashNode.key node = key then node :: table.ofKey key else table.ofKey key :=
  Buckets.filter_push HashNode.key table.chains table.nonempty table.placed node key

theorem resize_ofKey (table : HashTable α) (key : Nat) : (resize table).ofKey key = (table.ofKey key).reverse :=
  Buckets.filter_rehash HashNode.key _ (resizedChains_positive _ table.nonempty) table.chains key

theorem htLookup_head (table : HashTable α) (key : Nat) : (htLookup table key).head? = (table.ofKey key).head? :=
  Buckets.head?_seek HashNode.key table.chains table.placed key

theorem htRemove_cases (table : HashTable α) (key : Nat) :
    ((table.ofKey key).head? = none ∧ htRemove table key = (none,table)) ∨
      ∃ node after, htRemove table key = (some node,after) ∧ (table.ofKey key).head? = some node ∧
        table.nodes.Perm (node :: after.nodes) ∧ after.nElements = (table.nElements + (2 ^ 32 - 1)) % 2 ^ 32 ∧
        ∀ other, after.ofKey other = if other = key then (table.ofKey key).tail else table.ofKey other := by
  have first : (Buckets.chainOf table.chains key).find? (fun node => HashNode.key node == key) = (table.ofKey key).head? := by
    unfold HashTable.ofKey HashTable.nodes hasKey
    rw [Buckets.filter_chainOf HashNode.key table.chains table.placed,List.head?_filter]
  unfold htRemove
  cases found : (Buckets.chainOf table.chains key).find? fun node => HashNode.key node == key with
  | none => exact .inl ⟨first.symm.trans found,rfl⟩
  | some node =>
    refine .inr ⟨node,_,rfl,first.symm.trans found,?_,rfl,fun other => ?_⟩
    · exact Buckets.remove_perm HashNode.key table.chains table.nonempty key node found
    · refine (Buckets.filter_remove HashNode.key table.chains table.nonempty table.placed key other).trans ?_
      split
      · next same => rw [same]; rfl
      · rfl

namespace Chronicled

variable {state : Chronicled α}

/-- The chains hold the nodes present, those of one key in the order of the list. -/
structure Kept (state : Chronicled α) : Prop where
  perm : state.iterated.table.nodes.Perm state.present
  order : ∀ key, state.iterated.table.ofKey key = state.present.filter (hasKey key)
  count : state.iterated.table.nElements = state.present.length
  fits : state.present.length < 2 ^ 32

theorem Kept.start : Kept (start : Chronicled α) := by
  have none : (htConstruct : HashTable α).nodes = [] := htConstruct_nodes
  refine ⟨?_,fun key => ?_,rfl,Nat.two_pow_pos 32⟩
  · exact none ▸ .refl _
  · unfold HashTable.ofKey
    exact congrArg _ none

theorem Kept.multimap (kept : Kept state) : Multimap state := by
  refine ⟨fun key => ?_,fun key => ?_,kept.count,?_⟩
  · rw [htLookup_head,kept.order,List.head?_filter]
  · rw [← List.head?_filter,← kept.order]
    rcases htRemove_cases state.iterated.table key with ⟨first,same⟩ | ⟨node,after,same,first,-⟩
    · rw [first]
      exact congrArg Prod.fst same
    · rw [first]
      exact congrArg Prod.fst same
  · have length := kept.perm.length_eq
    have passed : Passed state.iterated.resetIter.table := by
      refine ⟨state.iterated.table.nonempty,fun j below => absurd below (Nat.not_lt_zero j),?_,?_⟩
      · exact kept.count.trans length.symm
      · exact length ▸ kept.fits
    obtain ⟨last,drained,empty,zero⟩ := Passed.drain state.iterated.table.nodes passed rfl rfl
    exact ⟨_,_,last,drained,kept.perm,empty,zero⟩

theorem filter_add (present : List α) (node : α) (key : Nat) : (node :: present).filter (hasKey key) =
    if HashNode.key node = key then node :: present.filter (hasKey key) else present.filter (hasKey key) := by
  rw [List.filter_cons]
  by_cases same : HashNode.key node = key
  · rw [if_pos same,if_pos (hasKey_iff.mpr same)]
  · rw [if_neg same,if_neg fun equal => same (hasKey_iff.mp equal)]

theorem Kept.prepended (kept : Kept state) (node : α) (key : Nat) : (htPrepend state.iterated.table node).ofKey key =
    (node :: state.present).filter (hasKey key) := by
  rw [htPrepend_ofKey,kept.order,filter_add]

theorem Kept.add (kept : Kept state) {node : α} (allowed : state.Allows (.add node)) : Kept (state.step (.add node)) := by
  obtain ⟨fits,distinct⟩ := allowed
  refine ⟨?_,fun key => ?_,?_,fits⟩
  · exact (htAddNode_perm state.iterated.table node).trans (kept.perm.cons node)
  · show (htAddNode state.iterated.table node).ofKey key = _
    rcases htAddNode_cases state.iterated.table node with ⟨relinked,same⟩ | ⟨-,same⟩
    · rw [same,resize_ofKey,kept.prepended]
      -- with distinct keys there is at most one node to turn around
      have single : ((node :: state.present).filter (hasKey key)).Pairwise fun _ _ => False := by
        have pairs := List.pairwise_map.mp (distinct relinked)
        refine (pairs.filter _).imp_of_mem fun left right apart => apart ?_
        rw [hasKey_iff.mp (List.mem_filter.mp left).2,hasKey_iff.mp (List.mem_filter.mp right).2]
      show _ = (node :: state.present).filter _
      generalize (node :: state.present).filter (hasKey key) = nodes at single
      match nodes with
      | [] => rfl
      | [_] => rfl
      | _ :: _ :: _ => exact absurd (List.pairwise_cons.mp single).1 fun none => none _ List.mem_cons_self
    · rw [same]
      exact kept.prepended node key
  · show (htAddNode state.iterated.table node).nElements = state.present.length + 1
    rw [htAddNode_count,kept.count]
    exact Nat.mod_eq_of_lt fits

omit [HashNode α] in
/-- What `List.eraseP` takes is what `List.find?` finds. -/
theorem eraseP_found {p : α → Bool} {present : List α} {node : α} (found : present.find? p = some node) :
    ∃ before after, (∀ other ∈ before, ¬p other = true) ∧ p node = true ∧ present = before ++ node :: after ∧
      present.eraseP p = before ++ after := by
  obtain ⟨holds,before,after,split,none⟩ := List.find?_eq_some_iff_append.mp found
  have apart : ∀ other ∈ before, ¬p other = true := by
    intro other member
    simpa using none other member
  refine ⟨before,after,apart,holds,split,?_⟩
  rw [split,List.eraseP_append_right _ apart,List.eraseP_cons_of_pos holds]

theorem filter_eraseP {present : List α} {key : Nat} {node : α} (found : present.find? (hasKey key) = some node) (other : Nat) :
    (present.eraseP (hasKey key)).filter (hasKey other) =
      if other = key then (present.filter (hasKey key)).tail else present.filter (hasKey other) := by
  obtain ⟨before,after,apart,holds,split,erased⟩ := eraseP_found found
  rw [erased,split,List.filter_append,List.filter_append,List.filter_append]
  split
  · next own =>
    rw [own,List.filter_eq_nil_iff.mpr apart,List.nil_append,List.nil_append,List.filter_cons_of_pos holds,List.tail_cons]
  · next different =>
    have passed : ¬hasKey other node = true := fun again =>
      different ((hasKey_iff.mp again).symm.trans (hasKey_iff.mp holds))
    rw [List.filter_cons_of_neg passed]

theorem Kept.remove (kept : Kept state) (key : Nat) : Kept (state.step (.remove key)) := by
  have wanted : (state.iterated.table.ofKey key).head? = state.present.find? (hasKey key) := by
    rw [kept.order,List.head?_filter]
  rcases htRemove_cases state.iterated.table key with ⟨missing,same⟩ | ⟨node,after,same,first,perm,count,order⟩
  · have stays : state.step (.remove key) = ⟨⟨state.iterated.table,false⟩,state.present⟩ := by
      show (⟨(state.iterated.remove key).2,state.present.eraseP (hasKey key)⟩ : Chronicled α) = _
      unfold Iterated.remove
      rw [same,List.eraseP_of_forall_not (List.find?_eq_none.mp (wanted.symm.trans missing))]
    rw [stays]
    exact ⟨kept.perm,kept.order,kept.count,kept.fits⟩
  · have stays : state.step (.remove key) = ⟨⟨after,false⟩,state.present.eraseP (hasKey key)⟩ := by
      show (⟨(state.iterated.remove key).2,state.present.eraseP (hasKey key)⟩ : Chronicled α) = _
      unfold Iterated.remove
      rw [same]
    have found := wanted.symm.trans first
    obtain ⟨front,back,-,-,split,erased⟩ := eraseP_found found
    have taken : state.present.Perm (node :: state.present.eraseP (hasKey key)) := by
      rw [erased,split]
      exact List.perm_middle
    have length := taken.length_eq
    rw [List.length_cons] at length
    have fits := kept.fits
    have counted := kept.count
    rw [stays]
    refine ⟨?_,fun other => ?_,?_,?_⟩
    · exact (perm.symm.trans (kept.perm.trans taken)).cons_inv
    · show after.ofKey other = (state.present.eraseP (hasKey key)).filter (hasKey other)
      rw [order,filter_eraseP found,kept.order,kept.order]
    · show after.nElements = (state.present.eraseP (hasKey key)).length
      rw [count,counted,length]
      omega
    · show (state.present.eraseP (hasKey key)).length < 2 ^ 32
      omega

theorem Kept.step (kept : Kept state) {call : HashCall α} (allowed : state.Allows call) : Kept (state.step call) := by
  cases call with
  | add node => exact kept.add allowed
  | remove key => exact kept.remove key

end Chronicled

omit [HashNode α] in
private theorem eq_of_ends {nodes : List α} (nodup : nodes.Nodup) (ends : nodes.reverse.head? = nodes.head?) {a b : α}
    (left : a ∈ nodes) (right : b ∈ nodes) : a = b := by
  cases nodes with
  | nil => cases left
  | cons first rest =>
    have alone : rest = [] := by
      by_contra more
      rw [List.head?_reverse,List.getLast?_cons_of_ne_nil more,List.head?_cons] at ends
      exact (List.nodup_cons.mp nodup).1 (List.mem_of_getLast? ends)
    rw [alone,List.mem_singleton] at left right
    exact left.trans right.symm

namespace Chronicled

variable {state : Chronicled α}

theorem Kept.allows (kept : Kept state) {node : α} (nodup : (node :: state.present).Nodup)
    (promise : Multimap (state.step (.add node))) : state.Allows (.add node) := by
  constructor
  · have count := promise.count
    change (htAddNode state.iterated.table node).nElements = state.present.length + 1 at count
    rw [htAddNode_count] at count
    exact count ▸ Nat.mod_lt _ (Nat.two_pow_pos 32)
  · intro relinked
    refine List.Nodup.map_on (fun left inside right inside' same => ?_) nodup
    have lookup := promise.lookup (HashNode.key right)
    change (htLookup (htAddNode state.iterated.table node) _).head? = (node :: state.present).find? _ at lookup
    rcases htAddNode_cases state.iterated.table node with ⟨-,changed⟩ | ⟨stays,-⟩
    · rw [changed,htLookup_head,resize_ofKey,kept.prepended] at lookup
      refine eq_of_ends (nodup.filter _) (lookup.trans List.head?_filter.symm) ?_ ?_
      · exact List.mem_filter.mpr ⟨inside,hasKey_iff.mpr same⟩
      · exact List.mem_filter.mpr ⟨inside',hasKey_iff.mpr rfl⟩
    · exact absurd relinked stays

theorem Allowed.multimap {calls : List (HashCall α)} : ∀ {state : Chronicled α}, Kept state → state.Allowed calls →
    ∀ reached, reached <+: calls → Multimap (state.run reached) := by
  induction calls with
  | nil =>
    intro state kept _ reached inside
    rw [List.prefix_nil.mp inside]
    exact kept.multimap
  | cons call calls ih =>
    intro state kept allowed reached inside
    cases reached with
    | nil => exact kept.multimap
    | cons first reached =>
      obtain ⟨rfl,shorter⟩ := List.cons_prefix_cons.mp inside
      exact ih (kept.step allowed.1) allowed.2 reached shorter

theorem Fresh.allowed {calls : List (HashCall α)} : ∀ {state : Chronicled α}, Kept state → state.present.Nodup →
    state.Fresh calls → (∀ reached, reached <+: calls → Multimap (state.run reached)) → state.Allowed calls := by
  induction calls with
  | nil => exact fun {_} _ _ _ _ => trivial
  | cons call calls ih =>
    intro state kept nodup fresh promise
    have later : ∀ reached, reached <+: calls → Multimap ((state.step call).run reached) := fun reached inside =>
      promise (call :: reached) (List.cons_prefix_cons.mpr ⟨rfl,inside⟩)
    cases call with
    | add node =>
      have distinct : (node :: state.present).Nodup := List.nodup_cons.mpr ⟨fresh.1,nodup⟩
      have allows := kept.allows distinct (later [] List.nil_prefix)
      exact ⟨allows,ih (kept.add allows) distinct fresh.2 later⟩
    | remove key => exact ⟨trivial,ih (kept.remove key) (nodup.sublist List.eraseP_sublist) fresh later⟩

/-- In every run that adds no node while it is in the table, the calls are all allowed exactly
if the table is a multimap with last-in look-up and removal in every state. -/
theorem hash_table_multimap (calls : List (HashCall α)) (fresh : Chronicled.start.Fresh calls) :
    Chronicled.start.Allowed calls ↔ ∀ reached, reached <+: calls → Multimap (Chronicled.start.run reached) :=
  ⟨Allowed.multimap .start,Fresh.allowed .start List.nodup_nil fresh⟩

end Chronicled

namespace Chronicled

instance (state : Chronicled α) : ∀ call : HashCall α, Decidable (state.Allows call)
  | .add _ => instDecidableAnd
  | .remove _ => instDecidableTrue

instance decidableAllowed : ∀ (calls : List (HashCall α)) (state : Chronicled α), Decidable (state.Allowed calls)
  | [],_ => instDecidableTrue
  | call :: calls,state =>
    have := decidableAllowed calls (state.step call)
    instDecidableAnd

instance decidableFresh [DecidableEq α] : ∀ (calls : List (HashCall α)) (state : Chronicled α), Decidable (state.Fresh calls)
  | [],_ => instDecidableTrue
  | .add node :: calls,state =>
    have := decidableFresh calls (state.step (.add node))
    instDecidableAnd
  | .remove key :: calls,state => decidableFresh calls (state.step (.remove key))

end Chronicled

end

structure Named where
  key : Nat
  id : Nat
  deriving DecidableEq

instance : HashNode Named := ⟨Named.key⟩

/-- 54 nodes with different keys, the last of which makes the table grow, and a second node
with the key 7. -/
def growingCalls : List (HashCall Named) := ((List.range 54).map fun key => .add ⟨key,0⟩) ++ [.add ⟨7,1⟩]

/-- `HT_remove` takes the second node, and look-ups then find the first one. -/
theorem growing_table_kept : ((Chronicled.start.run growingCalls).iterated.remove 7).1 = some ⟨7,1⟩ ∧
    (htLookup (Chronicled.start.run (growingCalls ++ [.remove 7])).iterated.table 7).head? = some ⟨7,0⟩ ∧
    ∀ reached, reached <+: growingCalls ++ [.remove 7] → Multimap (Chronicled.start.run reached) := by
  have promise := (Chronicled.hash_table_multimap (growingCalls ++ [.remove 7]) (by decide +kernel)).mp (by decide +kernel)
  refine ⟨?_,?_,promise⟩
  · rw [(promise growingCalls (List.prefix_append _ _)).remove]
    decide +kernel
  · rw [(promise _ (List.prefix_refl _)).lookup]
    decide +kernel

/-- 54 nodes with one key: the last of them makes the table grow, and a look-up finds the first. -/
theorem oldest_node_found : ∃ calls : List (HashCall Named), Chronicled.start.Fresh calls ∧
    (htLookup (Chronicled.start.run calls).iterated.table 0).head? = some ⟨0,0⟩ ∧
    (Chronicled.start.run calls).present.head? = some ⟨0,53⟩ ∧ ¬Multimap (Chronicled.start.run calls) := by
  have found : (htLookup (Chronicled.start.run ((List.range 54).map fun id => .add (⟨0,id⟩ : Named))).iterated.table 0).head? =
      some ⟨0,0⟩ := by decide +kernel
  have newest : (Chronicled.start.run ((List.range 54).map fun id => .add (⟨0,id⟩ : Named))).present.find? (hasKey 0) =
      some ⟨0,53⟩ := by decide +kernel
  refine ⟨(List.range 54).map fun id => .add ⟨0,id⟩,by decide +kernel,found,by decide +kernel,fun promise => ?_⟩
  have same := (found.symm.trans (promise.lookup 0)).trans newest
  exact absurd same (by decide)

end Aprof
