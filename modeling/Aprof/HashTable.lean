import Aprof.General.Buckets
import Mathlib.Algebra.Group.Nat.Defs
import Mathlib.Data.List.Nodup

/-! The separately chained hash table of `hashtable/hashtable.c`. A table
carries the placement of its nodes, so every value of the type is one that
`HT_construct`, `HT_add_node` and the in-place updates can build. Callers always
pass a node's own key to `HT_add_node`; the key is therefore read from the node. -/
namespace Aprof

class HashNode (α : Type) where
  key : α → Nat

structure HashTable (α : Type) [HashNode α] where
  chains : List (List α)
  nElements : Nat
  iterChain : Nat
  nonempty : 0 < chains.length
  placed : Buckets.Placed HashNode.key chains

def primes : List Nat := [53,97,193,389,769,1543,3079,6151,12289,24593,49157,98317,196613,393241,
  786433,1572869,3145739,6291469,12582917,25165843,50331653,100663319,201326611,402653189]

section
variable {α : Type} [HashNode α]

/-- Every node stored, in the order of the chains. -/
def HashTable.nodes (table : HashTable α) : List α := table.chains.flatten

def htConstruct : HashTable α where
  chains := List.replicate 53 []
  nElements := 0
  iterChain := 0
  nonempty := by simp
  placed := Buckets.replicate_placed HashNode.key 53

/-- The number of chains that `resize` goes to: the next prime above the old
number plus one, or the old number when the primes are used up. -/
def resizedChains (old : Nat) : Nat :=
  if old = 402653189 then old else (primes.find? (old + 1 < ·)).getD (old + 1)

theorem resizedChains_positive (old : Nat) (positive : 0 < old) : 0 < resizedChains old := by
  unfold resizedChains
  split
  · exact positive
  · cases found : primes.find? (old + 1 < ·) with
    | none => simp
    | some prime =>
      have larger := List.find?_some found
      simp only [decide_eq_true_eq] at larger
      simp only [Option.getD_some]
      omega

def resize (table : HashTable α) : HashTable α where
  chains := Buckets.rehash HashNode.key (resizedChains table.chains.length) table.chains
  nElements := table.nElements
  iterChain := table.iterChain
  nonempty := by
    rw [Buckets.rehash_length _ _ _ (resizedChains_positive _ table.nonempty)]
    exact resizedChains_positive _ table.nonempty
  placed := Buckets.rehash_placed _ _ _ (resizedChains_positive _ table.nonempty)

def htPrepend (table : HashTable α) (node : α) : HashTable α where
  chains := Buckets.push HashNode.key table.chains node
  nElements := (table.nElements + 1) % 2 ^ 32
  iterChain := table.iterChain
  nonempty := by simpa using table.nonempty
  placed := Buckets.push_placed HashNode.key table.chains node table.placed

/-- `HT_add_node`. `resize` leaves the table alone at the last prime. -/
def htAddNode (table : HashTable α) (node : α) : HashTable α :=
  let added := htPrepend table node
  if added.nElements > added.chains.length then
    if added.chains.length = 402653189 then added else resize added
  else added

/-- `HT_lookup`: the chain from the node found on, `[]` for `NULL`; the rest of
the chain is what callers reach through `next`. -/
def htLookup (table : HashTable α) (key : Nat) : List α :=
  Buckets.seek HashNode.key table.chains key

/-- `HT_lookup` followed by the callers' walk along `next` to a wanted node. -/
def htFind (table : HashTable α) (key : Nat) (wanted : α → Bool) : Option α :=
  (htLookup table key).find? wanted

/-- A write through the node pointer that `htFind` returns. -/
def htUpdate (table : HashTable α) (key : Nat) (wanted : α → Bool) (f : α → α)
    (keeps : ∀ n, HashNode.key (f n) = HashNode.key n) : HashTable α where
  chains := Buckets.update HashNode.key table.chains key wanted f
  nElements := table.nElements
  iterChain := table.iterChain
  nonempty := by simpa using table.nonempty
  placed := Buckets.update_placed HashNode.key table.chains key wanted f keeps table.placed

@[simp] theorem htConstruct_nodes : (htConstruct : HashTable α).nodes = [] := by
  simp [htConstruct,HashTable.nodes]

theorem htAddNode_perm (table : HashTable α) (node : α) :
    (htAddNode table node).nodes.Perm (node :: table.nodes) := by
  have added : (htPrepend table node).nodes.Perm (node :: table.nodes) :=
    Buckets.push_perm HashNode.key table.chains node table.nonempty
  unfold htAddNode
  dsimp only
  split
  · split
    · exact added
    · exact (Buckets.rehash_perm _ _ _ (resizedChains_positive _ (htPrepend table node).nonempty)).trans added
  · exact added

theorem mem_htAddNode {table : HashTable α} {node other : α} :
    other ∈ (htAddNode table node).nodes ↔ other = node ∨ other ∈ table.nodes := by
  rw [(htAddNode_perm table node).mem_iff,List.mem_cons]

theorem htFind_some {table : HashTable α} {key : Nat} {wanted : α → Bool} {node : α}
    (found : htFind table key wanted = some node) : node ∈ table.nodes ∧ wanted node = true :=
  Buckets.find_some HashNode.key table.chains key wanted node found

theorem htFind_missing {table : HashTable α} {key : Nat} {wanted : α → Bool} (missing : htFind table key wanted = none)
    {node : α} (member : node ∈ table.nodes) (keyed : HashNode.key node = key) : ¬wanted node = true :=
  List.find?_eq_none.mp missing node (keyed ▸ Buckets.mem_seek HashNode.key table.chains table.placed node member)

theorem htUpdate_split {table : HashTable α} {key : Nat} {wanted : α → Bool} {f : α → α}
    {keeps : ∀ n, HashNode.key (f n) = HashNode.key n} {node : α}
    (found : htFind table key wanted = some node) :
    ∃ before after, table.nodes = before ++ node :: after ∧
      (htUpdate table key wanted f keeps).nodes = before ++ f node :: after :=
  Buckets.update_split HashNode.key table.chains table.nonempty key wanted f node found

theorem htUpdate_same {table : HashTable α} {key : Nat} {wanted : α → Bool} {f : α → α}
    {keeps : ∀ n, HashNode.key (f n) = HashNode.key n} (same : ∀ n, htFind table key wanted = some n → f n = n) :
    htUpdate table key wanted f keeps = table := by
  have chains := Buckets.update_same HashNode.key table.chains key wanted f same
  unfold htUpdate
  congr

/-- No two nodes have the same key: callers look a key up before they add a node. -/
def HashTable.Keyed (table : HashTable α) : Prop := (table.nodes.map HashNode.key).Nodup

theorem htConstruct_keyed : (htConstruct : HashTable α).Keyed := by
  unfold HashTable.Keyed
  rw [htConstruct_nodes]
  exact List.nodup_nil

theorem htFind_project {β : Type} {table : HashTable α} (keyed : table.Keyed) (project : α → β) (key : Nat) (value : β) :
    (htFind table key fun _ => true).map project = some value ↔
      (key,value) ∈ table.nodes.map fun node => (HashNode.key node,project node) := by
  constructor
  · intro found
    obtain ⟨node,first,rfl⟩ := Option.map_eq_some_iff.mp found
    rw [← Buckets.find_first HashNode.key table.chains key node first]
    exact List.mem_map_of_mem (htFind_some first).1
  · intro member
    obtain ⟨node,inside,pair⟩ := List.mem_map.mp member
    cases pair
    cases first : htFind table (HashNode.key node) fun _ => true with
    | none =>
      have none := List.find?_eq_none.mp first node (Buckets.mem_seek HashNode.key table.chains table.placed node inside)
      exact absurd rfl none
    | some other =>
      have same := Buckets.find_first HashNode.key table.chains _ other first
      have equal := List.inj_on_of_nodup_map keyed (htFind_some first).1 inside same
      rw [equal]
      rfl

theorem htFind_absent {table : HashTable α} {key : Nat} (missing : htFind table key (fun _ => true) = none) :
    key ∉ table.nodes.map HashNode.key := by
  intro member
  obtain ⟨node,inside,rfl⟩ := List.mem_map.mp member
  have none := List.find?_eq_none.mp missing node (Buckets.mem_seek HashNode.key table.chains table.placed node inside)
  exact absurd rfl none

theorem HashTable.Keyed.add {table : HashTable α} (keyed : table.Keyed) {node : α}
    (fresh : HashNode.key node ∉ table.nodes.map HashNode.key) : (htAddNode table node).Keyed := by
  have perm := (htAddNode_perm table node).map HashNode.key
  exact perm.nodup_iff.mpr (List.nodup_cons.mpr ⟨fresh,keyed⟩)

theorem htUpdate_map {β : Type} (table : HashTable α) (key : Nat) (wanted : α → Bool) (f : α → α)
    (keeps : ∀ n, HashNode.key (f n) = HashNode.key n) (project : α → β) (stable : ∀ n, project (f n) = project n) :
    (htUpdate table key wanted f keeps).nodes.map project = table.nodes.map project :=
  Buckets.update_map HashNode.key table.chains table.nonempty key wanted f project stable

theorem HashTable.Keyed.update {table : HashTable α} (keyed : table.Keyed) (key : Nat) (wanted : α → Bool) (f : α → α)
    (keeps : ∀ n, HashNode.key (f n) = HashNode.key n) : (htUpdate table key wanted f keeps).Keyed := by
  unfold HashTable.Keyed
  rw [htUpdate_map table key wanted f keeps HashNode.key keeps]
  exact keyed

theorem htUpdate_project {β : Type} {table : HashTable α} (keyed : table.Keyed) (key : Nat) (wanted : α → Bool) (f : α → α)
    (keeps : ∀ n, HashNode.key (f n) = HashNode.key n) (project : α → β) (stable : ∀ n, project (f n) = project n)
    (other : Nat) : (htFind (htUpdate table key wanted f keeps) other fun _ => true).map project =
      (htFind table other fun _ => true).map project := by
  ext value
  rw [htFind_project (keyed.update key wanted f keeps),htFind_project keyed,
    htUpdate_map table key wanted f keeps _ fun n => by rw [keeps,stable]]

theorem htUpdate_map_found {β : Type} {table : HashTable α} {key : Nat} {wanted : α → Bool} {f : α → α}
    {keeps : ∀ n, HashNode.key (f n) = HashNode.key n} {node : α} (found : htFind table key wanted = some node)
    (project : α → β) (stable : project (f node) = project node) :
    (htUpdate table key wanted f keeps).nodes.map project = table.nodes.map project := by
  obtain ⟨before,after,split,changed⟩ := @htUpdate_split _ _ _ _ _ f keeps _ found
  rw [changed,split,List.map_append,List.map_append,List.map_cons,List.map_cons,stable]

theorem htFind_update {table : HashTable α} (keyed : table.Keyed) (key : Nat) (f : α → α)
    (keeps : ∀ n, HashNode.key (f n) = HashNode.key n) (other : Nat) :
    htFind (htUpdate table key (fun _ => true) f keeps) other (fun _ => true) =
      if other = key then (htFind table key fun _ => true).map f else htFind table other fun _ => true := by
  have updated := keyed.update key (fun _ => true) f keeps
  have look : ∀ (table : HashTable α), table.Keyed → ∀ k node, htFind table k (fun _ => true) = some node ↔
      node ∈ table.nodes ∧ HashNode.key node = k := by
    intro table keyed k node
    have project := htFind_project keyed id k node
    rw [Option.map_id,id_eq] at project
    rw [project,List.mem_map]
    constructor
    · rintro ⟨_,member,same⟩
      cases same
      exact ⟨member,rfl⟩
    · rintro ⟨member,rfl⟩
      exact ⟨node,member,rfl⟩
  cases found : htFind table key fun _ => true with
  | none =>
    have nodes : (htUpdate table key (fun _ => true) f keeps).nodes = table.nodes :=
      Buckets.update_none HashNode.key table.chains table.nonempty key _ f found
    have same : htFind (htUpdate table key (fun _ => true) f keeps) other (fun _ => true) =
        htFind table other fun _ => true := by
      ext node
      rw [look _ updated,look _ keyed,nodes]
    rw [same]
    split
    · next equal => rw [equal,found,Option.map_none]
    · rfl
  | some node =>
    obtain ⟨before,after,split,changed⟩ := @htUpdate_split _ _ _ _ _ f keeps _ found
    have first := Buckets.find_first HashNode.key table.chains key node found
    split
    · next equal =>
      rw [Option.map_some,look _ updated,changed,equal,keeps,first]
      exact ⟨by simp,rfl⟩
    · next different =>
      ext value
      rw [look _ updated,look _ keyed,changed,split]
      simp only [List.mem_append,List.mem_cons]
      constructor
      · rintro ⟨inside | rfl | inside,rfl⟩
        · exact ⟨Or.inl inside,rfl⟩
        · exact absurd ((keeps node).trans first) different
        · exact ⟨Or.inr (Or.inr inside),rfl⟩
      · rintro ⟨inside | rfl | inside,rfl⟩
        · exact ⟨Or.inl inside,rfl⟩
        · exact absurd first different
        · exact ⟨Or.inr (Or.inr inside),rfl⟩

theorem htAddNode_project {β : Type} {table : HashTable α} (keyed : table.Keyed) {node : α}
    (fresh : HashNode.key node ∉ table.nodes.map HashNode.key) (project : α → β) (key : Nat) :
    (htFind (htAddNode table node) key fun _ => true).map project =
      if key = HashNode.key node then some (project node) else (htFind table key fun _ => true).map project := by
  ext value
  rw [htFind_project (keyed.add fresh),((htAddNode_perm table node).map _).mem_iff,List.map_cons,List.mem_cons,
    Prod.mk.injEq]
  split
  · next same =>
    subst same
    have absent : (HashNode.key node,value) ∉ table.nodes.map fun n => (HashNode.key n,project n) := by
      intro member
      obtain ⟨other,inside,pair⟩ := List.mem_map.mp member
      exact fresh (List.mem_map.mpr ⟨other,inside,congrArg Prod.fst pair⟩)
    simp only [true_and,absent,or_false,Option.some.injEq]
    exact eq_comm
  · next different =>
    rw [htFind_project keyed]
    simp only [different,false_and,false_or]

/-- The nodes have different names, and each is stored under the hash of its name. -/
structure HashTable.Named {β : Type} (name : α → β) (hash : β → Nat) (table : HashTable α) : Prop where
  nodup : (table.nodes.map name).Nodup
  hashed : ∀ node ∈ table.nodes, HashNode.key node = hash (name node)

section
variable {β : Type} {name : α → β} {hash : β → Nat} {table : HashTable α}

theorem HashTable.Named.congr {other : HashTable α} (named : table.Named name hash)
    (same : other.nodes.map (fun node => (HashNode.key node,name node)) =
      table.nodes.map fun node => (HashNode.key node,name node)) : other.Named name hash := by
  constructor
  · have names := congrArg (List.map Prod.snd) same
    rw [List.map_map,List.map_map] at names
    exact (congrArg List.Nodup names).mpr named.nodup
  · intro node member
    have inside := List.mem_map_of_mem (f := fun node => (HashNode.key node,name node)) member
    rw [same] at inside
    obtain ⟨old,present,same⟩ := List.mem_map.mp inside
    have hashed := named.hashed old present
    rw [(Prod.mk.inj same).1,(Prod.mk.inj same).2] at hashed
    exact hashed

theorem HashTable.Named.update (named : table.Named name hash) (key : Nat) (wanted : α → Bool) (f : α → α)
    (keeps : ∀ n, HashNode.key (f n) = HashNode.key n) (names : ∀ n, name (f n) = name n) :
    (htUpdate table key wanted f keeps).Named name hash :=
  named.congr (htUpdate_map table key wanted f keeps _ fun n => by rw [keeps,names])

variable [BEq β] [LawfulBEq β]

theorem htFind_named (named : table.Named name hash) (wanted : β) (node : α) :
    htFind table (hash wanted) (fun node => name node == wanted) = some node ↔ node ∈ table.nodes ∧ name node = wanted := by
  constructor
  · intro found
    obtain ⟨member,same⟩ := htFind_some found
    exact ⟨member,eq_of_beq same⟩
  · rintro ⟨member,rfl⟩
    cases found : htFind table (hash (name node)) fun other => name other == name node with
    | none => exact absurd (beq_self_eq_true (name node)) (htFind_missing found member (named.hashed node member))
    | some other =>
      obtain ⟨inside,same⟩ := htFind_some found
      rw [List.inj_on_of_nodup_map named.nodup inside member (eq_of_beq same)]

theorem htFind_named_update (named : table.Named name hash) (wanted : β) (f : α → α)
    (keeps : ∀ n, HashNode.key (f n) = HashNode.key n) (names : ∀ n, name (f n) = name n) (other : β) [Decidable (other = wanted)] :
    htFind (htUpdate table (hash wanted) (fun node => name node == wanted) f keeps) (hash other) (fun node => name node == other) =
      if other = wanted then (htFind table (hash wanted) fun node => name node == wanted).map f
      else htFind table (hash other) fun node => name node == other := by
  have updated := named.update (hash wanted) (fun node => name node == wanted) f keeps names
  cases found : htFind table (hash wanted) fun node => name node == wanted with
  | none =>
    have nodes : (htUpdate table (hash wanted) (fun node => name node == wanted) f keeps).nodes = table.nodes :=
      Buckets.update_none HashNode.key table.chains table.nonempty (hash wanted) _ f found
    have same : htFind (htUpdate table (hash wanted) (fun node => name node == wanted) f keeps) (hash other)
        (fun node => name node == other) = htFind table (hash other) fun node => name node == other := by
      ext node
      rw [htFind_named updated,htFind_named named,nodes]
    rw [same]
    split
    · next equal => rw [equal,found,Option.map_none]
    · rfl
  | some node =>
    obtain ⟨before,after,split,changed⟩ := @htUpdate_split _ _ _ _ _ f keeps _ found
    have own : name node = wanted := eq_of_beq (htFind_some found).2
    split
    · next equal =>
      rw [Option.map_some,htFind_named updated,changed,names,equal]
      exact ⟨by simp,own⟩
    · next different =>
      have apart : name node ≠ other := fun same => different (same.symm.trans own)
      have apart' : name (f node) ≠ other := (names node).symm ▸ apart
      ext value
      rw [htFind_named updated,htFind_named named,changed,split]
      simp only [List.mem_append,List.mem_cons]
      refine and_congr_left fun same => or_congr_right (or_congr_left ?_)
      exact ⟨fun equal => absurd (equal ▸ same) apart',fun equal => absurd (equal ▸ same) apart⟩

theorem HashTable.Named.add (named : table.Named name hash) {node : α} (hashed : HashNode.key node = hash (name node))
    (missing : htFind table (hash (name node)) (fun other => name other == name node) = none) :
    (htAddNode table node).Named name hash := by
  have perm := (htAddNode_perm table node).map name
  constructor
  · refine perm.nodup_iff.mpr (List.nodup_cons.mpr ⟨fun member => ?_,named.nodup⟩)
    obtain ⟨other,inside,same⟩ := List.mem_map.mp member
    have found := (htFind_named named (name node) other).mpr ⟨inside,same⟩
    exact absurd (missing.symm.trans found) nofun
  · intro other member
    rcases mem_htAddNode.mp member with rfl | inside
    · exact hashed
    · exact named.hashed other inside

theorem htFind_named_add (named : table.Named name hash) {node : α} (hashed : HashNode.key node = hash (name node))
    (missing : htFind table (hash (name node)) (fun other => name other == name node) = none) (other : β)
    [Decidable (other = name node)] : htFind (htAddNode table node) (hash other) (fun node => name node == other) =
      if other = name node then some node else htFind table (hash other) fun node => name node == other := by
  have added := named.add hashed missing
  split
  · next equal => exact (htFind_named added other node).mpr ⟨mem_htAddNode.mpr (.inl rfl),equal.symm⟩
  · next different =>
    ext value
    rw [htFind_named added,htFind_named named,mem_htAddNode]
    refine and_congr_left fun same => ⟨fun inside => inside.resolve_left fun equal => ?_,.inr⟩
    exact different (same.symm.trans (congrArg name equal))

end

end

end Aprof
