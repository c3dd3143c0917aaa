import Mathlib.Data.List.Basic
import Mathlib.Data.List.Perm.Basic
import Mathlib.Data.List.Flatten

/-! Separate chaining over any key function: chains indexed by the key modulo
their number. A search starts at the first node with the wanted key and walks
the rest of that chain; every operation is a statement about the multiset of
stored nodes, so users of a table never look at its chains. -/
namespace Aprof.Buckets

variable {α : Type} (key : α → Nat)

def Placed (chains : List (List α)) : Prop :=
  ∀ i chain, chains[i]? = some chain → ∀ n ∈ chain, key n % chains.length = i

def push (chains : List (List α)) (n : α) : List (List α) :=
  chains.modify (key n % chains.length) (n :: ·)

def rehash (count : Nat) (chains : List (List α)) : List (List α) :=
  chains.flatten.foldl (push key) (List.replicate count [])

def chainOf (chains : List (List α)) (k : Nat) : List α :=
  (chains[k % chains.length]?).getD []

/-- The chain from the first node whose key is `k`, empty when there is none. -/
def seek (chains : List (List α)) (k : Nat) : List α :=
  (chainOf chains k).dropWhile (fun n => key n != k)

def find (chains : List (List α)) (k : Nat) (wanted : α → Bool) : Option α :=
  (seek key chains k).find? wanted

def modifyFirst (wanted : α → Bool) (f : α → α) : List α → List α
  | [] => []
  | n :: rest => if wanted n then f n :: rest else n :: modifyFirst wanted f rest

/-- In-place change of the node that `find` returns. -/
def update (chains : List (List α)) (k : Nat) (wanted : α → Bool) (f : α → α) : List (List α) :=
  chains.modify (k % chains.length) fun chain =>
    chain.takeWhile (fun n => key n != k) ++
      modifyFirst wanted f (chain.dropWhile (fun n => key n != k))

theorem modify_split (chains : List (List α)) (i : Nat) (f : List α → List α)
    (bound : i < chains.length) :
    ∃ before chain after, chains[i]? = some chain ∧ chains.flatten = before ++ chain ++ after ∧
      (chains.modify i f).flatten = before ++ f chain ++ after := by
  induction chains generalizing i with
  | nil => simp at bound
  | cons head rest ih =>
    cases i with
    | zero => exact ⟨[],head,rest.flatten,by simp,by simp,by simp⟩
    | succ i =>
      obtain ⟨before,chain,after,found,split,changed⟩ := ih i (by simpa using bound)
      refine ⟨head ++ before,chain,after,by simpa using found,?_,?_⟩
      · simp [split,List.append_assoc]
      · simp [changed,List.append_assoc]

@[simp] theorem push_length (chains : List (List α)) (n : α) :
    (push key chains n).length = chains.length := by
  simp [push]

theorem push_perm (chains : List (List α)) (n : α) (nonempty : 0 < chains.length) :
    (push key chains n).flatten.Perm (n :: chains.flatten) := by
  obtain ⟨before,chain,after,_,split,changed⟩ :=
    modify_split chains (key n % chains.length) (n :: ·) (Nat.mod_lt _ nonempty)
  rw [push,changed,split]
  simp [List.append_assoc]

theorem push_placed (chains : List (List α)) (n : α) (placed : Placed key chains) :
    Placed key (push key chains n) := by
  intro i chain found m member
  rw [push_length]
  rw [push,List.getElem?_modify] at found
  cases old : chains[i]? with
  | none => simp [old] at found
  | some previous =>
    simp only [old,Option.map_eq_map,Option.map_some,Option.some.injEq] at found
    subst found
    by_cases same : key n % chains.length = i
    · rw [if_pos same] at member
      rcases List.mem_cons.mp member with rfl | inside
      · exact same
      · exact placed i previous old m inside
    · rw [if_neg same] at member
      exact placed i previous old m member

theorem replicate_placed (count : Nat) : Placed key (List.replicate count ([] : List α)) := by
  intro i chain found m member
  have empty : chain = [] := by
    have := List.mem_of_getElem? found
    exact List.eq_of_mem_replicate this
  simp [empty] at member

private theorem pushAll (nodes : List α) (chains : List (List α))
    (nonempty : 0 < chains.length) (placed : Placed key chains) :
    (nodes.foldl (push key) chains).length = chains.length ∧
      Placed key (nodes.foldl (push key) chains) ∧
      (nodes.foldl (push key) chains).flatten.Perm (nodes ++ chains.flatten) := by
  induction nodes generalizing chains with
  | nil => exact ⟨rfl,placed,List.Perm.refl _⟩
  | cons n rest ih =>
    obtain ⟨length,placed',perm⟩ := ih (push key chains n) (by simpa using nonempty)
      (push_placed key chains n placed)
    refine ⟨by simpa using length,placed',perm.trans ?_⟩
    have step := (push_perm key chains n nonempty).append_left rest
    exact step.trans List.perm_middle

theorem rehash_length (count : Nat) (chains : List (List α)) (positive : 0 < count) :
    (rehash key count chains).length = count := by
  have all := pushAll key chains.flatten (List.replicate count []) (by simpa using positive)
    (replicate_placed key count)
  simpa [rehash] using all.1

theorem rehash_placed (count : Nat) (chains : List (List α)) (positive : 0 < count) :
    Placed key (rehash key count chains) :=
  (pushAll key chains.flatten (List.replicate count []) (by simpa using positive)
    (replicate_placed key count)).2.1

theorem rehash_perm (count : Nat) (chains : List (List α)) (positive : 0 < count) :
    (rehash key count chains).flatten.Perm chains.flatten := by
  have all := (pushAll key chains.flatten (List.replicate count []) (by simpa using positive)
    (replicate_placed key count)).2.2
  have empty : (List.replicate count ([] : List α)).flatten = [] := by simp
  simpa [rehash,empty] using all

theorem chainOf_subset (chains : List (List α)) (k : Nat) : chainOf chains k ⊆ chains.flatten := by
  intro n member
  unfold chainOf at member
  cases found : chains[k % chains.length]? with
  | none => simp [found] at member
  | some chain =>
    simp only [found,Option.getD_some] at member
    exact List.mem_flatten.mpr ⟨chain,List.mem_of_getElem? found,member⟩

theorem mem_chainOf (chains : List (List α)) (placed : Placed key chains) (n : α)
    (member : n ∈ chains.flatten) : n ∈ chainOf chains (key n) := by
  obtain ⟨chain,inside,present⟩ := List.mem_flatten.mp member
  obtain ⟨i,found⟩ := List.mem_iff_getElem?.mp inside
  have index := placed i chain found n present
  simp [chainOf,index,found,present]

theorem find_some (chains : List (List α)) (k : Nat) (wanted : α → Bool) (n : α)
    (found : find key chains k wanted = some n) : n ∈ chains.flatten ∧ wanted n = true := by
  refine ⟨?_,List.find?_some found⟩
  apply chainOf_subset chains k
  exact (List.dropWhile_sublist _).subset (List.mem_of_find?_eq_some found)

theorem mem_seek (chains : List (List α)) (placed : Placed key chains) (n : α)
    (member : n ∈ chains.flatten) : n ∈ seek key chains (key n) := by
  have inChain := mem_chainOf key chains placed n member
  rw [← List.takeWhile_append_dropWhile (p := fun m => key m != key n) (l := chainOf chains (key n))] at inChain
  rcases List.mem_append.mp inChain with skipped | kept
  · have skipping := List.all_takeWhile (p := fun m => key m != key n) (l := chainOf chains (key n))
    have differs := List.all_eq_true.mp skipping n skipped
    simp at differs
  · exact kept

theorem find_first (chains : List (List α)) (k : Nat) (n : α)
    (found : find key chains k (fun _ => true) = some n) : key n = k := by
  unfold find seek at found
  cases walk : (chainOf chains k).dropWhile (fun n => key n != k) with
  | nil =>
    rw [walk] at found
    cases found
  | cons head rest =>
    rw [walk] at found
    cases found
    have stopped := List.head?_dropWhile_not (fun n => key n != k) (chainOf chains k)
    rw [walk] at stopped
    simpa using stopped

theorem modifyFirst_split (wanted : α → Bool) (f : α → α) (chain : List α) (n : α)
    (found : chain.find? wanted = some n) :
    ∃ before after, chain = before ++ n :: after ∧ modifyFirst wanted f chain = before ++ f n :: after := by
  induction chain with
  | nil => simp at found
  | cons head rest ih =>
    by_cases accepted : wanted head
    · have same : head = n := by simpa [List.find?_cons,accepted] using found
      subst same
      exact ⟨[],rest,rfl,by simp [modifyFirst,accepted]⟩
    · obtain ⟨before,after,split,changed⟩ := ih (by simpa [List.find?_cons,accepted] using found)
      exact ⟨head :: before,after,by simp [split],by simp [modifyFirst,accepted,changed]⟩

theorem modifyFirst_none (wanted : α → Bool) (f : α → α) (chain : List α)
    (missing : chain.find? wanted = none) : modifyFirst wanted f chain = chain := by
  induction chain with
  | nil => rfl
  | cons head rest ih =>
    have refused : wanted head = false := by
      simpa using List.find?_eq_none.mp missing head (by simp)
    simp only [modifyFirst,refused,Bool.false_eq_true,if_false]
    rw [ih (by simpa [List.find?_cons,refused] using missing)]

@[simp] theorem update_length (chains : List (List α)) (k : Nat) (wanted : α → Bool) (f : α → α) :
    (update key chains k wanted f).length = chains.length := by
  simp [update]

/-- Exactly the node that `find` returns is replaced. -/
theorem update_split (chains : List (List α)) (nonempty : 0 < chains.length) (k : Nat)
    (wanted : α → Bool) (f : α → α) (n : α) (found : find key chains k wanted = some n) :
    ∃ before after, chains.flatten = before ++ n :: after ∧
      (update key chains k wanted f).flatten = before ++ f n :: after := by
  obtain ⟨before,chain,after,located,split,changed⟩ := modify_split chains (k % chains.length)
    (fun chain => chain.takeWhile (fun n => key n != k) ++
      modifyFirst wanted f (chain.dropWhile (fun n => key n != k))) (Nat.mod_lt _ nonempty)
  have inside : (chain.dropWhile (fun n => key n != k)).find? wanted = some n := by
    simpa [find,seek,chainOf,located] using found
  obtain ⟨left,right,whole,replaced⟩ := modifyFirst_split wanted f _ n inside
  refine ⟨before ++ chain.takeWhile (fun n => key n != k) ++ left,right ++ after,?_,?_⟩
  · conv_lhs => rw [split,← List.takeWhile_append_dropWhile (p := fun n => key n != k) (l := chain),whole]
    simp [List.append_assoc]
  · rw [update,changed,replaced]
    simp [List.append_assoc]

private theorem modifyFirst_same (wanted : α → Bool) (f : α → α) (chain : List α)
    (same : ∀ n, chain.find? wanted = some n → f n = n) : modifyFirst wanted f chain = chain := by
  cases found : chain.find? wanted with
  | none => exact modifyFirst_none wanted f chain found
  | some n =>
    obtain ⟨before,after,split,changed⟩ := modifyFirst_split wanted f chain n found
    rw [changed,same n found,← split]

theorem update_same (chains : List (List α)) (k : Nat) (wanted : α → Bool) (f : α → α)
    (same : ∀ n, find key chains k wanted = some n → f n = n) : update key chains k wanted f = chains := by
  have kept : ∀ chain, chains[k % chains.length]? = some chain →
      chain.takeWhile (fun n => key n != k) ++ modifyFirst wanted f (chain.dropWhile (fun n => key n != k)) = chain := by
    intro chain located
    rw [modifyFirst_same wanted f _ fun n found => same n (by simpa [find,seek,chainOf,located] using found),
      List.takeWhile_append_dropWhile]
  unfold update
  ext i
  rw [List.getElem?_modify]
  split
  · next here =>
    subst here
    cases located : chains[k % chains.length]? with
    | none => rfl
    | some chain => simp [kept chain located]
  · simp

theorem update_none (chains : List (List α)) (nonempty : 0 < chains.length) (k : Nat)
    (wanted : α → Bool) (f : α → α) (missing : find key chains k wanted = none) :
    (update key chains k wanted f).flatten = chains.flatten := by
  obtain ⟨before,chain,after,located,split,changed⟩ := modify_split chains (k % chains.length)
    (fun chain => chain.takeWhile (fun n => key n != k) ++
      modifyFirst wanted f (chain.dropWhile (fun n => key n != k))) (Nat.mod_lt _ nonempty)
  have absent : (chain.dropWhile (fun n => key n != k)).find? wanted = none := by
    simpa [find,seek,chainOf,located] using missing
  rw [update,changed,split,modifyFirst_none wanted f _ absent,List.takeWhile_append_dropWhile]

private theorem modifyFirst_map {β : Type} (g : α → β) (wanted : α → Bool) (f : α → α)
    (keeps : ∀ n, g (f n) = g n) (chain : List α) :
    (modifyFirst wanted f chain).map g = chain.map g := by
  induction chain with
  | nil => rfl
  | cons head rest ih =>
    by_cases accepted : wanted head
    · simp [modifyFirst,accepted,keeps]
    · simp [modifyFirst,accepted,ih]

theorem update_map {β : Type} (chains : List (List α)) (nonempty : 0 < chains.length) (k : Nat) (wanted : α → Bool)
    (f : α → α) (g : α → β) (keeps : ∀ n, g (f n) = g n) :
    (update key chains k wanted f).flatten.map g = chains.flatten.map g := by
  obtain ⟨before,chain,after,_,split,changed⟩ := modify_split chains (k % chains.length)
    (fun chain => chain.takeWhile (fun n => key n != k) ++
      modifyFirst wanted f (chain.dropWhile (fun n => key n != k))) (Nat.mod_lt _ nonempty)
  have kept : (chain.takeWhile (fun n => key n != k) ++
      modifyFirst wanted f (chain.dropWhile (fun n => key n != k))).map g = chain.map g := by
    rw [List.map_append,modifyFirst_map g wanted f keeps,← List.map_append,List.takeWhile_append_dropWhile]
  rw [update,changed,split]
  simp only [List.map_append] at kept ⊢
  rw [kept]

theorem update_placed (chains : List (List α)) (k : Nat) (wanted : α → Bool) (f : α → α)
    (keeps : ∀ n, key (f n) = key n) (placed : Placed key chains) :
    Placed key (update key chains k wanted f) := by
  intro i chain found n member
  rw [update_length]
  rw [update,List.getElem?_modify] at found
  cases old : chains[i]? with
  | none => simp [old] at found
  | some previous =>
    simp only [old,Option.map_eq_map,Option.map_some,Option.some.injEq] at found
    subst found
    by_cases same : k % chains.length = i
    · rw [if_pos same] at member
      have keys : (previous.takeWhile (fun n => key n != k) ++
          modifyFirst wanted f (previous.dropWhile (fun n => key n != k))).map key = previous.map key := by
        rw [List.map_append,modifyFirst_map key wanted f keeps,← List.map_append,
          List.takeWhile_append_dropWhile]
      have present : key n ∈ previous.map key := keys ▸ List.mem_map_of_mem member
      obtain ⟨m,inside,equal⟩ := List.mem_map.mp present
      rw [← equal]
      exact placed i previous old m inside
    · rw [if_neg same] at member
      exact placed i previous old n member

private theorem filter_only (p : α → Bool) (i : Nat) (chains : List (List α))
    (elsewhere : ∀ j chain, chains[j]? = some chain → j ≠ i → chain.filter p = []) :
    chains.flatten.filter p = ((chains[i]?).getD []).filter p := by
  induction chains generalizing i with
  | nil => rfl
  | cons head rest ih =>
    rw [List.flatten_cons,List.filter_append]
    cases i with
    | zero =>
      have others : rest.flatten.filter p = [] := by
        rw [ih rest.length fun j chain found _ => elsewhere (j + 1) chain found (Nat.succ_ne_zero j),
          List.getElem?_eq_none (Nat.le_refl _)]
        rfl
      rw [others,List.append_nil]
      rfl
    | succ i =>
      rw [elsewhere 0 head rfl (Nat.succ_ne_zero i).symm,
        ih i fun j chain found other => elsewhere (j + 1) chain found (fun same => other (Nat.succ.inj same))]
      rfl

theorem filter_chainOf (chains : List (List α)) (placed : Placed key chains) (k : Nat) :
    chains.flatten.filter (fun n => key n == k) = (chainOf chains k).filter fun n => key n == k := by
  refine filter_only _ (k % chains.length) chains fun j chain found other => ?_
  refine List.filter_eq_nil_iff.mpr fun n member same => other ?_
  rw [← placed j chain found n member,eq_of_beq same]

theorem chainOf_modify (chains : List (List α)) (nonempty : 0 < chains.length) (k k' : Nat) (f : List α → List α) :
    chainOf (chains.modify (k % chains.length) f) k' =
      if k' % chains.length = k % chains.length then f (chainOf chains k') else chainOf chains k' := by
  unfold chainOf
  rw [List.length_modify,List.getElem?_modify]
  obtain ⟨chain,found⟩ : ∃ chain, chains[k' % chains.length]? = some chain :=
    ⟨_,List.getElem?_eq_getElem (Nat.mod_lt k' nonempty)⟩
  rw [found]
  split
  · next same => rw [if_pos same.symm]; rfl
  · next other => rw [if_neg (Ne.symm other)]; rfl

theorem filter_push (chains : List (List α)) (nonempty : 0 < chains.length) (placed : Placed key chains) (n : α) (k : Nat) :
    (push key chains n).flatten.filter (fun n => key n == k) =
      if key n = k then n :: chains.flatten.filter (fun n => key n == k) else chains.flatten.filter fun n => key n == k := by
  rw [filter_chainOf key _ (push_placed key chains n placed),filter_chainOf key chains placed,push,
    chainOf_modify chains nonempty]
  by_cases same : key n = k
  · rw [if_pos same,if_pos (by rw [same]),List.filter_cons,if_pos (beq_iff_eq.mpr same)]
  · rw [if_neg same]
    split
    · rw [List.filter_cons,if_neg fun equal => same (eq_of_beq equal)]
    · rfl

private theorem filter_pushAll (nodes : List α) (chains : List (List α)) (nonempty : 0 < chains.length)
    (placed : Placed key chains) (k : Nat) : (nodes.foldl (push key) chains).flatten.filter (fun n => key n == k) =
      (nodes.filter fun n => key n == k).reverse ++ chains.flatten.filter fun n => key n == k := by
  induction nodes generalizing chains with
  | nil => rfl
  | cons n rest ih =>
    rw [List.foldl_cons,ih _ (by rwa [push_length]) (push_placed key chains n placed),
      filter_push key chains nonempty placed,List.filter_cons]
    by_cases same : key n = k
    · rw [if_pos same,if_pos (beq_iff_eq.mpr same),List.reverse_cons,List.append_assoc]
      rfl
    · rw [if_neg same,if_neg fun equal => same (eq_of_beq equal)]

theorem filter_rehash (count : Nat) (positive : 0 < count) (chains : List (List α)) (k : Nat) :
    (rehash key count chains).flatten.filter (fun n => key n == k) =
      (chains.flatten.filter fun n => key n == k).reverse := by
  have all := filter_pushAll key chains.flatten (List.replicate count []) (by simpa using positive)
    (replicate_placed key count) k
  have empty : (List.replicate count ([] : List α)).flatten = [] := by simp
  rwa [empty,List.filter_nil,List.append_nil] at all

theorem head?_seek (chains : List (List α)) (placed : Placed key chains) (k : Nat) :
    (seek key chains k).head? = (chains.flatten.filter fun n => key n == k).head? := by
  rw [filter_chainOf key chains placed,List.head?_filter]
  unfold seek
  induction chainOf chains k with
  | nil => rfl
  | cons n rest ih =>
    rw [List.dropWhile_cons,List.find?_cons]
    cases same : key n == k with
    | true => rw [bne,same]; rfl
    | false => rw [bne,same]; exact ih

def remove (chains : List (List α)) (k : Nat) : List (List α) :=
  chains.modify (k % chains.length) (·.eraseP fun n => key n == k)

@[simp] theorem remove_length (chains : List (List α)) (k : Nat) : (remove key chains k).length = chains.length := by
  simp [remove]

theorem modify_placed (chains : List (List α)) (placed : Placed key chains) (i : Nat) (f : List α → List α)
    (shorter : ∀ chain, f chain ⊆ chain) : Placed key (chains.modify i f) := by
  intro j chain found n member
  rw [List.length_modify]
  rw [List.getElem?_modify] at found
  obtain ⟨old,before,rfl⟩ := Option.map_eq_some_iff.mp found
  refine placed j old before n ?_
  split at member
  · exact shorter old member
  · exact member

theorem remove_placed (chains : List (List α)) (placed : Placed key chains) (k : Nat) : Placed key (remove key chains k) :=
  modify_placed key chains placed _ _ fun _ => List.eraseP_subset

private theorem filter_eraseP_same (p : α → Bool) (chain : List α) : (chain.eraseP p).filter p = (chain.filter p).tail := by
  induction chain with
  | nil => rfl
  | cons n rest ih =>
    rw [List.eraseP_cons,List.filter_cons]
    cases accepted : p n with
    | true => rfl
    | false =>
      rw [cond_false,List.filter_cons,accepted]
      exact ih

private theorem filter_eraseP_other (p q : α → Bool) (apart : ∀ n, p n = true → q n = false) (chain : List α) :
    (chain.eraseP p).filter q = chain.filter q := by
  induction chain with
  | nil => rfl
  | cons n rest ih =>
    rw [List.eraseP_cons,List.filter_cons]
    cases accepted : p n with
    | true => rw [apart n accepted]; rfl
    | false => rw [cond_false,List.filter_cons,ih]

theorem filter_remove (chains : List (List α)) (nonempty : 0 < chains.length) (placed : Placed key chains) (k k' : Nat) :
    (remove key chains k).flatten.filter (fun n => key n == k') =
      if k' = k then (chains.flatten.filter fun n => key n == k').tail else chains.flatten.filter fun n => key n == k' := by
  rw [filter_chainOf key _ (remove_placed key chains placed k),filter_chainOf key chains placed,remove,
    chainOf_modify chains nonempty]
  by_cases same : k' = k
  · subst same
    rw [if_pos rfl,if_pos rfl,filter_eraseP_same]
  · rw [if_neg same]
    split
    · refine filter_eraseP_other _ _ (fun n found => ?_) _
      rw [eq_of_beq found]
      exact beq_eq_false_iff_ne.mpr (Ne.symm same)
    · rfl

theorem remove_perm (chains : List (List α)) (nonempty : 0 < chains.length) (k : Nat) (n : α)
    (found : (chainOf chains k).find? (fun n => key n == k) = some n) :
    chains.flatten.Perm (n :: (remove key chains k).flatten) := by
  obtain ⟨before,chain,after,located,split,changed⟩ := modify_split chains (k % chains.length)
    (·.eraseP fun n => key n == k) (Nat.mod_lt _ nonempty)
  have first : chain.find? (fun n => key n == k) = some n := by
    unfold chainOf at found
    rwa [located] at found
  obtain ⟨accepted,left,right,whole,refused⟩ := List.find?_eq_some_iff_append.mp first
  have erased : chain.eraseP (fun n => key n == k) = left ++ right := by
    rw [whole,List.eraseP_append_right _ fun m member => by simpa using refused m member,List.eraseP_cons_of_pos (p := fun n => key n == k) accepted]
  rw [remove,changed,split,erased,whole,List.append_assoc,List.append_assoc,List.append_assoc,List.append_assoc]
  exact (List.perm_middle.append_left before).trans List.perm_middle

/-- Behind empty chains, the nodes start with those of chain `i`. -/
theorem modify_first {chains : List (List α)} {i : Nat} {chain : List α} (f : List α → List α)
    (found : chains[i]? = some chain) (empty : ∀ j < i, chains[j]? = some []) :
    ∃ rest, chains.flatten = chain ++ rest ∧ (chains.modify i f).flatten = f chain ++ rest := by
  induction chains generalizing i with
  | nil => cases found
  | cons head rest ih =>
    cases i with
    | zero =>
      cases found
      exact ⟨rest.flatten,rfl,rfl⟩
    | succ i =>
      obtain ⟨others,split,changed⟩ := ih found fun j below => empty (j + 1) (Nat.succ_lt_succ below)
      have none : head = [] := Option.some.inj (empty 0 (Nat.succ_pos i))
      refine ⟨others,?_,?_⟩
      · rw [List.flatten_cons,none,split]
        rfl
      · rw [List.modify_succ_cons,List.flatten_cons,none,changed]
        rfl

theorem flatten_empty {chains : List (List α)} (empty : ∀ j < chains.length, chains[j]? = some []) : chains.flatten = [] := by
  refine List.flatten_eq_nil_iff.mpr fun chain member => ?_
  obtain ⟨j,found⟩ := List.mem_iff_getElem?.mp member
  obtain ⟨bound,-⟩ := List.getElem?_eq_some_iff.mp found
  exact Option.some.inj (found.symm.trans (empty j bound))

section
variable {β : Type} {f : α → β} {key' : β → Nat}

def each (f : α → β) (chains : List (List α)) : List (List β) := chains.map (List.map f)

theorem each_length (chains : List (List α)) : (each f chains).length = chains.length := List.length_map _

theorem modify_each (chains : List (List α)) (i : Nat) {change : List β → List β} {change' : List α → List α}
    (same : ∀ chain, change (chain.map f) = (change' chain).map f) :
    (each f chains).modify i change = each f (chains.modify i change') := by
  refine List.ext_getElem? fun j => ?_
  unfold each
  rw [List.getElem?_modify,List.getElem?_map,List.getElem?_map,List.getElem?_modify]
  cases chains[j]? with
  | none => rfl
  | some chain =>
    simp only [Option.map_eq_map,Option.map_some]
    split
    · rw [same]
    · rfl

variable (keeps : ∀ n, key' (f n) = key n)
include keeps

theorem push_each (chains : List (List α)) (n : α) : push key' (each f chains) (f n) = each f (push key chains n) := by
  unfold push
  rw [each_length,keeps]
  exact modify_each chains _ fun chain => rfl

theorem rehash_each (count : Nat) (chains : List (List α)) : rehash key' count (each f chains) = each f (rehash key count chains) := by
  have pushed (nodes : List α) : ∀ chains : List (List α),
      (nodes.map f).foldl (push key') (each f chains) = each f (nodes.foldl (push key) chains) := by
    induction nodes with
    | nil =>
      intro chains
      rfl
    | cons n nodes ih =>
      intro chains
      rw [List.map_cons,List.foldl_cons,List.foldl_cons,push_each key keeps,ih]
  have empty : List.replicate count [] = each f (List.replicate count []) := by
    unfold each
    rw [List.map_replicate]
    rfl
  have all : (each f chains).flatten = chains.flatten.map f := List.map_flatten.symm
  unfold rehash
  rw [all,empty,pushed]

theorem keyed_each (k : Nat) : (fun n => key' n != k) ∘ f = fun n => key n != k := by
  funext n
  rw [Function.comp_apply,keeps]

theorem seek_each (chains : List (List α)) (k : Nat) : seek key' (each f chains) k = (seek key chains k).map f := by
  have chain : chainOf (each f chains) k = (chainOf chains k).map f := by
    unfold chainOf
    rw [each_length]
    unfold each
    rw [List.getElem?_map]
    cases chains[k % chains.length]? <;> rfl
  unfold seek
  rw [chain,List.dropWhile_map,keyed_each key keeps]

omit keeps in
theorem modifyFirst_each {wanted : α → Bool} {wanted' : β → Bool} {change : β → β} {change' : α → α}
    (same : ∀ n, wanted' (f n) = wanted n) (changes : ∀ n, change (f n) = f (change' n)) (chain : List α) :
    modifyFirst wanted' change (chain.map f) = (modifyFirst wanted change' chain).map f := by
  induction chain with
  | nil => rfl
  | cons n chain ih =>
    rw [List.map_cons,modifyFirst,modifyFirst,same]
    split
    · rw [changes]
      rfl
    · rw [ih]
      rfl

theorem update_each (chains : List (List α)) (k : Nat) {wanted : α → Bool} {wanted' : β → Bool} {change : β → β} {change' : α → α}
    (same : ∀ n, wanted' (f n) = wanted n) (changes : ∀ n, change (f n) = f (change' n)) :
    update key' (each f chains) k wanted' change = each f (update key chains k wanted change') := by
  unfold update
  rw [each_length]
  refine modify_each chains _ fun chain => ?_
  rw [List.takeWhile_map,List.dropWhile_map,keyed_each key keeps,modifyFirst_each same changes,List.map_append]

end

end Aprof.Buckets
