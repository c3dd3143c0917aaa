import Aprof.General.Lockstep
import Mathlib.Data.List.Perm.Basic
import Mathlib.Data.List.ReduceOption

/-! A loop that walks around an array until it is empty. On every round the first element
leads, the later ones may join it, and at the end of the round the group is gone. -/
namespace Aprof

structure Scan (ε S A : Type) where
  lead : A → S → Except ε S
  join : A → A → S → Except ε (Bool × S)
  close : A → S → Except ε S

/-- The variables of the loop; `curr` points to the leader. -/
structure Scanning (S A : Type) where
  list : List (Option A)
  i : Nat
  curr : Option (Nat × A)
  state : S

namespace Scan

section
variable {ε S A : Type} (scan : Scan ε S A)

def visit (s : Scanning S A) : Except ε (Scanning S A) :=
  match s.list[s.i]?.join with
  | none => .ok s
  | some a =>
    match s.curr with
    | none => do
      let state ← scan.lead a s.state
      .ok {s with curr := some (s.i,a), state := state}
    | some (_,leader) => do
      let (joined,state) ← scan.join leader a s.state
      .ok {s with list := if joined then s.list.set s.i none else s.list, state := state}

/-- On to the next element; at the end of the array the group is closed, or the loop ends. -/
def next (s : Scanning S A) : Except ε (Scanning S A ⊕ S) :=
  if s.i + 1 = s.list.length then
    match s.curr with
    | none => .ok (.inr s.state)
    | some (curr,leader) => do
      let state ← scan.close leader s.state
      .ok (.inl ⟨s.list.set curr none,(s.i + 1) % s.list.length,none,state⟩)
  else .ok (.inl {s with i := (s.i + 1) % s.list.length})

def loop : Nat → Scanning S A → Except ε (Option S)
  | 0, _ => .ok none
  | fuel + 1, s => do
    let s ← scan.visit s
    match ← scan.next s with
    | .inl s => loop fuel s
    | .inr state => .ok (some state)

structure Split (rest : List A) where
  joined : List A
  left : List A
  joins : joined.Sublist rest
  stays : left.Sublist rest
  all : (joined ++ left).Perm rest

namespace Split
variable {rest : List A}

def empty : Split ([] : List A) := ⟨[],[],.slnil,.slnil,.nil⟩

def add (a : A) (joined : Bool) (split : Split rest) : Split (a :: rest) :=
  match joined with
  | true => ⟨a :: split.joined,split.left,split.joins.cons_cons a,split.stays.cons a,split.all.cons a⟩
  | false => ⟨split.joined,a :: split.left,split.joins.cons a,split.stays.cons_cons a,List.perm_middle.trans (split.all.cons a)⟩

def choose (goes : A → Bool) (rest : List A) : Split rest where
  joined := rest.filter goes
  left := rest.filter fun a => !goes a
  joins := List.filter_sublist
  stays := List.filter_sublist
  all := List.filter_append_perm goes rest

end Split

def follow (leader : A) : (rest : List A) → S → Except ε (Split rest × S)
  | [], state => .ok (.empty,state)
  | a :: rest, state => do
    let (joined,state) ← scan.join leader a state
    let (split,state) ← follow leader rest state
    .ok (split.add a joined,state)

/-- The plain way: one group after the other, each with its leader. -/
def groups : List A → S → Except ε (List (A × List A) × S)
  | [], state => .ok ([],state)
  | leader :: rest, state => do
    let state ← scan.lead leader state
    let (split,state) ← scan.follow leader rest state
    let state ← scan.close leader state
    let (groups,state) ← groups split.left state
    .ok ((leader,split.joined) :: groups,state)
termination_by list => list.length
decreasing_by exact Nat.lt_succ_of_le split.stays.length_le

variable {scan}

def after (scan : Scan ε S A) (fuel : Nat) : Scanning S A ⊕ S → Except ε (Option S)
  | .inl s => scan.loop fuel s
  | .inr state => .ok (some state)

theorem loop_turn (fuel : Nat) (s : Scanning S A) :
    scan.loop (fuel + 1) s = scan.visit s >>= fun s => scan.next s >>= scan.after fuel := by
  rw [loop]
  rfl

section
variable {list : List (Option A)} {i : Nat} {state : S} {fuel : Nat}

theorem next_inside {curr : Option (Nat × A)} (inside : i + 1 < list.length) :
    scan.next ⟨list,i,curr,state⟩ >>= scan.after fuel = scan.loop fuel ⟨list,i + 1,curr,state⟩ := by
  unfold next
  rw [if_neg (Nat.ne_of_lt inside)]
  show scan.loop fuel ⟨list,(i + 1) % list.length,curr,state⟩ = _
  rw [Nat.mod_eq_of_lt inside]

theorem next_close {c : Nat} {leader : A} (last : i + 1 = list.length) :
    scan.next ⟨list,i,some (c,leader),state⟩ >>= scan.after fuel =
      scan.close leader state >>= fun state => scan.loop fuel ⟨list.set c none,0,none,state⟩ := by
  have start : (i + 1) % list.length = 0 := by rw [last,Nat.mod_self]
  unfold next
  rw [if_pos last]
  dsimp only
  rw [start]
  cases scan.close leader state <;> rfl

theorem next_end (last : i + 1 = list.length) :
    scan.next ⟨list,i,none,state⟩ >>= scan.after fuel = .ok (some state) := by
  unfold next
  rw [if_pos last]
  rfl

end

section
variable {before rest : List (Option A)} {a : A} {state : S}

theorem here (slot : Option A) : (before ++ slot :: rest)[before.length]?.join = slot := by
  rw [List.getElem?_append_right (Nat.le_refl _),Nat.sub_self]
  rfl

theorem visit_gap (curr : Option (Nat × A)) :
    scan.visit ⟨before ++ none :: rest,before.length,curr,state⟩ = .ok ⟨before ++ none :: rest,before.length,curr,state⟩ := by
  unfold visit
  simp only [here]

theorem visit_lead : scan.visit ⟨before ++ some a :: rest,before.length,none,state⟩ =
    scan.lead a state >>= fun state => .ok ⟨before ++ some a :: rest,before.length,some (before.length,a),state⟩ := by
  unfold visit
  simp only [here]

theorem visit_join {c : Nat} {leader : A} : scan.visit ⟨before ++ some a :: rest,before.length,some (c,leader),state⟩ =
    scan.join leader a state >>= fun (joined,state) =>
      .ok ⟨before ++ (if joined then none else some a) :: rest,before.length,some (c,leader),state⟩ := by
  unfold visit
  simp only [here]
  congr 1
  funext ⟨joined,state⟩
  cases joined
  · rfl
  · simp [List.set_append_right]

end

/-- A round from a turn on that has a leader: `c` is its place, and its group is what `follow` finds in the rest. -/
theorem next_follows {leader : A} {c fuel : Nat} (rest : List (Option A)) : ∀ {before : List (Option A)} {i : Nat} {state : S}
    {found : Split rest.reduceOption × S → Except ε (Option S)}, i + 1 = before.length → c < before.length →
      (∀ (list : List (Option A)) split state, list.length = before.length + rest.length →
        list.reduceOption = (before.set c none).reduceOption ++ split.left →
        (scan.close leader state >>= fun state => scan.loop fuel ⟨list,0,none,state⟩) = found (split,state)) →
      scan.next ⟨before ++ rest,i,some (c,leader),state⟩ >>= scan.after (rest.length + fuel) =
        scan.follow leader rest.reduceOption state >>= found := by
  induction rest with
  | nil =>
    intro before i state found place below ends
    rw [List.append_nil,next_close place,List.length_nil,Nat.zero_add]
    exact ends _ .empty _ List.length_set (List.append_nil _).symm
  | cons slot rest ih =>
    intro before i state found place below ends
    have inside : i + 1 < (before ++ slot :: rest).length := by
      rw [List.length_append,List.length_cons,place]
      omega
    -- the next element, of which the visit leaves `slot'`
    have turn (slot' : Option A) (state : S) {found : Split rest.reduceOption × S → Except ε (Option S)}
        (ends : ∀ (list : List (Option A)) split state, list.length = before.length + (rest.length + 1) →
          list.reduceOption = (before.set c none).reduceOption ++ (slot'.toList ++ split.left) →
          (scan.close leader state >>= fun state => scan.loop fuel ⟨list,0,none,state⟩) = found (split,state)) :
        scan.next ⟨before ++ slot' :: rest,before.length,some (c,leader),state⟩ >>= scan.after (rest.length + fuel) =
          scan.follow leader rest.reduceOption state >>= found := by
      have length : before.length + 1 = (before ++ [slot']).length := by rw [List.length_append,List.length_singleton]
      have cleared : (before ++ [slot']).set c none = before.set c none ++ [slot'] := List.set_append_left _ _ below
      rw [List.append_cons]
      refine ih length (length ▸ Nat.lt_succ_of_lt below) fun list split state size entries => ends list split state ?_ ?_
      · rw [size,← length,Nat.add_assoc,Nat.add_comm 1]
      · rw [entries,cleared,List.reduceOption_append,List.reduceOption_singleton,List.append_assoc]
    rw [next_inside inside,place,List.length_cons,Nat.add_right_comm,loop_turn]
    cases slot with
    | none =>
      rw [visit_gap]
      exact turn none state ends
    | some a =>
      rw [visit_join]
      change _ = scan.follow leader (a :: rest.reduceOption) state >>= found
      rw [follow]
      cases scan.join leader a state with
      | error fault => rfl
      | ok pair =>
        obtain ⟨joined,state⟩ := pair
        refine (@turn (if joined then none else some a) state (fun (split,state) => found (split.add a joined,state))
          fun list split state size entries => ends list (split.add a joined) state size ?_).trans ?_
        · rw [entries]
          cases joined <;> rfl
        · change _ = (scan.follow leader rest.reduceOption state >>= fun (split,state) => .ok (split.add a joined,state)) >>= found
          cases scan.follow leader rest.reduceOption state <;> rfl

def final (list : List A) (state : S) : Except ε (Option S) := do
  let (_,state) ← scan.groups list state
  .ok (some state)

theorem final_cons (leader : A) (others : List A) (state : S) : scan.final (leader :: others) state = (do
    let state ← scan.lead leader state
    let (split,state) ← scan.follow leader others state
    let state ← scan.close leader state
    scan.final split.left state) := by
  unfold final
  rw [groups]
  simp only [bind_assoc]
  rfl

theorem loop_leads {fuel : Nat} (rest : List (Option A)) : ∀ {before : List (Option A)} {state : S}, rest ≠ [] →
    before.reduceOption = [] →
    (∀ (list : List (Option A)) state, list.length = before.length + rest.length →
      list.reduceOption.length < rest.reduceOption.length →
      scan.loop fuel ⟨list,0,none,state⟩ = scan.final list.reduceOption state) →
    scan.loop (rest.length + fuel) ⟨before ++ rest,before.length,none,state⟩ = scan.final rest.reduceOption state := by
  induction rest with
  | nil =>
    intro before state nonempty
    exact absurd rfl nonempty
  | cons slot rest ih =>
    intro before state _ empty rounds
    have length (slot : Option A) : before.length + 1 = (before ++ [slot]).length := by
      rw [List.length_append,List.length_singleton]
    rw [List.length_cons,Nat.add_right_comm,loop_turn]
    cases slot with
    | some a =>
      rw [visit_lead,bind_assoc]
      change _ = scan.final (a :: rest.reduceOption) state
      rw [final_cons]
      congr 1
      funext state
      change scan.next ⟨before ++ some a :: rest,before.length,some (before.length,a),state⟩ >>= scan.after (rest.length + fuel) = _
      rw [List.append_cons]
      refine next_follows rest (length _) (length _ ▸ Nat.lt_succ_self _) fun list split state size entries => ?_
      congr 1
      funext state
      have alone : list.reduceOption = split.left := by
        rw [entries,List.set_append_right _ _ (Nat.le_refl _),Nat.sub_self,List.reduceOption_append,empty]
        rfl
      rw [← alone]
      refine rounds list state ?_ ?_
      · rw [size,← length,List.length_cons,Nat.add_assoc,Nat.add_comm 1]
      · rw [alone]
        exact Nat.lt_succ_of_le split.stays.length_le
    | none =>
      rw [visit_gap]
      change scan.next ⟨before ++ none :: rest,before.length,none,state⟩ >>= scan.after (rest.length + fuel) =
        scan.final rest.reduceOption state
      cases rest with
      | nil =>
        rw [next_end (length none ▸ rfl)]
        unfold final
        rw [List.reduceOption_nil,groups]
        rfl
      | cons following rest =>
        have inside : before.length + 1 < (before ++ none :: following :: rest).length := by
          rw [List.length_append,List.length_cons,List.length_cons]
          omega
        rw [next_inside inside,List.append_cons,length none]
        refine ih (List.cons_ne_nil _ _) ?_ fun list state size shorter => rounds list state ?_ shorter
        · rw [List.reduceOption_append,empty]
          rfl
        · rw [size,← length,List.length_cons,List.length_cons,List.length_cons]
          omega

theorem loop_groups (list : List (Option A)) : ∀ {fuel : Nat} (state : S), list ≠ [] →
    (list.reduceOption.length + 1) * list.length ≤ fuel →
    scan.loop fuel ⟨list,0,none,state⟩ = scan.final list.reduceOption state := by
  -- on the number of elements left, as every round removes its leader
  induction many : list.reduceOption.length using Nat.strongRecOn generalizing list with
  | ind many' ih =>
    subst many
    intro fuel state nonempty enough
    rw [Nat.add_mul,Nat.one_mul,Nat.add_comm] at enough
    obtain ⟨more,rfl⟩ := Nat.exists_eq_add_of_le (Nat.le_trans (Nat.le_add_right _ _) enough)
    refine @loop_leads ε S A scan more list [] state nonempty rfl fun list' state size shorter => ?_
    rw [List.length_nil,Nat.zero_add] at size
    refine ih _ shorter list' rfl state (fun empty => ?_) ?_
    · rw [empty] at size
      exact nonempty (List.length_eq_zero_iff.mp size.symm)
    · rw [size]
      exact Nat.le_trans (Nat.mul_le_mul_right _ shorter) (Nat.le_of_add_le_add_left enough)

theorem loop_list {list : List A} {state : S} {fuel : Nat} (nonempty : list ≠ []) (enough : (list.length + 1) * list.length ≤ fuel) :
    scan.loop fuel ⟨list.map some,0,none,state⟩ = scan.final list state := by
  have all : (list.map some).reduceOption = list := by
    unfold List.reduceOption
    rw [List.filterMap_map]
    exact List.filterMap_some
  rw [loop_groups (list.map some) state (by simpa using nonempty) (by rwa [all,List.length_map]),all]

theorem groups_cons {leader : A} {rest : List A} {state after : S} {found : List (A × List A)}
    (done : scan.groups (leader :: rest) state = .ok (found,after)) : ∃ led split met closed others,
      scan.lead leader state = .ok led ∧ scan.follow leader rest led = .ok (split,met) ∧ scan.close leader met = .ok closed ∧
      scan.groups split.left closed = .ok (others,after) ∧ found = (leader,split.joined) :: others := by
  rw [groups] at done
  obtain ⟨led,leads,done⟩ := except_bind.mp done
  obtain ⟨⟨split,met⟩,follows,done⟩ := except_bind.mp done
  obtain ⟨closed,closes,done⟩ := except_bind.mp done
  obtain ⟨⟨others,after⟩,further,done⟩ := except_bind.mp done
  cases done
  exact ⟨led,split,met,closed,others,leads,follows,closes,further,rfl⟩

theorem groups_perm {list : List A} {state after : S} {found : List (A × List A)}
    (done : scan.groups list state = .ok (found,after)) : (found.flatMap fun group => group.1 :: group.2).Perm list := by
  induction list, state using Scan.groups.induct generalizing found after with
  | case1 state =>
    rw [groups] at done
    cases done
    exact .nil
  | case2 leader rest state ih =>
    obtain ⟨led,split,met,closed,others,-,-,-,further,rfl⟩ := groups_cons done
    exact (((ih split closed further).append_left split.joined).trans split.all).cons leader

end

end Scan

section
variable {A : Type}

def leaderGroups (goes : A → A → Bool) : List A → List (A × List A)
  | [] => []
  | leader :: rest =>
    let split := Scan.Split.choose (goes leader) rest
    (leader,split.joined) :: leaderGroups goes split.left
termination_by list => list.length
decreasing_by exact Nat.lt_succ_of_le split.stays.length_le

section
variable {goes : A → A → Bool}

end

section
variable {κ : Type} [DecidableEq κ] (key : A → κ)

def keyGroups (list : List A) : List (A × List A) := leaderGroups (fun leader a => key leader = key a) list

theorem keyGroups_cons (leader : A) (rest : List A) : keyGroups key (leader :: rest) =
    (leader,rest.filter fun a => key leader = key a) :: keyGroups key (rest.filter fun a => !decide (key leader = key a)) := by
  unfold keyGroups
  rw [leaderGroups]
  rfl

variable {key}

theorem keyGroups_leader {list : List A} : ∀ group ∈ keyGroups key list, group.1 ∈ list := by
  induction list using leaderGroups.induct (fun leader a => decide (key leader = key a)) with
  | case1 =>
    unfold keyGroups
    rw [leaderGroups]
    exact fun group found => absurd found List.not_mem_nil
  | case2 leader rest split ih =>
    rw [keyGroups_cons]
    intro group found
    rcases List.mem_cons.mp found with rfl | later
    · exact List.mem_cons_self
    · exact List.mem_cons_of_mem _ (split.stays.subset (ih group later))

theorem keyGroups_other {leader : A} {rest : List A} :
    ∀ group ∈ keyGroups key (rest.filter fun a => !decide (key leader = key a)), key leader ≠ key group.1 := by
  intro group found
  have left := (List.mem_filter.mp (keyGroups_leader group found)).2
  rw [Bool.not_eq_true'] at left
  exact of_decide_eq_false left

theorem keyGroups_filter {list : List A} :
    ∀ group ∈ keyGroups key list, group.1 :: group.2 = list.filter fun a => key group.1 = key a := by
  induction list using leaderGroups.induct (fun leader a => decide (key leader = key a)) with
  | case1 =>
    unfold keyGroups
    rw [leaderGroups]
    exact fun group found => absurd found List.not_mem_nil
  | case2 leader rest split ih =>
    rw [keyGroups_cons]
    intro group found
    rcases List.mem_cons.mp found with rfl | later
    · rw [List.filter_cons_of_pos (by rw [decide_eq_true_eq])]
    · have other := keyGroups_other group later
      rw [ih group later,List.filter_cons_of_neg (by rw [decide_eq_true_eq]; exact other.symm)]
      refine List.filter_filter.trans (List.filter_congr fun a _ => ?_)
      rw [Bool.and_eq_left_iff_imp,decide_eq_true_eq,Bool.not_eq_true']
      intro same
      exact decide_eq_false (same ▸ other)

theorem keyGroups_keys (list : List A) : ((keyGroups key list).map fun group => key group.1).Nodup ∧
    ∀ a ∈ list, ∃ group ∈ keyGroups key list, key group.1 = key a := by
  induction list using leaderGroups.induct (fun leader a => decide (key leader = key a)) with
  | case1 =>
    unfold keyGroups
    rw [leaderGroups]
    exact ⟨.nil,fun a inside => absurd inside List.not_mem_nil⟩
  | case2 leader rest split ih =>
    obtain ⟨distinct,keys⟩ := ih
    rw [keyGroups_cons]
    refine ⟨List.nodup_cons.mpr ⟨fun again => ?_,distinct⟩,fun a inside => ?_⟩
    · obtain ⟨group,found,same⟩ := List.mem_map.mp again
      exact keyGroups_other group found same.symm
    · by_cases same : key leader = key a
      · exact ⟨_,List.mem_cons_self,same⟩
      · obtain ⟨group,found,own⟩ := keys a (List.mem_filter.mpr ⟨(List.mem_cons.mp inside).resolve_left fun first => same (first ▸ rfl),by
          rw [Bool.not_eq_true']
          exact decide_eq_false same⟩)
        exact ⟨group,List.mem_cons_of_mem _ found,own⟩

end

namespace Scan

section
variable {ε S : Type} {scan : Scan ε S A} {goes : A → A → Bool}

/-- On a round whoever goes with the leader joins, and the others are passed by. `met` is what
holds of the state on the way. -/
structure Decided (scan : Scan ε S A) (goes : A → A → Bool) (met : S → Prop) (list : List A) : Prop where
  leads : ∀ {leader state after}, leader ∈ list → scan.lead leader state = .ok after → met after
  joins : ∀ {leader a state joined after}, leader ∈ list → a ∈ list → met state → goes leader a = true →
    scan.join leader a state = .ok (joined,after) → joined = true ∧ met after
  passes : ∀ {leader a state}, met state → goes leader a = false → scan.join leader a state = .ok (false,state)

def joinNext (scan : Scan ε S A) (leader : A) (state : S) (a : A) : Except ε S := do
  let (_,state) ← scan.join leader a state
  .ok state

def handle (scan : Scan ε S A) (state : S) (group : A × List A) : Except ε S := do
  let state ← scan.lead group.1 state
  let state ← group.2.foldlM (scan.joinNext group.1) state
  scan.close group.1 state

variable {met : S → Prop} {list : List A}

theorem follow_decided (decided : scan.Decided goes met list) {leader : A} (first : leader ∈ list) (rest : List A)
    (inside : rest ⊆ list) : ∀ state, met state → scan.follow leader rest state = (do
      let state ← (rest.filter (goes leader)).foldlM (scan.joinNext leader) state
      .ok (.choose (goes leader) rest,state)) := by
  induction rest with
  | nil =>
    intro state _
    rfl
  | cons a rest ih =>
    intro state holds
    obtain ⟨own,inside⟩ := List.cons_subset.mp inside
    have added (joined : Bool) (same : goes leader a = joined) :
        (Split.choose (goes leader) rest).add a joined = .choose (goes leader) (a :: rest) := by
      cases joined <;> simp [Split.choose,Split.add,same]
    rw [follow]
    cases goes' : goes leader a with
    | false =>
      rw [decided.passes holds goes',List.filter_cons_of_neg (by rw [goes']; exact Bool.false_ne_true),← added false goes']
      change (scan.follow leader rest state >>= fun (split,state) => .ok (split.add a false,state)) = _
      rw [ih inside state holds]
      cases (rest.filter (goes leader)).foldlM (scan.joinNext leader) state <;> rfl
    | true =>
      rw [List.filter_cons_of_pos goes',List.foldlM_cons,joinNext,← added true goes']
      cases joins : scan.join leader a state with
      | error fault => rfl
      | ok pair =>
        obtain ⟨joined,state⟩ := pair
        obtain ⟨rfl,holds⟩ := decided.joins first own holds goes' joins
        change (scan.follow leader rest state >>= fun (split,state) => .ok (split.add a true,state)) = _
        rw [ih inside state holds]
        change _ = (rest.filter (goes leader)).foldlM (scan.joinNext leader) state >>= _
        cases (rest.filter (goes leader)).foldlM (scan.joinNext leader) state <;> rfl

theorem final_decided (decided : scan.Decided goes met list) (part : List A) : part ⊆ list → ∀ state,
    scan.final part state = (leaderGroups goes part).foldlM scan.handle state >>= fun state => .ok (some state) := by
  induction part using leaderGroups.induct goes with
  | case1 =>
    intro _ state
    unfold final
    rw [groups,leaderGroups]
    rfl
  | case2 leader rest split ih =>
    intro inside state
    obtain ⟨first,inside⟩ := List.cons_subset.mp inside
    rw [final_cons,leaderGroups,List.foldlM_cons,handle]
    simp only [bind_assoc]
    cases leads : scan.lead leader state with
    | error fault => rfl
    | ok led =>
      change (scan.follow leader rest led >>= _) = (split.joined.foldlM (scan.joinNext leader) led >>= _)
      rw [follow_decided decided first rest inside led (decided.leads first leads),bind_assoc]
      refine bind_congr fun state => ?_
      change (scan.close leader state >>= fun state => scan.final split.left state) = _
      exact bind_congr fun state => ih (List.Subset.trans split.stays.subset inside) state

theorem loop_decided (decided : scan.Decided goes met list) (nonempty : list ≠ []) {fuel : Nat}
    (enough : (list.length + 1) * list.length ≤ fuel) (state : S) : scan.loop fuel ⟨list.map some,0,none,state⟩ =
      (leaderGroups goes list).foldlM scan.handle state >>= fun state => .ok (some state) := by
  rw [← final_decided decided list (List.Subset.refl _),loop_list nonempty enough]

end

end Scan

end

end Aprof
