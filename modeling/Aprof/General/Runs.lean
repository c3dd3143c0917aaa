import Mathlib.Data.List.Dedup
import Mathlib.Data.List.SplitBy
import Mathlib.Order.Lattice

/-! Pieces of a list: its runs of one key. -/
namespace Aprof

theorem splitBy_congr {α : Type} {r r' : α → α → Bool} {l : List α} (agree : l.IsChain fun a b => r a b = r' a b) :
    l.splitBy r = l.splitBy r' := by
  obtain ⟨flat,nonempty,chains,breaks⟩ := List.splitBy_eq_iff.mp (rfl : l.splitBy r' = l.splitBy r')
  generalize l.splitBy r' = pieces at flat nonempty chains breaks ⊢
  rw [flat,List.isChain_flatten nonempty] at agree
  obtain ⟨within,between⟩ := agree
  refine List.splitBy_eq_iff.mpr ⟨flat,nonempty,fun piece member => ?_,?_⟩
  · have same := List.isChain_iff_forall_rel_of_append_cons_cons.mp (within piece member)
    have chain := List.isChain_iff_forall_rel_of_append_cons_cons.mp (chains piece member)
    refine List.isChain_iff_forall_rel_of_append_cons_cons.mpr fun a b before after split => ?_
    rw [same split]
    exact chain split
  · have same := List.isChain_iff_forall_rel_of_append_cons_cons.mp between
    have broken := List.isChain_iff_forall_rel_of_append_cons_cons.mp breaks
    refine List.isChain_iff_forall_rel_of_append_cons_cons.mpr fun piece other before after split => ?_
    obtain ⟨ha,hb,fails⟩ := broken split
    refine ⟨ha,hb,?_⟩
    rw [same split _ (List.getLast_mem_getLast? ha) _ (List.head_mem_head? hb)]
    exact fails

section
variable {α κ : Type} [DecidableEq κ]

def runs (key : α → κ) (l : List α) : List (List α) := l.splitBy fun a b => key a = key b

variable {key : α → κ}

theorem runs_flatten (key : α → κ) (l : List α) : (runs key l).flatten = l := List.flatten_splitBy _ l

theorem runs_of_one {l : List α} {k : κ} (nonempty : l ≠ []) (one : ∀ a ∈ l, key a = k) : runs key l = [l] := by
  apply List.splitBy_of_isChain nonempty
  apply List.Pairwise.isChain
  exact List.pairwise_of_forall_mem_list fun a inside b inside' => decide_eq_true ((one a inside).trans (one b inside').symm)

/-- The key changes after `l`. -/
theorem runs_append {l : List α} {k : κ} {a : α} (rest : List α) (one : ∀ b ∈ l, key b = k) (changed : key a ≠ k) :
    runs key (l ++ a :: rest) = runs key l ++ runs key (a :: rest) := by
  apply List.splitBy_append_cons rest
  intro last found
  exact decide_eq_false fun same => changed (same.symm.trans (one last (List.mem_of_mem_getLast? found)))

theorem runs_cons {a b : α} {rest : List α} (same : key a = key b) :
    ∃ piece pieces, runs key (b :: rest) = (b :: piece) :: pieces ∧ runs key (a :: b :: rest) = (a :: b :: piece) :: pieces := by
  obtain ⟨flat,nonempty,chains,breaks⟩ := List.splitBy_eq_iff.mp (rfl : runs key (b :: rest) = runs key (b :: rest))
  cases split : runs key (b :: rest) with
  | nil => exact absurd (List.splitBy_eq_nil.mp split) (List.cons_ne_nil b rest)
  | cons first pieces =>
    rw [split] at flat nonempty chains breaks
    cases first with
    | nil => exact absurd List.mem_cons_self nonempty
    | cons c piece =>
      rw [List.flatten_cons,List.cons_append] at flat
      obtain ⟨rfl,rest'⟩ := List.cons.inj flat
      refine ⟨piece,pieces,rfl,List.splitBy_eq_iff.mpr ⟨?_,?_,?_,?_⟩⟩
      · rw [List.flatten_cons,List.cons_append,List.cons_append,rest']
      · rintro (_ | ⟨_,inside⟩)
        exact nonempty (List.mem_cons_of_mem _ inside)
      · intro other member
        rcases List.mem_cons.mp member with rfl | inside
        · exact List.isChain_cons_cons.mpr ⟨decide_eq_true same,chains _ List.mem_cons_self⟩
        · exact chains other (List.mem_cons_of_mem _ inside)
      · cases pieces with
        | nil => exact List.isChain_singleton _
        | cons next pieces =>
          obtain ⟨⟨ha,hb,different⟩,later⟩ := List.isChain_cons_cons.mp breaks
          refine List.isChain_cons_cons.mpr ⟨⟨List.cons_ne_nil _ _,hb,?_⟩,later⟩
          rw [List.getLast_cons ha]
          exact different

theorem runs_eq_filter {κ : Type} [LinearOrder κ] {key : α → κ} {l : List α} (sorted : l.Pairwise fun a b => key a ≤ key b) :
    runs key l = (l.map key).dedup.map fun k => l.filter fun a => key a = k := by
  induction l with
  | nil => rfl
  | cons a rest ih =>
    obtain ⟨least,sorted⟩ := List.pairwise_cons.mp sorted
    have ih := ih sorted
    cases rest with
    | nil => simp [runs_of_one (List.cons_ne_nil a []) (k := key a)]
    | cons b rest =>
      by_cases same : key a = key b
      · obtain ⟨piece,pieces,split,split'⟩ := @runs_cons _ _ _ key a b rest same
        rw [split] at ih
        have known : key a ∈ (b :: rest).map key := by rw [same]; exact List.mem_cons_self
        rw [split',List.map_cons,List.dedup_cons_of_mem known]
        have distinct := List.nodup_dedup ((b :: rest).map key)
        cases keys : ((b :: rest).map key).dedup with
        | nil => rw [keys] at ih; cases ih
        | cons k keys' =>
          rw [keys,List.map_cons] at ih
          rw [keys] at distinct
          obtain ⟨first,later⟩ := List.cons.inj ih
          have inside : b ∈ (b :: rest).filter fun c => key c = k := by rw [← first]; exact List.mem_cons_self
          have found : key b = k := by simpa using (List.mem_filter.mp inside).2
          rw [List.map_cons,List.filter_cons_of_pos (by rw [same,found]; simp),← first,later]
          congr 1
          apply List.map_congr_left
          intro k' member
          have other : key a ≠ k' := by
            rw [same,found]
            rintro rfl
            exact (List.nodup_cons.mp distinct).1 member
          exact (List.filter_cons_of_neg (by simpa using other)).symm
      · have below : ∀ c ∈ b :: rest, key a ≠ key c := by
          intro c member equal
          have ordered : key b ≤ key c := by
            rcases List.mem_cons.mp member with rfl | inside
            · exact le_rfl
            · exact (List.pairwise_cons.mp sorted).1 c inside
          exact same (le_antisymm (least b List.mem_cons_self) (equal ▸ ordered))
        have fresh : key a ∉ (b :: rest).map key := by
          intro member
          obtain ⟨c,inside,equal⟩ := List.mem_map.mp member
          exact below c inside equal.symm
        have split := runs_append (l := [a]) (k := key a) rest (by simp) fun equal => same equal.symm
        rw [List.singleton_append,runs_of_one (List.cons_ne_nil a []) (k := key a) (by simp)] at split
        have keys : ((a :: b :: rest).map key).dedup = key a :: ((b :: rest).map key).dedup := List.dedup_cons_of_notMem fresh
        have first : ((a :: b :: rest).filter fun c => key c = key a) = [a] := by
          rw [List.filter_cons_of_pos (by simp),List.filter_eq_nil_iff.mpr]
          intro c member
          simpa using fun equal => below c member equal.symm
        rw [split,ih,keys]
        refine congrArg₂ List.cons first.symm (List.map_congr_left ?_)
        intro k member
        have other : key a ≠ k := by
          rintro rfl
          exact fresh (List.mem_dedup.mp member)
        exact (List.filter_cons_of_neg (by simpa using other)).symm

end

theorem dedup_filter {κ : Type} [LinearOrder κ] {keys part : List κ} (sorted : keys.Pairwise (· ≤ ·)) (within : part.Sublist keys) :
    (keys.dedup.filter fun k => k ∈ part) = part.dedup := by
  refine List.Perm.eq_of_pairwise (fun a b _ _ le ge => le_antisymm le ge) ((sorted.sublist (List.dedup_sublist keys)).filter _)
    ((sorted.sublist within).sublist (List.dedup_sublist part)) ?_
  refine (List.perm_ext_iff_of_nodup ((List.nodup_dedup keys).filter _) (List.nodup_dedup part)).mpr fun k => ?_
  rw [List.mem_filter,List.mem_dedup,List.mem_dedup,decide_eq_true_iff]
  exact and_iff_right_of_imp fun member => within.subset member

theorem flatMap_if {α β : Type} {holds : α → Prop} [DecidablePred holds] (f : α → β) (l : List α) :
    (l.flatMap fun a => if holds a then [f a] else []) = (l.filter fun a => holds a).map f := by
  induction l with
  | nil => rfl
  | cons a rest ih =>
    rw [List.flatMap_cons,ih,List.filter_cons]
    by_cases here : holds a
    · rw [if_pos here,if_pos (decide_eq_true here)]
      rfl
    · rw [if_neg here,if_neg (by simpa using here)]
      rfl

end Aprof
