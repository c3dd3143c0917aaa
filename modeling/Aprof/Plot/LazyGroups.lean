import Aprof.Plot.LazyMerge

/-! The loop on contexts whose tuples are all larger than those of the routine. -/
namespace Aprof.Plot

/-- The new tuples are the merged tuples of each size. -/
structure Groups (mode : CostType) (inputs news : List Input) : Prop where
  increasing : news.Pairwise fun i j => i.size < j.size
  group : ∀ tuple ∈ news, ∃ first rest, inputs.filter (fun i => i.size = tuple.size) = first :: rest ∧
    tuple = mergeAll .java mode first rest
  covered : ∀ i ∈ inputs, ∃ tuple ∈ news, tuple.size = i.size

section
variable {mode : CostType} {inputs news : List Input} {last i : Input}

private theorem filter_other {inputs : List Input} {i : Input} {size : Int} (other : i.size ≠ size) :
    (inputs ++ [i]).filter (fun i => i.size = size) = inputs.filter fun i => i.size = size := by
  rw [List.filter_append,List.filter_singleton,decide_eq_false other]
  exact List.append_nil _

private theorem filter_own (inputs : List Input) (i : Input) :
    (inputs ++ [i]).filter (fun j => j.size = i.size) = (inputs.filter fun j => j.size = i.size) ++ [i] := by
  rw [List.filter_append,List.filter_singleton,decide_eq_true rfl]
  rfl

theorem Groups.nil : Groups mode [] [] :=
  ⟨List.Pairwise.nil,fun _ member => absurd member List.not_mem_nil,fun _ member => absurd member List.not_mem_nil⟩

theorem Groups.start (groups : Groups mode inputs news) (larger : ∀ tuple ∈ news, tuple.size < i.size) :
    Groups mode (inputs ++ [i]) (news ++ [i]) := by
  refine ⟨?_,fun tuple member => ?_,fun j member => ?_⟩
  · rw [List.pairwise_append]
    refine ⟨groups.increasing,List.pairwise_singleton _ i,fun tuple member j last => ?_⟩
    rw [List.mem_singleton.mp last]
    exact larger tuple member
  · rcases List.mem_append.mp member with old | last
    · rw [filter_other (larger tuple old).ne']
      exact groups.group tuple old
    · have alone : inputs.filter (fun j => j.size = i.size) = [] := by
        apply List.filter_eq_nil_iff.mpr
        intro j inside equal
        obtain ⟨tuple,known,same⟩ := groups.covered j inside
        exact (larger tuple known).ne (same.trans (of_decide_eq_true equal))
      rw [List.mem_singleton.mp last,filter_own,alone]
      exact ⟨i,[],rfl,rfl⟩
  · rcases List.mem_append.mp member with old | last
    · obtain ⟨tuple,known,same⟩ := groups.covered j old
      exact ⟨tuple,List.mem_append_left [i] known,same⟩
    · rw [List.mem_singleton.mp last]
      exact ⟨i,List.mem_append_right news (List.mem_singleton_self i),rfl⟩

theorem Groups.extend (groups : Groups mode inputs (news ++ [last])) (equal : last.size = i.size) :
    Groups mode (inputs ++ [i]) (news ++ [(last.merge .java mode i).2]) := by
  obtain ⟨increasing,group,covered⟩ := groups
  rw [List.pairwise_append] at increasing
  obtain ⟨before,-,smaller⟩ := increasing
  have merged : ((last.merge .java mode i).2).size = i.size := (last.merge_size .java mode i).trans equal
  refine ⟨?_,fun tuple member => ?_,fun j member => ?_⟩
  · rw [List.pairwise_append]
    refine ⟨before,List.pairwise_singleton _ _,fun tuple member j same => ?_⟩
    rw [List.mem_singleton.mp same,merged,← equal]
    exact smaller tuple member last (List.mem_singleton_self last)
  · rcases List.mem_append.mp member with old | same
    · have less := smaller tuple old last (List.mem_singleton_self last)
      rw [filter_other (equal ▸ less.ne')]
      exact group tuple (List.mem_append_left [last] old)
    · obtain ⟨first,rest,whole,value⟩ := group last (List.mem_append_right news (List.mem_singleton_self last))
      rw [equal] at whole
      rw [List.mem_singleton.mp same,merged,filter_own,whole]
      refine ⟨first,rest ++ [i],rfl,?_⟩
      rw [mergeAll_append,← value]
  · have known : ∃ tuple ∈ news ++ [last], tuple.size = j.size := by
      rcases List.mem_append.mp member with old | same
      · exact covered j old
      · rw [List.mem_singleton.mp same]
        exact ⟨last,List.mem_append_right news (List.mem_singleton_self last),equal⟩
    obtain ⟨tuple,inside,size⟩ := known
    rcases List.mem_append.mp inside with old | same
    · exact ⟨tuple,List.mem_append_left _ old,size⟩
    · rw [List.mem_singleton.mp same,equal] at size
      exact ⟨_,List.mem_append_right news (List.mem_singleton_self _),merged.trans size⟩

end

structure Gathering (mode : CostType) (count : Nat) (base : Nat → Input) (done : List Nat) (loop : Loop) : Prop where
  a : loop.a = none
  b : loop.b = none
  list : ∀ i ∈ loop.list, i < count
  lazy : ∀ i ∈ loop.lazy, i < count
  below : ∀ i ∈ loop.list, ∀ j ∈ loop.lazy, (base i).size < (base j).size
  old : ∀ i < count, loop.objects i = base i
  fresh : count ≤ loop.fresh
  clones : ∀ i ∈ loop.newTuples, count ≤ i ∧ i < loop.fresh
  distinct : loop.newTuples.Nodup
  last : loop.prev = loop.newTuples.getLast?
  groups : Groups mode (done.map base) (loop.newTuples.map loop.objects)

section
variable {mode : CostType} {count : Nat} {base : Nat → Input} {done lazy : List Nat} {loop : Loop} {next : Nat}

theorem Gathering.turn_eq (gathering : Gathering mode count base done loop) (rest : loop.lazy = next :: lazy) :
    loop.turn mode = some (Loop.absorb mode { loop with a := some next, b := none, lazy := lazy, list := [] } next) := by
  have fetched : loop.fetch = { loop with a := some next, lazy := lazy } := by
    rw [Loop.fetch,gathering.a,rest]
  have first : next ∈ loop.lazy := by
    rw [rest]
    exact List.mem_cons_self
  have none : nextNotBelow loop.objects (loop.objects next).size loop.list = (none,[]) := by
    apply nextNotBelow_none
    intro i member
    rw [gathering.old i (gathering.list i member),gathering.old next (gathering.lazy next first)]
    exact gathering.below i member next first
  have sought : loop.fetch.seek next = { loop with a := some next, b := .none, lazy := lazy, list := [] } := by
    rw [fetched,Loop.seek]
    dsimp only
    rw [gathering.b,Option.filter_none]
    dsimp only
    rw [none]
  have taken : loop.fetch.a = some next := by rw [fetched]
  rw [Loop.turn,taken]
  dsimp only
  rw [sought]

private theorem map_update {objects : Nat → Input} {news : List Nat} {final : Nat} (other : final ∉ news) (value : Input) :
    (news ++ [final]).map (Function.update objects final value) = news.map objects ++ [value] := by
  rw [List.map_append,List.map_singleton,Function.update_self]
  congr 1
  apply List.map_congr_left
  intro i member
  exact Function.update_of_ne (fun same : i = final => other (same ▸ member)) _ _

theorem Groups.le {inputs news : List Input} (groups : Groups mode inputs news) {size : Int}
    (bound : ∀ i ∈ inputs, i.size ≤ size) : ∀ tuple ∈ news, tuple.size ≤ size := by
  intro tuple member
  obtain ⟨first,rest,whole,-⟩ := groups.group tuple member
  have inside : first ∈ inputs.filter fun i => i.size = tuple.size := by rw [whole]; exact List.mem_cons_self
  obtain ⟨known,equal⟩ := List.mem_filter.mp inside
  rw [← of_decide_eq_true equal]
  exact bound first known

theorem Groups.larger {inputs news : List Input} (groups : Groups mode inputs news) {size : Int}
    (bound : ∀ tuple ∈ news, tuple.size ≤ size) (differs : ∀ last, news.getLast? = some last → last.size ≠ size) :
    ∀ tuple ∈ news, tuple.size < size := by
  intro tuple member
  obtain ⟨front,last,split⟩ := (List.eq_nil_or_concat' news).resolve_left (List.ne_nil_of_mem member)
  have different := differs last (by rw [split,List.getLast?_concat])
  have top : last.size < size := by
    apply lt_of_le_of_ne _ different
    apply bound
    rw [split]
    exact List.mem_append_right front (List.mem_singleton_self last)
  have increasing := groups.increasing
  rw [split,List.pairwise_append] at increasing
  rw [split] at member
  rcases List.mem_append.mp member with before | final
  · exact (increasing.2.2 tuple before last (List.mem_singleton_self last)).trans top
  · rw [List.mem_singleton.mp final]
    exact top

theorem Gathering.last_clone {prev : Nat} (gathering : Gathering mode count base done loop) (same : loop.prev = some prev) :
    count ≤ prev ∧ ∃ front, loop.newTuples = front ++ [prev] ∧ prev ∉ front := by
  have final := gathering.last
  rw [same] at final
  obtain ⟨front,split⟩ := List.getLast?_eq_some_iff.mp final.symm
  have distinct := gathering.distinct
  rw [split,List.nodup_append] at distinct
  refine ⟨?_,front,split,fun member => distinct.2.2 prev member prev (List.mem_singleton_self prev) rfl⟩
  exact (gathering.clones prev (by rw [split]; exact List.mem_append_right front (List.mem_singleton_self prev))).1

theorem Gathering.turn (gathering : Gathering mode count base done loop) (rest : loop.lazy = next :: lazy)
    (sorted : ∀ i ∈ done, (base i).size ≤ (base next).size) :
    ∃ after, loop.turn mode = some after ∧ after.lazy = lazy ∧ Gathering mode count base (done ++ [next]) after := by
  refine ⟨_,gathering.turn_eq rest,?_⟩
  have first : next < count := gathering.lazy next (by rw [rest]; exact List.mem_cons_self)
  have later : ∀ i ∈ lazy, i < count := fun i member => gathering.lazy i (by rw [rest]; exact List.mem_cons_of_mem next member)
  have value := gathering.old next first
  have bound : ∀ tuple ∈ loop.newTuples.map loop.objects, tuple.size ≤ (base next).size := by
    apply gathering.groups.le
    intro i member
    obtain ⟨j,inside,rfl⟩ := List.mem_map.mp member
    exact sorted j inside
  have extended : (done ++ [next]).map base = done.map base ++ [base next] := by rw [List.map_append,List.map_singleton]
  unfold Loop.absorb
  dsimp only
  split
  · next prev kept =>
    obtain ⟨same,equal⟩ := Option.filter_eq_some_iff.mp kept
    replace equal := of_decide_eq_true equal
    rw [value] at equal
    obtain ⟨clone,front,split,apart⟩ := gathering.last_clone same
    have groups := gathering.groups
    rw [split,List.map_append,List.map_singleton] at groups
    refine ⟨rfl,rfl,rfl,nofun,later,nofun,fun i below => ?_,gathering.fresh,gathering.clones,gathering.distinct,
      gathering.last,?_⟩
    · have other : i ≠ prev := by omega
      exact (Function.update_of_ne other _ _).trans (gathering.old i below)
    · show Groups mode _ (loop.newTuples.map (Function.update loop.objects prev _))
      rw [split,map_update apart,extended,value]
      exact groups.extend equal
  · next kept =>
    have larger : ∀ tuple ∈ loop.newTuples.map loop.objects, tuple.size < (base next).size := by
      apply gathering.groups.larger bound
      intro last final equal
      rw [List.getLast?_map,← gathering.last] at final
      obtain ⟨prev,same,rfl⟩ := Option.map_eq_some_iff.mp final
      rw [same,value] at kept
      exact (Option.filter_eq_none_iff.mp kept) prev rfl (decide_eq_true equal)
    have newest : loop.fresh ∉ loop.newTuples := fun member => (gathering.clones _ member).2.ne rfl
    have old := gathering.fresh
    refine ⟨rfl,rfl,rfl,nofun,later,nofun,fun i below => ?_,?_,fun i member => ?_,?_,?_,?_⟩
    · have other : i ≠ loop.fresh := by omega
      exact (Function.update_of_ne other _ _).trans (gathering.old i below)
    · exact old.trans (Nat.le_succ loop.fresh)
    · rcases List.mem_append.mp member with before | last
      · obtain ⟨above,below⟩ := gathering.clones i before
        exact ⟨above,below.trans (Nat.lt_succ_self _)⟩
      · rw [List.mem_singleton.mp last]
        exact ⟨old,Nat.lt_succ_self _⟩
    · exact List.nodup_append.mpr ⟨gathering.distinct,List.nodup_singleton _,fun i member j last same => by
        rw [List.mem_singleton.mp last] at same
        exact newest (same ▸ member)⟩
    · exact (List.getLast?_concat).symm
    · show Groups mode _ ((loop.newTuples ++ [loop.fresh]).map (Function.update loop.objects loop.fresh _))
      rw [map_update newest,extended,value]
      exact gathering.groups.start larger

theorem Gathering.run (lazy : List Nat) : ∀ {done : List Nat} {loop : Loop}, Gathering mode count base done loop →
    loop.lazy = lazy → ((done ++ lazy).Pairwise fun i j => (base i).size ≤ (base j).size) →
    ∃ fuel last, loop.run mode fuel = some last ∧ last.lazy = [] ∧ Gathering mode count base (done ++ lazy) last := by
  induction lazy with
  | nil =>
    intro done loop gathering empty _
    have stops : loop.turn mode = none := by rw [Loop.turn,Loop.fetch,gathering.a,empty]; dsimp only; rw [gathering.a]
    refine ⟨1,loop,?_,empty,?_⟩
    · rw [Loop.run,stops]
    · rw [List.append_nil]
      exact gathering
  | cons next lazy ih =>
    intro done loop gathering rest sorted
    have before := (List.pairwise_append.mp sorted).2.2
    obtain ⟨after,turned,remaining,gathering⟩ := gathering.turn rest fun i member => before i member next List.mem_cons_self
    rw [List.append_cons] at sorted ⊢
    obtain ⟨fuel,last,ran,finished,whole⟩ := ih gathering remaining sorted
    refine ⟨fuel + 1,last,?_,finished,whole⟩
    rw [Loop.run,turned]
    exact ran

end

end Aprof.Plot
