import Aprof.PyPlot.PrintedLines

/-! The rows of a routine as the loop of `main.py` reads them. -/
namespace Aprof.PyPlot

/-- The printed input size, least, greatest and summed cost, sum of squares and calls -/
def sixColumns (tuple : Input UInt64) : List Int :=
  [tuple.inputSize.toNat,tuple.minCumulativeCost.toNat,tuple.maxCumulativeCost.toNat,tuple.sumCumulativeCost.toNat,
    tuple.sqrCumulativeCost.toNat,tuple.calls.toNat]

def callsOf (tuples : List (Input UInt64)) : Int := (tuples.map fun tuple => (tuple.calls.toNat : Int)).sum

def realCostOf (tuples : List (Input UInt64)) : Int := (tuples.map fun tuple => (tuple.sumCumulRealCost.toNat : Int)).sum

/-- The numbers of a routine are read as they are. -/
def NumbersKept (cfg : Config) (tuples : List (Input UInt64)) : Prop :=
  (∀ tuple ∈ tuples, ∀ n ∈ PrintedRoutine.tupleNumbers cfg tuple, n.toNat < 2 ^ 63) ∨
    ∀ tuple ∈ tuples, ∀ n ∈ sixColumns tuple, IsDouble n

section
variable {numpy : Numpy}

/-- The rows that were added: as they were, or as doubles once one has a number from 2^63 on. -/
structure Stacked (numpy : Numpy) (a : numpy.NDArray) (rows : List (List Int)) : Prop where
  widths : ∀ row ∈ rows, row.length = dummyRow.length
  range : ∀ row ∈ rows, ∀ n ∈ row, 0 ≤ n ∧ n < 2 ^ 64
  kept : numpy.float64 a = false ∧ numpy.tolist a = rows ∧ (∀ row ∈ rows, ∀ n ∈ row, n < 2 ^ 63) ∨
    numpy.float64 a = true ∧ numpy.tolist a = rows.map (List.map numpy.double) ∧ ∃ row ∈ rows, ∃ n ∈ row, 2 ^ 63 ≤ n

theorem Numpy.Documented.double_iff (documented : numpy.Documented) {n : Int} (least : 0 ≤ n) (greatest : n < 2 ^ 64) :
    numpy.double n = n ↔ IsDouble n := by
  constructor
  · intro same
    rw [← same]
    exact documented.double_isDouble least greatest
  · exact documented.double_exact

theorem Numpy.Documented.double_double (documented : numpy.Documented) {n : Int} (least : 0 ≤ n) (greatest : n < 2 ^ 64) :
    numpy.double (numpy.double n) = numpy.double n := documented.double_exact (documented.double_isDouble least greatest)

theorem stacked_dummy (documented : numpy.Documented) : Stacked numpy (numpy.array [dummyRow]) [dummyRow] := by
  obtain ⟨list,int64⟩ := documented.array_int64
  exact ⟨by decide,by decide,.inl ⟨int64,list,by decide⟩⟩

theorem Stacked.tolist_widths {a : numpy.NDArray} {rows : List (List Int)} (stacked : Stacked numpy a rows) :
    ∀ row ∈ numpy.tolist a, row.length = dummyRow.length := by
  rcases stacked.kept with ⟨-,list,-⟩ | ⟨-,list,-⟩
  · rw [list]
    exact stacked.widths
  · rw [list]
    intro row member
    obtain ⟨added,inside,rfl⟩ := List.mem_map.mp member
    rw [List.length_map]
    exact stacked.widths added inside

theorem Stacked.vstack (documented : numpy.Documented) {a : numpy.NDArray} {rows : List (List Int)} (stacked : Stacked numpy a rows)
    {row : List Int} (width : row.length = dummyRow.length) (range : ∀ n ∈ row, 0 ≤ n ∧ n < 2 ^ 64) :
    ∃ b, numpy.vstack a row = .ok b ∧ Stacked numpy b (rows ++ [row]) := by
  have widths : ∀ other ∈ numpy.tolist a, other.length = row.length := fun other member =>
    (stacked.tolist_widths other member).trans width.symm
  have allWidths : ∀ other ∈ rows ++ [row], other.length = dummyRow.length :=
    List.forall_mem_append.mpr ⟨stacked.widths,List.forall_mem_singleton.mpr width⟩
  have allRange : ∀ other ∈ rows ++ [row], ∀ n ∈ other, 0 ≤ n ∧ n < 2 ^ 64 :=
    List.forall_mem_append.mpr ⟨stacked.range,List.forall_mem_singleton.mpr range⟩
  have last : row ∈ rows ++ [row] := List.mem_append_right _ (List.mem_singleton_self row)
  rcases stacked.kept with ⟨int64,list,small⟩ | ⟨float64,list,other,inside,large⟩
  · by_cases large : ∃ n ∈ row, 2 ^ 63 ≤ n
    · -- the array turns into one of doubles
      obtain ⟨b,joined,rowsOf,float64⟩ := documented.vstack_float64 widths range (.inr large)
      rw [list] at rowsOf
      exact ⟨b,joined,allWidths,allRange,.inr ⟨float64,rowsOf,row,last,large⟩⟩
    · have least : ∀ n ∈ row, n < 2 ^ 63 := fun n member => not_le.mp fun more => large ⟨n,member,more⟩
      obtain ⟨b,joined,rowsOf,int64⟩ := documented.vstack_int64 widths int64
        fun n member => ⟨le_trans (by decide) (range n member).1,least n member⟩
      rw [list] at rowsOf
      have allSmall := List.forall_mem_append.mpr ⟨small,List.forall_mem_singleton.mpr least⟩
      exact ⟨b,joined,allWidths,allRange,.inl ⟨int64,rowsOf,allSmall⟩⟩
  · -- doubles stay what they are
    obtain ⟨b,joined,rowsOf,float64⟩ := documented.vstack_float64 widths range (.inl float64)
    have again : (rows.map (List.map numpy.double)).map (List.map numpy.double) = rows.map (List.map numpy.double) := by
      rw [List.map_map]
      refine List.map_congr_left fun other member => ?_
      rw [Function.comp_apply,List.map_map]
      exact List.map_congr_left fun n entry =>
        documented.double_double (stacked.range other member n entry).1 (stacked.range other member n entry).2
    rw [list,List.map_append,again,← List.map_append] at rowsOf
    exact ⟨b,joined,allWidths,allRange,.inr ⟨float64,rowsOf,other,List.mem_append_left _ inside,large⟩⟩

end

section
variable {numpy : Numpy} {options : FitOptions} {cfg : Config} {routine : PrintedRoutine}

def rowOf (cfg : Config) (tuple : Input UInt64) : List Int :=
  (PrintedRoutine.tupleNumbers cfg tuple).map fun n => (n.toNat : Int)

theorem rowOf_range (cfg : Config) (tuple : Input UInt64) : ∀ n ∈ rowOf cfg tuple, 0 ≤ n ∧ n < 2 ^ 64 := by
  intro n member
  obtain ⟨word,-,rfl⟩ := List.mem_map.mp member
  exact ⟨Int.natCast_nonneg _,by exact_mod_cast word.toNat_lt⟩

theorem rowOf_width (cfg : Config) (tuple : Input UInt64) :
    (rowOf cfg tuple).length = dummyRow.length ↔ cfg.inputMetric ≠ .drms := by
  rw [rowOf,List.length_map,PrintedRoutine.tupleNumbers]
  split
  · next drms => exact iff_of_false (by simp [dummyRow]) (not_not.mpr drms)
  · next rms => exact iff_of_true rfl rms

theorem rowOf_sixColumns (cfg : Config) (tuple : Input UInt64) : (rowOf cfg tuple).take 6 = sixColumns tuple := rfl

theorem addRms_tuple (plain : cfg.collectCCT = false) (f : AFunct numpy) (tuple : Input UInt64) :
    f.addRms (split (routine.tupleLine cfg tuple)) = (numpy.vstack f.rmsSet (rowOf cfg tuple)).map fun rmsSet =>
      { f with rmsSet := rmsSet, totCalls := f.totCalls + tuple.calls.toNat,
               cumulativeCost := f.cumulativeCost + tuple.sumCumulRealCost.toNat, nRms := f.nRms + 1 } := by
  rw [tupleLine_words plain,AFunct.addRms]
  show (List.mapM int ((PrintedRoutine.tupleNumbers cfg tuple).map fun n => decimal n.toNat) >>= _) = _
  rw [int_decimals]
  show (numpy.vstack f.rmsSet (rowOf cfg tuple) >>= _) = _
  cases numpy.vstack f.rmsSet (rowOf cfg tuple) <;> rfl

theorem addRms_tuples (documented : numpy.Documented) (plain : cfg.collectCCT = false) {tuples : List (Input UInt64)}
    (rms : cfg.inputMetric = .drms → tuples = []) {f : AFunct numpy} {rows : List (List Int)} (stacked : Stacked numpy f.rmsSet rows) :
    ∃ rmsSet nRms, tuples.foldlM (fun (f : AFunct numpy) tuple => f.addRms (split (routine.tupleLine cfg tuple))) f =
        .ok { f with rmsSet := rmsSet, totCalls := f.totCalls + callsOf tuples,
                     cumulativeCost := f.cumulativeCost + realCostOf tuples, nRms := nRms } ∧
      Stacked numpy rmsSet (rows ++ tuples.map (rowOf cfg)) := by
  induction tuples generalizing f rows with
  | nil =>
    refine ⟨f.rmsSet,f.nRms,?_,by simpa using stacked⟩
    rw [callsOf,realCostOf,List.map_nil,List.map_nil,List.sum_nil,add_zero,add_zero]
    rfl
  | cons tuple tuples ih =>
    have narrow : cfg.inputMetric ≠ .drms := fun drms => List.cons_ne_nil _ _ (rms drms)
    obtain ⟨first,joined,more⟩ := stacked.vstack documented ((rowOf_width cfg tuple).mpr narrow) (rowOf_range cfg tuple)
    rw [List.foldlM_cons,addRms_tuple plain,joined]
    let next : AFunct numpy := { f with rmsSet := first, totCalls := f.totCalls + tuple.calls.toNat,
                                        cumulativeCost := f.cumulativeCost + tuple.sumCumulRealCost.toNat, nRms := f.nRms + 1 }
    obtain ⟨rmsSet,nRms,done,all⟩ := @ih (fun drms => absurd drms narrow) next _ more
    refine ⟨rmsSet,nRms,done.trans ?_,?_⟩
    · rw [callsOf,callsOf,realCostOf,realCostOf,List.map_cons,List.map_cons,List.sum_cons,List.sum_cons,add_assoc,add_assoc]
    · rw [List.append_assoc] at all
      exact all

theorem addRms_drms (documented : numpy.Documented) (plain : cfg.collectCCT = false) (drms : cfg.inputMetric = .drms)
    {f : AFunct numpy} {rows : List (List Int)} (stacked : Stacked numpy f.rmsSet (dummyRow :: rows)) (tuple : Input UInt64) :
    ∃ message, f.addRms (split (routine.tupleLine cfg tuple)) = .error message := by
  have wide : ∃ other ∈ numpy.tolist f.rmsSet, other.length ≠ (rowOf cfg tuple).length := by
    obtain ⟨other,inside⟩ : ∃ other, other ∈ numpy.tolist f.rmsSet := by
      refine List.exists_mem_of_ne_nil _ ?_
      rcases stacked.kept with ⟨-,list,-⟩ | ⟨-,list,-⟩
      · rw [list]
        exact List.cons_ne_nil _ _
      · rw [list]
        exact List.cons_ne_nil _ _
    exact ⟨other,inside,fun same =>
      (rowOf_width cfg tuple).mp (same.symm.trans (stacked.tolist_widths other inside)) drms⟩
  obtain ⟨message,refused⟩ := documented.vstack_widths wide
  exact ⟨message,by rw [addRms_tuple plain,refused]; rfl⟩

def readRoutine (options : FitOptions) (cfg : Config) (routine : PrintedRoutine) : Except String (AFunct numpy) := do
  let f ← newFunct options (split (firstPiece '\n' routine.routineLine))
  routine.tuples.foldlM (fun f tuple => f.addRms (split (routine.tupleLine cfg tuple))) f

theorem readRoutine_made (documented : numpy.Documented) (plain : cfg.collectCCT = false)
    (rms : cfg.inputMetric = .drms → routine.tuples = []) {fresh : AFunct numpy}
    (made : newFunct options (split (firstPiece '\n' routine.routineLine)) = .ok fresh) :
    ∃ f : AFunct numpy, readRoutine options cfg routine = .ok f ∧ (f.rName = fresh.rName ∧ f.lib = fresh.lib ∧ f.fid = fresh.fid) ∧
      f.totCalls = callsOf routine.tuples ∧ f.cumulativeCost = realCostOf routine.tuples ∧
      Stacked numpy f.rmsSet (dummyRow :: routine.tuples.map (rowOf cfg)) := by
  obtain ⟨-,-,-,-,-,-,-,-,-,-,-,rows,calls,cost⟩ := newFunct_ok made
  have dummy : Stacked numpy fresh.rmsSet [dummyRow] := rows ▸ stacked_dummy documented
  obtain ⟨rmsSet,nRms,added,stacked⟩ := @addRms_tuples _ _ routine documented plain _ rms _ _ dummy
  rw [calls,cost,zero_add,zero_add] at added
  exact ⟨_,except_bind.mpr ⟨fresh,made,added⟩,⟨rfl,rfl,rfl⟩,rfl,rfl,stacked⟩

theorem readRoutine_ok (documented : numpy.Documented) (plain : cfg.collectCCT = false) {f : AFunct numpy}
    (read : readRoutine options cfg routine = .ok f) : (cfg.inputMetric = .drms → routine.tuples = []) ∧
      ∃ fresh : AFunct numpy, newFunct options (split (firstPiece '\n' routine.routineLine)) = .ok fresh := by
  obtain ⟨fresh,made,added⟩ := except_bind.mp read
  refine ⟨fun drms => ?_,fresh,made⟩
  cases tuples : routine.tuples with
  | nil => rfl
  | cons tuple rest =>
    obtain ⟨-,-,-,-,-,-,-,-,-,-,-,rows,-⟩ := newFunct_ok made
    have dummy : Stacked numpy fresh.rmsSet [dummyRow] := rows ▸ stacked_dummy documented
    obtain ⟨message,refused⟩ := @addRms_drms _ _ routine documented plain drms _ _ dummy tuple
    rw [tuples,List.foldlM_cons,refused] at added
    cases added

theorem rows_iff (documented : numpy.Documented) {a : numpy.NDArray} {tuples : List (Input UInt64)}
    (stacked : Stacked numpy a (dummyRow :: tuples.map (rowOf cfg))) :
    (numpy.tolist a).tail.map (List.take 6) = tuples.map sixColumns ↔ NumbersKept cfg tuples := by
  rcases stacked.kept with ⟨-,list,small⟩ | ⟨-,list,large⟩
  · have kept : NumbersKept cfg tuples := by
      refine .inl fun tuple inside n member => ?_
      have least := small _ (List.mem_cons_of_mem _ (List.mem_map_of_mem inside)) _ (List.mem_map_of_mem member)
      exact_mod_cast least
    rw [list,List.tail_cons,List.map_map]
    exact iff_of_true rfl kept
  · have one : ¬ ∀ tuple ∈ tuples, ∀ n ∈ PrintedRoutine.tupleNumbers cfg tuple, n.toNat < 2 ^ 63 := by
      intro small
      obtain ⟨row,member,n,inside,more⟩ := large
      rcases List.mem_cons.mp member with rfl | member
      · exact absurd (show ∀ n ∈ dummyRow, ¬ (2 : Int) ^ 63 ≤ n by decide) fun all => all n inside more
      · obtain ⟨tuple,among,rfl⟩ := List.mem_map.mp member
        obtain ⟨word,entry,rfl⟩ := List.mem_map.mp inside
        exact absurd (small tuple among word entry) (not_lt.mpr (by exact_mod_cast more))
    have doubles : (numpy.tolist a).tail.map (List.take 6) = tuples.map fun tuple => (sixColumns tuple).map numpy.double := by
      rw [list,List.map_cons,List.tail_cons,List.map_map,List.map_map]
      rfl
    have same (tuple : Input UInt64) : (sixColumns tuple).map numpy.double = sixColumns tuple ↔ ∀ n ∈ sixColumns tuple, IsDouble n := by
      have range : ∀ n ∈ sixColumns tuple, 0 ≤ n ∧ n < 2 ^ 64 := fun n member =>
        rowOf_range cfg tuple n (List.mem_of_mem_take (rowOf_sixColumns cfg tuple ▸ member))
      have kept := @List.map_inj_left _ _ (sixColumns tuple) numpy.double id
      rw [List.map_id] at kept
      exact kept.trans (forall₂_congr fun n member => documented.double_iff (range n member).1 (range n member).2)
    rw [doubles,List.map_inj_left,NumbersKept,or_iff_right one]
    exact forall₂_congr fun tuple _ => same tuple

end

end Aprof.PyPlot
