import Aprof.Aggregates

/-! What each line of a report does to the functions, the cost and the local variables
of `merge_report`. The first lemmas are about what both builds share. -/
namespace Aprof

section
variable {D : Type}

def metricAfter (metric : InputMetric) (line : Char × List Str) : InputMetric :=
  if line.1 = 'i' ∧ metric = .invalid then readMetric (line.2.headD []) else metric

/-- The effect of a line that does not have the report rejected. -/
structure Applied (reading : Reading) (squares : Squares D) (state : Merging D) (line : Char × List Str) (after : Merging D) :
    Prop where
  curr : after.curr = currAfter state.curr line.1 line.2
  totalCost : after.totalCost = if line.1 = 'k' then reading.number (line.2.headD []) else state.totalCost
  metric : after.rt.inputMetric = metricAfter state.rt.inputMetric line
  extraCost : after.rt.extraCost.toNat = state.rt.extraCost.toNat +
    if line.1 = 'r' ∧ state.curr = none then state.totalCost.toNat else 0
  keeps : pointAt reading state.curr line.1 line.2 = none → KeepsEntries state.rt after.rt
  merges : ∀ point, pointAt reading state.curr line.1 line.2 = some point → state.rt.Named → after.rt.Named ∧ ∃ inputMap,
    mergeInputMap squares state.rt.inputMetric point.line (entry state.rt point.name).1 = .ok inputMap ∧
    ∀ other, (entry after.rt other).1 = if other = point.name then inputMap else (entry state.rt other).1

section
variable {reading : Reading} {squares : Squares D} {state after : Merging D} {args : List Str}

theorem pointAt_other {curr : Option Str} {tag : Char} (other : tag ≠ 'p') : pointAt reading curr tag args = none :=
  if_neg other

theorem Applied.header {tag : Char} (other : tag ∉ ['r','p','k','i']) (keeps : KeepsEntries state.rt after.rt)
    (curr : after.curr = state.curr) (totalCost : after.totalCost = state.totalCost)
    (metric : after.rt.inputMetric = state.rt.inputMetric) (extraCost : after.rt.extraCost = state.rt.extraCost) :
    Applied reading squares state (tag,args) after := by
  simp only [List.mem_cons,List.not_mem_nil,or_false,not_or] at other
  obtain ⟨r,p,k,i⟩ := other
  constructor
  · rw [curr]
    exact (if_neg r).symm
  · rw [totalCost]
    exact (if_neg k).symm
  · rw [metric]
    exact (if_neg fun holds => i holds.1).symm
  · rw [extraCost,if_neg fun holds => r holds.1]
    rfl
  · exact fun _ => keeps
  · intro point found
    cases (pointAt_other p).symm.trans found

theorem searchFunction_rest (rt : Profile D) (name : Str) :
    (searchFunction rt name).inputMetric = rt.inputMetric ∧ (searchFunction rt name).extraCost = rt.extraCost := by
  unfold searchFunction
  split <;> exact ⟨rfl,rfl⟩

theorem searchObject_rest (rt : Profile D) (name objName : Str) :
    (searchObject rt name objName).inputMetric = rt.inputMetric ∧ (searchObject rt name objName).extraCost = rt.extraCost := by
  unfold searchObject
  split
  · exact ⟨rfl,rfl⟩
  · split
    · exact ⟨rfl,rfl⟩
    · split <;> exact ⟨rfl,rfl⟩

theorem addTotal_ok {extraCost : UInt64} (counted : addTotal state = .ok extraCost) : extraCost.toNat =
    state.rt.extraCost.toNat + if state.curr = none then state.totalCost.toNat else 0 := by
  unfold addTotal at counted
  split at counted
  · next first =>
    rw [if_pos first]
    exact (add_ok counted).1
  · next later =>
    cases counted
    rw [if_neg later]
    rfl

theorem Applied.routine {extraCost : UInt64} {objName : Str} {rid : UInt32} (counted : addTotal state = .ok extraCost) :
    Applied reading squares state ('r',args) {state with
      rt := searchObject (searchFunction {state.rt with extraCost := extraCost} (unquote (args.headD [])))
        (unquote (args.headD [])) objName
      curr := some (unquote (args.headD []))
      rid := rid} := by
  have object := searchObject_rest (searchFunction {state.rt with extraCost := extraCost} (unquote (args.headD [])))
    (unquote (args.headD [])) objName
  have function := searchFunction_rest {state.rt with extraCost := extraCost} (unquote (args.headD []))
  have added : KeepsEntries state.rt {state.rt with extraCost := extraCost} := .table rfl
  constructor
  · rfl
  · rfl
  · exact object.1.trans function.1
  · refine (congrArg UInt64.toNat (object.2.trans function.2)).trans ?_
    simpa only [true_and] using addTotal_ok counted
  · exact fun _ => (added.trans searchFunction_keeps).trans searchObject_keeps
  · intro point found
    have none : pointAt reading state.curr 'r' args = none := pointAt_other (by decide)
    cases none.symm.trans found

theorem Applied.point {name : Str} {fn : Function D} {line : TupleLine} {inputMap : HashTable (Input D)}
    {change : Function D → Function D} {keeps : ∀ fn, HashNode.key (change fn) = HashNode.key fn}
    (current : state.curr = some name) (found : findFunction state.rt name = some fn)
    (read : reading.tuple args.tail = some line) (names : ∀ fn, (change fn).name = fn.name)
    (merged : mergeInputMap squares state.rt.inputMetric line fn.inputMap = .ok inputMap)
    (stored : (change fn).inputMap = inputMap) :
    Applied reading squares state ('p',args) {state with rt := setFunction state.rt name change keeps} := by
  have this : pointAt reading state.curr 'p' args = some ⟨name,line⟩ := by
    unfold pointAt
    rw [if_pos rfl,current,Option.bind_some,read]
    rfl
  constructor
  · rfl
  · rfl
  · rfl
  · rfl
  · intro missing
    cases this.symm.trans missing
  · intro point same named
    cases this.symm.trans same
    obtain ⟨named',entries⟩ := @setFunction_entry _ _ _ _ _ keeps named names found
    refine ⟨named',inputMap,?_,fun other => ?_⟩
    · unfold entry
      rw [found]
      exact merged
    · refine (congrArg Prod.fst (entries other)).trans ?_
      split
      · exact stored
      · rfl

theorem Applied.total {sum : UInt64} (read : sum = reading.number (args.headD [])) :
    Applied reading squares state ('k',args) {state with totalCost := sum} := by
  constructor
  · rfl
  · exact read
  · rfl
  · rfl
  · exact fun _ => .refl _
  · intro point found
    cases found

theorem Applied.inputMetric (ok : mergeMetric state args = .ok (false,after)) :
    Applied reading squares state ('i',args) after := by
  obtain ⟨⟨token,rest⟩,read,ok⟩ := bind_ok.mp ok
  have same := nextToken_ok read
  dsimp only at ok
  split at ok
  · next known =>
    have valid : state.rt.inputMetric ≠ .invalid := by
      rcases known with known | known <;> rw [known] <;> nofun
    split at ok
    · cases ok
    · cases ok
      refine ⟨rfl,rfl,?_,rfl,fun _ => .refl _,fun point found => ?_⟩
      · exact (if_neg fun holds => valid holds.2).symm
      · cases found
  · next unknown =>
    have missing : state.rt.inputMetric = .invalid := by
      cases metric : state.rt.inputMetric with
      | rms => exact absurd (.inl metric) unknown
      | drms => exact absurd (.inr metric) unknown
      | invalid => rfl
    cases ok
    refine ⟨rfl,rfl,?_,rfl,fun _ => .table rfl,fun point found => ?_⟩
    · refine Eq.symm ((if_pos ⟨rfl,missing⟩).trans ?_)
      rw [same]
      rfl
    · cases found

end

def toolReading : Reading where
  number token := (strtoull10 token).1
  tuple args := (readTuple args).toOption

section
variable {squares : Squares D} {state after : Merging D} {tag : Char} {args : List Str}

theorem mergeRoutine_applied (ok : mergeRoutine state args = .ok (false,after)) :
    Applied toolReading squares state ('r',args) after := by
  obtain ⟨extraCost,counted,ok⟩ := bind_ok.mp ok
  obtain ⟨⟨name,rest⟩,named,ok⟩ := bind_ok.mp ok
  obtain ⟨⟨objName,_⟩,_,ok⟩ := bind_ok.mp ok
  obtain ⟨⟨id,_⟩,_,ok⟩ := bind_ok.mp ok
  obtain ⟨-,rfl⟩ := accept_ok ok
  rw [nextName_ok named]
  exact .routine counted

theorem mergeMangled_applied (ok : mergeMangled state args = .ok (false,after)) :
    Applied toolReading squares state ('d',args) after := by
  unfold mergeMangled at ok
  cases current : state.curr with
  | none =>
    rw [current] at ok
    cases ok
  | some name =>
    rw [current] at ok
    obtain ⟨⟨id,_⟩,_,ok⟩ := bind_ok.mp ok
    obtain ⟨-,-,ok⟩ := bind_ok.mp ok
    obtain ⟨-,-,ok⟩ := bind_ok.mp ok
    obtain ⟨⟨mangled,_⟩,_,ok⟩ := bind_ok.mp ok
    cases found : findFunction state.rt name with
    | none =>
      simp only [found] at ok
      cases ok
    | some fn =>
      simp only [found] at ok
      split at ok
      · obtain ⟨-,-,ok⟩ := bind_ok.mp ok
        obtain ⟨-,rfl⟩ := accept_ok ok
        exact .header (by decide) (.refl _) rfl rfl rfl rfl
      · obtain ⟨-,rfl⟩ := accept_ok ok
        exact .header (by decide) (setFunction_keeps (fun _ => rfl) found ⟨rfl,rfl⟩) current.symm rfl rfl rfl

theorem mergePoint_applied (ok : mergePoint squares state args = .ok (false,after)) :
    Applied toolReading squares state ('p',args) after := by
  obtain ⟨⟨id,rest⟩,identified,ok⟩ := bind_ok.mp ok
  obtain ⟨-,-,ok⟩ := bind_ok.mp ok
  obtain ⟨line,read,ok⟩ := bind_ok.mp ok
  have tuple : toolReading.tuple args.tail = some line := by
    have same := nextId_ok identified
    rw [List.drop_one] at same
    subst same
    exact congrArg Except.toOption read
  cases current : state.curr with
  | none =>
    simp only [current] at ok
    cases ok
  | some name =>
    cases found : findFunction state.rt name with
    | none =>
      simp only [current,found] at ok
      cases ok
    | some fn =>
      simp only [current,found] at ok
      obtain ⟨inputMap,merged,ok⟩ := bind_ok.mp ok
      obtain ⟨-,rfl⟩ := accept_ok ok
      have applied := @Applied.point D toolReading squares state args name fn line inputMap
        (fun fn => {fn with inputMap := inputMap}) (fun _ => rfl) current found tuple (fun _ => rfl) merged rfl
      rw [current] at applied
      exact applied

theorem mergeHeader_applied (other : tag ∈ ['a','v','t','e']) (ok : mergeLine squares state tag args = .ok (false,after)) :
    Applied toolReading squares state (tag,args) after := by
  simp only [List.mem_cons,List.not_mem_nil,or_false] at other
  rcases other with rfl | rfl | rfl | rfl
  · obtain ⟨-,-,ok⟩ := bind_ok.mp ok
    obtain ⟨-,-,ok⟩ := bind_ok.mp ok
    split at ok
    · cases ok
      exact .header (by decide) (.table rfl) rfl rfl rfl rfl
    · split at ok <;> cases ok
      exact .header (by decide) (.refl _) rfl rfl rfl rfl
  · obtain ⟨⟨ver,_⟩,-,ok⟩ := bind_ok.mp ok
    dsimp only at ok
    split at ok <;> cases ok
    exact .header (by decide) (.refl _) rfl rfl rfl rfl
  · obtain ⟨⟨value,_⟩,-,ok⟩ := bind_ok.mp ok
    obtain ⟨-,-,ok⟩ := bind_ok.mp ok
    by_cases missing : state.rt.memoryResolution = 0
    · simp only [if_pos missing,ne_eq,not_true_eq_false,if_false] at ok
      cases ok
      exact .header (by decide) (.table rfl) rfl rfl rfl rfl
    · simp only [if_neg missing] at ok
      split at ok <;> cases ok
      exact .header (by decide) (.refl _) rfl rfl rfl rfl
  · obtain ⟨⟨bmtime,_⟩,-,ok⟩ := bind_ok.mp ok
    by_cases missing : state.rt.binaryMtime = 0
    · simp only [if_pos missing,ne_eq,not_true_eq_false,if_false] at ok
      cases ok
      exact .header (by decide) (.table rfl) rfl rfl rfl rfl
    · simp only [if_neg missing] at ok
      split at ok <;> cases ok
      exact .header (by decide) (.refl _) rfl rfl rfl rfl

theorem mergeLine_applied (ok : mergeLine squares state tag args = .ok (false,after)) :
    Applied toolReading squares state (tag,args) after := by
  have ignored : ∀ {tag : Char}, tag ∉ ['r','p','k','i'] → accept state = .ok (false,after) →
      Applied toolReading squares state (tag,args) after := by
    intro tag other ok
    cases ok
    exact .header other (.refl _) rfl rfl rfl rfl
  have whole := ok
  unfold mergeLine at ok
  split at ok
  · exact mergeRoutine_applied ok
  · exact mergeMangled_applied ok
  · exact mergePoint_applied ok
  · exact mergeHeader_applied (by decide) whole
  · obtain ⟨⟨sum,_⟩,read,ok⟩ := bind_ok.mp ok
    obtain ⟨-,-,ok⟩ := bind_ok.mp ok
    cases ok
    exact .total (nextNumber_ok read).1
  · exact mergeHeader_applied (by decide) whole
  · cases ok
  · cases ok
  · exact .inputMetric ok
  · exact mergeHeader_applied (by decide) whole
  · exact ignored (by decide) ok
  · exact mergeHeader_applied (by decide) whole
  · exact ignored (by decide) ok
  · exact ignored (by decide) ok
  · exact ignored (by decide) ok
  · cases ok

end

namespace Helper

def reading : Reading where
  number token := (strtoll token).1
  tuple args := (readTuple false args).toOption

/-- The effect of a line in the helper. `total_calls` grows by what the tuple of the line has got to. -/
structure Applied (squares : Squares D) (state : HelperMerging D) (line : Char × List Str) (after : HelperMerging D) :
    Prop extends Aprof.Applied reading squares state.toMerging line after.toMerging where
  totals : pointAt reading state.curr line.1 line.2 = none →
    after.fields.totalRealCost = state.fields.totalRealCost ∧ after.fields.totalSelfCost = state.fields.totalSelfCost
  counts : ∀ point, pointAt reading state.curr line.1 line.2 = some point →
    after.fields.totalRealCost.toNat = state.fields.totalRealCost.toNat + point.line.cumulReal.toNat ∧
    after.fields.totalSelfCost.toNat = state.fields.totalSelfCost.toNat + point.line.self.toNat ∧
    (state.rt.Named → (∃ tuple, tupleOf after.rt point.name point.line.inputSize = some tuple ∧
      (entry after.rt point.name).2.toNat = (entry state.rt point.name).2.toNat + tuple.calls.toNat) ∧
      ∀ other, other ≠ point.name → (entry after.rt other).2 = (entry state.rt other).2)

section
variable {squares : Squares D} {state after : HelperMerging D} {tag : Char} {args : List Str}

theorem inRange_ok {erange : Bool} {token : Str} {value : UInt64} (ok : inRange erange token = .ok value) :
    erange = false ∧ value = (strtoll token).1 := by
  obtain ⟨_,checked,ok⟩ := bind_ok.mp ok
  cases ok
  have passed := check_ok.mp checked
  cases erange
  · exact ⟨rfl,rfl⟩
  · cases passed

theorem nextNumber_ok {erange : Bool} {message : String} {rest : List Str} {value : UInt64}
    (ok : nextNumber erange message args = .ok (value,rest)) :
    erange = false ∧ value = (strtoll (args.headD [])).1 ∧ rest = args.tail := by
  obtain ⟨⟨token,tail⟩,read,ok⟩ := bind_ok.mp ok
  obtain ⟨number,fits,ok⟩ := bind_ok.mp ok
  obtain ⟨fine,rfl⟩ := inRange_ok fits
  cases ok
  rw [nextToken_ok read]
  exact ⟨fine,rfl,rfl⟩

/-- A line that is no `p` counts nothing. -/
theorem Applied.other (applied : Aprof.Applied reading squares state.toMerging (tag,args) after.toMerging) (other : tag ≠ 'p')
    (fields : after.fields.totalRealCost = state.fields.totalRealCost ∧
      after.fields.totalSelfCost = state.fields.totalSelfCost) : Applied squares state (tag,args) after := by
  refine ⟨applied,fun _ => fields,fun point found => ?_⟩
  cases (pointAt_other other).symm.trans found

theorem mergeRoutine_applied (ok : mergeRoutine state args = .ok (false,after)) : Applied squares state ('r',args) after := by
  obtain ⟨extraCost,counted,ok⟩ := bind_ok.mp ok
  obtain ⟨⟨name,rest⟩,named,ok⟩ := bind_ok.mp ok
  obtain ⟨⟨objName,_⟩,_,ok⟩ := bind_ok.mp ok
  obtain ⟨⟨id,_⟩,_,ok⟩ := bind_ok.mp ok
  cases ok
  rw [nextName_ok named]
  exact .other (.routine counted) (by decide) ⟨rfl,rfl⟩

theorem mergeMangled_applied (ok : mergeMangled state args = .ok (false,after)) : Applied squares state ('d',args) after := by
  unfold mergeMangled at ok
  cases current : state.curr with
  | none =>
    rw [current] at ok
    cases ok
  | some name =>
    rw [current] at ok
    obtain ⟨⟨token,_⟩,_,ok⟩ := bind_ok.mp ok
    obtain ⟨-,-,ok⟩ := bind_ok.mp ok
    obtain ⟨_,-,ok⟩ := bind_ok.mp ok
    obtain ⟨-,-,ok⟩ := bind_ok.mp ok
    obtain ⟨⟨mangled,_⟩,_,ok⟩ := bind_ok.mp ok
    cases found : findFunction state.rt name with
    | none =>
      simp only [found] at ok
      cases ok
    | some fn =>
      simp only [found] at ok
      split at ok
      · obtain ⟨-,-,ok⟩ := bind_ok.mp ok
        cases ok
        exact .other (.header (by decide) (.refl _) rfl rfl rfl rfl) (by decide) ⟨rfl,rfl⟩
      · cases ok
        exact .other (.header (by decide) (setFunction_keeps (fun _ => rfl) found ⟨rfl,rfl⟩) current.symm rfl rfl rfl)
          (by decide) ⟨rfl,rfl⟩

theorem mergePoint_applied (ok : mergePoint squares state args = .ok (false,after)) : Applied squares state ('p',args) after := by
  obtain ⟨⟨id,rest⟩,identified,ok⟩ := bind_ok.mp ok
  obtain ⟨fine,-,tail⟩ := nextNumber_ok identified
  obtain ⟨-,-,ok⟩ := bind_ok.mp ok
  obtain ⟨line,read,ok⟩ := bind_ok.mp ok
  have tuple : reading.tuple args.tail = some line := by
    rw [fine,tail] at read
    exact congrArg Except.toOption read
  cases current : state.curr with
  | none =>
    simp only [current] at ok
    cases ok
  | some name =>
    cases found : findFunction state.rt name with
    | none =>
      simp only [current,found] at ok
      cases ok
    | some fn =>
      simp only [current,found] at ok
      obtain ⟨inputMap,merged,ok⟩ := bind_ok.mp ok
      cases stored : htFind inputMap line.inputSize.toNat fun _ => true with
      | none =>
        simp only [stored] at ok
        cases ok
      | some input =>
        simp only [stored] at ok
        obtain ⟨totalCalls,calls,ok⟩ := bind_ok.mp ok
        obtain ⟨totalRealCost,real,ok⟩ := bind_ok.mp ok
        obtain ⟨totalSelfCost,self,ok⟩ := bind_ok.mp ok
        cases ok
        have point : pointAt reading state.curr 'p' args = some ⟨name,line⟩ := by
          unfold pointAt
          rw [if_pos rfl,current,Option.bind_some,tuple]
          rfl
        have applied := @Aprof.Applied.point D reading squares state.toMerging args name fn line inputMap
          (fun fn => {fn with inputMap := inputMap, totalCalls := totalCalls}) (fun _ => rfl) current found tuple
          (fun _ => rfl) merged rfl
        rw [current] at applied
        refine ⟨applied,fun missing => ?_,fun other same => ?_⟩
        · cases point.symm.trans missing
        · cases point.symm.trans same
          refine ⟨(add_ok real).1,(add_ok self).1,fun named => ?_⟩
          obtain ⟨-,entries⟩ := @setFunction_entry D state.rt name fn
            (fun fn => {fn with inputMap := inputMap, totalCalls := totalCalls}) (fun _ => rfl) named (fun _ => rfl) found
          have own := entries name
          rw [if_pos rfl] at own
          refine ⟨⟨input,?_,?_⟩,fun other different => ?_⟩
          · unfold tupleOf
            dsimp only
            rw [own]
            exact stored
          · dsimp only
            rw [own]
            unfold entry
            rw [found]
            exact (add_ok calls).1
          · refine (congrArg Prod.snd (entries other)).trans ?_
            rw [if_neg different]

theorem mergeHeader_applied (other : tag ∈ ['a','v','t','e']) (ok : mergeLine squares state tag args = .ok (false,after)) :
    Applied squares state (tag,args) after := by
  simp only [List.mem_cons,List.not_mem_nil,or_false] at other
  rcases other with rfl | rfl | rfl | rfl
  · obtain ⟨-,-,ok⟩ := bind_ok.mp ok
    obtain ⟨-,-,ok⟩ := bind_ok.mp ok
    split at ok
    · cases ok
      exact .other (.header (by decide) (.table rfl) rfl rfl rfl rfl) (by decide) ⟨rfl,rfl⟩
    · split at ok <;> cases ok
      exact .other (.header (by decide) (.refl _) rfl rfl rfl rfl) (by decide) ⟨rfl,rfl⟩
  · obtain ⟨⟨ver,_⟩,-,ok⟩ := bind_ok.mp ok
    dsimp only at ok
    split at ok <;> cases ok
    exact .other (.header (by decide) (.refl _) rfl rfl rfl rfl) (by decide) ⟨rfl,rfl⟩
  · obtain ⟨⟨token,_⟩,-,ok⟩ := bind_ok.mp ok
    obtain ⟨-,-,ok⟩ := bind_ok.mp ok
    by_cases missing : state.rt.memoryResolution = 0
    · simp only [if_pos missing,ne_eq,not_true_eq_false,if_false] at ok
      cases ok
      exact .other (.header (by decide) (.table rfl) rfl rfl rfl rfl) (by decide) ⟨rfl,rfl⟩
    · simp only [if_neg missing] at ok
      split at ok <;> cases ok
      exact .other (.header (by decide) (.refl _) rfl rfl rfl rfl) (by decide) ⟨rfl,rfl⟩
  · obtain ⟨⟨token,_⟩,-,ok⟩ := bind_ok.mp ok
    dsimp only at ok
    by_cases missing : state.rt.binaryMtime = 0
    · simp only [if_pos missing,ne_eq,not_true_eq_false,if_false] at ok
      cases ok
      exact .other (.header (by decide) (.table rfl) rfl rfl rfl rfl) (by decide) ⟨rfl,rfl⟩
    · simp only [if_neg missing] at ok
      split at ok <;> cases ok
      exact .other (.header (by decide) (.refl _) rfl rfl rfl rfl) (by decide) ⟨rfl,rfl⟩

theorem mergeLine_applied (ok : mergeLine squares state tag args = .ok (false,after)) : Applied squares state (tag,args) after := by
  have ignored : ∀ {tag : Char}, tag ∉ ['r','p','k','i'] → accept state = .ok (false,after) →
      Applied squares state (tag,args) after := by
    intro tag other ok
    cases ok
    exact .other (.header other (.refl _) rfl rfl rfl rfl) (fun same => other (by simp [same])) ⟨rfl,rfl⟩
  have whole := ok
  unfold mergeLine at ok
  split at ok
  · exact mergeRoutine_applied ok
  · exact mergeMangled_applied ok
  · exact mergePoint_applied ok
  · exact mergeHeader_applied (by decide) whole
  · obtain ⟨⟨sum,_⟩,read,ok⟩ := bind_ok.mp ok
    obtain ⟨-,-,ok⟩ := bind_ok.mp ok
    cases ok
    exact .other (.total (nextNumber_ok read).2.1) (by decide) ⟨rfl,rfl⟩
  · exact mergeHeader_applied (by decide) whole
  · cases ok
  · cases ok
  · obtain ⟨⟨invalid,merging⟩,read,ok⟩ := bind_ok.mp ok
    cases ok
    exact .other (.inputMetric read) (by decide) ⟨rfl,rfl⟩
  · exact mergeHeader_applied (by decide) whole
  · exact ignored (by decide) ok
  · exact mergeHeader_applied (by decide) whole
  · exact ignored (by decide) ok
  · exact ignored (by decide) ok
  · exact ignored (by decide) ok
  · cases ok

end

end Helper

end

end Aprof
