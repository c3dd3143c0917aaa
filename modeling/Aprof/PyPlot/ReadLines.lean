import Aprof.PyPlot.ReportReader

/-! What the loop of `main.py` does with a line. -/
namespace Aprof.PyPlot

def noisy (i : List Str) : Bool := i.head? = some ['r'] ∨ i.head? = some ['p']

/-- A line that leaves the routines alone and does not stop the reader. -/
structure Quiet (i : List Str) : Prop where
  silent : noisy i = false
  worded : ∀ word ∈ i.head?, word ∈ [['v'],['m'],['e'],['k'],['f']] → 2 ≤ i.length
  counted : i.head? = some ['k'] → ∃ n, item i 1 >>= int = .ok n

/-- The further lines of a text that has some are quiet. -/
def QuietLines (text : Str) : Prop := ∀ line ∈ otherPieces '\n' text, Quiet (split line)

section
variable {numpy : Numpy} {options : FitOptions}

def Reading.core (state : Reading numpy) : List (AFunct numpy) × Int := (state.temp,state.totCalls)

def coreLine (options : FitOptions) (core : List (AFunct numpy) × Int) (i : List Str) :
    Except String (List (AFunct numpy) × Int) :=
  (readLine options { temp := core.1, totCalls := core.2 } i).map Reading.core

theorem readLine_core (state : Reading numpy) (i : List Str) :
    (readLine options state i).map Reading.core = coreLine options state.core i := by
  unfold coreLine readLine
  cases i with
  | nil => rfl
  | cons word rest =>
    dsimp only
    split
    · cases item (word :: rest) 1 <;> rfl
    split
    · cases item (word :: rest) 1 <;> rfl
    split
    · cases item (word :: rest) 1 <;> rfl
    split
    · cases item (word :: rest) 1 with
      | error message => rfl
      | ok tc =>
        show (int tc >>= _).map _ = (int tc >>= _).map _
        cases int tc <;> rfl
    split
    · cases item (word :: rest) 1 <;> rfl
    split
    · cases newFunct options (word :: rest) <;> rfl
    split
    · cases item (word :: rest) 7 with
      | error message => rfl
      | ok calls =>
        show (int calls >>= _).map _ = (int calls >>= _).map _
        cases int calls with
        | error message => rfl
        | ok calls =>
          show (state.f >>= _).map _ = (state.f >>= _).map _
          cases state.f with
          | error message => rfl
          | ok f =>
            show (f.addRms (word :: rest) >>= _).map _ = (f.addRms (word :: rest) >>= _).map _
            cases f.addRms (word :: rest) <;> rfl
    · rfl

def coreLines (options : FitOptions) (core : List (AFunct numpy) × Int) (lines : List Str) :
    Except String (List (AFunct numpy) × Int) :=
  lines.foldlM (fun core line => coreLine options core (split line)) core

theorem readLines_core (state : Reading numpy) (lines : List Str) :
    (readLines options state lines).map Reading.core = coreLines options state.core lines := by
  induction lines generalizing state with
  | nil => rfl
  | cons line lines ih =>
    unfold readLines coreLines at ih ⊢
    rw [List.foldlM_cons,List.foldlM_cons,← readLine_core]
    cases readLine options state (split line) with
    | error message => rfl
    | ok next => exact ih next

theorem coreLines_append (core : List (AFunct numpy) × Int) (lines more : List Str) :
    coreLines options core (lines ++ more) = coreLines options core lines >>= fun core => coreLines options core more :=
  List.foldlM_append ..

def rowCount (core : List (AFunct numpy) × Int) : Nat := (core.1.map fun f => (numpy.tolist f.rmsSet).length).sum

theorem item_ok {α : Type} {i : List α} {k : Nat} {a : α} : item i k = .ok a ↔ i[k]? = some a := by
  unfold item
  cases i[k]? with
  | none => simp
  | some found => simp

theorem newFunct_ok {i : List Str} {f : AFunct numpy} (made : newFunct options i = .ok f) :
    ∃ name object id fid, i[1]? = some name ∧ i[2]? = some object ∧ i[3]? = some id ∧ int id = .ok fid ∧
      f.rName = unquote name ∧ f.lib = (basename object).dropLast ∧ f.fid = fid ∧ f.rmsSet = numpy.array [dummyRow] ∧
      f.totCalls = 0 ∧ f.cumulativeCost = 0 := by
  obtain ⟨object,second,made⟩ := except_bind.mp made
  obtain ⟨name,first,made⟩ := except_bind.mp made
  obtain ⟨id,third,made⟩ := except_bind.mp made
  obtain ⟨fid,read,made⟩ := except_bind.mp made
  cases made
  exact ⟨name,object,id,fid,item_ok.mp first,item_ok.mp second,item_ok.mp third,read,rfl,rfl,rfl,rfl,rfl,rfl⟩

theorem addRms_ok {f next : AFunct numpy} {i : List Str} (added : f.addRms i = .ok next) :
    ∃ row calls cost, (i.drop 2).mapM int = .ok row ∧ row[5]? = some calls ∧ row[6]? = some cost ∧
      numpy.vstack f.rmsSet row = .ok next.rmsSet ∧
      next = { f with rmsSet := next.rmsSet, totCalls := f.totCalls + calls, cumulativeCost := f.cumulativeCost + cost,
                      nRms := f.nRms + 1 } := by
  obtain ⟨row,read,added⟩ := except_bind.mp added
  obtain ⟨rmsSet,stacked,added⟩ := except_bind.mp added
  obtain ⟨calls,fifth,added⟩ := except_bind.mp added
  obtain ⟨cost,sixth,added⟩ := except_bind.mp added
  cases added
  exact ⟨row,calls,cost,read,item_ok.mp fifth,item_ok.mp sixth,stacked,rfl⟩

theorem reading_f {state : Reading numpy} {f : AFunct numpy} : state.f = .ok f ↔ state.temp.getLast? = some f := by
  unfold Reading.f
  cases state.temp.getLast? with
  | none => simp
  | some last => simp

theorem quiet_cons {word : Str} {rest : List Str} (apart : word ≠ ['r'] ∧ word ≠ ['p'])
    (worded : word ∈ [['v'],['m'],['e'],['k'],['f']] → rest ≠ [])
    (counted : word = ['k'] → ∃ n, item (word :: rest) 1 >>= int = .ok n) : Quiet (word :: rest) := by
  refine ⟨?_,?_,fun same => counted (Option.some.inj same)⟩
  · rw [noisy,decide_eq_false_iff_not]
    rintro (same | same)
    · exact apart.1 (Option.some.inj same)
    · exact apart.2 (Option.some.inj same)
  · rintro _ ⟨⟩ header
    exact Nat.succ_le_succ (List.length_pos_iff.mpr (worded header))

theorem item_rest {word second : Str} {rest : List Str} (found : item (word :: rest) 1 = .ok second) : rest ≠ [] := by
  rintro rfl
  cases item_ok.mp found

theorem coreLine_cases (documented : numpy.Documented) {core next : List (AFunct numpy) × Int} {i : List Str}
    (done : coreLine options core i = .ok next) :
    noisy i = true ∧ rowCount next = rowCount core + 1 ∨ Quiet i ∧ next = core := by
  obtain ⟨state,read,rfl⟩ : ∃ state, readLine options { temp := core.1, totCalls := core.2 } i = .ok state ∧ state.core = next := by
    unfold coreLine at done
    cases read : readLine options { temp := core.1, totCalls := core.2 } i with
    | error message =>
      rw [read] at done
      cases done
    | ok state =>
      rw [read] at done
      exact ⟨state,rfl,Except.ok.inj done⟩
  unfold readLine at read
  cases i with
  | nil =>
    cases read
    exact .inr ⟨⟨rfl,fun word found => absurd found (by simp),fun same => absurd same (by simp)⟩,rfl⟩
  | cons word rest =>
    dsimp only at read
    split at read
    · next v =>
      obtain ⟨vn,second,read⟩ := except_bind.mp read
      cases read
      subst v
      exact .inr ⟨quiet_cons (by decide) (fun _ => item_rest second) (fun same => absurd same (by decide)),rfl⟩
    split at read
    · next m =>
      obtain ⟨value,second,read⟩ := except_bind.mp read
      cases read
      subst m
      exact .inr ⟨quiet_cons (by decide) (fun _ => item_rest second) (fun same => absurd same (by decide)),rfl⟩
    split at read
    · next e =>
      obtain ⟨ex,second,read⟩ := except_bind.mp read
      cases read
      subst e
      exact .inr ⟨quiet_cons (by decide) (fun _ => item_rest second) (fun same => absurd same (by decide)),rfl⟩
    split at read
    · next k =>
      obtain ⟨text,second,read⟩ := except_bind.mp read
      obtain ⟨tc,number,read⟩ := except_bind.mp read
      cases read
      subst k
      exact .inr ⟨quiet_cons (by decide) (fun _ => item_rest second)
        (fun _ => ⟨tc,except_bind.mpr ⟨text,second,number⟩⟩),rfl⟩
    split at read
    · next f =>
      obtain ⟨title,second,read⟩ := except_bind.mp read
      cases read
      subst f
      exact .inr ⟨quiet_cons (by decide) (fun _ => item_rest second) (fun same => absurd same (by decide)),rfl⟩
    split at read
    · next r =>
      obtain ⟨f,made,read⟩ := except_bind.mp read
      cases read
      subst r
      obtain ⟨-,-,-,-,-,-,-,-,-,-,-,rows,-,-⟩ := newFunct_ok made
      refine .inl ⟨rfl,?_⟩
      show ((core.1 ++ [f]).map _).sum = _
      rw [List.map_append,List.sum_append,List.map_singleton,List.sum_singleton,rows,documented.array_int64.1]
      rfl
    split at read
    · next p =>
      obtain ⟨text,-,read⟩ := except_bind.mp read
      obtain ⟨calls,-,read⟩ := except_bind.mp read
      obtain ⟨f,last,read⟩ := except_bind.mp read
      obtain ⟨added,stacked,read⟩ := except_bind.mp read
      cases read
      subst p
      obtain ⟨_,_,_,_,_,_,joined,_⟩ := addRms_ok stacked
      have split : core.1.dropLast ++ [f] = core.1 := List.dropLast_append_getLast? f (reading_f.mp last)
      refine .inl ⟨rfl,?_⟩
      show ((core.1.dropLast ++ [added]).map _).sum = ((core.1.map _).sum + 1)
      rw [← split,List.map_append,List.map_append,List.sum_append,List.sum_append,List.map_singleton,List.map_singleton,
        List.sum_singleton,List.sum_singleton,documented.vstack_adds joined,List.dropLast_concat,Nat.add_assoc]
    · next v m e k f r p =>
      cases read
      refine .inr ⟨quiet_cons ⟨r,p⟩ (fun header => ?_) (fun same => absurd same k),rfl⟩
      simp only [List.mem_cons,List.not_mem_nil,or_false] at header
      tauto

theorem coreLine_quiet {i : List Str} (quiet : Quiet i) (core : List (AFunct numpy) × Int) : coreLine options core i = .ok core := by
  cases i with
  | nil => rfl
  | cons word rest =>
    obtain ⟨silent,worded,counted⟩ := quiet
    rw [noisy,decide_eq_false_iff_not] at silent
    have second (header : word ∈ [['v'],['m'],['e'],['k'],['f']]) : ∃ next, item (word :: rest) 1 = .ok next := by
      cases rest with
      | nil => exact absurd (worded word rfl header) (by simp)
      | cons next more => exact ⟨next,rfl⟩
    unfold coreLine readLine
    dsimp only
    split
    · next v =>
      obtain ⟨next,found⟩ := second (by rw [v]; decide)
      rw [found]
      rfl
    split
    · next m =>
      obtain ⟨next,found⟩ := second (by rw [m]; decide)
      rw [found]
      rfl
    split
    · next e =>
      obtain ⟨next,found⟩ := second (by rw [e]; decide)
      rw [found]
      rfl
    split
    · next k =>
      obtain ⟨n,read⟩ := counted (by rw [k]; rfl)
      obtain ⟨text,found,number⟩ := except_bind.mp read
      rw [found]
      show (int text >>= _).map _ = _
      rw [number]
      rfl
    split
    · next f =>
      obtain ⟨next,found⟩ := second (by rw [f]; decide)
      rw [found]
      rfl
    split
    · next r => exact absurd (.inl (by rw [r]; rfl)) silent
    split
    · next p => exact absurd (.inr (by rw [p]; rfl)) silent
    · rfl

theorem coreLines_quiet {lines : List Str} (quiet : ∀ line ∈ lines, Quiet (split line)) (core : List (AFunct numpy) × Int) :
    coreLines options core lines = .ok core := by
  induction lines with
  | nil => rfl
  | cons line lines ih =>
    rw [coreLines,List.foldlM_cons,coreLine_quiet (quiet line List.mem_cons_self)]
    exact ih fun line member => quiet line (List.mem_cons_of_mem _ member)

def noisyLines (lines : List Str) : Nat := lines.countP fun line => noisy (split line)

theorem coreLines_count (documented : numpy.Documented) {core next : List (AFunct numpy) × Int} {lines : List Str}
    (done : coreLines options core lines = .ok next) :
    rowCount next = rowCount core + noisyLines lines ∧ ∀ line ∈ lines, noisy (split line) = true ∨ Quiet (split line) := by
  induction lines generalizing core with
  | nil =>
    cases done
    exact ⟨rfl,fun line member => absurd member List.not_mem_nil⟩
  | cons line lines ih =>
    rw [coreLines,List.foldlM_cons] at done
    obtain ⟨middle,first,done⟩ := except_bind.mp done
    obtain ⟨count,kinds⟩ := ih done
    rw [noisyLines,List.countP_cons]
    rcases coreLine_cases documented first with ⟨loud,adds⟩ | ⟨quiet,rfl⟩
    · refine ⟨?_,fun other member => ?_⟩
      · rw [if_pos loud,count,adds,noisyLines]
        omega
      · rcases List.mem_cons.mp member with rfl | later
        · exact .inl loud
        · exact kinds other later
    · refine ⟨?_,fun other member => ?_⟩
      · rw [if_neg (by rw [quiet.silent]; exact Bool.false_ne_true),count,noisyLines,Nat.add_zero]
      · rcases List.mem_cons.mp member with rfl | later
        · exact .inr quiet
        · exact kinds other later

theorem noisyLines_append (lines more : List Str) : noisyLines (lines ++ more) = noisyLines lines + noisyLines more :=
  List.countP_append

end

end Aprof.PyPlot
