import Aprof.General.Windows
import Aprof.Plot.GroupedCharts

/-! The window of a smoothed chart and the points it leaves. -/
namespace Aprof.Plot

namespace Window

/-- The tuples that the search for a valid one ends with: the last one is taken in any case. -/
def considered (shown : Input → Bool) : List Input → List Input
  | [] => []
  | te :: rest => if shown te = true ∨ rest = [] then te :: considered shown rest else considered shown rest

theorem extract_considered (shown : Input → Bool) (te : Option Input) {list : List Input} (nonempty : list ≠ []) :
    ∃ found rest, extract shown te list = (some found,rest) ∧ considered shown list = found :: considered shown rest := by
  induction list generalizing te with
  | nil => exact absurd rfl nonempty
  | cons first rest ih =>
    rw [extract,considered]
    by_cases passes : shown first = true
    · rw [if_pos passes,if_pos (.inl passes)]
      exact ⟨first,rest,rfl,rfl⟩
    · rw [if_neg passes]
      by_cases last : rest = []
      · rw [if_pos (.inr last),last]
        exact ⟨first,[],rfl,rfl⟩
      · rw [if_neg (by tauto)]
        exact ih (some first) last

/-- The second part of a turn, after `c` tuples were added and `add` were not. -/
def removeTuples (numbers : Numbers) (ys : Input → Except String (ℚ × ℚ × ℚ)) (missing : Except String (ℚ × ℚ × ℚ)) (length : Nat) (t : Int)
    (add c : Nat) (window : Window) : Except String Window :=
  if t ≤ window.n ∨ c = 0 then do
    let window ← window.removeTuple numbers ys missing length
    if 0 < add then window.removeTuple numbers ys missing length else .ok window
  else .ok window

def addPoint (length : Nat) (dots : Input → Window → List Dot) (c : Nat) (window : Window) : Except String (Window × Bool) :=
  match window.slots (window.current % length) with
  | none => .error "NullPointerException"
  | some te =>
    .ok ({ window with
        n := window.n + c
        points := window.points ++ dots te { window with n := window.n + c }
        current := window.current + 1 },
      window.current ≠ 0 ∧ window.n + c = 1)

theorem turn_eq (numbers : Numbers) (shown : Input → Bool) (ys : Input → Except String (ℚ × ℚ × ℚ)) (missing : Except String (ℚ × ℚ × ℚ))
    (length : Nat) (dots : Input → Window → List Dot) (t : Int) (window : Window) :
    window.turn numbers shown ys missing length dots t =
      window.addTuples numbers shown ys length (if window.n = t ∨ window.n = 0 then 1 else 2) 0 >>= fun added =>
        added.2.2.removeTuples numbers ys missing length t added.1 added.2.1 >>= addPoint length dots added.2.1 := by
  unfold turn
  refine bind_congr fun added => ?_
  unfold removeTuples addPoint
  dsimp only
  split
  · cases added.2.2.removeTuple numbers ys missing length with
    | error message => rfl
    | ok window =>
      show (if 0 < added.1 then _ else _) = (if 0 < added.1 then _ else _) >>= _
      split <;> rfl
  · rfl

section
variable (shown : Input → Bool) (val : Input → ℚ × ℚ × ℚ) (length : Nat) (tuples : List Input)

/-- The window holds the tuples from `tail` on and before `head`. -/
structure Holds (window : Window) : Prop where
  list : considered shown window.list = tuples.drop window.head
  slots : Circular length window.slots tuples window.head
  sum : window.sum = ((span tuples window.tail window.head).map val).sum
  order : window.tail ≤ window.head
  bound : window.head ≤ tuples.length

end

def Kept (numbers : Numbers) (val : Input → ℚ × ℚ × ℚ) (tuples : List Input) (i j : Nat) : Prop :=
  numbers.doubles ((span tuples i j).map val).sum = ((span tuples i j).map val).sum

section
variable {numbers : Numbers} {shown : Input → Bool} {val : Input → ℚ × ℚ × ℚ} {length : Nat} {tuples : List Input} {window : Window}
  {ys : Input → Except String (ℚ × ℚ × ℚ)} {missing : Except String (ℚ × ℚ × ℚ)}

theorem addTuples_holds (holds : Holds shown val length tuples window) (add c : Nat) {head : Nat}
    (gets : head = window.head + min add (tuples.length - window.head))
    (sums : ∀ j, window.head < j → j ≤ head → Kept numbers val tuples window.tail j)
    (values : ∀ i (small : i < tuples.length), i < head → ys tuples[i] = .ok (val tuples[i])) :
    ∃ next, addTuples numbers shown ys length add c window = .ok (add - (head - window.head),c + (head - window.head),next) ∧
      Holds shown val length tuples next ∧ next.head = head ∧
      next = { window with list := next.list, slots := next.slots, head := next.head, sum := next.sum } := by
  induction add generalizing window c with
  | zero =>
    have same : head = window.head := by omega
    subst same
    refine ⟨window,?_,holds,rfl,rfl⟩
    rw [addTuples,Nat.sub_self]
    rfl
  | succ add ih =>
    by_cases nonempty : window.list = []
    · have whole : tuples.length ≤ window.head := List.drop_eq_nil_iff.mp (by rw [← holds.list,nonempty]; rfl)
      have same : head = window.head := by omega
      subst same
      refine ⟨window,?_,holds,rfl,rfl⟩
      rw [addTuples,nonempty,Nat.sub_self]
      simp only [extract]
      rw [← nonempty]
      rfl
    · obtain ⟨te,rest,found,first⟩ := extract_considered shown none nonempty
      rw [holds.list] at first
      have small : window.head < tuples.length := by
        rw [← Nat.not_le,← List.drop_eq_nil_iff,first]
        exact List.cons_ne_nil _ _
      rw [List.drop_eq_getElem_cons small,List.cons.injEq] at first
      obtain ⟨rfl,later⟩ := first
      have grown : Holds shown val length tuples { window with
          list := rest
          slots := Function.update window.slots (window.head % length) (some tuples[window.head])
          head := window.head + 1
          sum := numbers.doubles (window.sum + val tuples[window.head]) } := by
        refine ⟨later.symm,?_,?_,holds.order.trans (Nat.le_succ _),small⟩
        · rw [← List.getElem?_eq_getElem small]
          exact holds.slots.push
        · have kept := sums (window.head + 1) (Nat.lt_succ_self _) (by omega)
          have whole : ((span tuples window.tail (window.head + 1)).map val).sum = window.sum + val tuples[window.head] := by
            rw [span_push holds.order small,List.map_append,List.sum_append,← holds.sum,List.map_singleton,List.sum_singleton]
          rw [Kept,whole] at kept
          exact kept.trans whole.symm
      obtain ⟨next,added,kept,reached,same⟩ := ih grown (c + 1) (by
        show head = window.head + 1 + min add (tuples.length - (window.head + 1))
        omega) fun j after => sums j (Nat.lt_of_succ_lt after)
      refine ⟨next,?_,kept,reached,same⟩
      rw [addTuples,found]
      simp only [values window.head small (by omega)]
      refine added.trans ?_
      congr 2
      · show add - (head - (window.head + 1)) = _
        omega
      · congr 1
        show c + 1 + (head - (window.head + 1)) = _
        omega

theorem removeTuple_holds (holds : Holds shown val length tuples window) (inside : window.tail < window.head)
    (near : window.head ≤ window.tail + length) (sums : Kept numbers val tuples (window.tail + 1) window.head)
    (values : ∀ i (small : i < tuples.length), i < window.head → ys tuples[i] = .ok (val tuples[i])) :
    ∃ next, window.removeTuple numbers ys missing length = .ok next ∧ Holds shown val length tuples next ∧
      next = { window with tail := window.tail + 1, sum := next.sum, n := window.n - 1 } := by
  have small : window.tail < tuples.length := by
    have := holds.bound
    omega
  refine ⟨{ window with
      tail := window.tail + 1
      sum := numbers.doubles (window.sum - val tuples[window.tail])
      n := window.n - 1 },?_,?_,rfl⟩
  · rw [removeTuple,holds.slots.stored window.tail inside near,List.getElem?_eq_getElem small]
    simp only [values window.tail small inside]
    rfl
  · refine ⟨holds.list,holds.slots,?_,inside,holds.bound⟩
    rw [holds.sum,span_pop inside holds.bound,List.map_cons,List.sum_cons,add_sub_cancel_left]
    exact sums

theorem removeTuples_holds (holds : Holds shown val length tuples window) (t : Int) (c add : Nat) {tail : Nat}
    (takes : tail = window.tail ∧ ¬(t ≤ window.n ∨ c = 0) ∨ tail = window.tail + 1 ∧ (t ≤ window.n ∨ c = 0) ∧ add = 0 ∨
      tail = window.tail + 2 ∧ (t ≤ window.n ∨ c = 0) ∧ 0 < add)
    (inside : tail ≤ window.head) (near : window.head ≤ window.tail + length)
    (sums : ∀ i, window.tail < i → i ≤ tail → Kept numbers val tuples i window.head)
    (values : ∀ i (small : i < tuples.length), i < window.head → ys tuples[i] = .ok (val tuples[i])) :
    ∃ next, window.removeTuples numbers ys missing length t add c = .ok next ∧ Holds shown val length tuples next ∧
      next = { window with tail := tail, sum := next.sum, n := window.n + window.tail - tail } := by
  unfold removeTuples
  rcases takes with ⟨rfl,keeps⟩ | ⟨rfl,removes,one⟩ | ⟨rfl,removes,two⟩
  · refine ⟨window,if_neg keeps,holds,?_⟩
    rw [add_sub_cancel_right]
  · obtain ⟨next,removed,kept,same⟩ := @removeTuple_holds numbers shown val length tuples window ys missing holds inside near
      (sums _ (Nat.lt_succ_self _) le_rfl) values
    refine ⟨next,?_,kept,?_⟩
    · rw [if_pos removes,removed]
      exact if_neg (by omega)
    · rw [same]
      congr 1
      push_cast
      ring
  · obtain ⟨first,removed,kept,same⟩ := @removeTuple_holds numbers shown val length tuples window ys missing holds (by omega) near
      (sums _ (Nat.lt_succ_self _) (by omega)) values
    have tail : first.tail = window.tail + 1 := by rw [same]
    have head : first.head = window.head := by rw [same]
    obtain ⟨next,removed',kept',same'⟩ := @removeTuple_holds numbers shown val length tuples first ys missing kept (by omega) (by omega)
      (by rw [tail,head]; exact sums _ (by omega) le_rfl) (by rw [head]; exact values)
    refine ⟨next,?_,kept',?_⟩
    · rw [if_pos removes,removed]
      exact (if_pos two).trans removed'
    · rw [same',same]
      congr 1
      show window.n - 1 - 1 = window.n + window.tail - (window.tail + 2 : Nat)
      omega

/-- How the ends of a window of the width `t` move over `m` tuples in a turn. -/
def Moves (t m tail head tail' head' : Nat) : Prop :=
  ∃ add, (add = 1 ∧ (head = tail + t ∨ head = tail) ∨ add = 2 ∧ head ≠ tail + t ∧ head ≠ tail) ∧
    head' = head + min add (m - head) ∧
    (tail' = tail ∧ ¬(tail + t ≤ head ∨ head' = head) ∨
      tail' = tail + 1 ∧ (tail + t ≤ head ∨ head' = head) ∧ head' = head + add ∨
      tail' = tail + 2 ∧ (tail + t ≤ head ∨ head' = head) ∧ head' < head + add)

/-- The state of the loop before the point `current`. -/
structure At (shown : Input → Bool) (val : Input → ℚ × ℚ × ℚ) (length : Nat) (tuples : List Input) (tail head current : Nat)
    (points : List Dot) (window : Window) : Prop extends Holds shown val length tuples window where
  at_tail : window.tail = tail
  at_head : window.head = head
  at_current : window.current = current
  counted : window.n = head - tail
  shown_points : window.points = points

/-- The points for `te` of a window that holds the tuples of `around`. -/
def average (dots : Input → Window → List Dot) (val : Input → ℚ × ℚ × ℚ) (te : Input) (around : List Input) : List Dot :=
  dots te { list := [], n := around.length, sum := (around.map val).sum }

section
variable {t tail head current tail' head' : Nat} {points : List Dot} {dots : Input → Window → List Dot}

/-- The sums that a turn goes through are not rounded. -/
def Through (numbers : Numbers) (val : Input → ℚ × ℚ × ℚ) (tuples : List Input) (tail head tail' head' : Nat) : Prop :=
  ∀ i j, i = tail ∧ head < j ∧ j ≤ head' ∨ tail < i ∧ i ≤ tail' ∧ j = head' → Kept numbers val tuples i j

theorem At.shift (state : At shown val length tuples tail head current points window)
    (moves : Moves t tuples.length tail head tail' head') (inside : tail' ≤ head') (near : head' ≤ tail + length)
    (sums : Through numbers val tuples tail head tail' head')
    (values : ∀ i (small : i < tuples.length), i < head' → ys tuples[i] = .ok (val tuples[i])) :
    ∃ (c : Nat) (next : Window), window.turn numbers shown ys missing length dots t = next.addPoint length dots c ∧
      Holds shown val length tuples next ∧ next.tail = tail' ∧ next.head = head' ∧ next.current = current ∧
      next.points = points ∧ next.n + c = (head' - tail' : Nat) := by
  obtain ⟨holds,rfl,rfl,rfl,n,rfl⟩ := state
  obtain ⟨add,adds,gets,takes⟩ := moves
  have ordered := holds.order
  have adds : (if window.n = t ∨ window.n = 0 then 1 else 2) = add := by
    split <;> omega
  obtain ⟨grown,added,kept,reached,same⟩ := addTuples_holds holds add 0 gets
    (fun j after before => sums _ j (.inl ⟨rfl,after,before⟩)) values
  have tail : grown.tail = window.tail := by rw [same]
  have n' : grown.n = window.n := by rw [same]
  obtain ⟨next,removed,kept',same'⟩ := @removeTuples_holds numbers shown val length tuples grown ys missing kept t
    (0 + (head' - window.head)) (add - (head' - window.head)) tail' (by omega) (by omega) (by omega)
    (fun i after before => reached ▸ sums i head' (.inr ⟨tail ▸ after,before,rfl⟩)) (by rw [reached]; exact values)
  refine ⟨0 + (head' - window.head),next,?_,kept',by rw [same'],by rw [same',reached],by rw [same',same],by rw [same',same],?_⟩
  · rw [turn_eq,adds,added]
    show grown.removeTuples numbers ys missing length t (add - (head' - window.head)) (0 + (head' - window.head)) >>= _ = _
    rw [removed]
    rfl
  · rw [same']
    show grown.n + grown.tail - tail' + _ = _
    omega

theorem At.move (state : At shown val length tuples tail head current points window)
    (moves : Moves t tuples.length tail head tail' head') (inside : tail' ≤ head') (near : head' ≤ tail + length)
    (small : current < tuples.length) (here : current < head') (close : head' ≤ current + length)
    (sums : Through numbers val tuples tail head tail' head')
    (values : ∀ i (small : i < tuples.length), i < head' → ys tuples[i] = .ok (val tuples[i]))
    (plain : ∀ te window, dots te window = dots te { list := [], n := window.n, sum := window.sum }) :
    ∃ next, window.turn numbers shown ys missing length dots t = .ok (next,decide (current ≠ 0 ∧ head' = tail' + 1)) ∧
      At shown val length tuples tail' head' (current + 1)
        (points ++ average dots val tuples[current] (span tuples tail' head')) next := by
  obtain ⟨c,next,turned,holds,rfl,rfl,rfl,rfl,n⟩ := @At.shift numbers shown val length tuples window ys missing t tail head current
    tail' head' points dots state moves inside near sums values
  have found : next.slots (next.current % length) = some tuples[next.current] := by
    rw [holds.slots.stored next.current here close,List.getElem?_eq_getElem small]
  have last : (next.current ≠ 0 ∧ next.n + c = 1) ↔ (next.current ≠ 0 ∧ next.head = next.tail + 1) := by omega
  let counted : Window := { next with n := next.n + c }
  refine ⟨{ counted with
      points := next.points ++ dots tuples[next.current] counted
      current := next.current + 1 },?_,
    ⟨⟨holds.list,holds.slots,holds.sum,holds.order,holds.bound⟩,rfl,rfl,rfl,?_,?_⟩⟩
  · rw [turned,addPoint,found]
    exact congrArg (fun last => Except.ok (_,last)) (decide_eq_decide.mpr last)
  · show next.n + c = _
    omega
  · show next.points ++ dots tuples[next.current] counted = _
    rw [plain,average,span_length holds.bound,← n,← holds.sum]

end

def Ends (numbers : Numbers) (shown : Input → Bool) (ys : Input → Except String (ℚ × ℚ × ℚ)) (missing : Except String (ℚ × ℚ × ℚ)) (length : Nat)
    (dots : Input → Window → List Dot) (t : Int) (window : Window) (outcome : Except String (List Dot)) : Prop :=
  ∃ fuel, run numbers shown ys missing length dots t fuel window = some outcome

section
variable {dots : Input → Window → List Dot} {outcome : Except String (List Dot)} {next : Window} {t : Int}

theorem run_more {fuel : Nat} (done : run numbers shown ys missing length dots t fuel window = some outcome) (extra : Nat) :
    run numbers shown ys missing length dots t (fuel + extra) window = some outcome := by
  induction fuel generalizing window with
  | zero => cases done
  | succ fuel ih =>
    rw [Nat.add_right_comm]
    rw [run] at done ⊢
    rcases turned : window.turn numbers shown ys missing length dots t with message | ⟨next,_ | _⟩
    · rw [turned] at done
      exact done
    · rw [turned] at done
      exact ih done
    · rw [turned] at done
      exact done

theorem Ends.unique {other : Except String (List Dot)} (ends : Ends numbers shown ys missing length dots t window outcome)
    (ends' : Ends numbers shown ys missing length dots t window other) : outcome = other := by
  obtain ⟨fuel,done⟩ := ends
  obtain ⟨fuel',done'⟩ := ends'
  have both := run_more done fuel'
  rw [Nat.add_comm,run_more done' fuel] at both
  exact (Option.some.inj both).symm

theorem ends_next (turned : window.turn numbers shown ys missing length dots t = .ok (next,false))
    (ends : Ends numbers shown ys missing length dots t next outcome) : Ends numbers shown ys missing length dots t window outcome := by
  obtain ⟨fuel,done⟩ := ends
  refine ⟨fuel + 1,?_⟩
  rw [run,turned]
  exact done

theorem ends_last (turned : window.turn numbers shown ys missing length dots t = .ok (next,true)) :
    Ends numbers shown ys missing length dots t window (.ok next.points) := by
  refine ⟨1,?_⟩
  rw [run,turned]

end

/-- What a window of the width `t` holds on its way over `m` tuples: up to `t` first or last
ones, or `t` or one more in a row. -/
def Visited (t m i j : Nat) : Prop := j ≤ m ∧ (i = 0 ∧ j ≤ t ∨ j = m ∧ m ≤ i + t ∨ j = i + t ∨ j = i + t + 1)

section
variable {dots : Input → Window → List Dot} {points : List Dot}

theorem first_turn {list : List Input} {r : Nat} (all : considered shown list = tuples) (wide : length = 2 * r + 3)
    (nonempty : 0 < tuples.length) (value : ys tuples[0] = .ok (val tuples[0]))
    (sums : Kept numbers val tuples 0 1)
    (plain : ∀ te window, dots te window = dots te { list := [], n := window.n, sum := window.sum }) :
    ∃ next, ({ list := list } : Window).turn numbers shown ys missing length dots (2 * r + 1 : Nat) = .ok (next,false) ∧
      At shown val length tuples 0 1 1 (average dots val tuples[0] (centred r tuples 0)) next := by
  have start : At shown val length tuples 0 0 0 [] { list := list } := by
    refine ⟨⟨?_,Circular.empty length tuples,?_,le_refl 0,Nat.zero_le _⟩,rfl,rfl,rfl,rfl,rfl⟩
    · rw [all]
      rfl
    · rw [span_empty]
      rfl
  obtain ⟨next,turned,state⟩ := @At.move numbers shown val length tuples { list := list } ys missing (2 * r + 1) 0 0 0 0 1 [] dots start
    ⟨1,by omega,by omega,by omega⟩ (by omega) (by omega) nonempty (by omega) (by omega)
    (fun i j moved => by obtain ⟨rfl,rfl⟩ : i = 0 ∧ j = 1 := by omega
                         exact sums)
    (fun i small lt => by obtain rfl : i = 0 := by omega
                          exact value) plain
  refine ⟨next,turned.trans ?_,?_⟩
  · rfl
  · have near : reach r tuples.length 0 = 0 := by
      unfold reach
      omega
    rw [centred_span,near]
    exact state

end

def Alike (window other : Window) : Prop :=
  ∃ sum points, other = { window with sum := sum, points := points } ∧ points.map Dot.x = window.points.map Dot.x

section
variable {ys' : Input → Except String (ℚ × ℚ × ℚ)} {dots : Input → Window → List Dot} {t : Int} {numbers' : Numbers} {other : Window}

theorem addTuples_alike (more : ∀ te y, ys te = .ok y → ys' te = .ok y) {add c : Nat} {result : Nat × Nat × Window}
    (alike : Alike window other) (added : addTuples numbers shown ys length add c window = .ok result) :
    ∃ result', addTuples numbers' shown ys' length add c other = .ok (result.1,result.2.1,result') ∧ Alike result.2.2 result' := by
  induction add generalizing c window other with
  | zero =>
    cases added
    exact ⟨other,rfl,alike⟩
  | succ add ih =>
    obtain ⟨sum,points,rfl,xs⟩ := alike
    rw [addTuples] at added ⊢
    dsimp only
    rcases found : extract shown none window.list with ⟨_ | te,left⟩
    · rw [found] at added
      cases added
      exact ⟨_,rfl,sum,points,rfl,xs⟩
    · rw [found] at added
      obtain ⟨y,value,added⟩ := except_bind.mp added
      obtain ⟨result',added',alike'⟩ := @ih { window with
          list := left
          slots := Function.update window.slots (window.head % length) (some te)
          head := window.head + 1
          sum := numbers.doubles (window.sum + y) } { window with
          list := left
          slots := Function.update window.slots (window.head % length) (some te)
          head := window.head + 1
          sum := numbers'.doubles (sum + y)
          points := points } (c + 1) ⟨_,points,rfl,xs⟩ added
      exact ⟨result',except_bind.mpr ⟨y,more te y value,added'⟩,alike'⟩

theorem removeTuple_alike (more : ∀ te y, ys te = .ok y → ys' te = .ok y) {result : Window} (alike : Alike window other)
    (removed : window.removeTuple numbers ys missing length = .ok result) :
    ∃ result', other.removeTuple numbers' ys' missing length = .ok result' ∧ Alike result result' := by
  obtain ⟨sum,points,rfl,xs⟩ := alike
  unfold removeTuple at removed ⊢
  dsimp only
  cases slot : window.slots (window.tail % length) with
  | none =>
    rw [slot] at removed
    obtain ⟨y,value,removed⟩ := except_bind.mp removed
    cases removed
    exact ⟨_,except_bind.mpr ⟨y,value,rfl⟩,_,points,rfl,xs⟩
  | some te =>
    rw [slot] at removed
    obtain ⟨y,value,removed⟩ := except_bind.mp removed
    cases removed
    exact ⟨_,except_bind.mpr ⟨y,more te y value,rfl⟩,_,points,rfl,xs⟩

theorem removeTuples_alike (more : ∀ te y, ys te = .ok y → ys' te = .ok y) {add c : Nat} {result : Window}
    (alike : Alike window other) (removed : window.removeTuples numbers ys missing length t add c = .ok result) :
    ∃ result', other.removeTuples numbers' ys' missing length t add c = .ok result' ∧ Alike result result' := by
  have n : other.n = window.n := by
    obtain ⟨sum,points,rfl,-⟩ := alike
    rfl
  unfold removeTuples at removed ⊢
  rw [n]
  split at removed
  · next removes =>
    obtain ⟨first,removed,again⟩ := except_bind.mp removed
    obtain ⟨first',removed',alike'⟩ := removeTuple_alike more alike removed
    rw [if_pos removes]
    by_cases two : 0 < add
    · rw [if_pos two] at again
      obtain ⟨result',again',alike'⟩ := removeTuple_alike more alike' again
      exact ⟨result',except_bind.mpr ⟨first',removed',by rw [if_pos two]; exact again'⟩,alike'⟩
    · rw [if_neg two] at again
      cases again
      exact ⟨first',except_bind.mpr ⟨first',removed',if_neg two⟩,alike'⟩
  · next keeps =>
    cases removed
    exact ⟨other,if_neg keeps,alike⟩

theorem addPoint_alike (plain : ∀ te window other, (dots te window).map Dot.x = (dots te other).map Dot.x) {c : Nat}
    {result : Window} {last : Bool} (alike : Alike window other) (added : window.addPoint length dots c = .ok (result,last)) :
    ∃ result', other.addPoint length dots c = .ok (result',last) ∧ Alike result result' := by
  obtain ⟨sum,points,rfl,xs⟩ := alike
  unfold addPoint at added ⊢
  dsimp only
  cases slot : window.slots (window.current % length) with
  | none =>
    rw [slot] at added
    cases added
  | some te =>
    rw [slot] at added
    cases added
    refine ⟨_,rfl,sum,_,rfl,?_⟩
    rw [List.map_append,List.map_append,xs,plain te]

theorem turn_alike (more : ∀ te y, ys te = .ok y → ys' te = .ok y)
    (plain : ∀ te window other, (dots te window).map Dot.x = (dots te other).map Dot.x) {result : Window} {last : Bool}
    (alike : Alike window other) (turned : window.turn numbers shown ys missing length dots t = .ok (result,last)) :
    ∃ result', other.turn numbers' shown ys' missing length dots t = .ok (result',last) ∧ Alike result result' := by
  have n : other.n = window.n := by
    obtain ⟨sum,points,rfl,-⟩ := alike
    rfl
  rw [turn_eq] at turned ⊢
  obtain ⟨⟨a,k,grown⟩,added,turned⟩ := except_bind.mp turned
  obtain ⟨next,removed,turned⟩ := except_bind.mp turned
  obtain ⟨grown',added',alike'⟩ := addTuples_alike more alike added
  obtain ⟨next',removed',alike'⟩ := removeTuples_alike more alike' removed
  obtain ⟨result',turned',alike'⟩ := addPoint_alike plain alike' turned
  rw [n]
  exact ⟨result',except_bind.mpr ⟨_,added',except_bind.mpr ⟨next',removed',turned'⟩⟩,alike'⟩

theorem Ends.alike (more : ∀ te y, ys te = .ok y → ys' te = .ok y)
    (plain : ∀ te window other, (dots te window).map Dot.x = (dots te other).map Dot.x) {points : List Dot}
    (alike : Alike window other) (ends : Ends numbers shown ys missing length dots t window (.ok points)) :
    ∃ points', Ends numbers' shown ys' missing length dots t other (.ok points') ∧ points'.map Dot.x = points.map Dot.x := by
  obtain ⟨fuel,done⟩ := ends
  induction fuel generalizing window other with
  | zero => cases done
  | succ fuel ih =>
    rw [run] at done
    rcases turned : window.turn numbers shown ys missing length dots t with message | ⟨next,last⟩
    · rw [turned] at done
      cases done
    · obtain ⟨next',turned',alike'⟩ := turn_alike more plain alike turned
      rw [turned] at done
      cases last with
      | true =>
        cases done
        obtain ⟨sum,points',rfl,xs⟩ := alike'
        exact ⟨points',ends_last turned',xs⟩
      | false =>
        obtain ⟨points',ends',xs⟩ := ih alike' done
        exact ⟨points',ends_next turned' ends',xs⟩

end

end

end Window

end Aprof.Plot
