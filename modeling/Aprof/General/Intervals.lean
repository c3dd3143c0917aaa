import Mathlib.Data.Nat.Basic
import Mathlib.Order.Basic

/-! Open intervals of one clock, each inside the one below it. Interval `i` began
at `start i`, and `spent i` of its time went to inner intervals that have ended;
what is left of every open interval is its own time. -/
namespace Aprof.Intervals

variable {start spent start' spent' : Nat → Nat} {n now later : Nat}

/-- The intervals below `n` nest, and the last one is open at `now`. -/
def Nested (start spent : Nat → Nat) : Nat → Nat → Prop
  | 0, _ => True
  | n + 1, now => start n + spent n ≤ now ∧ Nested start spent n (start n)

def own (start spent : Nat → Nat) : Nat → Nat → Nat
  | 0, _ => 0
  | n + 1, now => now - start n - spent n + own start spent n (start n)

theorem Nested.congr (nested : Nested start spent n now) (starts : ∀ i, i < n → start' i = start i)
    (spents : ∀ i, i < n → spent' i = spent i) : Nested start' spent' n now := by
  induction n generalizing now with
  | zero => trivial
  | succ n ih =>
    obtain ⟨le,below⟩ := nested
    refine ⟨by rw [starts n (Nat.lt_succ_self n),spents n (Nat.lt_succ_self n)]; exact le,?_⟩
    rw [starts n (Nat.lt_succ_self n)]
    exact ih below (fun i bound => starts i (Nat.lt_succ_of_lt bound)) fun i bound => spents i (Nat.lt_succ_of_lt bound)

theorem Nested.mono (nested : Nested start spent n now) (less : ∀ i, i < n → spent' i ≤ spent i) : Nested start spent' n now := by
  induction n generalizing now with
  | zero => trivial
  | succ n ih =>
    obtain ⟨le,below⟩ := nested
    have last := less n (Nat.lt_succ_self n)
    exact ⟨by omega,ih below fun i bound => less i (Nat.lt_succ_of_lt bound)⟩

theorem own_congr (starts : ∀ i, i < n → start' i = start i) (spents : ∀ i, i < n → spent' i = spent i) :
    own start' spent' n now = own start spent n now := by
  induction n generalizing now with
  | zero => rfl
  | succ n ih =>
    simp only [own,starts n (Nat.lt_succ_self n),spents n (Nat.lt_succ_self n)]
    rw [ih (fun i bound => starts i (Nat.lt_succ_of_lt bound)) fun i bound => spents i (Nat.lt_succ_of_lt bound)]

theorem Nested.advance (nested : Nested start spent n now) (le : now ≤ later) : Nested start spent n later := by
  cases n with
  | zero => trivial
  | succ n => exact ⟨nested.1.trans le,nested.2⟩

theorem own_advance (nested : Nested start spent (n + 1) now) (le : now ≤ later) :
    own start spent (n + 1) later = own start spent (n + 1) now + (later - now) := by
  have inside := nested.1
  simp only [own]
  omega

theorem Nested.first (nested : Nested start spent (n + 1) now) : start 0 ≤ start n ∧ start n ≤ now := by
  refine ⟨?_,by have inside := nested.1; omega⟩
  induction n generalizing now with
  | zero => exact Nat.le_refl _
  | succ n ih =>
    have below := ih nested.2
    have inside := nested.2.1
    omega

theorem Nested.push (nested : Nested start spent n now) (opened : start n = now) (fresh : spent n = 0) :
    Nested start spent (n + 1) now := by
  refine ⟨by omega,?_⟩
  rw [opened]
  exact nested

theorem own_push (opened : start n = now) (fresh : spent n = 0) : own start spent (n + 1) now = own start spent n now := by
  simp only [own,opened,fresh]
  omega

theorem Nested.pop (nested : Nested start spent (n + 2) now) (starts : ∀ i, i ≤ n → start' i = start i)
    (spents : ∀ i, i < n → spent' i = spent i) (adds : spent' n = spent n + (now - start (n + 1))) :
    Nested start' spent' (n + 1) now ∧
      own start spent (n + 2) now = now - start (n + 1) - spent (n + 1) + own start' spent' (n + 1) now := by
  obtain ⟨inside,inside',below⟩ := nested
  constructor
  · refine ⟨by rw [starts n (Nat.le_refl n),adds]; omega,?_⟩
    rw [starts n (Nat.le_refl n)]
    exact below.congr (fun i bound => starts i (Nat.le_of_lt bound)) spents
  · simp only [own]
    rw [own_congr (fun i bound => starts i (Nat.le_of_lt bound)) spents,starts n (Nat.le_refl n),adds]
    omega

end Aprof.Intervals
