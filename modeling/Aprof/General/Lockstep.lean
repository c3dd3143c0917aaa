import Mathlib.Data.Nat.Basic

/-! Two fallible computations in lockstep: both fail, or both return and the
results are related. The rules compose related computations, and a relation that
every step keeps is kept by whole runs. -/
namespace Aprof

theorem except_bind {ε α β : Type} {first : Except ε α} {next : α → Except ε β} {result : β} :
    (first >>= next) = .ok result ↔ ∃ value, first = .ok value ∧ next value = .ok result := by
  cases first with
  | error fault => simp [bind,Except.bind]
  | ok value => simp [bind,Except.bind]

namespace Lockstep

section
variable {ε φ S A T B X : Type}

def Matches (R : S → A → Prop) : Except ε S → Except φ A → Prop
  | .ok s, .ok a => R s a
  | .error _, .error _ => True
  | _, _ => False

theorem Matches.bind {R : S → A → Prop} {Q : T → B → Prop} {x : Except ε S} {y : Except φ A}
    {f : S → Except ε T} {g : A → Except φ B} (first : Matches R x y)
    (next : ∀ s a, x = .ok s → R s a → Matches Q (f s) (g a)) : Matches Q (x >>= f) (y >>= g) := by
  cases x with
  | error fault => cases y with
    | error other => exact trivial
    | ok a => exact first.elim
  | ok s => cases y with
    | error other => exact first.elim
    | ok a => exact next s a rfl first

theorem Matches.mono {R Q : S → A → Prop} {x : Except ε S} {y : Except φ A} (first : Matches R x y)
    (weaker : ∀ s a, x = .ok s → y = .ok a → R s a → Q s a) : Matches Q x y := by
  cases x <;> cases y
  · exact trivial
  · exact first.elim
  · exact first.elim
  · exact weaker _ _ rfl rfl first

theorem Matches.finish {R : S → A → Prop} {Q : T → A → Prop} {x : Except ε S} {y : Except φ A}
    {f : S → T} (first : Matches R x y) (next : ∀ s a, R s a → Q (f s) a) :
    Matches Q (x >>= fun s => .ok (f s)) y := by
  cases x <;> cases y
  · exact trivial
  · exact first.elim
  · exact first.elim
  · exact next _ _ first

theorem Matches.ok_left {R : S → A → Prop} {s : S} {y : Except φ A}
    (first : Matches R (.ok s : Except ε S) y) : ∃ a, y = .ok a ∧ R s a := by
  cases y with
  | error fault => exact first.elim
  | ok a => exact ⟨a,rfl,first⟩

theorem Matches.ok_right {R : S → A → Prop} {x : Except ε S} {a : A}
    (first : Matches R x (.ok a : Except φ A)) : ∃ s, x = .ok s ∧ R s a := by
  cases x with
  | error fault => exact first.elim
  | ok s => exact ⟨s,rfl,first⟩

theorem Matches.join {R : S → A → Prop} {Q : T → A → Prop} {x : Except ε S} {z : Except ε T}
    {y : Except φ A} (left : Matches R x y) (right : Matches Q z y) :
    Matches (fun s t => ∃ a, R s a ∧ Q t a) x z := by
  cases x <;> cases z <;> cases y
  all_goals first | exact left.elim | exact right.elim | exact trivial | exact ⟨_,left,right⟩

theorem Matches.foldlM {R : S → A → Prop} {f : S → X → Except ε S} {g : A → X → Except φ A}
    (step : ∀ s a x, R s a → Matches R (f s x) (g a x)) :
    ∀ (xs : List X) (s : S) (a : A), R s a → Matches R (xs.foldlM f s) (xs.foldlM g a) := by
  intro xs
  induction xs with
  | nil => intro s a related; exact related
  | cons x xs ih =>
    intro s a related
    simp only [List.foldlM_cons]
    exact (step s a x related).bind fun s' a' _ related' => ih s' a' related'

/-- When the first computation returns, the second one does, and the results are related. -/
def Leads (R : S → A → Prop) (x : Except ε S) (y : Except φ A) : Prop :=
  ∀ s, x = .ok s → ∃ a, y = .ok a ∧ R s a

theorem Leads.ok {R : S → A → Prop} {s : S} {a : A} (related : R s a) :
    Leads R (.ok s : Except ε S) (.ok a : Except φ A) := by
  rintro _ ⟨⟩
  exact ⟨a,rfl,related⟩

theorem Matches.leads {R : S → A → Prop} {x : Except ε S} {y : Except φ A} (both : Matches R x y) : Leads R x y := by
  rintro s rfl
  exact both.ok_left

theorem Leads.bind {R : S → A → Prop} {Q : T → B → Prop} {x : Except ε S} {y : Except φ A}
    {f : S → Except ε T} {g : A → Except φ B} (first : Leads R x y)
    (next : ∀ s a, x = .ok s → y = .ok a → R s a → Leads Q (f s) (g a)) : Leads Q (x >>= f) (y >>= g) := by
  cases x with
  | error fault => exact nofun
  | ok s =>
    obtain ⟨a,rfl,related⟩ := first s rfl
    exact next s a rfl rfl related

theorem Leads.mono {R Q : S → A → Prop} {x : Except ε S} {y : Except φ A} (first : Leads R x y)
    (weaker : ∀ s a, x = .ok s → y = .ok a → R s a → Q s a) : Leads Q x y := by
  intro s returns
  obtain ⟨a,returns',related⟩ := first s returns
  exact ⟨a,returns',weaker s a returns returns' related⟩

theorem Leads.foldlM {R : S → A → Prop} {f : S → X → Except ε S} {g : A → X → Except φ A}
    (step : ∀ s a x, R s a → Leads R (f s x) (g a x)) :
    ∀ (xs : List X) (s : S) (a : A), R s a → Leads R (xs.foldlM f s) (xs.foldlM g a) := by
  intro xs
  induction xs with
  | nil => intro s a related; exact .ok related
  | cons x xs ih =>
    intro s a related
    simp only [List.foldlM_cons]
    exact (step s a x related).bind fun s' a' _ _ related' => ih s' a' related'

end

section
variable {ε S X : Type}

theorem foldlM_keeps {P : S → Prop} {f : S → X → Except ε S}
    (step : ∀ s x s', P s → f s x = .ok s' → P s') :
    ∀ (xs : List X) (s s' : S), P s → xs.foldlM f s = .ok s' → P s' := by
  intro xs
  induction xs with
  | nil =>
    intro s s' start finish
    cases finish
    exact start
  | cons x xs ih =>
    intro s s' start finish
    simp only [List.foldlM_cons] at finish
    cases first : f s x with
    | error fault =>
      rw [first] at finish
      cases finish
    | ok middle =>
      rw [first] at finish
      exact ih middle s' (step s x middle start first) finish

end

end Lockstep

end Aprof
