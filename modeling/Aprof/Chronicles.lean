import Aprof.Lifetimes

/-! What the levels remember of the history: a granule is dirty for a thread when
somebody else wrote it after the thread's last access, and the input size of a
pending activation is what the metric counts since the activation was entered. -/
namespace Aprof

open Levels Floor

private theorem count32 {P Q : Prop} [Decidable P] [Decidable Q] (n : Nat) (same : P ↔ Q) :
    UInt32.ofNat (n + if P then 1 else 0) = UInt32.ofNat n + if Q then 1 else 0 := by
  simp only [same]
  split
  · exact UInt32.ofNat_add n 1
  · simp

private theorem count64 {P Q : Prop} [Decidable P] [Decidable Q] (n : Nat) (same : P ↔ Q) :
    UInt64.ofNat (n + if P then 1 else 0) = UInt64.ofNat n + if Q then 1 else 0 := by
  simp only [same]
  split
  · exact UInt64.ofNat_add n 1
  · simp

section
variable {cfg : Config} {t d size syscall thread : Nat} {during : List Touch} {levels after : LevelRuntime}

private theorem seen_own (x : Touch) (actor : x.actor = some t) :
    (fun g => !untouched t (during ++ [x]) g) =
      Function.update (fun g => !untouched t during g) x.granule true := by
  ext1 g
  simp only [untouched_append,Touch.own,actor,true_and,Function.update_apply]
  by_cases same : x.granule = g
  · simp [same]
  · simp [same,Ne.symm same]

private theorem seen_other (x : Touch) (actor : x.actor ≠ some t) :
    (fun g => !untouched t (during ++ [x]) g) = fun g => !untouched t during g := by
  ext1 g
  simp [untouched_append,Touch.own,actor]

/-- How one touch changes the counters of the activation: `kernel` tells whose
write a dirty granule holds. -/
def Counted (cfg : Config) (t d size syscall thread : Nat) (during : List Touch) (x : Touch)
    (th : LevelThread) (kernel : Bool) (after : LevelRuntime) : Prop :=
  Lived cfg t d
    (size + if x.actor = some t ∧ x.reads = true ∧
      (th.dirty x.granule = true ∨ untouched t during x.granule = true) then 1 else 0)
    (syscall + if x.actor = some t ∧ x.reads = true ∧ th.dirty x.granule = true ∧ kernel = true then 1 else 0)
    (thread + if x.actor = some t ∧ x.reads = true ∧ th.dirty x.granule = true ∧ kernel = false then 1 else 0)
    (during ++ [x]) after

theorem Lived.foreign (lived : Lived cfg t d size syscall thread during levels) (x : Touch)
    (actor : x.actor ≠ some t) (dirty : Nat → Bool) {th : LevelThread} (found : levels.threads t = some th)
    (found' : after.threads t = some {th with dirty := dirty}) (kernel : Bool) :
    Counted cfg t d size syscall thread during x th kernel after := by
  obtain ⟨th',known,inside⟩ := lived
  rw [found] at known
  cases known
  refine ⟨_,found',?_⟩
  rw [seen_other x actor]
  simp only [actor,false_and,if_false,Nat.add_zero]
  exact inside.same inside.counted rfl (fun _ _ => ⟨rfl,rfl,rfl⟩) dirty

theorem Lived.own (lived : Lived cfg t d size syscall thread during levels) (type : AccessType) (g : Nat)
    {th : LevelThread} (found : levels.threads t = some th) (recorded : th.core.skip = 0) (kernel : Bool)
    (found' : after.threads t = some (touch type kernel th g)) :
    Counted cfg t d size syscall thread during ⟨some t,type,g⟩ th kernel after := by
  obtain ⟨th',known,inside⟩ := lived
  rw [found] at known
  cases known
  refine ⟨_,found',?_⟩
  rw [seen_own _ rfl]
  have accessed := inside.access recorded type kernel g
  rw [count32 size (Q := type ≠ .store ∧ (th.dirty g = true ∨ (!untouched t during g) = false)),
    count64 syscall (Q := type ≠ .store ∧ th.dirty g = true ∧ kernel = true),
    count64 thread (Q := type ≠ .store ∧ th.dirty g = true ∧ kernel = false)]
  · exact accessed
  · simp [Touch.reads]
  · simp [Touch.reads]
  · simp [Touch.reads]

theorem Lived.touched (lived : Lived cfg t d size syscall thread during levels) {x : Touch}
    (touched : Touched cfg levels x after) : ∃ th kernel, levels.threads t = some th ∧
      (cfg.inputMetric ≠ .rms → kernel = levels.byKernel x.granule) ∧
      Counted cfg t d size syscall thread during x th kernel after := by
  obtain ⟨th,found,_⟩ := id lived
  cases touched with
  | kernel metric g =>
    refine ⟨th,levels.byKernel g,found,fun _ => rfl,?_⟩
    apply lived.foreign _ (by simp) (Function.update th.dirty g true) found
    simp [mark,found]
  | rms metric tid g type th' found' recorded =>
    refine ⟨th,false,found,fun drms => absurd metric drms,?_⟩
    by_cases same : tid = t
    · subst same
      rw [found] at found'
      cases found'
      exact lived.own type g found recorded false (by simp [LevelRuntime.put])
    · apply lived.foreign _ (by simpa using same) th.dirty found
      simp [LevelRuntime.put,Function.update_of_ne (Ne.symm same),found]
  | drms metric tid g type th' found' recorded =>
    refine ⟨th,levels.byKernel g,found,fun _ => rfl,?_⟩
    by_cases same : tid = t
    · subst same
      rw [found] at found'
      cases found'
      exact lived.own type g found recorded _ (by simp [LevelRuntime.put])
    · apply lived.foreign _ (by simpa using same)
        (if type = .load then th.dirty else Function.update th.dirty g true) found
      simp only [LevelRuntime.put,Function.update_of_ne (Ne.symm same)]
      split
      · exact found
      · simp [mark,found]

end

def Clean (levels : LevelRuntime) : Prop := ∀ tid th g, levels.threads tid = some th → th.dirty g = false

section
variable {cfg : Config} {levels after : LevelRuntime}

theorem Moved.dirty {th th' : LevelThread} (moved : Moved cfg th th') : th'.dirty = th.dirty := by
  cases moved <;> rfl

theorem Change.dirty {event : Event} {tid : Nat} (change : Change cfg levels after event tid) {th : LevelThread}
    (found : after.threads tid = some th) : (∃ th', levels.threads tid = some th' ∧ th.dirty = th'.dirty) ∨
      (levels.threads tid = none ∧ th.dirty = unseen cfg levels) := by
  cases change with
  | absent _ still =>
    rw [still] at found
    cases found
  | fresh before started =>
    rw [started] at found
    cases found
    exact Or.inr ⟨before,rfl⟩
  | moved th' last before found' moved =>
    rw [found'] at found
    cases found
    exact Or.inl ⟨th',before,moved.dirty⟩
  | exited _ gone =>
    rw [gone] at found
    cases found

theorem Clean.quiet (rms : cfg.inputMetric = .rms) (clean : Clean levels) {event : Event}
    (quiet : event.quiet = true) (ok : Levels.step cfg levels event = .ok after) : Clean after := by
  have steps := quietStep quiet ok
  intro tid th g found
  rcases (steps.threads tid).dirty found with ⟨th',found',dirty⟩ | ⟨_,dirty⟩
  · rw [dirty]
    exact clean tid th' g found'
  · rw [dirty]
    simp only [unseen,rms]

theorem Clean.touched (rms : cfg.inputMetric = .rms) (clean : Clean levels) {x : Touch}
    (touched : Touched cfg levels x after) : Clean after := by
  cases touched with
  | kernel metric g => exact absurd rms metric
  | drms metric tid g type th found recorded => exact absurd rms metric
  | rms _ tid g type th found recorded =>
    intro other th' h found'
    simp only [LevelRuntime.put,Function.update_apply] at found'
    split at found'
    · cases found'
      simp only [touch,Function.update_apply]
      split
      · rfl
      · exact clean tid th h found
    · exact clean other th' h found'

end

def Event.exits : Event → Bool
  | .threadExit _ => true
  | _ => false

structure Chronicle (past : List Touch) (levels : LevelRuntime) : Prop where
  dirty : ∀ tid th g, levels.threads tid = some th → th.dirty g = (foreignWrite tid past g).isSome
  absent : ∀ tid, levels.threads tid = none → ∀ y ∈ past, y.actor ≠ some tid
  written : ∀ tid g, (∀ y ∈ past, y.actor ≠ some tid) → levels.written g = (foreignWrite tid past g).isSome
  byKernel : ∀ tid g x, foreignWrite tid past g = some x → levels.byKernel g = x.actor.isNone

section
variable {cfg : Config} {past : List Touch} {levels after : LevelRuntime}

theorem Chronicle.start (cfg : Config) : Chronicle [] (Levels.initial cfg) := by
  refine ⟨?_,?_,fun _ _ _ => rfl,?_⟩
  · intro tid th g found
    cases found
  · intro tid _ y member
    cases member
  · intro tid g x found
    cases found

theorem Chronicle.quiet (drms : cfg.inputMetric ≠ .rms) (chronicle : Chronicle past levels) {event : Event}
    (quiet : event.quiet = true) (stays : event.exits = false)
    (ok : Levels.step cfg levels event = .ok after) : Chronicle past after := by
  obtain ⟨written,byKernel,threads⟩ := quietStep quiet ok
  refine ⟨?_,?_,?_,?_⟩
  · intro tid th g found
    rcases (threads tid).dirty found with ⟨th',found',dirty⟩ | ⟨absent,dirty⟩
    · rw [dirty]
      exact chronicle.dirty tid th' g found'
    · rw [dirty,← chronicle.written tid g (chronicle.absent tid absent)]
      unfold unseen
      split
      · next rms => exact absurd rms drms
      · rfl
  · intro tid none
    cases threads tid with
    | absent before _ => exact chronicle.absent tid before
    | fresh _ started =>
      rw [none] at started
      cases started
    | moved th th' _ found _ =>
      rw [none] at found
      cases found
    | exited exit _ =>
      subst exit
      cases stays
  · rw [written]
    exact chronicle.written
  · rw [byKernel]
    exact chronicle.byKernel

theorem foreignWrite_kernel (tid g h : Nat) : foreignWrite tid (past ++ [⟨none,.store,g⟩]) h =
    if g = h then some ⟨none,.store,g⟩ else foreignWrite tid past h := by
  rw [foreignWrite_append,if_neg (by simp [Touch.own])]
  simp [Touch.writes]

theorem foreignWrite_access (author tid g h : Nat) (type : AccessType) :
    foreignWrite tid (past ++ [⟨some author,type,g⟩]) h =
      if author = tid ∧ g = h then none
      else if g = h ∧ type ≠ .load then some ⟨some author,type,g⟩ else foreignWrite tid past h := by
  rw [foreignWrite_append]
  simp [Touch.own,Touch.writes]

theorem Chronicle.kernel (chronicle : Chronicle past levels) (g : Nat) :
    Chronicle (past ++ [⟨none,.store,g⟩]) (mark true levels g) := by
  refine ⟨?_,?_,?_,?_⟩
  · intro tid th h found
    obtain ⟨th',known,rfl⟩ := Option.map_eq_some_iff.mp found
    rw [foreignWrite_kernel]
    simp only [Function.update_apply,eq_comm (a := h)]
    split
    · rfl
    · exact chronicle.dirty tid th' h known
  · intro tid none y member
    rcases List.mem_append.mp member with old | new
    · exact chronicle.absent tid (by simpa [mark] using none) y old
    · simp only [List.mem_singleton] at new
      rw [new]
      simp
  · intro tid h others
    rw [foreignWrite_kernel]
    simp only [mark,Function.update_apply,eq_comm (a := h)]
    split
    · rfl
    · exact chronicle.written tid h fun y member => others y (List.mem_append_left _ member)
  · intro tid h y found
    rw [foreignWrite_kernel] at found
    simp only [mark,Function.update_apply,eq_comm (a := h)]
    split at found
    · next same =>
      cases found
      simp [same]
    · next other =>
      rw [if_neg other]
      exact chronicle.byKernel tid h y found

theorem Chronicle.access (chronicle : Chronicle past levels) {author : Nat} {th : LevelThread}
    (known : levels.threads author = some th) (type : AccessType) (g : Nat)
    (still : Still levels
      ((if type = .load then levels else mark false levels g).put author (touch type (levels.byKernel g) th g))) :
    Chronicle (past ++ [⟨some author,type,g⟩])
      ((if type = .load then levels else mark false levels g).put author (touch type (levels.byKernel g) th g)) := by
  refine ⟨?_,?_,?_,?_⟩
  · intro tid th' h found
    rw [foreignWrite_access]
    by_cases same : tid = author
    · subst same
      simp only [LevelRuntime.put,Function.update_self,Option.some.injEq] at found
      subst found
      simp only [touch,Function.update_apply,true_and,eq_comm (a := h)]
      split
      · rfl
      · next other => simp only [other,false_and,if_false,chronicle.dirty tid th h known]
    · simp only [LevelRuntime.put,Function.update_of_ne same] at found
      rw [if_neg (by rintro ⟨rfl,_⟩; exact same rfl)]
      rcases eq_or_ne type .load with load | write
      · simp only [load,if_true] at found
        simpa [load] using chronicle.dirty tid th' h found
      · simp only [if_neg write,mark] at found
        obtain ⟨old,known',rfl⟩ := Option.map_eq_some_iff.mp found
        simp only [Function.update_apply,eq_comm (a := h),write,ne_eq,not_false_iff,and_true]
        split
        · rfl
        · exact chronicle.dirty tid old h known'
  · intro tid none y member
    have before : levels.threads tid = Option.none := by
      cases found : levels.threads tid with
      | none => rfl
      | some th' =>
        obtain ⟨last,found',_⟩ := still.frames tid th' found
        rw [none] at found'
        cases found'
    rcases List.mem_append.mp member with old | new
    · exact chronicle.absent tid before y old
    · simp only [List.mem_singleton] at new
      rw [new]
      rintro ⟨⟩
      rw [known] at before
      cases before
  · intro tid h others
    have foreigner : author ≠ tid := by
      have := others ⟨some author,type,g⟩ (by simp)
      simpa using this
    have old := chronicle.written tid h fun y member => others y (List.mem_append_left _ member)
    rw [foreignWrite_access]
    simp only [foreigner,false_and,if_false]
    rcases eq_or_ne type .load with load | write
    · simpa [load,LevelRuntime.put] using old
    · simp only [LevelRuntime.put,ne_eq,write,not_false_iff,and_true,if_false,mark,Function.update_apply,
        eq_comm (a := h)]
      split
      · rfl
      · exact old
  · intro tid h y found
    rw [foreignWrite_access] at found
    split at found
    · cases found
    · split at found
      · next written =>
        cases found
        simp [LevelRuntime.put,if_neg written.2,mark,written.1]
      · next other =>
        have old := chronicle.byKernel tid h y found
        rcases eq_or_ne type .load with load | write
        · simpa [load,LevelRuntime.put] using old
        · have different : ¬ h = g := fun same => other ⟨same.symm,write⟩
          simpa [LevelRuntime.put,if_neg write,mark,Function.update_of_ne different] using old

theorem Chronicle.touched (drms : cfg.inputMetric ≠ .rms) (chronicle : Chronicle past levels) {x : Touch}
    (touched : Touched cfg levels x after) : Chronicle (past ++ [x]) after := by
  have still := touched.still
  cases touched with
  | rms metric tid g type th found recorded => exact absurd metric drms
  | kernel _ g => exact chronicle.kernel g
  | drms _ author g type th known recorded => exact chronicle.access known type g still

end

end Aprof
