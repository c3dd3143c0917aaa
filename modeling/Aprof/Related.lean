import Aprof.Follows

/-! The runtime and the runtime without timestamps, thread by thread. Everything
but the assignment of an id, an access and a counter step is refined here, for
any relation of threads that the calls and returns keep. -/
namespace Aprof

open Lockstep Levels

structure Related {c : Counter} (T : Nat → ThreadData → LevelThread → Prop) (rt : Runtime c)
    (levels : LevelRuntime) : Prop where
  tid : levels.currentTid = rt.currentTid
  shared : levels.shared = rt.shared
  reported : levels.reported = rt.reported.map fun report => (report.1,report.2.erase)
  threads : ∀ tid, Option.Rel (T tid) (rt.threads tid) (levels.threads tid)

/-- Relations of threads that survive calls and returns. -/
structure Keeps (cfg : Config) (T : ThreadData → LevelThread → Prop) : Prop where
  follows : ∀ tdata thread, T tdata thread → Follows cfg tdata thread
  same : ∀ tdata after thread, T tdata thread → SameStamps tdata after → SameFrames tdata after →
    T after {thread with core := after.erase}
  pop : ∀ tdata thread shared, T tdata thread → 0 < tdata.stackDepth →
    T (popShared cfg shared tdata).2 {thread with
      core := (popShared cfg shared tdata).2.erase
      levels := fun g => min (thread.levels g) (recordedDepth cfg (popShared cfg shared tdata).2)}
  hide : ∀ tdata opened thread skip, T tdata thread → Opened cfg tdata opened →
    (skipFlag cfg opened tdata.stackDepth = true ∨ 0 < tdata.skip) →
    skip = tdata.skip + (if skipFlag cfg opened tdata.stackDepth = true then 1 else 0) →
    T {opened with skip := skip} {thread with core := {opened with skip := skip}.erase}

section
variable {c : Counter} {cfg : Config} {T : Nat → ThreadData → LevelThread → Prop}
  {rt : Runtime c} {levels : LevelRuntime}

theorem Related.lookup (rel : Related T rt levels) (tid : Nat) :
    (rt.threads tid = none ∧ levels.threads tid = none) ∨
      ∃ tdata thread, rt.threads tid = some tdata ∧ levels.threads tid = some thread ∧ T tid tdata thread := by
  have related := rel.threads tid
  cases concrete : rt.threads tid with
  | none =>
    cases abstract : levels.threads tid with
    | none => exact Or.inl ⟨rfl,rfl⟩
    | some thread =>
      rw [concrete,abstract] at related
      cases related
  | some tdata =>
    cases abstract : levels.threads tid with
    | none =>
      rw [concrete,abstract] at related
      cases related
    | some thread =>
      rw [concrete,abstract] at related
      cases related with
      | some related => exact Or.inr ⟨tdata,thread,rfl,rfl,related⟩

theorem Related.mono {T' : Nat → ThreadData → LevelThread → Prop} (rel : Related T rt levels)
    (weaker : ∀ tid tdata thread, T tid tdata thread → T' tid tdata thread) : Related T' rt levels := by
  refine ⟨rel.tid,rel.shared,rel.reported,fun tid => ?_⟩
  rcases rel.lookup tid with ⟨none,none'⟩ | ⟨tdata,thread,some,some',related⟩
  · rw [none,none']
    exact .none
  · rw [some,some']
    exact .some (weaker _ _ _ related)

theorem Related.putShared (rel : Related T rt levels) (shared : Shared) {tid tid' : Nat} (same : tid' = tid)
    {tdata : ThreadData} {thread : LevelThread} (related : T tid tdata thread) :
    Related T ({rt with shared := shared}.put tid tdata) ({levels with shared := shared}.put tid' thread) := by
  subst same
  refine ⟨rel.tid,rfl,rel.reported,fun other => ?_⟩
  simp only [Runtime.put,LevelRuntime.put,Function.update_apply]
  split
  · next same =>
    subst same
    exact .some related
  · exact rel.threads other

theorem Related.put (rel : Related T rt levels) {tid tid' : Nat} (same : tid' = tid) {tdata : ThreadData}
    {thread : LevelThread} (related : T tid tdata thread) :
    Related T (rt.put tid tdata) (levels.put tid' thread) := by
  have stored := rel.putShared rt.shared same related
  exact ⟨stored.tid,rel.shared,stored.reported,stored.threads⟩

theorem Runtime.put_put (rt : Runtime c) (tid : Nat) (first last : ThreadData) :
    (rt.put tid first).put tid last = rt.put tid last := by
  simp only [Runtime.put,Function.update_idem]

theorem LevelRuntime.put_same {tid : Nat} {thread : LevelThread} (found : levels.threads tid = some thread) :
    levels.put tid thread = levels := by
  simp only [LevelRuntime.put,← found,Function.update_eq_self]

theorem Related.withCurrent (rel : Related T rt levels) {S A : Type} {R : S → A → Prop}
    {f : ThreadData → Result S} {g : LevelThread → Result A}
    (next : ∀ tdata thread, rt.threads rt.currentTid = some tdata →
      levels.threads rt.currentTid = some thread → T rt.currentTid tdata thread →
      Matches R (f tdata) (g thread)) : Matches R (rt.current >>= f) (levels.current >>= g) := by
  unfold Runtime.current LevelRuntime.current
  rw [rel.tid]
  rcases rel.lookup rt.currentTid with ⟨none,none'⟩ | ⟨tdata,thread,some,some',related⟩
  · rw [none,none']
    exact trivial
  · rw [some,some']
    exact next tdata thread some some' related

theorem check_matches {S A : Type} {R : S → A → Prop} {first second : Bool} {message : String}
    {f : Unit → Result S} {g : Unit → Result A} (same : first = second)
    (next : first = true → Matches R (f ()) (g ())) :
    Matches R (check first message >>= f) (check second message >>= g) := by
  subst same
  cases first with
  | false => exact trivial
  | true => exact next rfl

theorem Related.threadStart (rel : Related T rt levels) (tid : Nat)
    (start : ∀ shadow, 0 < tid ∧ tid ≤ cfg.maxThreads → Empty cfg.layout cfg.memoryResolution shadow →
      T tid (newThread cfg tid shadow) ⟨(newThread cfg tid blankTable).erase,fun _ => 0,unseen cfg levels⟩) :
    Matches (Related T) (threadStart cfg rt tid) (Levels.threadStart cfg levels tid) := by
  apply check_matches rfl
  intro valid
  apply check_matches
  · rcases rel.lookup tid with ⟨none,none'⟩ | ⟨_,_,some,some',_⟩
    · rw [none,none']
      rfl
    · rw [some,some']
      rfl
  · intro _
    obtain ⟨shadow,ok,fresh⟩ := lkCreate_ok (α := Nat) cfg.layout cfg.memoryResolution cfg.supported
    rw [ok]
    exact rel.put rfl (start shadow (by simpa using valid) fresh)

variable (keeps : ∀ tid, Keeps cfg (T tid))
include keeps

theorem Related.popStack (rel : Related T rt levels) :
    Matches (Related T) (popStack cfg rt) (Levels.popStack cfg levels) := by
  apply rel.withCurrent
  intro tdata thread _ _ related
  have follows := (keeps _).follows _ _ related
  apply check_matches
  · rw [follows.depth]
  · intro checked
    have nonempty : 0 < tdata.stackDepth := of_decide_eq_true checked
    have popped := (keeps _).pop tdata thread rt.shared related nonempty
    have erased := erase_popShared cfg rt.shared tdata
    simp only [rel.shared,follows.core,erased]
    exact rel.putShared _ rel.tid popped

theorem Related.bbStart (rel : Related T rt levels) :
    Matches (Related T) (bbStart rt) (Levels.bbStart levels) := by
  apply rel.withCurrent
  intro tdata thread _ _ related
  have follows := (keeps _).follows _ _ related
  rw [follows.core]
  exact rel.put rel.tid ((keeps _).same tdata {tdata with cost := tdata.cost + 1} thread related
    ⟨rfl,rfl,rfl,fun _ => rfl⟩ ⟨rfl,rfl,rfl,fun _ => rfl⟩)

theorem Related.threadExit (rel : Related T rt levels) (tid : Nat) :
    Matches (Related T) (threadExit cfg rt tid) (Levels.threadExit cfg levels tid) := by
  unfold Aprof.threadExit Levels.threadExit
  rcases rel.lookup tid with ⟨none,none'⟩ | ⟨tdata,thread,some,some',related⟩
  · rw [none,none']
    exact trivial
  · rw [some,some']
    obtain ⟨core,cells,dirty⟩ := thread
    obtain rfl : core = tdata.erase := ((keeps _).follows _ _ related).core
    have erased := erase_unwindShared cfg tdata.stackDepth rt.shared tdata
    simp only [erase_stackDepth,rel.shared,erased]
    refine ⟨rfl,rfl,by simp [rel.reported],fun other => ?_⟩
    simp only [Function.update_apply]
    split
    · exact .none
    · exact rel.threads other

theorem Related.pushStack {Q : Runtime c → LevelRuntime → Prop} (rel : Related T rt levels) (sp : UInt64)
    (f : FnPtr) {tid : Nat} (current : rt.currentTid = tid)
    (hidden : ∀ after thread, T tid after thread → Q (rt.put tid after) (levels.put levels.currentTid thread))
    (visible : ∀ tdata thread opened, rt.threads tid = some tdata →
      levels.threads tid = some thread → T tid tdata thread → Opened cfg tdata opened →
      tdata.skip = 0 → skipFlag cfg opened tdata.stackDepth = false → (cfg.fn f).skip = false →
      Matches Q (do
        let (rt,tdata) ← assignId cfg rt tid opened
        let (shared,tdata) := enterShared cfg rt.shared tdata
        .ok ({rt with shared := shared}.put tid tdata) : Result (Runtime c))
        (.ok ({levels with shared := (enterShared cfg rt.shared opened.erase).1}.put levels.currentTid
          {thread with core := (enterShared cfg rt.shared opened.erase).2}) : Result LevelRuntime)) :
    Matches Q (pushStack cfg rt sp f) (Levels.pushStack cfg levels sp f) := by
  subst current
  apply rel.withCurrent
  intro tdata thread concrete abstract related
  obtain ⟨core,cells,dirty⟩ := thread
  obtain rfl : core = tdata.erase := ((keeps _).follows _ _ related).core
  apply (erase_pushFrame tdata cfg sp f).bind
  intro pushed erased ok same
  obtain rfl : erased = pushed.erase := same
  have opened := pushFrame_opened ok
  have routine := pushFrame_routine ok
  have started : enterStart pushed.erase = (enterStart pushed).erase := (erase_enterStart pushed).symm
  have flag : skipFlag cfg (enterStart pushed) tdata.stackDepth =
      (cfg.fn (enterStart pushed).top.routineInfo).skip := by
    simp only [skipFlag,ThreadData.top,opened.more.depth,Nat.add_sub_cancel]
  have skip := opened.skip
  have kept : ({levels with shared := rt.shared} : LevelRuntime) = levels := by rw [← rel.shared]
  unfold Aprof.functionEnter Levels.functionEnter
  simp only [started,erase_top,erase_routineInfo,erase_skip,rel.shared]
  generalize enterStart pushed = top at opened routine flag skip
  by_cases skipped : (cfg.fn top.top.routineInfo).skip = true
  · simp only [if_pos skipped,kept]
    exact hidden _ _ ((keeps _).hide tdata top _ (top.skip + 1) related opened
      (Or.inl (by rw [flag]; exact skipped)) (by rw [flag,skip,if_pos skipped]))
  · simp only [if_neg skipped]
    by_cases skipping : top.skip > 0
    · simp only [if_pos skipping,kept]
      exact hidden _ _ ((keeps _).hide tdata top _ top.skip related opened
        (Or.inr (by omega)) (by rw [flag,skip,if_neg skipped]; rfl))
    · simp only [if_neg skipping]
      have plain : (cfg.fn top.top.routineInfo).skip = false := by simpa using skipped
      exact visible tdata _ top concrete abstract related opened (by omega) (flag.trans plain) (routine ▸ plain)

end

end Aprof
