import Aprof.RmsRefinement
import Aprof.Twins

/-! The activation ids of the RMS metric may wrap: nothing recorded depends on it. -/
namespace Aprof

open Lockstep Levels Floor

/-- The handler renumbers without changing the answer to any comparison. -/
structure Renumbering (before after : ThreadData) (counter : Nat) : Prop where
  erase : after.erase = before.erase
  reaches : ∀ g i, i < before.stackDepth →
    (before.ids i ≤ before.shadowMemory.value g ↔ after.ids i ≤ after.shadowMemory.value g)
  deepest : ∀ g, level after.ids (after.shadowMemory.value g) before.stackDepth =
    level before.ids (before.shadowMemory.value g) before.stackDepth
  forgotten : ∀ g, (∀ i, i < before.stackDepth → before.shadowMemory.value g < before.ids i) →
    after.shadowMemory.value g = 0
  idsBelow : ∀ i, i < before.stackDepth → after.ids i < counter
  cellsBelow : ∀ g, after.shadowMemory.value g < counter

theorem overflowHandlerRms_renumbers {tdata : ThreadData} {levels : Nat → Nat}
    (tracks : Tracks tdata.ids tdata.stackDepth tdata.shadowMemory.value levels) :
    Renumbering tdata (overflowHandlerRms tdata).2 (overflowHandlerRms tdata).1 := by
  have handled := overflowHandlerRms_tracks tdata tracks fun _ => rfl
  have below := overflowHandlerRms_below tracks.positive
  refine ⟨overflowHandlerRms_erase tdata,?_,?_,?_,below.1,below.2⟩
  · intro g i bound
    rw [← tracks.reaches g i bound,← handled.reaches g i bound]
  · intro g
    rw [← handled.floor g,← tracks.floor g]
  · intro g older
    rw [overflowHandlerRms_value tdata tracks.positive]
    apply level_unique tracks.increasing _ _ (Nat.zero_le _)
    intro i bound
    have := older i bound
    omega

section
variable {c c' : Counter} {cfg : Config}

theorem RmsRelated.twins {rt : Runtime c} {rt' : Runtime c'} {levels : LevelRuntime}
    (rel : RmsRelated c cfg rt levels) (rel' : RmsRelated c' cfg rt' levels) : Twins rt rt' :=
  Related.twins (rel.mono fun _ _ _ thread => thread.follows) (rel'.mono fun _ _ _ thread => thread.follows)

theorem rms_exits (rms : cfg.inputMetric = .rms) (events : List Event) {rt : Runtime c} {rt' : Runtime c'}
    {levels : LevelRuntime} (rel : RmsRelated c cfg rt levels) (rel' : RmsRelated c' cfg rt' levels) :
    exits cfg rt events = exits cfg rt' events := by
  induction events generalizing rt rt' levels with
  | nil => rfl
  | cons event events ih =>
    have same : exitsOf cfg rt.shared rt.threads rt.currentTid event =
        exitsOf cfg rt'.shared rt'.threads rt'.currentTid event := (rel.twins rel').exitsOf event
    have left := RmsRelated.step rms rel event
    have right := RmsRelated.step rms rel' event
    unfold exits
    cases taken : step cfg rt event with
    | error fault =>
      rw [taken] at left
      cases taken' : step cfg rt' event with
      | error fault' => rfl
      | ok after' =>
        rw [taken'] at right
        obtain ⟨levels',ok,_⟩ := right.ok_left
        rw [ok] at left
        exact left.elim
    | ok after =>
      rw [taken] at left
      obtain ⟨levels',ok,rel⟩ := left.ok_left
      rw [ok] at right
      obtain ⟨after',ok',rel'⟩ := right.ok_right
      simp only [ok',same,ih rel rel']

theorem rms_handler (rms : cfg.inputMetric = .rms) {events : List Event} {rt : Runtime c}
    (reached : (initial c cfg >>= fun rt => run cfg rt events) = .ok rt) {tdata pushed : ThreadData}
    (current : rt.current = .ok tdata) {sp : UInt64} {f : FnPtr} (push : pushFrame cfg tdata sp f = .ok pushed)
    (recorded : tdata.skip = 0) :
    Renumbering (named c (enterStart pushed)) (overflowHandlerRms (named c (enterStart pushed))).2
      (overflowHandlerRms (named c (enterStart pushed))).1 := by
  have matched := rms_run c rms events
  rw [reached] at matched
  obtain ⟨levels,_,rel⟩ := matched.ok_left
  have thread : ∃ thread, RmsThread c cfg tdata thread := by
    have followed : Matches (fun tdata thread => RmsThread c cfg tdata thread) (rt.current >>= .ok)
        (levels.current >>= .ok) := rel.withCurrent fun _ _ _ _ related => related
    rw [current] at followed
    obtain ⟨thread,_,related⟩ := followed.ok_left
    exact ⟨thread,related⟩
  obtain ⟨thread,related⟩ := thread
  have opened := pushFrame_opened push
  have all := related.follows.counted.recorded_iff.mp recorded
  have tracks := related.follows.tracks
  rw [all] at tracks
  have kept : Tracks (enterStart pushed).ids tdata.stackDepth (enterStart pushed).shadowMemory.value thread.levels := by
    refine tracks.congr (fun i _ => opened.ids i) fun g => ?_
    rw [opened.shadow]
  have pushed' := named_tracks (c := c) _ opened.more.depth kept
    (fun i bound => by
      rw [opened.ids,opened.next]
      exact related.idsBelow i (by omega))
    (fun g => by
      rw [opened.shadow,opened.next]
      exact related.cellsBelow g)
  rw [← opened.more.depth] at pushed'
  exact overflowHandlerRms_renumbers pushed'

/-- With 32-bit activation ids a run records the same exits as with unbounded
ones, and ends with the same profile; the handler answers every comparison as
before. -/
theorem rms_overflow_invisible (rms : cfg.inputMetric = .rms) :
    (∀ events, Matches Twins (initial .wrapping cfg >>= fun rt => run cfg rt events)
      (initial .unbounded cfg >>= fun rt => run cfg rt events)) ∧
    (∀ events first first', initial .wrapping cfg = .ok first → initial .unbounded cfg = .ok first' →
      exits cfg first events = exits cfg first' events) ∧
    ∀ events (rt : Runtime .wrapping), (initial .wrapping cfg >>= fun rt => run cfg rt events) = .ok rt →
      ∀ tdata sp f pushed, rt.current = .ok tdata → pushFrame cfg tdata sp f = .ok pushed → tdata.skip = 0 →
        (named .wrapping (enterStart pushed)).nextActivationId = 0 →
          Renumbering (named .wrapping (enterStart pushed)) (overflowHandlerRms (named .wrapping (enterStart pushed))).2
            (overflowHandlerRms (named .wrapping (enterStart pushed))).1 := by
  refine ⟨?_,?_,?_⟩
  · intro events
    apply ((rms_run .wrapping rms events).join (rms_run .unbounded rms events)).mono
    rintro rt rt' _ _ ⟨levels,rel,rel'⟩
    exact rel.twins rel'
  · intro events first first' ok ok'
    obtain ⟨rt,created,rel⟩ := rms_initial .wrapping cfg
    obtain ⟨rt',created',rel'⟩ := rms_initial .unbounded cfg
    rw [ok] at created
    rw [ok'] at created'
    cases created
    cases created'
    exact rms_exits rms events rel rel'
  · intro events rt reached tdata sp f pushed current push recorded _
    exact rms_handler rms reached current push recorded

theorem rms_overflow_one_call : ∃ (first : Runtime .wrapping) (first' : Runtime .unbounded),
    exits (smallConfig .rms) first [.threadSwitch 1,.functionEnter 0 0,.access .load 0 1,.functionExit] = [(0,1)] ∧
    exits (smallConfig .rms) first [.threadSwitch 1,.functionEnter 0 0,.access .load 0 1,.functionExit] =
      exits (smallConfig .rms) first' [.threadSwitch 1,.functionEnter 0 0,.access .load 0 1,.functionExit] :=
  ⟨_,_,rfl,(rms_overflow_invisible rfl).2.1 _ _ _ rfl rfl⟩

end

end Aprof
