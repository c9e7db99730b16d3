import Mathlib.Data.Fintype.Basic
import JamVM.Thread.Suspend

/-! # Safety of the stopped world

A stopped thread is contained: it is in a region with suspension disabled, on
its way to read a raised `suspend` flag, or inside `suspendLoop` with the flag
raised. Containment survives every step of the thread itself. The suspender,
however, sees only `suspend_state`, which the handler overwrites with
`SUSP_SUSPENDED` whatever it interrupted.
-/

namespace JamVM.Thread.Suspend

open Location SuspenderPoint List Local
open State (moveTo)
open TransitionSystem

variable {Thread : Type u}

/-! ## What `suspend_state` says about a thread -/

/-- The value that the code at a location keeps in `suspend_state` when no
`suspendLoop` activation is on top of it. -/
def Location.declared : Location Thread → SuspendState
  | .disabling | .blocking | .detached => .blocking
  | .critical => .critical
  | .suspender disabled _ => if disabled then .blocking else .none
  | _ => .none

def Location.InLoop (location : Location Thread) : Prop :=
  location = .enablingLoop ∨ location = .fastLoop

attribute [local simp] Location.InLoop

/-! The regions that block the signal after `disableSuspend0`, and the direct
calls of `suspendLoop`. -/

def Location.Masks : Location Thread → Prop
  | .blocking | .enabling | .enablingLoop | .fastLoop => True
  | .suspender disabled _ => disabled = true
  | _ => False

def Location.Bare : Location Thread → Prop
  | .unattached | .critical | .detached | .dead => True
  | _ => False

def Location.Active : Location Thread → Prop
  | .unattached | .detached | .dead => False
  | _ => True

structure Settled (thread : Local Thread) : Prop where
  masked : thread.location.Masks → thread.masked = true
  bare : thread.location.Bare → thread.frames = []

/-- The relation between a thread's location, its activations and the value of
its `suspend_state`. At most one handler runs inside another activation. -/
inductive Coherent (thread : Local Thread) : Prop
  | plain (frames : thread.frames = []) (outside : ¬ thread.location.InLoop)
      (declared : thread.suspendState = thread.location.declared)
  | entering (top : Activation) (frames : thread.frames = [top])
      (origin : thread.location.InLoop ↔ top.handler = false)
      (point : top.point = .entry ∨ top.point = .publish ∧ top.oldState = thread.location.declared)
      (declared : thread.suspendState = thread.location.declared)
  | looping (top : Activation) (frames : thread.frames = [top])
      (origin : thread.location.InLoop ↔ top.handler = false)
      (saved : top.oldState = thread.location.declared)
      (point : top.point = .test ∨ top.point = .restore ∨ top.point = .sleep ∧ top.oldState = .none)
      (suspended : thread.suspendState = .suspended)
  | nested (top outer : Activation) (frames : thread.frames = [top, outer])
      (origin : thread.location.InLoop ↔ outer.handler = false)
      (handler : top.handler = true) (awake : top.point ≠ .sleep)
      (saved : top.point = .entry ∨ top.oldState = .suspended)
      (asleep : outer.point = .sleep) (outerSaved : outer.oldState = .none)
      (declared : thread.location.declared = .none)
      (suspended : thread.suspendState = .suspended)
  | dead (frames : thread.frames = []) (dead : thread.location = .dead)

/-- The thread cannot get back to mutator code or a critical region while its
`suspend` flag is raised. -/
inductive Contained (thread : Local Thread) : Prop
  | dead (dead : thread.location = .dead)
  | disabled (declared : thread.location.declared = .blocking)
  | enabling (enabling : thread.location = .enabling)
  | selfSuspending (outer : Activation) (outermost : thread.frames.getLast? = some outer)
      (location : thread.location = .enablingLoop) (point : outer.point ≠ .restore)
  | looping (outer : Activation) (outermost : thread.frames.getLast? = some outer)
      (saved : outer.oldState = .none)
      (point : outer.point = .test ∨ outer.point = .sleep)

variable {location : Location Thread} {thread next : Local Thread} {suspend : Bool}
  {top : Activation} {rest : List Activation}

theorem Location.InLoop.declared (inLoop : location.InLoop) : location.declared = .none := by
  rcases inLoop with rfl | rfl <;> rfl

theorem Location.InLoop.masks (inLoop : location.InLoop) : location.Masks := by
  rcases inLoop with rfl | rfl <;> trivial

/-! ## Steps keep a thread coherent -/

structure Sole (thread : Local Thread) (top : Activation) : Prop where
  origin : thread.location.InLoop ↔ top.handler = false
  saved : top.oldState = thread.location.declared

structure Interrupted (thread : Local Thread) (outer : Activation) : Prop where
  origin : thread.location.InLoop ↔ outer.handler = false
  asleep : outer.point = .sleep
  saved : outer.oldState = .none
  declared : thread.location.declared = .none
  suspended : thread.suspendState = .suspended

/-- The steps of `suspendLoop` in the only activation of a thread, and those of a handler that
runs inside another activation, until that one is awake again. -/
inductive LoopMove (thread : Local Thread) (suspend : Bool) (top : Activation) :
    List Activation → Local Thread → Prop
  | save (origin : thread.location.InLoop ↔ top.handler = false) (entry : top.point = .entry)
      (declared : thread.suspendState = thread.location.declared) :
      LoopMove thread suspend top [] { thread with
        frames := [{ top with point := .publish, oldState := thread.suspendState }] }
  | publish (sole : Sole thread top) (publish : top.point = .publish) :
      LoopMove thread suspend top [] { thread with
        frames := [{ top with point := .test }], suspendState := .suspended }
  | sleep (sole : Sole thread top) (suspended : thread.suspendState = .suspended)
      (raised : suspend = true) (unset : top.oldState = .none) :
      LoopMove thread suspend top [] { thread with frames := [{ top with point := .sleep }] }
  | leave (sole : Sole thread top) (suspended : thread.suspendState = .suspended)
      (leaves : suspend = true → top.oldState ≠ .none) :
      LoopMove thread suspend top [] { thread with frames := [{ top with point := .restore }] }
  | restore (sole : Sole thread top) (restore : top.point = .restore) :
      LoopMove thread suspend top [] { thread with
        location := if top.handler then thread.location else .unmasking
        frames := []
        suspendState := top.oldState }
  | inside {outer changed : Activation} (interrupted : Interrupted thread outer)
      (handler : changed.handler = true) (awake : changed.point ≠ .sleep)
      (saved : changed.oldState = .suspended) :
      LoopMove thread suspend top [outer] { thread with frames := [changed, outer] }
  | wake {outer : Activation} (interrupted : Interrupted thread outer) :
      LoopMove thread suspend top [outer] { thread with frames := [{ outer with point := .test }] }

theorem Settled.loopStep (settled : Settled thread) (frames : thread.frames = top :: rest)
    (ran : thread.loopStep suspend top rest = some next) : Settled next := by
  have inside : ¬ thread.location.Bare := by
    intro bare
    simp [settled.bare bare] at frames
  unfold Local.loopStep at ran
  split at ran
  · cases ran; exact ⟨settled.masked, fun bare => absurd bare inside⟩
  · cases ran; exact ⟨settled.masked, fun bare => absurd bare inside⟩
  · split at ran <;> cases ran <;>
      exact ⟨settled.masked, fun bare => absurd bare inside⟩
  · cases ran
  · cases ran
    cases top.handler with
    | true => exact ⟨settled.masked, fun bare => absurd bare inside⟩
    | false => exact ⟨False.elim, False.elim⟩

theorem Settled.regionStep (settled : Settled thread)
    (ran : thread.regionStep suspend = some next) : Settled next := by
  unfold Local.regionStep at ran
  split at ran
  · cases ran; exact ⟨fun _ => rfl, False.elim⟩
  · rename_i location
    have blocked : thread.masked = true := settled.masked (by rw [location]; trivial)
    split at ran <;> cases ran <;> exact ⟨fun _ => blocked, False.elim⟩
  · cases ran; exact ⟨False.elim, False.elim⟩
  · split at ran <;> cases ran <;> exact ⟨False.elim, False.elim⟩
  · cases ran; exact ⟨fun _ => rfl, False.elim⟩
  · cases ran

theorem Settled.callStep (settled : Settled thread) (frames : thread.frames = [])
    (ran : thread.callStep call = some next) : Settled next := by
  unfold Local.callStep at ran
  split at ran
  case h_2 location | h_6 location =>
    cases ran
    exact ⟨fun _ => settled.masked (by rw [location]; trivial), fun _ => frames⟩
  case h_7 location =>
    cases ran
    exact ⟨fun disabled => settled.masked (by rw [location]; exact disabled), fun _ => frames⟩
  case h_5 =>
    cases ran
    exact ⟨fun disabled => absurd disabled (by simp [Masks]), fun _ => frames⟩
  case h_8 => cases ran
  all_goals
    cases ran
    exact ⟨False.elim, fun _ => frames⟩

theorem Local.deliverable_alive
    (deliverable : thread.deliverable = true) : thread.location ≠ .dead := by
  intro dead
  simp [Local.deliverable, dead] at deliverable

theorem Settled.deliverStep (settled : Settled thread) (deliverable : thread.deliverable = true)
    (uncritical : thread.frames = [] → thread.location ≠ .critical) :
    Settled thread.deliverStep where
  masked := settled.masked
  bare bare := by
    have frames := settled.bare bare
    have uncritical := uncritical frames
    change thread.location.Bare at bare
    cases location : thread.location <;> simp_all [Bare, Local.deliverable]

section
variable (coherent : Coherent thread)
include coherent

theorem Coherent.loopMove (frames : thread.frames = top :: rest)
    (ran : thread.loopStep suspend top rest = some next) :
    LoopMove thread suspend top rest next := by
  cases coherent with
  | plain none | dead none => simp [none] at frames
  | entering _ single origin point declared =>
    cases frames.symm.trans single
    rcases point with entry | ⟨publish, saved⟩
    · simp only [Local.loopStep, entry] at ran
      cases ran
      exact .save origin entry declared
    · simp only [Local.loopStep, publish] at ran
      cases ran
      exact .publish ⟨origin, saved⟩ publish
  | looping _ single origin saved point suspended =>
    cases frames.symm.trans single
    rcases point with test | restore | ⟨sleep, -⟩
    · simp only [Local.loopStep, test] at ran
      split at ran <;> cases ran
      · rename_i continues
        exact .sleep ⟨origin, saved⟩ suspended continues.1 continues.2
      · rename_i leaves
        exact .leave ⟨origin, saved⟩ suspended fun raised unset => leaves ⟨raised, unset⟩
    · simp only [Local.loopStep, restore] at ran
      cases ran
      exact .restore ⟨origin, saved⟩ restore
    · simp [Local.loopStep, sleep] at ran
  | nested _ outer pair origin handler awake saved asleep outerSaved declared suspended =>
    cases frames.symm.trans pair
    have interrupted : Interrupted thread outer :=
      ⟨origin, asleep, outerSaved, declared, suspended⟩
    have saved (later : top.point ≠ .entry) : top.oldState = .suspended :=
      saved.resolve_left later
    cases point : top.point with
    | entry =>
      simp only [Local.loopStep, point] at ran
      cases ran
      exact .inside interrupted handler (by simp) suspended
    | publish =>
      simp only [Local.loopStep, point, ← suspended] at ran
      cases ran
      exact .inside interrupted handler (by simp) (saved (by simp [point]))
    | test =>
      have saved := saved (by simp [point])
      simp only [Local.loopStep, point, saved, reduceCtorEq, and_false, if_false] at ran
      cases ran
      exact .inside interrupted handler (by simp) rfl
    | sleep => exact absurd point awake
    | restore =>
      simp only [Local.loopStep, point, handler, if_true, saved (by simp [point]),
        ← suspended] at ran
      cases ran
      exact .wake interrupted

theorem Coherent.loopStep (frames : thread.frames = top :: rest)
    (ran : thread.loopStep suspend top rest = some next) : Coherent next := by
  cases coherent.loopMove frames ran with
  | save origin _ declared => exact .entering _ rfl origin (.inr ⟨rfl, declared⟩) declared
  | publish sole => exact .looping _ rfl sole.origin sole.saved (.inl rfl) rfl
  | sleep sole suspended _ unset =>
    exact .looping _ rfl sole.origin sole.saved (.inr (.inr ⟨rfl, unset⟩)) suspended
  | leave sole suspended =>
    exact .looping _ rfl sole.origin sole.saved (.inr (.inl rfl)) suspended
  | restore sole =>
    cases handler : top.handler with
    | true =>
      refine .plain rfl ?_ (by simpa [handler] using sole.saved)
      simpa [handler] using sole.origin
    | false =>
      have inLoop := sole.origin.mpr handler
      refine .plain rfl (by simp) ?_
      simpa [handler, Location.declared] using sole.saved.trans inLoop.declared
  | inside outer handler awake saved =>
    exact .nested _ _ rfl outer.origin handler awake (.inr saved) outer.asleep outer.saved
      outer.declared outer.suspended
  | wake outer =>
    exact .looping _ rfl outer.origin (outer.saved.trans outer.declared.symm) (.inl rfl)
      outer.suspended

theorem Coherent.of_frames_nil (frames : thread.frames = []) (alive : thread.location ≠ .dead) :
    ¬ thread.location.InLoop ∧ thread.suspendState = thread.location.declared := by
  cases coherent with
  | plain _ outside declared => exact ⟨outside, declared⟩
  | dead _ dead => exact absurd dead alive
  | entering _ single | looping _ single | nested _ _ single => simp [single] at frames

theorem Coherent.regionStep (frames : thread.frames = [])
    (ran : thread.regionStep suspend = some next) : Coherent next := by
  have alive : thread.location ≠ .dead := by
    intro dead
    simp [Local.regionStep, dead] at ran
  obtain ⟨-, declared⟩ := coherent.of_frames_nil frames alive
  cases location : thread.location with
  | disabling | unmasking =>
    simp only [Local.regionStep, location] at ran
    cases ran
    exact .plain frames (by simp) (declared.trans (by rw [location]; rfl))
  | enabling =>
    simp only [Local.regionStep, location] at ran
    have unset : thread.suspendState = .none := declared.trans (by rw [location]; rfl)
    split at ran <;> cases ran
    · exact .entering _ rfl (by simp) (.inl rfl) unset
    · exact .plain frames (by simp) unset
  | fastEnabling =>
    simp only [Local.regionStep, location] at ran
    have unset : thread.suspendState = .none := declared.trans (by rw [location]; rfl)
    split at ran <;> cases ran <;> exact .plain frames (by simp) unset
  | fastMasking =>
    simp only [Local.regionStep, location] at ran
    cases ran
    exact .entering _ rfl (by simp) (.inl rfl) (declared.trans (by rw [location]; rfl))
  | _ => simp [Local.regionStep, location] at ran

theorem Coherent.callStep (frames : thread.frames = [])
    (ran : thread.callStep call = some next) : Coherent next := by
  have alive : thread.location ≠ .dead := by
    intro dead
    simp [Local.callStep, dead] at ran
  obtain ⟨-, declared⟩ := coherent.of_frames_nil frames alive
  unfold Local.callStep at ran
  split at ran
  case h_8 => cases ran
  all_goals
    rename_i location
    cases ran
    refine .plain frames (by simp) ?_
    first
      | rfl
      | exact declared.trans (by rw [location]; rfl)

end

theorem Local.deliverable_cons (frames : thread.frames = top :: rest)
    (deliverable : thread.deliverable = true) :
    top.point = .sleep ∨ thread.masked = false ∧ ∀ frame ∈ top :: rest, frame.handler = false := by
  cases location : thread.location <;>
    simp [Local.deliverable, location, frames] at deliverable <;>
    simpa using deliverable

theorem Coherent.deliverStep (coherent : Coherent thread)
    (settled : Settled thread) (deliverable : thread.deliverable = true) :
    Coherent thread.deliverStep := by
  cases coherent with
  | plain frames outside declared =>
    refine .entering ⟨.entry, .none, true⟩ (by simp [Local.deliverStep, frames]) ?_
      (.inl rfl) declared
    simpa [Local.deliverStep] using outside
  | dead _ dead => exact absurd dead (Local.deliverable_alive deliverable)
  | entering top frames origin point =>
    rcases deliverable_cons frames deliverable with sleep | ⟨unmasked, direct⟩
    · simp [sleep] at point
    · have inLoop := origin.mpr (direct top (by simp))
      simp [settled.masked inLoop.masks] at unmasked
  | looping top frames origin saved point suspended =>
    rcases deliverable_cons frames deliverable with sleep | ⟨unmasked, direct⟩
    · have unset : top.oldState = .none := by simpa [sleep] using point
      exact .nested ⟨.entry, .none, true⟩ top (by simp [Local.deliverStep, frames]) origin
        rfl (by simp) (.inl rfl) sleep unset (saved.symm.trans unset) suspended
    · have inLoop := origin.mpr (direct top (by simp))
      simp [settled.masked inLoop.masks] at unmasked
  | nested top outer frames _ handler awake =>
    rcases deliverable_cons frames deliverable with sleep | ⟨_, direct⟩
    · exact absurd sleep awake
    · simp [direct top (by simp)] at handler

theorem Coherent.relocate (coherent : Coherent thread) (alive : thread.location ≠ .dead)
    (declared : location.declared = thread.location.declared)
    (inLoop : location.InLoop ↔ thread.location.InLoop) :
    Coherent { thread with location := location } := by
  cases coherent with
  | plain frames outside state =>
    exact .plain frames (mt inLoop.mp outside) (state.trans declared.symm)
  | entering top frames origin point state =>
    exact .entering top frames (inLoop.trans origin) (by rwa [declared]) (state.trans declared.symm)
  | looping top frames origin saved point state =>
    exact .looping top frames (inLoop.trans origin) (saved.trans declared.symm) point state
  | nested top outer frames origin handler awake saved asleep outerSaved unset state =>
    exact .nested top outer frames (inLoop.trans origin) handler awake saved asleep
      outerSaved (declared.trans unset) state
  | dead _ dead => exact absurd dead alive

/-! ## Steps keep a flagged thread contained -/

theorem Coherent.declared_of_looping
    (coherent : Coherent thread) (outermost : thread.frames.getLast? = some outer)
    (saved : outer.oldState = .none) (point : outer.point = .test ∨ outer.point = .sleep) :
    thread.location.declared = .none := by
  cases coherent with
  | plain none | dead none => simp [none] at outermost
  | entering top frames _ entered =>
    obtain rfl : top = outer := by simpa [frames] using outermost
    rcases point with test | sleep
    · simp [test] at entered
    · simp [sleep] at entered
  | looping top frames _ declared =>
    obtain rfl : top = outer := by simpa [frames] using outermost
    exact declared.symm.trans saved
  | nested _ _ _ _ _ _ _ _ _ declared => exact declared

section
variable (coherent : Coherent thread)
include coherent

theorem Contained.stopped (contained : Contained thread) :
    thread.location ≠ .critical ∧ (thread.Running → thread.location = .blocking) := by
  cases contained with
  | dead dead => simp [dead, Running]
  | enabling enabling => simp [enabling, Running]
  | selfSuspending _ _ location => simp [location, Running]
  | disabled declared =>
    refine ⟨fun critical => by simp [critical, Location.declared] at declared, ?_⟩
    rintro ⟨-, mutator | blocking | critical⟩
    · simp [mutator, Location.declared] at declared
    · exact blocking
    · simp [critical, Location.declared] at declared
  | looping outer outermost saved point =>
    have declared := coherent.declared_of_looping outermost saved point
    refine ⟨fun critical => by simp [critical, Location.declared] at declared, ?_⟩
    intro running
    simp [running.1] at outermost

theorem Coherent.loopStep_location (frames : thread.frames = top :: rest)
    (ran : thread.loopStep suspend top rest = some next) :
    next.location = thread.location ∨ rest = [] ∧ thread.location.InLoop ∧ top.point = .restore ∧
        next.location = .unmasking := by
  cases coherent.loopMove frames ran with
  | restore sole restore =>
    cases handler : top.handler with
    | true => simp
    | false => exact .inr ⟨rfl, sole.origin.mpr handler, restore, rfl⟩
  | _ => exact .inl rfl

theorem Coherent.loopStep_outermost
    (frames : thread.frames = top :: rest) (unset : thread.location.declared = .none)
    (ran : thread.loopStep true top rest = some next)
    (outermost : thread.frames.getLast? = some outer) (staying : outer.point ≠ .restore) :
    ∃ changed, next.frames.getLast? = some changed ∧ changed.point ≠ .restore ∧
      (outer.point = .test ∨ outer.point = .sleep →
        changed.oldState = .none ∧ (changed.point = .test ∨ changed.point = .sleep)) := by
  rw [frames] at outermost
  cases coherent.loopMove frames ran with
  | save _ point | publish _ point =>
    obtain rfl : top = outer := by simpa using outermost
    exact ⟨_, rfl, by simp, by simp [point]⟩
  | sleep _ _ _ isNone => exact ⟨_, rfl, by simp, fun _ => ⟨isNone, .inr rfl⟩⟩
  | leave sole _ leaves => exact absurd (sole.saved.trans unset) (leaves rfl)
  | restore _ restore =>
    obtain rfl : top = outer := by simpa using outermost
    exact absurd restore staying
  | inside outer =>
    exact ⟨_, rfl, by simp [outer.asleep], fun _ => ⟨outer.saved, .inr outer.asleep⟩⟩
  | wake outer => exact ⟨_, rfl, by simp, fun _ => ⟨outer.saved, .inl rfl⟩⟩

theorem Contained.loopStep (contained : Contained thread) (frames : thread.frames = top :: rest)
    (ran : thread.loopStep true top rest = some next) : Contained next := by
  have location := coherent.loopStep_location frames ran
  cases contained with
  | dead dead =>
    have outside : ¬ thread.location.InLoop := by simp [dead]
    exact .dead ((location.resolve_right fun left => outside left.2.1).trans dead)
  | enabling enabling =>
    have outside : ¬ thread.location.InLoop := by simp [enabling]
    exact .enabling ((location.resolve_right fun left => outside left.2.1).trans enabling)
  | disabled declared =>
    have outside : ¬ thread.location.InLoop := by
      intro inLoop
      simp [inLoop.declared] at declared
    have same := location.resolve_right fun left => outside left.2.1
    exact .disabled (same ▸ declared)
  | selfSuspending outer outermost enablingLoop staying =>
    obtain ⟨changed, last, point, -⟩ := coherent.loopStep_outermost frames
      (by rw [enablingLoop]; rfl) ran outermost staying
    refine .selfSuspending changed last ?_ point
    refine (location.resolve_right fun left => staying ?_).trans enablingLoop
    obtain ⟨rfl, -, restore, -⟩ := left
    obtain rfl : top = outer := by simpa [frames] using outermost
    exact restore
  | looping outer outermost saved point =>
    have staying : outer.point ≠ .restore := by
      rcases point with test | sleep
      · simp [test]
      · simp [sleep]
    obtain ⟨changed, last, -, stays⟩ := coherent.loopStep_outermost frames
      (coherent.declared_of_looping outermost saved point) ran outermost staying
    exact .looping changed last (stays point).1 (stays point).2

end

theorem Contained.regionStep (contained : Contained thread) (frames : thread.frames = [])
    (ran : thread.regionStep true = some next) : Contained next := by
  cases contained with
  | dead dead => simp [Local.regionStep, dead] at ran
  | selfSuspending _ outermost | looping _ outermost => simp [frames] at outermost
  | enabling enabling =>
    simp only [Local.regionStep, enabling, if_true] at ran
    cases ran
    exact .selfSuspending _ rfl rfl (by simp)
  | disabled declared =>
    unfold Local.regionStep at ran
    split at ran
    case h_1 => cases ran; exact .disabled rfl
    case h_6 => cases ran
    all_goals
      rename_i location
      simp [location, Location.declared] at declared

theorem Contained.of_frames_nil (contained : Contained thread) (frames : thread.frames = []) :
    thread.location = .dead ∨ thread.location.declared = .blocking ∨
      thread.location = .enabling := by
  cases contained with
  | dead dead => exact .inl dead
  | disabled declared => exact .inr (.inl declared)
  | enabling enabling => exact .inr (.inr enabling)
  | selfSuspending _ outermost | looping _ outermost => simp [frames] at outermost

theorem Contained.callStep (contained : Contained thread) (frames : thread.frames = [])
    (other : ∀ disabled point, next.location ≠ .suspender disabled point)
    (ran : thread.callStep call = some next) : Contained next := by
  unfold Local.callStep at ran
  split at ran
  case h_2 => cases ran; exact .enabling rfl
  case h_5 | h_6 | h_7 => cases ran; exact absurd rfl (other _ _)
  case h_8 => cases ran
  all_goals
    rename_i location
    simpa [location, Location.declared] using contained.of_frames_nil frames

theorem Contained.deliverStep (contained : Contained thread) : Contained thread.deliverStep := by
  have outermost_cons {outer : Activation} (outermost : thread.frames.getLast? = some outer) :
      thread.deliverStep.frames.getLast? = some outer := by
    simp [Local.deliverStep, getLast?_cons, outermost]
  cases contained with
  | dead dead => exact .dead dead
  | disabled declared => exact .disabled declared
  | enabling enabling => exact .enabling enabling
  | selfSuspending outer outermost location point =>
    exact .selfSuspending outer (outermost_cons outermost) location point
  | looping outer outermost saved point =>
    exact .looping outer (outermost_cons outermost) saved point

/-! ## What the suspender may conclude -/

def Kept (suspend : Bool) (thread : Local Thread) : Prop :=
  thread.suspendState = .suspended → thread.location.declared = .none →
    suspend = true ∧ ∀ outer ∈ thread.frames.getLast?, outer.point ≠ .restore

theorem Contained.of_blocking (coherent : Coherent thread)
    (blocking : thread.suspendState = .blocking) : Contained thread := by
  cases coherent with
  | plain _ _ declared | entering _ _ _ _ declared =>
    exact .disabled (declared.symm.trans blocking)
  | looping _ _ _ _ _ suspended | nested _ _ _ _ _ _ _ _ _ _ suspended =>
    simp [suspended] at blocking
  | dead _ dead => exact .dead dead

theorem Location.declared_ne_suspended (location : Location Thread) :
    location.declared ≠ .suspended := by
  cases location with
  | suspender disabled => cases disabled <;> simp [Location.declared]
  | _ => simp [Location.declared]

theorem Location.declared_cases (location : Location Thread) : location.declared = .none ∨
    location.declared = .blocking ∨ location = .critical := by
  cases location with
  | suspender disabled => cases disabled <;> simp [Location.declared]
  | _ => simp [Location.declared]

theorem Contained.of_kept (coherent : Coherent thread) (settled : Settled thread)
    (suspended : thread.suspendState = .suspended) (kept : Kept suspend thread) :
    Contained thread := by
  cases coherent with
  | plain _ _ declared | entering _ _ _ _ declared =>
    exact absurd (declared.symm.trans suspended) (declared_ne_suspended _)
  | looping top frames _ saved point =>
    rcases declared_cases thread.location with unset | blocking | critical
    · refine .looping top (by simp [frames]) (saved.trans unset) ?_
      rcases point with test | restore | ⟨sleep, -⟩
      · exact .inl test
      · exact absurd restore ((kept suspended unset).2 top (by simp [frames]))
      · exact .inr sleep
    · exact .disabled blocking
    · simp [settled.bare (critical ▸ trivial)] at frames
  | nested _ outer frames _ _ _ _ asleep outerSaved =>
    exact .looping outer (by simp [frames]) outerSaved (.inr asleep)
  | dead _ dead => exact .dead dead

theorem Kept.loopStep (kept : Kept suspend thread) (coherent : Coherent thread)
    (frames : thread.frames = top :: rest) (publishes : rest = [] → top.point = .publish →
      suspend = true ∨ thread.location.declared = .blocking)
    (ran : thread.loopStep suspend top rest = some next) : Kept suspend next := by
  cases coherent.loopMove frames ran with
  | save _ _ declared =>
    exact fun suspended => absurd (declared.symm.trans suspended) (declared_ne_suspended _)
  | publish _ publish =>
    intro _ unset
    refine ⟨(publishes rfl publish).resolve_right fun blocking => ?_, by simp⟩
    simp [show thread.location.declared = .none from unset] at blocking
  | sleep _ _ raised => exact fun _ _ => ⟨raised, by simp⟩
  | leave sole suspended leaves =>
    exact fun _ unset => absurd (sole.saved.trans unset) (leaves (kept suspended unset).1)
  | restore sole =>
    exact fun suspended => absurd (sole.saved.symm.trans suspended) (declared_ne_suspended _)
  | inside outer =>
    exact fun _ _ => ⟨(kept outer.suspended outer.declared).1, by simp [outer.asleep]⟩
  | wake outer => exact fun _ _ => ⟨(kept outer.suspended outer.declared).1, by simp⟩

theorem Coherent.unsuspended (coherent : Coherent thread) (frames : thread.frames = [])
    (alive : thread.location ≠ .dead) : thread.suspendState ≠ .suspended := by
  rw [(coherent.of_frames_nil frames alive).2]
  exact declared_ne_suspended _

theorem Kept.regionStep (unsuspended : thread.suspendState ≠ .suspended)
    (ran : thread.regionStep suspend = some next) : Kept suspend next := by
  unfold Local.regionStep at ran
  split at ran <;> (try split at ran) <;> cases ran <;>
    exact fun suspended => absurd suspended unsuspended

theorem Kept.callStep (unsuspended : thread.suspendState ≠ .suspended)
    (ran : thread.callStep call = some next) : Kept suspend next := by
  unfold Local.callStep at ran
  split at ran <;> cases ran <;> intro suspended <;>
    first
      | cases suspended
      | exact absurd suspended unsuspended

theorem Kept.deliverStep (kept : Kept suspend thread) : Kept suspend thread.deliverStep := by
  intro suspended unset
  obtain ⟨raised, staying⟩ := kept suspended unset
  refine ⟨raised, fun outer mem => ?_⟩
  cases frames : thread.frames with
  | nil =>
    obtain rfl : ⟨.entry, .none, true⟩ = outer := by simpa [Local.deliverStep, frames] using mem
    simp
  | cons => exact staying outer (by simpa [Local.deliverStep, frames] using mem)

/-! ## Rounds of suspension -/

section

def SuspenderPoint.Locked : SuspenderPoint Thread → Prop
  | .acquire | .stopped | .reacquire => False
  | _ => True

def SuspenderPoint.Signalled (thread : Thread) : SuspenderPoint Thread → Prop
  | .signal rest | .check _ rest | .kill _ rest => thread ∉ rest
  | .await _ | .release | .stopped => True
  | _ => False

def SuspenderPoint.Passed (thread : Thread) : SuspenderPoint Thread → Prop
  | .await rest => thread ∉ rest
  | .release | .stopped => True
  | _ => False

def SuspenderPoint.Resuming (thread : Thread) : SuspenderPoint Thread → Prop
  | .clear _ | .recheck _ _ | .rekill _ _ => True
  | .drain rest => thread ∈ rest
  | _ => False

structure Round (state : State Thread) (owner : Thread) (point : SuspenderPoint Thread) : Prop where
  locked : point.Locked → state.lock = some owner
  announced : point = .stopped → state.allThreadsSuspended = true
  signalled : ∀ thread ∈ state.listed, thread ≠ owner → point.Signalled thread →
    state.suspend thread = true
  contained : ∀ thread ∈ state.listed, thread ≠ owner → point.Passed thread →
    Contained (state.threads thread)

def Local.Suspending (thread : Local Thread) : Prop :=
  ∃ disabled point, thread.location = .suspender disabled point

def State.Resumes (state : State Thread) (thread : Thread) : Prop :=
  ∃ self disabled point, (state.threads self).location = .suspender disabled point ∧
    point.Resuming thread

def State.Keeps (state : State Thread) (thread : Thread) : Prop :=
  state.Resumes thread ∨ Kept (state.suspend thread) (state.threads thread)

structure Invariant (state : State Thread) : Prop where
  coherent : ∀ thread, Coherent (state.threads thread)
  settled : ∀ thread, Settled (state.threads thread)
  enlisted : ∀ thread, (state.threads thread).location = .unattached ∨
    (state.threads thread).location = .detached ∨ thread ∈ state.listed
  keeps : ∀ thread, state.Keeps thread
  single : ∀ first second, (state.threads first).Suspending →
    (state.threads second).Suspending → first = second
  round : ∀ self disabled point,
    (state.threads self).location = .suspender disabled point → Round state self point

instance (thread : Local Thread) : Decidable thread.Suspending :=
  match location : thread.location with
  | .suspender disabled point => isTrue ⟨disabled, point, location⟩
  | .unattached | .mutator | .disabling | .blocking | .enabling | .enablingLoop
  | .unmasking | .critical | .fastEnabling | .fastMasking | .fastLoop | .detached
  | .dead => isFalse (by rintro ⟨_, _, same⟩; simp [location] at same)

/-- Rounds do not overlap, the signal does not interrupt a critical region, and no thread
publishes `SUSP_SUSPENDED` after its flag was cleared, unless it is in a blocking region. -/
def Orderly (state : State Thread) : Action Thread → Prop
  | .call _ .suspendAllThreads => ∀ other, ¬ (state.threads other).Suspending
  | .deliver thread =>
    (state.threads thread).frames = [] → (state.threads thread).location ≠ .critical
  | .proceed thread =>
    match (state.threads thread).frames with
    | [⟨.publish, _, _⟩] =>
      state.suspend thread = true ∨ (state.threads thread).location.declared = .blocking
    | _ => True
  | _ => True

variable {thread self : Thread} {point : SuspenderPoint Thread} {state next : State Thread}
  {disabled : Bool} {changed : Local Thread}

theorem SuspenderPoint.Passed.signalled
    (passed : point.Passed thread) : point.Signalled thread := by
  cases point <;> trivial

theorem SuspenderPoint.Signalled.locked_or_stopped (signalled : point.Signalled thread) :
    point.Locked ∨ point = .stopped := by
  cases point <;> simp_all [Signalled, Locked]

theorem Invariant.kept (inv : Invariant state)
    (location : (state.threads self).location = .suspender disabled point)
    (held : ¬ point.Resuming thread) : Kept (state.suspend thread) (state.threads thread) := by
  rcases inv.keeps thread with ⟨owner, other, reached, isReached, resuming⟩ | kept
  · obtain rfl := inv.single owner self ⟨_, _, isReached⟩ ⟨_, _, location⟩
    obtain ⟨-, rfl⟩ : _ ∧ reached = point := by simpa [location, eq_comm] using isReached
    exact absurd resuming held
  · exact kept

structure Moves (state next : State Thread) (owner : Thread) (disabled : Bool) : Prop where
  own : (∃ point, next.threads owner =
      { state.threads owner with location := .suspender disabled point } ∧
        Round next owner point) ∨
    next.threads owner = { state.threads owner with
      location := if disabled then .blocking else .mutator }
  others : ∀ thread, thread ≠ owner → next.threads thread = state.threads thread ∨
    (state.threads thread).location = .dead ∧
      next.threads thread = { state.threads thread with suspendState := .blocking }
  listed : next.listed = state.listed
  keeps : ∀ thread, next.Keeps thread

theorem Invariant.stays (inv : Invariant state)
    (location : (state.threads self).location = .suspender disabled point) :
    Moves state state self disabled where
  own := .inl ⟨point, by rw [← location], inv.round self disabled point location⟩
  others _ _ := .inl rfl
  listed := rfl
  keeps := inv.keeps

theorem Invariant.unsuspended (inv : Invariant state)
    (outside : (state.threads thread).location = .unattached ∨
      (state.threads thread).location = .detached) :
    (state.threads thread).suspendState ≠ .suspended := by
  refine (inv.coherent thread).unsuspended ((inv.settled thread).bare ?_) ?_ <;>
    rcases outside with location | location <;> simp [location, Location.Bare]

theorem Local.Suspending.of_location {thread : Local Thread}
    (same : changed.location = thread.location) (suspending : changed.Suspending) :
    thread.Suspending := by
  obtain ⟨disabled, point, location⟩ := suspending
  exact ⟨disabled, point, same ▸ location⟩

theorem Local.regionStep_outside {thread next : Local Thread}
    (ran : thread.regionStep suspend = some next) : ¬ next.Suspending := by
  rintro ⟨disabled, point, inside⟩
  unfold Local.regionStep at ran
  split at ran
  · cases ran; cases inside
  · split at ran <;> cases ran <;> cases inside
  · cases ran; cases inside
  · split at ran <;> cases ran <;> cases inside
  · cases ran; cases inside
  · cases ran

theorem Local.callStep_suspending {thread next : Local Thread}
    (ran : thread.callStep call = some next) (suspending : next.Suspending) :
    call = .suspendAllThreads ∧ (∃ disabled, next.location = .suspender disabled .acquire) ∨
      thread.Suspending ∧ ∃ disabled, next.location = .suspender disabled .reacquire := by
  unfold Local.callStep at ran
  split at ran
  case h_5 | h_6 => cases ran; exact .inl ⟨rfl, _, rfl⟩
  case h_7 location => cases ran; exact .inr ⟨⟨_, _, location⟩, _, rfl⟩
  case h_8 => cases ran
  all_goals
    cases ran
    obtain ⟨disabled, point, inside⟩ := suspending
    cases inside

theorem Invariant.mem_listed (inv : Invariant state)
    (active : (state.threads thread).location.Active) :
    thread ∈ state.listed := by
  rcases inv.enlisted thread with location | location | listed
  · simp [location, Location.Active] at active
  · simp [location, Location.Active] at active
  · exact listed

theorem Invariant.unsuspended_of_active (inv : Invariant state)
    (active : (state.threads thread).location.Active)
    (frames : (state.threads thread).frames = []) :
    (state.threads thread).suspendState ≠ .suspended := by
  refine (inv.coherent thread).unsuspended frames fun dead => ?_
  simp [dead, Location.Active] at active

theorem Invariant.setListed (inv : Invariant state)
    (covers : ∀ thread ∈ state.listed, thread ∈ listed ∨
      (state.threads thread).location = .detached)
    (allowed : (∀ thread ∈ listed, thread ∈ state.listed) ∨
      state.lock = none ∧ state.allThreadsSuspended = false) :
    Invariant { state with listed := listed } where
  __ := inv
  enlisted thread := by
    rcases inv.enlisted thread with unattached | detached | mem
    · exact .inl unattached
    · exact .inr (.inl detached)
    · exact .inr (covers thread mem).symm
  round self disabled point location := by
    have round := inv.round self disabled point location
    rcases allowed with fewer | ⟨free, running⟩
    · exact ⟨round.locked, round.announced,
        fun thread mem => round.signalled thread (fewer thread mem),
        fun thread mem => round.contained thread (fewer thread mem)⟩
    · have unsignalled (thread : Thread) : ¬ point.Signalled thread := by
        intro signalled
        rcases signalled.locked_or_stopped with locked | stopped
        · simp [round.locked locked] at free
        · simp [round.announced stopped] at running
      exact ⟨round.locked, round.announced,
        fun thread _ _ signalled => absurd signalled (unsignalled thread),
        fun thread _ _ passed => absurd passed.signalled (unsignalled thread)⟩

variable [DecidableEq Thread]

@[simp]
theorem setThread_self (state : State Thread) (thread : Thread) (changed : Local Thread) :
    (state.setThread thread changed).threads thread = changed := by
  simp [State.setThread]

theorem setThread_of_ne (ne : other ≠ thread) (state : State Thread) (changed : Local Thread) :
    (state.setThread thread changed).threads other = state.threads other := by
  simp [State.setThread, ne]

/-! A round is not disturbed by steps of other threads that keep containment,
and not by its own thread, whose local variables it does not mention. -/

theorem Round.setThread (round : Round state self point) (thread : Thread) (changed : Local Thread)
    (keeps : thread ≠ self → state.suspend thread = true →
      Contained (state.threads thread) → Contained changed) :
    Round (state.setThread thread changed) self point where
  __ := round
  contained other mem ne passed := by
    have pre := round.contained other mem ne passed
    obtain rfl | same := eq_or_ne other thread
    · rw [setThread_self]
      exact keeps ne (round.signalled other mem ne passed.signalled) pre
    · rwa [setThread_of_ne same]

theorem Round.setPending (round : Round state self point) (thread : Thread)
    (value : Bool) : Round (state.setPending thread value) self point where
  __ := round

theorem Round.setSuspend (round : Round state self point)
    (raises : value = true ∨ ¬ point.Signalled thread) :
    Round (state.setSuspend thread value) self point where
  __ := round
  signalled other mem ne signalled := by
    obtain rfl | same := eq_or_ne other thread
    · simpa [State.setSuspend] using raises.resolve_right (not_not.mpr signalled)
    · simpa [State.setSuspend, same] using round.signalled other mem ne signalled

section
variable {next : SuspenderPoint Thread} (round : Round state self point) (disabled : Bool)
  (locked : next.Locked → point.Locked) (running : next ≠ .stopped)
include round locked running

theorem Round.move (signalled : ∀ thread ∈ state.listed, thread ≠ self → next.Signalled thread →
      point.Signalled thread ∨ state.suspend thread = true)
    (contained : ∀ thread ∈ state.listed, thread ≠ self → next.Passed thread →
      point.Passed thread ∨ Contained (state.threads thread)) :
    Round (state.moveTo self disabled next) self next where
  locked held := round.locked (locked held)
  announced stopped := absurd stopped running
  signalled thread mem ne raised :=
    (signalled thread mem ne raised).elim (round.signalled thread mem ne) id
  contained thread mem ne passed := by
    rw [moveTo, setThread_of_ne ne]
    exact (contained thread mem ne passed).elim (round.contained thread mem ne) id

end

theorem Moves.of_round {changed : State Thread} {reached : SuspenderPoint Thread}
    (location : (state.threads owner).location = .suspender disabled point)
    (same : changed.threads = state.threads) (listed : changed.listed = state.listed)
    (keeps : ∀ thread, reached.Resuming thread ∨
      Kept (changed.suspend thread) (state.threads thread))
    (round : Round (changed.moveTo owner disabled reached) owner reached) :
    Moves state (changed.moveTo owner disabled reached) owner disabled where
  own := .inl ⟨reached, by simp [moveTo, same], round⟩
  others thread ne := .inl (by
    rw [moveTo, setThread_of_ne ne, same])
  listed := listed
  keeps thread := by
    refine (keeps thread).imp (fun resuming => ⟨owner, disabled, reached, by simp [moveTo],
      resuming⟩) fun kept => ?_
    obtain rfl | ne := eq_or_ne thread owner
    · intro suspended unset
      simp only [moveTo, setThread_self, same] at suspended unset ⊢
      exact kept suspended (by rw [location]; exact unset)
    · rw [moveTo, setThread_of_ne ne, same]
      exact kept

section
variable {next : SuspenderPoint Thread} {changed : State Thread} (round : Round changed self point)
  (located : (state.threads self).location = .suspender disabled point)
  (same : changed.threads = state.threads) (listed : changed.listed = state.listed)
  (locked : next.Locked → point.Locked) (running : next ≠ .stopped)
include round located same listed locked running

theorem Round.advances (kept : ∀ thread, Kept (changed.suspend thread) (state.threads thread))
    (signalled : ∀ thread ∈ changed.listed, thread ≠ self → next.Signalled thread →
      point.Signalled thread ∨ changed.suspend thread = true)
    (contained : ∀ thread ∈ changed.listed, thread ≠ self → next.Passed thread →
      point.Passed thread ∨ Contained (changed.threads thread)) :
    Moves state (changed.moveTo self disabled next) self disabled :=
  .of_round located same listed (fun thread => .inr (kept thread))
    (round.move disabled locked running signalled contained)

theorem Round.resumes (resuming : ∀ thread, ¬ next.Signalled thread)
    (keeps : ∀ thread, next.Resuming thread ∨
      Kept (changed.suspend thread) (state.threads thread)) :
    Moves state (changed.moveTo self disabled next) self disabled :=
  .of_round located same listed keeps (round.move disabled locked running
    (fun thread _ _ signalled => absurd signalled (resuming thread))
    (fun thread _ _ passed => absurd passed.signalled (resuming thread)))

end

theorem suspenderStep_moves (inv : Invariant state)
    (location : (state.threads self).location = .suspender disabled point)
    (ran : suspenderStep state self disabled point = some next) :
    Moves state next self disabled := by
  have round := inv.round self disabled point location
  have kept (thread : Thread) (held : ¬ point.Resuming thread) :
      Kept (state.suspend thread) (state.threads thread) := inv.kept location held
  cases point with
  | acquire =>
    obtain ⟨-, rfl⟩ := of_guard ran
    refine .of_round location rfl rfl (fun thread => .inr (kept thread id))
      ⟨fun _ => rfl, by simp, ?_, by simp [Passed]⟩
    exact fun thread mem _ remaining => absurd mem remaining
  | signal rest =>
    cases rest with
    | nil =>
      cases ran
      refine round.advances location rfl rfl id (by simp) (kept · id) ?_ ?_
      · exact fun thread _ _ _ => .inl not_mem_nil
      · exact fun thread mem _ remaining => absurd mem remaining
    | cons thread =>
      simp only [suspenderStep] at ran
      split at ran <;> cases ran
      · rename_i same
        refine round.advances location rfl rfl id (by simp) (kept · id) ?_
          (fun _ _ _ => False.elim)
        intro other _ ne remaining
        exact .inl (not_mem_cons_of_ne_of_not_mem (same ▸ ne) remaining)
      · refine (round.setSuspend (.inl rfl)).advances location rfl rfl id (by simp)
          (fun other suspended unset => ?_) ?_ (fun _ _ _ => False.elim)
        · obtain ⟨raised, staying⟩ := kept other id suspended unset
          obtain rfl | same := eq_or_ne other thread
          · exact ⟨Function.update_self .., staying⟩
          · exact ⟨(Function.update_of_ne same ..).trans raised, staying⟩
        intro other _ _ remaining
        by_cases same : other = thread
        · exact .inr (by simp [State.setSuspend, same])
        · exact .inl (not_mem_cons_of_ne_of_not_mem same remaining)
  | check =>
    simp only [suspenderStep] at ran
    split at ran <;> cases ran <;>
      exact round.advances location rfl rfl id (by simp) (kept · id) (fun _ _ _ => .inl)
        (fun _ _ _ => False.elim)
  | kill thread rest =>
    simp only [suspenderStep] at ran
    split at ran <;> cases ran
    · rename_i dead
      have ne : thread ≠ self := by
        rintro rfl
        simp [location] at dead
      have killed := round.setThread thread
        { state.threads thread with suspendState := .blocking } fun _ _ _ => .dead dead
      refine ⟨.inl ⟨.signal rest, ?_, killed.move disabled id (by simp) (fun _ _ _ => .inl)
        (fun _ _ _ => False.elim)⟩, fun other distinct => ?_, rfl, fun other => .inr ?_⟩
      · simp [moveTo, setThread_of_ne ne.symm]
      · rw [moveTo, setThread_of_ne distinct]
        obtain rfl | same := eq_or_ne other thread
        · exact .inr ⟨dead, setThread_self _ _ _⟩
        · exact .inl (setThread_of_ne same _ _)
      · obtain rfl | distinct := eq_or_ne other self
        · intro suspended unset
          simp only [moveTo, setThread_self, setThread_of_ne ne.symm] at suspended unset ⊢
          exact kept other id suspended (by rw [location]; exact unset)
        · rw [moveTo, setThread_of_ne distinct]
          obtain rfl | same := eq_or_ne other thread
          · rw [setThread_self]
            exact fun suspended => by cases suspended
          · rw [setThread_of_ne same]
            exact kept other id
    · exact (round.setPending thread true).advances location rfl rfl id (by simp) (kept · id)
        (fun _ _ _ => .inl) (fun _ _ _ => False.elim)
  | await rest =>
    cases rest with
    | nil =>
      cases ran
      exact round.advances location rfl rfl id (by simp) (kept · id) (fun _ _ _ => .inl)
        (fun _ _ _ _ => .inl not_mem_nil)
    | cons thread =>
      simp only [suspenderStep] at ran
      split at ran <;> cases ran
      · rename_i accepted
        refine round.advances location rfl rfl id (by simp) (kept · id) (fun _ _ _ => .inl) ?_
        intro other _ ne remaining
        obtain rfl | same := eq_or_ne other thread
        · have coherent := inv.coherent other
          rcases accepted with same | blocking | suspended
          · exact absurd same ne
          · exact .inr (.of_blocking coherent blocking)
          · exact .inr (.of_kept coherent (inv.settled other) suspended (kept other id))
        · exact .inl (not_mem_cons_of_ne_of_not_mem same remaining)
      · exact inv.stays location
  | release =>
    cases ran
    refine .of_round location rfl rfl (fun thread => .inr (kept thread id))
      ⟨False.elim, fun _ => rfl, round.signalled, ?_⟩
    intro thread mem ne passed
    rw [moveTo, setThread_of_ne ne]
    exact round.contained thread mem ne passed
  | stopped => cases ran
  | reacquire =>
    obtain ⟨-, rfl⟩ := of_guard ran
    exact .of_round location rfl rfl (fun _ => .inl trivial)
      ⟨fun _ => rfl, by simp, fun _ _ _ => False.elim, fun _ _ _ => False.elim⟩
  | clear rest =>
    cases rest with
    | nil =>
      cases ran
      refine round.resumes location rfl rfl id (by simp) (fun _ => id) fun thread => ?_
      by_cases mem : thread ∈ state.listed
      · exact .inl mem
      · refine .inr fun suspended => absurd suspended (inv.unsuspended ?_)
        simpa [mem] using inv.enlisted thread
    | cons =>
      simp only [suspenderStep] at ran
      split at ran <;> cases ran
      · exact round.resumes location rfl rfl id (by simp) (fun _ => id) fun _ => .inl trivial
      · exact (round.setSuspend (.inr not_false)).resumes location rfl rfl id (by simp)
          (fun _ => id) fun _ => .inl trivial
  | recheck =>
    simp only [suspenderStep] at ran
    split at ran <;> cases ran <;>
      exact round.resumes location rfl rfl id (by simp) (fun _ => id) fun _ => .inl trivial
  | rekill thread =>
    cases ran
    exact (round.setPending thread true).resumes location rfl rfl id (by simp) (fun _ => id)
      fun _ => .inl trivial
  | drain rest =>
    cases rest with
    | nil =>
      cases ran
      exact round.resumes location rfl rfl id (by simp) (fun _ => id)
        fun thread => .inr (kept thread not_mem_nil)
    | cons thread rest =>
      simp only [suspenderStep] at ran
      split at ran <;> cases ran
      · exact inv.stays location
      · rename_i released
        refine round.resumes location rfl rfl id (by simp) (fun _ => id) fun other => ?_
        by_cases remaining : other ∈ rest
        · exact .inl remaining
        · obtain rfl | same := eq_or_ne other thread
          · exact .inr fun suspended => absurd suspended released
          · exact .inr (kept other (not_mem_cons_of_ne_of_not_mem same remaining))
  | rerelease =>
    cases ran
    refine ⟨.inr (setThread_self _ _ _), fun thread ne => .inl (setThread_of_ne ne _ _), rfl,
      fun thread => .inr ?_⟩
    obtain rfl | ne := eq_or_ne thread self
    · rw [setThread_self]
      intro suspended unset
      refine kept thread id suspended ?_
      rw [location]
      cases disabled <;> exact unset
    · rw [setThread_of_ne ne]
      exact kept thread id

/-! ## Every step keeps the invariant -/

section
variable (inv : Invariant state)
include inv

theorem Invariant.of_moves (location : (state.threads owner).location = .suspender disabled point)
    (moves : Moves state next owner disabled) : Invariant next := by
  have alone (thread : Thread) (suspending : (next.threads thread).Suspending) :
      thread = owner := by
    by_contra ne
    have same : (next.threads thread).location = (state.threads thread).location := by
      rcases moves.others thread ne with same | ⟨-, changed⟩
      · rw [same]
      · rw [changed]
    exact ne (inv.single thread owner (suspending.of_location same) ⟨disabled, point, location⟩)
  have alive : (state.threads owner).location ≠ .dead := by simp [location]
  have others (thread : Thread) (ne : thread ≠ owner) :
      Coherent (next.threads thread) ∧ Settled (next.threads thread) := by
    rcases moves.others thread ne with same | ⟨dead, changed⟩
    · rw [same]
      exact ⟨inv.coherent thread, inv.settled thread⟩
    · have settled := inv.settled thread
      rw [changed]
      exact ⟨.dead (settled.bare (dead ▸ trivial)) dead, settled.masked, settled.bare⟩
  have own : Coherent (next.threads owner) ∧ Settled (next.threads owner) := by
    have coherent := inv.coherent owner
    have masked := (inv.settled owner).masked
    rw [location] at masked
    rcases moves.own with ⟨reached, same, -⟩ | same
    · rw [same]
      exact ⟨coherent.relocate alive (by rw [location]; rfl) (by simp [location]), masked,
        False.elim⟩
    · rw [same]
      cases disabled with
      | true => exact ⟨coherent.relocate alive (by rw [location]; rfl)
          (by simp [location]), fun _ => masked rfl, False.elim⟩
      | false => exact ⟨coherent.relocate alive (by rw [location]; rfl)
          (by simp [location]), False.elim, False.elim⟩
  refine ⟨fun thread => ?_, fun thread => ?_, fun thread => ?_, moves.keeps,
    fun first second => ?_, fun self => ?_⟩
  · by_cases same : thread = owner
    · exact same ▸ own.1
    · exact (others thread same).1
  · by_cases same : thread = owner
    · exact same ▸ own.2
    · exact (others thread same).2
  · rw [moves.listed]
    have enlisted := inv.enlisted thread
    by_cases isOwner : thread = owner
    · exact .inr (.inr (by simpa [isOwner, location] using enlisted))
    · rcases moves.others thread isOwner with same | ⟨dead, -⟩
      · rwa [same]
      · exact .inr (.inr (by simpa [dead] using enlisted))
  · intro firstSuspending secondSuspending
    rw [alone first firstSuspending, alone second secondSuspending]
  · intro disabled' point' location'
    obtain rfl := alone self ⟨disabled', point', location'⟩
    rcases moves.own with ⟨reached, same, round⟩ | same
    · simp [same] at location'
      exact location'.2 ▸ round
    · cases disabled <;> simp [same] at location'

theorem Invariant.setThread (coherent : Coherent changed) (settled : Settled changed)
    (listed : thread ∈ state.listed)
    (kept : Kept (state.suspend thread) (state.threads thread) →
      Kept (state.suspend thread) changed)
    (stays : changed.location = (state.threads thread).location ∨ ∀ disabled point other,
      (state.threads thread).location = .suspender disabled point → ¬ point.Resuming other)
    (enters : changed.Suspending → (state.threads thread).Suspending ∨
      ∀ other, ¬ (state.threads other).Suspending)
    (round : ∀ disabled point, changed.location = .suspender disabled point →
      Round (state.setThread thread changed) thread point)
    (keeps : ∀ other, (state.threads other).Suspending → other ≠ thread →
      state.suspend thread = true → Contained (state.threads thread) → Contained changed) :
    Invariant (state.setThread thread changed) := by
  have suspending (other : Thread) (ne : other ≠ thread)
      (inside : ((state.setThread thread changed).threads other).Suspending) :
      (state.threads other).Suspending := by
    rwa [setThread_of_ne ne] at inside
  have excludes (other : Thread) (ne : other ≠ thread) (entered : changed.Suspending)
      (inside : (state.threads other).Suspending) : False := by
    rcases enters entered with already | free
    · exact ne (inv.single other thread inside already)
    · exact free other inside
  refine ⟨fun other => ?_, fun other => ?_, fun other => ?_, fun other => ?_,
    fun first second => ?_, fun self => ?_⟩
  · by_cases same : other = thread
    · rw [same, setThread_self]
      exact coherent
    · rw [setThread_of_ne same]
      exact inv.coherent other
  · by_cases same : other = thread
    · rw [same, setThread_self]
      exact settled
    · rw [setThread_of_ne same]
      exact inv.settled other
  · by_cases same : other = thread
    · exact .inr (.inr (same ▸ listed))
    · rw [setThread_of_ne same]
      exact inv.enlisted other
  · refine (inv.keeps other).imp ?_ fun held => ?_
    · rintro ⟨self, disabled, point, location, resuming⟩
      refine ⟨self, disabled, point, ?_, resuming⟩
      obtain rfl | same := eq_or_ne self thread
      · rw [setThread_self]
        exact (stays.resolve_right fun none => none _ _ _ location resuming).trans location
      · rwa [setThread_of_ne same]
    · obtain rfl | same := eq_or_ne other thread
      · rw [setThread_self]
        exact kept held
      · rw [setThread_of_ne same]
        exact held
  · intro firstInside secondInside
    by_cases firstSame : first = thread
    · by_cases secondSame : second = thread
      · rw [firstSame, secondSame]
      · rw [firstSame, setThread_self] at firstInside
        exact (excludes second secondSame firstInside
          (suspending second secondSame secondInside)).elim
    · by_cases secondSame : second = thread
      · rw [secondSame, setThread_self] at secondInside
        exact (excludes first firstSame secondInside (suspending first firstSame firstInside)).elim
      · exact inv.single first second (suspending first firstSame firstInside)
          (suspending second secondSame secondInside)
  · intro disabled point location
    obtain rfl | same := eq_or_ne self thread
    · rw [setThread_self] at location
      exact round disabled point location
    · rw [setThread_of_ne same] at location
      exact (inv.round self disabled point location).setThread thread changed
        fun _ => keeps self ⟨disabled, point, location⟩ same

theorem Invariant.setPending
    (thread : Thread) (value : Bool) : Invariant (state.setPending thread value) where
  __ := inv
  round self disabled point location :=
    (inv.round self disabled point location).setPending thread value

theorem Invariant.setThread_outside (coherent : Coherent changed) (settled : Settled changed)
    (listed : thread ∈ state.listed)
    (kept : Kept (state.suspend thread) (state.threads thread) →
      Kept (state.suspend thread) changed)
    (location : changed.location = (state.threads thread).location ∨
      ¬ changed.Suspending ∧ ¬ (state.threads thread).Suspending)
    (keeps : state.suspend thread = true → Contained (state.threads thread) → Contained changed) :
    Invariant (state.setThread thread changed) := by
  refine inv.setThread coherent settled listed kept
    (location.imp_right fun outside _ _ _ inside => absurd ⟨_, _, inside⟩ outside.2) ?_ ?_
    fun _ _ _ => keeps
  · intro inside
    exact .inl (inside.of_location (location.resolve_right fun outside => outside.1 inside))
  · intro disabled point at_
    have same := location.resolve_right fun outside => outside.1 ⟨disabled, point, at_⟩
    exact (inv.round thread disabled point (same ▸ at_)).setThread thread changed
      fun ne => absurd rfl ne

theorem Invariant.proceed (orderly : Orderly state (.proceed thread))
    (ran : Suspend.proceed state thread = some next) : Invariant next := by
  have coherent := inv.coherent thread
  have settled := inv.settled thread
  unfold Suspend.proceed at ran
  split at ran
  · rename_i top rest frames
    obtain ⟨changed, step, rfl⟩ := Option.map_eq_some_iff.mp ran
    have active : (state.threads thread).location.Active := by
      have bare := settled.bare
      cases location : (state.threads thread).location <;>
        simp_all [Location.Active, Location.Bare]
    refine inv.setThread_outside (coherent.loopStep frames step) (settled.loopStep frames step)
      (inv.mem_listed active) (fun kept => ?_) ?_ ?_
    · refine kept.loopStep coherent frames (fun last publish => ?_) step
      obtain ⟨point, oldState, handler⟩ := top
      subst last
      obtain rfl : point = .publish := publish
      simpa only [Orderly, frames] using orderly
    · refine (coherent.loopStep_location frames step).imp_right fun left => ⟨?_, ?_⟩
      · rintro ⟨disabled, point, inside⟩
        simp [left.2.2.2] at inside
      · rintro ⟨disabled, point, inside⟩
        simp [inside] at left
    · intro raised contained
      rw [raised] at step
      exact contained.loopStep coherent frames step
  · rename_i frames
    split at ran
    · rename_i disabled point location
      exact inv.of_moves location (suspenderStep_moves inv location ran)
    · rename_i outside
      obtain ⟨changed, step, rfl⟩ := Option.map_eq_some_iff.mp ran
      have active : (state.threads thread).location.Active := by
        cases location : (state.threads thread).location <;>
          simp_all [Location.Active, Local.regionStep]
      refine inv.setThread_outside (coherent.regionStep frames step) (settled.regionStep step)
        (inv.mem_listed active)
        (fun _ => .regionStep (inv.unsuspended_of_active active frames) step)
        (.inr ⟨regionStep_outside step, ?_⟩) ?_
      · rintro ⟨_, _, inside⟩
        exact outside _ _ inside
      · intro raised contained
        rw [raised] at step
        exact contained.regionStep frames step

end

theorem Invariant.call {call : Call} (inv : Invariant state)
    (orderly : Orderly state (.call thread call))
    (frames : (state.threads thread).frames = [])
    (ran : (state.threads thread).callStep call = some changed) :
    Invariant (state.setThread thread changed) := by
  have coherent := (inv.coherent thread).callStep frames ran
  have settled := (inv.settled thread).callStep frames ran
  have active : (state.threads thread).location.Active := by
    cases location : (state.threads thread).location <;>
      simp_all [Location.Active, Local.callStep]
  refine inv.setThread coherent settled (inv.mem_listed active)
    (fun _ => .callStep (inv.unsuspended_of_active active frames) ran) (.inr ?_) ?_ ?_ ?_
  · intro disabled point other location
    unfold Local.callStep at ran
    cases call <;> cases point <;> simp [location, SuspenderPoint.Resuming] at ran ⊢
  · intro inside
    rcases callStep_suspending ran inside with ⟨rfl, -⟩ | ⟨already, -⟩
    · exact .inr orderly
    · exact .inl already
  · intro disabled point location
    rcases callStep_suspending ran ⟨disabled, point, location⟩ with
      ⟨-, _, acquire⟩ | ⟨-, _, reacquire⟩
    · obtain ⟨rfl, rfl⟩ : _ ∧ _ := by simpa [location] using acquire
      exact ⟨False.elim, by simp, fun _ _ _ => False.elim, fun _ _ _ => False.elim⟩
    · obtain ⟨rfl, rfl⟩ : _ ∧ _ := by simpa [location] using reacquire
      exact ⟨False.elim, by simp, fun _ _ _ => False.elim, fun _ _ _ => False.elim⟩
  · intro other otherInside ne _ contained
    refine contained.callStep frames (fun disabled point location => ?_) ran
    rcases callStep_suspending ran ⟨disabled, point, location⟩ with
      ⟨rfl, -⟩ | ⟨already, -⟩
    · exact orderly other otherInside
    · exact ne (inv.single other thread otherInside already)

theorem Invariant.step (inv : Invariant state) (orderly : Orderly state action)
    (ran : Suspend.step state action = some next) : Invariant next := by
  cases action with
  | run =>
    obtain ⟨-, rfl⟩ := of_guard ran
    exact inv
  | call =>
    simp only [Suspend.step] at ran
    split at ran
    · rename_i frames
      obtain ⟨changed, step, rfl⟩ := Option.map_eq_some_iff.mp ran
      exact inv.call orderly frames step
    · cases ran
  | proceed => exact inv.proceed orderly ran
  | deliver thread =>
    obtain ⟨⟨_, ready⟩, rfl⟩ := of_guard ran
    have settled := inv.settled thread
    have active : (state.threads thread).location.Active := by
      cases location : (state.threads thread).location <;>
        simp_all [Location.Active, Local.deliverable]
    exact (inv.setPending thread false).setThread_outside
      ((inv.coherent thread).deliverStep settled ready) (settled.deliverStep ready orderly)
      (inv.mem_listed active) Kept.deliverStep (.inl rfl)
      fun _ contained => contained.deliverStep
  | kill thread =>
    cases ran
    exact inv.setPending thread true
  | attach thread =>
    obtain ⟨⟨location, frames, free, running⟩, rfl⟩ := of_guard ran
    have coherent := inv.coherent thread
    have declared := (coherent.of_frames_nil frames (by simp [location])).2
    have covers (other : Thread) (mem : other ∈ state.listed) :
        other ∈ state.listed.take 1 ++ thread :: state.listed.drop 1 := by
      rw [← take_append_drop 1 state.listed, mem_append] at mem
      simp only [mem_append, mem_cons]
      tauto
    refine (inv.setListed (fun other mem => .inl (covers other mem))
      (.inr ⟨free, running⟩)).setThread_outside
      (.plain frames (by simp) (declared.trans (by rw [location]; rfl)))
      ⟨False.elim, False.elim⟩ (by simp)
      (fun _ suspended => absurd suspended (inv.unsuspended (.inl location)))
      (.inr ⟨by simp [Local.Suspending], by simp [Local.Suspending, location]⟩) ?_
    intro _ contained
    simpa [location, Location.declared] using contained.of_frames_nil frames
  | detach thread =>
    obtain ⟨⟨location, frames, -⟩, rfl⟩ := of_guard ran
    have coherent := inv.coherent thread
    have declared := (coherent.of_frames_nil frames (by simp [location])).2
    have detached : Invariant (state.setThread thread { state.threads thread with
        location := .detached }) := inv.setThread_outside
      (.plain frames (by simp) (declared.trans (by rw [location]; rfl)))
      ⟨False.elim, fun _ => frames⟩ (inv.mem_listed (location ▸ trivial))
      (fun _ suspended => absurd suspended (coherent.unsuspended frames (by simp [location])))
      (.inr ⟨by simp [Local.Suspending], by simp [Local.Suspending, location]⟩)
      fun _ _ => .disabled rfl
    refine detached.setListed (fun other mem => ?_) (.inl fun _ => mem_of_mem_erase)
    obtain rfl | same := eq_or_ne other thread
    · exact .inr (by rw [setThread_self])
    · exact .inl ((mem_erase_of_ne same).mpr mem)
  | exit thread =>
    obtain ⟨running, rfl⟩ := of_guard ran
    have active : (state.threads thread).location.Active ∧
        ¬ (state.threads thread).Suspending := by
      obtain ⟨-, location | location | location⟩ := running <;>
        simp [location, Location.Active, Local.Suspending]
    exact inv.setThread_outside (.dead running.1 rfl) ⟨False.elim, fun _ => running.1⟩
      (inv.mem_listed active.1)
      (fun _ suspended => absurd suspended (inv.unsuspended_of_active active.1 running.1))
      (.inr ⟨by simp [Local.Suspending], active.2⟩) fun _ _ => .dead rfl

theorem Invariant.initialState (main : Thread) : Invariant (Suspend.initialState main) := by
  have outside (thread : Thread) :
      ((Suspend.initialState main).threads thread).location = .mutator ∨
        ((Suspend.initialState main).threads thread).location = .unattached := by
    by_cases same : thread = main
    · exact .inl (if_pos same)
    · exact .inr (if_neg same)
  refine ⟨fun thread => ?_, fun thread => ?_, fun thread => ?_, fun _ => .inr (by rintro ⟨⟩),
    ?_, ?_⟩
  · refine .plain rfl ?_ ?_
    · rcases outside thread with location | location <;> simp [location]
    · rcases outside thread with location | location <;> rw [location] <;> rfl
  · refine ⟨?_, fun _ => rfl⟩
    rcases outside thread with location | location <;> rw [location] <;> exact False.elim
  · by_cases same : thread = main
    · exact .inr (.inr (by simp [Suspend.initialState, same]))
    · exact .inl (if_neg same)
  · rintro first second ⟨_, _, inside⟩
    rcases outside first with location | location <;> simp [location] at inside
  · intro self _ _ inside
    rcases outside self with location | location <;> simp [location] at inside

/-- Between the return of `suspendAllThreads` and the matching
`resumeAllThreads`, no other listed thread is in a critical region or runs
outside a region with suspension disabled. -/
theorem suspendAllThreads_stops_world {main : Thread} {state : State Thread}
    (reachable : (system main).ReachableWhile Orderly state)
    {self : Thread} {disabled : Bool}
    (stopped : (state.threads self).location = .suspender disabled .stopped)
    {thread : Thread} (listed : thread ∈ state.listed) (other : thread ≠ self) :
    (state.threads thread).location ≠ .critical ∧
      ((state.threads thread).Running → (state.threads thread).location = .blocking) := by
  have inv : Invariant state := by
    refine reachable.invariant Invariant ?_ fun _ _ _ holds orderly => holds.step orderly
    rintro _ rfl
    exact .initialState main
  have round := inv.round self disabled .stopped stopped
  exact (round.contained thread listed other trivial).stopped (inv.coherent thread)

instance [Fintype Thread] (state : State Thread) (action : Action Thread) :
    Decidable (Orderly state action) :=
  match action with
  | .call _ .suspendAllThreads => Fintype.decidableForallFintype
  | .call _ .disableSuspend | .call _ .enableSuspend | .call _ .fastDisableSuspend
  | .call _ .fastEnableSuspend | .call _ .resumeAllThreads | .run _ | .kill _
  | .attach _ | .detach _ | .exit _ => isTrue trivial
  | .deliver thread => inferInstanceAs (Decidable (_ → _ ≠ _))
  | .proceed thread => by
      unfold Orderly
      dsimp only
      split <;> infer_instance

end

/-! Two threads and one suspension. The signal finds the second thread in
mutator code in the first run, and in a critical region in the second. -/

local instance (priority := 2000) neZero_two : NeZero 2 := ⟨by decide⟩

def raiseSignal : List (Action (Fin 2)) :=
  [.attach 1, .call 0 .disableSuspend, .proceed 0, .call 0 .suspendAllThreads] ++
    replicate 6 (.proceed 0)

def acceptSignal : List (Action (Fin 2)) :=
  [.deliver 1, .proceed 1, .proceed 1] ++ replicate 4 (.proceed 0)

theorem suspendAllThreads_stops_world_mutator : ∃ state : State (Fin 2), state.suspend 1 = true ∧
      (state.threads 0).location = .suspender true .stopped ∧
      (state.threads 1).location ≠ .critical ∧
        ((state.threads 1).Running → (state.threads 1).location = .blocking) := by
  have executed : ∃ state, (system 0).runWhile Orderly (initialState 0)
      (raiseSignal ++ acceptSignal) = some state ∧ state.suspend 1 = true ∧
        (state.threads 0).location = .suspender true .stopped ∧ state.listed = [0, 1] :=
    ⟨_, rfl, rfl, rfl, rfl⟩
  obtain ⟨state, executed, raised, stopped, listed⟩ := executed
  exact ⟨state, raised, stopped, suspendAllThreads_stops_world
    (.of_runWhile (.initial rfl) executed) stopped (by simp [listed]) (by decide)⟩

/-- The handler reports a thread in its critical region as suspended and then
lets it go on. -/
theorem suspendAllThreads_ignores_critical_region : ∃ state, (system (0 : Fin 2)).Reachable state ∧
      (state.threads 0).location = .suspender true .stopped ∧ 1 ∈ state.listed ∧
        (state.threads 1).location = .critical ∧ (state.threads 1).Running := by
  have executed : ∃ state, (system 0).run (initialState 0)
      (raiseSignal ++ .call 1 .fastDisableSuspend :: acceptSignal ++
        [.proceed 1, .proceed 1]) = some state ∧
        (state.threads 0).location = .suspender true .stopped ∧ state.listed = [0, 1] ∧
        (state.threads 1).location = .critical ∧ (state.threads 1).frames = [] :=
    ⟨_, rfl, rfl, rfl, rfl, rfl⟩
  obtain ⟨state, executed, stopped, listed, critical, frames⟩ := executed
  exact ⟨state, .of_run (.initial rfl) executed, stopped, by simp [listed], critical,
    frames, .inr (.inr critical)⟩

end JamVM.Thread.Suspend
