import Mathlib.Data.Fintype.Basic
import JamVM.Lock.InterruptInvariant

/-! # No interrupt of a wait is lost

`monitorWait` reads `interrupted` before it publishes `wait_mon`. An interrupt
that looks at the thread in between finds nothing to signal. If no interrupt
falls into that window, a thread whose wait has been interrupted leaves it by
its own steps.
-/

namespace JamVM.Lock.Interrupt

open TransitionSystem

section
variable {Thread : Type u} {Monitor : Type v} [DecidableEq Thread] [DecidableEq Monitor]
  {state : State Thread Monitor}

def WaitPoint.remaining : WaitPoint → Nat
  | .reacquire => 5
  | .test => 4
  | .leave => 3
  | .unpublish => 2
  | .reown => 1
  | _ => 0

attribute [local simp] WaitPoint.remaining

variable {thread : Thread} {wait : Wait Monitor} {point : WaitPoint} {next : State Thread Monitor}

omit [DecidableEq Thread] [DecidableEq Monitor] in
theorem Escaping.points (escaping : Escaping state thread wait point) :
    point = .reacquire ∨ point = .test ∨ point = .leave ∨ point = .unpublish ∨
      point = .reown ∨ point = .finish := by
  have past := escaping.past
  have awake := escaping.awake
  cases point <;> simp [WaitPoint.InWindow, WaitPoint.Sleepy] at past awake ⊢

theorem waitStep_isSome (escaping : Escaping state thread wait point)
    (mutex : point = .reacquire → state.mutex wait.monitor = none) :
    (waitStep state thread wait point).isSome = true := by
  have points := escaping.points
  cases point <;> simp [waitStep] at points ⊢
  case test | leave | finish => split <;> rfl
  case reacquire => simp [mutex rfl]

theorem waitStep_remaining (escaping : Escaping state thread wait point)
    (location : state.location thread = .waiting wait point)
    (ran : waitStep state thread wait point = some next) :
    point = .finish ∨ ∃ changed post, next.location thread = .waiting changed post ∧
      post.remaining < point.remaining := by
  have points := escaping.points
  have leaves := escaping.leaves
  have linked := linked_iff location
  cases point <;> simp [waitStep] at points ran ⊢
  case test =>
    split at ran
    · rename_i sleeps
      rcases leaves (.inl rfl) with raised | outside
      · simp [raised] at sleeps
      · exact absurd (linked.mp sleeps.1) outside
    · cases ran
      exact ⟨wait, .leave, by simp, by simp⟩
  case reacquire =>
    obtain ⟨-, rfl⟩ := ran
    exact ⟨wait, .test, by simp, by simp⟩
  case leave =>
    split at ran <;> cases ran <;>
      exact ⟨_, .unpublish, moveTo_location_self .., by simp⟩
  case unpublish =>
    cases ran
    exact ⟨wait, .reown, by simp, by simp⟩
  case reown =>
    cases ran
    exact ⟨wait, .finish, by simp, by simp⟩

omit [DecidableEq Monitor] in
theorem complete_keeps_struck (self target : Thread) (struck : state.struck thread = true) :
    (complete state self target).struck thread = true := by
  unfold complete
  dsimp only
  split
  · rw [Function.update_apply]
    split
    · rfl
    · exact struck
  · exact struck

theorem interruptStep_keeps_struck
    (point : InterruptPoint Monitor) (struck : state.struck thread = true) :
    (interruptStep state self target point).struck thread = true := by
  obtain ⟨reached, post, move, ran⟩ := interruptStep_move state self target point
  rw [ran]
  cases post with
  | none => exact complete_keeps_struck self target (move.struck ▸ struck)
  | some => exact move.struck ▸ struck

theorem step_keeps_struck (struck : state.struck thread = true)
    (waiting : (state.location thread).isWaiting = true)
    (ran : step state action = some next) : next.struck thread = true := by
  cases action with
  | wait self =>
    obtain ⟨enabled, rfl⟩ := of_guard ran
    have ne : thread ≠ self := by
      rintro rfl
      simp [enabled.1, Location.isWaiting] at waiting
    simpa [State.moveTo, ne] using struck
  | proceed =>
    simp only [step, proceed] at ran
    split at ran
    · cases ran
    · split at ran <;> cases ran
      exact struck
    · cases ran
      exact struck
    · cases ran
      exact struck
    · exact waitStep_struck ran ▸ struck
    · cases ran
      exact interruptStep_keeps_struck _ struck
  | notifyAll =>
    obtain ⟨-, rfl⟩ := of_guard ran
    rwa [(signalAll_kept ..).struck]
  | notify =>
    obtain ⟨-, rfl⟩ := of_guard ran
    rwa [(waitSetSignalNext_kept ..).struck]
  | expire =>
    simp only [step] at ran
    split at ran
    · split at ran <;> cases ran
      exact struck
    · cases ran
  | wake =>
    cases ran
    rwa [(condSignal_kept ..).struck]
  | _ =>
    obtain ⟨-, rfl⟩ := of_guard ran
    exact struck

theorem waitStep_finish (interrupted : state.interrupted thread = true)
    (ran : waitStep state thread wait .finish = some next) :
    next.location thread = .idle ∧ (wait.interrupted = true ∨ next.interrupted thread = true) := by
  simp only [waitStep] at ran
  split at ran <;> cases ran
  · exact ⟨by simp, .inl (by assumption)⟩
  · exact ⟨by simp, .inr interrupted⟩

structure Interrupted (state : State Thread Monitor) (thread : Thread) : Prop where
  invariant : Invariant state
  struck : state.struck thread = true
  waiting : (state.location thread).isWaiting = true

omit [DecidableEq Thread] [DecidableEq Monitor] in
theorem Interrupted.escaping (interrupted : Interrupted state thread) :
    ∃ wait point, state.location thread = .waiting wait point ∧
      Escaping state thread wait point := by
  have waiting := interrupted.waiting
  cases location : state.location thread with
  | waiting wait point =>
    exact ⟨wait, point, rfl,
      interrupted.invariant.interrupts.struck thread interrupted.struck wait point location⟩
  | _ => simp [location, Location.isWaiting] at waiting

def Location.remaining : Location Thread Monitor → Nat
  | .waiting _ point => point.remaining
  | _ => 0

theorem Interrupted.step (interrupted : Interrupted state thread)
    (separate : Separate state action) (ran : step state action = some next) :
    (∃ wait, action = .proceed thread ∧ state.location thread = .waiting wait .finish ∧
      next.location thread = .idle ∧
      (wait.interrupted = true ∨ next.interrupted thread = true)) ∨
    Interrupted next thread ∧ (next.location thread).remaining ≤ (state.location thread).remaining ∧
      (action = .proceed thread →
        (next.location thread).remaining < (state.location thread).remaining) := by
  have invariant := interrupted.invariant.step separate ran
  have struck := step_keeps_struck interrupted.struck interrupted.waiting ran
  obtain ⟨wait, point, location, escaping⟩ := interrupted.escaping
  by_cases acts : action.actor = some thread
  · obtain rfl : action = .proceed thread := by
      cases action <;> simp [Action.actor] at acts <;> subst acts <;>
        simp [Interrupt.step, location] at ran
      rfl
    rw [Interrupt.step, proceed, location] at ran
    rcases waitStep_remaining escaping location ran with rfl | ⟨changed, post, moved, less⟩
    · exact .inl ⟨wait, rfl, location, waitStep_finish escaping.interrupted ran⟩
    · refine .inr ⟨⟨invariant, struck, by rw [moved]; rfl⟩, ?_, fun _ => ?_⟩
      · rw [moved, location]
        exact less.le
      · rw [moved, location]
        exact less
  · have undisturbed := step_undisturbed interrupted.invariant.locks ran acts
    have woken := undisturbed.woken
    have same : next.location thread = state.location thread := by
      rw [location] at woken ⊢
      generalize next.location thread = post at woken
      cases woken with
      | same => rfl
      | woken => exact absurd (.inr rfl) escaping.awake
    refine .inr ⟨⟨invariant, struck, same ▸ interrupted.waiting⟩, same ▸ le_rfl, ?_⟩
    rintro rfl
    exact absurd rfl acts

/-- A thread whose wait has been interrupted is not asleep and needs only the
monitor's mutex to go on. In every run that gives it six steps it comes to the
end of `monitorWait`, where it throws or returns with `interrupted` set. -/
theorem threadInterrupt_not_lost {thread : Thread} {wait : Wait Monitor} {point : WaitPoint}
    (reachable : (system Thread Monitor).ReachableWhile Separate state)
    (waiting : state.location thread = .waiting wait point)
    (struck : state.struck thread = true) :
    point ≠ .asleep ∧
    ((point = .reacquire → state.mutex wait.monitor = none) →
      (step state (.proceed thread)).isSome = true) ∧
    ∀ actions final, (system Thread Monitor).RunsWhile Separate state actions final →
      6 ≤ actions.count (.proceed thread) →
      ∃ pre post last res next, actions = pre ++ .proceed thread :: post ∧
        (system Thread Monitor).RunsWhile Separate state pre last ∧
        last.location thread = .waiting res .finish ∧
        step last (.proceed thread) = some next ∧ next.location thread = .idle ∧
        (res.interrupted = true ∨ next.interrupted thread = true) := by
  have interrupted : Interrupted state thread :=
    ⟨.of_reachable reachable, struck, by rw [waiting]; rfl⟩
  have escaping := interrupted.invariant.interrupts.struck thread struck wait point waiting
  refine ⟨?_, ?_, ?_⟩
  · rintro rfl
    exact escaping.awake (.inr rfl)
  · intro mutex
    rw [step, proceed, waiting]
    exact waitStep_isSome escaping mutex
  · intro actions final path often
    have few : (state.location thread).remaining <
        actions.countP fun action => decide (action = .proceed thread) := by
      have bound : point.remaining ≤ 5 := by cases point <;> decide
      rw [waiting]
      exact Nat.lt_of_le_of_lt bound often
    have descends : ∀ (current : State Thread Monitor) action next,
        Interrupted current thread → Separate current action →
        step current action = some next → Interrupted next thread →
          (next.location thread).remaining ≤ (current.location thread).remaining ∧
          (decide (action = .proceed thread) = true →
            (next.location thread).remaining < (current.location thread).remaining) := by
      intro current action next pending separate ran remains
      rcases pending.step separate ran with ⟨_, -, -, idle, -⟩ | ⟨-, bounded⟩
      · have waits := remains.waiting
        simp [idle, Location.isWaiting] at waits
      · simpa using bounded
    obtain ⟨pre, action, post, last, next, parts, reached, pending, separate, ran, left⟩ :=
      path.leaves (Interrupted · thread) (fun state => (state.location thread).remaining)
        (fun action => decide (action = .proceed thread)) descends interrupted few
    rcases pending.step separate ran with ⟨res, rfl, location, outcome⟩ | ⟨stays, -⟩
    · exact ⟨pre, post, last, res, next, parts, reached, location, ran, outcome⟩
    · exact absurd stays left

/-- The owner of a monitor has its mutex, and `wait_mon` and the wait sets follow the waits. -/
theorem monitors_consistent (reachable : (system Thread Monitor).ReachableWhile Separate state) :
    Locks state ∧ WaitSets state := by
  obtain ⟨locks, sets, -⟩ := Invariant.of_reachable reachable
  exact ⟨locks, sets⟩

instance [Fintype Thread] (state : State Thread Monitor) (action : Action Thread Monitor) :
    Decidable (Separate state action) :=
  match action with
  | .wait self _ _ _ =>
    inferInstanceAs (Decidable (∀ thread, (state.location thread).marked ≠ some self))
  | .proceed self => by
      unfold Separate
      dsimp only
      split <;> infer_instance
  | .lock _ _ | .unlock _ _ | .notify _ _ | .notifyAll _ _ | .interrupt _ _ | .clear _
  | .expire _ | .wake _ => isTrue trivial

local instance (priority := 2000) neZero_two : NeZero 2 := ⟨by decide⟩

def beginWait : List (Action (Fin 2) Unit) :=
  [.lock 0 (), .proceed 0, .proceed 0, .wait 0 () false true]

def interruptSleep : List (Action (Fin 2) Unit) :=
  beginWait ++ List.replicate 6 (.proceed 0) ++ .interrupt 1 0 :: List.replicate 7 (.proceed 1)

theorem threadInterrupt_not_lost_asleep :
    ∃ state : State (Fin 2) Unit, ∃ wait, state.location 0 = .waiting wait .reacquire ∧
      state.struck 0 = true ∧ WaitPoint.reacquire ≠ .asleep ∧
        (step state (.proceed 0)).isSome = true := by
  have executed : ∃ state wait, (system (Fin 2) Unit).runWhile Separate initialState
      interruptSleep = some state ∧
      state.location 0 = .waiting wait .reacquire ∧ state.struck 0 = true ∧
      state.mutex () = none :=
    ⟨_, _, rfl, rfl, rfl, rfl⟩
  obtain ⟨state, wait, executed, location, struck, free⟩ := executed
  have notLost := threadInterrupt_not_lost (.of_runWhile (.initial rfl) executed) location struck
  exact ⟨state, wait, location, struck, notLost.1, notLost.2.1 fun _ => free⟩

/-- While thread 0 leaves its wait, thread 1 calls `notifyAll`. -/
theorem monitors_consistent_interrupted : ∃ state : State (Fin 2) Unit,
    state.waitMonitor 0 = some () ∧ state.waitSet () = [] ∧ state.owner () = some 1 ∧
      state.mutex () = some 1 ∧ Locks state ∧ WaitSets state := by
  have executed : ∃ state, (system (Fin 2) Unit).runWhile Separate initialState
      (interruptSleep ++ [.lock 1 (), .proceed 1, .proceed 1, .notifyAll 1 ()]) = some state ∧
      state.waitMonitor 0 = some () ∧ state.waitSet () = [] ∧ state.owner () = some 1 ∧
      state.mutex () = some 1 :=
    ⟨_, rfl, rfl, rfl, rfl, rfl⟩
  obtain ⟨state, executed, waits, empty, owner, mutex⟩ := executed
  exact ⟨state, waits, empty, owner, mutex,
    monitors_consistent (.of_runWhile (.initial rfl) executed)⟩

/-- Thread 1 looks at thread 0 after it has read `interrupted` and before it has
set `wait_mon`. Thread 0 then goes to sleep and nothing is left to wake it. -/
theorem threadInterrupt_lost :
    ∃ state : State (Fin 2) Unit, ∃ wait, (system (Fin 2) Unit).Reachable state ∧
      state.struck 0 = true ∧ state.location 0 = .waiting wait .asleep ∧
      wait.timed = false ∧ state.interrupted 0 = true ∧ state.interrupting 0 = false ∧
      state.location 1 = .idle := by
  have executed : ∃ state wait, (system (Fin 2) Unit).run initialState
      (beginWait ++ .interrupt 1 0 :: List.replicate 2 (.proceed 1) ++
        List.replicate 6 (.proceed 0)) = some state ∧
      state.struck 0 = true ∧ state.location 0 = .waiting wait .asleep ∧
      wait.timed = false ∧ state.interrupted 0 = true ∧ state.interrupting 0 = false ∧
      state.location 1 = .idle :=
    ⟨_, _, rfl, rfl, rfl, rfl, rfl, rfl, rfl⟩
  obtain ⟨state, wait, executed, facts⟩ := executed
  exact ⟨state, wait, .of_run (.initial rfl) executed, facts⟩

end

end JamVM.Lock.Interrupt
