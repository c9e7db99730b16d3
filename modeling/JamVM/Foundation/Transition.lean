import Mathlib.Logic.Function.Basic

/-! # Labelled transition systems

Concurrent parts of the virtual machine are modelled as systems whose actions
are the atomic steps of all parties. A run is any finite sequence of enabled
actions, so a statement about reachable states is a statement about every
interleaving.
-/

namespace JamVM

/-- A system with executable actions. `none` means that the action is not
enabled in the state. -/
structure TransitionSystem (State : Type u) (Action : Type v) where
  initial : State → Prop
  step : State → Action → Option State

namespace TransitionSystem

variable {State : Type u} {Action : Type v}

section
variable (system : TransitionSystem State Action)

/-- States reached by runs whose every step meets `allowed`, a condition on the
state before the step and the action taken. -/
inductive ReachableWhile (allowed : State → Action → Prop) : State → Prop
  | initial {state : State} : system.initial state → ReachableWhile allowed state
  | step {current next : State} {action : Action} : ReachableWhile allowed current →
      allowed current action →
      system.step current action = some next →
      ReachableWhile allowed next

def Reachable : State → Prop := ReachableWhile system fun _ _ => True

def run : State → List Action → Option State
  | state, [] => some state
  | state, action :: rest => (system.step state action).bind (run · rest)

end

variable {system : TransitionSystem State Action} {allowed : State → Action → Prop} {start : State}
  {actions : List Action}

theorem of_guard {guard : Prop} [Decidable guard] {res next : State}
    (ran : (if guard then some res else none) = some next) : guard ∧ res = next := by
  split at ran
  · rename_i holds
    exact ⟨holds, Option.some.inj ran⟩
  · cases ran

/-- The invariant rule: what holds initially and is kept by every allowed step
holds in every state reached by allowed steps. -/
theorem ReachableWhile.invariant (holds : State → Prop)
    (initially : ∀ state, system.initial state → holds state)
    (preserved : ∀ current action next, holds current → allowed current action →
      system.step current action = some next → holds next)
    (reachable : system.ReachableWhile allowed state) :
    holds state := by
  induction reachable with
  | initial start => exact initially _ start
  | step _ permitted ran ih => exact preserved _ _ _ ih permitted ran

theorem Reachable.of_run (reachable : system.Reachable start)
    (executed : system.run start actions = some finish) :
    system.Reachable finish := by
  induction actions generalizing start with
  | nil => exact Option.some.inj executed ▸ reachable
  | cons action rest ih =>
    cases ran : system.step start action with
    | none => simp [run, ran] at executed
    | some =>
      rw [run, ran] at executed
      exact ih (.step reachable trivial ran) executed

theorem Reachable.of_any [DecidablePred holds] (start : State) (actions : List Action)
    (reachable : system.Reachable start)
    (run : (system.run start actions).any (fun state => holds state) = true) :
    ∃ state, system.Reachable state ∧ holds state := by
  obtain ⟨state, executed, res⟩ := (Option.any_eq_true _ _).mp run
  exact ⟨state, reachable.of_run executed, of_decide_eq_true res⟩

def runWhile (system : TransitionSystem State Action) (allowed : State → Action → Prop)
    [∀ state action, Decidable (allowed state action)] :
    State → List Action → Option State
  | state, [] => some state
  | state, action :: rest =>
    if allowed state action then
      (system.step state action).bind (system.runWhile allowed · rest)
    else
      none

theorem ReachableWhile.of_runWhile [∀ state action, Decidable (allowed state action)]
    (reachable : system.ReachableWhile allowed start)
    (executed : system.runWhile allowed start actions = some finish) :
    system.ReachableWhile allowed finish := by
  induction actions generalizing start with
  | nil => exact Option.some.inj executed ▸ reachable
  | cons action rest ih =>
    rw [runWhile] at executed
    split at executed
    · rename_i permitted
      cases ran : system.step start action with
      | none => simp [ran] at executed
      | some =>
        rw [ran] at executed
        exact ih (.step reachable permitted ran) executed
    · cases executed

theorem ReachableWhile.of_any [∀ state action, Decidable (allowed state action)]
    [DecidablePred holds] (start : State) (actions : List Action)
    (reachable : system.ReachableWhile allowed start)
    (run : (system.runWhile allowed start actions).any (fun state => holds state) = true) :
    ∃ state, system.ReachableWhile allowed state ∧ holds state := by
  obtain ⟨state, executed, res⟩ := (Option.any_eq_true _ _).mp run
  exact ⟨state, reachable.of_runWhile executed, of_decide_eq_true res⟩

/-! ## Progress -/

inductive RunsWhile (system : TransitionSystem State Action)
    (allowed : State → Action → Prop) : State → List Action → State → Prop
  | done (state : State) : RunsWhile system allowed state [] state
  | step {current next final : State} {action : Action} {rest : List Action} :
      allowed current action →
      system.step current action = some next →
      RunsWhile system allowed next rest final →
      RunsWhile system allowed current (action :: rest) final

/-- The progress rule: if no step lets `rank` grow while a state is pending, and
the helpful ones lower it, then a run with enough helpful actions has a last
pending state. -/
theorem RunsWhile.leaves (pending : State → Prop) (rank : State → Nat) (helpful : Action → Bool)
    (descends : ∀ current action next, pending current → allowed current action →
      system.step current action = some next → pending next →
        rank next ≤ rank current ∧ (helpful action = true → rank next < rank current))
    (path : system.RunsWhile allowed start actions final) (isPending : pending start)
    (often : rank start < actions.countP helpful) :
    ∃ pre action post last next, actions = pre ++ action :: post ∧
      system.RunsWhile allowed start pre last ∧ pending last ∧ allowed last action ∧
        system.step last action = some next ∧ ¬ pending next := by
  induction path with
  | done => simp at often
  | @step current next final action rest permitted ran path ih =>
    by_cases remains : pending next
    · have bounded := descends current action next isPending permitted ran remains
      have enough : rank next < rest.countP helpful := by
        rw [List.countP_cons] at often
        split at often
        · have := bounded.2 (by assumption)
          omega
        · omega
      obtain ⟨pre, last, post, middle, left, split, reached, facts⟩ := ih remains enough
      exact ⟨action :: pre, last, post, middle, left, by rw [split]; rfl,
        .step permitted ran reached, facts⟩
    · exact ⟨[], action, rest, current, next, rfl, .done current, isPending, permitted,
        ran, remains⟩

end TransitionSystem

end JamVM
