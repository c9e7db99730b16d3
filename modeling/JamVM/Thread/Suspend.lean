import Mathlib.Algebra.Order.Ring.Int
import JamVM.Foundation.Transition

/-! # Stopping the world

Threads are suspended by `SIGUSR1`, whose handler runs `suspendLoop`. Each
thread publishes in `suspend_state` how it may be treated, and the suspending
thread decides from that variable alone whether a thread has stopped. The
model splits the routines of `thread.c` at every access to `suspend`,
`suspend_state`, the signal mask and the thread list lock.
-/

namespace JamVM.Thread

inductive SuspendState
  | none
  | blocking
  | critical
  | suspended
  deriving DecidableEq

namespace Suspend

/-! A thread is in a stack of `suspendLoop` activations on top of its ordinary
code. An activation is started by the signal handler or called directly at the
end of a region in which suspension was disabled. -/

/-- The next access of a `suspendLoop` activation. At `sleep` it is inside
`sigsuspend`, which only the delivery of a signal ends. -/
inductive LoopPoint
  | entry
  | publish
  | test
  | sleep
  | restore
  deriving DecidableEq

structure Activation where
  point : LoopPoint
  oldState : SuspendState
  handler : Bool
  deriving DecidableEq

/-! The program points of `suspendAllThreads` up to its return at `stopped`,
and from there those of the matching `resumeAllThreads`. A list holds the part
of the thread list that the current loop still has to visit. -/

inductive SuspenderPoint (Thread : Type u)
  | acquire
  | signal (rest : List Thread)
  | check (thread : Thread) (rest : List Thread)
  | kill (thread : Thread) (rest : List Thread)
  | await (rest : List Thread)
  | release
  | stopped
  | reacquire
  | clear (rest : List Thread)
  | recheck (thread : Thread) (rest : List Thread)
  | rekill (thread : Thread) (rest : List Thread)
  | drain (rest : List Thread)
  | rerelease
  deriving DecidableEq

/-! Where the ordinary code of a thread stands. `blocking` and `critical` are
the regions opened by `disableSuspend0` and `fastDisableSuspend`. The suspender
runs in one of two contexts: `gc0` disables suspension first, a thread dump
does not. A `dead` thread has exited without detaching. -/

inductive Location (Thread : Type u)
  | unattached
  | mutator
  | disabling
  | blocking
  | enabling
  | enablingLoop
  | unmasking
  | critical
  | fastEnabling
  | fastMasking
  | fastLoop
  | suspender (disabled : Bool) (point : SuspenderPoint Thread)
  | detached
  | dead
  deriving DecidableEq

structure Local (Thread : Type u) where
  location : Location Thread
  frames : List Activation
  suspendState : SuspendState
  masked : Bool

structure State (Thread : Type u) where
  threads : Thread → Local Thread
  suspend : Thread → Bool
  pending : Thread → Bool
  listed : List Thread
  lock : Option Thread
  allThreadsSuspended : Bool

inductive Call
  | disableSuspend
  | enableSuspend
  | fastDisableSuspend
  | fastEnableSuspend
  | suspendAllThreads
  | resumeAllThreads
  deriving DecidableEq

inductive Action (Thread : Type u)
  | run (thread : Thread)
  | call (thread : Thread) (call : Call)
  | proceed (thread : Thread)
  | deliver (thread : Thread)
  | kill (thread : Thread)
  | attach (thread : Thread)
  | detach (thread : Thread)
  | exit (thread : Thread)
  deriving DecidableEq

/-! ## Steps on the thread's own variables -/

namespace Local

variable {Thread : Type u}

variable (thread : Local Thread)

/-- The step of the topmost activation. Returning from a handler that ran
inside `sigsuspend` takes the interrupted activation back to its loop test. -/
def loopStep (suspend : Bool) (top : Activation) (rest : List Activation) : Option (Local Thread) :=
  match top.point with
  | .entry =>
    some { thread with frames :=
      { top with point := .publish, oldState := thread.suspendState } :: rest }
  | .publish =>
    some { thread with
      frames := { top with point := .test } :: rest
      suspendState := .suspended }
  | .test =>
    if suspend ∧ top.oldState = .none then
      some { thread with frames := { top with point := .sleep } :: rest }
    else
      some { thread with frames := { top with point := .restore } :: rest }
  | .sleep => none
  | .restore =>
    some { thread with
      location := if top.handler then thread.location else .unmasking
      frames := match rest with
        | [] => []
        | interrupted :: others => { interrupted with point := .test } :: others
      suspendState := top.oldState }

def regionStep (suspend : Bool) : Option (Local Thread) :=
  match thread.location with
  | .disabling => some { thread with location := .blocking, masked := true }
  | .enabling =>
    if suspend then
      some { thread with
        location := .enablingLoop
        frames := [⟨.entry, .none, false⟩] }
    else
      some { thread with location := .unmasking }
  | .unmasking => some { thread with location := .mutator, masked := false }
  | .fastEnabling =>
    if suspend then
      some { thread with location := .fastMasking }
    else
      some { thread with location := .mutator }
  | .fastMasking =>
    some { thread with
      location := .fastLoop
      frames := [⟨.entry, .none, false⟩]
      masked := true }
  | _ => none

def callStep (call : Call) : Option (Local Thread) :=
  match call, thread.location with
  | .disableSuspend, .mutator =>
    some { thread with location := .disabling, suspendState := .blocking }
  | .enableSuspend, .blocking => some { thread with location := .enabling, suspendState := .none }
  | .fastDisableSuspend, .mutator =>
    some { thread with location := .critical, suspendState := .critical }
  | .fastEnableSuspend, .critical =>
    some { thread with location := .fastEnabling, suspendState := .none }
  | .suspendAllThreads, .mutator => some { thread with location := .suspender false .acquire }
  | .suspendAllThreads, .blocking => some { thread with location := .suspender true .acquire }
  | .resumeAllThreads, .suspender disabled .stopped =>
    some { thread with location := .suspender disabled .reacquire }
  | _, _ => none

/-- A pending signal is delivered to a thread of the virtual machine unless the
mask or a running handler blocks it; `sigsuspend` lifts both. -/
def deliverable : Bool :=
  match thread.location, thread.frames with
  | .unattached, _ | .detached, _ | .dead, _ => false
  | _, [] => !thread.masked
  | _, top :: rest =>
    top.point = .sleep || !thread.masked && (top :: rest).all fun frame => !frame.handler

def deliverStep : Local Thread := { thread with frames := ⟨.entry, .none, true⟩ :: thread.frames }

end Local

/-! ## Steps on shared variables -/

section
variable {Thread : Type u} [DecidableEq Thread]

section
variable (state : State Thread)

def State.setThread (thread : Thread) (changed : Local Thread) : State Thread :=
  { state with threads := Function.update state.threads thread changed }

def State.moveTo (thread : Thread) (disabled : Bool)
    (point : SuspenderPoint Thread) : State Thread :=
  state.setThread thread
    { state.threads thread with location := .suspender disabled point }

def State.setSuspend (thread : Thread) (value : Bool) : State Thread :=
  { state with suspend := Function.update state.suspend thread value }

def State.setPending (thread : Thread) (value : Bool) : State Thread :=
  { state with pending := Function.update state.pending thread value }

def suspenderStep (self : Thread) (disabled : Bool) : SuspenderPoint Thread → Option (State Thread)
  | .acquire =>
    if state.lock = none then
      some ({ state with lock := some self }.moveTo self disabled (.signal state.listed))
    else
      none
  | .signal [] => some (state.moveTo self disabled (.await state.listed))
  | .signal (thread :: rest) =>
    if thread = self then
      some (state.moveTo self disabled (.signal rest))
    else
      some ((state.setSuspend thread true).moveTo self disabled (.check thread rest))
  | .check thread rest =>
    if (state.threads thread).suspendState = .none then
      some (state.moveTo self disabled (.kill thread rest))
    else
      some (state.moveTo self disabled (.signal rest))
  | .kill thread rest =>
    if (state.threads thread).location = .dead then
      -- `pthread_kill` has returned `ESRCH`.
      some ((state.setThread thread
        { state.threads thread with suspendState := .blocking }).moveTo
          self disabled (.signal rest))
    else
      some ((state.setPending thread true).moveTo self disabled (.signal rest))
  | .await [] => some (state.moveTo self disabled .release)
  | .await (thread :: rest) =>
    if thread = self ∨ (state.threads thread).suspendState = .blocking ∨
        (state.threads thread).suspendState = .suspended then
      some (state.moveTo self disabled (.await rest))
    else
      some state
  | .release =>
    some ({ state with lock := none, allThreadsSuspended := true }.moveTo self disabled .stopped)
  | .stopped => none
  | .reacquire =>
    if state.lock = none then
      some ({ state with lock := some self }.moveTo self disabled (.clear state.listed))
    else
      none
  | .clear [] => some (state.moveTo self disabled (.drain state.listed))
  | .clear (thread :: rest) =>
    if thread = self then
      some (state.moveTo self disabled (.clear rest))
    else
      some ((state.setSuspend thread false).moveTo self disabled (.recheck thread rest))
  | .recheck thread rest =>
    if (state.threads thread).suspendState = .suspended then
      some (state.moveTo self disabled (.rekill thread rest))
    else
      some (state.moveTo self disabled (.clear rest))
  | .rekill thread rest => some ((state.setPending thread true).moveTo self disabled (.clear rest))
  | .drain [] => some (state.moveTo self disabled .rerelease)
  | .drain (thread :: rest) =>
    if (state.threads thread).suspendState = .suspended then
      some state
    else
      some (state.moveTo self disabled (.drain rest))
  | .rerelease =>
    some ({ state with lock := none, allThreadsSuspended := false }.setThread self
      { state.threads self with location := if disabled then .blocking else .mutator })

def proceed (thread : Thread) : Option (State Thread) :=
  match (state.threads thread).frames with
  | top :: rest =>
    ((state.threads thread).loopStep (state.suspend thread) top rest).map (state.setThread thread)
  | [] =>
    match (state.threads thread).location with
    | .suspender disabled point => suspenderStep state thread disabled point
    | _ => ((state.threads thread).regionStep (state.suspend thread)).map (state.setThread thread)

def Local.Running (thread : Local Thread) : Prop :=
  thread.frames = [] ∧ (thread.location = .mutator ∨ thread.location = .blocking ∨
    thread.location = .critical)

instance (thread : Local Thread) : Decidable thread.Running := inferInstanceAs (Decidable (_ ∧ _))

def step : Action Thread → Option (State Thread)
  | .run thread => if (state.threads thread).Running then some state else none
  | .call thread call =>
    if (state.threads thread).frames = [] then
      ((state.threads thread).callStep call).map (state.setThread thread)
    else
      none
  | .proceed thread => proceed state thread
  | .deliver thread =>
    if state.pending thread ∧ (state.threads thread).deliverable then
      some ((state.setPending thread false).setThread thread (state.threads thread).deliverStep)
    else
      none
  | .kill thread => some (state.setPending thread true)
  | .attach thread =>
    -- `initThread` waits until the world is running.
    if (state.threads thread).location = .unattached ∧ (state.threads thread).frames = [] ∧
        state.lock = none ∧ state.allThreadsSuspended = false then
      some ({ state with
        listed := state.listed.take 1 ++ thread :: state.listed.drop 1 }.setThread
          thread { state.threads thread with location := .mutator })
    else
      none
  | .detach thread =>
    -- The main thread is first in the list and never removed.
    if (state.threads thread).location = .blocking ∧
        (state.threads thread).frames = [] ∧ state.lock = none ∧
        state.listed.head? ≠ some thread then
      some ({ state with listed := state.listed.erase thread }.setThread
        thread { state.threads thread with location := .detached })
    else
      none
  | .exit thread =>
    if (state.threads thread).Running then
      some (state.setThread thread { state.threads thread with location := .dead })
    else
      none

end

def initialState (main : Thread) : State Thread where
  threads thread :=
    { location := if thread = main then .mutator else .unattached
      frames := []
      suspendState := .none
      masked := false }
  suspend _ := false
  pending _ := false
  listed := [main]
  lock := none
  allThreadsSuspended := false

def system (main : Thread) : TransitionSystem (State Thread) (Action Thread) where
  initial state := state = initialState main
  step := step

end

end Suspend

end JamVM.Thread
