import Mathlib.Algebra.Order.Ring.Int
import JamVM.Foundation.Ring
import JamVM.Foundation.Transition

/-! # Waiting on a monitor

`monitorWait`, `monitorNotify` and `monitorNotifyAll` on one monitor. All their
accesses to the monitor happen under its mutex, so a step runs from one mutex
operation to the next. A waiting thread sleeps on its own condition variable;
signals, time-outs and interrupts come in between.
-/

namespace JamVM.Lock

open Function

def counterRange : Nat := 2 ^ 32

@[ext]
structure Monitor (Thread : Type u) where
  owner : Option Thread
  count : Nat
  inWait : Nat
  waitCount : Nat
  waitSet : Option Thread

/-- The local variables of a `monitorWait` call that has released the monitor.
The serial number counts the waits begun before it. -/
structure Wait where
  serial : Nat
  oldCount : Nat
  timed : Bool
  interruptible : Bool
  asleep : Bool
  timeout : Bool

/-! The history records for each wait how far it has come, and for each
notification issued while some thread was waiting what became of it. -/

inductive Status
  | absent
  | waiting
  | notified
  | left (asNotified : Bool)
  deriving DecidableEq

inductive Outcome
  | held (serial : Nat)
  | delivered (serial : Nat)
  | dropped
  deriving DecidableEq

/-- A notification issued after `issued` waits had begun. The candidates are
the waits on the wait set at that moment. -/
structure Notice where
  issued : Nat
  candidates : Nat → Bool
  outcome : Outcome

@[ext]
structure State (Thread : Type u) where
  monitor : Monitor Thread
  links : Links Thread
  waitId : Thread → Nat
  notifyId : Thread → Nat
  interrupted : Thread → Bool
  interrupting : Thread → Bool
  wait : Thread → Option Wait
  begun : Nat
  status : Nat → Status
  notices : List Notice

inductive Action (Thread : Type u)
  | lock (self : Thread)
  | unlock (self : Thread)
  | wait (self : Thread) (timed interruptible : Bool)
  | notify (self : Thread)
  | notifyAll (self : Thread)
  | interrupt (thread : Thread)
  | raise (thread : Thread)
  | wake (thread : Thread)
  | expire (thread : Thread)
  | resume (thread : Thread)

section
variable {Thread : Type u} [DecidableEq Thread]

/-! ## The wait set -/

section
variable (state : State Thread)

def waitSetAppend (thread : Thread) : State Thread :=
  { state with
    monitor := { state.monitor with
      waitSet := some (state.monitor.waitSet.getD thread)
      waitCount := (state.monitor.waitCount + 1) % counterRange }
    links := match state.monitor.waitSet with
      | none => (state.links.setPrev thread (some thread)).insertLast thread thread
      | some head => state.links.insertLast head thread
    waitId := update state.waitId thread state.monitor.waitCount }

def waitSetUnlinkThread (thread : Thread) : State Thread :=
  { state with
    monitor := { state.monitor with
      waitSet :=
        if state.monitor.waitSet = some thread then
          if state.links.next thread = some thread then none else state.links.next thread
        else
          state.monitor.waitSet }
    links := state.links.unlink thread }

def condSignal (thread : Thread) : State Thread :=
  { state with
    wait := update state.wait thread
      ((state.wait thread).map fun wait => { wait with asleep := false }) }

def serial (thread : Thread) : Nat := ((state.wait thread).map Wait.serial).getD 0

def setStatus (serial : Nat) (status : Status) : State Thread :=
  { state with status := update state.status serial status }

def waitSetSignalNext : State Thread × Option Thread :=
  match state.monitor.waitSet with
  | none => (state, none)
  | some thread =>
    let state := condSignal (waitSetUnlinkThread state thread) thread
    let state := { state with
      notifyId := update state.notifyId thread state.monitor.waitCount }
    (setStatus state (serial state thread) .notified, some thread)

/-! ## Notifying -/

def notifyNext : State Thread × Option Thread :=
  match waitSetSignalNext state with
  | (_, none) => (state, none)
  | (next, some thread) =>
    ({ next with notices := next.notices ++
        [{ issued := state.begun
           candidates := fun serial => state.status serial = .waiting
           outcome := .held (serial state thread) }] }, some thread)

end

def notifyLoop : Nat → State Thread → State Thread
  | 0, state => state
  | fuel + 1, state =>
    match notifyNext state with
    | (next, none) => next
    | (next, some _) => notifyLoop fuel next

section
variable (state : State Thread)

def monitorNotify : State Thread := (notifyNext state).1

def monitorNotifyAll : State Thread := notifyLoop (state.begun + 1) state

/-! ## Waiting -/

section
variable (self : Thread)

/-- `monitorWait` up to the first sleep. An interrupt that is already pending
is thrown instead. -/
def beginWait (timed interruptible : Bool) : State Thread :=
  if interruptible ∧ state.interrupted self then
    { state with interrupted := update state.interrupted self false }
  else
    let released := { state with
      monitor := { state.monitor with
        owner := none
        count := 0
        inWait := state.monitor.inWait + 1 }
      interrupting := update state.interrupting self false
      wait := update state.wait self
        (some { serial := state.begun
                oldCount := state.monitor.count
                timed := timed
                interruptible := interruptible
                asleep := true
                timeout := false })
      begun := state.begun + 1 }
    setStatus (waitSetAppend released self) state.begun .waiting

def Notice.reassign (serial : Nat) (outcome : Outcome) (notice : Notice) : Notice :=
  if notice.outcome = .held serial then { notice with outcome := outcome } else notice

/-- A notified wait ends for another reason: hand the notification to the first
thread of the wait set, if that was waiting when it was issued. -/
def forward : State Thread :=
  match state.monitor.waitSet with
  | none => { state with notices := state.notices.map (.reassign (serial state self) .dropped) }
  | some head =>
    if state.waitId head < state.notifyId self then
      let next := (waitSetSignalNext state).1
      { next with
        notifyId := update next.notifyId head (state.notifyId self)
        notices := next.notices.map (.reassign (serial state self) (.held (serial state head))) }
    else
      { state with notices := state.notices.map (.reassign (serial state self) .dropped) }

def reown (wait : Wait) (asNotified : Bool) : State Thread :=
  setStatus { state with
    monitor := { state.monitor with
      owner := some self
      count := wait.oldCount
      inWait := state.monitor.inWait - 1 }
    wait := update state.wait self none } wait.serial (.left asNotified)

def abandon (wait : Wait) : State Thread :=
  if state.links.next self ≠ none then
    reown (waitSetUnlinkThread state self) self wait false
  else
    reown (forward state self) self wait false

/-- `monitorWait` after its waiting loop. An interrupt after a time-out remains
pending. -/
def leave (wait : Wait) : State Thread :=
  if state.interrupting self ∨ wait.timeout then
    if wait.interruptible ∧ ¬ wait.timeout then
      { abandon state self wait with
        interrupted := update state.interrupted self false }
    else
      abandon state self wait
  else
    reown { state with notices :=
      state.notices.map (.reassign wait.serial (.delivered wait.serial)) } self wait true

def resume (wait : Wait) : State Thread :=
  if state.links.next self ≠ none ∧ ¬ state.interrupting self ∧ ¬ wait.timeout then
    { state with wait := update state.wait self (some { wait with asleep := true }) }
  else
    leave state self wait

end

/-! ## Steps -/

/-- Threads that are not waiting call the monitor's routines. `monitorWait`,
`monitorNotify` and `monitorNotifyAll` do nothing without ownership. -/
def step : Action Thread → Option (State Thread)
  | .lock self =>
    if (state.wait self).isSome then
      none
    else if state.monitor.owner = some self then
      some { state with monitor := { state.monitor with count := state.monitor.count + 1 } }
    else if state.monitor.owner = none then
      some { state with monitor := { state.monitor with owner := some self } }
    else
      none
  | .unlock self =>
    if state.monitor.owner = some self then
      if state.monitor.count = 0 then
        some { state with monitor := { state.monitor with owner := none } }
      else
        some { state with monitor := { state.monitor with count := state.monitor.count - 1 } }
    else
      none
  | .wait self timed interruptible =>
    if state.monitor.owner = some self then
      some (beginWait state self timed interruptible)
    else
      none
  | .notify self => if state.monitor.owner = some self then some (monitorNotify state) else none
  | .notifyAll self =>
    if state.monitor.owner = some self then some (monitorNotifyAll state) else none
  | .interrupt thread => some { state with interrupted := update state.interrupted thread true }
  | .raise thread =>
    some (condSignal
      { state with interrupting := update state.interrupting thread true } thread)
  | .wake thread => some (condSignal state thread)
  | .expire thread =>
    match state.wait thread with
    | some wait =>
      if wait.timed then
        some { state with
          wait := update state.wait thread (some { wait with asleep := false, timeout := true }) }
      else
        none
    | none => none
  | .resume self =>
    match state.wait self with
    | some wait =>
      if state.monitor.owner = none ∧ ¬ wait.asleep then some (resume state self wait) else none
    | none => none

end

def initialState : State Thread where
  monitor :=
    { owner := none
      count := 0
      inWait := 0
      waitCount := 0
      waitSet := none }
  links := ⟨fun _ => none, fun _ => none⟩
  waitId _ := 0
  notifyId _ := 0
  interrupted _ := false
  interrupting _ := false
  wait _ := none
  begun := 0
  status _ := .absent
  notices := []

def system (Thread : Type u) [DecidableEq Thread] :
    TransitionSystem (State Thread) (Action Thread) where
  initial state := state = initialState
  step := step

end

end JamVM.Lock
