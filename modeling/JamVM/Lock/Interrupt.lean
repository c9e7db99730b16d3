import JamVM.Lock.MonitorWait

/-! # Interrupting a waiting thread

`threadInterrupt` holds no lock while it looks at its target. The model splits
it and `monitorWait` at every access to `interrupted`, `interrupting`,
`wait_mon` and `owner` and at every mutex and condition operation. The wait
sets are lists; a thread's `wait_next` is set while it is on one of them.
-/

namespace JamVM.Lock.Interrupt

open Function

/-- The next access of `monitorWait`. At `asleep` the thread is blocked on its
condition variable. -/
inductive WaitPoint
  | disown
  | publish
  | reset
  | append
  | test
  | enter
  | asleep
  | reacquire
  | leave
  | unpublish
  | reown
  | finish
  deriving DecidableEq

structure Wait (Monitor : Type v) where
  monitor : Monitor
  timed : Bool
  interruptible : Bool
  timeout : Bool
  interrupted : Bool
  deriving DecidableEq

inductive InterruptPoint (Monitor : Type v)
  | mark
  | readMonitor
  | readNext (monitor : Monitor)
  | raise (monitor : Monitor)
  | trylock (monitor : Monitor)
  | readOwner (monitor : Monitor)
  | signal (monitor : Monitor) (locked : Bool)
  | unlock (monitor : Monitor)
  deriving DecidableEq

/-! A thread that is outside all these routines is `idle`, whether it owns
monitors or not. `claiming` and `releasing` are the points of `monitorLock` and
`monitorUnlock` at which the mutex is held without an owner. -/

inductive Location (Thread : Type u) (Monitor : Type v)
  | idle
  | acquiring (monitor : Monitor)
  | claiming (monitor : Monitor)
  | releasing (monitor : Monitor)
  | waiting (wait : Wait Monitor) (point : WaitPoint)
  | interrupting (target : Thread) (point : InterruptPoint Monitor)
  deriving DecidableEq

/-- `struck` records that an interrupt of the thread has completed during its
present wait. -/
structure State (Thread : Type u) (Monitor : Type v) where
  location : Thread → Location Thread Monitor
  waitMonitor : Thread → Option Monitor
  interrupted : Thread → Bool
  interrupting : Thread → Bool
  waitId : Thread → Nat
  notifyId : Thread → Nat
  mutex : Monitor → Option Thread
  owner : Monitor → Option Thread
  waitCount : Monitor → Nat
  waitSet : Monitor → List Thread
  struck : Thread → Bool

inductive Action (Thread : Type u) (Monitor : Type v)
  | lock (self : Thread) (monitor : Monitor)
  | unlock (self : Thread) (monitor : Monitor)
  | wait (self : Thread) (monitor : Monitor) (timed interruptible : Bool)
  | notify (self : Thread) (monitor : Monitor)
  | notifyAll (self : Thread) (monitor : Monitor)
  | interrupt (self target : Thread)
  | clear (self : Thread)
  | proceed (self : Thread)
  | expire (thread : Thread)
  | wake (thread : Thread)
  deriving DecidableEq

section
variable {Thread : Type u} {Monitor : Type v} [DecidableEq Thread] [DecidableEq Monitor]

section
variable (state : State Thread Monitor)

def State.moveTo (thread : Thread) (location : Location Thread Monitor) : State Thread Monitor :=
  { state with location := update state.location thread location }

def linked (thread : Thread) : Bool :=
  match state.location thread with
  | .waiting wait _ => thread ∈ state.waitSet wait.monitor
  | _ => false

def condSignal (thread : Thread) : State Thread Monitor :=
  match state.location thread with
  | .waiting wait .asleep => state.moveTo thread (.waiting wait .reacquire)
  | _ => state

def waitSetAppend (monitor : Monitor) (thread : Thread) : State Thread Monitor :=
  { state with
    waitSet := update state.waitSet monitor (state.waitSet monitor ++ [thread])
    waitId := update state.waitId thread (state.waitCount monitor)
    waitCount := update state.waitCount monitor ((state.waitCount monitor + 1) % counterRange) }

def waitSetUnlinkThread (monitor : Monitor) (thread : Thread) : State Thread Monitor :=
  { state with
    waitSet := update state.waitSet monitor ((state.waitSet monitor).erase thread) }

def waitSetSignalNext (monitor : Monitor) : State Thread Monitor :=
  match state.waitSet monitor with
  | [] => state
  | thread :: _ =>
    let state := condSignal (waitSetUnlinkThread state monitor thread) thread
    { state with
      notifyId := update state.notifyId thread (state.waitCount monitor) }

/-! ## `monitorWait` -/

def forward (self : Thread) (monitor : Monitor) : State Thread Monitor :=
  match state.waitSet monitor with
  | [] => state
  | head :: _ =>
    if state.waitId head < state.notifyId self then
      let next := waitSetSignalNext state monitor
      { next with
        notifyId := update next.notifyId head (state.notifyId self) }
    else
      state

def abandon (self : Thread) (monitor : Monitor) : State Thread Monitor :=
  if linked state self then waitSetUnlinkThread state monitor self else forward state self monitor

def waitStep (self : Thread) (wait : Wait Monitor) : WaitPoint → Option (State Thread Monitor)
  | .disown =>
    some ({ state with owner := update state.owner wait.monitor none }.moveTo
      self (.waiting wait .publish))
  | .publish =>
    some ({ state with
      waitMonitor := update state.waitMonitor self (some wait.monitor) }.moveTo
        self (.waiting wait .reset))
  | .reset =>
    some ({ state with
      interrupting := update state.interrupting self false }.moveTo self (.waiting wait .append))
  | .append => some ((waitSetAppend state wait.monitor self).moveTo self (.waiting wait .test))
  | .test =>
    if linked state self ∧ ¬ state.interrupting self ∧ ¬ wait.timeout then
      some (state.moveTo self (.waiting wait .enter))
    else
      some (state.moveTo self (.waiting wait .leave))
  | .enter =>
    some ({ state with mutex := update state.mutex wait.monitor none }.moveTo
      self (.waiting wait .asleep))
  | .asleep => none
  | .reacquire =>
    if state.mutex wait.monitor = none then
      some ({ state with
        mutex := update state.mutex wait.monitor (some self) }.moveTo self (.waiting wait .test))
    else
      none
  | .leave =>
    if state.interrupting self ∨ wait.timeout then
      some ((abandon state self wait.monitor).moveTo self (.waiting
        { wait with interrupted := wait.interruptible && !wait.timeout } .unpublish))
    else
      some (state.moveTo self (.waiting wait .unpublish))
  | .unpublish =>
    some ({ state with
      waitMonitor := update state.waitMonitor self none }.moveTo self (.waiting wait .reown))
  | .reown =>
    some ({ state with
      owner := update state.owner wait.monitor (some self) }.moveTo self (.waiting wait .finish))
  | .finish =>
    -- A local `interrupted` throws `InterruptedException`.
    if wait.interrupted then
      some ({ state with
        interrupted := update state.interrupted self false }.moveTo self .idle)
    else
      some (state.moveTo self .idle)

/-! ## `threadInterrupt` -/

def Location.isWaiting : Location Thread Monitor → Bool
  | .waiting _ _ => true
  | _ => false

def complete (self target : Thread) : State Thread Monitor :=
  { state.moveTo self .idle with
    struck := if (state.location target).isWaiting then
        update state.struck target true
      else
        state.struck }

def interruptStep (self target : Thread) : InterruptPoint Monitor → State Thread Monitor
  | .mark =>
    { state with interrupted := update state.interrupted target true }.moveTo
      self (.interrupting target .readMonitor)
  | .readMonitor =>
    match state.waitMonitor target with
    | none => complete state self target
    | some monitor => state.moveTo self (.interrupting target (.readNext monitor))
  | .readNext monitor =>
    if linked state target then
      state.moveTo self (.interrupting target (.raise monitor))
    else
      complete state self target
  | .raise monitor =>
    { state with interrupting := update state.interrupting target true }.moveTo
      self (.interrupting target (.trylock monitor))
  | .trylock monitor =>
    if state.mutex monitor = none then
      { state with mutex := update state.mutex monitor (some self) }.moveTo
        self (.interrupting target (.signal monitor true))
    else
      state.moveTo self (.interrupting target (.readOwner monitor))
  | .readOwner monitor =>
    if state.owner monitor = none then
      state.moveTo self (.interrupting target (.trylock monitor))
    else
      state.moveTo self (.interrupting target (.signal monitor false))
  | .signal monitor locked =>
    if locked then
      (condSignal state target).moveTo self (.interrupting target (.unlock monitor))
    else
      complete (condSignal state target) self target
  | .unlock monitor => complete { state with mutex := update state.mutex monitor none } self target

/-! ## Steps -/

def proceed (self : Thread) : Option (State Thread Monitor) :=
  match state.location self with
  | .idle => none
  | .acquiring monitor =>
    if state.mutex monitor = none then
      some ({ state with
        mutex := update state.mutex monitor (some self) }.moveTo self (.claiming monitor))
    else
      none
  | .claiming monitor =>
    some ({ state with
      owner := update state.owner monitor (some self) }.moveTo self .idle)
  | .releasing monitor =>
    some ({ state with mutex := update state.mutex monitor none }.moveTo self .idle)
  | .waiting wait point => waitStep state self wait point
  | .interrupting target point => some (interruptStep state self target point)

/-- Idle threads call the routines. Recursive locking by the owner only counts
and is left out. -/
def step : Action Thread Monitor → Option (State Thread Monitor)
  | .lock self monitor =>
    if state.location self = .idle ∧ state.owner monitor ≠ some self then
      some (state.moveTo self (.acquiring monitor))
    else
      none
  | .unlock self monitor =>
    if state.location self = .idle ∧ state.owner monitor = some self then
      some ({ state with owner := update state.owner monitor none }.moveTo
        self (.releasing monitor))
    else
      none
  | .wait self monitor timed interruptible =>
    if state.location self = .idle ∧ state.owner monitor = some self then
      let interrupted := interruptible && state.interrupted self
      some ({ state with struck := update state.struck self false }.moveTo self
        (.waiting ⟨monitor, timed, interruptible, false, interrupted⟩
          (if interrupted then .finish else .disown)))
    else
      none
  | .notify self monitor =>
    if state.location self = .idle ∧ state.owner monitor = some self then
      some (waitSetSignalNext state monitor)
    else
      none
  | .notifyAll self monitor =>
    if state.location self = .idle ∧ state.owner monitor = some self then
      some ((state.waitSet monitor).foldl (fun state _ => waitSetSignalNext state monitor) state)
    else
      none
  | .interrupt self target =>
    if state.location self = .idle then
      some (state.moveTo self (.interrupting target .mark))
    else
      none
  | .clear self =>
    if state.location self = .idle then
      some { state with interrupted := update state.interrupted self false }
    else
      none
  | .proceed self => proceed state self
  | .expire thread =>
    match state.location thread with
    | .waiting wait .asleep =>
      if wait.timed then
        some (state.moveTo thread (.waiting { wait with timeout := true } .reacquire))
      else
        none
    | _ => none
  | .wake thread => some (condSignal state thread)

end

def initialState : State Thread Monitor where
  location _ := .idle
  waitMonitor _ := none
  interrupted _ := false
  interrupting _ := false
  waitId _ := 0
  notifyId _ := 0
  mutex _ := none
  owner _ := none
  waitCount _ := 0
  waitSet _ := []
  struck _ := false

def system (Thread : Type u) (Monitor : Type v) [DecidableEq Thread] [DecidableEq Monitor] :
    TransitionSystem (State Thread Monitor) (Action Thread Monitor) where
  initial state := state = initialState
  step := step

end

end JamVM.Lock.Interrupt
